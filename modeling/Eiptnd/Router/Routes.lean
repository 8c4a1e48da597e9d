import Eiptnd.Router.Ports
import Eiptnd.Router.FanOut
import Mathlib.Data.Prod.Lex

/-! `request_router`: the dispatchers that get the records of a translator on a port. -/
namespace Eiptnd.Router

open Flat

/-- `std::pair` compares by the port first. -/
abbrev RouteKey := Port ×ₗ Str

/-- An instance of a dispatcher: its plugin, and how many instances there were before. -/
structure Dispatcher where
  uid : Str
  serial : Nat
  deriving DecidableEq, Repr

abbrev Routes := FlatMap RouteKey (List Dispatcher)

structure RequestRouter where
  loadedDispatchers : FlatMap Str PluginInfo
  dispatchers : FlatMap Str Dispatcher
  routes : Routes
  created : Nat

/-- The function that `papi.process_data` is bound to. -/
inductive ProcessData
  | request (dispatchTargets : List Dispatcher)
  | callbackFalse
  deriving DecidableEq, Repr

/-- `api_translator`, as far as the router sets it up. -/
structure ApiTranslator where
  remoteAddress : Str
  processData : ProcessData
  deriving DecidableEq, Repr

/-- What is posted to the `io_service` for a record. -/
inductive Post (ρ : Type)
  | handleProcessData (target : Dispatcher) (record : ρ)
  | callback (ok : Bool)
  deriving DecidableEq, Repr

/-- `process_data` with the targets of a route. -/
def processData {ρ : Type} (dispatchTargets : List Dispatcher) (record : ρ) : List (Post ρ) :=
  match dispatchTargets with
  | [] => [.callback false]
  | [target] => [.handleProcessData target record]
  | targets => targets.map fun target => .handleProcessData target record

def ProcessData.call {ρ : Type} (record : ρ) : ProcessData → List (Post ρ)
  | .request targets => Router.processData targets record
  | .callbackFalse => [.callback false]

/-- `it == routes_.end() || it->first != key`; `none` where the iterator may not be used. -/
def passedBy (key : RouteKey) (routes : Routes) (it : Iterator) : Option Bool :=
  if it.version ≠ routes.version then none
  else if it = routes.past then some true
  else (routes.deref it).map (·.1 ≠ key)

def addRoute (key : RouteKey) (dispatcher : Dispatcher) (routes : Routes) (it : Iterator) :
    Except Fault (Routes × Iterator) :=
  match passedBy key routes it with
  | none => .error .invalidIterator
  | some passed =>
    let it := if passed then routes.find key else it
    if it = routes.past then .ok (routes.emplace key [dispatcher])
    else .ok (routes.modify it (· ++ [dispatcher]), it)

namespace RequestRouter

def empty : RequestRouter := ⟨FlatMap.empty, FlatMap.empty, FlatMap.empty, 0⟩

def add (info : PluginInfo) (r : RequestRouter) : RequestRouter :=
  { r with loadedDispatchers := (r.loadedDispatchers.emplace info.puid info).1 }

/-- `setup_api` is called on what the cast to a dispatcher gives. -/
def create (uid : Str) (r : RequestRouter) :
    Except Fault (Interface × Dispatcher × RequestRouter) :=
  match r.loadedDispatchers.lookup uid with
  | none => .error .outOfRange
  | some info =>
    if info.creator.derives = .dispatcher then
      .ok (info.creator, ⟨uid, r.created⟩, { r with created := r.created + 1 })
    else .error .nullPointer

/-- `authenticate` lets everybody in. -/
def authenticate (_remoteAddress _id _password : Str) (_r : RequestRouter) : Bool := true

def setupConnectionRoutes (uid : Str) (port : Port) (remoteAddress : Str) (r : RequestRouter) :
    ApiTranslator :=
  match r.routes.lookup (toLex (port, uid)) with
  | some targets => ⟨remoteAddress, .request targets⟩
  | none => ⟨remoteAddress, .callbackFalse⟩

end RequestRouter

section Settings

-- `get<unsigned short>("")` of a value, `none` where it throws.
variable (portNum : Str → Option Port)

/-- The innermost loop: the ports of one translator. -/
def addTcp (uid : Str) (dispatcher : Dispatcher) :
    List (Str × Ptree) → Routes → Iterator → Except Fault (Routes × Iterator)
  | [], routes, it => .ok (routes, it)
  | arr :: tcp, routes, it =>
    match portNum arr.2.data with
    | none => .error .badData
    | some port =>
      match addRoute (toLex (port, uid)) dispatcher routes it with
      | .error e => .error e
      | .ok (routes, it) => addTcp uid dispatcher tcp routes it

/-- The translators of one dispatcher. -/
def addSource (dispatcher : Dispatcher) :
    List (Str × Ptree) → Routes → Iterator → Except Fault (Routes × Iterator)
  | [], routes, it => .ok (routes, it)
  | translator :: source, routes, it =>
    match addTcp portNum translator.1 dispatcher (translator.2.getChild "tcp".toList).children
        routes it with
    | .error e => .error e
    | .ok (routes, it) => addSource dispatcher source routes it

namespace RequestRouter

def loadDispatchers : List (Str × Ptree) → RequestRouter → Except Fault RequestRouter
  | [], r => .ok r
  | entry :: settings, r =>
    match r.create entry.1 with
    | .error e => .error e
    | .ok (instance_, dispatcher, r) =>
      if instance_.accepts entry.2 then
        let r := { r with dispatchers := (r.dispatchers.emplace entry.1 dispatcher).1 }
        match addSource portNum dispatcher (entry.2.getChild "source".toList).children
            r.routes r.routes.past with
        | .error e => .error e
        | .ok (routes, _) => loadDispatchers settings { r with routes := routes }
      else .error .thrown

def loadSettings (settings : Ptree) (r : RequestRouter) : Except Fault RequestRouter :=
  loadDispatchers portNum settings.children r

end RequestRouter

end Settings

/-! ### The table without a cached iterator -/

/-- An entry goes in under its key, or behind those that are there. -/
def addPlain (routes : Routes) (entry : RouteKey × Dispatcher) : Routes :=
  match routes.lookup entry.1 with
  | none => (routes.emplace entry.1 [entry.2]).1
  | some _ => routes.modify (routes.find entry.1) (· ++ [entry.2])

/-- The dispatchers of a key, in the order of the entries. -/
def targets (key : RouteKey) (entries : List (RouteKey × Dispatcher)) : List Dispatcher :=
  (entries.filter (·.1 = key)).map (·.2)

theorem lookup_addPlain (routes : Routes) (entry : RouteKey × Dispatcher) (key : RouteKey) :
    (addPlain routes entry).lookup key =
      if key = entry.1 then some ((routes.lookup key).getD [] ++ [entry.2])
      else routes.lookup key := by
  rw [addPlain]
  cases found : routes.lookup entry.1 with
  | none =>
    dsimp only
    rw [FlatMap.lookup_emplace]
    split
    next same => simp [same, found]
    next => rfl
  | some there =>
    have here : routes.deref (routes.find entry.1) = some (entry.1, there) := by
      rw [FlatMap.deref_find, found, Option.map_some]
    dsimp only
    rw [FlatMap.lookup_modify _ _ here]
    split
    next same => simp [same, found]
    next => rfl

theorem lookup_foldl_addPlain (entries : List (RouteKey × Dispatcher)) (routes : Routes)
    (key : RouteKey) : (entries.foldl addPlain routes).lookup key =
      if targets key entries = [] then routes.lookup key
      else some ((routes.lookup key).getD [] ++ targets key entries) := by
  induction entries generalizing routes with
  | nil => rfl
  | cons entry entries ih =>
    rw [List.foldl_cons, ih, lookup_addPlain]
    by_cases same : key = entry.1
    · have first : targets key (entry :: entries) = entry.2 :: targets key entries := by
        simp [targets, same]
      rw [first, if_neg (List.cons_ne_nil _ _), if_pos same]
      split
      next none => simp [none]
      next => simp
    · have skipped : targets key (entry :: entries) = targets key entries := by
        rw [targets, List.filter_cons_of_neg (by simpa using Ne.symm same), ← targets]
      rw [skipped, if_neg same]

/-! ### The cached iterator -/

/-- The iterator may be used, and stands at an entry or at the end. -/
structure Current (routes : Routes) (it : Iterator) : Prop where
  version : it.version = routes.version
  stands : it = routes.past ∨ (routes.deref it).isSome

theorem current_past (routes : Routes) : Current routes routes.past := ⟨rfl, Or.inl rfl⟩

theorem find_version (key : RouteKey) (routes : Routes) :
    (routes.find key).version = routes.version := by
  rw [FlatMap.find]
  split <;> rfl

/-- Whether it is used or not, the iterator comes to stand where `find` does. -/
theorem addRoute_find {routes : Routes} {it : Iterator} (current : Current routes it)
    (key : RouteKey) (dispatcher : Dispatcher) : addRoute key dispatcher routes it =
      if routes.find key = routes.past then .ok (routes.emplace key [dispatcher])
      else .ok (routes.modify (routes.find key) (· ++ [dispatcher]), routes.find key) := by
  obtain ⟨version, stands⟩ := current
  unfold addRoute passedBy
  rw [if_neg (not_not.mpr version)]
  by_cases atEnd : it = routes.past
  · rw [if_pos atEnd]
    rfl
  · obtain ⟨⟨key', _⟩, here⟩ := Option.isSome_iff_exists.mp (stands.resolve_left atEnd)
    rw [if_neg atEnd, here, Option.map_some]
    by_cases same : key' = key
    · subst same
      have found := FlatMap.eq_find_of_deref here
      simp [← found]
    · simp [same]

theorem addRoute_plain {routes : Routes} {it : Iterator} (current : Current routes it)
    (key : RouteKey) (dispatcher : Dispatcher) :
    ∃ it', addRoute key dispatcher routes it = .ok (addPlain routes (key, dispatcher), it') ∧
      Current (addPlain routes (key, dispatcher)) it' := by
  rw [addRoute_find current]
  rw [addPlain]
  cases found : routes.lookup key with
  | none =>
    have entry := FlatMap.deref_emplace key [dispatcher] routes found
    have current' : Current (routes.emplace key [dispatcher]).1 (routes.emplace key [dispatcher]).2 := by
      refine ⟨?_, Or.inr (by rw [entry]; rfl)⟩
      rw [FlatMap.deref] at entry
      split at entry
      next same => exact same
      next => cases entry
    exact ⟨_, by rw [if_pos (FlatMap.find_eq_past_iff.mpr found)], current'⟩
  | some there =>
    have present : routes.find key ≠ routes.past := by
      rw [ne_eq, FlatMap.find_eq_past_iff, found]
      exact Option.some_ne_none there
    refine ⟨_, by rw [if_neg present], find_version key routes, Or.inr ?_⟩
    rw [FlatMap.deref_modify, FlatMap.deref_find, found]
    rfl

/-! ### What a configuration asks for -/

section Settings

variable (portNum : Str → Option Port)

/-- The ports in the `tcp` list of a translator. -/
def tcpKeys (uid : Str) (tcp : List (Str × Ptree)) : List RouteKey :=
  tcp.filterMap fun arr => (portNum arr.2.data).map fun port => toLex (port, uid)

/-- The ports of all translators that a `source` names. -/
def sourceKeys (source : List (Str × Ptree)) : List RouteKey :=
  source.flatMap fun translator =>
    tcpKeys portNum translator.1 (translator.2.getChild "tcp".toList).children

/-- An entry for each port that is named for a translator; every entry of the settings has a
dispatcher of its own, also if several have one uid. -/
def configuration : Nat → List (Str × Ptree) → List (RouteKey × Dispatcher)
  | _, [] => []
  | created, entry :: settings =>
    ((sourceKeys portNum (entry.2.getChild "source".toList).children).map fun key =>
      (key, ⟨entry.1, created⟩)) ++ configuration (created + 1) settings

variable {portNum}

/-- The loops over one dispatcher fail at a port, or have added its entries. -/
def Adds (dispatcher : Dispatcher) (keys : List RouteKey) (routes : Routes)
    (result : Except Fault (Routes × Iterator)) : Prop :=
  result = .error .badData ∨
    ∃ it, result = .ok ((keys.map (·, dispatcher)).foldl addPlain routes, it) ∧
      Current ((keys.map (·, dispatcher)).foldl addPlain routes) it

variable (portNum) in
theorem addTcp_adds (uid : Str) (dispatcher : Dispatcher) (tcp : List (Str × Ptree))
    {routes : Routes} {it : Iterator} (current : Current routes it) :
    Adds dispatcher (tcpKeys portNum uid tcp) routes (addTcp portNum uid dispatcher tcp routes it) := by
  induction tcp generalizing routes it with
  | nil => exact Or.inr ⟨it, rfl, current⟩
  | cons arr tcp ih =>
    rw [addTcp]
    cases found : portNum arr.2.data with
    | none => exact Or.inl rfl
    | some port =>
      obtain ⟨it', added, current'⟩ := addRoute_plain current (toLex (port, uid)) dispatcher
      have first : tcpKeys portNum uid (arr :: tcp) =
          toLex (port, uid) :: tcpKeys portNum uid tcp := by simp [tcpKeys, found]
      rw [first]
      dsimp only
      rw [added]
      exact ih current'

variable (portNum) in
theorem addSource_adds (dispatcher : Dispatcher) (source : List (Str × Ptree))
    {routes : Routes} {it : Iterator} (current : Current routes it) :
    Adds dispatcher (sourceKeys portNum source) routes
      (addSource portNum dispatcher source routes it) := by
  induction source generalizing routes it with
  | nil => exact Or.inr ⟨it, rfl, current⟩
  | cons translator source ih =>
    rw [addSource]
    rcases addTcp_adds portNum translator.1 dispatcher
      (translator.2.getChild "tcp".toList).children current with failed | ⟨it', added, current'⟩
    · rw [failed]
      exact Or.inl rfl
    · rw [added]
      have later := ih current'
      unfold Adds at later ⊢
      rw [sourceKeys, List.flatMap_cons, ← sourceKeys, List.map_append, List.foldl_append]
      exact later

variable (portNum) in
/-- No setting makes the loops use an iterator that is not valid any more, and when they are
through, the table is the one of plain lookups. -/
theorem loadDispatchers_routes (settings : List (Str × Ptree)) (r : RequestRouter) :
    (∃ e, r.loadDispatchers portNum settings = .error e ∧ e ≠ .invalidIterator) ∨
    ∃ r', r.loadDispatchers portNum settings = .ok r' ∧
      r'.routes = (configuration portNum r.created settings).foldl addPlain r.routes := by
  induction settings generalizing r with
  | nil => exact Or.inr ⟨r, rfl, rfl⟩
  | cons entry settings ih =>
    unfold RequestRouter.loadDispatchers RequestRouter.create
    cases r.loadedDispatchers.lookup entry.1 with
    | none => exact Or.inl ⟨_, rfl, by decide⟩
    | some info =>
      dsimp only
      by_cases derives : info.creator.derives = .dispatcher
      · rw [if_pos derives]
        dsimp only
        by_cases accepts : info.creator.accepts entry.2 = true
        · rw [if_pos accepts]
          rcases addSource_adds portNum ⟨entry.1, r.created⟩
            (entry.2.getChild "source".toList).children (current_past r.routes) with
            failed | ⟨it, added, -⟩
          · rw [failed]
            exact Or.inl ⟨_, rfl, by decide⟩
          · rw [added]
            rw [configuration, List.foldl_append]
            exact ih _
        · rw [if_neg accepts]
          exact Or.inl ⟨_, rfl, by decide⟩
      · rw [if_neg derives]
        exact Or.inl ⟨_, rfl, by decide⟩

theorem loadDispatchers_loaded {settings : List (Str × Ptree)} {r r' : RequestRouter}
    (done : r.loadDispatchers portNum settings = .ok r') :
    r'.loadedDispatchers = r.loadedDispatchers := by
  induction settings generalizing r with
  | nil =>
    cases done
    rfl
  | cons entry settings ih =>
    unfold RequestRouter.loadDispatchers RequestRouter.create at done
    cases found : r.loadedDispatchers.lookup entry.1 with
    | none => simp [found] at done
    | some info =>
      rw [found] at done
      dsimp only at done
      by_cases derives : info.creator.derives = .dispatcher
      · rw [if_pos derives] at done
        dsimp only at done
        split at done
        next =>
          split at done
          next => cases done
          next =>
            have later := ih done
            exact later
        next => cases done
      · simp [derives] at done

theorem processData_eq {ρ : Type} (dispatchTargets : List Dispatcher) (record : ρ) :
    processData dispatchTargets record =
      if dispatchTargets = [] then [.callback false]
      else dispatchTargets.map fun target => .handleProcessData target record := by
  rcases dispatchTargets with _ | ⟨target, _ | ⟨_, _⟩⟩ <;> rfl

/-- A request has as many targets as there are posts, and the callback is posted where it
starts out so. -/
theorem processData_fanOut {ρ : Type} (dispatchTargets : List Dispatcher) (record : ρ) :
    processData dispatchTargets record =
      if (FanOut.start dispatchTargets.length).posted then [.callback false]
      else dispatchTargets.map fun target => .handleProcessData target record := by
  rw [processData_eq]
  cases dispatchTargets <;> rfl

/-- A record goes to the dispatchers that the settings name its translator and port for, once
for each time they do, and without any the callback is posted with false. -/
theorem delivers_configured {r : RequestRouter} (fresh : r.routes = FlatMap.empty)
    (settings : Ptree) :
    r.loadSettings portNum settings ≠ .error .invalidIterator ∧
    ∀ r', r.loadSettings portNum settings = .ok r' →
      r'.routes = (configuration portNum r.created settings.children).foldl addPlain FlatMap.empty ∧
      ∀ (ρ : Type) (record : ρ) (port : Port) (uid address : Str),
        (r'.setupConnectionRoutes uid port address).processData.call record =
          let named := targets (toLex (port, uid)) (configuration portNum r.created settings.children)
          if named = [] then [.callback false]
          else named.map fun target => .handleProcessData target record := by
  rcases loadDispatchers_routes portNum settings.children r with
    ⟨e, failed, other⟩ | ⟨r₁, loaded, table⟩
  · constructor
    · intro invalid
      have same : Except.error e = (Except.error .invalidIterator : Except Fault RequestRouter) :=
        failed.symm.trans invalid
      cases same
      exact other rfl
    · intro r' done
      have same : Except.error e = Except.ok r' := failed.symm.trans done
      cases same
  · constructor
    · intro invalid
      have same : Except.ok r₁ = Except.error Fault.invalidIterator := loaded.symm.trans invalid
      cases same
    · intro r' done
      have same : (Except.ok r₁ : Except Fault RequestRouter) = .ok r' := loaded.symm.trans done
      cases same
      rw [fresh] at table
      refine ⟨table, ?_⟩
      intro ρ record port uid address
      have found := lookup_foldl_addPlain (configuration portNum r.created settings.children)
        FlatMap.empty (toLex (port, uid))
      rw [← table, FlatMap.lookup_empty] at found
      rw [RequestRouter.setupConnectionRoutes]
      dsimp only
      split at found
      next none =>
        rw [found, if_pos none]
        rfl
      next named =>
        rw [found, if_neg named]
        exact (processData_eq _ record).trans (if_neg named)

end Settings

theorem ok_of_any {α : Type} {result : Except Fault α} {p : α → Bool}
    (found : result.toOption.any p = true) : ∃ a, result = .ok a ∧ p a = true := by
  cases result with
  | error e => simp [Except.toOption] at found
  | ok a => exact ⟨a, rfl, found⟩

/-- A conversion that takes the decimal numbers of a port. -/
def decimalPort (s : Str) : Option Port :=
  let n := s.foldl (fun n c => 10 * n + (c.toNat - '0'.toNat)) 0
  if valid : s ≠ [] ∧ s.all Char.isDigit = true ∧ n < 65536 then some ⟨n, valid.2.2⟩ else none

def portList (ports : List String) : Ptree :=
  .node [] [("tcp".toList, .node [] (ports.map fun port => ([], .node port.toList [])))]

/-- Two dispatchers, one of which names a port twice. -/
def sharedSettings : Ptree := .node [] [
  ("logger".toList, .node [] [("source".toList, .node [] [
    ("wialon".toList, portList ["4444", "3333", "4444"]), ("echo".toList, portList ["3333"])])]),
  ("redis".toList, .node [] [("source".toList, .node [] [
    ("wialon".toList, portList ["4444"])])])]

def loggerRedis : RequestRouter :=
  (RequestRouter.empty.add (plain "logger".toList .dispatcher)).add
    (plain "redis".toList .dispatcher)

theorem delivers_configured_shared : ∃ r',
    loggerRedis.loadSettings decimalPort sharedSettings = .ok r' ∧
    (r'.setupConnectionRoutes "wialon".toList 4444 []).processData.call () =
      [.handleProcessData ⟨"logger".toList, 0⟩ (), .handleProcessData ⟨"logger".toList, 0⟩ (),
        .handleProcessData ⟨"redis".toList, 1⟩ ()] := by
  have done : (loggerRedis.loadSettings decimalPort sharedSettings).toOption.any
      (fun _ => true) = true := by decide +kernel
  obtain ⟨r', loaded, -⟩ := ok_of_any done
  have delivered := ((delivers_configured rfl sharedSettings).2 r' loaded).2
  refine ⟨r', loaded, (delivered Unit () 4444 "wialon".toList []).trans ?_⟩
  decide +kernel

end Eiptnd.Router
