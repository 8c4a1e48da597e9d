import Eiptnd.Daemon.Ledger

/-! From the configuration to the running daemon, and where it makes the records go. -/
namespace Eiptnd.Daemon

open Reactive Router

/-- How the settings' values are converted; `none` where a value cannot be. -/
structure Conversions where
  portNum : Str → Option Port
  size : Str → Option Nat
  bool : Str → Option Bool

/-- `get_child_optional` with a path. -/
def childAt : List Str → Ptree → Option Ptree
  | [], t => some t
  | key :: path, t =>
    match t.children.lookup key with
    | none => none
    | some child => childAt path child

/-- `get` with a default, which also stands in for a value that cannot be converted. -/
def getOr {α : Type} (convert : Str → Option α) (path : List String) (default : α) (t : Ptree) : α :=
  ((childAt (path.map String.toList) t).bind fun child => convert child.data).getD default

/-- `dispatcher_redis::load_settings`. -/
def DispatcherRedis.loadSettings (conv : Conversions) (settings : Ptree) : DispatcherRedis :=
  let host := getOr some ["host"] "localhost".toList settings
  let port := getOr some ["port"] "6379".toList settings
  let client := { Redis.Client.initial with
    timeoutConnect := getOr conv.size ["timeout", "connect"] 10 settings
    timeoutPing := getOr conv.size ["timeout", "ping"] 30 settings }
  ⟨getOr conv.bool ["pretty"] false settings,
    { Redis.System.initial with client := (Redis.connectTo host port client).state }, []⟩

/-- `dispatcher_logger::load_settings`. -/
def DispatcherLogger.loadSettings (conv : Conversions) (settings : Ptree) : DispatcherLogger :=
  ⟨getOr conv.size ["delay"] 0 settings, []⟩

def Dispatcher.uid : Dispatcher → Str
  | redis _ => "redis".toList
  | logger _ => "logger-example".toList

/-- A dispatcher with its settings; others than these two are not modelled. -/
def Dispatcher.create (conv : Conversions) (uid : Str) (settings : Ptree) : Option Dispatcher :=
  if uid = "redis".toList then some (redis (.loadSettings conv settings))
  else if uid = "logger-example".toList then some (logger (.loadSettings conv settings))
  else none

/-- One for each entry of the settings. -/
def createAll (conv : Conversions) : List (Str × Ptree) → Option (List Dispatcher)
  | [] => some []
  | (uid, settings) :: rest =>
    match Dispatcher.create conv uid settings, createAll conv rest with
    | some dispatcher, some dispatchers => some (dispatcher :: dispatchers)
    | _, _ => none

/-- The `dispatcher` section of the plugins' settings. -/
def dispatcherEntries (settings : Ptree) : List (Str × Ptree) :=
  (settings.getChild "dispatcher".toList).children

/-- The daemon when its threads begin to run. -/
def boot (conv : Conversions) (files : Files) (settings : Ptree) : Option (PluginFactory × Core) :=
  match PluginFactory.empty.loadSettings files conv.portNum settings with
  | .error _ => none
  | .ok factory =>
    (createAll conv (dispatcherEntries settings)).map fun dispatchers =>
      (factory, ⟨[], dispatchers, [], []⟩)

/-! ### The daemon at its start -/

theorem create_fresh {conv : Conversions} {uid : Str} {settings : Ptree} {dispatcher : Dispatcher}
    (made : Dispatcher.create conv uid settings = some dispatcher) :
    dispatcher.Fresh ∧ dispatcher.uid = uid := by
  rw [Dispatcher.create] at made
  split at made
  next redis =>
    cases made
    exact ⟨⟨⟨⟨rfl, rfl, rfl, rfl, rfl, rfl⟩, rfl, rfl, rfl, rfl, rfl⟩, rfl⟩, redis.symm⟩
  next =>
    split at made
    next logger =>
      cases made
      exact ⟨rfl, logger.symm⟩
    next => cases made

theorem createAll_fresh {conv : Conversions} {entries : List (Str × Ptree)}
    {dispatchers : List Dispatcher} (made : createAll conv entries = some dispatchers) :
    (∀ dispatcher ∈ dispatchers, dispatcher.Fresh) ∧
      dispatchers.map Dispatcher.uid = entries.map Prod.fst := by
  induction entries generalizing dispatchers with
  | nil =>
    cases made
    simp
  | cons entry entries ih =>
    rw [createAll] at made
    split at made
    next dispatcher later first rest =>
      cases made
      obtain ⟨fresh, uid⟩ := create_fresh first
      obtain ⟨all, uids⟩ := ih rest
      refine ⟨?_, by rw [List.map_cons, List.map_cons, uid, uids]⟩
      intro other member
      rcases List.mem_cons.mp member with rfl | listed
      · exact fresh
      · exact all other listed
    next => cases made

/-- Every dispatcher a configuration names has been created by then. -/
theorem configuration_serial (portNum : Str → Option Port) (created : Nat)
    (entries : List (Str × Ptree)) : ∀ entry ∈ configuration portNum created entries,
      entry.2.serial < created + entries.length := by
  induction entries generalizing created with
  | nil => simp [configuration]
  | cons first entries ih =>
    intro entry member
    rw [configuration, List.mem_append, List.mem_map] at member
    rw [List.length_cons]
    rcases member with ⟨key, -, rfl⟩ | later
    · dsimp only
      omega
    · have below := ih (created + 1) entry later
      omega

theorem foldl_load_router (infos : List PluginInfo) (f : PluginFactory) :
    (infos.foldl PluginFactory.load f).requestRouter.routes = f.requestRouter.routes ∧
      (infos.foldl PluginFactory.load f).requestRouter.created = f.requestRouter.created := by
  induction infos generalizing f with
  | nil => exact ⟨rfl, rfl⟩
  | cons info infos ih =>
    obtain ⟨routes, created⟩ := ih (f.load info)
    have same : (f.load info).requestRouter.created = f.requestRouter.created := by
      rcases PluginFactory.load_cases f info with ⟨same, -⟩ | ⟨-, -, same⟩ | ⟨-, -, same⟩
      · rw [same]
      · rw [same]
      · rw [same]
        rfl
    exact ⟨routes.trans (PluginFactory.load_portMapping f info).2, created.trans same⟩

/-- The routes of a factory are those that the settings ask for. -/
theorem loadSettings_routes {files : Files} {portNum : Str → Option Port} {settings : Ptree}
    {factory : PluginFactory}
    (done : PluginFactory.empty.loadSettings files portNum settings = .ok factory) (key : RouteKey) :
    factory.requestRouter.routes.lookup key =
      if targets key (configuration portNum 0 (dispatcherEntries settings)) = [] then none
      else some (targets key (configuration portNum 0 (dispatcherEntries settings))) := by
  rw [PluginFactory.loadSettings] at done
  split at done
  · cases done
  next f path =>
    have start := PluginFactory.loadPath_loads path
    obtain ⟨routes, created⟩ :=
      foldl_load_router (PluginFactory.loads files settings) PluginFactory.empty
    rw [← start] at routes created
    split at done
    · cases done
    · split at done
      · cases done
      next router routed =>
        cases done
        dsimp only
        rcases @loadDispatchers_routes portNum (dispatcherEntries settings)
          f.requestRouter with ⟨e, failed, -⟩ | ⟨r', loaded, table⟩
        · have same : Except.error e = Except.ok router := failed.symm.trans routed
          cases same
        · have same : Except.ok r' = (Except.ok router : Except Fault RequestRouter) :=
            loaded.symm.trans routed
          cases same
          rw [table, lookup_foldl_addPlain, routes, created]
          rfl

theorem boot_some {conv : Conversions} {files : Files} {settings : Ptree} {factory : PluginFactory}
    {d : Core} (booted : boot conv files settings = some (factory, d)) :
    PluginFactory.empty.loadSettings files conv.portNum settings = .ok factory ∧
      ∃ dispatchers, createAll conv (dispatcherEntries settings) = some dispatchers ∧
        d = ⟨[], dispatchers, [], []⟩ := by
  rw [boot] at booted
  split at booted
  · cases booted
  next factory' done =>
    obtain ⟨dispatchers, made, same⟩ := Option.map_eq_some_iff.mp booted
    cases same
    exact ⟨done, dispatchers, made, rfl⟩

theorem boot_fresh {conv : Conversions} {files : Files} {settings : Ptree} {factory : PluginFactory}
    {d : Core} (booted : boot conv files settings = some (factory, d)) : d.Fresh factory := by
  obtain ⟨done, dispatchers, made, rfl⟩ := boot_some booted
  obtain ⟨fresh, uids⟩ := createAll_fresh made
  refine ⟨rfl, rfl, rfl, fresh, ?_⟩
  intro key targets' found target member
  rw [loadSettings_routes done] at found
  split at found
  · cases found
  · cases found
    have listed : ∃ entry ∈ configuration conv.portNum 0 (dispatcherEntries settings),
        entry.2 = target := by
      obtain ⟨entry, inside, same⟩ := List.mem_map.mp member
      exact ⟨entry, (List.mem_filter.mp inside).1, same⟩
    obtain ⟨entry, inside, rfl⟩ := listed
    have below := configuration_serial _ 0 _ entry inside
    have size := congrArg List.length uids
    rw [List.length_map, List.length_map] at size
    dsimp only
    omega

/-! ### Where the records go -/

/-- The dispatchers that the settings name for this protocol on a port, in order. -/
def named (conv : Conversions) (settings : Ptree) (port : Port) : List Nat :=
  (targets (toLex (port, "wialon".toList))
    (configuration conv.portNum 0 (dispatcherEntries settings))).map fun target => target.serial

section Routing

variable {conv : Conversions} {files : Files} {settings : Ptree} {factory : PluginFactory}
  {boost : Wialon.Boost} {json : Dptree.Boost} {d d' : Core}

theorem serials_named
    (done : PluginFactory.empty.loadSettings files conv.portNum settings = .ok factory)
    (port : Port) (address : Str) :
    serials (factory.requestRouter.setupConnectionRoutes "wialon".toList port address).processData =
      named conv settings port := by
  rw [RequestRouter.setupConnectionRoutes, loadSettings_routes done, named]
  split
  next targets' found =>
    split at found
    · cases found
    · cases found
      rfl
  next found =>
    split at found
    next none =>
      rw [none]
      rfl
    next => cases found

/-- Every record goes where the settings send what comes in on the port of its connection, and
the dispatchers are those that the settings list. -/
structure Core.Routed (conv : Conversions) (settings : Ptree) (d : Core) : Prop where
  links : ∀ link ∈ d.links, serials link.papi.processData = named conv settings link.port
  records : ∀ (record : Nat) (r : Record) (link : Link), d.records[record]? = some r →
    d.links[r.connection]? = some link → r.targets = named conv settings link.port
  dispatchers : d.dispatchers.map Dispatcher.uid = (dispatcherEntries settings).map Prod.fst

theorem act_uid {dispatcher dispatcher' : Dispatcher} {activity : Activity} {reported : List Report}
    (acts : dispatcher.act activity = some (dispatcher', reported)) :
    dispatcher'.uid = dispatcher.uid := by
  cases dispatcher with
  | redis dr =>
    cases activity with
    | handler e =>
      rw [Dispatcher.act] at acts
      split at acts
      · obtain ⟨_, -, same⟩ := Option.map_eq_some_iff.mp acts
        cases same
        rfl
      · cases acts
    | timer => cases acts
  | logger dl =>
    cases activity with
    | handler => cases acts
    | timer place =>
      obtain ⟨_, -, same⟩ := Option.map_eq_some_iff.mp acts
      cases same
      rfl

theorem handleProcessData_uid {dispatcher dispatcher' : Dispatcher} {ticket : Ticket}
    {tree : Dptree} {reported : List Report}
    (handled : dispatcher.handleProcessData json ticket tree = some (dispatcher', reported)) :
    dispatcher'.uid = dispatcher.uid := by
  cases dispatcher with
  | redis dr =>
    obtain ⟨_, -, same⟩ := Option.map_eq_some_iff.mp handled
    cases same
    rfl
  | logger dl =>
    obtain ⟨_, -, same⟩ := Option.map_eq_some_iff.mp handled
    cases same
    rfl

theorem uids_set {dispatchers : List Dispatcher} {serial : Nat} {dispatcher dispatcher' : Dispatcher}
    (found : dispatchers[serial]? = some dispatcher) (same : dispatcher'.uid = dispatcher.uid) :
    (dispatchers.set serial dispatcher').map Dispatcher.uid = dispatchers.map Dispatcher.uid := by
  obtain ⟨bound, rfl⟩ := List.getElem?_eq_some_iff.mp found
  rw [List.map_set, same]
  have own : dispatchers[serial].uid =
      (dispatchers.map Dispatcher.uid).get ⟨serial, by simpa using bound⟩ := by simp
  rw [own]
  exact List.set_getElem_self _

/-- The part of a connection that stays as it was set up. -/
def Link.setUp (link : Link) : Port × ApiTranslator := (link.port, link.papi)

/-- What happens to the callbacks concerns neither the routes nor what records are about. -/
theorem Core.Routed.congr (routed : d.Routed conv settings) (same : SameRecords d d')
    (links : d'.links.map Link.setUp = d.links.map Link.setUp)
    (dispatchers : d'.dispatchers.map Dispatcher.uid = d.dispatchers.map Dispatcher.uid) :
    d'.Routed conv settings := by
  have origin {connection : Nat} {link' : Link} (here : d'.links[connection]? = some link') :
      ∃ link, d.links[connection]? = some link ∧ link.port = link'.port ∧ link.papi = link'.papi := by
    have both := congrArg (fun all => all[connection]?) links
    rw [List.getElem?_map, List.getElem?_map, here, Option.map_some, eq_comm,
      Option.map_eq_some_iff] at both
    obtain ⟨link, there, parts⟩ := both
    simp only [Link.setUp, Prod.mk.injEq] at parts
    exact ⟨link, there, parts⟩
  refine ⟨?_, ?_, dispatchers.trans routed.dispatchers⟩
  · intro link' member
    obtain ⟨connection, here⟩ := List.getElem?_of_mem member
    obtain ⟨link, there, port, papi⟩ := origin here
    rw [← port, ← papi]
    exact routed.links link (List.mem_of_getElem? there)
  · intro record r' link' found here
    have before := same record
    rw [found, Option.map_some, eq_comm, Option.map_eq_some_iff] at before
    obtain ⟨r, found, parts⟩ := before
    simp only [Record.handed, Prod.mk.injEq] at parts
    obtain ⟨link, there, port, -⟩ := origin here
    rw [← parts.1] at there
    rw [← port, ← parts.2.2.2]
    exact routed.records record r link found there

theorem setUp_set {links : List Link} {connection : Nat} {link link' : Link}
    (here : links[connection]? = some link) (same : link'.setUp = link.setUp) :
    (links.set connection link').map Link.setUp = links.map Link.setUp := by
  obtain ⟨bound, rfl⟩ := List.getElem?_eq_some_iff.mp here
  rw [List.map_set, same]
  have own : links[connection].setUp =
      (links.map Link.setUp).get ⟨connection, by simpa using bound⟩ := by simp
  rw [own]
  exact List.set_getElem_self _

theorem complete_setUp {record connection : Nat} {oks : List Bool}
    (completed : Core.complete boost record connection d oks = some d') :
    d'.links.map Link.setUp = d.links.map Link.setUp := by
  induction oks generalizing d with
  | nil =>
    cases completed
    rfl
  | cons ok oks ih =>
    rw [Core.complete] at completed
    split at completed
    · cases completed
    next link here =>
      split at completed
      · cases completed
      next link' done =>
        have same : link'.setUp = link.setUp := by
          rw [Link.complete] at done
          split at done
          · cases done
          · cases done
            rfl
        exact (ih completed).trans (setUp_set here same)

theorem fanOut_setUp {record : Nat} {e : Router.Event} (stepped : d.fanOut boost record e = some d') :
    d'.links.map Link.setUp = d.links.map Link.setUp := by
  rw [Core.fanOut] at stepped
  split at stepped
  · cases stepped
  · split at stepped
    · cases stepped
    · have kept := complete_setUp stepped
      exact kept

theorem reportAll_setUp {reports : List Report} (reported : d.reportAll boost reports = some d') :
    d'.links.map Link.setUp = d.links.map Link.setUp := by
  induction reports generalizing d with
  | nil =>
    cases reported
    rfl
  | cons report reports ih =>
    obtain ⟨ticket, ok⟩ := report
    obtain ⟨d₁, first, later⟩ := Option.bind_eq_some_iff.mp reported
    obtain ⟨d₂, used, released⟩ := Option.bind_eq_some_iff.mp first
    exact (ih later).trans ((fanOut_setUp released).trans (fanOut_setUp used))

theorem Core.Steps.routed {e : Event} {reported : List Report}
    (done : PluginFactory.empty.loadSettings files conv.portNum settings = .ok factory)
    (alive : d.alive = true) (step : d.Steps boost factory json e d' reported)
    (wired : d.Wired boost factory) (books : d.Books []) (routed : d.Routed conv settings) :
    d'.Routed conv settings := by
  -- What is left to do once a dispatcher has run.
  have report {d₁ : Core}
      (kept : d₁.Wired boost factory ∧ d₁.links = d.links ∧ d₁.Books (reported.map Prod.fst))
      (routed₁ : d₁.Routed conv settings) (done : d₁.reportAll boost reported = some d') :
      d'.Routed conv settings := by
    obtain ⟨-, -, -, dispatchers, records, -⟩ := reportAll_kept alive kept done
    exact routed₁.congr records (reportAll_setUp done) (by rw [dispatchers])
  cases step with
  | accept port address memory papi made =>
    obtain rfl := connectionOf_some made
    refine ⟨?_, ?_, routed.dispatchers⟩
    · intro link member
      rcases List.mem_append.mp member with old | new
      · exact routed.links link old
      · rw [List.mem_singleton.mp new]
        exact serials_named done port address
    · intro record r link found here
      have bound := (wired.records record r found).connection
      rw [List.getElem?_append_left bound] at here
      exact routed.records record r link found here
  | session connection e _ _ reads moved =>
    obtain ⟨link, session, out, here, -, rfl⟩ := onSession_some moved
    have bound := (List.getElem?_eq_some_iff.mp here).1
    have links : (d.links.set connection { link with
        session := session
        waiting := link.waiting ++ List.range' d.records.length (handedOver out).length }).map
          Link.setUp = d.links.map Link.setUp := setUp_set here rfl
    have kept : Core.Routed conv settings { d with links := d.links.set connection { link with
        session := session
        waiting := link.waiting ++ List.range' d.records.length (handedOver out).length } } :=
      routed.congr (fun _ => rfl) links rfl
    refine ⟨kept.links, ?_, kept.dispatchers⟩
    intro record r link₁ found here₁
    rcases record_append.mp found with old | ⟨-, new⟩
    · exact kept.records record r link₁ old here₁
    · rw [List.getElem?_map, Option.map_eq_some_iff] at new
      obtain ⟨call, -, rfl⟩ := new
      have own : (d.links.set connection _)[connection]? = some link₁ := here₁
      rw [List.getElem?_set_self bound] at own
      cases own
      exact routed.links link (List.mem_of_getElem? here)
  | fanOut record e _ _ still moved =>
    obtain ⟨-, -, dispatchers, records, -⟩ := fanOut_books wired alive books still moved
    exact routed.congr records (fanOut_setUp moved) (by rw [dispatchers])
  | run place d₁ _ _ ran done =>
    have kept := run_books wired books ran
    obtain ⟨ticket, serial, tree, dispatcher, dispatcher', -, -, -, found, handled, rfl⟩ :=
      run_some ran
    have routed₁ : Core.Routed conv settings { d with
        tasks := d.tasks.eraseIdx place
        dispatchers := d.dispatchers.set serial dispatcher' } :=
      routed.congr (fun _ => rfl) rfl (uids_set found (handleProcessData_uid handled))
    exact report kept routed₁ done
  | act serial activity d₁ _ _ acted done =>
    have kept := act_books wired books acted
    obtain ⟨dispatcher, dispatcher', found, acts, rfl⟩ := act_some acted
    have routed₁ : Core.Routed conv settings
        { d with dispatchers := d.dispatchers.set serial dispatcher' } :=
      routed.congr (fun _ => rfl) rfl (uids_set found (act_uid acts))
    exact report kept routed₁ done

end Routing

/-! ### The example configuration -/

/-- Decimal numbers, and the two words for truth values. -/
def plainConversions : Conversions where
  portNum := decimalPort
  size s := (decimalPort s).map Fin.val
  bool s := if s = "true".toList then some true else if s = "false".toList then some false else none

def leaf (key value : String) : Str × Ptree := (key.toList, .node value.toList [])

/-- Both dispatchers get what trackers send on one port, and the logger takes its time. -/
def exampleSettings : Ptree := .node [] [
  ("translator".toList, .node [] [("wialon".toList, portList ["4444"])]),
  ("dispatcher".toList, .node [] [
    ("logger-example".toList, .node [] [leaf "delay" "500",
      ("source".toList, .node [] [("wialon".toList, portList ["4444"])])]),
    ("redis".toList, .node [] [leaf "host" "localhost", leaf "port" "6789",
      ("source".toList, .node [] [("wialon".toList, portList ["4444"])])])])]

def examplePlugins : Files := disk [Router.plain "wialon".toList .translator,
  Router.plain "logger-example".toList .dispatcher, Router.plain "redis".toList .dispatcher]

theorem example_boots : (boot plainConversions examplePlugins exampleSettings).isSome = true := by
  decide +kernel

def exampleFactory : PluginFactory :=
  ((boot plainConversions examplePlugins exampleSettings).get example_boots).1

def exampleCore : Core := ((boot plainConversions examplePlugins exampleSettings).get example_boots).2

theorem example_boot : boot plainConversions examplePlugins exampleSettings =
    some (exampleFactory, exampleCore) := (Option.some_get example_boots).symm

def exampleMachine : Machine Core Event Report := core Wialon.plain exampleFactory Dptree.escaping

/-- A line on a connection, with nothing in between. -/
def Event.whole (connection : Nat) (message : String) : List Event :=
  .line connection message.toList ::
    List.replicate ((Wialon.tokens message.toList).length + 1) (.token connection true)

/-- A tracker logs in and sends a message. -/
def exampleMessage : List Event :=
  .accept wialonPort [] Wialon.accepted.plugin :: Event.whole 0 "#L#i;p" ++ Event.whole 0 "#M#hi"

def exampleAfter (events : List Event) : Core := exampleMachine.after exampleCore events

theorem example_reachable (events : List Event) : exampleMachine.Reachable (exampleAfter events) :=
  Machine.Reachable.after (boot_fresh example_boot) events

end Eiptnd.Daemon
