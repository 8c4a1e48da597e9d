import Eiptnd.Library.Reactive
import Eiptnd.Library.FlatMap
import Mathlib.Data.List.Lex
import Mathlib.Data.Char
import Mathlib.Order.Fin.Basic

/-! `translator_manager`: the translators that are loaded, and the port each is mapped to. -/
namespace Eiptnd.Router

open Reactive

abbrev Str := List Char

/-- `unsigned short`. -/
abbrev Port := Fin 65536

/-- `ptree`: a value and named children, names may come up again. -/
inductive Ptree
  | node (data : Str) (children : List (Str × Ptree))

def Ptree.data : Ptree → Str
  | .node data _ => data

def Ptree.children : Ptree → List (Str × Ptree)
  | .node _ children => children

/-- `get_child` with an empty tree by default: the first child of the name. -/
def Ptree.getChild (name : Str) (t : Ptree) : Ptree :=
  (t.children.lookup name).getD (.node [] [])

/-- What a plugin says of itself; the library may have been built against another enumeration. -/
inductive PluginType
  | translator | dispatcher | other (value : Int)
  deriving DecidableEq, Repr

/-- The class an instance of a plugin derives from. -/
inductive Class
  | translator | dispatcher | neither
  deriving DecidableEq, Repr

/-- An instance of a plugin: its class, and the settings its `load_settings` does not throw at. -/
structure Interface where
  derives : Class
  accepts : Ptree → Bool

/-- `plugin_info`, with what its `creator_` builds. -/
structure PluginInfo where
  puid : Str
  type : PluginType
  creator : Interface

inductive Fault
  | outOfRange | badData | nullPointer | thrown | invalidIterator | filesystem | systemError
  deriving DecidableEq, Repr

structure TranslatorManager where
  loadedTranslators : FlatMap Str PluginInfo
  portMapping : FlatMultimap Port Str

namespace TranslatorManager

def empty : TranslatorManager := ⟨FlatMap.empty, FlatMultimap.empty⟩

def add (info : PluginInfo) (m : TranslatorManager) : TranslatorManager :=
  { m with loadedTranslators := (m.loadedTranslators.emplace info.puid info).1 }

/-- The cast to a translator gives a null pointer for an instance of another class. -/
def create (uid : Str) (m : TranslatorManager) : Except Fault (Option Interface) :=
  match m.loadedTranslators.lookup uid with
  | some info => .ok (if info.creator.derives = .translator then some info.creator else none)
  | none => .error .outOfRange

def mapPort (port : Port) (uid : Str) (m : TranslatorManager) : TranslatorManager × Bool :=
  match m.loadedTranslators.lookup uid with
  | none => (m, false)
  | some info =>
    if info.type ≠ .translator then (m, false)
    -- Of the uids of the port, only the first is looked at.
    else if (m.portMapping.find port).map (·.2) = some uid then (m, false)
    else ({ m with portMapping := m.portMapping.emplace port uid }, true)

/-- `list_port(port_num)`. -/
def listPort (port : Port) (m : TranslatorManager) : List (Port × Str) :=
  m.portMapping.equalRange port

section Settings

-- `get<unsigned short>("")` of a value, `none` where it throws.
variable (portNum : Str → Option Port)

def mapPorts (uid : Str) : List (Str × Ptree) → TranslatorManager → Except Fault TranslatorManager
  | [], m => .ok m
  | arr :: tcp, m =>
    match portNum arr.2.data with
    | none => .error .badData
    | some port => mapPorts uid tcp (m.mapPort port uid).1

def loadPlugins : List (Str × Ptree) → TranslatorManager → Except Fault TranslatorManager
  | [], m => .ok m
  | plugin :: settings, m =>
    match m.create plugin.1 with
    | .error e => .error e
    | .ok none => .error .nullPointer
    | .ok (some translator) =>
      if translator.accepts plugin.2 then
        match mapPorts portNum plugin.1 (plugin.2.getChild "tcp".toList).children m with
        | .error e => .error e
        | .ok m => loadPlugins settings m
      else .error .thrown

def loadSettings (settings : Ptree) (m : TranslatorManager) : Except Fault TranslatorManager :=
  loadPlugins portNum settings.children m

end Settings

/-! ### Mapping a port -/

/-- A plugin of the uid is loaded and is a translator. -/
def Loaded (uid : Str) (m : TranslatorManager) : Prop :=
  ∃ info, m.loadedTranslators.lookup uid = some info ∧ info.type = .translator

theorem create_iff {uid : Str} {m : TranslatorManager} {translator : Interface} :
    m.create uid = .ok (some translator) ↔ ∃ info, m.loadedTranslators.lookup uid = some info ∧
      info.creator.derives = .translator ∧ info.creator = translator := by
  rw [create]
  cases m.loadedTranslators.lookup uid with
  | none => simp
  | some info => simp

/-- All that `map_port` can do. -/
theorem mapPort_cases (port : Port) (uid : Str) (m : TranslatorManager) :
    m.mapPort port uid = (m, false) ∧
      (m.Loaded uid → (m.portMapping.find port).map (·.2) = some uid) ∨
    m.mapPort port uid = ({ m with portMapping := m.portMapping.emplace port uid }, true) ∧
      m.Loaded uid ∧ (m.portMapping.find port).map (·.2) ≠ some uid := by
  rw [mapPort]
  cases found : m.loadedTranslators.lookup uid with
  | none =>
    refine Or.inl ⟨rfl, ?_⟩
    rintro ⟨info, loaded, -⟩
    simp [found] at loaded
  | some info =>
    dsimp only
    split
    next other =>
      refine Or.inl ⟨rfl, ?_⟩
      rintro ⟨info', loaded, translator⟩
      rw [found] at loaded
      cases loaded
      exact absurd translator other
    next translator =>
      split
      next first => exact Or.inl ⟨rfl, fun _ => first⟩
      next later => exact Or.inr ⟨rfl, ⟨info, found, by simpa using translator⟩, later⟩

end TranslatorManager

/-! ### Sequences of calls -/

/-- Calls of `map_port`, and what they return. -/
def mapping : Machine TranslatorManager (Port × Str) Bool where
  init m := m.portMapping.entries = []
  step m call := some ((m.mapPort call.1 call.2).1, [(m.mapPort call.1 call.2).2])

/-- What a call of `map_port` is for. -/
structure MapsOnce (m : TranslatorManager) (call : Port × Str) : Prop where
  returns : (m.mapPort call.1 call.2).2 = true ↔ m.Loaded call.2 ∧ call ∉ m.portMapping.entries
  unchanged : (m.mapPort call.1 call.2).2 = false →
    (m.mapPort call.1 call.2).1.portMapping = m.portMapping
  once : (m.mapPort call.1 call.2).1.portMapping.entries.Nodup

/-- A pair that is mapped already is the first one of its port. -/
def RepeatsFirst (m : TranslatorManager) (call : Port × Str) : Prop :=
  call ∈ m.portMapping.entries → m.portMapping.find call.1 = some call

instance (m : TranslatorManager) (call : Port × Str) : Decidable (RepeatsFirst m call) :=
  inferInstanceAs (Decidable (_ → _))

/-- Every pair is mapped once, to a translator that is loaded. -/
structure Mapped (m : TranslatorManager) : Prop where
  once : m.portMapping.entries.Nodup
  loaded : ∀ pair ∈ m.portMapping.entries, m.Loaded pair.2

namespace TranslatorManager

theorem find_of_uid {port : Port} {uid : Str} {m : TranslatorManager}
    (first : (m.portMapping.find port).map (·.2) = some uid) :
    m.portMapping.find port = some (port, uid) := by
  obtain ⟨⟨port', uid'⟩, found, same⟩ := Option.map_eq_some_iff.mp first
  rw [FlatMultimap.find_eq_head] at found
  have front := (FlatMultimap.mem_equalRange.mp (List.mem_of_mem_head? found)).2
  rw [FlatMultimap.find_eq_head, found, ← same, ← front]

theorem mem_of_find {port : Port} {pair : Port × Str} {m : TranslatorManager}
    (found : m.portMapping.find port = some pair) : pair ∈ m.portMapping.entries := by
  rw [FlatMultimap.find_eq_head] at found
  exact (FlatMultimap.mem_equalRange.mp (List.mem_of_mem_head? found)).1

theorem mapsOnce_iff {m : TranslatorManager} (mapped : Mapped m) (call : Port × Str) :
    MapsOnce m call ↔ RepeatsFirst m call := by
  obtain ⟨port, uid⟩ := call
  rcases mapPort_cases port uid m with ⟨refused, first⟩ | ⟨taken, loaded, later⟩
  · -- Nothing is mapped, so all turns on what is returned.
    constructor
    · intro maps again
      exact find_of_uid (first (mapped.loaded _ again))
    · intro repeats
      refine ⟨?_, fun _ => by rw [refused], by simpa [refused] using mapped.once⟩
      rw [refused]
      apply iff_of_false Bool.false_ne_true
      rintro ⟨loaded, fresh⟩
      exact fresh (mem_of_find (find_of_uid (first loaded)))
  · have fresh_iff : (port, uid) ∉ m.portMapping.entries ↔ RepeatsFirst m (port, uid) := by
      constructor
      · exact fun fresh again => absurd again fresh
      · intro repeats again
        exact later (by simp [repeats again])
    rw [← fresh_iff]
    constructor
    · exact fun maps => (maps.returns.mp (by rw [taken])).2
    · intro fresh
      refine ⟨by simp [taken, loaded, fresh], by simp [taken], ?_⟩
      rw [taken]
      exact (FlatMultimap.emplace_perm port uid m.portMapping).nodup_iff.mpr
        (List.nodup_cons.mpr ⟨fresh, mapped.once⟩)

theorem loaded_mapPort {port : Port} {uid uid' : Str} {m : TranslatorManager} :
    (m.mapPort port uid).1.Loaded uid' ↔ m.Loaded uid' := by
  rcases mapPort_cases port uid m with ⟨same, -⟩ | ⟨same, -, -⟩
  · rw [same]
  · rw [same]
    rfl

/-- A pair goes in only with a translator that is loaded. -/
theorem mapPort_loaded {port : Port} {uid : Str} {m : TranslatorManager}
    (loaded : ∀ pair ∈ m.portMapping.entries, m.Loaded pair.2) :
    ∀ pair ∈ (m.mapPort port uid).1.portMapping.entries, (m.mapPort port uid).1.Loaded pair.2 := by
  intro pair member
  rw [loaded_mapPort]
  rcases mapPort_cases port uid m with ⟨same, -⟩ | ⟨same, fits, -⟩
  · rw [same] at member
    exact loaded pair member
  · rw [same] at member
    rcases FlatMultimap.mem_emplace.mp member with rfl | old
    · exact fits
    · exact loaded pair old

/-! ### What a sequence of calls maps -/

def mapAll (calls : List (Port × Str)) (m : TranslatorManager) : TranslatorManager :=
  calls.foldl (fun m call => (m.mapPort call.1 call.2).1) m

theorem mapAll_append (calls later : List (Port × Str)) (m : TranslatorManager) :
    m.mapAll (calls ++ later) = (m.mapAll calls).mapAll later := List.foldl_append

/-- The calls that return true. -/
def accepted : List (Port × Str) → TranslatorManager → List (Port × Str)
  | [], _ => []
  | call :: calls, m =>
    (if (m.mapPort call.1 call.2).2 then [call] else []) ++
      accepted calls (m.mapPort call.1 call.2).1

/-- A port lists the uids that were mapped to it, in the order of the calls. -/
theorem listPort_mapAll (port : Port) (calls : List (Port × Str)) (m : TranslatorManager) :
    (m.mapAll calls).listPort port =
      m.listPort port ++ (m.accepted calls).filter (·.1 = port) := by
  induction calls generalizing m with
  | nil => simp [mapAll, accepted]
  | cons call calls ih =>
    obtain ⟨port', uid⟩ := call
    have later := ih (m.mapPort port' uid).1
    rw [mapAll, List.foldl_cons, ← mapAll, later, accepted]
    rcases mapPort_cases port' uid m with ⟨refused, -⟩ | ⟨taken, -, -⟩
    · simp [refused]
    · rw [taken]
      simp only [listPort, FlatMultimap.equalRange_emplace]
      by_cases same : port = port'
      · simp [same]
      · simp [same, Ne.symm same]

theorem mapAll_loadedTranslators (calls : List (Port × Str)) (m : TranslatorManager) :
    (m.mapAll calls).loadedTranslators = m.loadedTranslators := by
  induction calls generalizing m with
  | nil => rfl
  | cons call calls ih =>
    rw [mapAll, List.foldl_cons, ← mapAll, ih]
    rcases mapPort_cases call.1 call.2 m with ⟨same, -⟩ | ⟨same, -, -⟩
    · rw [same]
    · rw [same]

theorem mapAll_loaded (calls : List (Port × Str)) {m : TranslatorManager}
    (loaded : ∀ pair ∈ m.portMapping.entries, m.Loaded pair.2) :
    ∀ pair ∈ (m.mapAll calls).portMapping.entries, (m.mapAll calls).Loaded pair.2 := by
  induction calls generalizing m with
  | nil => exact loaded
  | cons call calls ih => exact ih (mapPort_loaded loaded)

section Settings

variable {portNum : Str → Option Port}

variable (portNum) in
/-- The calls of `map_port` that settings lead to. -/
def portCalls (settings : List (Str × Ptree)) : List (Port × Str) :=
  settings.flatMap fun plugin =>
    (plugin.2.getChild "tcp".toList).children.filterMap fun arr =>
      (portNum arr.2.data).map fun port => (port, plugin.1)

theorem mapPorts_mapAll {uid : Str} {tcp : List (Str × Ptree)} {m m' : TranslatorManager}
    (done : mapPorts portNum uid tcp m = .ok m') :
    m' = m.mapAll (tcp.filterMap fun arr => (portNum arr.2.data).map fun port => (port, uid)) := by
  induction tcp generalizing m with
  | nil =>
    cases done
    rfl
  | cons arr tcp ih =>
    rw [mapPorts] at done
    cases found : portNum arr.2.data with
    | none => simp [found] at done
    | some port =>
      rw [found] at done
      rw [List.filterMap_cons_some (by rw [found, Option.map_some])]
      exact ih done

theorem loadPlugins_mapAll {settings : List (Str × Ptree)} {m m' : TranslatorManager}
    (done : m.loadPlugins portNum settings = .ok m') :
    m' = m.mapAll (portCalls portNum settings) := by
  induction settings generalizing m with
  | nil =>
    cases done
    rfl
  | cons plugin settings ih =>
    rw [loadPlugins] at done
    split at done
    next => cases done
    next => cases done
    next translator _ =>
      split at done
      next =>
        split at done
        next => cases done
        next m₁ mapped =>
          have first := mapPorts_mapAll mapped
          have rest := ih done
          have calls : portCalls portNum (plugin :: settings) = _ ++ portCalls portNum settings :=
            List.flatMap_cons
          rw [rest, first, calls, mapAll_append]
      next => cases done

end Settings

end TranslatorManager

/-- In every sequence of calls, each does what it is for exactly when none repeats a pair
that is not the first one of its port. -/
theorem mapPort_once_iff {m : TranslatorManager} (start : mapping.init m)
    (calls : List (Port × Str)) :
    mapping.EachStep MapsOnce m calls ↔ mapping.EachStep RepeatsFirst m calls := by
  refine Machine.eachStep_iff Mapped (fun m call mapped => m.mapsOnce_iff mapped call) ?_ ?_ calls
  · rintro m call _ _ mapped maps taken
    cases taken
    exact ⟨maps.once, TranslatorManager.mapPort_loaded mapped.loaded⟩
  · have empty : m.portMapping.entries = [] := start
    exact ⟨by simp [empty], by simp [empty]⟩

/-- A plugin that is what its type says and takes all settings. -/
def plain (uid : Str) (type : PluginType) : PluginInfo :=
  ⟨uid, type, ⟨if type = .translator then .translator else .dispatcher, fun _ => true⟩⟩

def wialonPort : Port := 4444

/-- Two translators are loaded. -/
def echoWialon : TranslatorManager :=
  (TranslatorManager.empty.add (plain "echo".toList .translator)).add
    (plain "wialon".toList .translator)

theorem mapPort_once_iff_shared : mapping.EachStep MapsOnce echoWialon
    [(wialonPort, "wialon".toList), (wialonPort, "echo".toList), (wialonPort, "wialon".toList),
      (wialonPort, "logger".toList)] := by
  have start : mapping.init echoWialon := rfl
  apply (mapPort_once_iff start _).mpr
  refine (Machine.eachStep_cons rfl).mpr ⟨by decide, ?_⟩
  refine (Machine.eachStep_cons rfl).mpr ⟨by decide, ?_⟩
  refine (Machine.eachStep_cons rfl).mpr ⟨by decide, ?_⟩
  exact (Machine.eachStep_cons rfl).mpr ⟨by decide, trivial⟩

/-- The second uid of a port is mapped again. -/
theorem mapped_twice : ¬ ∀ m, mapping.init m → ∀ calls, mapping.EachStep MapsOnce m calls := by
  intro claimed
  have each := claimed echoWialon rfl
    [(wialonPort, "wialon".toList), (wialonPort, "echo".toList), (wialonPort, "echo".toList)]
  have later := ((Machine.eachStep_cons rfl).mp each).2
  have last := ((Machine.eachStep_cons rfl).mp later).2
  exact absurd last.1.once (by decide)

end Eiptnd.Router
