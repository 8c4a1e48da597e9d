import Eiptnd.Router.Routes
import Mathlib.Data.List.Dedup

/-! `plugin_factory` and its users: every port that is listened on has a translator.

The factory registers a plugin and hands it to the manager of its type. What the manager maps
by the settings, `core::run` listens on, and a connection looks up again. -/
namespace Eiptnd.Router

structure PluginFactory where
  translatorManager : TranslatorManager
  requestRouter : RequestRouter
  plugins : FlatMap Str PluginInfo

/-- What is found on the disk. -/
structure Files where
  currentPath : Str
  /-- An absolute path as it is, another one below the working directory. -/
  resolve : Str → Str
  /-- The libraries in a directory, `none` where it cannot be read or one is no plugin. -/
  libraries : Str → Option (List PluginInfo)

namespace PluginFactory

def empty : PluginFactory := ⟨TranslatorManager.empty, RequestRouter.empty, FlatMap.empty⟩

def load (f : PluginFactory) (info : PluginInfo) : PluginFactory :=
  match f.plugins.lookup info.puid with
  | some _ => f
  | none =>
    match info.type with
    | .translator =>
      { f with
        translatorManager := f.translatorManager.add info
        plugins := (f.plugins.emplace info.puid info).1 }
    | .dispatcher =>
      { f with
        requestRouter := f.requestRouter.add info
        plugins := (f.plugins.emplace info.puid info).1 }
    -- Unknown types are unloaded again.
    | .other _ => f

def loadDir (files : Files) (path : Str) (f : PluginFactory) : Except Fault PluginFactory :=
  match files.libraries path with
  | none => .error .filesystem
  | some found => .ok (found.foldl load f)

def loadDirs (files : Files) : List (Str × Ptree) → PluginFactory → Except Fault PluginFactory
  | [], f => .ok f
  | v :: path, f =>
    match f.loadDir files (files.resolve v.2.data) with
    | .error e => .error e
    | .ok f => loadDirs files path f

def loadPath (files : Files) (settings : Ptree) (f : PluginFactory) : Except Fault PluginFactory :=
  match settings.children.lookup "path".toList with
  | some path => f.loadDirs files path.children
  | none => f.loadDir files files.currentPath

def loadSettings (files : Files) (portNum : Str → Option Port) (settings : Ptree)
    (f : PluginFactory) : Except Fault PluginFactory :=
  match f.loadPath files settings with
  | .error e => .error e
  | .ok f =>
    match f.translatorManager.loadSettings portNum (settings.getChild "translator".toList) with
    | .error e => .error e
    | .ok manager =>
      match f.requestRouter.loadSettings portNum (settings.getChild "dispatcher".toList) with
      | .error e => .error e
      | .ok router => .ok { f with translatorManager := manager, requestRouter := router }

/-- The ports `core::run` opens a server for, on each address it is given. -/
def tcpPorts (f : PluginFactory) : List Port :=
  (f.translatorManager.portMapping.entries.map (·.1)).dedup

end PluginFactory

/-! ### A connection -/

/-- What the endpoints of a socket come to, `none` where asking for them throws. -/
structure Socket where
  localPort : Option Port
  remoteAddress : Option Str
  deriving DecidableEq, Repr

/-- The port of a socket that a server accepted: the one the server was opened for, unless it
left the choice to the system. -/
def boundPort (picked port : Port) : Port := if port.val = 0 then picked else port

theorem boundPort_of_ne {port : Port} (notPicked : port ≠ 0) (picked : Port) :
    boundPort picked port = port :=
  if_neg fun zero : port.val = 0 => notPicked (Fin.ext zero)

/-- What `on_connection` sets up. -/
structure Connection where
  puid : Str
  papi : ApiTranslator
  processHandler : Interface

/-- The uid that the loop over `list_port` leaves. -/
def PluginFactory.selectUid (port : Port) (f : PluginFactory) : Str :=
  (f.translatorManager.listPort port).foldl (fun _ i => i.2) []

/-- `starts` tells whether `setup_api` and `handle_start` of the translator return. -/
def onConnection (starts : Interface → Bool) (f : PluginFactory) (socket : Socket) :
    Except Fault Connection :=
  match socket.localPort, socket.remoteAddress with
  | some port, some address =>
    let puid := f.selectUid port
    let papi := f.requestRouter.setupConnectionRoutes puid port address
    match f.translatorManager.create puid with
    | .error e => .error e
    | .ok none => .error .nullPointer
    | .ok (some processHandler) =>
      if starts processHandler then .ok ⟨puid, papi, processHandler⟩ else .error .thrown
  | _, _ => .error .systemError

/-! ### The registries -/

/-- A plugin that the factory has a manager for. -/
def PluginInfo.known (info : PluginInfo) : Bool :=
  match info.type with
  | .translator | .dispatcher => true
  | .other _ => false

/-- Every registered plugin is with the manager of its type, and nothing else is. -/
structure Registered (f : PluginFactory) : Prop where
  translators : ∀ uid, f.translatorManager.loadedTranslators.lookup uid =
    (f.plugins.lookup uid).filter fun info => decide (info.type = .translator)
  dispatchers : ∀ uid, f.requestRouter.loadedDispatchers.lookup uid =
    (f.plugins.lookup uid).filter fun info => decide (info.type = .dispatcher)
  known : ∀ uid info, f.plugins.lookup uid = some info → info.known = true

namespace PluginFactory

theorem empty_registered : Registered empty :=
  ⟨fun _ => rfl, fun _ => rfl, fun _ _ found => by cases found⟩

/-- All that `load` can do. -/
theorem load_cases (f : PluginFactory) (info : PluginInfo) :
    f.load info = f ∧ (f.plugins.lookup info.puid ≠ none ∨ info.known = false) ∨
    f.plugins.lookup info.puid = none ∧ info.type = .translator ∧ f.load info =
      { f with
        translatorManager := f.translatorManager.add info
        plugins := (f.plugins.emplace info.puid info).1 } ∨
    f.plugins.lookup info.puid = none ∧ info.type = .dispatcher ∧ f.load info =
      { f with
        requestRouter := f.requestRouter.add info
        plugins := (f.plugins.emplace info.puid info).1 } := by
  rw [load]
  cases found : f.plugins.lookup info.puid with
  | some _ => exact Or.inl ⟨rfl, Or.inl (Option.some_ne_none _)⟩
  | none =>
    cases type : info.type with
    | translator => exact Or.inr (Or.inl ⟨rfl, rfl, rfl⟩)
    | dispatcher => exact Or.inr (Or.inr ⟨rfl, rfl, rfl⟩)
    | other _ => exact Or.inl ⟨rfl, Or.inr (by simp [PluginInfo.known, type])⟩

/-- A uid is registered with the first plugin that has it and can be registered. -/
theorem lookup_load (f : PluginFactory) (info : PluginInfo) (uid : Str) :
    (f.load info).plugins.lookup uid =
      (f.plugins.lookup uid).or (if info.puid = uid ∧ info.known = true then some info else none) := by
  have emplaced (absent : f.plugins.lookup info.puid = none) (known : info.known = true) :
      (f.plugins.emplace info.puid info).1.lookup uid = (f.plugins.lookup uid).or
        (if info.puid = uid ∧ info.known = true then some info else none) := by
    rw [FlatMap.lookup_emplace, absent]
    by_cases same : uid = info.puid
    · simp [same, absent, known]
    · simp [same, Ne.symm same]
  rcases load_cases f info with ⟨same, refused⟩ | ⟨absent, type, same⟩ | ⟨absent, type, same⟩
  · rw [same]
    split
    next fits =>
      obtain ⟨rfl, known⟩ := fits
      rcases refused with present | unknown
      · cases found : f.plugins.lookup info.puid with
        | none => exact absurd found present
        | some _ => rfl
      · simp [known] at unknown
    next => rw [Option.or_none]
  · rw [same]
    exact emplaced absent (by simp [PluginInfo.known, type])
  · rw [same]
    exact emplaced absent (by simp [PluginInfo.known, type])

section Emplace

variable {p : PluginInfo → Bool} {part whole : FlatMap Str PluginInfo} {info : PluginInfo}
  (part_of : ∀ uid, part.lookup uid = (whole.lookup uid).filter p)
  (absent : whole.lookup info.puid = none)

include part_of absent

private theorem emplace_both (fits : p info = true) (uid : Str) :
    (part.emplace info.puid info).1.lookup uid =
      ((whole.emplace info.puid info).1.lookup uid).filter p := by
  rw [FlatMap.lookup_emplace, FlatMap.lookup_emplace, part_of, part_of, absent]
  split
  next => simp [Option.filter_some, fits]
  next => rfl

private theorem emplace_whole (other : p info = false) (uid : Str) :
    part.lookup uid = ((whole.emplace info.puid info).1.lookup uid).filter p := by
  rw [FlatMap.lookup_emplace, part_of, absent]
  split
  next same => simp [Option.filter_some, same, absent, other]
  next => rfl

end Emplace

theorem load_registered {f : PluginFactory} (registered : Registered f) (info : PluginInfo) :
    Registered (f.load info) := by
  have named := lookup_load f info
  obtain ⟨translators, dispatchers, known⟩ := registered
  have known' : ∀ uid info', (f.load info).plugins.lookup uid = some info' →
      info'.known = true := by
    intro uid info' found
    rw [named, Option.or_eq_some_iff] at found
    rcases found with old | ⟨-, new⟩
    · exact known uid info' old
    · split at new
      next fits =>
        cases new
        exact fits.2
      next => cases new
  rcases load_cases f info with ⟨same, -⟩ | ⟨absent, type, same⟩ | ⟨absent, type, same⟩
  · rw [same]
    exact ⟨translators, dispatchers, known⟩
  · rw [same] at known' ⊢
    refine ⟨emplace_both translators absent (by simp [type]), ?_, known'⟩
    exact emplace_whole dispatchers absent (by simp [type])
  · rw [same] at known' ⊢
    refine ⟨?_, emplace_both dispatchers absent (by simp [type]), known'⟩
    exact emplace_whole translators absent (by simp [type])

theorem foldl_load_registered {f : PluginFactory} (registered : Registered f)
    (loads : List PluginInfo) : Registered (loads.foldl load f) := by
  induction loads generalizing f with
  | nil => exact registered
  | cons info loads ih => exact ih (load_registered registered info)

theorem lookup_foldl_load (f : PluginFactory) (loads : List PluginInfo) (uid : Str) :
    (loads.foldl load f).plugins.lookup uid = (f.plugins.lookup uid).or
      (loads.find? fun info => decide (info.puid = uid) && info.known) := by
  induction loads generalizing f with
  | nil => rw [List.foldl_nil, List.find?_nil, Option.or_none]
  | cons info loads ih =>
    rw [List.foldl_cons, ih, lookup_load, Option.or_assoc]
    split
    next fits => rw [List.find?_cons_of_pos (by simpa using fits), Option.some_or]
    next other => rw [List.find?_cons_of_neg (by simpa using other), Option.none_or]

/-- The manager and the router add to their own tables only what they are given. -/
theorem load_portMapping (f : PluginFactory) (info : PluginInfo) :
    (f.load info).translatorManager.portMapping = f.translatorManager.portMapping ∧
      (f.load info).requestRouter.routes = f.requestRouter.routes := by
  rcases load_cases f info with ⟨same, -⟩ | ⟨-, -, same⟩ | ⟨-, -, same⟩
  · rw [same]
    exact ⟨rfl, rfl⟩
  · rw [same]
    exact ⟨rfl, rfl⟩
  · rw [same]
    exact ⟨rfl, rfl⟩

/-! ### The settings -/

/-- The libraries that are loaded, in order. -/
def loads (files : Files) (settings : Ptree) : List PluginInfo :=
  match settings.children.lookup "path".toList with
  | some path => path.children.flatMap fun v => (files.libraries (files.resolve v.2.data)).getD []
  | none => (files.libraries files.currentPath).getD []

theorem loadDir_loads {files : Files} {path : Str} {f f' : PluginFactory}
    (done : f.loadDir files path = .ok f') :
    f' = ((files.libraries path).getD []).foldl load f := by
  rw [loadDir] at done
  cases found : files.libraries path with
  | none => simp [found] at done
  | some infos =>
    rw [found] at done
    cases done
    rfl

theorem loadDirs_loads {files : Files} {path : List (Str × Ptree)} {f f' : PluginFactory}
    (done : f.loadDirs files path = .ok f') :
    f' = (path.flatMap fun v => (files.libraries (files.resolve v.2.data)).getD []).foldl load f := by
  induction path generalizing f with
  | nil =>
    cases done
    rfl
  | cons v path ih =>
    rw [loadDirs] at done
    split at done
    next => cases done
    next f₁ first =>
      rw [List.flatMap_cons, List.foldl_append, ← loadDir_loads first]
      exact ih done

theorem loadPath_loads {files : Files} {settings : Ptree} {f f' : PluginFactory}
    (done : f.loadPath files settings = .ok f') :
    f' = (loads files settings).foldl load f := by
  rw [loadPath] at done
  rw [loads]
  cases found : settings.children.lookup "path".toList with
  | none =>
    rw [found] at done
    exact loadDir_loads done
  | some path =>
    rw [found] at done
    exact loadDirs_loads done

theorem foldl_load_portMapping (f : PluginFactory) (infos : List PluginInfo) :
    (infos.foldl load f).translatorManager.portMapping = f.translatorManager.portMapping := by
  induction infos generalizing f with
  | nil => rfl
  | cons info infos ih =>
    rw [List.foldl_cons, ih]
    exact (load_portMapping f info).1

/-- The factory with all libraries, before the settings of the plugins. -/
def loaded (files : Files) (settings : Ptree) : PluginFactory :=
  (loads files settings).foldl load empty

/-- Nothing is mapped before the settings are read. -/
theorem loaded_portMapping (files : Files) (settings : Ptree) :
    (loaded files settings).translatorManager.portMapping = FlatMultimap.empty :=
  foldl_load_portMapping empty (loads files settings)

/-- The settings of the plugins change what is mapped and routed only. -/
theorem loadSettings_cases {files : Files} {portNum : Str → Option Port} {settings : Ptree}
    {f : PluginFactory} (done : empty.loadSettings files portNum settings = .ok f) :
    f.plugins = (loaded files settings).plugins ∧
    f.translatorManager = (loaded files settings).translatorManager.mapAll
      (TranslatorManager.portCalls portNum (settings.getChild "translator".toList).children) ∧
    f.requestRouter.loadedDispatchers =
      (loaded files settings).requestRouter.loadedDispatchers := by
  rw [loadSettings] at done
  split at done
  next => cases done
  next f₀ path =>
    have start := loadPath_loads path
    split at done
    next => cases done
    next manager mapped =>
      split at done
      next => cases done
      next router routed =>
        cases done
        rw [loaded, ← start]
        exact ⟨rfl, TranslatorManager.loadPlugins_mapAll mapped, loadDispatchers_loaded routed⟩

end PluginFactory

/-! ### Every port that is listened on -/

theorem foldl_last {α β : Type} (g : α → β) (x : β) (l : List α) :
    l.foldl (fun _ i => g i) x = (l.getLast?.map g).getD x := by
  induction l generalizing x with
  | nil => rfl
  | cons i l ih =>
    rw [List.foldl_cons, ih, List.getLast?_cons]
    cases l.getLast? <;> rfl

/-- What a daemon that has come up relies on. -/
structure Serving (files : Files) (portNum : Str → Option Port) (settings : Ptree)
    (f : PluginFactory) : Prop where
  union : ∀ uid info, f.plugins.lookup uid = some info ↔
    f.translatorManager.loadedTranslators.lookup uid = some info ∨
      f.requestRouter.loadedDispatchers.lookup uid = some info
  disjoint : ∀ uid, f.translatorManager.loadedTranslators.lookup uid = none ∨
    f.requestRouter.loadedDispatchers.lookup uid = none
  first : ∀ uid, f.plugins.lookup uid =
    (PluginFactory.loads files settings).find? fun info => decide (info.puid = uid) && info.known
  mapped : ∀ pair ∈ f.translatorManager.portMapping.entries, f.translatorManager.Loaded pair.2
  serves : ∀ port ∈ f.tcpPorts, port ≠ 0 → ∃ uid processHandler,
    (((PluginFactory.loaded files settings).translatorManager.accepted
      (TranslatorManager.portCalls portNum (settings.getChild "translator".toList).children)).filter
        (·.1 = port)).getLast? = some (port, uid) ∧
    ((∀ info ∈ PluginFactory.loads files settings, info.puid ≠ []) → uid ≠ []) ∧
    f.translatorManager.create uid = .ok (some processHandler) ∧
    ∀ starts picked address,
      onConnection starts f ⟨some (boundPort picked port), some address⟩ =
        if starts processHandler then
          .ok ⟨uid, f.requestRouter.setupConnectionRoutes uid port address, processHandler⟩
        else .error .thrown

theorem Registered.union {f : PluginFactory} (registered : Registered f) (uid : Str)
    (info : PluginInfo) : f.plugins.lookup uid = some info ↔
      f.translatorManager.loadedTranslators.lookup uid = some info ∨
        f.requestRouter.loadedDispatchers.lookup uid = some info := by
  rw [registered.translators, registered.dispatchers, Option.filter_eq_some_iff,
    Option.filter_eq_some_iff]
  constructor
  · intro found
    have fits := registered.known uid info found
    rw [PluginInfo.known] at fits
    cases type : info.type with
    | translator => exact Or.inl ⟨found, rfl⟩
    | dispatcher => exact Or.inr ⟨found, rfl⟩
    | other _ => simp [type] at fits
  · rintro (⟨found, -⟩ | ⟨found, -⟩)
    · exact found
    · exact found

theorem Registered.disjoint {f : PluginFactory} (registered : Registered f) (uid : Str) :
    f.translatorManager.loadedTranslators.lookup uid = none ∨
      f.requestRouter.loadedDispatchers.lookup uid = none := by
  rw [registered.translators, registered.dispatchers]
  cases f.plugins.lookup uid with
  | none => exact Or.inl rfl
  | some info =>
    by_cases type : info.type = .translator
    · exact Or.inr (by simp [Option.filter_some, type])
    · exact Or.inl (by simp [Option.filter_some, type])

namespace PluginFactory

section Done

variable {files : Files} {portNum : Str → Option Port} {settings : Ptree} {f : PluginFactory}
  (done : empty.loadSettings files portNum settings = .ok f)

include done

theorem loadSettings_registered : Registered f := by
  obtain ⟨plugins, manager, router⟩ := loadSettings_cases done
  obtain ⟨translators, dispatchers, known⟩ :=
    foldl_load_registered empty_registered (loads files settings)
  refine ⟨?_, ?_, ?_⟩
  · rw [plugins, manager, TranslatorManager.mapAll_loadedTranslators]
    exact translators
  · rw [plugins, router]
    exact dispatchers
  · rw [plugins]
    exact known

theorem loadSettings_first (uid : Str) : f.plugins.lookup uid =
    (loads files settings).find? fun info => decide (info.puid = uid) && info.known := by
  rw [(loadSettings_cases done).1, loaded, lookup_foldl_load]
  rfl

theorem loadSettings_mapped :
    ∀ pair ∈ f.translatorManager.portMapping.entries, f.translatorManager.Loaded pair.2 := by
  rw [(loadSettings_cases done).2.1]
  apply TranslatorManager.mapAll_loaded _
  rw [loaded_portMapping]
  intro pair member
  cases member

theorem loadSettings_listPort (port : Port) : f.translatorManager.listPort port =
    ((loaded files settings).translatorManager.accepted
      (TranslatorManager.portCalls portNum (settings.getChild "translator".toList).children)).filter
        (·.1 = port) := by
  rw [(loadSettings_cases done).2.1, TranslatorManager.listPort_mapAll,
    TranslatorManager.listPort, loaded_portMapping]
  rfl

end Done

/-- The last uid of a port is what a connection takes. -/
theorem selectUid_last {f : PluginFactory} {port : Port} {uid : Str}
    (last : (f.translatorManager.listPort port).getLast? = some (port, uid)) :
    f.selectUid port = uid := by
  rw [selectUid, foldl_last, last]
  rfl

/-- A port with a server has a last uid. -/
theorem last_of_listened {f : PluginFactory} {port : Port} (listened : port ∈ f.tcpPorts) :
    ∃ uid, (f.translatorManager.listPort port).getLast? = some (port, uid) ∧
      (port, uid) ∈ f.translatorManager.portMapping.entries := by
  rw [tcpPorts, List.mem_dedup, List.mem_map] at listened
  obtain ⟨⟨_, uid⟩, member, rfl⟩ := listened
  have here := FlatMultimap.mem_equalRange.mpr ⟨member, rfl⟩
  obtain ⟨⟨port, last⟩, found⟩ := Option.isSome_iff_exists.mp
    (List.getLast?_isSome.mpr (List.ne_nil_of_mem here))
  have entry := FlatMultimap.mem_equalRange.mp (List.mem_of_getLast? found)
  obtain rfl : port = _ := entry.2
  exact ⟨last, found, entry.1⟩

end PluginFactory

theorem onConnection_created {starts : Interface → Bool} {f : PluginFactory} {port : Port}
    {address : Str} {processHandler : Interface}
    (created : f.translatorManager.create (f.selectUid port) = .ok (some processHandler)) :
    onConnection starts f ⟨some port, some address⟩ =
      if starts processHandler then
        .ok ⟨f.selectUid port, f.requestRouter.setupConnectionRoutes (f.selectUid port) port address,
          processHandler⟩
      else .error .thrown := by
  rw [onConnection]
  dsimp only
  rw [created]

/-- A port other than 0 that the daemon listens on leads to the translator mapped to it last. -/
theorem loadSettings_serving {files : Files} {portNum : Str → Option Port} {settings : Ptree}
    {f : PluginFactory}
    (derives : ∀ info ∈ PluginFactory.loads files settings, info.type = .translator →
      info.creator.derives = .translator)
    (done : PluginFactory.empty.loadSettings files portNum settings = .ok f) :
    Serving files portNum settings f := by
  have registered := PluginFactory.loadSettings_registered done
  have mapped := PluginFactory.loadSettings_mapped done
  refine ⟨registered.union, registered.disjoint, PluginFactory.loadSettings_first done, mapped, ?_⟩
  intro port listened notPicked
  obtain ⟨uid, last, member⟩ := PluginFactory.last_of_listened listened
  obtain ⟨info, found, type⟩ := mapped _ member
  have plugin := (registered.union uid info).mpr (Or.inl found)
  rw [PluginFactory.loadSettings_first done] at plugin
  have loaded := List.mem_of_find?_eq_some plugin
  have created : f.translatorManager.create uid = .ok (some info.creator) := by
    rw [TranslatorManager.create, found]
    exact congrArg Except.ok (if_pos (derives info loaded type))
  have select := PluginFactory.selectUid_last last
  rw [PluginFactory.loadSettings_listPort done] at last
  refine ⟨uid, info.creator, last, ?_, created, ?_⟩
  · intro nonempty
    have named := List.find?_some plugin
    simp only [Bool.and_eq_true, decide_eq_true_eq] at named
    rw [← named.1]
    exact nonempty info loaded
  · intro starts picked address
    rw [← select] at created ⊢
    rw [boundPort_of_ne notPicked]
    exact onConnection_created created

/-- One directory with these libraries. -/
def disk (libraries : List PluginInfo) : Files := ⟨[], id, fun _ => some libraries⟩

def translatorSettings (translators : List (String × List String)) : Ptree :=
  .node [] [("translator".toList,
    .node [] (translators.map fun entry => (entry.1.toList, portList entry.2)))]

/-- Two translators, and a second library with the uid of the first. -/
def echoTwice : Files :=
  disk [plain "echo".toList .translator, plain "wialon".toList .translator,
    plain "echo".toList .dispatcher]

theorem loadSettings_serving_shared : ∃ f,
    PluginFactory.empty.loadSettings echoTwice decimalPort
      (translatorSettings [("wialon", ["4444"]), ("echo", ["3333", "4444"])]) = .ok f ∧
    f.tcpPorts = [3333, 4444] ∧ f.selectUid 4444 = "echo".toList ∧
    Serving echoTwice decimalPort
      (translatorSettings [("wialon", ["4444"]), ("echo", ["3333", "4444"])]) f := by
  have done : (PluginFactory.empty.loadSettings echoTwice decimalPort
      (translatorSettings [("wialon", ["4444"]), ("echo", ["3333", "4444"])])).toOption.any
        (fun f => f.tcpPorts == [3333, 4444] && f.selectUid 4444 == "echo".toList) = true := by
    decide +kernel
  obtain ⟨f, loaded, seen⟩ := ok_of_any done
  simp only [Bool.and_eq_true, beq_iff_eq] at seen
  exact ⟨f, loaded, seen.1, seen.2, loadSettings_serving (by decide +kernel) loaded⟩

/-- Where the first plugin of a uid is of an unknown type, the second one is kept; a plugin may
have the empty uid; and the port of a server that was opened for port 0 is not listed. -/
theorem connection_unserved :
    (∃ f, PluginFactory.empty.loadSettings
        (disk [plain "echo".toList (.other 2), plain "echo".toList .translator]) decimalPort
        (translatorSettings []) = .ok f ∧
      (f.plugins.lookup "echo".toList).map (·.type) = some .translator) ∧
    (∃ f, PluginFactory.empty.loadSettings (disk [plain [] .translator]) decimalPort
        (translatorSettings [("", ["4444"])]) = .ok f ∧
      4444 ∈ f.tcpPorts ∧ f.selectUid 4444 = []) ∧
    (∃ f, PluginFactory.empty.loadSettings (disk [plain "echo".toList .translator]) decimalPort
        (translatorSettings [("echo", ["0"])]) = .ok f ∧
      0 ∈ f.tcpPorts ∧ f.translatorManager.create (f.selectUid (boundPort 49152 0)) =
        .error .outOfRange) := by
  refine ⟨?_, ?_, ?_⟩
  · have done : (PluginFactory.empty.loadSettings
        (disk [plain "echo".toList (.other 2), plain "echo".toList .translator]) decimalPort
        (translatorSettings [])).toOption.any (fun f =>
          (f.plugins.lookup "echo".toList).map (·.type) == some .translator) = true := by
      decide +kernel
    obtain ⟨f, loaded, kept⟩ := ok_of_any done
    exact ⟨f, loaded, beq_iff_eq.mp kept⟩
  · have done : (PluginFactory.empty.loadSettings (disk [plain [] .translator]) decimalPort
        (translatorSettings [("", ["4444"])])).toOption.any (fun f =>
          decide (4444 ∈ f.tcpPorts ∧ f.selectUid 4444 = [])) = true := by
      decide +kernel
    obtain ⟨f, loaded, selected⟩ := ok_of_any done
    exact ⟨f, loaded, of_decide_eq_true selected⟩
  · have done : (PluginFactory.empty.loadSettings (disk [plain "echo".toList .translator])
        decimalPort (translatorSettings [("echo", ["0"])])).toOption.any (fun f =>
          decide (0 ∈ f.tcpPorts) && !f.translatorManager.loadedTranslators.entries.any
            (·.1 == f.selectUid (boundPort 49152 0))) = true := by
      decide +kernel
    obtain ⟨f, loaded, seen⟩ := ok_of_any done
    simp only [Bool.and_eq_true, decide_eq_true_eq, Bool.not_eq_true'] at seen
    refine ⟨f, loaded, seen.1, ?_⟩
    have absent : f.translatorManager.loadedTranslators.lookup (f.selectUid (boundPort 49152 0)) =
        none := by
      refine FlatMap.lookup_eq_none_iff.mpr fun e member same => ?_
      have missed := List.any_eq_false.mp seen.2 e member
      simp [same] at missed
    rw [TranslatorManager.create, absent]

end Eiptnd.Router
