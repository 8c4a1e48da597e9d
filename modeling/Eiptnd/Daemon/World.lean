import Eiptnd.Daemon.Told
import Eiptnd.Redis.Executed

/-! The daemon with its devices, and the servers where the records end up.

Every Redis dispatcher has connections of its own. What its client writes reaches a server in
pieces, and the replies of the server come back in pieces; the daemon notices neither until a
read or a write is complete. -/
namespace Eiptnd.Daemon

open Reactive Router

/-- The servers of a dispatcher, and what is on its way to them: an exchange but for the client. -/
structure Backing where
  /-- How many bytes of the batch on its way the socket has taken. -/
  sent : Nat
  server : Redis.Server
  lost : List Redis.Server
  /-- The accepted requests (history). -/
  asked : List Redis.Request

def Backing.start : Backing := ⟨0, .start, [], []⟩

def Backing.exchange (rcon : Redis.System) (b : Backing) : Redis.Exchange :=
  ⟨rcon, b.sent, b.server, b.lost, b.asked⟩

def Backing.ofExchange (x : Redis.Exchange) : Backing := ⟨x.sent, x.server, x.lost, x.asked⟩

/-- The completion that a piece of traffic is for the client. -/
def completion (x : Redis.Exchange) : Redis.Traffic → Option Redis.Event
  | .handled e => some e
  | .written => some .writeDone
  | .writeFailed => some (.writeFailed x.sent)
  | .arrives bytes => some (.readDone (x.server.output.take bytes))
  | .sends _ | .executes _ | .executesLate _ _ => none

structure World where
  fleet : Fleet
  /-- One for each dispatcher. -/
  backings : List Backing

inductive WorldEvent
  | fleet (e : FleetEvent)
  /-- Between a dispatcher and its servers. -/
  | traffic (serial : Nat) (t : Redis.Traffic)

/-- A Redis dispatcher and its servers. -/
def World.exchangeAt (serial : Nat) (w : World) : Option Redis.Exchange :=
  match w.fleet.core.dispatchers[serial]?, w.backings[serial]? with
  | some (.redis dr), some b => some (b.exchange dr.rcon)
  | _, _ => none

section Machine

variable (boost : Wialon.Boost) (factory : PluginFactory) (json : Dptree.Boost)

/-- What the client of a Redis dispatcher is called with when the posted call runs. -/
def Core.published (place : Nat) (d : Core) : Option (Nat × Redis.Event) :=
  match d.tasks[place]? with
  | none => none
  | some ticket =>
    match d.serialOf ticket, d.treeOf ticket with
    | some serial, some tree =>
      match d.dispatchers[serial]? with
      | some (.redis dr) =>
        (Dptree.writeJsonInternal json dr.pretty (recordTree tree)).map fun message =>
          (serial, .publish "foo".toList message)
      | _ => none
    | _, _ => none

/-- The client that a step of the daemon is about, and what happens to it. -/
def Core.handler (d : Core) : Event → Option (Nat × Redis.Event)
  | .run place => d.published json place
  | .act serial (.handler e) => some (serial, e)
  | _ => none

/-- The traffic that an event makes. -/
def World.traffic (w : World) : WorldEvent → Option (Nat × Redis.Traffic)
  | .fleet (.daemon e) => (w.fleet.core.handler json e).map fun r => (r.1, .handled r.2)
  | .fleet _ => none
  | .traffic serial t => some (serial, t)

def World.exchanged (w : World) : Option (Nat × Redis.Traffic) → Option (List Backing)
  | none => some w.backings
  | some (serial, t) =>
    match w.exchangeAt serial with
    | none => none
    | some x => (x.step t).map fun r => w.backings.set serial (.ofExchange r.1)

/-- What an event is for the daemon, if it is something for it. -/
def World.noticed (w : World) : WorldEvent → Option FleetEvent
  | .fleet e => some e
  | .traffic serial t =>
    ((w.exchangeAt serial).bind fun x => completion x t).map fun e =>
      .daemon (.act serial (.handler e))

def World.step (w : World) (e : WorldEvent) : Option (World × List Report) :=
  match w.exchanged (w.traffic json e) with
  | none => none
  | some backings =>
    match w.noticed e with
    | none => some (⟨w.fleet, backings⟩, [])
    | some e => (w.fleet.step boost factory json e).map fun r => (⟨r.1, backings⟩, r.2)

structure World.Fresh (w : World) : Prop where
  fleet : w.fleet.Fresh factory
  backings : w.backings = List.replicate w.fleet.core.dispatchers.length .start

def world : Machine World WorldEvent Report :=
  ⟨World.Fresh factory, World.step boost factory json⟩

/-- No connection to a server is lost with something left in a buffer of the client. -/
def World.Orderly (w : World) (e : WorldEvent) (_ : World) : Prop :=
  ∀ r ∈ w.traffic json e, ∀ x ∈ w.exchangeAt r.1, Redis.Proper x r.2 x

instance (w : World) (e : WorldEvent) (w' : World) : Decidable (w.Orderly json e w') := by
  unfold World.Orderly
  infer_instance

/-- And devices wait for their answers. -/
def World.Proper (w : World) (e : WorldEvent) (w' : World) : Prop :=
  (∀ e' ∈ w.noticed e, w.fleet.Waits e' w.fleet) ∧ w.Orderly json e w'

instance (w : World) (e : WorldEvent) (w' : World) : Decidable (w.Proper json e w') := by
  unfold World.Proper
  infer_instance

end Machine

/-! ### What a step is for a dispatcher -/

section Dispatchers

variable {boost : Wialon.Boost} {factory : PluginFactory} {json : Dptree.Boost} {d d' : Core}
  {reported : List Report} {serial : Nat}

/-- A Redis dispatcher stays as it was, or has run what the step is about. -/
inductive Handled (json : Dptree.Boost) (d : Core) (e : Event) (serial : Nat) (dr : DispatcherRedis) :
    DispatcherRedis → Prop
  | still : (∀ re, d.handler json e ≠ some (serial, re)) → Handled json d e serial dr dr
  | acted {dr' : DispatcherRedis} {re : Redis.Event} {reported : List Report} :
      d.handler json e = some (serial, re) → isHandler re = true →
      dr.run none re = some (dr', reported) → Handled json d e serial dr dr'
  | published {dr' : DispatcherRedis} {p : Publication} {place : Nat} {reported : List Report} :
      d.tasks[place]? = some p.ticket → e = .run place →
      d.handler json e = some (serial, .publish "foo".toList p.message) →
      dr.run (some p) (.publish "foo".toList p.message) = some (dr', reported) →
      Handled json d e serial dr dr'

private theorem run_handled {place : Nat} (ran : d.run json place = some (d', reported))
    {dr' : DispatcherRedis} (there : d'.dispatchers[serial]? = some (.redis dr')) :
    ∃ dr, d.dispatchers[serial]? = some (.redis dr) ∧ Handled json d (.run place) serial dr dr' := by
  obtain ⟨ticket, own, tree, dispatcher, dispatcher', posted, mine, shared, found, handled, rfl⟩ :=
    run_some ran
  have bound := (List.getElem?_eq_some_iff.mp found).1
  have told : d.handler json (.run place) = d.published json place := rfl
  rw [Core.published, posted] at told
  dsimp only at told
  rw [mine, shared] at told
  dsimp only at told
  rw [found] at told
  by_cases same : serial = own
  · subst same
    dsimp only at there
    rw [List.getElem?_set_self bound] at there
    cases there
    cases dispatcher with
    | logger dl =>
      rw [Dispatcher.handleProcessData] at handled
      obtain ⟨_, -, same⟩ := Option.map_eq_some_iff.mp handled
      cases same
    | redis dr =>
      refine ⟨dr, found, ?_⟩
      rw [Dispatcher.handleProcessData, DispatcherRedis.handleProcessData] at handled
      obtain ⟨⟨dr₁, reported₁⟩, publishes, same⟩ := Option.map_eq_some_iff.mp handled
      cases same
      split at publishes
      · cases publishes
      next message written =>
        -- The client has been asked to publish what the tree was written as.
        apply Handled.published (p := ⟨ticket, message⟩) posted rfl ?_ publishes
        rw [told]
        dsimp only
        rw [written]
        rfl
  · refine ⟨dr', ?_, .still ?_⟩
    · rwa [List.getElem?_set_ne (Ne.symm same)] at there
    · intro re this
      rw [told] at this
      split at this
      · obtain ⟨_, -, equal⟩ := Option.map_eq_some_iff.mp this
        exact same (congrArg Prod.fst equal).symm
      · cases this

private theorem act_handled {own : Nat} {activity : Activity}
    (acted : d.act own activity = some (d', reported)) {dr' : DispatcherRedis}
    (there : d'.dispatchers[serial]? = some (.redis dr')) :
    ∃ dr, d.dispatchers[serial]? = some (.redis dr) ∧
      Handled json d (.act own activity) serial dr dr' := by
  obtain ⟨dispatcher, dispatcher', found, acts, rfl⟩ := act_some acted
  have bound := (List.getElem?_eq_some_iff.mp found).1
  by_cases same : serial = own
  · subst same
    dsimp only at there
    rw [List.getElem?_set_self bound] at there
    cases there
    cases dispatcher with
    | logger dl =>
      cases activity with
      | handler => cases acts
      | timer place =>
        rw [Dispatcher.act] at acts
        obtain ⟨_, -, same⟩ := Option.map_eq_some_iff.mp acts
        cases same
    | redis dr =>
      cases activity with
      | timer => cases acts
      | handler e =>
        rw [Dispatcher.act] at acts
        split at acts
        next own =>
          obtain ⟨⟨dr₁, reported₁⟩, ran, same⟩ := Option.map_eq_some_iff.mp acts
          cases same
          exact ⟨dr, found, .acted rfl own ran⟩
        next => cases acts
  · -- The other dispatchers stay as they are.
    refine ⟨dr', ?_, .still ?_⟩
    · rwa [List.getElem?_set_ne (Ne.symm same)] at there
    · intro re this
      cases activity with
      | handler => exact same (congrArg Prod.fst (Option.some.inj this)).symm
      | timer => cases this

/-- Only a posted call and a handler change a dispatcher. -/
private theorem step_dispatchers {e : Event} (reached : (core boost factory json).Reachable d)
    (stepped : (core boost factory json).step d e = some (d', reported))
    (other : (∀ place, e ≠ .run place) ∧ ∀ own activity, e ≠ .act own activity) :
    d'.dispatchers = d.dispatchers := by
  obtain ⟨wired, books⟩ := books_of_reachable reached
  obtain ⟨alive, step⟩ := step_cases stepped
  cases step with
  | accept => rfl
  | session connection e _ _ _ moved =>
    obtain ⟨_, _, _, -, -, rfl⟩ := onSession_some moved
    rfl
  | fanOut record e _ _ still moved =>
    obtain ⟨-, -, dispatchers, -⟩ := fanOut_books wired alive books still moved
    exact dispatchers
  | run place => exact absurd rfl (other.1 place)
  | act own activity => exact absurd rfl (other.2 own activity)

theorem step_dispatchers_length {e : Event} (reached : (core boost factory json).Reachable d)
    (stepped : (core boost factory json).step d e = some (d', reported)) :
    d'.dispatchers.length = d.dispatchers.length := by
  obtain ⟨wired, books⟩ := books_of_reachable reached
  obtain ⟨alive, step⟩ := step_cases stepped
  cases step with
  | accept => rfl
  | session connection e _ _ _ moved =>
    obtain ⟨_, _, _, -, -, rfl⟩ := onSession_some moved
    rfl
  | fanOut record e _ _ still moved =>
    obtain ⟨-, -, dispatchers, -⟩ := fanOut_books wired alive books still moved
    rw [dispatchers]
  | run place d₁ _ _ ran done =>
    obtain ⟨-, -, -, dispatchers, -⟩ := reportAll_kept alive (run_books wired books ran) done
    obtain ⟨_, _, _, _, _, -, -, -, -, -, rfl⟩ := run_some ran
    rw [dispatchers, List.length_set]
  | act own activity d₁ _ _ acted done =>
    obtain ⟨-, -, -, dispatchers, -⟩ := reportAll_kept alive (act_books wired books acted) done
    obtain ⟨_, _, -, -, rfl⟩ := act_some acted
    rw [dispatchers, List.length_set]

/-- What the daemon does to one of its Redis dispatchers in a step. -/
theorem step_handled {e : Event} (reached : (core boost factory json).Reachable d)
    (stepped : (core boost factory json).step d e = some (d', reported)) {dr' : DispatcherRedis}
    (there : d'.dispatchers[serial]? = some (.redis dr')) :
    ∃ dr, d.dispatchers[serial]? = some (.redis dr) ∧ Handled json d e serial dr dr' := by
  obtain ⟨wired, books⟩ := books_of_reachable reached
  obtain ⟨alive, -⟩ := step_cases stepped
  have still (none : d.handler json e = none)
      (other : (∀ place, e ≠ .run place) ∧ ∀ own activity, e ≠ .act own activity) :
      ∃ dr, d.dispatchers[serial]? = some (.redis dr) ∧ Handled json d e serial dr dr' := by
    rw [step_dispatchers reached stepped other] at there
    exact ⟨dr', there, .still (by simp [none])⟩
  cases e with
  | accept => exact still rfl (by simp)
  | line => exact still rfl (by simp)
  | token => exact still rfl (by simp)
  | returned => exact still rfl (by simp)
  | refused => exact still rfl (by simp)
  | run place =>
    simp only [core, Core.step, alive, if_true] at stepped
    obtain ⟨d₁, ran, done⟩ := reporting_some stepped
    -- What is reported changes no dispatcher any more.
    obtain ⟨-, -, -, dispatchers, -⟩ := reportAll_kept alive (run_books wired books ran) done
    rw [dispatchers] at there
    exact run_handled ran there
  | act own activity =>
    simp only [core, Core.step, alive, if_true] at stepped
    obtain ⟨d₁, acted, done⟩ := reporting_some stepped
    obtain ⟨-, -, -, dispatchers, -⟩ := reportAll_kept alive (act_books wired books acted) done
    rw [dispatchers] at there
    exact act_handled acted there

end Dispatchers

/-! ### A dispatcher and its servers -/

/-- The request behind a callback. -/
def requestOf : Option Publication → Redis.Request
  | some p => .publish "foo".toList p.message
  | none => .ping

structure Backed (dr : DispatcherRedis) (b : Backing) : Prop where
  reached : Redis.exchange.ReachableWhere Redis.Proper (b.exchange dr.rcon)
  owners : dr.owners.length = dr.rcon.accepted
  asked : b.asked = dr.owners.map requestOf

section Backed

variable {dr dr' : DispatcherRedis} {b : Backing} {x x' : Redis.Exchange} {t : Redis.Traffic}
  {out : List Redis.Effect} {owner : Option Publication} {re : Redis.Event} {reported : List Report}

theorem exchange_quiet (stepped : x.step t = some (x', out)) (quiet : completion x t = none) :
    x'.system = x.system ∧ x'.asked = x.asked := by
  cases t with
  | handled => cases quiet
  | written => cases quiet
  | writeFailed => cases quiet
  | arrives => cases quiet
  | sends bytes =>
    rw [Redis.Exchange.step] at stepped
    split at stepped
    · cases stepped
      exact ⟨rfl, rfl⟩
    · cases stepped
  | executes reply =>
    obtain ⟨server, -, same⟩ := Option.map_eq_some_iff.mp stepped
    cases same
    exact ⟨rfl, rfl⟩
  | executesLate connection reply =>
    rw [Redis.Exchange.step] at stepped
    split at stepped
    · cases stepped
    · obtain ⟨server, -, same⟩ := Option.map_eq_some_iff.mp stepped
      cases same
      exact ⟨rfl, rfl⟩

private theorem handle_some (handled : x.handle re = some (x', out)) :
    x.system.step re = some (x'.system, out) ∧
      x'.asked = (x.asked ++ re.request.toList).take x'.system.accepted := by
  rw [Redis.Exchange.handle] at handled
  split at handled
  · cases handled
  next s' out stepped =>
    cases handled
    exact ⟨stepped, rfl⟩

theorem exchange_completes (stepped : x.step t = some (x', out)) (completed : completion x t = some re) :
    x.system.step re = some (x'.system, out) ∧
      x'.asked = (x.asked ++ re.request.toList).take x'.system.accepted := by
  cases t with
  | sends => cases completed
  | executes => cases completed
  | executesLate => cases completed
  | handled e =>
    cases completed
    rw [Redis.Exchange.step] at stepped
    split at stepped
    · cases stepped
    · exact handle_some stepped
  | written =>
    cases completed
    rw [Redis.Exchange.step] at stepped
    split at stepped
    · exact handle_some stepped
    · cases stepped
  | writeFailed =>
    cases completed
    exact handle_some stepped
  | arrives bytes =>
    cases completed
    -- The bytes of the replies are no part of what the handler reads.
    exact handle_some (x := { x with
      server := { x.server with output := x.server.output.drop bytes } }) stepped

/-- The client has run, for a request that the dispatcher knows the callback of. -/
theorem Backed.completes (backed : Backed dr b) (known : re.request = some (requestOf owner) ∨
      re.request = none) (ran : dr.run owner re = some (dr', reported))
    (stepped : (b.exchange dr.rcon).step t = some (x', out))
    (completed : completion (b.exchange dr.rcon) t = some re)
    (proper : Redis.Proper (b.exchange dr.rcon) t x') : Backed dr' (.ofExchange x') := by
  obtain ⟨rcon, out', moved, rfl, -⟩ := DispatcherRedis.run_some ran
  obtain ⟨taken, asked⟩ := exchange_completes stepped completed
  have same : x'.system = rcon := by
    have equal : some (x'.system, out) = some (rcon, out') := taken.symm.trans moved
    cases equal
    rfl
  have reached : Redis.exchange.ReachableWhere Redis.Proper x' := backed.reached.step stepped proper
  have count := (Redis.sound_of_reachable reached).asked
  have before : (b.exchange dr.rcon).asked = dr.owners.map requestOf := backed.asked
  rw [same] at asked count
  rw [before] at asked
  have whole : (Backing.ofExchange x').exchange rcon = x' := by
    rw [← same]
    rfl
  -- As many callbacks are known as requests have been accepted.
  have bound : rcon.accepted ≤ dr.owners.length + 1 := by
    rw [asked] at count
    have short := List.length_take_le' rcon.accepted (dr.owners.map requestOf ++ re.request.toList)
    rw [count, List.length_append, List.length_map] at short
    have one : re.request.toList.length ≤ 1 := by cases re.request <;> simp
    omega
  refine ⟨by rw [whole]; exact reached, by simp [bound], ?_⟩
  change x'.asked = _
  rw [asked]
  rcases known with own | none
  · rw [own, List.map_take, List.map_append]
    rfl
  · rw [asked, none, Option.toList_none, List.append_nil, List.length_take, List.length_map] at count
    rw [none, Option.toList_none, List.append_nil, List.map_take, List.map_append,
      List.take_append_of_le_length (by rw [List.length_map]; omega)]

/-- Something goes on between the socket and the servers. -/
theorem Backed.quiet (backed : Backed dr b)
    (stepped : (b.exchange dr.rcon).step t = some (x', out))
    (quiet : completion (b.exchange dr.rcon) t = none)
    (proper : Redis.Proper (b.exchange dr.rcon) t x') : Backed dr (.ofExchange x') := by
  obtain ⟨same, asked⟩ := exchange_quiet stepped quiet
  have whole : (Backing.ofExchange x').exchange dr.rcon = x' := by
    have system : x'.system = dr.rcon := same
    rw [← system]
    rfl
  refine ⟨?_, backed.owners, asked.trans backed.asked⟩
  rw [whole]
  exact backed.reached.step stepped proper

end Backed

/-! ### Everything together -/

structure World.Sound (boost : Wialon.Boost) (factory : PluginFactory) (json : Dptree.Boost)
    (w : World) : Prop where
  core : (Daemon.core boost factory json).Reachable w.fleet.core
  backings : w.backings.length = w.fleet.core.dispatchers.length
  backed : ∀ (serial : Nat) (dr : DispatcherRedis) (b : Backing),
    w.fleet.core.dispatchers[serial]? = some (.redis dr) → w.backings[serial]? = some b → Backed dr b

section World

variable {boost : Wialon.Boost} {factory : PluginFactory} {json : Dptree.Boost} {w w' : World}
  {e : WorldEvent} {serial : Nat} {x : Redis.Exchange} {t : Redis.Traffic} {reported : List Report}

theorem World.exchangeAt_some (here : w.exchangeAt serial = some x) : ∃ dr b,
    w.fleet.core.dispatchers[serial]? = some (.redis dr) ∧ w.backings[serial]? = some b ∧
      x = b.exchange dr.rcon := by
  rw [World.exchangeAt] at here
  split at here
  next dr b found own =>
    cases here
    exact ⟨dr, b, found, own, rfl⟩
  next => cases here

/-- Only the servers that an event is about are another matter afterwards. -/
private theorem World.exchanged_some {r : Option (Nat × Redis.Traffic)} {backings : List Backing}
    (moved : w.exchanged r = some backings) : backings.length = w.backings.length ∧
      ∀ (serial : Nat) (b : Backing), backings[serial]? = some b →
        (w.backings[serial]? = some b ∧ ∀ t, r ≠ some (serial, t)) ∨
        ∃ t x x' out, r = some (serial, t) ∧ w.exchangeAt serial = some x ∧
          x.step t = some (x', out) ∧ b = .ofExchange x' := by
  cases r with
  | none =>
    cases moved
    exact ⟨rfl, fun serial b found => Or.inl ⟨found, by simp⟩⟩
  | some r =>
    obtain ⟨own, t⟩ := r
    rw [World.exchanged] at moved
    split at moved
    · cases moved
    next x here =>
      obtain ⟨⟨x', out⟩, stepped, rfl⟩ := Option.map_eq_some_iff.mp moved
      obtain ⟨_, b₀, -, there, -⟩ := World.exchangeAt_some here
      refine ⟨List.length_set .., fun serial b found => ?_⟩
      rcases (Replace.getElem?_set there serial).mp found with ⟨rfl, rfl⟩ | ⟨other, found⟩
      · exact Or.inr ⟨t, x, x', out, rfl, here, stepped, rfl⟩
      · refine Or.inl ⟨found, fun t' equal => other ?_⟩
        cases equal
        rfl

/-- What the daemon notices of the traffic. -/
private theorem World.noticed_of_traffic (about : w.traffic json e = some (serial, t))
    (here : w.exchangeAt serial = some x) : (completion x t = none ∧ w.noticed e = none) ∨
      ∃ ce re, completion x t = some re ∧ w.noticed e = some (.daemon ce) ∧
        w.fleet.core.handler json ce = some (serial, re) := by
  cases e with
  | fleet e =>
    cases e with
    | take => cases about
    | written => cases about
    | daemon ce =>
      obtain ⟨⟨serial, re⟩, handled, same⟩ := Option.map_eq_some_iff.mp about
      cases same
      exact Or.inr ⟨ce, re, rfl, rfl, handled⟩
  | traffic serial t =>
    cases about
    rw [World.noticed, here, Option.bind_some]
    cases completed : completion x t with
    | none => exact Or.inl ⟨rfl, rfl⟩
    | some re => exact Or.inr ⟨_, re, rfl, rfl, rfl⟩

/-- Without traffic, no client has run. -/
private theorem World.handler_of_quiet {ce : Event} (about : w.traffic json e = none)
    (noticed : w.noticed e = some (.daemon ce)) : w.fleet.core.handler json ce = none := by
  cases e with
  | fleet e =>
    cases noticed
    exact Option.map_eq_none_iff.mp about
  | traffic => cases about

theorem Handled.run {d : Core} {ce : Event} {dr dr' : DispatcherRedis}
    (handled : Handled json d ce serial dr dr') :
    ((∀ re, d.handler json ce ≠ some (serial, re)) ∧ dr' = dr) ∨
      ∃ re owner reported, d.handler json ce = some (serial, re) ∧
        dr.run owner re = some (dr', reported) ∧
        (re.request = some (requestOf owner) ∨ re.request = none) := by
  cases handled with
  | still none => exact Or.inl ⟨none, rfl⟩
  | @acted _ re reported told own ran =>
    refine Or.inr ⟨re, none, reported, told, ran, ?_⟩
    cases re with
    | publish => cases own
    | ping => cases own
    | timeoutPing aborted =>
      cases aborted with
      | true => exact Or.inr rfl
      | false => exact Or.inl rfl
    | _ => exact Or.inr rfl
  | @published _ p _ reported _ _ told ran => exact Or.inr ⟨_, some p, reported, told, ran, Or.inl rfl⟩

/-- Of a dispatcher that the daemon has left alone, or that has run. -/
private theorem World.Sound.backed_step (sound : w.Sound boost factory json)
    {backings : List Backing} (exchanged : w.exchanged (w.traffic json e) = some backings)
    (orderly : w.Orderly json e w')
    {dr dr' : DispatcherRedis} {b : Backing}
    (found : w.fleet.core.dispatchers[serial]? = some (.redis dr))
    (own : backings[serial]? = some b)
    (moved : (dr' = dr ∧ ∀ ce re, w.noticed e = some (.daemon ce) →
        w.fleet.core.handler json ce ≠ some (serial, re)) ∨
      ∃ ce re owner reported, w.noticed e = some (.daemon ce) ∧
        w.fleet.core.handler json ce = some (serial, re) ∧
        dr.run owner re = some (dr', reported) ∧
        (re.request = some (requestOf owner) ∨ re.request = none)) : Backed dr' b := by
  obtain ⟨-, changes⟩ := World.exchanged_some exchanged
  rcases changes serial b own with ⟨before, still⟩ | ⟨t, x, x', out, about, here, stepped, rfl⟩
  · have backed := sound.backed serial dr b found before
    rcases moved with ⟨rfl, -⟩ | ⟨ce, re, _, _, noticed, handled, -, -⟩
    · exact backed
    · -- A client that has run has made traffic.
      cases about : w.traffic json e with
      | none =>
        rw [World.handler_of_quiet about noticed] at handled
        cases handled
      | some r =>
        obtain ⟨serial₁, t⟩ := r
        rw [about, World.exchanged] at exchanged
        split at exchanged
        · cases exchanged
        next x here =>
          rcases World.noticed_of_traffic about here with ⟨-, none⟩ | ⟨ce₁, re₁, -, some₁, handled₁⟩
          · rw [none] at noticed
            cases noticed
          · have same : some (FleetEvent.daemon ce₁) = some (.daemon ce) := some₁.symm.trans noticed
            cases same
            have equal : some (serial₁, re₁) = some (serial, re) := handled₁.symm.trans handled
            cases equal
            exact absurd about (still t)
  · -- There was traffic, which the client has run for, or does not notice yet.
    obtain ⟨dr₁, b, found₁, before, rfl⟩ := World.exchangeAt_some here
    have one : some (Dispatcher.redis dr₁) = some (.redis dr) := found₁.symm.trans found
    cases one
    have backed := sound.backed serial dr b found before
    have fine : Redis.Proper (b.exchange dr.rcon) t x' := orderly _ about _ here
    rcases World.noticed_of_traffic about here with ⟨quiet, none⟩ | ⟨ce₁, re₁, completed, some₁, handled₁⟩
    · rcases moved with ⟨rfl, -⟩ | ⟨ce, re, _, _, noticed, -⟩
      · exact backed.quiet stepped quiet fine
      · rw [none] at noticed
        cases noticed
    · rcases moved with ⟨-, other⟩ | ⟨ce, re, owner, reported, noticed, handled, ran, known⟩
      · exact absurd handled₁ (other ce₁ re₁ some₁)
      · have same : some (FleetEvent.daemon ce₁) = some (.daemon ce) := some₁.symm.trans noticed
        cases same
        have equal : some (serial, re₁) = some (serial, re) := handled₁.symm.trans handled
        cases equal
        exact backed.completes known ran stepped completed fine

/-- An event moves the servers, and the daemon if it notices. -/
private theorem World.step_some (stepped : (world boost factory json).step w e = some (w', reported)) :
    ∃ backings, w.exchanged (w.traffic json e) = some backings ∧
      ((w.noticed e = none ∧ w' = ⟨w.fleet, backings⟩) ∨ ∃ fe f, w.noticed e = some fe ∧
        w.fleet.step boost factory json fe = some (f, reported) ∧ w' = ⟨f, backings⟩) := by
  simp only [world, World.step] at stepped
  split at stepped
  · cases stepped
  next backings exchanged =>
    refine ⟨backings, exchanged, ?_⟩
    split at stepped
    next none =>
      cases stepped
      exact Or.inl ⟨none, rfl⟩
    next fe noticed =>
      obtain ⟨⟨f, reported₁⟩, moved, same⟩ := Option.map_eq_some_iff.mp stepped
      cases same
      exact Or.inr ⟨fe, f, noticed, moved, rfl⟩

/-- What the fleet does is a step of the daemon, or nothing to it. -/
private theorem fleet_step {f f' : Fleet} {fe : FleetEvent}
    (stepped : f.step boost factory json fe = some (f', reported)) :
    (∃ ce, fe = .daemon ce ∧ (core boost factory json).step f.core ce = some (f'.core, reported)) ∨
      (∀ ce, fe ≠ .daemon ce) ∧ f'.core = f.core := by
  cases fe with
  | daemon ce =>
    rw [Fleet.step] at stepped
    split at stepped
    · cases stepped
    next d' reported' moved =>
      obtain ⟨_, -, same⟩ := Option.map_eq_some_iff.mp stepped
      cases same
      exact Or.inl ⟨ce, rfl, moved⟩
  | take =>
    obtain ⟨_, -, same⟩ := Option.map_eq_some_iff.mp stepped
    cases same
    exact Or.inr ⟨by simp, rfl⟩
  | written =>
    obtain ⟨_, -, same⟩ := Option.map_eq_some_iff.mp stepped
    cases same
    exact Or.inr ⟨by simp, rfl⟩

theorem World.Sound.step (sound : w.Sound boost factory json)
    (stepped : (world boost factory json).step w e = some (w', reported))
    (orderly : w.Orderly json e w') : w'.Sound boost factory json := by
  obtain ⟨backings, exchanged, moved⟩ := World.step_some stepped
  obtain ⟨length, -⟩ := World.exchanged_some exchanged
  rcases moved with ⟨none, rfl⟩ | ⟨fe, f, noticed, moved, rfl⟩
  · refine ⟨sound.core, length.trans sound.backings, ?_⟩
    intro serial dr b found own
    exact sound.backed_step exchanged orderly found own (Or.inl ⟨rfl, by simp [none]⟩)
  · rcases fleet_step moved with ⟨ce, rfl, core⟩ | ⟨other, same⟩
    · refine ⟨sound.core.step core, ?_, ?_⟩
      · rw [length, sound.backings, step_dispatchers_length sound.core core]
      intro serial dr' b there own
      obtain ⟨dr, found, handled⟩ := step_handled sound.core core there
      apply sound.backed_step exchanged orderly found own
      rcases handled.run with ⟨still, rfl⟩ | ⟨re, owner, reported, told, ran, known⟩
      · refine Or.inl ⟨rfl, fun ce' re some => ?_⟩
        have equal : Option.some (FleetEvent.daemon ce') = Option.some (.daemon ce) :=
          some.symm.trans noticed
        cases equal
        exact still re
      · exact Or.inr ⟨ce, re, owner, reported, noticed, told, ran, known⟩
    · refine ⟨same ▸ sound.core, by rw [length, sound.backings, same], ?_⟩
      intro serial dr b found own
      rw [same] at found
      refine sound.backed_step exchanged orderly found own (Or.inl ⟨rfl, fun ce re some => ?_⟩)
      exact absurd (Option.some.inj (noticed.symm.trans some)) (other ce)

/-- Connections to the servers that leave nothing behind. -/
theorem world_sound (reached : (world boost factory json).ReachableWhere (World.Orderly json) w) :
    w.Sound boost factory json := by
  apply reached.invariant (World.Sound boost factory json)
  · rintro w ⟨fleet, backings⟩
    refine ⟨.init fleet.core, by rw [backings, List.length_replicate], ?_⟩
    intro serial dr b found own
    have fresh := fleet.core.dispatchers _ (List.mem_of_getElem? found)
    rw [backings, List.getElem?_replicate] at own
    split at own
    · cases own
      exact ⟨.init ⟨fresh.rcon, rfl, rfl, rfl⟩, by rw [fresh.owners, fresh.rcon.accepted]; rfl,
        by rw [fresh.owners]; rfl⟩
    · cases own
  · intro w e w' reported _ sound stepped orderly
    exact sound.step stepped orderly

theorem orderly_of_proper (reached : (world boost factory json).ReachableWhere (World.Proper json) w) :
    (world boost factory json).ReachableWhere (World.Orderly json) w :=
  reached.mono fun _ _ _ proper => proper.2

/-- Devices that wait, whatever the servers do. -/
theorem fleet_of_world (reached : (world boost factory json).ReachableWhere (World.Proper json) w) :
    (fleet boost factory json).ReachableWhere Fleet.Waits w.fleet := by
  apply reached.invariant fun w => (fleet boost factory json).ReachableWhere Fleet.Waits w.fleet
  · exact fun w fresh => .init fresh.fleet
  · intro w e w' reported _ before stepped proper
    obtain ⟨backings, -, moved⟩ := World.step_some stepped
    rcases moved with ⟨-, rfl⟩ | ⟨fe, f, noticed, moved, rfl⟩
    · exact before
    · exact before.step moved (proper.1 fe noticed)

end World

end Eiptnd.Daemon
