import Eiptnd.Daemon.Accounts
import Eiptnd.Router.Accepting
import Eiptnd.Wialon.ReplySize

/-! The process that the daemon runs in.

Nothing catches what a handler throws: it leaves `io_service::run` and ends the process, and so
does going on with an endpoint that is not there. As long as no handler does, each goes on with
all that follows from it in the other parts. What comes of reading behind `answer_buffer_` is
not defined, and the process is followed only as long as none can. -/
namespace Eiptnd.Daemon

open Reactive Router

/-- The daemon, until a handler has not returned. -/
structure Process where
  core : Core
  ended : Bool

/-- If the router is asked this, it answers as it is said to. -/
def AnsweredAs (answers : Str → Str → Bool) (granted : Bool) : Wialon.Effect → Prop
  | .authenticate imei password => answers imei password = granted
  | _ => True

instance (answers : Str → Str → Bool) (granted : Bool) : DecidablePred (AnsweredAs answers granted)
  | .authenticate imei password => inferInstanceAs (Decidable (answers imei password = granted))
  | .parseString _ | .parserError _ | .processData .. | .answer .. | .doWrite _
  | .doReadUntil _ => isTrue trivial

namespace Dispatcher

/-- What can happen at a dispatcher: a read or a write that is outstanding, any other handler of
the Redis client, or a timer of the logger. -/
def Ready : Activity → Dispatcher → Prop
  | .handler e, redis dr => isHandler e = true ∧ dr.rcon.Ready e
  | .timer place, logger dl => place < dl.delayed.length
  | _, _ => False

instance : (activity : Activity) → DecidablePred (Ready activity)
  | .handler e, redis dr => inferInstanceAs (Decidable (isHandler e = true ∧ dr.rcon.Ready e))
  | .timer place, logger dl => inferInstanceAs (Decidable (place < dl.delayed.length))
  | .handler _, logger _ | .timer _, redis _ => isFalse id

end Dispatcher

section Machine

variable (boost : Wialon.Boost) (factory : PluginFactory) (json : Dptree.Boost)

/-- What can happen next, whatever comes of it: a connection of this protocol is accepted, a line
is read when the last one is done, the router answers what the translator asks, a posted call
runs, or a dispatcher is ready for something of its own. -/
def Core.Pending (d : Core) : Event → Prop
  | .accept port address _ =>
    match onConnection (fun _ => true) factory ⟨some port, some address⟩ with
    | .ok connection => connection.puid = "wialon".toList
    | .error _ => True
  | .line connection message => ∃ link ∈ d.links[connection]?,
      link.session.pending = [] ∧ Lines.Open '\r' '\n' message
  | .token connection granted => ∃ link ∈ d.links[connection]?, ∃ tok ∈ link.session.pending.head?,
      ∀ effect ∈ (Wialon.consumeToken boost granted tok link.session.plugin).output,
        AnsweredAs (factory.requestRouter.authenticate link.papi.remoteAddress) granted effect
  | .returned record => ∃ r ∈ d.records[record]?, r.fanOut.calling = true
  | .refused record => ∃ r ∈ d.records[record]?, r.fanOut.posted = true
  | .run place => place < d.tasks.length
  | .act serial activity => ∃ dispatcher ∈ d.dispatchers[serial]?, dispatcher.Ready activity

instance (d : Core) : DecidablePred (d.Pending boost factory) := fun e => by
  unfold Core.Pending
  split
  · split <;> infer_instance
  all_goals infer_instance

/-- Whatever is answered next fits `answer_buffer_`: no record waits for its result while a command
too long for it stands in `cmd_`, and the number of a package is one of a `std::size_t`. -/
def Link.Roomy (link : Link) : Prop :=
  (link.waiting ≠ [] → link.session.plugin.currentCmd ≠ .blackbox → ∀ ok,
    2 + link.session.plugin.cmd.length + 1 +
      (Wialon.resultCode ok link.session.plugin.currentCmd).length + 2 ≤ Wialon.answerCapacity) ∧
  link.session.plugin.multicommand < 10 ^ 26

instance : DecidablePred Link.Roomy := fun _ => inferInstanceAs (Decidable (_ ∧ _))

def Core.Roomy (d : Core) : Prop := ∀ link ∈ d.links, link.Roomy

instance : DecidablePred Core.Roomy := fun d =>
  inferInstanceAs (Decidable (∀ link ∈ d.links, link.Roomy))

def Process.step (p : Process) (e : Event) : Option (Process × List Report) :=
  if p.ended = false ∧ p.core.Roomy ∧ p.core.Pending boost factory e then
    match p.core.step boost factory json e with
    | some (core, reported) => some (⟨core, !core.alive⟩, reported)
    -- The handler has thrown.
    | none => some (⟨p.core, true⟩, [])
  else none

structure Process.Fresh (p : Process) : Prop where
  core : p.core.Fresh factory
  ended : p.ended = false

end Machine

section Steps

variable {boost : Wialon.Boost} {factory : PluginFactory} {json : Dptree.Boost} {d d' : Core}
  {reported : List Report}

/-! ### Room for the replies -/

/-- Results that come in one after the other, as when a lost Redis connection drops its callbacks:
none takes room from the next. -/
theorem results_fit {s s' : Wialon.Session} (reached : (Wialon.session boost).Reachable s)
    (replies : s.plugin.currentCmd ≠ .blackbox → ∀ ok, 2 + s.plugin.cmd.length + 1 +
      (Wialon.resultCode ok s.plugin.currentCmd).length + 2 ≤ Wialon.answerCapacity)
    {results : List (Nat × Bool)} {out : List Wialon.Effect}
    (ran : (Wialon.session boost).run s (results.map fun r => .complete r.1 r.2) = some (s', out)) :
    ∀ effect ∈ out, effect.Fits := by
  induction results generalizing s out with
  | nil =>
    cases ran
    simp
  | cons result results ih =>
    obtain ⟨s₁, first, rest, stepped, later, rfl⟩ := Machine.run_cons.mp ran
    have kept : s₁.plugin.cmd = s.plugin.cmd ∧ s₁.plugin.currentCmd = s.plugin.currentCmd := by
      obtain ⟨-, step⟩ := Wialon.Session.step_cases stepped
      cases step with
      | complete =>
        rcases Wialon.handleProcessData_cases result.2 s.plugin with ⟨-, counts⟩ | ⟨-, answers⟩
        · simp only [Wialon.Session.complete, counts]
          exact ⟨rfl, rfl⟩
        · simp only [Wialon.Session.complete, answers]
          exact ⟨rfl, rfl⟩
    -- The code of the reply may be another one for each result, its command is not.
    intro effect member
    rcases List.mem_append.mp member with now | after
    · apply (Wialon.step_roomy_iff reached stepped).mpr _ effect now
      intro other _
      have fits := replies other result.2
      rw [Wialon.answerCapacity] at fits
      omega
    · apply ih (reached.step stepped) _ later effect after
      rw [kept.1, kept.2]
      exact replies

/-- Whatever a connection does next, its replies fit. -/
theorem roomy_fits {connection : Nat} {link : Link} {e : Wialon.Event} {session : Wialon.Session}
    {out : List Wialon.Effect} (wired : d.Wired boost factory) (roomy : d.Roomy)
    (here : d.links[connection]? = some link)
    (stepped : (Wialon.session boost).step link.session e = some (session, out)) :
    ∀ effect ∈ out, effect.Fits := by
  have linked := wired.links connection link here
  obtain ⟨replies, counter⟩ := roomy link (List.mem_of_getElem? here)
  cases e with
  | complete place ok =>
    obtain ⟨-, step⟩ := Wialon.Session.step_cases stepped
    have waits : link.waiting ≠ [] := by
      cases step with
      | complete _ _ job found =>
        apply List.ne_nil_of_length_pos
        rw [← linked.jobs]
        exact Nat.zero_lt_of_lt (List.getElem?_eq_some_iff.mp found).1
    apply @results_fit boost link.session session linked.session (replies waits) [(place, ok)]
    exact Machine.run_cons.mpr ⟨session, out, [], stepped, rfl, (List.append_nil out).symm⟩
  | line => exact (Wialon.step_roomy_iff linked.session stepped).mpr trivial
  | token => exact (Wialon.step_roomy_iff linked.session stepped).mpr fun _ _ _ _ => counter

/-! ### Each kind of event -/

/-- The event is taken, and no translator has thrown in it. -/
def Core.GoesOn (boost : Wialon.Boost) (factory : PluginFactory) (json : Dptree.Boost) (e : Event)
    (d : Core) : Prop :=
  ∃ d' reported, d.step boost factory json e = some (d', reported) ∧ d'.alive = true

end Steps

/-! ### Every run -/

section Run

variable {boost : Wialon.Boost} {factory : PluginFactory} {json : Dptree.Boost} {d : Core}
  {p : Process}

end Run

/-! ### The example configuration -/

end Eiptnd.Daemon
