import Eiptnd.Dptree.Verify
import Eiptnd.Redis.Requests
import Eiptnd.Wialon.Parser
import Mathlib.Data.List.Perm.Basic

/-! The dispatchers: what becomes of a record that is handed to one, and when its callback
is invoked.

A dispatcher gets a copy of the record's callback with the record, and keeps it until it
has reported. -/
namespace Eiptnd.Daemon

/-- A copy of a callback: the record it belongs to, and the place of the one who holds it
among the record's targets. -/
structure Ticket where
  record : Nat
  place : Nat
  deriving DecidableEq, Repr

/-- A callback is invoked with a result. -/
abbrev Report := Ticket × Bool

/-- The tree of a record as a `dptree`: values under the root. -/
def recordTree (content : Wialon.Tree) : Dptree :=
  .node (.string []) (content.map fun entry => (entry.1, .node (.string entry.2) []))

/-! ### `dispatcher_redis` -/

/-- What a callback in the queues of the client stands for. -/
structure Publication where
  ticket : Ticket
  message : Redis.Bytes
  deriving DecidableEq, Repr

/-- The setting, the connection, and what the callbacks accepted there stand for; one of
the client's own pings stands for nothing. -/
structure DispatcherRedis where
  pretty : Bool
  rcon : Redis.System
  owners : List (Option Publication)

/-- What a callback is bound to. -/
def ownerOf (owners : List (Option Publication)) (callback : Redis.Callback) : Option Publication :=
  owners[callback.id]?.join

/-- The reports among the callbacks that a handler of the client invokes. -/
def reports (owners : List (Option Publication)) (out : List Redis.Effect) : List Report :=
  out.filterMap fun
    | .invoke callback ok _ => (ownerOf owners callback).map fun p => (p.ticket, ok)
    | _ => none

namespace DispatcherRedis

/-- A handler of the client runs; `owner` is what the callback it hands in stands for. -/
def run (owner : Option Publication) (e : Redis.Event) (d : DispatcherRedis) :
    Option (DispatcherRedis × List Report) :=
  match d.rcon.step e with
  | none => none
  | some (rcon, out) =>
    let owners := d.owners ++ [owner]
    -- A callback that is refused leaves nothing behind.
    some ({ d with rcon := rcon, owners := owners.take rcon.accepted }, reports owners out)

def handleProcessData (boost : Dptree.Boost) (ticket : Ticket) (tree : Dptree)
    (d : DispatcherRedis) : Option (DispatcherRedis × List Report) :=
  match Dptree.writeJsonInternal boost d.pretty tree with
  | none => none
  | some message => d.run (some ⟨ticket, message⟩) (.publish "foo".toList message)

/-- The callbacks in the queues of the client. -/
def held (d : DispatcherRedis) : List Ticket :=
  (d.rcon.client.outTmpBuf.callbacks ++ d.rcon.client.outBuf.callbacks).filterMap fun entry =>
    (ownerOf d.owners entry.callback).map Publication.ticket

/-- As `load_settings` leaves it. -/
structure Fresh (d : DispatcherRedis) : Prop where
  rcon : d.rcon.Fresh
  owners : d.owners = []

end DispatcherRedis

/-! ### `dispatcher_logger` -/

/-- The delay of the answers, and the callbacks that wait for their timers. -/
structure DispatcherLogger where
  delay : Nat
  delayed : List Ticket
  deriving DecidableEq, Repr

namespace DispatcherLogger

/-- The tree is written to the log. -/
def handleProcessData (boost : Dptree.Boost) (ticket : Ticket) (tree : Dptree)
    (d : DispatcherLogger) : Option (DispatcherLogger × List Report) :=
  match Dptree.writeJsonInternal boost true tree with
  | none => none
  | some _ =>
    if d.delay = 0 then some (d, [(ticket, true)])
    else some ({ d with delayed := d.delayed ++ [ticket] }, [])

/-- `delayed_callback::run`, of one of the timers. -/
def run (place : Nat) (d : DispatcherLogger) : Option (DispatcherLogger × List Report) :=
  match d.delayed[place]? with
  | none => none
  | some ticket => some ({ d with delayed := d.delayed.eraseIdx place }, [(ticket, true)])

end DispatcherLogger

/-! ### Any dispatcher -/

inductive Dispatcher
  | redis (d : DispatcherRedis)
  | logger (d : DispatcherLogger)

/-- What a dispatcher does when no record is handed to it. -/
inductive Activity
  /-- A handler of the Redis client. -/
  | handler (e : Redis.Event)
  /-- A timer of the logger. -/
  | timer (place : Nat)
  deriving DecidableEq, Repr

/-- `publish` and `ping` are called by nobody but the dispatcher and the client. -/
def isHandler : Redis.Event → Bool
  | .publish _ _ | .ping => false
  | _ => true

namespace Dispatcher

def handleProcessData (boost : Dptree.Boost) (ticket : Ticket) (tree : Dptree) :
    Dispatcher → Option (Dispatcher × List Report)
  | redis d => (d.handleProcessData boost ticket tree).map fun r => (redis r.1, r.2)
  | logger d => (d.handleProcessData boost ticket tree).map fun r => (logger r.1, r.2)

def act : Activity → Dispatcher → Option (Dispatcher × List Report)
  | .handler e, redis d => if isHandler e then (d.run none e).map fun r => (redis r.1, r.2) else none
  | .timer place, logger d => (d.run place).map fun r => (logger r.1, r.2)
  | _, _ => none

def held : Dispatcher → List Ticket
  | redis d => d.held
  | logger d => d.delayed

def Fresh : Dispatcher → Prop
  | redis d => d.Fresh
  | logger d => d.delayed = []

end Dispatcher

/-! ### The client's callbacks by number -/

/-- What a step of the client answers: the callback it refuses, or more of those that it has
accepted. -/
inductive Answering (s : Redis.System) (e : Redis.Event) (s' : Redis.System)
    (out : List Redis.Effect) : Prop
  | refused (keepAlive : Bool) : s'.client = s.client → s'.accepted = s.accepted →
      s'.answered = s.answered →
      Redis.answers s.sentOn out = [⟨⟨s.accepted, keepAlive⟩, false, [], s.sentOn⟩] →
      Answering s e s' out
  | accepted : s'.accepted = s.accepted + 1 →
      s'.answered = s.answered ++ Redis.answers s.sentOn out → Answering s e s' out
  | handled : isHandler e = true → s'.accepted = s.accepted →
      s'.answered = s.answered ++ Redis.answers s.sentOn out → Answering s e s' out

section Answering

variable {s s' : Redis.System} {e : Redis.Event} {out : List Redis.Effect}

private theorem request_answering {request : Redis.Request} {checks : List Redis.Effect}
    {keepAlive : Bool} (stepped : Redis.taken s.request
      (Redis.submit request checks ⟨s.accepted, keepAlive⟩ s.client) = some (s', out)) :
    Answering s e s' out := by
  obtain ⟨-, rfl, rfl⟩ := Redis.taken_some stepped
  cases connected : s.client.isConnected with
  | false =>
    rw [Redis.submit_refused connected, Redis.System.request, if_neg (by simp [connected])]
    exact .refused keepAlive rfl rfl rfl (Redis.answers_invoke _ _ _ _ _)
  | true =>
    rw [Redis.System.request, if_pos connected]
    exact .accepted rfl rfl

private theorem after_answering {ops : List Redis.Op} {r : Redis.Result}
    (own : isHandler e = true) (stepped : Redis.taken (s.after ops) r = some (s', out)) :
    Answering s e s' out := by
  obtain ⟨-, rfl, rfl⟩ := Redis.taken_some stepped
  exact .handled own rfl rfl

theorem step_answering (stepped : s.step e = some (s', out)) : Answering s e s' out := by
  cases e with
  | publish channel message => exact request_answering stepped
  | ping => exact request_answering stepped
  | timeoutPing aborted =>
    rw [Redis.System.step] at stepped
    split at stepped
    · exact after_answering rfl stepped
    · exact request_answering stepped
  | timeoutConnect aborted endpoints => exact after_answering rfl stepped
  | handleResolve ok endpoints => exact after_answering rfl stepped
  | handleConnect ok endpoints => exact after_answering rfl stepped
  | _ =>
    rw [Redis.System.step] at stepped
    split at stepped
    · exact after_answering rfl stepped
    · cases stepped

/-- In every reachable state of the client, the callbacks are answered in the order of their
numbers, and those that are not answered yet are in the queues. -/
theorem numbered (reached : Redis.system.Reachable s) :
    Redis.answeredIds s.answered = List.range s.answered.length ∧
      Redis.ids s.client.outTmpBuf.callbacks ++ Redis.ids s.client.outBuf.callbacks =
        List.range' s.answered.length (s.accepted - s.answered.length) ∧
      s.answered.length ≤ s.accepted := by
  have conserved : Redis.answeredIds s.answered ++ Redis.ids s.client.outTmpBuf.callbacks ++
      Redis.ids s.client.outBuf.callbacks = List.range s.accepted :=
    Pipeline.conserved_of_steps (Redis.stages_of_reachable reached)
  rw [List.append_assoc] at conserved
  have length : (Redis.answeredIds s.answered).length = s.answered.length := List.length_map _
  have short : s.answered.length ≤ s.accepted := by
    have sizes := congrArg List.length conserved
    rw [List.length_append, length, List.length_range] at sizes
    omega
  have front := congrArg (List.take s.answered.length) conserved
  have back := congrArg (List.drop s.answered.length) conserved
  rw [List.take_left' length, List.take_range, Nat.min_eq_left short] at front
  rw [List.drop_left' length, List.range_eq_range', List.drop_range'] at back
  refine ⟨front, ?_, short⟩
  rw [back]
  congr 1
  omega

end Answering

/-! ### Tickets by number -/

def Publication.ticketOf (owner : Option Publication) : Option Ticket := owner.map Publication.ticket

/-- What is looked up under consecutive numbers is a part of the list. -/
theorem filterMap_range' {α β : Type} (f : α → Option β) (l : List α) (n k : Nat) :
    (List.range' n k).filterMap (fun i => l[i]?.bind f) = ((l.drop n).take k).filterMap f := by
  induction k generalizing n with
  | zero => simp
  | succ k ih =>
    rw [List.range'_succ, List.filterMap_cons, ih]
    cases found : l[n]? with
    | none =>
      have out := List.getElem?_eq_none_iff.mp found
      rw [List.drop_eq_nil_of_le out, List.drop_eq_nil_of_le (by omega)]
      simp
    | some a =>
      obtain ⟨bound, rfl⟩ := List.getElem?_eq_some_iff.mp found
      rw [List.drop_eq_getElem_cons bound, List.take_succ_cons, List.filterMap_cons]
      rfl

theorem ownerOf_ticket (owners : List (Option Publication)) (callback : Redis.Callback) :
    (ownerOf owners callback).map Publication.ticket =
      owners[callback.id]?.bind Publication.ticketOf := by
  rw [ownerOf]
  cases owners[callback.id]? <;> rfl

theorem reports_answers (owners : List (Option Publication)) (sentOn : Nat)
    (out : List Redis.Effect) : reports owners out = (Redis.answers sentOn out).filterMap fun answer =>
      (ownerOf owners answer.callback).map fun p => (p.ticket, answer.ok) := by
  rw [reports, Redis.answers, List.filterMap_filterMap]
  congr 1
  funext effect
  cases effect <;> rfl

/-- Whose reports they are. -/
theorem reports_tickets (owners : List (Option Publication)) (sentOn : Nat)
    (out : List Redis.Effect) : (reports owners out).map Prod.fst =
      (Redis.answeredIds (Redis.answers sentOn out)).filterMap fun id =>
        owners[id]?.bind Publication.ticketOf := by
  rw [reports_answers owners sentOn, List.map_filterMap, Redis.answeredIds, List.filterMap_map]
  congr 1
  funext answer
  simp [Function.comp_def, ← ownerOf_ticket]

namespace DispatcherRedis

/-- The client is in a state it can reach, and every callback it has accepted is known. -/
structure Sound (d : DispatcherRedis) : Prop where
  rcon : Redis.system.Reachable d.rcon
  owners : d.owners.length = d.rcon.accepted

variable {d d' : DispatcherRedis} {owner : Option Publication} {e : Redis.Event}
  {reported : List Report}

/-- In the order in which the callbacks will be invoked. -/
theorem held_eq (sound : d.Sound) :
    d.held = (d.owners.drop d.rcon.answered.length).filterMap Publication.ticketOf := by
  obtain ⟨-, queued, -⟩ := numbered sound.rcon
  have whole : ((d.owners.drop d.rcon.answered.length).take
      (d.rcon.accepted - d.rcon.answered.length)) = d.owners.drop d.rcon.answered.length :=
    List.take_of_length_le (by rw [List.length_drop, sound.owners])
  have shape : d.held = (Redis.ids d.rcon.client.outTmpBuf.callbacks ++
      Redis.ids d.rcon.client.outBuf.callbacks).filterMap fun id =>
        d.owners[id]?.bind Publication.ticketOf := by
    rw [held, Redis.ids, Redis.ids, ← List.map_append, List.filterMap_map]
    congr 1
    funext entry
    exact ownerOf_ticket _ _
  rw [shape, queued, filterMap_range', whole]

theorem run_some (ran : d.run owner e = some (d', reported)) :
    ∃ rcon out, d.rcon.step e = some (rcon, out) ∧
      d' = { d with rcon := rcon, owners := (d.owners ++ [owner]).take rcon.accepted } ∧
      reported = reports (d.owners ++ [owner]) out := by
  rw [run] at ran
  split at ran
  · cases ran
  next rcon out stepped =>
    cases ran
    exact ⟨rcon, out, stepped, rfl, rfl⟩

private theorem reports_of_range {s : Redis.System} {owners : List (Option Publication)}
    {answered : List Redis.Answer} {out : List Redis.Effect} (sentOn : Nat)
    (before : Redis.answeredIds s.answered = List.range s.answered.length)
    (after : Redis.answeredIds answered = List.range answered.length)
    (same : answered = s.answered ++ Redis.answers sentOn out) :
    (reports owners out).map Prod.fst ++
        (owners.drop answered.length).filterMap Publication.ticketOf =
      (owners.drop s.answered.length).filterMap Publication.ticketOf := by
  have size : answered.length = s.answered.length + (Redis.answers sentOn out).length := by
    rw [same, List.length_append]
  have numbers : Redis.answeredIds (Redis.answers sentOn out) =
      List.range' s.answered.length (Redis.answers sentOn out).length := by
    rw [size, List.range_eq_range', ← List.range'_append_1, ← List.range_eq_range', ← before, same,
      Redis.answeredIds, List.map_append] at after
    simpa [Redis.answeredIds] using List.append_cancel_left after
  rw [reports_tickets owners sentOn, numbers, filterMap_range', size, ← List.drop_drop,
    ← List.filterMap_append, List.take_append_drop]

/-- Between the queues and the reports, no callback gets lost and none is doubled. -/
theorem run_held (sound : d.Sound) (fits : owner = none ∨ isHandler e = false)
    (ran : d.run owner e = some (d', reported)) :
    d'.Sound ∧ (reported.map Prod.fst ++ d'.held).Perm
      (d.held ++ (Publication.ticketOf owner).toList) := by
  obtain ⟨rcon, out, stepped, rfl, rfl⟩ := run_some ran
  have reached' : Redis.system.Reachable rcon := sound.rcon.step stepped
  obtain ⟨before, -, short⟩ := numbered sound.rcon
  obtain ⟨after, -, short'⟩ := numbered reached'
  have known (le : rcon.accepted ≤ d.rcon.accepted + 1) :
      DispatcherRedis.Sound
        { d with rcon := rcon, owners := (d.owners ++ [owner]).take rcon.accepted } := by
    refine ⟨reached', ?_⟩
    rw [List.length_take_of_le]
    rw [List.length_append, List.length_singleton, sound.owners]
    exact le
  have front : (d.owners ++ [owner]).drop d.rcon.answered.length =
      d.owners.drop d.rcon.answered.length ++ [owner] := by
    rw [List.drop_append_of_le_length (by rw [sound.owners]; exact short)]
  cases step_answering stepped with
  | refused keepAlive client accepted answered invoked =>
    have sound' := known (by omega)
    have cut : (d.owners ++ [owner]).take rcon.accepted = d.owners := by
      rw [accepted, ← sound.owners, List.take_left' rfl]
    refine ⟨sound', ?_⟩
    rw [held_eq sound', held_eq sound]
    simp only [cut, answered]
    have reported : (reports (d.owners ++ [owner]) out).map Prod.fst =
        (Publication.ticketOf owner).toList := by
      rw [reports_tickets _ d.rcon.sentOn, invoked]
      have last : (d.owners ++ [owner])[d.rcon.accepted]? = some owner := by
        rw [← sound.owners, List.getElem?_concat_length]
      simp only [Redis.answeredIds, List.map_cons, List.map_nil, List.filterMap_cons, last]
      cases owner <;> rfl
    rw [reported]
    exact List.perm_append_comm
  | accepted accepted answered =>
    have sound' := known (by omega)
    have cut : (d.owners ++ [owner]).take rcon.accepted = d.owners ++ [owner] := by
      apply List.take_of_length_le
      rw [List.length_append, List.length_singleton, sound.owners, accepted]
    refine ⟨sound', .of_eq ?_⟩
    rw [held_eq sound', held_eq sound]
    simp only [cut]
    rw [reports_of_range _ before after answered, front, List.filterMap_append]
    cases owner <;> rfl
  | handled own accepted answered =>
    obtain rfl := fits.resolve_right (by simp [own])
    have sound' := known (by omega)
    have cut : (d.owners ++ [none]).take rcon.accepted = d.owners := by
      rw [accepted, ← sound.owners, List.take_left' rfl]
    refine ⟨sound', .of_eq ?_⟩
    have last : (d.owners.drop rcon.answered.length).filterMap Publication.ticketOf =
        ((d.owners ++ [none]).drop rcon.answered.length).filterMap Publication.ticketOf := by
      rw [List.drop_append_of_le_length (by rw [sound.owners, ← accepted]; exact short'),
        List.filterMap_append]
      exact (List.append_nil _).symm
    rw [held_eq sound', held_eq sound]
    simp only [cut]
    rw [last, reports_of_range _ before after answered, front, List.filterMap_append]
    rfl

/-- The callback of a publication has been called with true. -/
def Succeeded (ticket : Ticket) (message : Redis.Bytes) (d : DispatcherRedis) : Prop :=
  ∃ answer ∈ d.rcon.answered, answer.ok = true ∧
    ownerOf d.owners answer.callback = some ⟨ticket, message⟩

private theorem ownerOf_take {owners : List (Option Publication)} {callback : Redis.Callback}
    {n : Nat} (below : callback.id < n) :
    ownerOf (owners.take n) callback = ownerOf owners callback := by
  rw [ownerOf, ownerOf, List.getElem?_take_of_lt below]

private theorem ownerOf_concat {owners : List (Option Publication)} {callback : Redis.Callback}
    (below : callback.id < owners.length) :
    ownerOf (owners ++ [owner]) callback = ownerOf owners callback := by
  rw [ownerOf, ownerOf, List.getElem?_append_left below]

theorem answered_below {s : Redis.System} (reached : Redis.system.Reachable s) {answer : Redis.Answer}
    (member : answer ∈ s.answered) : answer.callback.id < s.accepted := by
  obtain ⟨order, -, short⟩ := numbered reached
  have listed : answer.callback.id ∈ Redis.answeredIds s.answered := List.mem_map_of_mem member
  rw [order, List.mem_range] at listed
  omega

/-- What has succeeded stays so. -/
theorem run_keeps (sound : d.Sound) {ticket : Ticket} {message : Redis.Bytes}
    (succeeded : d.Succeeded ticket message) (ran : d.run owner e = some (d', reported)) :
    d'.Succeeded ticket message := by
  obtain ⟨rcon, out, stepped, rfl, rfl⟩ := run_some ran
  obtain ⟨answer, member, ok, owned⟩ := succeeded
  have below := answered_below sound.rcon member
  have member' : answer ∈ rcon.answered ∧ d.rcon.accepted ≤ rcon.accepted := by
    cases step_answering stepped with
    | refused _ _ accepted answered => exact ⟨answered ▸ member, by omega⟩
    | accepted accepted answered => exact ⟨answered ▸ List.mem_append_left _ member, by omega⟩
    | handled _ accepted answered => exact ⟨answered ▸ List.mem_append_left _ member, by omega⟩
  refine ⟨answer, member'.1, ok, ?_⟩
  rw [ownerOf_take (by omega), ownerOf_concat (by rw [sound.owners]; exact below)]
  exact owned

/-- A report of success is about a publication. -/
theorem run_succeeds (sound : d.Sound) (ran : d.run owner e = some (d', reported)) {ticket : Ticket}
    (yes : (ticket, true) ∈ reported) : ∃ message, d'.Succeeded ticket message := by
  obtain ⟨rcon, out, stepped, rfl, rfl⟩ := run_some ran
  rw [reports_answers _ d.rcon.sentOn, List.mem_filterMap] at yes
  obtain ⟨answer, member, report⟩ := yes
  rw [Option.map_eq_some_iff] at report
  obtain ⟨⟨owned, message⟩, found, same⟩ := report
  simp only [Prod.mk.injEq] at same
  obtain ⟨rfl, ok⟩ := same
  have member' : answer ∈ rcon.answered := by
    cases step_answering stepped with
    | refused _ _ _ _ invoked =>
      -- A refused request is reported as failed.
      rw [invoked, List.mem_singleton] at member
      rw [member] at ok
      cases ok
    | accepted _ answered => exact answered ▸ List.mem_append_right _ member
    | handled _ _ answered => exact answered ▸ List.mem_append_right _ member
  refine ⟨message, answer, member', ok, ?_⟩
  rw [ownerOf_take (answered_below (sound.rcon.step stepped) member')]
  exact found

/-- Every publication is one of those before or the one handed in. -/
theorem run_owners (ran : d.run owner e = some (d', reported)) {p : Publication}
    (member : some p ∈ d'.owners) : some p ∈ d.owners ∨ owner = some p := by
  obtain ⟨rcon, out, -, rfl, -⟩ := run_some ran
  rcases List.mem_append.mp (List.mem_of_mem_take member) with old | new
  · exact Or.inl old
  · exact Or.inr (List.mem_singleton.mp new).symm

theorem run_pretty (ran : d.run owner e = some (d', reported)) : d'.pretty = d.pretty := by
  obtain ⟨rcon, out, -, rfl, -⟩ := run_some ran
  rfl

end DispatcherRedis

/-! ### Every dispatcher keeps to the rules -/

namespace Dispatcher

def Sound : Dispatcher → Prop
  | redis d => d.Sound
  | logger _ => True

theorem Fresh.sound {d : Dispatcher} (fresh : d.Fresh) : d.Sound ∧ d.held = [] := by
  cases d with
  | redis d =>
    refine ⟨⟨.init fresh.rcon, ?_⟩, ?_⟩
    · rw [fresh.owners, fresh.rcon.accepted]
      rfl
    · simp [held, DispatcherRedis.held, fresh.rcon.client.outBuf, fresh.rcon.client.outTmpBuf,
        Redis.RequestQueue.empty]
  | logger d => exact ⟨trivial, fresh⟩

variable {boost : Dptree.Boost} {d d' : Dispatcher} {ticket : Ticket} {content : Wialon.Tree}
  {reported : List Report}

/-- A record that is handed over is kept or reported. -/
theorem handleProcessData_held (sound : d.Sound)
    (handled : d.handleProcessData boost ticket (recordTree content) = some (d', reported)) :
    d'.Sound ∧ (reported.map Prod.fst ++ d'.held).Perm (d.held ++ [ticket]) := by
  cases d with
  | redis d =>
    rw [handleProcessData, DispatcherRedis.handleProcessData, Option.map_eq_some_iff] at handled
    obtain ⟨⟨d', reported⟩, ran, same⟩ := handled
    cases same
    split at ran
    · cases ran
    next message written => exact DispatcherRedis.run_held sound (Or.inr rfl) ran
  | logger d =>
    rw [handleProcessData, DispatcherLogger.handleProcessData, Option.map_eq_some_iff] at handled
    obtain ⟨⟨d', reported⟩, ran, same⟩ := handled
    cases same
    refine ⟨trivial, ?_⟩
    split at ran
    · cases ran
    next message written =>
      split at ran
      · cases ran
        exact List.perm_append_comm
      · cases ran
        exact .refl _

/-- What a dispatcher does on its own moves callbacks from what it holds to what it reports. -/
theorem act_held {a : Activity} (sound : d.Sound) (acted : d.act a = some (d', reported)) :
    d'.Sound ∧ (reported.map Prod.fst ++ d'.held).Perm d.held := by
  cases d with
  | redis d =>
    cases a with
    | handler e =>
      rw [act] at acted
      split at acted
      · rw [Option.map_eq_some_iff] at acted
        obtain ⟨⟨d', reported⟩, ran, same⟩ := acted
        cases same
        have kept := DispatcherRedis.run_held sound (Or.inl rfl) ran
        rw [Publication.ticketOf, Option.map_none, Option.toList_none, List.append_nil] at kept
        exact kept
      · cases acted
    | timer => cases acted
  | logger d =>
    cases a with
    | handler => cases acted
    | timer place =>
      rw [act, DispatcherLogger.run, Option.map_eq_some_iff] at acted
      obtain ⟨⟨d', reported⟩, ran, same⟩ := acted
      cases same
      split at ran
      · cases ran
      next ticket found =>
        cases ran
        obtain ⟨bound, rfl⟩ := List.getElem?_eq_some_iff.mp found
        exact ⟨trivial, List.getElem_cons_eraseIdx_perm bound⟩

end Dispatcher

end Eiptnd.Daemon
