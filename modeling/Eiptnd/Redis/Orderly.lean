import Eiptnd.Redis.System

/-! What a step does to the whole system, and that one operation at a time is
outstanding. -/
namespace Eiptnd.Redis

open Reactive

/-! ### What an output starts and answers -/

@[simp] theorem started_append (first second : List Effect) :
    started (first ++ second) = started first ++ started second := List.filterMap_append

@[simp] theorem answers_append (sentOn : Nat) (first second : List Effect) :
    answers sentOn (first ++ second) = answers sentOn first ++ answers sentOn second :=
  List.filterMap_append

theorem started_idle {out : List Effect} (idle : ∀ effect ∈ out, effect.Idle) : started out = [] := by
  rw [started, List.filterMap_eq_nil_iff]
  intro effect member
  cases effect <;> first | rfl | exact (idle _ member).elim

theorem answers_idle {out : List Effect} (sentOn : Nat) (idle : ∀ effect ∈ out, effect.Idle) :
    answers sentOn out = [] := by
  rw [answers, List.filterMap_eq_nil_iff]
  intro effect member
  cases effect <;> first | rfl | exact (idle _ member).elim

theorem started_invoke (callback : Callback) (ok : Bool) (line : List InByte) (c : Client) :
    started (invoke callback ok line c) = [] := by
  have quiet : started (if callback.keepAlive then timeoutNoPing ok c else []) = [] := by
    split
    · exact started_idle (timeoutNoPing_idle ok c)
    · rfl
  exact quiet

theorem answers_invoke (sentOn : Nat) (callback : Callback) (ok : Bool) (line : List InByte)
    (c : Client) : answers sentOn (invoke callback ok line c) = [⟨callback, ok, line, sentOn⟩] := by
  have quiet : answers sentOn (if callback.keepAlive then timeoutNoPing ok c else []) = [] := by
    split
    · exact answers_idle sentOn (timeoutNoPing_idle ok c)
    · rfl
  exact congrArg (List.cons _) quiet

/-- The answers on account of a line. -/
def replied (sentOn : Nat) (front : List (Entry × List InByte)) : List Answer :=
  front.map fun x => ⟨x.1.callback, true, x.2, sentOn⟩

/-- The answers of a dropped batch. -/
def failed (sentOn : Nat) (entries : List Entry) : List Answer :=
  entries.map fun entry => ⟨entry.callback, false, [], sentOn⟩

@[simp] theorem started_matchOutput (c : Client) (front : List (Entry × List InByte)) :
    started (matchOutput c front) = [] := by
  induction front with
  | nil => rfl
  | cons x front ih =>
    rw [matchOutput, List.flatMap_cons, started_append, started_invoke]
    exact ih

@[simp] theorem answers_matchOutput (sentOn : Nat) (c : Client) (front : List (Entry × List InByte)) :
    answers sentOn (matchOutput c front) = replied sentOn front := by
  induction front with
  | nil => rfl
  | cons x front ih =>
    rw [matchOutput, List.flatMap_cons, answers_append, answers_invoke]
    exact congrArg (List.cons _) ih

@[simp] theorem started_dropOutput (c : Client) (entries : List Entry) :
    started (dropOutput c entries) = [] := by
  induction entries with
  | nil => rfl
  | cons entry entries ih =>
    rw [dropOutput, List.flatMap_cons, started_append, started_invoke]
    exact ih

@[simp] theorem answers_dropOutput (sentOn : Nat) (c : Client) (entries : List Entry) :
    answers sentOn (dropOutput c entries) = failed sentOn entries := by
  induction entries with
  | nil => rfl
  | cons entry entries ih =>
    rw [dropOutput, List.flatMap_cons, answers_append, answers_invoke]
    exact congrArg (List.cons _) ih

@[simp] theorem started_launchOutput (queue : RequestQueue) :
    started (launchOutput queue) = [.write] := rfl

@[simp] theorem answers_launchOutput (sentOn : Nat) (queue : RequestQueue) :
    answers sentOn (launchOutput queue) = [] := rfl

theorem matchOutput_sound (c : Client) (front : List (Entry × List InByte)) :
    ∀ effect ∈ matchOutput c front, effect.Sound := by
  intro effect member
  obtain ⟨x, -, inside⟩ := List.mem_flatMap.mp member
  exact invoke_sound _ _ _ _ effect inside

theorem dropOutput_sound (c : Client) (entries : List Entry) :
    ∀ effect ∈ dropOutput c entries, effect.Sound := by
  intro effect member
  obtain ⟨x, -, inside⟩ := List.mem_flatMap.mp member
  exact invoke_sound _ _ _ _ effect inside

/-! ### At most one operation -/

/-- What holds between two handlers. -/
structure System.Orderly (s : System) : Prop where
  /-- While the mutex is free, nothing is on its way. -/
  free : s.client.busy = false → s.ops = [] ∧ s.client.outTmpBuf.callbacks = []
  /-- While it is held, there is one operation for one batch. -/
  held : s.client.busy = true →
    (∃ op, s.ops = [op]) ∧ s.client.isConnected = true ∧ s.client.outTmpBuf.callbacks ≠ []
  /-- A connected client that is not busy has nothing to send. -/
  flushed : s.client.isConnected = true → s.client.busy = false → s.client.outBuf.callbacks = []
  filled : s.client.outBuf.callbacks ≠ [] → s.client.outBuf.data ≠ []

theorem System.Orderly.busy_of_op {s : System} (orderly : s.Orderly) {op : Op}
    (single : s.ops = [op]) : s.client.busy = true := by
  cases busy : s.client.busy with
  | false => simp [(orderly.free busy).1] at single
  | true => rfl

/-- The system after the connection has been given up, `c` being the client just before. -/
def System.lost (s : System) (c : Client) (matched : List Answer) : System :=
  { s with
    client := c.lost
    ops := []
    conn := s.conn + 1
    answered := s.answered ++ (matched ++ failed s.sentOn c.outTmpBuf.callbacks) }

/-- All that a step can do. -/
inductive Steps (s : System) : Event → System → Prop
  | refused {e : Event} : s.client.isConnected = false → Steps s e s
  | queued {e : Event} {request : Request} {callback : Callback} : s.client.isConnected = true →
      s.client.busy = true → callback.id = s.accepted → e.request = some request →
      Steps s e { s with
        client := s.client.filled request callback
        accepted := s.accepted + 1 }
  | launched {e : Event} {request : Request} {callback : Callback} : s.client.isConnected = true →
      s.client.busy = false → callback.id = s.accepted → e.request = some request →
      Steps s e { s with
        client := (s.client.filled request callback).launched
        ops := [.write]
        sentOn := s.conn
        accepted := s.accepted + 1 }
  | moved {e : Event} {host port : Bytes} {socketOpen : Bool} :
      Steps s e { s with client := s.client.moved host port socketOpen }
  | connected {e : Event} : s.client.outBuf.callbacks = [] ∨ s.client.busy = true →
      Steps s e { s with client := { s.client with isConnected := true } }
  | flushed {e : Event} : s.client.outBuf.callbacks ≠ [] → s.client.busy = false →
      Steps s e { s with
        client := ({ s.client with isConnected := true } : Client).launched
        ops := [.write]
        sentOn := s.conn }
  | wrote : s.ops = [.write] →
      Steps s .writeDone { s with
        client := sent s.client.outTmpBuf.data.length s.client
        ops := [.read] }
  | writeLost {bytes : Nat} : s.ops = [.write] → bytes ≤ s.client.outTmpBuf.data.length →
      Steps s (.writeFailed bytes) (s.lost (sent bytes s.client) [])
  | readLost : s.ops = [.read] → Steps s .readFailed (s.lost s.client [])
  | more {bytes : Bytes} {inBuf : Streambuf InByte} {front : List (Entry × List InByte)}
      {rest : List Entry} : s.ops = [.read] →
      Answered (received s.conn bytes s.client) inBuf front rest → rest ≠ [] →
      Steps s (.readDone bytes) { s with
        client := s.client.matched inBuf rest
        answered := s.answered ++ replied s.sentOn front }
  | settled {bytes : Bytes} {inBuf : Streambuf InByte} {front : List (Entry × List InByte)} :
      s.ops = [.read] → Answered (received s.conn bytes s.client) inBuf front [] →
      s.client.outBuf.callbacks = [] →
      Steps s (.readDone bytes) { s with
        client := { s.client.matched inBuf [] with busy := false }
        ops := []
        answered := s.answered ++ replied s.sentOn front }
  | relaunched {bytes : Bytes} {inBuf : Streambuf InByte} {front : List (Entry × List InByte)} :
      s.ops = [.read] → Answered (received s.conn bytes s.client) inBuf front [] →
      s.client.outBuf.callbacks ≠ [] →
      Steps s (.readDone bytes) { s with
        client := (s.client.matched inBuf []).launched
        ops := [.write]
        sentOn := s.conn
        answered := s.answered ++ replied s.sentOn front }
  | gaveUp {bytes : Bytes} {inBuf : Streambuf InByte} {front : List (Entry × List InByte)}
      {rest : List Entry} : s.ops = [.read] →
      Answered (received s.conn bytes s.client) inBuf front rest →
      inBuf.unread = behindUnsupported s.client.outTmpBuf.callbacks.length
        (received s.conn bytes s.client).inBuf.unread →
      Steps s (.readDone bytes) (s.lost (s.client.matched inBuf rest) (replied s.sentOn front))

theorem taken_some {next : Result → System} {r : Result} {s' : System} {out : List Effect}
    (step : taken next r = some (s', out)) : r.fault = none ∧ s' = next r ∧ out = r.output := by
  rw [taken] at step
  split at step
  · cases step
  next fine =>
    cases step
    exact ⟨fine, rfl, rfl⟩

theorem taken_of_returned {next : Result → System} {r : Result} (fine : r.fault = none) :
    taken next r = some (next r, r.output) := by
  simp [taken, fine]

/-- A handler that starts and answers nothing changes only the client. -/
theorem after_quiet {s : System} {c : Client} {out : List Effect}
    (connected : s.client.isConnected = true → c.isConnected = true) (starts : started out = [])
    (none : answers s.sentOn out = []) : s.after s.ops (.emit c out) = { s with client := c } := by
  cases before : s.client.isConnected with
  | false => simp [System.after, starts, none, before]
  | true => simp [System.after, starts, none, connected before]

/-- A handler that starts a write, at the end of what it does. -/
theorem after_launch {s : System} {c : Client} {ops : List Op} {out : List Effect}
    {queue : RequestQueue} (connected : s.client.isConnected = true → c.isConnected = true)
    (none : ops = []) (starts : started out = []) :
    s.after ops (.emit c (out ++ launchOutput queue)) = { s with
      client := c
      ops := [.write]
      sentOn := s.conn
      answered := s.answered ++ answers s.sentOn out } := by
  cases before : s.client.isConnected with
  | false => simp [System.after, starts, none, before]
  | true => simp [System.after, starts, none, connected before]

section Cases

variable {s s' : System} {e : Event} {out : List Effect}

private theorem request_cases (orderly : s.Orderly) {request : Request} {checks : List Effect}
    {callback : Callback} (passed : ∀ effect ∈ checks, effect = .assert .reserved true)
    (id : callback.id = s.accepted) (asks : e.request = some request)
    (step : taken s.request (submit request checks callback s.client) = some (s', out)) :
    Steps s e s' ∧ ∀ effect ∈ out, effect.Sound := by
  obtain ⟨-, rfl, rfl⟩ := taken_some step
  have starts : started checks = [] := by
    rw [started, List.filterMap_eq_nil_iff]
    intro effect member
    rw [passed effect member]
  have none : answers s.sentOn checks = [] := by
    rw [answers, List.filterMap_eq_nil_iff]
    intro effect member
    rw [passed effect member]
  have sound : ∀ effect ∈ checks, effect.Sound := by
    intro effect member
    rw [passed effect member]
    rfl
  cases connected : s.client.isConnected with
  | false =>
    have same : s.request (.emit s.client (invoke callback false [] s.client)) = s := by
      simp [System.request, System.after, connected, started_invoke]
    rw [submit_refused connected, same]
    exact ⟨.refused connected, invoke_sound callback false [] s.client⟩
  | true =>
    cases busy : s.client.busy with
    | true =>
      -- The batch before is on its way, so the request waits.
      rw [submit_queued connected busy, System.request, if_pos connected,
        @after_quiet s (s.client.filled request callback) _ (fun _ => connected) starts none]
      exact ⟨.queued connected busy id asks, sound⟩
    | false =>
      -- Nothing is on its way, so the request goes out alone.
      rw [submit_launched connected busy, System.request, if_pos connected,
        @after_launch s (s.client.filled request callback).launched _ _ _ (fun _ => connected)
          (orderly.free busy).1 starts, none, List.append_nil]
      refine ⟨.launched connected busy id asks, append_sound sound ?_⟩
      exact launchOutput_sound (push_callbacks_ne_nil _ _ _) (push_data_ne_nil _ _ _)

private theorem moves_cases {r : Result} (moves : Moves s.client r)
    (step : taken (s.after s.ops) r = some (s', out)) :
    Steps s e s' ∧ ∀ effect ∈ out, effect.Sound := by
  obtain ⟨-, rfl, rfl⟩ := taken_some step
  obtain ⟨host, port, socketOpen, out, rfl, idle⟩ := moves
  rw [@after_quiet s (s.client.moved host port socketOpen) out (fun connected => connected)
    (started_idle idle) (answers_idle _ idle)]
  exact ⟨.moved, fun effect member => (idle effect member).sound⟩

private theorem handleConnect_step (orderly : s.Orderly) {ok : Bool} {endpoints : List Endpoint}
    (step : taken (s.after s.ops) (handleConnect ok endpoints s.client) = some (s', out)) :
    Steps s e s' ∧ ∀ effect ∈ out, effect.Sound := by
  have idle := timeoutNoPing_idle true s.client
  have sound : ∀ effect ∈ timeoutNoPing true s.client, effect.Sound :=
    fun effect member => (idle effect member).sound
  obtain ⟨fine, same, same'⟩ := taken_some step
  rcases handleConnect_cases fine with moves | ⟨-, held, shape⟩ | ⟨-, waiting, free, shape⟩
  · exact moves_cases moves step
  · rw [same, same', shape,
      after_quiet (fun _ => rfl) (started_idle idle) (answers_idle _ idle)]
    exact ⟨.connected held, sound⟩
  -- Requests left over from the connection before go out first.
  · rw [same, same', shape, after_launch (fun _ => rfl) (orderly.free free).1 (started_idle idle),
      answers_idle _ idle, List.append_nil]
    refine ⟨.flushed waiting free, append_sound sound ?_⟩
    exact launchOutput_sound waiting (orderly.filled waiting)

/-- A connection is given up by the handler of the one outstanding operation. -/
private theorem after_lost {c : Client} {closing : List Effect}
    {front : List (Entry × List InByte)} (connected : s.client.isConnected = true)
    (idle : ∀ effect ∈ closing, effect.Idle) :
    s.after [] (.emit c.lost (matchOutput s.client front ++ (closing ++
      dropOutput c c.outTmpBuf.callbacks ++ [.unlock c.busy, .asyncResolve c.host c.port]))) =
      s.lost c (replied s.sentOn front) := by
  have starts : started [.unlock c.busy, .asyncResolve c.host c.port] = [] := rfl
  have none : answers s.sentOn [.unlock c.busy, .asyncResolve c.host c.port] = [] := rfl
  simp [System.after, System.lost, connected, Client.lost, started_idle idle, starts,
    answers_idle _ idle, none]

private theorem lost_sound {c : Client} {closing : List Effect} {entries : List Entry}
    (held : c.busy = true) (idle : ∀ effect ∈ closing, effect.Idle) :
    ∀ effect ∈ closing ++ dropOutput c entries ++ [.unlock c.busy, .asyncResolve c.host c.port],
      effect.Sound := by
  apply append_sound
  · exact append_sound (fun effect member => (idle effect member).sound) (dropOutput_sound c entries)
  · simp [Effect.Sound, held]

/-- The operation that completes is the only one. -/
theorem System.Orderly.only {op : Op} (orderly : s.Orderly) (member : op ∈ s.ops) :
    s.ops = [op] ∧ s.client.busy = true ∧ s.client.isConnected = true := by
  cases busy : s.client.busy with
  | false => simp [(orderly.free busy).1] at member
  | true =>
    obtain ⟨⟨other, single⟩, connected, -⟩ := orderly.held busy
    -- One operation while the mutex is held: it is the one that completes.
    rw [single, List.mem_singleton] at member
    exact ⟨by rw [single, member], rfl, connected⟩

private theorem reconnect_step {c : Client} (connected : s.client.isConnected = true)
    (held : c.busy = true) (step : taken (s.after []) (reconnect c) = some (s', out)) :
    s' = s.lost c [] ∧ ∀ effect ∈ out, effect.Sound := by
  obtain ⟨-, rfl, rfl⟩ := taken_some step
  obtain ⟨closing, idle, shape⟩ := reconnect_eq c
  rw [shape]
  exact ⟨@after_lost s c closing [] connected idle, lost_sound held idle⟩

private theorem handleRead_step (orderly : s.Orderly) {bytes : Bytes} (single : s.ops = [.read])
    (held : s.client.busy = true) (connected : s.client.isConnected = true)
    (step : taken (s.after []) (handleRead true (received s.conn bytes s.client)) = some (s', out)) :
    Steps s (.readDone bytes) s' ∧ ∀ effect ∈ out, effect.Sound := by
  obtain ⟨fine, rfl, rfl⟩ := taken_some step
  have handled := handleRead_cases (received s.conn bytes s.client) fine
  generalize handleRead true (received s.conn bytes s.client) = r at handled
  cases handled with
  | @more inBuf front rest answered left =>
    refine ⟨?_, append_sound (matchOutput_sound _ front) (by simp [Effect.Sound])⟩
    have read : started [.asyncRead] = [.read] := rfl
    have none : answers s.sentOn [.asyncRead] = [] := rfl
    have shape := Steps.more single answered left
    convert shape using 1
    simp [System.after, read, none, single, Client.matched, received]
  | @settled inBuf front answered waiting =>
    refine ⟨?_, append_sound (matchOutput_sound _ front) ?_⟩
    · have unlocks : started [.unlock s.client.busy] = [] := rfl
      have none : answers s.sentOn [.unlock s.client.busy] = [] := rfl
      have shape := Steps.settled single answered waiting
      convert shape using 1
      simp [System.after, unlocks, none, Client.matched, received]
    · simp [Effect.Sound, received, held]
  | @relaunched inBuf front answered waiting =>
    refine ⟨?_, append_sound (matchOutput_sound _ front) ?_⟩
    · rw [@after_launch s ((received s.conn bytes s.client).matched inBuf []).launched [] _ _
        (fun _ => connected) rfl (started_matchOutput _ front), answers_matchOutput]
      exact .relaunched single answered waiting
    · exact launchOutput_sound waiting (orderly.filled waiting)
  | @gaveUp inBuf front rest closing answered behind idle =>
    refine ⟨?_, append_sound (matchOutput_sound _ front) ?_⟩
    · have lost := @after_lost s (s.client.matched inBuf rest) closing front connected idle
      have shape := Steps.gaveUp single answered behind
      rw [← lost] at shape
      exact shape
    · exact @lost_sound (s.client.matched inBuf rest) closing rest held idle

/-- A step of an orderly system is one of those listed, and what it puts out is sound. -/
theorem step_cases (orderly : s.Orderly) (step : s.step e = some (s', out)) :
    Steps s e s' ∧ ∀ effect ∈ out, effect.Sound := by
  cases e with
  | publish channel message =>
    apply request_cases orderly _ _ rfl step
    · intro effect member
      rw [List.mem_singleton.mp member, decide_eq_true (publish_reserved channel message)]
    · rfl
  | ping => exact request_cases orderly (by simp) rfl rfl step
  | timeoutPing aborted =>
    cases aborted with
    | false => exact request_cases orderly (by simp) rfl rfl step
    | true =>
      -- A timer that was cancelled does nothing.
      have still : Moves s.client (timeoutPing true ⟨s.accepted, true⟩ s.client) :=
        ⟨s.client.host, s.client.port, s.client.socketOpen, [], rfl, by simp⟩
      exact moves_cases still step
  | timeoutConnect aborted endpoints =>
    exact moves_cases (timeoutConnect_moves (taken_some step).1) step
  | handleResolve ok endpoints => exact moves_cases (handleResolve_moves (taken_some step).1) step
  | handleConnect ok endpoints => exact handleConnect_step orderly step
  | writeDone =>
    simp only [System.step] at step
    split at step
    next outstanding =>
      obtain ⟨single, -, connected⟩ := orderly.only outstanding
      obtain ⟨-, rfl, rfl⟩ := taken_some step
      refine ⟨?_, by simp [handleWrite, read, Effect.Sound]⟩
      have reads : started [.asyncRead] = [.read] := rfl
      have none : answers s.sentOn [.asyncRead] = [] := rfl
      have shape := Steps.wrote single
      convert shape using 1
      simp [System.after, handleWrite, read, reads, none, single, sent]
    next => cases step
  | writeFailed bytes =>
    simp only [System.step] at step
    split at step
    next outstanding =>
      obtain ⟨single, held, connected⟩ := orderly.only outstanding.1
      rw [single, List.erase_cons_head] at step
      obtain ⟨rfl, sound⟩ := reconnect_step (c := sent bytes s.client) connected held step
      exact ⟨.writeLost single outstanding.2, sound⟩
    next => cases step
  | readDone bytes =>
    simp only [System.step] at step
    split at step
    next outstanding =>
      obtain ⟨single, held, connected⟩ := orderly.only outstanding.1
      rw [single, List.erase_cons_head] at step
      exact handleRead_step orderly single held connected step
    next => cases step
  | readFailed =>
    simp only [System.step] at step
    split at step
    next outstanding =>
      obtain ⟨single, held, connected⟩ := orderly.only outstanding
      rw [single, List.erase_cons_head] at step
      obtain ⟨rfl, sound⟩ := reconnect_step (c := s.client) connected held step
      exact ⟨.readLost single, sound⟩
    next => cases step

/-- A batch has just been handed to the socket, and the other queue is empty. -/
private theorem launched_orderly {c : Client} (client : s'.client = c.launched)
    (single : s'.ops = [.write]) (connected : c.isConnected = true)
    (waiting : c.outBuf.callbacks ≠ []) (spent : c.outTmpBuf.callbacks = []) : s'.Orderly := by
  refine ⟨by simp [client, Client.launched], ?_, by simp [client, Client.launched], ?_⟩
  · intro _
    rw [client]
    exact ⟨⟨.write, single⟩, connected, waiting⟩
  · intro other
    rw [client] at other
    exact absurd spent other

/-- Everything of a lost connection is gone but the requests that still wait. -/
private theorem lost_orderly {c : Client} {matched : List Answer} (before : s.Orderly)
    (same : c.outBuf = s.client.outBuf) : (s.lost c matched).Orderly := by
  refine ⟨fun _ => ⟨rfl, rfl⟩, by simp [System.lost, Client.lost],
    by simp [System.lost, Client.lost], ?_⟩
  simp only [System.lost, Client.lost, same]
  exact before.filled

/-- Every step keeps the order. -/
theorem Steps.orderly (step : Steps s e s') (before : s.Orderly) : s'.Orderly := by
  cases step with
  | refused => exact before
  | @queued _ request callback connected held =>
    exact ⟨before.free, before.held, by simp [Client.filled, held], fun _ => push_data_ne_nil _ _ _⟩
  | @launched _ request callback connected free =>
    exact launched_orderly rfl rfl connected (push_callbacks_ne_nil _ _ _) (before.free free).2
  | moved => exact ⟨before.free, before.held, before.flushed, before.filled⟩
  | connected settled =>
    refine ⟨before.free, ?_, ?_, before.filled⟩
    · intro held
      exact ⟨(before.held held).1, rfl, (before.held held).2.2⟩
    · intro _ free
      -- Either there was nothing to flush, or a batch is still on its way.
      rcases settled with none | held
      · exact none
      · simp [held] at free
  | flushed waiting free => exact launched_orderly rfl rfl rfl waiting (before.free free).2
  | wrote single =>
    have held := before.busy_of_op single
    refine ⟨by simp [sent, held], ?_, by simp [sent, held], before.filled⟩
    intro _
    exact ⟨⟨.read, rfl⟩, (before.held held).2⟩
  | writeLost single => exact lost_orderly before rfl
  | readLost single => exact lost_orderly before rfl
  | gaveUp single => exact lost_orderly before rfl
  | more single answered left =>
    have held := before.busy_of_op single
    refine ⟨by simp [Client.matched, held], ?_, by simp [Client.matched, held], before.filled⟩
    intro _
    exact ⟨(before.held held).1, (before.held held).2.1, left⟩
  | settled single answered waiting =>
    exact ⟨fun _ => ⟨rfl, rfl⟩, by simp, fun _ _ => waiting, before.filled⟩
  | relaunched single answered waiting =>
    have held := before.busy_of_op single
    have connected := (before.held held).2.1
    exact launched_orderly rfl rfl connected waiting rfl

end Cases

theorem orderly_of_reachable {s : System} (reached : system.Reachable s) : s.Orderly := by
  apply reached.invariant System.Orderly
  · intro s fresh
    refine ⟨?_, ?_, ?_, ?_⟩
    · intro _
      exact ⟨fresh.ops, by rw [fresh.client.outTmpBuf]; rfl⟩
    · intro held
      simp [fresh.client.busy] at held
    · intro connected
      simp [fresh.client.isConnected] at connected
    · intro waiting
      simp [fresh.client.outBuf, RequestQueue.empty] at waiting
  · intro s e s' out _ before step
    exact (step_cases before step).1.orderly before

end Eiptnd.Redis
