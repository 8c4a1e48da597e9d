import Eiptnd.Library.Pipeline
import Eiptnd.Redis.Orderly

/-! What becomes of an accepted request.

Towards its callers the client is a pipeline: requests wait in `out_buf_`, are on their
way in `out_tmp_buf_`, and are done once their callback has been invoked. -/
namespace Eiptnd.Redis

open Reactive Relation

def ids (entries : List Entry) : List Nat := entries.map fun entry => entry.callback.id

def answeredIds (answered : List Answer) : List Nat := answered.map fun answer => answer.callback.id

/-- The pipeline that the system implements. -/
def System.stages (s : System) : Pipeline.Stages Nat where
  accepted := List.range s.accepted
  waiting := ids s.client.outBuf.callbacks
  inflight := ids s.client.outTmpBuf.callbacks
  done := answeredIds s.answered

private theorem answeredIds_replied (sentOn : Nat) (front : List (Entry × List InByte)) :
    answeredIds (replied sentOn front) = ids (front.map Prod.fst) := by
  simp [answeredIds, replied, ids]

private theorem answeredIds_failed (sentOn : Nat) (entries : List Entry) :
    answeredIds (failed sentOn entries) = ids entries := by
  simp [answeredIds, failed, ids]

private theorem ids_append (first second : List Entry) :
    ids (first ++ second) = ids first ++ ids second := List.map_append

private theorem answeredIds_append (first second : List Answer) :
    answeredIds (first ++ second) = answeredIds first ++ answeredIds second := List.map_append

section Refinement

variable {s s' : System} {e : Event}

/-- The callbacks at the front of the batch are invoked. -/
private theorem finish_front {front rest : List Nat}
    (batch : ids s.client.outTmpBuf.callbacks = front ++ rest) :
    ReflTransGen Pipeline.Step s.stages
      { s.stages with inflight := rest, done := s.stages.done ++ front } :=
  Pipeline.finish_many front rest s.stages batch

/-- The queue is launched once the batch before is out of the way. -/
private theorem launch_step {t t' : Pipeline.Stages Nat} (empty : t.inflight = [])
    (same : t' = { t with waiting := [], inflight := t.waiting }) : Pipeline.Step t t' := by
  rw [same]
  exact .launch empty

private theorem accept_step {request : Request} {callback : Callback}
    (id : callback.id = s.accepted) : Pipeline.Step s.stages { s.stages with
      accepted := List.range (s.accepted + 1)
      waiting := ids (s.client.outBuf.push request callback).callbacks } := by
  have order : List.range (s.accepted + 1) = s.stages.accepted ++ [s.accepted] := List.range_succ
  have line : ids (s.client.outBuf.push request callback).callbacks =
      s.stages.waiting ++ [s.accepted] := by
    simp [System.stages, RequestQueue.push, ids, id]
  rw [order, line]
  exact .accept s.accepted

private theorem lost_steps {c : Client} {matched : List Answer} (same : c.outBuf = s.client.outBuf)
    (batch : ids s.client.outTmpBuf.callbacks = answeredIds matched ++ ids c.outTmpBuf.callbacks) :
    ReflTransGen Pipeline.Step s.stages (s.lost c matched).stages := by
  -- What was matched and what is dropped make up the batch.
  have shape : (s.lost c matched).stages = { s.stages with
      inflight := []
      done := s.stages.done ++ ids s.client.outTmpBuf.callbacks } := by
    rw [batch]
    simp [System.stages, System.lost, Client.lost, same, answeredIds_append, answeredIds_failed, ids]
  rw [shape]
  exact finish_front (List.append_nil _).symm

private theorem Answered.batch {c : Client} {inBuf : Streambuf InByte}
    {front : List (Entry × List InByte)} {rest : List Entry} (sentOn : Nat)
    (answered : Answered c inBuf front rest) :
    ids c.outTmpBuf.callbacks = answeredIds (replied sentOn front) ++ ids rest := by
  rw [answered.callbacks, ids_append, answeredIds_replied]

/-- Every step is steps of the pipeline. -/
theorem Steps.simulated (step : Steps s e s') (orderly : s.Orderly) :
    ReflTransGen Pipeline.Step s.stages s'.stages := by
  have idle (free : s.client.busy = false) : ids s.client.outTmpBuf.callbacks = [] := by
    rw [(orderly.free free).2]
    rfl
  cases step with
  | refused => exact .refl
  | moved => exact .refl
  | connected => exact .refl
  | wrote => exact .refl
  | queued _ _ id => exact .single (accept_step id)
  | @launched _ request callback _ free id =>
    -- Accepted and launched by one handler: two steps of the pipeline.
    apply ReflTransGen.tail (.single (@accept_step s request callback id))
    apply launch_step (idle free)
    simp [System.stages, Client.launched, Client.filled, idle free]
  | flushed _ free =>
    apply ReflTransGen.single
    apply launch_step (idle free)
    simp [System.stages, Client.launched, idle free]
  | writeLost => exact lost_steps rfl rfl
  | readLost => exact lost_steps rfl rfl
  | gaveUp _ answered => exact lost_steps rfl (answered.batch s.sentOn)
  | more _ answered =>
    have finish := finish_front (answered.batch s.sentOn)
    convert finish using 1
    simp [System.stages, Client.matched, answeredIds_append]
  | settled _ answered =>
    have finish := finish_front (answered.batch s.sentOn)
    convert finish using 1
    simp [System.stages, Client.matched, answeredIds_append]
  | relaunched _ answered =>
    -- The batch is finished by the same handler that launches the next.
    apply ReflTransGen.tail (finish_front (answered.batch s.sentOn))
    apply launch_step rfl
    simp [System.stages, Client.matched, Client.launched, answeredIds_append, ids]

end Refinement

/-- The system refines the pipeline. -/
theorem stages_of_reachable {s : System} (reached : system.Reachable s) :
    ReflTransGen Pipeline.Step .start s.stages := by
  apply reached.simulates System.stages Pipeline.Step .start
  · intro s fresh
    simp [System.stages, Pipeline.Stages.start, fresh.accepted, fresh.answered, fresh.client.outBuf,
      fresh.client.outTmpBuf, RequestQueue.empty, ids, answeredIds]
  · intro s e s' out before step
    have orderly := orderly_of_reachable before
    exact (step_cases orderly step).1.simulated orderly

/-- An accepted callback waits, is on its way or has been invoked, and is in one of these
places only once. They are invoked in the order in which they were accepted. -/
theorem answered_once {s : System} (reached : system.Reachable s) :
    (∀ id < s.accepted,
      ((ids s.client.outBuf.callbacks).count id = 1 ∧ (ids s.client.outTmpBuf.callbacks).count id = 0 ∧
          (answeredIds s.answered).count id = 0) ∨
        ((ids s.client.outBuf.callbacks).count id = 0 ∧
          (ids s.client.outTmpBuf.callbacks).count id = 1 ∧ (answeredIds s.answered).count id = 0) ∨
        ((ids s.client.outBuf.callbacks).count id = 0 ∧
          (ids s.client.outTmpBuf.callbacks).count id = 0 ∧ (answeredIds s.answered).count id = 1)) ∧
      answeredIds s.answered = List.range s.answered.length := by
  have conserved := Pipeline.conserved_of_steps (stages_of_reachable reached)
  constructor
  · intro id accepted
    exact conserved.placed List.nodup_range (List.mem_range.mpr accepted)
  -- What is done is a prefix of what was accepted, which is numbered from zero.
  · have starts : answeredIds s.answered <+: List.range s.accepted := conserved.done_starts
    have length : (answeredIds s.answered).length = s.answered.length := List.length_map _
    have short : s.answered.length ≤ s.accepted := by
      rw [← length, ← List.length_range (n := s.accepted)]
      exact starts.length_le
    rw [List.prefix_iff_eq_take.mp starts, List.take_range, length, Nat.min_eq_left short]

/-- Four requests: the first is answered, two are on their way, and one waits. -/
def fourRequests : List Event :=
  [.handleConnect true [], .ping, .writeDone, .publish ['a'] ['b'], .ping,
    .readDone "+PONG\r\n".toList, .publish ['c'] []]

theorem answered_once_fourRequests :
    (system.after .initial fourRequests).accepted = 4 ∧
      (ids (system.after .initial fourRequests).client.outBuf.callbacks).count 3 = 1 ∧
      answeredIds (system.after .initial fourRequests).answered = [0] := by
  have accepted : (system.after .initial fourRequests).accepted = 4 := by decide +kernel
  have length : (system.after .initial fourRequests).answered.length = 1 := by decide +kernel
  have waits : (ids (system.after .initial fourRequests).client.outBuf.callbacks).count 3 ≠ 0 := by
    decide +kernel
  obtain ⟨placed, order⟩ := answered_once (.after System.initial_fresh fourRequests)
  refine ⟨accepted, ?_, by rw [order, length]; rfl⟩
  rcases placed 3 (by rw [accepted]; decide) with place | place | place
  · exact place.1
  · exact absurd place.1 waits
  · exact absurd place.1 waits

/-- Between two handlers a connected client has nothing left to send unless it is busy;
it is busy exactly while one operation is outstanding, and then with at least one
request. The mutex is unlocked only when held, and every assertion holds. -/
theorem nothing_stranded {s : System} (reached : system.Reachable s) :
    (s.client.isConnected = true → s.client.busy = false → s.client.outBuf.callbacks = []) ∧
      (s.client.busy = true ↔ ∃ op, s.ops = [op]) ∧ s.ops.length ≤ 1 ∧
      (s.client.busy = true → s.client.outTmpBuf.callbacks ≠ []) ∧
      ∀ e s' out, s.step e = some (s', out) →
        Effect.unlock false ∉ out ∧ ∀ check, Effect.assert check false ∉ out := by
  have orderly := orderly_of_reachable reached
  refine ⟨orderly.flushed, ?_, ?_, fun held => (orderly.held held).2.2, ?_⟩
  · constructor
    · intro held
      exact (orderly.held held).1
    · rintro ⟨op, single⟩
      exact orderly.busy_of_op single
  · cases busy : s.client.busy with
    | false => simp [(orderly.free busy).1]
    | true =>
      obtain ⟨⟨op, single⟩, -⟩ := orderly.held busy
      simp [single]
  · intro e s' out step
    have sound := (step_cases orderly step).2
    constructor
    · intro member
      cases sound _ member
    · intro check member
      cases sound _ member

/-- Of the four requests, two are on their way by one operation. -/
theorem nothing_stranded_fourRequests :
    (∃ op, (system.after .initial fourRequests).ops = [op]) ∧
      (system.after .initial fourRequests).client.outTmpBuf.callbacks ≠ [] := by
  have busy : (system.after .initial fourRequests).client.busy = true := by decide +kernel
  obtain ⟨-, held, -, batch, -⟩ := nothing_stranded (.after System.initial_fresh fourRequests)
  exact ⟨held.mp busy, batch busy⟩

end Eiptnd.Redis
