import Eiptnd.Redis.Encoding
import Eiptnd.Redis.Orderly

/-! What a lost connection leaves behind.

The queue in use and the input buffer outlive the connection. A loss does no harm to the
requests to come when no byte of the batch is left unsent, and none to their answers when
no byte of the input is left unread. -/
namespace Eiptnd.Redis

open Reactive

section

variable {s s' : System} {e : Event}

/-! ### Bytes that were not sent -/

/-- The commands of a queue's requests, one after the other, as the protocol has them. -/
def wire (entries : List Entry) : Bytes :=
  entries.flatMap fun entry => Resp.ofCommand entry.request.command

/-- The lengths of what is published on a connection are written as they are, and a write that
fails has sent all of its bytes. -/
def WholeRequests (s : System) (e : Event) (_ : System) : Prop :=
  match e with
  | .publish channel message =>
    s.client.isConnected = true → (Request.publish channel message).Fits
  | .writeFailed bytes => bytes = s.client.outTmpBuf.data.length
  | _ => True

instance (s : System) (e : Event) (s' : System) : Decidable (WholeRequests s e s') := by
  unfold WholeRequests
  split <;> infer_instance

/-- Pings always fit. -/
theorem WholeRequests.fits {s s' : System} {e : Event} {request : Request}
    (whole : WholeRequests s e s') (connected : s.client.isConnected = true)
    (asks : e.request = some request) : request.Fits := by
  cases e with
  | publish =>
    cases asks
    exact whole connected
  | ping =>
    cases asks
    exact trivial
  | timeoutPing aborted =>
    cases aborted with
    | true => cases asks
    | false =>
      cases asks
      exact trivial
  | _ => cases asks

/-- Both queues hold the commands of the requests whose callbacks they hold, and nothing
else. -/
structure System.InStep (s : System) : Prop where
  waiting : s.client.outBuf.data = wire s.client.outBuf.callbacks
  sending : .write ∈ s.ops → s.client.outTmpBuf.data = wire s.client.outTmpBuf.callbacks
  sent : .write ∉ s.ops → s.client.outTmpBuf.data = []

theorem push_wire {queue : RequestQueue} {request : Request} (fits : request.Fits)
    (callback : Callback) (before : queue.data = wire queue.callbacks) :
    (queue.push request callback).data = wire (queue.push request callback).callbacks := by
  simp [RequestQueue.push, wire, before, encode_eq fits]

/-- The queue that is swapped in for filling is empty, bytes and callbacks. -/
private theorem spent {queue : RequestQueue} (callbacks : queue.callbacks = []) (data : queue.data = []) :
    queue.data = wire queue.callbacks := by
  rw [callbacks, data]
  rfl

theorem Steps.inStep (step : Steps s e s') (orderly : s.Orderly) (whole : WholeRequests s e s')
    (before : s.InStep) : s'.InStep := by
  have unsent {op : Op} (single : s.ops = [op]) (other : op ≠ .write) :
      s.client.outTmpBuf.data = [] := by
    apply before.sent
    rw [single, List.mem_singleton]
    exact other.symm
  have swapped (free : s.client.busy = false) :
      s.client.outTmpBuf.data = wire s.client.outTmpBuf.callbacks := by
    obtain ⟨none, callbacks⟩ := orderly.free free
    exact spent callbacks (before.sent (by simp [none]))
  cases step with
  | refused => exact before
  | moved => exact ⟨before.waiting, before.sending, before.sent⟩
  | connected => exact ⟨before.waiting, before.sending, before.sent⟩
  | queued connected _ _ asks =>
    have fits := whole.fits connected asks
    exact ⟨push_wire fits _ before.waiting, before.sending, before.sent⟩
  | launched connected free _ asks =>
    have fits := whole.fits connected asks
    exact ⟨swapped free, fun _ => push_wire fits _ before.waiting, by simp⟩
  | flushed _ free => exact ⟨swapped free, fun _ => before.waiting, by simp⟩
  | wrote => exact ⟨before.waiting, by simp, fun _ => List.drop_length⟩
  | writeLost =>
    refine ⟨before.waiting, by simp [System.lost], fun _ => ?_⟩
    -- This is where a partial write leaves its bytes.
    change s.client.outTmpBuf.data.drop _ = []
    rw [whole, List.drop_length]
  | readLost single =>
    exact ⟨before.waiting, by simp [System.lost], fun _ => unsent single (by simp)⟩
  | gaveUp single =>
    exact ⟨before.waiting, by simp [System.lost], fun _ => unsent single (by simp)⟩
  | more single =>
    exact ⟨before.waiting, by simp [single], fun _ => unsent single (by simp)⟩
  | settled single =>
    exact ⟨before.waiting, by simp, fun _ => unsent single (by simp)⟩
  | relaunched single =>
    exact ⟨spent rfl (unsent single (by simp)), fun _ => before.waiting, by simp⟩

end

/-- When every write that fails has sent all of its bytes, and no length is cut short, the queue
that is being filled holds the commands of its requests, in order and nothing else, and so does
one that is being written. -/
theorem queues_in_step {s : System} (reached : system.ReachableWhere WholeRequests s) :
    s.client.outBuf.data = wire s.client.outBuf.callbacks ∧
      (.write ∈ s.ops → s.client.outTmpBuf.data = wire s.client.outTmpBuf.callbacks) := by
  have inStep : s.InStep := by
    apply reached.invariant System.InStep
    · intro s fresh
      have out := fresh.client.outBuf
      have tmp := fresh.client.outTmpBuf
      exact ⟨by rw [out]; rfl, by simp [fresh.ops], fun _ => by rw [tmp]; rfl⟩
    · intro s e s' out before inStep step whole
      have orderly := orderly_of_reachable before
      exact (step_cases orderly step).1.inStep orderly whole inStep
  exact ⟨inStep.waiting, inStep.sending⟩

/-- A write that fails when all has been sent, and a later connection. -/
def sentThenLost : List Event :=
  [.handleConnect true [], .ping, .publish ['a'] ['b'], .writeFailed 14, .handleConnect true [],
    .ping]

theorem queues_in_step_sentThenLost :
    (system.after .initial sentThenLost).client.outTmpBuf.data =
      wire (system.after .initial sentThenLost).client.outTmpBuf.callbacks := by
  have kept : system.along WholeRequests .initial sentThenLost = true := by decide +kernel
  have outstanding : Op.write ∈ (system.after .initial sentThenLost).ops := by decide +kernel
  exact (queues_in_step (.along (.init System.initial_fresh) sentThenLost kept)).2 outstanding

/-- A write that fails half way, and the first batch of the next connection. -/
def halfSent : List Event :=
  [.handleConnect true [], .ping, .writeFailed 4, .handleConnect true [], .publish ['a'] ['b']]

/-- The swap has put the bytes of a failed request in front of those still to come. -/
theorem queue_out_of_step : ¬ ∀ s, system.Reachable s →
    s.client.outBuf.data = wire s.client.outBuf.callbacks := by
  intro claimed
  have same := claimed _ (.after System.initial_fresh halfSent)
  exact absurd same (by decide +kernel)

/-! ### Bytes that were not read -/

section

variable {s s' : System} {e : Event}

/-- No byte is left in the input buffer when the connection is given up: none after an
error, and none behind a reply of an unsupported type. -/
def NothingUnread (s : System) (e : Event) (_ : System) : Prop :=
  match e with
  | .writeFailed _ => s.client.inBuf.unread = []
  | .readFailed => s.client.inBuf.unread = []
  | .readDone bytes => behindUnsupported s.client.outTmpBuf.callbacks.length
      (received s.conn bytes s.client).inBuf.unread = []
  | _ => True

instance (s : System) (e : Event) (s' : System) : Decidable (NothingUnread s e s') := by
  unfold NothingUnread
  split <;> infer_instance

/-- What is in the buffer came over the connection the requests go out on. -/
structure System.OneConnection (s : System) : Prop where
  unread : ∀ b ∈ s.client.inBuf.unread, b.conn = s.conn
  sentOn : s.client.busy = true → s.sentOn = s.conn
  answered : ∀ answer ∈ s.answered, answer.ok = true → ∀ b ∈ answer.line, b.conn = answer.sentOn

private theorem received_conn {bytes : Bytes} (before : s.OneConnection) :
    ∀ b ∈ (received s.conn bytes s.client).inBuf.data, b.conn = s.conn := by
  intro b member
  rcases List.mem_append.mp member with old | new
  · exact before.unread b old
  · obtain ⟨char, -, rfl⟩ := List.mem_map.mp new
    rfl

/-- The answers of a batch come from the connection it was written on. -/
private theorem replied_conn {bytes : Bytes} {inBuf : Streambuf InByte}
    {front : List (Entry × List InByte)} {rest : List Entry} (before : s.OneConnection)
    (held : s.client.busy = true)
    (answered : Answered (received s.conn bytes s.client) inBuf front rest) :
    ∀ answer ∈ s.answered ++ replied s.sentOn front, answer.ok = true →
      ∀ b ∈ answer.line, b.conn = answer.sentOn := by
  intro answer member ok b inside
  rcases List.mem_append.mp member with old | new
  · exact before.answered answer old ok b inside
  · obtain ⟨x, matched, rfl⟩ := List.mem_map.mp new
    rw [before.sentOn held]
    exact received_conn before b (answered.lines x matched b inside)

private theorem unread_conn {bytes : Bytes} {inBuf : Streambuf InByte} (before : s.OneConnection)
    (data : inBuf.data = (received s.conn bytes s.client).inBuf.data) :
    ∀ b ∈ inBuf.unread, b.conn = s.conn := by
  intro b member
  apply received_conn before b
  rw [← data]
  exact inBuf.unread_suffix.subset member

private theorem lost_conn {c : Client} {matched : List Answer} (none : c.inBuf.unread = [])
    (answered : ∀ answer ∈ s.answered ++ matched, answer.ok = true →
      ∀ b ∈ answer.line, b.conn = answer.sentOn) : (s.lost c matched).OneConnection := by
  refine ⟨?_, by simp [System.lost, Client.lost], ?_⟩
  · intro b member
    change b ∈ c.inBuf.unread at member
    rw [none] at member
    cases member
  · intro answer member ok
    have shape : (s.lost c matched).answered =
        (s.answered ++ matched) ++ failed s.sentOn c.outTmpBuf.callbacks := by
      simp [System.lost]
    rw [shape] at member
    rcases List.mem_append.mp member with known | dropped
    · exact answered answer known ok
    · obtain ⟨entry, -, rfl⟩ := List.mem_map.mp dropped
      cases ok

theorem Steps.oneConnection (step : Steps s e s') (orderly : s.Orderly)
    (nothing : NothingUnread s e s') (before : s.OneConnection) : s'.OneConnection := by
  have old : ∀ answer ∈ s.answered ++ [], answer.ok = true →
      ∀ b ∈ answer.line, b.conn = answer.sentOn := by
    rw [List.append_nil]
    exact before.answered
  cases step with
  | refused => exact before
  | moved => exact ⟨before.unread, before.sentOn, before.answered⟩
  | connected => exact ⟨before.unread, before.sentOn, before.answered⟩
  | queued => exact ⟨before.unread, before.sentOn, before.answered⟩
  | launched => exact ⟨before.unread, fun _ => rfl, before.answered⟩
  | flushed => exact ⟨before.unread, fun _ => rfl, before.answered⟩
  | wrote => exact ⟨before.unread, before.sentOn, before.answered⟩
  -- No reply can be in the buffer that the condition does not rule out.
  | writeLost => exact lost_conn nothing old
  | readLost => exact lost_conn nothing old
  | gaveUp single answered behind =>
    have replies := replied_conn before (orderly.busy_of_op single) answered
    -- The condition speaks about the bytes behind the reply given up on.
    exact lost_conn (behind.trans nothing) replies
  | more single answered =>
    have replies := replied_conn before (orderly.busy_of_op single) answered
    have unread := unread_conn before answered.data
    exact ⟨unread, before.sentOn, replies⟩
  | settled single answered =>
    have replies := replied_conn before (orderly.busy_of_op single) answered
    have unread := unread_conn before answered.data
    exact ⟨unread, by simp, replies⟩
  | relaunched single answered =>
    have replies := replied_conn before (orderly.busy_of_op single) answered
    have unread := unread_conn before answered.data
    exact ⟨unread, fun _ => rfl, replies⟩

end

/-- When a connection is only ever given up with nothing unread, a request is completed
by bytes of the connection it was written on. -/
theorem replies_stay {s : System} (reached : system.ReachableWhere NothingUnread s) :
    ∀ answer ∈ s.answered, answer.ok = true → ∀ b ∈ answer.line, b.conn = answer.sentOn := by
  have oneConnection : s.OneConnection := by
    apply reached.invariant System.OneConnection
    · intro s fresh
      refine ⟨?_, ?_, by simp [fresh.answered]⟩
      · rw [fresh.client.inBuf]
        intro b member
        cases member
      · intro held
        simp [fresh.client.busy] at held
    · intro s e s' out before oneConnection step nothing
      have orderly := orderly_of_reachable before
      exact (step_cases orderly step).1.oneConnection orderly nothing oneConnection
  exact oneConnection.answered

/-- A reply on each of two connections; the first connection is given up on account of a
reply of an unsupported type with nothing behind it. -/
def twoConnections : List Event :=
  [.handleConnect true [], .ping, .writeDone, .readDone "+PONG\r\n".toList, .ping, .writeDone,
    .readDone "-ERR\r\n".toList, .handleConnect true [], .ping, .writeDone,
    .readDone "+PONG\r\n".toList]

theorem replies_stay_twoConnections :
    (system.after .initial twoConnections).answered.map (fun answer => (answer.ok, answer.sentOn)) =
        [(true, 0), (false, 0), (true, 1)] ∧
      ∀ answer ∈ (system.after .initial twoConnections).answered, answer.ok = true →
        ∀ b ∈ answer.line, b.conn = answer.sentOn := by
  have kept : system.along NothingUnread .initial twoConnections = true := by decide +kernel
  exact ⟨by decide +kernel, replies_stay (.along (.init System.initial_fresh) twoConnections kept)⟩

/-- A reply behind one of an unsupported type. -/
def replyLeft : List Event :=
  [.handleConnect true [], .ping, .writeDone, .readDone "-ERR\r\n:1\r\n".toList,
    .handleConnect true [], .publish ['a'] ['b'], .writeDone, .readDone [':']]

/-- It completes a request of the next connection, before that one has been answered. -/
theorem reply_crosses : ¬ ∀ s, system.Reachable s → ∀ answer ∈ s.answered, answer.ok = true →
    ∀ b ∈ answer.line, b.conn = answer.sentOn := by
  intro claimed
  have same := claimed _ (.after System.initial_fresh replyLeft)
  exact absurd same (by decide +kernel)

end Eiptnd.Redis
