import Eiptnd.Library.Resp
import Eiptnd.Redis.System
import Eiptnd.Redis.Transitions

/-! What the bytes of a queue are to a server.

The requests are read back from the bytes, one for each callback that waits. -/
namespace Eiptnd.Redis

open Reactive

/-- The command a request stands for, with its arguments. -/
def Request.command : Request → List Bytes
  | .publish channel message => ["PUBLISH".toList, channel, message]
  | .ping => ["PING".toList]

/-- Lengths that an `unsigned int` can hold. -/
def Request.Fits : Request → Prop
  | .publish channel message => channel.length < 2 ^ 32 ∧ message.length < 2 ^ 32
  | .ping => True

instance : DecidablePred Request.Fits := fun request => by
  cases request <;> unfold Request.Fits <;> infer_instance

theorem uint_of_fits {n : Nat} (fits : n < 2 ^ 32) : uint n = Nat.toDigits 10 n := by
  rw [uint, Nat.mod_eq_of_lt fits]

theorem encode_eq {request : Request} (fits : request.Fits) :
    encode request = Resp.ofCommand request.command := by
  cases request with
  | publish channel message =>
    have header : publishHeader = '*' :: Nat.toDigits 10 3 ++ Resp.crlf
        ++ Resp.ofBulk "PUBLISH".toList ++ ['$'] := rfl
    rw [encode, uint_of_fits fits.1, uint_of_fits fits.2, header]
    simp [Resp.ofCommand, Request.command, Resp.ofBulk, crlf, Resp.crlf]
  | ping => rfl

/-- `buf_size` of a call. -/
def Request.reserved : Request → Nat
  | .publish channel message => publishSize channel message
  | .ping => pingBytes.length

theorem encode_reserved (request : Request) : (encode request).length ≤ request.reserved := by
  cases request with
  | publish channel message => exact publish_reserved channel message
  | ping => exact Nat.le_refl _

/-! ### A queue -/

/-- The queue holds these calls: their callbacks, and bytes that a server reads as their
commands. -/
structure RequestQueue.Holds (queue : RequestQueue) (calls : List (Request × Callback)) :
    Prop where
  callbacks : queue.callbacks = calls.map fun call => ⟨call.2, call.1⟩
  data : Resp.decode queue.data = some (calls.map fun call => call.1.command)

/-- The queue after these calls. -/
def RequestQueue.pushAll (queue : RequestQueue) (calls : List (Request × Callback)) : RequestQueue :=
  calls.foldl (fun queue call => queue.push call.1 call.2) queue

theorem pushAll_eq (queue : RequestQueue) (calls : List (Request × Callback)) :
    queue.pushAll calls = ⟨queue.data ++ calls.flatMap fun call => encode call.1,
      queue.callbacks ++ calls.map fun call => ⟨call.2, call.1⟩⟩ := by
  induction calls generalizing queue with
  | nil => simp [RequestQueue.pushAll]
  | cons call calls ih =>
    have step : queue.pushAll (call :: calls) = (queue.push call.1 call.2).pushAll calls := rfl
    rw [step, ih]
    simp [RequestQueue.push]

theorem holds_pushAll {calls : List (Request × Callback)} (fits : ∀ call ∈ calls, call.1.Fits) :
    (RequestQueue.empty.pushAll calls).Holds calls := by
  have commands : (calls.flatMap fun call => encode call.1) =
      (calls.map fun call => call.1.command).flatMap Resp.ofCommand := by
    rw [List.flatMap_map]
    apply List.flatMap_congr
    intro call member
    exact encode_eq (fits call member)
  rw [pushAll_eq]
  refine ⟨rfl, ?_⟩
  simp only [RequestQueue.empty, List.nil_append]
  rw [commands]
  exact Resp.decode_ofCommand _

/-! ### A client -/

/-- A call of `publish` or `ping`. -/
def call (request : Request) (callback : Callback) : Client → Result :=
  match request with
  | .publish channel message => publish channel message callback
  | .ping => ping callback

/-- One call after the other. -/
def callAll : List (Request × Callback) → Client → Result
  | [], c => .ok c
  | (request, callback) :: calls, c => (call request callback c).andThen (callAll calls)

theorem call_eq (request : Request) (callback : Callback) : ∃ checks,
    call request callback = submit request checks callback ∧ ∀ effect ∈ checks, effect.Sound := by
  cases request with
  | publish channel message =>
    refine ⟨_, rfl, ?_⟩
    intro effect member
    rw [List.mem_singleton.mp member]
    exact decide_eq_true (publish_reserved channel message)
  | ping => exact ⟨[], rfl, by simp⟩

/-- While a batch is on its way, calls add to the queue that is being filled. -/
theorem callAll_held {c : Client} (connected : c.isConnected = true) (held : c.busy = true)
    (calls : List (Request × Callback)) : ∃ out,
    callAll calls c = .emit { c with outBuf := c.outBuf.pushAll calls } out ∧
      ∀ effect ∈ out, effect.Sound := by
  induction calls generalizing c with
  | nil => exact ⟨[], rfl, by simp⟩
  | cons first calls ih =>
    obtain ⟨request, callback⟩ := first
    obtain ⟨checks, same, sound⟩ := call_eq request callback
    have filled : (c.filled request callback).isConnected = true ∧
        (c.filled request callback).busy = true := ⟨connected, held⟩
    obtain ⟨out, later, rest⟩ := ih filled.1 filled.2
    refine ⟨checks ++ out, ?_, append_sound sound rest⟩
    rw [callAll, same, submit_queued connected held, Outcome.emit_andThen, later]
    rfl

/-- The first call of a client that is not busy is launched alone. -/
theorem callAll_free {c : Client} (connected : c.isConnected = true) (free : c.busy = false)
    (request : Request) (callback : Callback) (calls : List (Request × Callback)) : ∃ out,
    callAll ((request, callback) :: calls) c = .emit { c with
      busy := true
      outBuf := c.outTmpBuf.pushAll calls
      outTmpBuf := c.outBuf.push request callback } out ∧ ∀ effect ∈ out, effect.Sound := by
  obtain ⟨checks, same, sound⟩ := call_eq request callback
  have launched : (c.filled request callback).launched.isConnected = true ∧
      (c.filled request callback).launched.busy = true := ⟨connected, rfl⟩
  obtain ⟨out, later, rest⟩ := callAll_held launched.1 launched.2 calls
  have written : ∀ effect ∈ launchOutput (c.outBuf.push request callback), effect.Sound :=
    launchOutput_sound (push_callbacks_ne_nil _ _ _) (push_data_ne_nil _ _ _)
  refine ⟨checks ++ launchOutput (c.outBuf.push request callback) ++ out, ?_,
    append_sound (append_sound sound written) rest⟩
  rw [callAll, same, submit_launched connected free, Outcome.emit_andThen, later]
  rfl

/-- The calls on an empty queue are what a server reads from it, one for each callback. Where no
batch is on its way, the first of them is one of its own, and the others go to the other queue. -/
theorem queued_requests {calls : List (Request × Callback)} (fits : ∀ call ∈ calls, call.1.Fits)
    {c : Client} (connected : c.isConnected = true) (empty : c.outBuf = .empty) :
    (callAll calls c).fault = none ∧
      (∀ call ∈ calls, (encode call.1).length ≤ call.1.reserved) ∧
      (∀ check, Effect.assert check false ∉ (callAll calls c).output) ∧
      (c.busy = true → (callAll calls c).state.outBuf.Holds calls) ∧
      (c.busy = false → calls ≠ [] → (callAll calls c).state.outTmpBuf.Holds (calls.take 1)) ∧
      (c.busy = false → c.outTmpBuf = .empty →
        (callAll calls c).state.outBuf.Holds calls.tail) := by
  have quiet {out : List Effect} (sound : ∀ effect ∈ out, effect.Sound) :
      ∀ check, Effect.assert check false ∉ out := by
    intro check member
    cases sound _ member
  have reserved : ∀ call ∈ calls, (encode call.1).length ≤ call.1.reserved :=
    fun call _ => encode_reserved call.1
  cases busy : c.busy with
  | true =>
    obtain ⟨out, run, sound⟩ := callAll_held connected busy calls
    rw [run]
    refine ⟨rfl, reserved, quiet sound, fun _ => ?_, by simp, by simp⟩
    rw [empty]
    exact holds_pushAll fits
  | false =>
    cases calls with
    | nil =>
      refine ⟨rfl, reserved, by simp [callAll], by simp, by simp, fun _ _ => ?_⟩
      exact empty ▸ ⟨rfl, rfl⟩
    | cons first calls =>
      obtain ⟨request, callback⟩ := first
      obtain ⟨out, run, sound⟩ := callAll_free connected busy request callback calls
      rw [run]
      refine ⟨rfl, reserved, quiet sound, by simp, fun _ _ => ?_, fun _ spare => ?_⟩
      · have first : ∀ call ∈ [(request, callback)], call.1.Fits := by
          simpa using fits (request, callback) List.mem_cons_self
        rw [empty]
        exact holds_pushAll first
      · rw [spare]
        exact holds_pushAll fun call member => fits call (List.mem_cons_of_mem _ member)

/-- A client that waits for the replies to an earlier batch. -/
def waiting : Client := { Client.initial with isConnected := true, busy := true }

/-- The message looks like a command. -/
def twoCalls : List (Request × Callback) :=
  [(.ping, ⟨0, true⟩), (.publish ['f'] "*1\r\n$0\r\n".toList, ⟨1, false⟩)]

theorem queued_requests_waiting : (callAll twoCalls waiting).state.outBuf.Holds twoCalls := by
  have fits : ∀ call ∈ twoCalls, call.1.Fits := by simp [twoCalls, Request.Fits]
  obtain ⟨-, -, -, holds, -⟩ := queued_requests fits (c := waiting) rfl rfl
  exact holds rfl

end Eiptnd.Redis
