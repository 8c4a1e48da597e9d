import Eiptnd.Redis.Transitions

/-! The Redis client over time.

Callers hand in requests, and Asio completes what the client has asked for: a write
after all of the bytes or with an error after some of them, a read with any bytes, a
connection attempt, a resolve or a timer at any time and with any outcome. A handler
is one step; one that does not return normally is none. `close` and `reconnect` are
called by the handlers only. -/
namespace Eiptnd.Redis

open Reactive

/-- An operation on the socket that has not completed. -/
inductive Op
  | write | read
  deriving DecidableEq, Repr

/-- An accepted callback that has been invoked: with what, on account of which line,
and the connection its request was written on. -/
structure Answer where
  callback : Callback
  ok : Bool
  line : List InByte
  sentOn : Nat
  deriving DecidableEq, Repr

/-- The client and its outstanding operations. The rest is history. -/
structure System where
  client : Client
  ops : List Op
  /-- How many connections have been lost. -/
  conn : Nat
  /-- The connection the batch in `out_tmp_buf_` was written on. -/
  sentOn : Nat
  /-- How many callbacks have been accepted; they are numbered in this order. -/
  accepted : Nat
  answered : List Answer

structure Client.Fresh (c : Client) : Prop where
  socketOpen : c.socketOpen = false
  isConnected : c.isConnected = false
  inBuf : c.inBuf = Streambuf.empty
  outBuf : c.outBuf = .empty
  outTmpBuf : c.outTmpBuf = .empty
  busy : c.busy = false

structure System.Fresh (s : System) : Prop where
  client : s.client.Fresh
  ops : s.ops = []
  conn : s.conn = 0
  sentOn : s.sentOn = 0
  accepted : s.accepted = 0
  answered : s.answered = []

inductive Event
  | publish (channel message : Bytes)
  | ping
  | timeoutPing (aborted : Bool)
  | timeoutConnect (aborted : Bool) (endpoints : List Endpoint)
  | handleResolve (ok : Bool) (endpoints : List Endpoint)
  | handleConnect (ok : Bool) (endpoints : List Endpoint)
  | writeDone
  | writeFailed (bytes : Nat)
  | readDone (bytes : Bytes)
  | readFailed
  deriving DecidableEq, Repr

/-- The request that is handed in. -/
def Event.request : Event → Option Request
  | .publish channel message => some (.publish channel message)
  | .ping => some .ping
  | .timeoutPing aborted => if aborted then none else some .ping
  | _ => none

/-- The socket operations an output starts. -/
def started (out : List Effect) : List Op :=
  out.filterMap fun
    | .asyncWrite => some .write
    | .asyncRead => some .read
    | _ => none

/-- The callbacks an output invokes. -/
def answers (sentOn : Nat) (out : List Effect) : List Answer :=
  out.filterMap fun
    | .invoke callback ok line => some ⟨callback, ok, line, sentOn⟩
    | _ => none

/-- The system after a handler has returned. -/
def System.after (s : System) (ops : List Op) (r : Result) : System :=
  { s with
    client := r.state
    ops := ops ++ started r.output
    conn := if s.client.isConnected && !r.state.isConnected then s.conn + 1 else s.conn
    sentOn := if .write ∈ started r.output then s.conn else s.sentOn
    answered := s.answered ++ answers s.sentOn r.output }

/-- A request is handed in; it is accepted if the client is connected. The callback of a
refused one is none of the accepted. -/
def System.request (s : System) (r : Result) : System :=
  if s.client.isConnected then { s.after s.ops r with accepted := s.accepted + 1 }
  else { s.after s.ops r with answered := s.answered }

/-- A step is taken by a handler that returns normally. -/
def taken (next : Result → System) (r : Result) : Option (System × List Effect) :=
  match r.fault with
  | some _ => none
  | none => some (next r, r.output)

def System.step (s : System) : Event → Option (System × List Effect)
  | .publish channel message =>
    taken s.request (publish channel message ⟨s.accepted, false⟩ s.client)
  | .ping => taken s.request (ping ⟨s.accepted, false⟩ s.client)
  | .timeoutPing aborted =>
    if aborted then taken (s.after s.ops) (timeoutPing true ⟨s.accepted, true⟩ s.client)
    else taken s.request (timeoutPing false ⟨s.accepted, true⟩ s.client)
  | .timeoutConnect aborted endpoints =>
    taken (s.after s.ops) (timeoutConnect aborted endpoints s.client)
  | .handleResolve ok endpoints => taken (s.after s.ops) (handleResolve ok endpoints s.client)
  | .handleConnect ok endpoints => taken (s.after s.ops) (handleConnect ok endpoints s.client)
  | .writeDone =>
    if .write ∈ s.ops then
      taken (s.after (s.ops.erase .write))
        (handleWrite true (sent s.client.outTmpBuf.data.length s.client))
    else none
  | .writeFailed bytes =>
    -- The bytes that went out before the error are gone from the queue.
    if .write ∈ s.ops ∧ bytes ≤ s.client.outTmpBuf.data.length then
      taken (s.after (s.ops.erase .write)) (handleWrite false (sent bytes s.client))
    else none
  | .readDone bytes =>
    if .read ∈ s.ops ∧ bytes ≠ [] then
      taken (s.after (s.ops.erase .read)) (handleRead true (received s.conn bytes s.client))
    else none
  | .readFailed =>
    if .read ∈ s.ops then taken (s.after (s.ops.erase .read)) (handleRead false s.client)
    else none

def system : Machine System Event Effect := ⟨System.Fresh, System.step⟩

/-- A read or a write completes only when it is outstanding. -/
def System.Ready (s : System) : Event → Prop
  | .writeDone => .write ∈ s.ops
  | .writeFailed bytes => .write ∈ s.ops ∧ bytes ≤ s.client.outTmpBuf.data.length
  | .readDone bytes => .read ∈ s.ops ∧ bytes ≠ []
  | .readFailed => .read ∈ s.ops
  | _ => True

instance (s : System) : DecidablePred s.Ready
  | .writeDone => inferInstanceAs (Decidable (.write ∈ s.ops))
  | .writeFailed bytes =>
    inferInstanceAs (Decidable (.write ∈ s.ops ∧ bytes ≤ s.client.outTmpBuf.data.length))
  | .readDone bytes => inferInstanceAs (Decidable (.read ∈ s.ops ∧ bytes ≠ []))
  | .readFailed => inferInstanceAs (Decidable (.read ∈ s.ops))
  | .publish .. | .ping | .timeoutPing _ | .timeoutConnect .. | .handleResolve ..
  | .handleConnect .. => isTrue trivial

/-- As the constructor leaves it. -/
def Client.initial : Client := ⟨10, 30, [], [], false, false, .empty, .empty, .empty, false⟩

def System.initial : System := ⟨.initial, [], 0, 0, 0, []⟩

theorem System.initial_fresh : System.initial.Fresh :=
  ⟨⟨rfl, rfl, rfl, rfl, rfl, rfl⟩, rfl, rfl, rfl, rfl, rfl⟩

end Eiptnd.Redis
