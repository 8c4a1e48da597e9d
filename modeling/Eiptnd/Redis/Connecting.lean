import Eiptnd.Library.Timer
import Eiptnd.Redis.Orderly

/-! What the Redis client is waiting for when it connects.

A resolve, an attempt to connect and a wait on the timer run their handler only when
they have been asked for, each as often as it was. A resolve succeeds with at least one
endpoint, which bears the names of the query, or fails with the end iterator. An attempt
may have succeeded or failed before the socket was cancelled or closed, so it ends in
either way at any time. The one timer serves `timeout_connect` and `timeout_ping`. -/
namespace Eiptnd.Redis

open Reactive

/-- The handler an event runs. -/
def System.handler (s : System) : Event → Result
  | .publish channel message => publish channel message ⟨s.accepted, false⟩ s.client
  | .ping => ping ⟨s.accepted, false⟩ s.client
  | .timeoutPing aborted => timeoutPing aborted ⟨s.accepted, true⟩ s.client
  | .timeoutConnect aborted endpoints => timeoutConnect aborted endpoints s.client
  | .handleResolve ok endpoints => handleResolve ok endpoints s.client
  | .handleConnect ok endpoints => handleConnect ok endpoints s.client
  | .writeDone => handleWrite true (sent s.client.outTmpBuf.data.length s.client)
  | .writeFailed bytes => handleWrite false (sent bytes s.client)
  | .readDone bytes => handleRead true (received s.conn bytes s.client)
  | .readFailed => handleRead false s.client

/-- The names an output has resolved. -/
def resolving (out : List Effect) : List (Bytes × Bytes) :=
  out.filterMap fun
    | .asyncResolve host port => some (host, port)
    | _ => none

/-- The attempts an output starts. -/
def dialling (out : List Effect) : List (List Endpoint) :=
  out.filterMap fun
    | .asyncConnect endpoints => some endpoints
    | _ => none

/-- `expires_from_now` cancels the waits as `cancel` does. -/
def Effect.onTimer (handlers : List (Timer.Handler Wait)) : Effect → List (Timer.Handler Wait)
  | .asyncWait wait => Timer.wait wait handlers
  | .expiresFromNow _ => Timer.cancel handlers
  | .cancelTimer => Timer.cancel handlers
  | _ => handlers

def timed (handlers : List (Timer.Handler Wait)) (out : List Effect) : List (Timer.Handler Wait) :=
  out.foldl Effect.onTimer handlers

/-- The system, and what it has asked for that has not run its handler. -/
structure World where
  system : System
  resolves : List (Bytes × Bytes)
  attempts : List (List Endpoint)
  timer : List (Timer.Handler Wait)

def World.client (w : World) : Client := w.system.client

/-- After a handler that has left `s` and put out `out`. -/
def World.after (w : World) (s : System) (out : List Effect) : World where
  system := s
  resolves := w.resolves ++ resolving out
  attempts := w.attempts ++ dialling out
  timer := timed w.timer out

/-- `connect(host, port)` has been called on a system. -/
def World.start (host port : Bytes) (s : System) : World :=
  World.after ⟨s, [], [], []⟩ s (connectTo host port s.client).output

inductive Happening
  /-- The timer expires. -/
  | expire
  | handled (event : Event)
  deriving DecidableEq, Repr

def settled (aborted : Bool) : Timer.Status := if aborted then .aborted else .expired

/-- The names of an endpoint are those of the query it was resolved from. -/
def Endpoint.query (endpoint : Endpoint) : Bytes × Bytes := (endpoint.host, endpoint.service)

/-- Whether a handler that has to do with connecting is there to be run. -/
def World.Queued (w : World) : Event → Prop
  | .handleResolve true endpoints =>
    endpoints ≠ [] ∧ ∃ query ∈ w.resolves, ∀ endpoint ∈ endpoints, endpoint.query = query
  | .handleResolve false endpoints => endpoints = [] ∧ w.resolves ≠ []
  | .handleConnect _ endpoints => endpoints ∈ w.attempts
  | .timeoutConnect aborted endpoints => ⟨.connect endpoints, settled aborted⟩ ∈ w.timer
  | .timeoutPing aborted => ⟨.ping, settled aborted⟩ ∈ w.timer
  | _ => True

instance (w : World) : DecidablePred w.Queued
  | .handleResolve true _ => inferInstanceAs (Decidable (_ ∧ _))
  | .handleResolve false _ => inferInstanceAs (Decidable (_ ∧ _))
  | .handleConnect _ _ => inferInstanceAs (Decidable (_ ∈ _))
  | .timeoutConnect _ _ => inferInstanceAs (Decidable (_ ∈ _))
  | .timeoutPing _ => inferInstanceAs (Decidable (_ ∈ _))
  | .publish _ _ | .ping | .writeDone | .writeFailed _ | .readDone _ | .readFailed =>
    inferInstanceAs (Decidable True)

/-- `socket_.cancel()` throws on a closed socket, which ends the program. -/
def World.throws (w : World) : Event → Bool
  | .timeoutConnect false _ => !w.client.socketOpen
  | _ => false

/-- Without the handler that is run. -/
def World.without (w : World) : Event → World
  | .handleResolve _ endpoints =>
    { w with resolves := (endpoints.head?.map Endpoint.query).elim w.resolves w.resolves.erase }
  | .handleConnect _ endpoints => { w with attempts := w.attempts.erase endpoints }
  | .timeoutConnect aborted endpoints =>
    { w with timer := w.timer.erase ⟨.connect endpoints, settled aborted⟩ }
  | .timeoutPing aborted => { w with timer := w.timer.erase ⟨.ping, settled aborted⟩ }
  | _ => w

def World.step (w : World) : Happening → Option (World × List Effect)
  | .expire =>
    if w.timer.any (·.status == .waiting) then some ({ w with timer := Timer.expire w.timer }, [])
    else none
  | .handled e =>
    if w.Queued e ∧ w.throws e = false then
      match w.system.step e with
      | none => none
      | some (s, out) => some ((w.without e).after s out, out)
    else none

/-- The client after `connect(host, port)`, which has been called once. -/
def world (host port : Bytes) (s : System) : Machine World Happening Effect :=
  ⟨(· = World.start host port s), World.step⟩

end Eiptnd.Redis
