import Eiptnd.Redis.Encoding
import Eiptnd.Redis.Reconnect
import Eiptnd.Redis.Replies
import Eiptnd.Redis.Requests

/-! The client and the servers that it talks to.

At the other end of a connection, a server reads commands from the bytes that the socket has
taken, executes them one after the other and replies to each with an integer or a pong. The socket
takes a batch little by little and replies arrive in any pieces. What a lost connection has taken
may still be executed, but its replies do not arrive any more. -/
namespace Eiptnd.Redis

open Reactive

/-- The other end of a connection. -/
structure Server where
  /-- Bytes that the socket has taken and the server has not read. -/
  input : Bytes
  /-- Bytes of replies on their way to the client. -/
  output : Bytes
  /-- The commands executed, with the replies to them (history). -/
  log : List (List Bytes × Reply)
  /-- The requests that were launched on the connection, by number (history). -/
  launched : List Nat

def Server.start : Server := ⟨[], [], [], []⟩

def Server.commands (server : Server) : List (List Bytes) := server.log.map Prod.fst

structure Exchange where
  system : System
  /-- How many bytes of the batch on its way the socket has taken. -/
  sent : Nat
  /-- The other end of the connection in use, or of the next one. -/
  server : Server
  /-- The other ends of the connections that were lost. -/
  lost : List Server
  /-- The accepted requests, by the numbers of their callbacks (history). -/
  asked : List Request

def Exchange.servers (x : Exchange) : List Server := x.lost ++ [x.server]

structure Exchange.Fresh (x : Exchange) : Prop where
  system : x.system.Fresh
  server : x.server = .start
  lost : x.lost = []
  asked : x.asked = []

inductive Traffic
  /-- A handler of the client runs that is not about reading and writing, or a read fails. -/
  | handled (e : Event)
  /-- The socket takes so many bytes more. -/
  | sends (bytes : Nat)
  | written
  | writeFailed
  /-- So many bytes of the replies arrive. -/
  | arrives (bytes : Nat)
  /-- The server executes a command. -/
  | executes (reply : Reply)
  /-- So does the one at the end of a connection that was lost. -/
  | executesLate (connection : Nat) (reply : Reply)

/-- The completions that depend on what the socket has taken and on the replies. -/
def Event.onSocket : Event → Bool
  | .writeDone | .writeFailed _ | .readDone _ => true
  | _ => false

/-- The next command is executed once all of it has come in. -/
def Server.execute (reply : Reply) (server : Server) : Option Server :=
  (Resp.command server.input).map fun read => { server with
    input := read.2
    output := server.output ++ reply.bytes
    log := server.log ++ [(read.1, reply)] }

/-- A write is outstanding that was not before. -/
def launches (s s' : System) : Bool := decide (.write ∉ s.ops ∧ .write ∈ s'.ops)

namespace Exchange

/-- What a step of the client makes of the rest. -/
def follow (e : Event) (s' : System) (x : Exchange) : Exchange :=
  let started := launches x.system s'
  let server := { x.server with
    launched := x.server.launched ++ if started then ids s'.client.outTmpBuf.callbacks else [] }
  { system := s'
    sent := if started then 0 else x.sent
    server := if s'.conn = x.system.conn then server else .start
    lost := if s'.conn = x.system.conn then x.lost else x.lost ++ [server]
    -- A request that is refused leaves nothing behind.
    asked := (x.asked ++ e.request.toList).take s'.accepted }

def handle (e : Event) (x : Exchange) : Option (Exchange × List Effect) :=
  match x.system.step e with
  | none => none
  | some (s', out) => some (x.follow e s', out)

def step (x : Exchange) : Traffic → Option (Exchange × List Effect)
  | .handled e => if e.onSocket then none else x.handle e
  | .sends bytes =>
    if .write ∈ x.system.ops ∧ x.sent + bytes ≤ x.system.client.outTmpBuf.data.length then
      some ({ x with
        sent := x.sent + bytes
        server := { x.server with
          input := x.server.input ++ (x.system.client.outTmpBuf.data.drop x.sent).take bytes } }, [])
    else none
  | .written =>
    if x.sent = x.system.client.outTmpBuf.data.length then x.handle .writeDone else none
  | .writeFailed => x.handle (.writeFailed x.sent)
  | .arrives bytes =>
    handle (.readDone (x.server.output.take bytes))
      { x with server := { x.server with output := x.server.output.drop bytes } }
  | .executes reply => (x.server.execute reply).map fun server => ({ x with server := server }, [])
  | .executesLate connection reply =>
    match x.lost[connection]? with
    | none => none
    | some server => (server.execute reply).map fun server =>
      ({ x with lost := x.lost.set connection server }, [])

end Exchange

def exchange : Machine Exchange Traffic Effect := ⟨Exchange.Fresh, Exchange.step⟩

/-- Requests that can be encoded; writes that fail when all has been sent; replies that do not
arrive up to their CR only; and no part of a reply left when the connection is lost. -/
def Proper (x : Exchange) (t : Traffic) (_ : Exchange) : Prop :=
  match t with
  | .handled (.publish channel message) => channel.length < 2 ^ 32 ∧ message.length < 2 ^ 32
  | .handled .readFailed => text x.system.client.inBuf.unread = []
  | .writeFailed => x.sent = x.system.client.outTmpBuf.data.length
  | .arrives bytes => (text x.system.client.inBuf.unread).length + bytes < Streambuf.sizes ∧
      ¬ EarlyCut (unfinished (text x.system.client.inBuf.unread ++ x.server.output.take bytes))
  | _ => True

instance (x : Exchange) (t : Traffic) (x' : Exchange) : Decidable (Proper x t x') := by
  unfold Proper
  split <;> infer_instance

end Eiptnd.Redis
