import Eiptnd.Library.Reactive
import Eiptnd.Library.Streambuf

/-! The Redis client of the dispatcher, as `redis_connection.cpp` has it.

Requests are queued as bytes and callbacks side by side. One queue is being filled
while the other one is being written and answered; `busy_mutex_` is held for as long
as the second one is in use. What the client asks of Asio, and the callbacks it
invokes, are the output of its handlers. Logging is left out. -/
namespace Eiptnd.Redis

open Reactive

abbrev Bytes := List Char

def crlf : Bytes := "\r\n".toList

/-- A byte received, with the connection it came over (history). -/
structure InByte where
  char : Char
  conn : Nat
  deriving DecidableEq, Repr

def text (line : List InByte) : Bytes := line.map InByte.char

/-- What a `tcp::resolver::iterator` points at; the iterator itself is the list of
endpoints from there on, the end iterator the empty list. -/
structure Endpoint where
  host : Bytes
  service : Bytes
  deriving DecidableEq, Repr

/-- A `bool_callback`: a caller's own, or `timeout_no_ping`. -/
structure Callback where
  id : Nat
  keepAlive : Bool
  deriving DecidableEq, Repr

inductive Request
  | publish (channel message : Bytes)
  | ping
  deriving DecidableEq, Repr

/-- A callback in a queue, with the request it was handed in for (history). -/
structure Entry where
  callback : Callback
  request : Request
  deriving DecidableEq, Repr

structure RequestQueue where
  data : Bytes
  callbacks : List Entry
  deriving DecidableEq, Repr

def RequestQueue.empty : RequestQueue := ⟨[], []⟩

/-- Members of `redis_connection`. -/
structure Client where
  timeoutConnect : Nat
  timeoutPing : Nat
  host : Bytes
  port : Bytes
  socketOpen : Bool
  isConnected : Bool
  inBuf : Streambuf InByte
  outBuf : RequestQueue
  outTmpBuf : RequestQueue
  busy : Bool
  deriving DecidableEq, Repr

/-- What the timer is waited on for. -/
inductive Wait
  | connect (endpoints : List Endpoint)
  | ping
  deriving DecidableEq, Repr

/-- The `BOOST_ASSERT`s of the client. -/
inductive Check
  | reserved | callbacks | data
  deriving DecidableEq, Repr

inductive Effect
  | asyncResolve (host port : Bytes)
  | asyncConnect (endpoints : List Endpoint)
  | asyncWrite
  | asyncRead
  | expiresFromNow (seconds : Nat)
  | asyncWait (wait : Wait)
  | cancelTimer
  | cancelSocket
  | closeSocket
  /-- A callback is invoked; `line` is the reply it is matched to, if any (history). -/
  | invoke (callback : Callback) (ok : Bool) (line : List InByte)
  /-- `busy_mutex_` is unlocked, held or not. -/
  | unlock (held : Bool)
  | assert (check : Check) (holds : Bool)
  deriving DecidableEq, Repr

inductive Fault
  | endIterator | emptyQueue | outOfRange
  deriving DecidableEq, Repr

abbrev Result := Outcome Client Effect Fault

/-! ### Connecting -/

/-- `connect(host, port)`. -/
def connectTo (host port : Bytes) (c : Client) : Result := .emit c [.asyncResolve host port]

/-- `connect(endpoint_iterator)`. -/
def connect (endpoints : List Endpoint) (c : Client) : Result :=
  match endpoints with
  | [] => .fail c .endIterator
  | _ :: _ => .emit { c with socketOpen := true }
      [.expiresFromNow c.timeoutConnect, .asyncWait (.connect endpoints), .asyncConnect endpoints]

def handleResolve (ok : Bool) (endpoints : List Endpoint) (c : Client) : Result :=
  match endpoints with
  | [] => .fail c .endIterator
  | endpoint :: _ =>
    if ok then
      (connect endpoints c).andThen fun c =>
        .ok { c with host := endpoint.host, port := endpoint.service }
    else connectTo endpoint.host endpoint.service c

def timeoutConnect (aborted : Bool) (endpoints : List Endpoint) (c : Client) : Result :=
  if aborted then .ok c
  else
    (Outcome.emit c [.cancelSocket]).andThen fun c =>
      -- With no time limit set there is no second attempt.
      if c.timeoutConnect = 0 then .ok c else connect endpoints c

/-- Touches nothing but the timer. -/
def timeoutNoPing (ok : Bool) (c : Client) : List Effect :=
  if ok then
    .cancelTimer ::
      if c.timeoutPing = 0 then [] else [.expiresFromNow c.timeoutPing, .asyncWait .ping]
  else []

def invoke (callback : Callback) (ok : Bool) (line : List InByte) (c : Client) : List Effect :=
  .invoke callback ok line :: if callback.keepAlive then timeoutNoPing ok c else []

/-! ### Requests -/

/-- `karma::uint_`: the digits of an `unsigned int`. -/
def uint (n : Nat) : Bytes := Nat.toDigits 10 (n % 2 ^ 32)

/-- An array of three, the command, and the start of the channel. -/
def publishHeader : Bytes := "*3\r\n$7\r\nPUBLISH\r\n$".toList

def pingBytes : Bytes := "*1\r\n$4\r\nPING\r\n".toList

/-- A request as it goes over the wire. -/
def encode : Request → Bytes
  | .publish channel message =>
    publishHeader ++ uint channel.length ++ crlf ++ channel ++ crlf ++
      '$' :: uint message.length ++ crlf ++ message ++ crlf
  | .ping => pingBytes

/-- The queue with one more request. -/
def RequestQueue.push (queue : RequestQueue) (request : Request) (callback : Callback) :
    RequestQueue :=
  ⟨queue.data ++ encode request, queue.callbacks ++ [⟨callback, request⟩]⟩

/-- `buf_size` of `publish`: with room for ten digits a length. -/
def publishSize (channel message : Bytes) : Nat :=
  4 + 13 + (5 + 10 + channel.length) + (5 + 10 + message.length)

def write (alreadyLocked : Bool) (c : Client) : Result :=
  if !alreadyLocked && c.busy then .ok c
  else
    -- The assertions are about the queue after the swap.
    let c := { c with busy := true, outBuf := c.outTmpBuf, outTmpBuf := c.outBuf }
    .emit c [.assert .callbacks (decide (0 < c.outTmpBuf.callbacks.length)),
      .assert .data (decide (0 < c.outTmpBuf.data.length)), .asyncWrite]

/-- What `publish` and `ping` share: the request is encoded at the back of the queue that
is being filled, and its callback pushed behind the others. -/
def submit (request : Request) (checks : List Effect) (callback : Callback) (c : Client) : Result :=
  if !c.isConnected then .emit c (invoke callback false [] c)
  else
    (Outcome.emit { c with outBuf := c.outBuf.push request callback } checks).andThen (write false)

def publish (channel message : Bytes) (callback : Callback) (c : Client) : Result :=
  submit (.publish channel message)
    [.assert .reserved
      (decide ((encode (.publish channel message)).length ≤ publishSize channel message))]
    callback c

def ping (callback : Callback) (c : Client) : Result := submit .ping [] callback c

def timeoutPing (aborted : Bool) (callback : Callback) (c : Client) : Result :=
  if aborted then .ok c else ping callback c

def handleConnect (ok : Bool) (endpoints : List Endpoint) (c : Client) : Result :=
  if ok then
    (Outcome.emit { c with isConnected := true } (timeoutNoPing true c)).andThen fun c =>
      if c.outBuf.callbacks.isEmpty then .ok c else write false c
  else
    match endpoints with
    | [] => .fail c .endIterator
    -- The last endpoint has failed: the client stays unconnected.
    | [_] => .ok c
    | _ :: rest => connect rest c

/-! ### Failing -/

def close (c : Client) : Result :=
  .emit { c with isConnected := false, socketOpen := false }
    (.cancelTimer :: if c.socketOpen then [.closeSocket] else [])

def drop (c : Client) : Result :=
  -- Only the callbacks are taken out; the bytes of the queue stay.
  .emit { c with outTmpBuf := { c.outTmpBuf with callbacks := [] }, busy := false }
    (c.outTmpBuf.callbacks.flatMap (fun entry => invoke entry.callback false [] c) ++
      [.unlock c.busy])

def reconnect (c : Client) : Result :=
  ((close c).andThen drop).andThen fun c => connectTo c.host c.port c

/-! ### Writing and reading -/

def read (c : Client) : Result := .emit c [.asyncRead]

def handleWrite (ok : Bool) (c : Client) : Result := if ok then read c else reconnect c

def pong : Bytes := "+PONG\r".toList

def isLf (b : InByte) : Bool := b.char == '\n'

/-- `std::getline` on a stream over the buffer: one that has met the end of the buffer
leaves its argument as it is. -/
def nextLine (eof : Bool) (s : List InByte) (b : Streambuf InByte) :
    List InByte × Bool × Streambuf InByte :=
  if eof then (s, true, b) else b.getline isLf

/-- How the reply loop is left. -/
inductive LoopExit
  /-- With so many callbacks and bytes to go, as the loop counts them. -/
  | leave (i left : Nat)
  | badReply
  | outOfRange
  | emptyQueue
  deriving DecidableEq, Repr

structure Looped where
  client : Client
  output : List Effect
  exit : LoopExit

/-- The loop of `handle_read`: `i` callbacks and, as it counts, `left` bytes to go; the
stream has met the end of the buffer or not, and `s` is the line read last. -/
def replyLoop : Nat → Nat → Bool → List InByte → Client → Looped
  | 0, left, _, _, c => ⟨c, [], .leave 0 left⟩
  | i + 1, left, eof, s, c =>
    if left < 4 then ⟨c, [], .leave (i + 1) left⟩
    else
      let (s, eof, inBuf) := nextLine eof s c.inBuf
      let c := { c with inBuf := inBuf }
      match s.head?, s.getLast? with
      | some first, some last =>
        if last.char ≠ '\r' then ⟨c, [], .leave (i + 1) left⟩
        else if first.char ≠ ':' ∧ text s ≠ pong then ⟨c, [], .badReply⟩
        else
          match c.outTmpBuf.callbacks with
          | [] => ⟨c, [], .emptyQueue⟩
          | entry :: rest =>
            let out := invoke entry.callback true s c
            let c := { c with outTmpBuf := { c.outTmpBuf with callbacks := rest } }
            -- The line and its LF are counted off even when the stream has met no LF.
            let later := replyLoop i (Streambuf.sizeSub left (s.length + 1)) eof s c
            { later with output := out ++ later.output }
      | _, _ => ⟨c, [], .outOfRange⟩

def handleRead (ok : Bool) (c : Client) : Result :=
  if !ok then reconnect c
  else
    let loop := replyLoop c.outTmpBuf.callbacks.length c.inBuf.size false [] c
    (Outcome.emit loop.client loop.output).andThen fun c =>
      match loop.exit with
      | .outOfRange => .fail c .outOfRange
      | .emptyQueue => .fail c .emptyQueue
      | .badReply => reconnect c
      | .leave i left =>
        -- What the loop has not counted off is given back.
        let c := { c with inBuf := c.inBuf.consume (Streambuf.sizeSub c.inBuf.size left) }
        if 0 < i then read c
        else if c.outBuf.callbacks.isEmpty then .emit { c with busy := false } [.unlock c.busy]
        else write true c

/-- `async_read` completes: the bytes are in the buffer when the handler runs. -/
def received (conn : Nat) (bytes : Bytes) (c : Client) : Client :=
  { c with inBuf := c.inBuf.commit (bytes.map (⟨·, conn⟩)) }

/-- `async_write` completes: the bytes it sent are gone from the queue. -/
def sent (bytes : Nat) (c : Client) : Client :=
  { c with outTmpBuf := { c.outTmpBuf with data := c.outTmpBuf.data.drop bytes } }

end Eiptnd.Redis
