import Eiptnd.Daemon.Dispatchers
import Eiptnd.Router.Factory
import Eiptnd.Wialon.Session

/-! The running daemon: its connections, the dispatchers, and the records on their way.

What is posted to the `io_service` runs at any time and in any order. Each handler is one
step; one that throws is none, since nothing catches it. The handlers of one connection and
the fan-out of one record are machines of their own, which the daemon puts together. -/
namespace Eiptnd.Daemon

open Reactive Router

/-- A connection: the port it came in on, the translator, and the functions that it calls. -/
structure Link where
  port : Port
  session : Wialon.Session
  papi : ApiTranslator
  /-- The records whose callbacks are still to be invoked, in step with the session's jobs. -/
  waiting : List Nat
  /-- The others, in the order they were completed (history). -/
  settled : List Nat

/-- A record that was given to `process_data`. -/
structure Record where
  connection : Nat
  /-- The tree that is shared with the translator. -/
  tree : Option Nat
  /-- What it held then (history). -/
  content : Wialon.Tree
  /-- The dispatchers it goes to, by their serial numbers. -/
  targets : List Nat
  fanOut : FanOut

/-- The state of the `core` while its threads run the `io_service`. -/
structure Core where
  links : List Link
  /-- By their serial numbers. -/
  dispatchers : List Dispatcher
  records : List Record
  /-- Posted calls of `handle_process_data`. -/
  tasks : List Ticket

inductive Event
  /-- A connection is accepted, in memory that holds anything. -/
  | accept (port : Port) (address : Str) (memory : Wialon.Plugin)
  /-- A line has been read on a connection. -/
  | line (connection : Nat) (message : Wialon.Str)
  /-- The next token of the line is consumed; `granted` answers an `authenticate` request. -/
  | token (connection : Nat) (granted : Bool)
  /-- A call of `process_data` returns. -/
  | returned (record : Nat)
  /-- The callback of a record without targets runs. -/
  | refused (record : Nat)
  /-- A posted call runs. -/
  | run (place : Nat)
  /-- A dispatcher does something on its own. -/
  | act (serial : Nat) (activity : Activity)
  deriving DecidableEq, Repr

/-! ### A connection -/

/-- The constructor of the translator. -/
def construct (memory : Wialon.Plugin) : Wialon.Plugin :=
  { memory with
    sbuf := []
    answerBuffer := (memory.answerBuffer ++ List.replicate Wialon.answerCapacity '\x00').take
      Wialon.answerCapacity
    tree := none
    authenticated := false
    state := .initial
    cmd := []
    trees := [] }

/-- The connection after `on_connection`. -/
def Link.start (port : Port) (memory : Wialon.Plugin) (papi : ApiTranslator) : Link :=
  ⟨port, { Wialon.accepted with plugin := construct memory }, papi, [], []⟩

/-- The trees handed to `process_data`, with what they hold. -/
def handedOver (out : List Wialon.Effect) : List (Option Nat × Wialon.Tree) :=
  out.filterMap fun
    | .processData tree content => some (tree, content)
    | _ => none

/-- The dispatchers among what is posted for a record. -/
def served (posts : List (Post Nat)) : List Nat :=
  posts.filterMap fun
    | .handleProcessData target _ => some target.serial
    | .callback _ => none

/-- `process_data` for each of the trees, in turn. -/
def Core.handOver (connection : Nat) (processData : ProcessData) :
    List (Option Nat × Wialon.Tree) → Core → Core × List Nat
  | [], d => (d, [])
  | (tree, content) :: rest, d =>
    let record := d.records.length
    let targets := served (processData.call record)
    let (d', later) := handOver connection processData rest { d with
      records := d.records ++ [⟨connection, tree, content, targets, FanOut.start targets.length⟩]
      tasks := d.tasks ++ (List.range targets.length).map fun place => ⟨record, place⟩ }
    (d', record :: later)

section Machine

variable (boost : Wialon.Boost)

/-- The callback of a record: its connection goes on, wherever it is in its line. -/
def Link.complete (record : Nat) (ok : Bool) (link : Link) : Option Link :=
  match link.session.step boost (.complete (link.waiting.idxOf record) ok) with
  | none => none
  | some (session, _) => some { link with
      session := session
      waiting := link.waiting.erase record
      settled := link.settled ++ [record] }

def Core.complete (record : Nat) (connection : Nat) (d : Core) : List Bool → Option Core
  | [] => some d
  | ok :: oks =>
    match d.links[connection]? with
    | none => none
    | some link =>
      match link.complete boost record ok with
      | none => none
      | some link => complete record connection { d with links := d.links.set connection link } oks

/-- Something happens to the combined callback of a record. -/
def Core.fanOut (record : Nat) (e : Router.Event) (d : Core) : Option Core :=
  match d.records[record]? with
  | none => none
  | some r =>
    match r.fanOut.step e with
    | none => none
    | some (f, oks) =>
      Core.complete boost record r.connection
        { d with records := d.records.set record { r with fanOut := f } } oks

/-- A dispatcher invokes its copy of a callback and lets go of it. -/
def Core.report (ticket : Ticket) (ok : Bool) (d : Core) : Option Core :=
  (d.fanOut boost ticket.record (.report ticket.place ok)).bind
    (Core.fanOut boost ticket.record (.release ticket.place))

def Core.reportAll : List Report → Core → Option Core
  | [], d => some d
  | (ticket, ok) :: rest, d => (d.report boost ticket ok).bind (reportAll rest)

/-- What the translator does next, as far as the router answers its requests so. -/
def Link.advance (answers : Str → Str → Bool) (e : Wialon.Event) (link : Link) :
    Option (Wialon.Session × List Wialon.Effect) :=
  (link.session.step boost e).filter fun r => r.2.all fun
    | .authenticate imei password => answers imei password == (e == .token true)
    | _ => true

variable (factory : PluginFactory)

/-- `on_connection`, where it makes a translator of this protocol. -/
def connectionOf (port : Port) (address : Str) : Option ApiTranslator :=
  match onConnection (fun _ => true) factory ⟨some port, some address⟩ with
  | .ok connection => if connection.puid = "wialon".toList then some connection.papi else none
  | .error _ => none

/-- A handler of the connection runs. -/
def Core.onSession (connection : Nat) (e : Wialon.Event) (d : Core) : Option Core :=
  match d.links[connection]? with
  | none => none
  | some link =>
    match link.advance boost (fun id password =>
      factory.requestRouter.authenticate link.papi.remoteAddress id password) e with
    | none => none
    | some (session, out) =>
      let (d, records) := d.handOver connection link.papi.processData (handedOver out)
      let link := { link with session := session, waiting := link.waiting ++ records }
      some { d with links := d.links.set connection link }

/-- The tree a record points to, as it is now. -/
def Core.treeOf (ticket : Ticket) (d : Core) : Option Wialon.Tree :=
  match d.records[ticket.record]? with
  | none => none
  | some r =>
    match d.links[r.connection]?, r.tree with
    | some link, some t => link.session.plugin.trees[t]?
    | _, _ => none

/-- The dispatcher a ticket is made out to. -/
def Core.serialOf (ticket : Ticket) (d : Core) : Option Nat :=
  match d.records[ticket.record]? with
  | none => none
  | some r => r.targets[ticket.place]?

variable (json : Dptree.Boost)

/-- `handle_process_data` of a posted call. -/
def Core.run (place : Nat) (d : Core) : Option (Core × List Report) :=
  match d.tasks[place]? with
  | none => none
  | some ticket =>
    match d.serialOf ticket, d.treeOf ticket with
    | some serial, some tree =>
      match d.dispatchers[serial]? with
      | none => none
      | some dispatcher =>
        match dispatcher.handleProcessData json ticket (recordTree tree) with
        | none => none
        | some (dispatcher, reported) => some ({ d with
            tasks := d.tasks.eraseIdx place
            dispatchers := d.dispatchers.set serial dispatcher }, reported)
    | _, _ => none

def Core.act (serial : Nat) (activity : Activity) (d : Core) : Option (Core × List Report) :=
  match d.dispatchers[serial]? with
  | none => none
  | some dispatcher =>
    match dispatcher.act activity with
    | none => none
    | some (dispatcher, reported) =>
      some ({ d with dispatchers := d.dispatchers.set serial dispatcher }, reported)

/-- No handler has thrown. -/
def Core.alive (d : Core) : Bool := d.links.all fun link => !link.session.crashed

/-- What a handler of a dispatcher has reported reaches the connections within it. -/
def reporting (r : Option (Core × List Report)) : Option (Core × List Report) :=
  r.bind fun (d, reported) => (d.reportAll boost reported).map fun d => (d, reported)

def Core.step (d : Core) (e : Event) : Option (Core × List Report) :=
  if d.alive then
    match e with
    | .accept port address memory =>
      (connectionOf factory port address).map fun papi =>
        ({ d with links := d.links ++ [Link.start port memory papi] }, [])
    | .line connection message => (d.onSession boost factory connection (.line message)).map (·, [])
    | .token connection granted =>
      (d.onSession boost factory connection (.token granted)).map (·, [])
    | .returned record => (d.fanOut boost record .return_).map (·, [])
    | .refused record => (d.fanOut boost record .post).map (·, [])
    | .run place => reporting boost (d.run json place)
    | .act serial activity => reporting boost (d.act serial activity)
  else none

/-- Every dispatcher that a route leads to has been made. -/
def Serves (factory : PluginFactory) (dispatchers : List Dispatcher) : Prop :=
  ∀ key targets, factory.requestRouter.routes.lookup key = some targets →
    ∀ target ∈ targets, target.serial < dispatchers.length

structure Core.Fresh (d : Core) : Prop where
  links : d.links = []
  records : d.records = []
  tasks : d.tasks = []
  dispatchers : ∀ dispatcher ∈ d.dispatchers, dispatcher.Fresh
  serves : Serves factory d.dispatchers

def core : Machine Core Event Report :=
  ⟨Core.Fresh factory, Core.step boost factory json⟩

end Machine

end Eiptnd.Daemon
