import Eiptnd.Library.Decimal
import Eiptnd.Wialon.Session

/-! When the acknowledgement of a black-box package counts its own records.

Completions do not go through the strand of the reads. One may run on another thread while the
end of a package is handled, when the last record has been stored and the counter has not been
read. In the middle of any other token it does to the counter what it does before it or
behind it. -/
namespace Eiptnd.Wialon

open Reactive

/-- What bears on the counter of a package. -/
inductive Moment
  /-- `process_data` is called. -/
  | called
  /-- The completion of a call runs, with this as `current_cmd_`. -/
  | ran (job : Job) (currentCmd : Command)
  deriving DecidableEq

/-- A completion of a call made for this line. -/
def Moment.isOwn (line : Nat) : Moment → Bool
  | .called => false
  | .ran job _ => job.line == line

/-- A completion that is counted. -/
def Moment.counted : Moment → Option Job
  | .ran job .blackbox => some job
  | _ => none

/-- The acknowledgement of a package as it happened. -/
structure Package where
  line : Nat
  /-- What happened since the first token of the line. -/
  moments : List Moment
  /-- Calls that were still to complete. -/
  outstanding : List Job
  output : List Effect

/-- `process_data` calls made for the package. -/
def Package.calls (p : Package) : Nat := p.moments.count .called

/-- How many of them have completed. -/
def Package.completions (p : Package) : Nat := p.moments.countP (Moment.isOwn p.line)

/-- A connection whose completions need not wait for the end of a token. -/
structure Concurrent where
  session : Session
  /-- What happened since the line was begun (history). -/
  moments : List Moment
  /-- The packages acknowledged so far (history). -/
  packages : List Package

structure Concurrent.Fresh (c : Concurrent) : Prop where
  session : c.session.Fresh
  moments : c.moments = []
  packages : c.packages = []

/-- The end of a line that stores the last record of a package first. -/
def Session.storesLast (s : Session) (tok : Str) : Bool :=
  tok == crlf && (s.plugin.state == .bar ||
    s.plugin.state == .body && s.plugin.currentCmd == Command.blackbox)

/-- The last record is stored. From `STATE_BODY` and `STATE_BAR` the end of the line then falls
through to what it does in `STATE_SKIP_TO_BAR_OR_END`, which is where it goes on. -/
def Session.storeLast (s : Session) : Session × List Effect :=
  let r := storeData s.plugin
  let called := s.called r.output
  ({ s with
      plugin := { r.state with state := .skipToBarOrEnd }
      jobs := s.jobs ++ called
      made := s.made + called.length }, r.output)

/-- A package is acknowledged with this token. -/
def Session.acknowledges (s : Session) (tok : Str) : Bool :=
  tok == crlf && s.plugin.state == .skipToBarOrEnd && s.plugin.currentCmd == Command.blackbox

section Machine

variable (boost : Boost)

namespace Concurrent

def storeLast (c : Concurrent) : Concurrent × List Effect :=
  ({ c with
      session := c.session.storeLast.1
      moments := c.moments ++ (deliveries c.session.storeLast.2).map fun _ => .called },
    c.session.storeLast.2)

def take (granted : Bool) (tok : Str) (rest : List Str) (c : Concurrent) :
    Concurrent × List Effect :=
  let (session, out) := c.session.take boost granted tok rest
  ({ session := session
     moments := if c.session.begins tok then []
       else c.moments ++ (deliveries out).map fun _ => .called
     packages := if c.session.acknowledges tok then
         c.packages ++ [⟨c.session.line, c.moments, c.session.jobs, out⟩]
       else c.packages }, out)

def step (c : Concurrent) : Event → Option (Concurrent × List Effect)
  | .line message => (c.session.step boost (.line message)).map fun next =>
    ({ c with session := next.1 }, next.2)
  | .token granted =>
    match c.session.crashed, c.session.pending with
    | false, tok :: rest =>
      if c.session.storesLast tok then some c.storeLast
      else some (c.take boost granted tok rest)
    | _, _ => none
  | .complete place ok =>
    match c.session.crashed, c.session.jobs[place]? with
    | false, some job =>
      let (session, out) := c.session.complete place job ok
      some ({ c with
        session := session
        moments := c.moments ++ [.ran job c.session.plugin.currentCmd] }, out)
    | _, _ => none

end Concurrent

def concurrent : Machine Concurrent Event Effect := ⟨Concurrent.Fresh, Concurrent.step boost⟩

end Machine

/-! ### The two halves of the end of a package -/

/-- Before the last record is stored the parser is in a package. -/
theorem storesLast_some {s : Session} {tok : Str} (parsing : s.Parsing)
    (stores : s.storesLast tok = true) :
    tok = crlf ∧ Active s.consumed s.plugin ∧ s.plugin.currentCmd = .blackbox := by
  simp only [Session.storesLast, Bool.and_eq_true, Bool.or_eq_true, beq_iff_eq] at stores
  obtain ⟨ends, here⟩ := stores
  have placed := parsing.placed
  rcases here with bar | ⟨body, blackbox⟩
  · rw [Placed, bar] at placed
    exact ⟨ends, placed.1, placed.2⟩
  · exact ⟨ends, placed.active (Or.inr (Or.inl body)), blackbox⟩

/-- With nothing in between, they come to what the whole comes to. -/
theorem storeLast_take {boost : Boost} {granted : Bool} {tok : Str} {rest : List Str} {s : Session}
    (parsing : s.Parsing) (stores : s.storesLast tok = true) :
    (s.storeLast.1.take boost granted tok rest).1 = (s.take boost granted tok rest).1 ∧
      s.storeLast.2 ++ (s.storeLast.1.take boost granted tok rest).2 =
        (s.take boost granted tok rest).2 := by
  obtain ⟨rfl, active, blackbox⟩ := storesLast_some parsing stores
  have inside : s.consumed ≠ [] := fun nothing => by simpa [nothing] using active.named
  have rooted := parsing.rooted inside
  let reply := answer (decimal s.plugin.multicommand) s.plugin
  have half : consumeToken boost granted crlf { s.plugin with state := .skipToBarOrEnd } =
      .emit { reply.state with state := .initial } reply.output := by
    have committed := @commitCommand_blackbox boost granted
      { s.plugin with state := .skipToBarOrEnd } blackbox rooted
    rw [consumeToken, if_pos rfl, consumeEnd, endOfLine]
    dsimp only
    rw [committed]
    rfl
  have whole : consumeToken boost granted crlf s.plugin =
      .emit { reply.state with state := .initial }
        (.processData s.plugin.tree s.plugin.content :: reply.output) := by
    have last : endOfLine boost granted s.plugin =
        (storeData s.plugin).andThen (commitCommand boost granted) := by
      simp only [Session.storesLast, Bool.and_eq_true, Bool.or_eq_true, beq_iff_eq] at stores
      rcases stores.2 with bar | ⟨body, -⟩
      · rw [endOfLine, bar]
      · simp [endOfLine, body, blackbox]
    rw [consumeToken, if_pos rfl, consumeEnd, last, storeData, Outcome.emit_andThen,
      commitCommand_blackbox boost granted blackbox rooted]
    rfl
  have quiet : deliveries reply.output = [] ∧ reply.output.any Effect.isError = false ∧
      reply.output.any Effect.isLogin = false := ⟨rfl, rfl, rfl⟩
  simp only [Session.take, Session.storeLast, half, whole, storeData, Outcome.emit_state,
    Outcome.emit_output]
  refine ⟨?_, rfl⟩
  have first : deliveries [.processData s.plugin.tree s.plugin.content] = [s.plugin.content] := rfl
  have calls : deliveries (.processData s.plugin.tree s.plugin.content :: reply.output) =
      [s.plugin.content] := rfl
  simp [Session.called, Session.begins, first, calls, quiet, Effect.isError, Effect.isLogin]

/-- What a connection can do without other threads, it can do with them. -/
theorem concurrent_of_session {boost : Boost} {s : Session} (reached : (session boost).Reachable s) :
    ∃ c, (concurrent boost).Reachable c ∧ c.session = s := by
  induction reached with
  | @init s fresh => exact ⟨⟨s, [], []⟩, .init ⟨fresh, rfl, rfl⟩, rfl⟩
  | @step s s' e out before stepped ih =>
    obtain ⟨c, reached, rfl⟩ := ih
    have step {c' : Concurrent} {e : Event} {out : List Effect}
        (taken : c.step boost e = some (c', out)) : (concurrent boost).Reachable c' :=
      reached.step taken
    obtain ⟨running, kind⟩ := Session.step_cases stepped
    cases kind with
    | line message =>
      have read : c.session.step boost (.line message) = _ := stepped
      let c' : Concurrent :=
        { c with session := { c.session with pending := tokens message ++ [crlf] } }
      exact ⟨c', @step c' (.line message) _ (by rw [Concurrent.step, read]; rfl), rfl⟩
    | token granted tok rest pending =>
      by_cases stores : c.session.storesLast tok = true
      · -- The two halves follow each other at once.
        have first := @step c.storeLast.1 (.token granted) c.storeLast.2
          (by simp [Concurrent.step, running, pending, stores])
        have parsing := Session.parsing before running
        obtain ⟨same, -⟩ := @storeLast_take boost granted tok rest _ parsing stores
        have done : c.storeLast.1.session.storesLast tok = false := by
          simp [Concurrent.storeLast, Session.storeLast, Session.storesLast]
        have alive : c.storeLast.1.session.crashed = false := running
        have waits : c.storeLast.1.session.pending = tok :: rest := pending
        have second : (concurrent boost).step c.storeLast.1 (.token granted) =
            some (c.storeLast.1.take boost granted tok rest) := by
          simp [concurrent, Concurrent.step, alive, waits, done]
        exact ⟨(c.storeLast.1.take boost granted tok rest).1, first.step second, same⟩
      · have taken := @step (c.take boost granted tok rest).1 (.token granted) _
          (by rw [Concurrent.step, running, pending]; exact if_neg stores)
        exact ⟨_, taken, rfl⟩
    | complete place ok job found =>
      let c' : Concurrent := { c with
        session := (c.session.complete place job ok).1
        moments := c.moments ++ [.ran job c.session.plugin.currentCmd] }
      exact ⟨c', @step c' (.complete place ok) _ (by rw [Concurrent.step, running, found]), rfl⟩

/-! ### What is asked of an acknowledgement -/

/-- A package was acknowledged as it should be: when all its calls had completed, by one reply
that reports how many they were, and that counts its own completions only. -/
structure Package.Acknowledged (p : Package) : Prop where
  completed : ∀ job ∈ p.outstanding, job.line ≠ p.line
  reported : answers p.output = [("B".toList, decimal p.calls)]
  own : answers p.output = [("B".toList, decimal p.completions)]

/-- The order of events an acknowledgement relies on: since the line was begun, a completion has
run for every call, and none of an earlier line has while `current_cmd_` was
`COMMAND_BLACKBOX`. -/
structure Package.Settled (p : Package) : Prop where
  ran : p.completions = p.calls
  others : ∀ job, .ran job .blackbox ∈ p.moments → job.line = p.line

/-! ### What happened and what was counted -/

/-- The history of the line fits the parser and its counter. -/
structure Concurrent.Sound (c : Concurrent) : Prop where
  parsing : c.session.Parsing
  books : c.session.Books
  made : c.session.line ≠ 0 → c.session.made = c.moments.count .called
  counted : c.session.counted = c.moments.filterMap Moment.counted
  own : ∀ job currentCmd, .ran job currentCmd ∈ c.moments → job.line = c.session.line →
    c.session.plugin.cmd ≠ notInitialized ∧ currentCmd = c.session.plugin.currentCmd

private theorem count_called (moments : List Moment) (contents : List Tree) :
    (moments ++ contents.map fun _ => Moment.called).count .called =
      moments.count .called + contents.length := by
  rw [List.count_append, List.map_const', List.count_replicate_self]

private theorem counted_called (moments : List Moment) (contents : List Tree) :
    (moments ++ contents.map fun _ => Moment.called).filterMap Moment.counted =
      moments.filterMap Moment.counted := by
  rw [List.filterMap_append, List.map_const']
  simp [Moment.counted]

private theorem ran_called {moments : List Moment} {contents : List Tree} {job : Job}
    {currentCmd : Command}
    (member : .ran job currentCmd ∈ moments ++ contents.map fun _ => Moment.called) :
    .ran job currentCmd ∈ moments := by
  simpa using member

section Steps

variable {boost : Boost} {c : Concurrent}

private theorem storeLast_parsing {s : Session} {tok : Str} (parsing : s.Parsing)
    (stores : s.storesLast tok = true) : s.storeLast.1.Parsing := by
  obtain ⟨-, active, blackbox⟩ := storesLast_some parsing stores
  obtain ⟨named, known, allowed⟩ := active
  exact ⟨⟨⟨named, known, allowed⟩, blackbox⟩, parsing.rooted, parsing.begun, parsing.pending,
    parsing.raised, parsing.granted⟩

private theorem storeLast_books {s : Session} {tok : Str} (parsing : s.Parsing) (books : s.Books)
    (stores : s.storesLast tok = true) : s.storeLast.1.Books := by
  obtain ⟨-, active, blackbox⟩ := storesLast_some parsing stores
  exact @books_called s s.storeLast.1 (storeData s.plugin).output books ⟨rfl, rfl, rfl⟩ rfl rfl rfl
    rfl fun _ => ⟨active, Or.inr (Or.inr (Or.inr blackbox))⟩

theorem Concurrent.Sound.storeLast {tok : Str} (sound : c.Sound)
    (stores : c.session.storesLast tok = true) : c.storeLast.1.Sound := by
  refine ⟨storeLast_parsing sound.parsing stores, storeLast_books sound.parsing sound.books stores,
    ?_, ?_, ?_⟩
  · intro begun
    have made := sound.made begun
    simp only [Concurrent.storeLast, count_called, Session.storeLast, Session.called,
      List.length_map, made]
  · simp only [Concurrent.storeLast, counted_called]
    exact sound.counted
  · intro job currentCmd member own
    exact sound.own job currentCmd (ran_called member) own

/-- A token that calls and ends nothing new leaves the history as it is. -/
theorem Concurrent.Sound.take {granted : Bool} {tok : Str} {rest : List Str} (sound : c.Sound)
    (pending : c.session.pending = tok :: rest)
    (alive : (c.take boost granted tok rest).1.session.crashed = false) :
    (c.take boost granted tok rest).1.Sound := by
  have parsing := take_parsing sound.parsing pending alive
  have books := @take_books boost granted tok rest _ sound.parsing sound.books
  by_cases begins : c.session.begins tok = true
  · -- The first token of a line starts a new history.
    have fresh : (c.session.take boost granted tok rest).1.made = 0 ∧
        (c.session.take boost granted tok rest).1.counted = [] := by
      simp [Session.take, begins]
    refine ⟨parsing, books, ?_, ?_, ?_⟩ <;> simp only [Concurrent.take, begins, if_true]
    · exact fun _ => fresh.1
    · exact fresh.2
    · simp
  have going : c.session.begins tok = false := by simpa using begins
  have line : (c.session.take boost granted tok rest).1.line = c.session.line := by
    simp [Session.take, going]
  refine ⟨parsing, books, ?_, ?_, ?_⟩ <;>
    simp only [Concurrent.take, going, Bool.false_eq_true, if_false]
  · intro begun
    rw [line] at begun
    rw [count_called, ← sound.made begun]
    simp [Session.take, going, Session.called]
  · rw [counted_called, ← sound.counted]
    simp [Session.take, going]
  · intro job currentCmd member own
    rw [line] at own
    obtain ⟨named, current⟩ := sound.own job currentCmd (ran_called member) own
    -- A line with completions of its own has named its command already.
    have kept : Kept c.session.plugin (consumeToken boost granted tok c.session.plugin).state := by
      by_cases ends : tok = crlf
      · rw [consumeToken, if_pos ends]
        exact consumeEnd_kept boost granted c.session.plugin
      · have placed := sound.parsing.placed
        apply consumeToken_kept boost granted ends placed
        · exact fun initial => begins (Session.begins_iff.mpr ⟨ends, initial⟩)
        · intro command
          rw [Placed, command] at placed
          exact named placed.2
    exact ⟨fun same => named (kept.cmd.symm.trans same), current.trans kept.currentCmd.symm⟩

theorem Concurrent.Sound.complete {place : Nat} {job : Job} {ok : Bool} (sound : c.Sound)
    (found : c.session.jobs[place]? = some job) :
    ({ c with
      session := (c.session.complete place job ok).1
      moments := c.moments ++ [.ran job c.session.plugin.currentCmd] } : Concurrent).Sound := by
  have counter : (c.session.complete place job ok).1.plugin.cmd = c.session.plugin.cmd ∧
      (c.session.complete place job ok).1.plugin.currentCmd = c.session.plugin.currentCmd :=
    ⟨(handleProcessData_counted ok c.session.plugin).cmd,
      (handleProcessData_counted ok c.session.plugin).currentCmd⟩
  refine ⟨complete_parsing sound.parsing, complete_books sound.books found, ?_, ?_, ?_⟩ <;>
    dsimp only
  · intro begun
    rw [List.count_append]
    exact sound.made begun
  · rw [List.filterMap_append, ← sound.counted]
    rcases handleProcessData_cases ok c.session.plugin with ⟨blackbox, counts⟩ | ⟨other, answers⟩
    · simp [Session.complete, counts, blackbox, Moment.counted]
    · have plain : Moment.counted (.ran job c.session.plugin.currentCmd) = none := by
        cases current : c.session.plugin.currentCmd with
        | blackbox => exact absurd current other
        | _ => rfl
      simp [Session.complete, answers, (answer_kept _ _).multicommand, plain]
  · intro other currentCmd member own
    rw [counter.1, counter.2]
    rcases List.mem_append.mp member with old | new
    · exact sound.own other currentCmd old own
    · cases List.mem_singleton.mp new
      -- The job is one of the line's own, so the line has named a command that stores.
      have known : job ∈ c.session.jobs ++ c.session.counted := by
        simp [List.mem_of_getElem? found]
      exact ⟨fun unnamed => sound.books.unowned unnamed job known own, rfl⟩

/-! ### The acknowledgement -/

/-- Within a package all completions of its own calls are counted. -/
private theorem own_counted {line : Nat} {moments : List Moment}
    (own : ∀ job currentCmd, .ran job currentCmd ∈ moments → job.line = line →
      currentCmd = .blackbox) :
    Wialon.own line (moments.filterMap Moment.counted) = moments.countP (Moment.isOwn line) := by
  induction moments with
  | nil => rfl
  | cons moment moments ih =>
    have later := ih fun job currentCmd member => own job currentCmd (List.mem_cons_of_mem _ member)
    cases moment with
    | called =>
      rw [List.filterMap_cons, List.countP_cons_of_neg (by simp [Moment.isOwn]), ← later]
      rfl
    | ran job currentCmd =>
      by_cases mine : job.line = line
      · rw [own job currentCmd List.mem_cons_self mine, List.filterMap_cons,
          List.countP_cons_of_pos (by simp [Moment.isOwn, mine]), ← later]
        exact List.countP_cons_of_pos (by simp [mine])
      -- A completion of another line may be counted, but is none of its own.
      · rw [List.filterMap_cons, List.countP_cons_of_neg (by simp [Moment.isOwn, mine]), ← later]
        cases currentCmd with
        | blackbox => exact List.countP_cons_of_neg (by simp [mine])
        | _ => rfl

theorem decimal_inj {m n : Nat} (same : decimal m = decimal n) : m = n := by
  have values := congrArg Decimal.value same
  rwa [decimal, decimal, Decimal.value_toDigits, Decimal.value_toDigits] at values

/-- The reply that a package gets is the counter's value. -/
private theorem acknowledges_answers {granted : Bool} {rest : List Str} (sound : c.Sound)
    (here : c.session.plugin.state = .skipToBarOrEnd)
    (blackbox : c.session.plugin.currentCmd = .blackbox) :
    c.session.consumed ≠ [] ∧ c.session.plugin.cmd = "B".toList ∧
      answers (c.session.take boost granted crlf rest).2 =
        [("B".toList, decimal c.session.plugin.multicommand)] := by
  have active : Active c.session.consumed c.session.plugin :=
    sound.parsing.placed.active (by simp [here])
  have inside : c.session.consumed ≠ [] := fun nothing => by simpa [nothing] using active.named
  have name : c.session.plugin.cmd = "B".toList := by
    obtain ⟨estimate, known⟩ := active.known
    rw [estimates_named known, blackbox]
    rfl
  have committed : (c.session.take boost granted crlf rest).2 =
      (answer (decimal c.session.plugin.multicommand) c.session.plugin).output := by
    change (consumeToken boost granted crlf c.session.plugin).output = _
    rw [consumeToken, if_pos rfl, consumeEnd_output, endOfLine, here]
    dsimp only
    rw [commitCommand_blackbox boost granted blackbox (sound.parsing.rooted inside)]
  exact ⟨inside, name, by rw [committed, answer_answers, name]⟩

theorem Concurrent.Sound.acknowledged_iff {granted : Bool} {rest : List Str} {p : Package}
    (sound : c.Sound) (here : c.session.plugin.state = .skipToBarOrEnd)
    (blackbox : c.session.plugin.currentCmd = .blackbox)
    (made : p = ⟨c.session.line, c.moments, c.session.jobs,
      (c.session.take boost granted crlf rest).2⟩) : p.Acknowledged ↔ p.Settled := by
  obtain ⟨inside, name, reply⟩ := @acknowledges_answers boost c granted rest sound here blackbox
  have begun := sound.parsing.begun inside
  have own : Wialon.own c.session.line c.session.counted = p.completions := by
    rw [sound.counted, own_counted]
    · rw [made]
      rfl
    · intro job currentCmd member mine
      rw [(sound.own job currentCmd member mine).2, blackbox]
  -- Every call is outstanding or counted, and whatever else is counted is foreign.
  have balance : p.calls = Wialon.own c.session.line c.session.jobs + p.completions := by
    rw [← own, ← sound.books.balance name, sound.made begun, made]
    rfl
  have counter : answers p.output = [("B".toList, decimal c.session.counted.length)] := by
    rw [made, ← sound.books.counted begun]
    exact reply
  have finished : (∀ job ∈ p.outstanding, job.line ≠ p.line) ↔ p.completions = p.calls := by
    have none : (∀ job ∈ p.outstanding, job.line ≠ p.line) ↔
        Wialon.own c.session.line c.session.jobs = 0 := by
      rw [made]
      simp [Wialon.own, List.countP_eq_zero]
    rw [none]
    omega
  have unmixed : (∀ job, .ran job .blackbox ∈ p.moments → job.line = p.line) ↔
      c.session.counted.length = p.completions := by
    rw [← own, eq_comm, Wialon.own, List.countP_eq_length, sound.counted, made]
    simp only [List.mem_filterMap, beq_iff_eq]
    constructor
    · rintro others job ⟨moment, member, counted⟩
      cases moment with
      | called => cases counted
      | ran other currentCmd =>
        cases currentCmd with
        | blackbox =>
          cases counted
          exact others job member
        | _ => cases counted
    · exact fun all job member => all job ⟨_, member, rfl⟩
  have digits (n : Nat) : answers p.output = [("B".toList, decimal n)] ↔
      c.session.counted.length = n := by
    rw [counter]
    constructor
    · intro same
      apply decimal_inj
      simpa using same
    · rintro rfl
      rfl
  constructor
  · intro right
    exact ⟨finished.mp right.completed, unmixed.mpr ((digits _).mp right.own)⟩
  · intro settled
    have same := unmixed.mp settled.others
    exact ⟨finished.mpr settled.ran, (digits _).mpr (same.trans settled.ran), (digits _).mpr same⟩

/-- What a step can be here: one of the connection, or the storing of a last record. -/
inductive Concurrent.Steps (boost : Boost) (c : Concurrent) : Event → Concurrent → Prop
  | line (message : Str) : c.session.pending = [] → Lines.Open '\r' '\n' message →
      Steps boost c (.line message)
        { c with session := { c.session with pending := tokens message ++ [crlf] } }
  | store (granted : Bool) (tok : Str) : c.session.storesLast tok = true →
      Steps boost c (.token granted) c.storeLast.1
  | token (granted : Bool) (tok : Str) (rest : List Str) : c.session.pending = tok :: rest →
      Steps boost c (.token granted) (c.take boost granted tok rest).1
  | complete (place : Nat) (ok : Bool) (job : Job) : c.session.jobs[place]? = some job →
      Steps boost c (.complete place ok) { c with
        session := (c.session.complete place job ok).1
        moments := c.moments ++ [.ran job c.session.plugin.currentCmd] }

theorem Concurrent.step_cases {c' : Concurrent} {e : Event} {out : List Effect}
    (stepped : (concurrent boost).step c e = some (c', out)) :
    c.session.crashed = false ∧ c.Steps boost e c' := by
  cases e with
  | line message =>
    obtain ⟨⟨s, out⟩, taken, same⟩ := Option.map_eq_some_iff.mp stepped
    have read : (Wialon.session boost).step c.session (.line message) = some (s, out) := taken
    cases same
    obtain ⟨running, step⟩ := Session.step_cases read
    cases step with
    | line _ idle unended => exact ⟨running, .line message idle unended⟩
  | token granted =>
    simp only [concurrent, Concurrent.step] at stepped
    split at stepped
    next tok rest running pending =>
      split at stepped
      next stores =>
        cases stepped
        exact ⟨running, .store granted tok stores⟩
      next =>
        cases stepped
        exact ⟨running, .token granted tok rest pending⟩
    next => cases stepped
  | complete place ok =>
    simp only [concurrent, Concurrent.step] at stepped
    split at stepped
    next job running found =>
      cases stepped
      exact ⟨running, .complete place ok job found⟩
    next => cases stepped

theorem Concurrent.sound (reached : (concurrent boost).Reachable c) :
    c.session.crashed = false → c.Sound := by
  apply reached.invariant (fun c => c.session.crashed = false → c.Sound)
  · intro c fresh _
    have start := fresh.session
    refine ⟨start.parsing, start.books, fun begun => absurd start.line begun, ?_, ?_⟩
    · rw [start.counted, fresh.moments]
      rfl
    · simp [fresh.moments]
  · intro c e c' out _ ih stepped alive
    obtain ⟨running, step⟩ := Concurrent.step_cases stepped
    have sound := ih running
    cases step with
    | line message idle unended =>
      obtain ⟨parsing, books, made, counted, own⟩ := sound
      exact ⟨parsing.line unended, books.line, made, counted, own⟩
    | store granted tok stores => exact sound.storeLast stores
    | token granted tok rest pending => exact sound.take pending alive
    | complete place ok job found => exact sound.complete found

/-- However the completions fall, a package is acknowledged as it should be exactly when the
order of events allows for it. -/
theorem package_acknowledged_iff (reached : (concurrent boost).Reachable c) :
    ∀ p ∈ c.packages, p.Acknowledged ↔ p.Settled := by
  apply reached.invariant (fun c => ∀ p ∈ c.packages, p.Acknowledged ↔ p.Settled)
  · intro c fresh p member
    rw [fresh.packages] at member
    cases member
  · intro c e c' out before ih stepped p member
    obtain ⟨running, step⟩ := Concurrent.step_cases stepped
    cases step with
    | token granted tok rest pending =>
      simp only [Concurrent.take] at member
      split at member
      next closes =>
        rcases List.mem_append.mp member with old | new
        · exact ih p old
        · simp only [Session.acknowledges, Bool.and_eq_true, beq_iff_eq] at closes
          obtain ⟨⟨rfl, here⟩, blackbox⟩ := closes
          exact (Concurrent.sound before running).acknowledged_iff here blackbox
            (List.mem_singleton.mp new)
      next => exact ih p member
    | _ => exact ih p member

end Steps

def Concurrent.accepted : Concurrent := ⟨Wialon.accepted, [], []⟩

theorem Concurrent.accepted_fresh : Concurrent.accepted.Fresh := ⟨Wialon.accepted_fresh, rfl, rfl⟩

/-- A package of one record, whose completion another thread has run by the time its counter is
read. -/
def overtaken : List Event :=
  Event.whole "#L#i;p".toList ++ Event.whole "#B#1;2;3;4;5;6;7;8;9;10;11;12;13;14;15;16".toList ++
    [.complete 0 true, .token true]

theorem package_acknowledged_iff_overtaken : ∃ c, (concurrent plain).Reachable c ∧
    (∃ p ∈ c.packages, p.calls = 1 ∧ answers p.output = [("B".toList, "1".toList)]) ∧
    ∀ p ∈ c.packages, p.Acknowledged ↔ p.Settled := by
  have reached : (concurrent plain).Reachable ((concurrent plain).after .accepted overtaken) :=
    .after Concurrent.accepted_fresh overtaken
  exact ⟨_, reached, by decide +kernel, package_acknowledged_iff reached⟩

/-- The same package with no completion in between is acknowledged with no record at all. -/
theorem package_acknowledged_early : ∃ c, (concurrent plain).Reachable c ∧
    ∃ p ∈ c.packages, p.calls = 1 ∧ replies p.output = ["#AB#0\r\n".toList] ∧
      ¬ p.Acknowledged := by
  let early : List Event := Event.whole "#L#i;p".toList ++
    Event.whole "#B#1;2;3;4;5;6;7;8;9;10;11;12;13;14;15;16".toList ++ [.token true]
  have reached : (concurrent plain).Reachable ((concurrent plain).after .accepted early) :=
    .after Concurrent.accepted_fresh early
  have wrong : ∃ p ∈ ((concurrent plain).after .accepted early).packages, p.calls = 1 ∧
      replies p.output = ["#AB#0\r\n".toList] ∧
      answers p.output ≠ [("B".toList, decimal p.calls)] := by
    decide +kernel
  obtain ⟨p, member, made, sent, other⟩ := wrong
  exact ⟨_, reached, p, member, made, sent, fun right => other right.reported⟩

end Eiptnd.Wialon
