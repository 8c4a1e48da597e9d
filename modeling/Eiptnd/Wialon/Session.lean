import Eiptnd.Wialon.Commands
import Mathlib.Data.List.Perm.Basic

/-! One connection of the translator over time.

Lines arrive, their tokens are consumed one by one, and between any two tokens the
completion of an earlier `process_data` call may run: `request_router` posts it to
the `io_service`, and only reads go through the connection's strand. The order in
which completions come back is free. -/
namespace Eiptnd.Wialon

open Reactive

/-- A `process_data` call that is still to complete: the line it was made for, by
its place among the lines begun, and the command that line named. -/
structure Job where
  line : Nat
  cmd : Str
  deriving DecidableEq, Repr

/-- A completion as it happened: what was the last line begun and what `cmd_`, whether
it was counted, and what it put out. -/
structure Completion where
  job : Job
  ok : Bool
  line : Nat
  cmd : Str
  counted : Bool
  output : List Effect

/-- A connection: the translator, the tokens of the current line still to come with
the CRLF behind them, and the calls to complete. The rest is history. -/
structure Session where
  plugin : Plugin
  pending : List Str
  jobs : List Job
  crashed : Bool
  /-- Tokens of the current line already consumed. -/
  consumed : List Str
  /-- How many lines have been begun. -/
  line : Nat
  /-- The line begun last has raised a parser error. -/
  raised : Bool
  /-- Some `authenticate` request was answered with true. -/
  granted : Bool
  /-- Calls made for the line begun last. -/
  made : Nat
  /-- Completions counted since that line began. -/
  counted : List Job
  completions : List Completion

structure Session.Fresh (s : Session) : Prop where
  plugin : s.plugin.Fresh
  pending : s.pending = []
  jobs : s.jobs = []
  crashed : s.crashed = false
  consumed : s.consumed = []
  granted : s.granted = false
  raised : s.raised = false
  counted : s.counted = []
  line : s.line = 0
  completions : s.completions = []

inductive Event
  /-- A line has been read. -/
  | line (message : Str)
  /-- The next token is consumed; `granted` answers an `authenticate` request. -/
  | token (granted : Bool)
  /-- One of the outstanding calls completes. -/
  | complete (place : Nat) (ok : Bool)
  deriving DecidableEq, Repr

/-- The first token of a line. -/
def Session.begins (s : Session) (tok : Str) : Bool :=
  tok != crlf && s.plugin.state == .initial

/-- A black-box package ends with this token. -/
def Session.closes (s : Session) (tok : Str) : Bool :=
  tok == crlf && s.plugin.currentCmd == Command.blackbox &&
    (s.plugin.state == .body || s.plugin.state == .bar || s.plugin.state == .skipToBarOrEnd)

/-- The calls an output makes, as jobs of the current line. -/
def Session.called (s : Session) (out : List Effect) : List Job :=
  (deliveries out).map fun _ => ⟨s.line, s.consumed[2]?.getD []⟩

section Machine

variable (boost : Boost)

def Session.take (granted : Bool) (tok : Str) (rest : List Str) (s : Session) :
    Session × List Effect :=
  let r := consumeToken boost granted tok s.plugin
  let called := s.called r.output
  ({ s with
      plugin := r.state
      pending := rest
      jobs := s.jobs ++ called
      crashed := r.fault.isSome
      consumed := if tok = crlf then [] else s.consumed ++ [tok]
      line := if s.begins tok then s.line + 1 else s.line
      raised := (!s.begins tok && s.raised) || r.output.any Effect.isError
      granted := s.granted || (granted && r.output.any Effect.isLogin)
      made := if s.begins tok then 0 else s.made + called.length
      counted := if s.begins tok then [] else s.counted }, r.output)

def Session.complete (place : Nat) (job : Job) (ok : Bool) (s : Session) :
    Session × List Effect :=
  let r := handleProcessData ok s.plugin
  let counts := r.state.multicommand != s.plugin.multicommand
  ({ s with
      plugin := r.state
      jobs := s.jobs.eraseIdx place
      crashed := r.fault.isSome
      counted := if counts then s.counted ++ [job] else s.counted
      completions := s.completions ++ [⟨job, ok, s.line, s.plugin.cmd, counts, r.output⟩] },
    r.output)

def Session.step (s : Session) : Event → Option (Session × List Effect)
  | .line message =>
    -- The lines come one after another: the next is read when the last is done.
    if s.crashed = false ∧ s.pending = [] ∧ Lines.Open '\r' '\n' message then
      some ({ s with pending := tokens message ++ [crlf] }, [.parseString message])
    else none
  | .token granted =>
    match s.crashed, s.pending with
    | false, tok :: rest => some (s.take boost granted tok rest)
    | _, _ => none
  | .complete place ok =>
    match s.crashed, s.jobs[place]? with
    | false, some job => some (s.complete place job ok)
    | _, _ => none

def session : Machine Session Event Effect := ⟨Session.Fresh, Session.step boost⟩

end Machine

/-- Boost on values that need no escapes. -/
def plain : Boost := ⟨fun s => (String.ofList s).toNat?, id⟩

/-- A connection just accepted, in memory that happens to be zero. -/
def accepted : Session where
  plugin :=
    { sbuf := [], answerBuffer := List.replicate answerCapacity '\x00', estimate := 0, tree := none,
      multicommand := 0, authenticated := false, isParserError := false, state := .initial,
      cmd := [], currentCmd := .login, trees := [] }
  pending := []
  jobs := []
  crashed := false
  consumed := []
  line := 0
  raised := false
  granted := false
  made := 0
  counted := []
  completions := []

theorem accepted_fresh : accepted.Fresh :=
  ⟨⟨rfl, rfl, rfl, rfl, rfl, rfl, rfl⟩, rfl, rfl, rfl, rfl, rfl, rfl, rfl, rfl, rfl⟩

theorem reachable_after (boost : Boost) (events : List Event) :
    (session boost).Reachable ((session boost).after accepted events) :=
  Machine.Reachable.after accepted_fresh events

/-- A line and all its tokens, with nothing in between. -/
def Event.whole (message : Str) : List Event :=
  .line message :: List.replicate ((tokens message).length + 1) (.token true)

/-- The connection after its first login. -/
def loggedIn : Session := (session plain).after accepted (Event.whole "#L#i;p".toList)

theorem loggedIn_reachable : (session plain).Reachable loggedIn := reachable_after plain _

theorem loggedIn_ready : loggedIn.crashed = false ∧ loggedIn.pending = [] ∧
    loggedIn.plugin.authenticated = true := by decide +kernel

/-- Everything a step can be. -/
inductive Session.Steps (boost : Boost) (s : Session) : Event → Session → List Effect → Prop
  | line (message : Str) : s.pending = [] → Lines.Open '\r' '\n' message →
      Steps boost s (.line message) { s with pending := tokens message ++ [crlf] }
        [.parseString message]
  | token (granted : Bool) (tok : Str) (rest : List Str) : s.pending = tok :: rest →
      Steps boost s (.token granted) (s.take boost granted tok rest).1
        (consumeToken boost granted tok s.plugin).output
  | complete (place : Nat) (ok : Bool) (job : Job) : s.jobs[place]? = some job →
      Steps boost s (.complete place ok) (s.complete place job ok).1
        (handleProcessData ok s.plugin).output

theorem Session.step_cases {boost : Boost} {s s' : Session} {e : Event} {out : List Effect}
    (stepped : (session boost).step s e = some (s', out)) :
    s.crashed = false ∧ Session.Steps boost s e s' out := by
  cases e with
  | line message =>
    simp only [session, Session.step] at stepped
    split at stepped
    next ready =>
      cases stepped
      exact ⟨ready.1, .line message ready.2.1 ready.2.2⟩
    next => cases stepped
  | token granted =>
    simp only [session, Session.step] at stepped
    split at stepped
    next tok rest alive pending =>
      cases stepped
      exact ⟨alive, .token granted tok rest pending⟩
    next => cases stepped
  | complete place ok =>
    simp only [session, Session.step] at stepped
    split at stepped
    next job alive found =>
      cases stepped
      exact ⟨alive, .complete place ok job found⟩
    next => cases stepped

/-! ### The parser in its line -/

/-- The parser stands where the tokens consumed so far have led it. -/
structure Session.Parsing (s : Session) : Prop where
  placed : Placed s.consumed s.plugin
  rooted : s.consumed ≠ [] → s.plugin.tree ≠ none
  begun : s.consumed ≠ [] → s.line ≠ 0
  pending : s.pending = [] ∧ s.consumed = [] ∨
    ∃ toks, s.pending = toks ++ [crlf] ∧ crlf ∉ toks
  raised : s.raised = true → s.plugin.isParserError = true
  granted : s.plugin.authenticated = true → s.granted = true

theorem Session.begins_iff {s : Session} {tok : Str} :
    s.begins tok = true ↔ tok ≠ crlf ∧ s.plugin.state = .initial := by
  simp [Session.begins]

theorem take_parsing {boost : Boost} {granted : Bool} {tok : Str} {rest : List Str}
    {s : Session} (before : s.Parsing) (pending : s.pending = tok :: rest)
    (alive : (s.take boost granted tok rest).1.crashed = false) :
    (s.take boost granted tok rest).1.Parsing := by
  obtain ⟨placed, rooted, begun, queue, raised, opened⟩ := before
  simp only [Session.take, Option.isSome_eq_false_iff, Option.isNone_iff_eq_none] at alive
  -- The CRLF is the last token, and no token before it is one.
  have later : rest = [] ∧ tok = crlf ∨
      tok ≠ crlf ∧ ∃ toks, rest = toks ++ [crlf] ∧ crlf ∉ toks := by
    rcases queue with ⟨done, -⟩ | ⟨toks, shape, clean⟩
    · rw [pending] at done
      cases done
    · rw [pending] at shape
      cases toks with
      | nil =>
        cases shape
        exact Or.inl ⟨rfl, rfl⟩
      | cons t toks =>
        cases shape
        exact Or.inr ⟨fun same => clean (by simp [same]), toks, rfl,
          fun member => clean (by simp [member])⟩
  -- The first token forgets what the line before has left.
  by_cases begins : s.begins tok = true
  · obtain ⟨notEnd, here⟩ := Session.begins_iff.mp begins
    have moved : consumeToken boost granted tok s.plugin = consumeInitial s.plugin := by
      simp [consumeToken, notEnd, here]
    have fresh := consumeToken_placed boost granted notEnd placed
    rw [moved] at fresh
    refine ⟨?_, ?_, ?_, ?_, ?_, ?_⟩ <;>
      simp only [Session.take, moved, begins, notEnd, if_false, Bool.not_true, Bool.false_and,
        Bool.false_or]
    · exact fresh
    · simp [consumeInitial, Plugin.newTree]
    · simp
    · exact Or.inr (later.resolve_left fun ended => notEnd ended.2).2
    · simp [consumeInitial]
    · intro authenticated
      simp [opened authenticated]
  -- Any other token finds the parser in its line.
  · have going : tok = crlf ∨ s.plugin.state ≠ .initial := by
      simpa [Session.begins_iff, or_iff_not_imp_left] using begins
    have inside (more : (if tok = crlf then [] else s.consumed ++ [tok]) ≠ []) :
        s.consumed ≠ [] := by
      split at more
      · exact absurd rfl more
      next notEnd =>
        intro nothing
        rw [nothing] at placed
        exact going.resolve_left notEnd (placed_nil.mp placed)
    obtain ⟨tree, error, login⟩ := consumeToken_progress boost granted going
    refine ⟨?_, ?_, ?_, ?_, ?_, ?_⟩ <;> simp only [Session.take, begins]
    -- The end of the line puts the parser back where it began.
    · by_cases ends : tok = crlf
      · rw [if_pos ends, consumeToken, if_pos ends]
        rw [consumeToken, if_pos ends] at alive
        exact placed_nil.mpr (consumeEnd_initial alive)
      · rw [if_neg ends]
        exact consumeToken_placed boost granted ends placed
    · exact fun more => tree (rooted (inside more))
    · exact fun more => begun (inside more)
    · rcases later with ⟨done, ended⟩ | ⟨notEnd, more⟩
      · exact Or.inl ⟨done, if_pos ended⟩
      · exact Or.inr more
    · intro noted
      simp only [Bool.or_eq_true, Bool.and_eq_true] at noted
      exact error (noted.imp (fun old => raised old.2) id)
    · intro authenticated
      simp only [Bool.or_eq_true, Bool.and_eq_true]
      exact (login authenticated).imp opened id

theorem complete_parsing {place : Nat} {job : Job} {ok : Bool} {s : Session}
    (before : s.Parsing) : (s.complete place job ok).1.Parsing := by
  obtain ⟨placed, rooted, begun, queue, raised, opened⟩ := before
  have same := handleProcessData_counted ok s.plugin
  refine ⟨?_, ?_, begun, queue, ?_, ?_⟩
  · exact (placed_congr same).mpr placed
  · simpa [Session.complete, same.tree] using rooted
  · simpa [Session.complete, same.isParserError] using raised
  · simpa [Session.complete, same.authenticated] using opened

theorem Session.Fresh.parsing {s : Session} (fresh : s.Fresh) : s.Parsing := by
  have start := fresh.plugin
  refine ⟨?_, ?_, ?_, Or.inl ⟨fresh.pending, fresh.consumed⟩, ?_, ?_⟩
  · rw [fresh.consumed]
    exact placed_nil.mpr start.state
  · simp [fresh.consumed]
  · simp [fresh.consumed]
  · simp [fresh.raised]
  · simp [start.authenticated]

/-- A line that is read waits to be consumed. -/
theorem Session.Parsing.line {s : Session} {message : Str} (parsing : s.Parsing)
    (unended : Lines.Open '\r' '\n' message) :
    ({ s with pending := tokens message ++ [crlf] } : Session).Parsing := by
  obtain ⟨placed, rooted, begun, -, raised, opened⟩ := parsing
  exact ⟨placed, rooted, begun, Or.inr ⟨_, rfl, tokens_crlf unended⟩, raised, opened⟩

theorem Session.parsing {boost : Boost} {s : Session} (reached : (session boost).Reachable s) :
    s.crashed = false → s.Parsing := by
  apply reached.invariant (fun s => s.crashed = false → s.Parsing)
  · exact fun s fresh _ => fresh.parsing
  · intro s e s' out _ ih stepped alive
    obtain ⟨running, step⟩ := Session.step_cases stepped
    have before := ih running
    cases step with
    | line message idle unended => exact before.line unended
    | token granted tok rest pending => exact take_parsing before pending alive
    | complete place ok job => exact complete_parsing before

/-! ### Calls and completions -/

/-- Jobs of one line. -/
def own (line : Nat) (jobs : List Job) : Nat := jobs.countP (·.line == line)

/-- A job belongs to a record of the line it was made for. -/
structure Session.Fits (s : Session) (job : Job) : Prop where
  begun : job.line ≤ s.line
  command : job.line = s.line → s.plugin.cmd = job.cmd
  stores : ∃ estimate c, estimates.lookup job.cmd = some (estimate, c) ∧ c.Stores

/-- The counter and the calls are in step with the lines. -/
structure Session.Books (s : Session) : Prop where
  command : ∀ estimate c, estimates.lookup s.plugin.cmd = some (estimate, c) →
    s.plugin.currentCmd = c
  fits : ∀ job ∈ s.jobs ++ s.counted, s.Fits job
  counted : s.line ≠ 0 → s.plugin.multicommand = s.counted.length
  unnamed : s.plugin.cmd = notInitialized → s.made = 0
  balance : s.plugin.cmd = "B".toList →
    s.made = own s.line s.jobs + own s.line s.counted

theorem notInitialized_unknown : estimates.lookup notInitialized = none := by decide

theorem notInitialized_ne_blackbox : notInitialized ≠ "B".toList := by decide

theorem Session.Books.unowned {s : Session} (books : s.Books)
    (unnamed : s.plugin.cmd = notInitialized) : ∀ job ∈ s.jobs ++ s.counted, job.line ≠ s.line := by
  intro job member here
  obtain ⟨-, command, estimate, c, known, -⟩ := books.fits job member
  rw [← command here, unnamed, notInitialized_unknown] at known
  cases known

theorem own_eq_zero {line : Nat} {jobs : List Job} (foreign : ∀ job ∈ jobs, job.line ≠ line) :
    own line jobs = 0 := by
  simpa [own, List.countP_eq_zero] using foreign

theorem own_append (line : Nat) (jobs more : List Job) :
    own line (jobs ++ more) = own line jobs + own line more := List.countP_append

/-- A step that goes on with a line books its calls under the command of that line. -/
theorem books_called {s s' : Session} {out : List Effect} (before : s.Books)
    (same : Kept s.plugin s'.plugin) (line : s'.line = s.line)
    (jobs : s'.jobs = s.jobs ++ s.called out) (counted : s'.counted = s.counted)
    (made : s'.made = s.made + (s.called out).length)
    (stores : deliveries out ≠ [] → Active s.consumed s.plugin ∧ s.plugin.currentCmd.Stores) :
    s'.Books := by
  -- Every new call belongs to the current line and its command.
  have fresh : ∀ job ∈ s.called out, job.line = s.line ∧ job.cmd = s.plugin.cmd ∧
      ∃ estimate c, estimates.lookup s.plugin.cmd = some (estimate, c) ∧ c.Stores := by
    intro job member
    simp only [Session.called, List.mem_map] at member
    obtain ⟨content, delivered, rfl⟩ := member
    obtain ⟨active, kind⟩ := stores (List.ne_nil_of_mem delivered)
    obtain ⟨estimate, known⟩ := active.known
    exact ⟨rfl, by simp [active.named], estimate, _, known, kind⟩
  refine ⟨?_, ?_, ?_, ?_, ?_⟩
  · rw [same.cmd, same.currentCmd]
    exact before.command
  · intro job member
    rw [jobs, counted] at member
    -- An old job fits as before, a new one by what has just been said.
    have cases : job ∈ s.jobs ++ s.counted ∨ job ∈ s.called out := by
      simp only [List.mem_append] at member ⊢
      tauto
    rcases cases with old | new
    · obtain ⟨begun, command, kind⟩ := before.fits job old
      exact ⟨line ▸ begun, by rwa [line, same.cmd], kind⟩
    · obtain ⟨here, named, kind⟩ := fresh job new
      refine ⟨by rw [here, line], fun _ => by rw [same.cmd, named], ?_⟩
      rwa [named]
  · rw [line, same.multicommand, counted]
    exact before.counted
  · rw [same.cmd, made]
    intro unnamed
    -- Without a command no call can have been made.
    have quiet : s.called out = [] := by
      by_contra some
      obtain ⟨job, member⟩ := List.exists_mem_of_ne_nil _ some
      obtain ⟨-, -, estimate, c, known, -⟩ := fresh job member
      rw [unnamed, notInitialized_unknown] at known
      cases known
    simp [before.unnamed unnamed, quiet]
  · rw [same.cmd, made, line, jobs, counted, own_append]
    intro package
    -- All new calls are the current line's own.
    have all : own s.line (s.called out) = (s.called out).length := by
      rw [own, List.countP_eq_length]
      exact fun job member => by simp [(fresh job member).1]
    rw [before.balance package, all]
    omega

theorem take_books {boost : Boost} {granted : Bool} {tok : Str} {rest : List Str}
    {s : Session} (parsing : s.Parsing) (before : s.Books) :
    (s.take boost granted tok rest).1.Books := by
  -- Four cases: the end of the line, its first token, its command, and the rest.
  have placed := parsing.placed
  have continued (same : Kept s.plugin (consumeToken boost granted tok s.plugin).state)
      (going : s.begins tok = false) : (s.take boost granted tok rest).1.Books :=
    books_called before same (by simp [Session.take, going]) rfl (by simp [Session.take, going])
      (by simp [Session.take, going]) (@consumeToken_stores boost granted tok _ _ placed)
  by_cases ends : tok = crlf
  · refine continued ?_ (by simp [Session.begins, ends])
    rw [consumeToken, if_pos ends]
    exact consumeEnd_kept boost granted s.plugin
  by_cases initial : s.plugin.state = .initial
  · -- a new line: nothing of it is booked yet
    have begins : s.begins tok = true := Session.begins_iff.mpr ⟨ends, initial⟩
    have moved : consumeToken boost granted tok s.plugin = consumeInitial s.plugin := by
      simp [consumeToken, ends, initial]
    have quiet : s.called (consumeInitial s.plugin).output = [] := rfl
    have later : ∀ job ∈ s.jobs, job.line < s.line + 1 := fun job member =>
      Nat.lt_succ_of_le (before.fits job (by simp [member])).begun
    refine ⟨?_, ?_, ?_, ?_, ?_⟩ <;>
      simp only [Session.take, moved, begins, if_true, quiet, List.append_nil]
    · intro estimate c known
      simp only [consumeInitial, Outcome.ok_state, notInitialized_unknown] at known
      cases known
    · intro job member
      have old := before.fits job (by simp [member])
      have past := later job member
      exact ⟨past.le, fun here => absurd here past.ne, old.stores⟩
    · intro _
      rfl
    · simp
    · intro package
      exact absurd package notInitialized_ne_blackbox
  by_cases command : s.plugin.state = .command
  · -- the command is named: no call has been made for the line before
    have going : s.begins tok = false := by simp [Session.begins, initial]
    simp only [Placed, command] at placed
    have unowned := before.unowned placed.2
    have step := consumeToken_cases boost granted ends s.plugin
    have named : (consumeToken boost granted tok s.plugin).state.cmd = tok ∧
        (consumeToken boost granted tok s.plugin).state.multicommand = s.plugin.multicommand ∧
        deliveries (consumeToken boost granted tok s.plugin).output = [] ∧
        ∀ estimate c, estimates.lookup tok = some (estimate, c) →
          (consumeToken boost granted tok s.plugin).state.currentCmd = c := by
      generalize consumeToken boost granted tok s.plugin = r at step
      cases step with
      | unknown _ _ missing => exact ⟨rfl, rfl, rfl, by simp [missing]⟩
      | barred _ _ _ found => exact ⟨rfl, rfl, rfl, by simp [found]⟩
      | named _ _ _ found => exact ⟨rfl, rfl, rfl, by simp [found]⟩
      | _ => simp_all
    obtain ⟨cmd, multicommand, quiet, current⟩ := named
    have uncalled : s.called (consumeToken boost granted tok s.plugin).output = [] := by
      simp [Session.called, quiet]
    refine ⟨?_, ?_, ?_, ?_, ?_⟩ <;>
      simp only [Session.take, going, uncalled, List.append_nil, List.length_nil, Nat.add_zero,
        Bool.false_eq_true, if_false, cmd]
    · exact current
    · intro job member
      obtain ⟨begun, -, kind⟩ := before.fits job member
      exact ⟨begun, fun here => absurd here (unowned job member), kind⟩
    · rw [multicommand]
      exact before.counted
    · exact fun _ => before.unnamed placed.2
    · intro _
      rw [before.unnamed placed.2, own_eq_zero fun job member => unowned job (by simp [member]),
        own_eq_zero fun job member => unowned job (by simp [member])]
  · exact continued (consumeToken_kept boost granted ends placed initial command)
      (by simp [Session.begins, initial])

/-- The code a completion answers with. -/
def resultCode (ok : Bool) (c : Command) : Str :=
  if ok then "1".toList
  else if c = .data ∨ c = .shortdata then "-1".toList
  else "0".toList

/-- What a completion does: count for a package, or answer under the current command. -/
theorem handleProcessData_cases (ok : Bool) (p : Plugin) :
    p.currentCmd = .blackbox ∧
        handleProcessData ok p = .ok { p with multicommand := p.multicommand + 1 } ∨
      p.currentCmd ≠ .blackbox ∧
        handleProcessData ok p = answer (resultCode ok p.currentCmd) p := by
  unfold handleProcessData resultCode
  split
  next blackbox => exact Or.inl ⟨blackbox, rfl⟩
  next other =>
    refine Or.inr ⟨other, ?_⟩
    split
    · rfl
    · split <;> rfl

theorem complete_books {place : Nat} {job : Job} {ok : Bool} {s : Session}
    (before : s.Books) (found : s.jobs[place]? = some job) :
    (s.complete place job ok).1.Books := by
  obtain ⟨bound, rfl⟩ := List.getElem?_eq_some_iff.mp found
  have perm := List.getElem_cons_eraseIdx_perm bound
  -- The completed job leaves the outstanding ones, and is counted or not.
  have split : own s.line s.jobs =
      own s.line [s.jobs[place]] + own s.line (s.jobs.eraseIdx place) := by
    rw [← own_append]
    exact (perm.countP_eq _).symm
  have kept : ∀ job ∈ s.jobs.eraseIdx place, job ∈ s.jobs := fun job => List.mem_of_mem_eraseIdx
  rcases handleProcessData_cases ok s.plugin with ⟨blackbox, counts⟩ | ⟨other, answers⟩
  -- The package's counter goes up, and the job with it.
  · have fresh : ({ s.plugin with multicommand := s.plugin.multicommand + 1 } : Plugin).multicommand
        != s.plugin.multicommand := by simp
    refine ⟨?_, ?_, ?_, ?_, ?_⟩ <;>
      simp only [Session.complete, counts, Outcome.ok_state, fresh, if_true]
    · exact before.command
    · intro job member
      have known : job ∈ s.jobs ++ s.counted := by
        simp only [List.mem_append, List.mem_singleton] at member ⊢
        rcases member with left | counted | rfl
        · exact Or.inl (kept job left)
        · exact Or.inr counted
        · exact Or.inl (List.getElem_mem bound)
      obtain ⟨begun, command, kind⟩ := before.fits job known
      exact ⟨begun, command, kind⟩
    · intro begun
      simp [before.counted begun]
    · exact before.unnamed
    · intro package
      rw [before.balance package, split, own_append]
      omega
  -- An answer leaves the counter alone.
  · have same := answer_kept (resultCode ok s.plugin.currentCmd) s.plugin
    refine ⟨?_, ?_, ?_, ?_, ?_⟩ <;>
      simp only [Session.complete, answers, same.cmd, same.currentCmd, same.multicommand,
        bne_self_eq_false, Bool.false_eq_true, if_false]
    · exact before.command
    · intro job member
      have known : job ∈ s.jobs ++ s.counted := by
        simp only [List.mem_append] at member ⊢
        exact member.imp (kept job) id
      obtain ⟨begun, command, kind⟩ := before.fits job known
      exact ⟨begun, command, kind⟩
    · exact before.counted
    · exact before.unnamed
    · intro package
      -- a completion answered under another command than `B` belongs to no package
      exact absurd (before.command 16 .blackbox (by rw [package]; rfl)) other

theorem Session.Fresh.books {s : Session} (fresh : s.Fresh) : s.Books := by
  have start := fresh.plugin
  have unknown : estimates.lookup ([] : Str) = none := by decide
  refine ⟨?_, ?_, fun begun => absurd fresh.line begun, ?_, ?_⟩
  · simp [start.cmd, unknown]
  · simp [fresh.jobs, fresh.counted]
  · rw [start.cmd]
    exact fun empty => absurd empty (by decide)
  · rw [start.cmd]
    exact fun empty => absurd empty (by decide)

theorem Session.Books.line {s : Session} {pending : List Str} (books : s.Books) :
    ({ s with pending := pending } : Session).Books := by
  refine ⟨books.command, ?_, books.counted, books.unnamed, books.balance⟩
  intro job member
  obtain ⟨begun, command, kind⟩ := books.fits job member
  exact ⟨begun, command, kind⟩

theorem Session.books {boost : Boost} {s : Session} (reached : (session boost).Reachable s) :
    s.crashed = false → s.Books := by
  apply reached.invariant (fun s => s.crashed = false → s.Books)
  · exact fun s fresh _ => fresh.books
  · intro s e s' out before ih stepped alive
    obtain ⟨running, step⟩ := Session.step_cases stepped
    have books := ih running
    cases step with
    | line message => exact books.line
    | token granted tok rest pending => exact take_books (Session.parsing before running) books
    | complete place ok job found => exact complete_books books found

end Eiptnd.Wialon
