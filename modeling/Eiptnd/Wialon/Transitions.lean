import Eiptnd.Wialon.Parser

/-! What the handlers of the translator can do, and where in a line each parser
state belongs. -/
namespace Eiptnd.Wialon

open Reactive

/-! ### The reply buffer -/

theorem replyText_length (cmd message : Str) :
    (replyText cmd message).length = 2 + cmd.length + 1 + message.length + 2 := by
  simp [replyText, crlf]
  omega

/-- Whatever the buffer held before, the bytes sent are the reply's own first ones. -/
theorem answer_output (message : Str) (p : Plugin) : (answer message p).output =
    [.answer p.cmd message, .doWrite ((replyText p.cmd message).take answerCapacity)] := by
  simp only [answer, Outcome.emit_output, ← replyText_length, List.take_take]
  rw [List.take_append_of_le_length (Nat.min_le_left _ _), Nat.min_comm, ← List.take_take,
    List.take_length]

@[simp] theorem answer_fault (message : Str) (p : Plugin) : (answer message p).fault = none := rfl

/-- Replies to different commands, or with different codes, never look alike. -/
theorem replyText_inj {cmd cmd' message message' : Str} (plain : '#' ∉ cmd)
    (simple : '#' ∉ message) :
    replyText cmd message = replyText cmd' message' ↔ cmd = cmd' ∧ message = message' := by
  have simpleEnd : '#' ∉ message ++ crlf := by simp [simple, crlf]
  have cut : cmd ++ '#' :: (message ++ crlf) = cmd' ++ '#' :: (message' ++ crlf) ↔
      cmd = cmd' ∧ '#' = '#' ∧ message ++ crlf = message' ++ crlf :=
    List.append_cons_inj_of_notMem plain simpleEnd
  simp only [List.append_cancel_right_eq, true_and] at cut
  rw [← cut]
  simp [replyText]

/-! ### Counting effects -/

def Effect.isLogin : Effect → Bool
  | .authenticate _ _ => true
  | _ => false

def Effect.isError : Effect → Bool
  | .parserError _ => true
  | _ => false

/-- The replies among some effects, as bytes. -/
def replies (out : List Effect) : List Str :=
  out.filterMap fun
    | .doWrite reply => some reply
    | _ => none

/-- The calls of `answer` among some effects. -/
def answers (out : List Effect) : List (Str × Str) :=
  out.filterMap fun
    | .answer cmd message => some (cmd, message)
    | _ => none

/-- The trees handed over among some effects. -/
def deliveries (out : List Effect) : List Tree :=
  out.filterMap fun
    | .processData _ content => some content
    | _ => none

theorem answer_replies (message : Str) (p : Plugin) : replies (answer message p).output =
    [(replyText p.cmd message).take answerCapacity] := by
  rw [answer_output]
  rfl

theorem answer_answers (message : Str) (p : Plugin) :
    answers (answer message p).output = [(p.cmd, message)] := rfl

/-! ### Committing a command -/

/-- Everything the commit of a command can come to. -/
inductive Commits (granted : Bool) (p : Plugin) : Result → Prop
  | rejected : p.currentCmd = .login → p.isParserError = true →
      Commits granted p (answer "0".toList p)
  | asked (imei password : Str) : p.currentCmd = .login → p.isParserError = false →
      Commits granted p ((Outcome.emit p [.authenticate imei password]).andThen
        (handleAuthenticate granted))
  | stored : p.currentCmd = .data ∨ p.currentCmd = .shortdata ∨ p.currentCmd = .message →
      Commits granted p (storeData p)
  | pinged : p.currentCmd = .ping → Commits granted p (answer [] p)
  | acknowledged : p.currentCmd = .blackbox →
      Commits granted p (answer (decimal p.multicommand) p)
  | awaited (n : Nat) : p.currentCmd = .image →
      Commits granted p (.ok { p with state := .binaryData, estimate := n })
  | failed (state : ParserState) (f : Fault) : Commits granted p (.fail { p with state := state } f)

theorem commitCommand_cases (boost : Boost) (granted : Bool) (p : Plugin) :
    Commits granted p (commitCommand boost granted p) := by
  unfold commitCommand
  split
  · exact .failed p.state .nullTree
  · split
    next login =>
      split
      next bad => exact .rejected login bad
      next good =>
        split
        next imei password _ _ => exact .asked imei password login (by simpa using good)
        · exact .failed p.state .badPath
    next cmd => exact .stored (Or.inr (Or.inl cmd))
    next cmd => exact .stored (Or.inl cmd)
    next cmd => exact .pinged cmd
    next cmd => exact .stored (Or.inr (Or.inr cmd))
    -- Only an image goes on to the value of its size.
    next cmd => exact .acknowledged cmd
    next cmd =>
      dsimp only
      split
      · exact .failed .binaryData .badPath
      · split
        · exact .failed .binaryData .badLexicalCast
        next n _ => exact .awaited n cmd

theorem commitCommand_blackbox (boost : Boost) (granted : Bool) {p : Plugin}
    (blackbox : p.currentCmd = .blackbox) (rooted : p.tree ≠ none) :
    commitCommand boost granted p = answer (decimal p.multicommand) p := by
  obtain ⟨t, tree⟩ := Option.ne_none_iff_exists'.mp rooted
  simp [commitCommand, tree, blackbox]

/-! ### Ending a line -/

/-- Everything the end of a line can come to before the parser is reset. -/
inductive Ends (boost : Boost) (granted : Bool) (p : Plugin) : Result → Prop
  | cut (message : Str) : p.state = .body → p.currentCmd ≠ .blackbox →
      Ends boost granted p ((parserError message p).andThen (commitCommand boost granted))
  | last : p.state = .body ∧ p.currentCmd = .blackbox ∨ p.state = .bar →
      Ends boost granted p ((storeData p).andThen (commitCommand boost granted))
  | done : p.state = .skipToBarOrEnd ∨ p.state = .end_ →
      Ends boost granted p (commitCommand boost granted p)
  | misplaced (message : Str) :
      p.state = .command ∨ p.state = .hashFirst ∨ p.state = .hashSecond →
      Ends boost granted p (parserError message p)
  | idle : p.state = .initial ∨ p.state = .imei ∨ p.state = .skipToEnd ∨ p.state = .binaryData →
      Ends boost granted p (.ok p)

theorem endOfLine_cases (boost : Boost) (granted : Bool) (p : Plugin) :
    Ends boost granted p (endOfLine boost granted p) := by
  unfold endOfLine
  split
  next here =>
    split
    next other => exact .cut _ here other
    next blackbox => exact .last (Or.inl ⟨here, by simpa using blackbox⟩)
  next here => exact .last (Or.inr here)
  next here => exact .done (Or.inl here)
  next here =>
    split <;> exact .misplaced _ (Or.inl here)
  next here => exact .misplaced _ (Or.inr (Or.inl here))
  next here => exact .misplaced _ (Or.inr (Or.inr here))
  next here => exact .done (Or.inr here)
  next here => exact .idle (Or.inl here)
  next here => exact .idle (Or.inr (Or.inl here))
  next here => exact .idle (Or.inr (Or.inr (Or.inl here)))
  next here => exact .idle (Or.inr (Or.inr (Or.inr here)))

/-! ### Any other token -/

/-- Everything a token that does not end the line can do. -/
inductive Consumes (tok : Str) (p : Plugin) : Result → Prop
  | begun : p.state = .initial → Consumes tok p (consumeInitial p)
  -- One token further, or on to the next record of a package.
  | hashed (next : ParserState) : p.state = .imei ∧ next = .hashFirst ∨
        p.state = .hashFirst ∧ tok = "#".toList ∧ next = .command ∨
        p.state = .hashSecond ∧ tok = "#".toList ∧ next = .body ∨
        p.state = .skipToBarOrEnd ∧ tok = "|".toList ∧ next = .body →
      Consumes tok p (.ok { p with state := next })
  | refused (message : Str) :
      p.state = .hashFirst ∨ p.state = .hashSecond ∨ p.state = .end_ →
      Consumes tok p (parserError message { p with state := .skipToEnd })
  | unknown (message : Str) : p.state = .command → estimates.lookup tok = none →
      Consumes tok p (parserError message { p with cmd := tok, state := .skipToEnd })
  | barred (estimate : Nat) (cmd : Command) : p.state = .command →
      estimates.lookup tok = some (estimate, cmd) →
      p.authenticated = false → cmd ≠ .login →
      Consumes tok p (.ok { p with
        cmd := tok, estimate := estimate, currentCmd := cmd, state := .skipToEnd })
  | named (estimate : Nat) (cmd : Command) : p.state = .command →
      estimates.lookup tok = some (estimate, cmd) →
      p.authenticated = true ∨ cmd = .login →
      Consumes tok p (.ok { p with
        cmd := tok, estimate := estimate, currentCmd := cmd, state := .hashSecond })
  | recorded (estimate : Nat) (cmd : Command) : p.state = .body → p.currentCmd = .blackbox →
      tok = "|".toList → estimates.lookup p.cmd = some (estimate, cmd) →
      Consumes tok p (.emit { p with estimate := estimate, currentCmd := cmd }.newTree
        [.processData p.tree p.content])
  | field (estimate : Nat) (trees : List Tree) (next : ParserState) : p.state = .body →
      next = .body ∨ next = .end_ ∧ p.currentCmd ≠ .blackbox ∨
        next = .bar ∧ p.currentCmd = .blackbox →
      Consumes tok p (.ok { p with estimate := estimate, trees := trees, state := next })
  | separated : p.state = .bar → tok = "|".toList →
      Consumes tok p (.emit { p with state := .body } [.processData p.tree p.content])
  | overlong (message : Str) : p.state = .bar → tok ≠ "|".toList →
      Consumes tok p (.emit { p with state := .skipToBarOrEnd, isParserError := true }
        [.parserError message, .processData p.tree p.content])
  | skipped : p.state = .skipToBarOrEnd ∨ p.state = .skipToEnd ∨ p.state = .binaryData →
      Consumes tok p (.ok p)
  | failed (f : Fault) : p.state = .body → Consumes tok p (.fail p f)
  | unfiled : p.state = .body → p.currentCmd = .blackbox → estimates.lookup p.cmd = none →
      Consumes tok p ⟨p, [.processData p.tree p.content], some .outOfRange⟩

private theorem consumeCommand_cases {tok : Str} {p : Plugin} (here : p.state = .command) :
    Consumes tok p (consumeCommand tok p) := by
  unfold consumeCommand
  dsimp only
  split
  next missing => exact .unknown _ here missing
  next estimate cmd found =>
    split
    next closed =>
      simp only [Bool.and_eq_true, Bool.not_eq_true', decide_eq_true_eq] at closed
      exact .barred estimate cmd here found closed.1 closed.2
    next opened =>
      simp only [Bool.and_eq_true, Bool.not_eq_true', decide_eq_true_eq, not_and, not_not]
        at opened
      -- Whoever gets past the check has logged in or is about to.
      refine .named estimate cmd here found ?_
      cases locked : p.authenticated with
      | true => exact Or.inl rfl
      | false => exact Or.inr (opened locked)

private theorem consumeField_cases (tok : Str) (p : Plugin) :
    (∃ f, consumeField tok p = .fail p f) ∨
      ∃ estimate trees, consumeField tok p = .ok { p with estimate := estimate, trees := trees } := by
  unfold consumeField
  split
  · exact Or.inr ⟨p.estimate, p.trees, rfl⟩
  · split
    · exact Or.inl ⟨_, rfl⟩
    · split
      · exact Or.inl ⟨_, rfl⟩
      · exact Or.inr ⟨_, _, rfl⟩

private theorem consumeBody_cases {tok : Str} {p : Plugin} (here : p.state = .body) :
    Consumes tok p (consumeBody tok p) := by
  unfold consumeBody
  split
  next bar =>
    simp only [storeData, Outcome.emit_andThen]
    split
    next missing => exact .unfiled here bar.1 missing
    next estimate cmd found => exact .recorded estimate cmd here bar.1 bar.2 found
  next =>
    rcases consumeField_cases tok p with ⟨f, failed⟩ | ⟨estimate, trees, put⟩
    · rw [failed, Outcome.fail_andThen]
      exact .failed f here
    · rw [put, Outcome.ok_andThen]
      dsimp only
      split
      -- The last field of a record: only a package may go on.
      next complete =>
        by_cases blackbox : p.currentCmd = .blackbox
        · simp only [blackbox, ne_eq, not_true_eq_false, if_false]
          have step : Consumes tok p _ := .field estimate trees .bar here
            (Or.inr (Or.inr ⟨rfl, blackbox⟩))
          simpa only [blackbox] using step
        · simp only [ne_eq, blackbox, not_false_eq_true, if_true]
          exact .field estimate trees .end_ here (Or.inr (Or.inl ⟨rfl, blackbox⟩))
      next =>
        have step : Consumes tok p _ := .field estimate trees .body here (Or.inl rfl)
        simpa only [← here] using step

theorem consumeToken_cases (boost : Boost) (granted : Bool) {tok : Str} (notEnd : tok ≠ crlf)
    (p : Plugin) : Consumes tok p (consumeToken boost granted tok p) := by
  unfold consumeToken
  rw [if_neg notEnd]
  split
  next here => exact .begun here
  next here => exact .hashed .hashFirst (Or.inl ⟨here, rfl⟩)
  next here => exact consumeCommand_cases here
  next here => exact consumeBody_cases here
  next here =>
    split
    next hash => exact .hashed .command (Or.inr (Or.inl ⟨here, hash, rfl⟩))
    next => exact .refused _ (Or.inl here)
  next here =>
    split
    next hash => exact .hashed .body (Or.inr (Or.inr (Or.inl ⟨here, hash, rfl⟩)))
    next => exact .refused _ (Or.inr (Or.inl here))
  next here =>
    split
    next bar =>
      rw [Outcome.ok_andThen]
      exact .separated here bar
    next other => exact .overlong _ here other
  next here =>
    split
    next bar => exact .hashed .body (Or.inr (Or.inr (Or.inr ⟨here, bar, rfl⟩)))
    next => exact .skipped (Or.inl here)
  next here => exact .refused _ (Or.inr (Or.inr here))
  next here => exact .skipped (Or.inr (Or.inl here))
  next here => exact .skipped (Or.inr (Or.inr here))

/-! ### What a step leaves alone -/

/-- The command that is being read and its counter are the same. -/
structure Kept (p q : Plugin) : Prop where
  cmd : q.cmd = p.cmd
  currentCmd : q.currentCmd = p.currentCmd
  multicommand : q.multicommand = p.multicommand

theorem Kept.refl (p : Plugin) : Kept p p := ⟨rfl, rfl, rfl⟩

theorem Kept.trans {p q r : Plugin} (first : Kept p q) (second : Kept q r) : Kept p r :=
  ⟨second.cmd.trans first.cmd, second.currentCmd.trans first.currentCmd,
    second.multicommand.trans first.multicommand⟩

theorem answer_kept (message : Str) (p : Plugin) : Kept p (answer message p).state :=
  ⟨rfl, rfl, rfl⟩

theorem handleAuthenticate_kept (ok : Bool) (p : Plugin) :
    Kept p (handleAuthenticate ok p).state := by
  cases ok <;> exact ⟨rfl, rfl, rfl⟩

theorem commitCommand_kept (boost : Boost) (granted : Bool) (p : Plugin) :
    Kept p (commitCommand boost granted p).state := by
  have commit := commitCommand_cases boost granted p
  generalize commitCommand boost granted p = r at commit
  cases commit with
  | rejected => exact answer_kept _ p
  | asked imei password => exact handleAuthenticate_kept granted p
  | stored => exact .refl p
  | pinged => exact answer_kept _ p
  | acknowledged => exact answer_kept _ p
  | awaited => exact ⟨rfl, rfl, rfl⟩
  | failed => exact ⟨rfl, rfl, rfl⟩

theorem endOfLine_kept (boost : Boost) (granted : Bool) (p : Plugin) :
    Kept p (endOfLine boost granted p).state := by
  have ended := endOfLine_cases boost granted p
  generalize endOfLine boost granted p = r at ended
  cases ended with
  -- The parser error is raised before the commit, which must not see another command.
  | cut message =>
    obtain ⟨cmd, currentCmd, multicommand⟩ :=
      commitCommand_kept boost granted { p with isParserError := true }
    exact ⟨cmd, currentCmd, multicommand⟩
  | last => exact commitCommand_kept boost granted p
  | done => exact commitCommand_kept boost granted p
  | misplaced => exact ⟨rfl, rfl, rfl⟩
  | idle => exact .refl p

theorem consumeEnd_kept (boost : Boost) (granted : Bool) (p : Plugin) :
    Kept p (consumeEnd boost granted p).state := by
  apply Outcome.andThen_state (Kept p) _ _ (endOfLine_kept boost granted p)
  intro q kept
  exact kept.trans ⟨rfl, rfl, rfl⟩

theorem consumeEnd_output (boost : Boost) (granted : Bool) (p : Plugin) :
    (consumeEnd boost granted p).output = (endOfLine boost granted p).output := by
  unfold consumeEnd Outcome.andThen
  split <;> simp

theorem consumeEnd_fault (boost : Boost) (granted : Bool) (p : Plugin) :
    (consumeEnd boost granted p).fault = (endOfLine boost granted p).fault := by
  unfold consumeEnd Outcome.andThen
  split <;> simp_all

/-- A line that ends without a fault leaves the parser ready for the next one. -/
theorem consumeEnd_initial {boost : Boost} {granted : Bool} {p : Plugin}
    (fine : (consumeEnd boost granted p).fault = none) :
    (consumeEnd boost granted p).state.state = .initial := by
  rw [consumeEnd_fault] at fine
  simp [consumeEnd, Outcome.andThen_of_fault_none _ _ fine]

/-- A completion only counts or answers. -/
structure Counted (p q : Plugin) : Prop where
  state : q.state = p.state
  cmd : q.cmd = p.cmd
  currentCmd : q.currentCmd = p.currentCmd
  authenticated : q.authenticated = p.authenticated
  isParserError : q.isParserError = p.isParserError
  tree : q.tree = p.tree

theorem handleProcessData_counted (ok : Bool) (p : Plugin) :
    Counted p (handleProcessData ok p).state := by
  unfold handleProcessData
  split
  · exact ⟨rfl, rfl, rfl, rfl, rfl, rfl⟩
  · split
    · exact ⟨rfl, rfl, rfl, rfl, rfl, rfl⟩
    · split <;> exact ⟨rfl, rfl, rfl, rfl, rfl, rfl⟩

/-! ### Where in a line each state belongs -/

/-- The line has named a command the connection may use, and the parser is in it. -/
structure Active (consumed : List Str) (p : Plugin) : Prop where
  named : consumed[2]? = some p.cmd
  known : ∃ estimate, estimates.lookup p.cmd = some (estimate, p.currentCmd)
  allowed : p.authenticated = true ∨ p.currentCmd = .login

/-- The parser state fits the tokens of the line consumed so far. -/
def Placed (consumed : List Str) (p : Plugin) : Prop :=
  match p.state with
  | .initial => consumed = []
  | .hashFirst => consumed.length = 1 ∧ p.cmd = notInitialized
  | .command => consumed.length = 2 ∧ p.cmd = notInitialized
  | .hashSecond | .body => Active consumed p
  | .end_ => Active consumed p ∧ p.currentCmd ≠ .blackbox
  | .bar | .skipToBarOrEnd => Active consumed p ∧ p.currentCmd = .blackbox
  | .skipToEnd => consumed ≠ []
  | .imei | .binaryData => False

theorem Active.longer {consumed : List Str} {p q : Plugin} (active : Active consumed p)
    (tok : Str) (cmd : q.cmd = p.cmd) (currentCmd : q.currentCmd = p.currentCmd)
    (authenticated : q.authenticated = p.authenticated) : Active (consumed ++ [tok]) q := by
  obtain ⟨named, known, allowed⟩ := active
  refine ⟨?_, ?_, ?_⟩
  · rw [cmd]
    -- The third token stays the third.
    obtain ⟨bound, found⟩ := List.getElem?_eq_some_iff.mp named
    rw [List.getElem?_append_left bound, named]
  · rw [cmd, currentCmd]
    exact known
  · rw [authenticated, currentCmd]
    exact allowed

theorem placed_congr {consumed : List Str} {p q : Plugin} (same : Counted p q) :
    Placed consumed q ↔ Placed consumed p := by
  obtain ⟨state, cmd, currentCmd, authenticated, -, -⟩ := same
  have active : Active consumed q ↔ Active consumed p := by
    constructor
    · rintro ⟨named, known, allowed⟩
      rw [cmd] at named known
      rw [currentCmd] at known allowed
      rw [authenticated] at allowed
      exact ⟨named, known, allowed⟩
    · rintro ⟨named, known, allowed⟩
      refine ⟨?_, ?_, ?_⟩
      · rw [cmd]; exact named
      · rw [cmd, currentCmd]; exact known
      · rw [authenticated, currentCmd]; exact allowed
  unfold Placed
  rw [state, cmd, currentCmd]
  cases p.state <;> simp only [active]

/-- At the start of a line the parser is in its initial state. -/
theorem placed_nil {p : Plugin} : Placed [] p ↔ p.state = .initial := by
  rw [Placed]
  constructor
  · intro placed
    -- A line without tokens has named no command.
    have inactive : ¬ Active [] p := fun active => by simpa using active.named
    cases here : p.state <;> simp [here, inactive] at placed ⊢
  · intro here
    simp [here]

/-- A state in which a command is being read is an active one. -/
theorem Placed.active {consumed : List Str} {p : Plugin} (placed : Placed consumed p)
    (here : p.state = .hashSecond ∨ p.state = .body ∨ p.state = .bar ∨
      p.state = .skipToBarOrEnd ∨ p.state = .end_) : Active consumed p := by
  rw [Placed] at placed
  rcases here with here | here | here | here | here <;> rw [here] at placed
  · exact placed
  · exact placed
  · exact placed.1
  · exact placed.1
  · exact placed.1

/-- Each token keeps the parser state in its place. -/
theorem consumeToken_placed (boost : Boost) (granted : Bool) {tok : Str} (notEnd : tok ≠ crlf)
    {consumed : List Str} {p : Plugin} (placed : Placed consumed p) :
    Placed (consumed ++ [tok]) (consumeToken boost granted tok p).state := by
  have step := consumeToken_cases boost granted notEnd p
  generalize consumeToken boost granted tok p = r at step
  cases step with
  | begun here =>
    simp only [Placed, here] at placed
    simp [Placed, consumeInitial, placed]
  | hashed next change =>
    rcases change with ⟨here, -⟩ | ⟨here, -, rfl⟩ | ⟨here, -, rfl⟩ | ⟨here, -, rfl⟩ <;>
      simp only [Placed, here] at placed ⊢ <;> simp only [Outcome.ok_state]
    · simpa using placed
    · exact placed.longer tok rfl rfl rfl
    · exact placed.1.longer tok rfl rfl rfl
  | refused => simp [Placed, parserError]
  | unknown => simp [Placed, parserError]
  | barred => simp [Placed]
  | named estimate cmd here found allowed =>
    simp only [Placed, here] at placed
    refine ⟨?_, ⟨estimate, found⟩, allowed⟩
    simp [placed.1]
  | recorded estimate cmd here blackbox _ found =>
    -- The command is looked up again, under the name it was found by.
    have active := placed.active (Or.inr (Or.inl here))
    obtain ⟨known, lookup⟩ := active.known
    have same : cmd = p.currentCmd := by
      rw [lookup] at found
      cases found
      rfl
    simp only [Placed, Plugin.newTree, Outcome.emit_state, here]
    exact active.longer tok rfl same rfl
  | field estimate trees next here change =>
    have active := placed.active (Or.inr (Or.inl here))
    -- A field moves the parser on only to where its command allows.
    have longer (q : Plugin) := active.longer (q := q) tok
    rcases change with rfl | ⟨rfl, other⟩ | ⟨rfl, blackbox⟩
    · exact longer _ rfl rfl rfl
    · exact ⟨longer _ rfl rfl rfl, other⟩
    · exact ⟨longer _ rfl rfl rfl, blackbox⟩
  | separated here =>
    exact (placed.active (Or.inr (Or.inr (Or.inl here)))).longer tok rfl rfl rfl
  | overlong message here =>
    simp only [Placed, here] at placed
    exact ⟨placed.1.longer tok rfl rfl rfl, placed.2⟩
  | skipped here =>
    rcases here with here | here | here <;>
      simp only [Placed, here, Outcome.ok_state] at placed ⊢
    · exact ⟨placed.1.longer tok rfl rfl rfl, placed.2⟩
    · simp
  | failed f here =>
    simp only [Placed, here, Outcome.fail_state]
    exact (placed.active (Or.inr (Or.inl here))).longer tok rfl rfl rfl
  | unfiled here =>
    simp only [Placed, here]
    exact (placed.active (Or.inr (Or.inl here))).longer tok rfl rfl rfl

/-- Between the first token of a line and its end the command changes only where
one is named. -/
theorem consumeToken_kept (boost : Boost) (granted : Bool) {tok : Str} (notEnd : tok ≠ crlf)
    {consumed : List Str} {p : Plugin} (placed : Placed consumed p)
    (later : p.state ≠ .initial) (unnamed : p.state ≠ .command) :
    Kept p (consumeToken boost granted tok p).state := by
  have step := consumeToken_cases boost granted notEnd p
  generalize consumeToken boost granted tok p = r at step
  cases step with
  | begun here => exact absurd here later
  | unknown _ here => exact absurd here unnamed
  | barred _ _ here => exact absurd here unnamed
  | named _ _ here => exact absurd here unnamed
  -- The bar looks the command up again and finds the one it has.
  | recorded estimate cmd here blackbox _ found =>
    obtain ⟨known, lookup⟩ := (placed.active (Or.inr (Or.inl here))).known
    rw [lookup] at found
    cases found
    exact ⟨rfl, rfl, rfl⟩
  | _ => exact ⟨rfl, rfl, rfl⟩

/-! ### Storing data -/

/-- The command of a record: one whose data are stored. -/
def Command.Stores (c : Command) : Prop :=
  c = .data ∨ c = .shortdata ∨ c = .message ∨ c = .blackbox

private theorem commitCommand_stores {boost : Boost} {granted : Bool} {p : Plugin}
    (called : deliveries (commitCommand boost granted p).output ≠ []) : p.currentCmd.Stores := by
  have commit := commitCommand_cases boost granted p
  generalize commitCommand boost granted p = r at commit called
  cases commit with
  | rejected => simp [deliveries, answer_output] at called
  | asked imei password =>
    cases granted <;> simp [deliveries, handleAuthenticate, answer_output] at called
  | stored cmd =>
    rcases cmd with cmd | cmd | cmd
    · exact Or.inl cmd
    · exact Or.inr (Or.inl cmd)
    · exact Or.inr (Or.inr (Or.inl cmd))
  | pinged => simp [deliveries, answer_output] at called
  -- Nothing is stored here, but the command is one of those that store.
  | acknowledged cmd => exact Or.inr (Or.inr (Or.inr cmd))
  | awaited => simp [deliveries] at called
  | failed => simp [deliveries] at called

/-- Data are stored only for a command the line has named and the connection may use. -/
theorem consumeToken_stores {boost : Boost} {granted : Bool} {tok : Str} {consumed : List Str}
    {p : Plugin} (placed : Placed consumed p)
    (called : deliveries (consumeToken boost granted tok p).output ≠ []) :
    Active consumed p ∧ p.currentCmd.Stores := by
  by_cases ends : tok = crlf
  · rw [consumeToken, if_pos ends, consumeEnd_output] at called
    have ended := endOfLine_cases boost granted p
    generalize endOfLine boost granted p = r at ended called
    cases ended with
    | cut message here other =>
      refine ⟨placed.active (Or.inr (Or.inl here)), ?_⟩
      -- The commit sees the raised error, which is no matter to what it stores.
      have commit : _ → p.currentCmd.Stores :=
        @commitCommand_stores boost granted { p with isParserError := true }
      simp only [parserError, Outcome.emit_andThen, deliveries, List.singleton_append,
        List.filterMap_cons] at called commit
      exact commit called
    | last here =>
      rcases here with ⟨here, blackbox⟩ | here
      · exact ⟨placed.active (Or.inr (Or.inl here)), Or.inr (Or.inr (Or.inr blackbox))⟩
      · simp only [Placed, here] at placed
        exact ⟨placed.1, Or.inr (Or.inr (Or.inr placed.2))⟩
    | done here =>
      refine ⟨placed.active ?_, commitCommand_stores called⟩
      rcases here with here | here
      · exact Or.inr (Or.inr (Or.inr (Or.inl here)))
      · exact Or.inr (Or.inr (Or.inr (Or.inr here)))
    | misplaced => simp [deliveries, parserError] at called
    | idle => simp [deliveries] at called
  · have step := consumeToken_cases boost granted ends p
    generalize consumeToken boost granted tok p = r at step called
    cases step with
    -- Of the other tokens only the bars store, and only within a package.
    | recorded _ _ here blackbox =>
      exact ⟨placed.active (Or.inr (Or.inl here)), Or.inr (Or.inr (Or.inr blackbox))⟩
    | separated here =>
      simp only [Placed, here] at placed
      exact ⟨placed.1, Or.inr (Or.inr (Or.inr placed.2))⟩
    | overlong _ here =>
      simp only [Placed, here] at placed
      exact ⟨placed.1, Or.inr (Or.inr (Or.inr placed.2))⟩
    | unfiled here blackbox =>
      exact ⟨placed.active (Or.inr (Or.inl here)), Or.inr (Or.inr (Or.inr blackbox))⟩
    | _ => simp [deliveries, parserError, consumeInitial] at called

/-! ### What a line accumulates -/

/-- Within a line the tree stays, a parser error stays raised, and only an
`authenticate` request answered with true opens the connection. -/
structure Progress (granted : Bool) (p : Plugin) (r : Result) : Prop where
  tree : p.tree ≠ none → r.state.tree ≠ none
  error : p.isParserError = true ∨ r.output.any Effect.isError = true →
    r.state.isParserError = true
  login : r.state.authenticated = true →
    p.authenticated = true ∨ granted = true ∧ r.output.any Effect.isLogin = true

private theorem Progress.quiet {granted : Bool} {p : Plugin} {r : Result}
    (tree : p.tree ≠ none → r.state.tree ≠ none)
    (error : r.state.isParserError = p.isParserError)
    (silent : r.output.any Effect.isError = false)
    (login : r.state.authenticated = p.authenticated) : Progress granted p r := by
  -- Nothing new is raised, so that only an old error counts.
  refine ⟨tree, ?_, fun opened => Or.inl (login ▸ opened)⟩
  rintro (old | new)
  · rw [error, old]
  · rw [silent] at new
    cases new

private theorem Progress.after {granted : Bool} {p q : Plugin} {r : Result} {out : List Effect}
    (next : Progress granted q r) (tree : p.tree ≠ none → q.tree ≠ none)
    (error : p.isParserError = true ∨ out.any Effect.isError = true → q.isParserError = true)
    (login : q.authenticated = p.authenticated) :
    Progress granted p ⟨r.state, out ++ r.output, r.fault⟩ := by
  refine ⟨fun rooted => next.tree (tree rooted), ?_, ?_⟩
  · intro raised
    simp only [List.any_append, Bool.or_eq_true] at raised
    apply next.error
    rcases raised with old | mid | new
    · exact Or.inl (error (Or.inl old))
    · exact Or.inl (error (Or.inr mid))
    · exact Or.inr new
  · intro opened
    rcases next.login opened with before | ⟨answer, asked⟩
    · exact Or.inl (login ▸ before)
    · exact Or.inr ⟨answer, by simp [asked]⟩

theorem commitCommand_progress (boost : Boost) (granted : Bool) (p : Plugin) :
    Progress granted p (commitCommand boost granted p) := by
  have commit := commitCommand_cases boost granted p
  generalize commitCommand boost granted p = r at commit
  cases commit with
  | rejected => exact .quiet id rfl (by simp [answer_output, Effect.isError]) rfl
  | asked imei password =>
    cases granted with
    | false =>
      exact .quiet id rfl (by simp [handleAuthenticate, answer_output, Effect.isError]) rfl
    -- Here, and only here, the connection is opened.
    | true =>
      refine ⟨id, ?_, fun _ => Or.inr ⟨rfl, rfl⟩⟩
      rintro (old | new)
      · exact old
      · simp [handleAuthenticate, answer_output, Effect.isError] at new
  | pinged => exact .quiet id rfl (by simp [answer_output, Effect.isError]) rfl
  | acknowledged => exact .quiet id rfl (by simp [answer_output, Effect.isError]) rfl
  | _ => exact .quiet id rfl rfl rfl

theorem consumeEnd_progress (boost : Boost) (granted : Bool) (p : Plugin) :
    Progress granted p (consumeEnd boost granted p) := by
  have end_progress : Progress granted p (endOfLine boost granted p) := by
    have ended := endOfLine_cases boost granted p
    generalize endOfLine boost granted p = r at ended
    cases ended with
    | cut => exact (commitCommand_progress boost granted _).after id (fun _ => rfl) rfl
    | last =>
      refine (commitCommand_progress boost granted p).after id ?_ rfl
      rintro (old | new)
      · exact old
      · cases new
    | done => exact commitCommand_progress boost granted p
    | misplaced => exact ⟨id, fun _ => rfl, Or.inl⟩
    | idle => exact .quiet id rfl rfl rfl
  obtain ⟨tree, error, login⟩ := end_progress
  unfold consumeEnd Outcome.andThen
  split
  · exact ⟨tree, error, login⟩
  · exact ⟨tree, by simpa using error, by simpa using login⟩

theorem consumeToken_progress (boost : Boost) (granted : Bool) {tok : Str} {p : Plugin}
    (begun : tok = crlf ∨ p.state ≠ .initial) :
    Progress granted p (consumeToken boost granted tok p) := by
  by_cases ends : tok = crlf
  · rw [consumeToken, if_pos ends]
    exact consumeEnd_progress boost granted p
  · have later := begun.resolve_left ends
    have step := consumeToken_cases boost granted ends p
    generalize consumeToken boost granted tok p = r at step
    cases step with
    | begun here => exact absurd here later
    | refused => exact ⟨id, fun _ => rfl, Or.inl⟩
    | unknown => exact ⟨id, fun _ => rfl, Or.inl⟩
    | overlong => exact ⟨id, fun _ => rfl, Or.inl⟩
    | recorded => exact .quiet (by simp [Plugin.newTree]) rfl rfl rfl
    | _ => exact .quiet id rfl rfl rfl

end Eiptnd.Wialon
