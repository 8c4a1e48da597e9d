import Eiptnd.Wialon.Course
import Eiptnd.Wialon.Session

/-! When the parser throws.

The one line that makes it throw is that of an image whose size is no number, on a
connection that has logged in. -/
namespace Eiptnd.Wialon

open Reactive

/-- A login with both of its fields. -/
def LogsIn (line : Str) : Prop :=
  ∃ record, body (tokens line) = some ("L".toList, record) ∧ record.length = 2

/-- An image with no field too many, but without a size that is a number. -/
def Unsized (boost : Boost) (line : Str) : Prop :=
  ∃ record, body (tokens line) = some ("I".toList, record) ∧ record.length ≤ 6 ∧
    record.head?.bind boost.lexicalCast = none

section Tokens

variable (boost : Boost) (granted : Bool) {opened : Bool} {c : Command} {p : Plugin}

/-! ### The end of a command -/

/-- Only an image can fail to commit, and only a complete login opens the connection. -/
private theorem commit_filling {record : List Str} (other : c ≠ .blackbox)
    (currentCmd : p.currentCmd = c) (authenticated : p.authenticated = opened)
    (rooted : p.tree ≠ none) (content : p.content = fieldTree c record)
    (complete : c = .login → p.isParserError = false → record.length = 2) :
    ((commitCommand boost granted p).fault = none ↔
        ¬ (c = .image ∧ record.head?.bind boost.lexicalCast = none)) ∧
      ((commitCommand boost granted p).state.authenticated = true ↔
        opened = true ∨ granted = true ∧ c = .login ∧ p.isParserError = false) := by
  obtain ⟨t, tree⟩ := Option.ne_none_iff_exists'.mp rooted
  have awaiting : ({ p with state := .binaryData } : Plugin).content = p.content := rfl
  rw [commitCommand]
  dsimp only
  rw [awaiting, content]
  simp only [tree, currentCmd]
  cases c with
  | blackbox => exact absurd rfl other
  | data => simp [storeData, authenticated]
  | shortdata => simp [storeData, authenticated]
  | message => simp [storeData, authenticated]
  | ping => simp [answer, authenticated]
  | login =>
    cases bad : p.isParserError with
    | true => simp [answer, authenticated]
    | false =>
      obtain ⟨imei, password, rfl⟩ := List.length_eq_two.mp (complete rfl bad)
      have first : (fieldTree .login [imei, password]).lookup "imei".toList = some imei := rfl
      have second : (fieldTree .login [imei, password]).lookup "password".toList = some password := rfl
      simp only [first, second]
      cases granted <;> simp [handleAuthenticate, answer, authenticated]
  | image =>
    have size : (fieldTree .image record).lookup "sz".toList = record.head? := by
      cases record <;> rfl
    simp only [size]
    cases first : record.head? with
    | none => simp [authenticated]
    | some sz => cases number : boost.lexicalCast sz <;> simp [number, authenticated]

private theorem filled_end {record : List Str} (other : c ≠ .blackbox)
    (filled : Filled opened c record p) :
    ((consumeEnd boost granted p).fault = none ↔
        ¬ (c = .image ∧ record.length ≤ 6 ∧ record.head?.bind boost.lexicalCast = none)) ∧
      ((consumeEnd boost granted p).state.authenticated = true ↔
        opened = true ∨ granted = true ∧ c = .login ∧ record.length = 2) := by
  rw [consumeEnd_fault, consumeEnd_authenticated]
  cases filled with
  | short here short filling =>
    -- A parser error is raised first, so that a login is rejected.
    obtain ⟨currentCmd, -, -, -, authenticated, t, tree, stored⟩ := filling
    have ended : ∃ message, endOfLine boost granted p =
        (parserError message p).andThen (commitCommand boost granted) := by
      simp only [endOfLine, here, currentCmd, ne_eq, other, not_false_eq_true, if_true]
      exact ⟨_, rfl⟩
    obtain ⟨message, ended⟩ := ended
    obtain ⟨fault, login⟩ := @commit_filling boost granted opened c { p with isParserError := true }
      record other currentCmd authenticated (by simp [tree])
      (by simp [Plugin.content, tree, stored]) (by simp)
    rw [ended, parserError, Outcome.emit_andThen]
    refine ⟨fault.trans ?_, login.trans ?_⟩
    · constructor
      · rintro fine ⟨rfl, -, unsized⟩
        exact fine ⟨rfl, unsized⟩
      · rintro fine ⟨rfl, unsized⟩
        exact fine ⟨rfl, Nat.le_of_lt_succ (short.trans_le (by decide)), unsized⟩
    · constructor
      · rintro (before | ⟨-, -, raised⟩)
        · exact Or.inl before
        · cases raised
      · rintro (before | ⟨-, rfl, complete⟩)
        · exact Or.inl before
        · exact absurd short (by simp [complete, fields])
  | full here full filling =>
    obtain ⟨currentCmd, -, -, clean, authenticated, t, tree, stored⟩ := filling
    have ended : endOfLine boost granted p = commitCommand boost granted p := by
      simp only [endOfLine, here]
    have complete : c = .login → record.length = 2 := by
      rintro rfl
      exact full
    obtain ⟨fault, login⟩ := @commit_filling boost granted opened c p record other currentCmd
      authenticated (by simp [tree]) (by simp [Plugin.content, tree, stored])
      (fun login _ => complete login)
    rw [ended]
    refine ⟨fault.trans ?_, login.trans ?_⟩
    · constructor
      · rintro fine ⟨rfl, -, unsized⟩
        exact fine ⟨rfl, unsized⟩
      · rintro fine ⟨rfl, unsized⟩
        exact fine ⟨rfl, full.le, unsized⟩
    · constructor
      · rintro (before | ⟨answered, login, -⟩)
        · exact Or.inl before
        · exact Or.inr ⟨answered, login, complete login⟩
      · rintro (before | ⟨answered, login, -⟩)
        · exact Or.inl before
        · exact Or.inr ⟨answered, login, clean⟩
  | long here long authenticated =>
    have ended : endOfLine boost granted p = .ok p := by simp only [endOfLine, here]
    rw [ended]
    refine ⟨⟨?_, fun _ => rfl⟩, ?_⟩
    · rintro - ⟨rfl, short, -⟩
      exact absurd long (Nat.not_lt.mpr short)
    · rw [Outcome.ok_state, authenticated]
      constructor
      · exact Or.inl
      · rintro (before | ⟨-, rfl, complete⟩)
        · exact before
        · exact absurd long (by simp [complete, fields])

end Tokens

/-! ### One line -/

theorem handleLine_initial {boost : Boost} {granted : Bool} {message : Str} {p : Plugin}
    (fine : (handleLine boost granted message p).fault = none) :
    (handleLine boost granted message p).state.state = .initial := by
  unfold handleLine at fine ⊢
  cases parsed : (parseString boost granted message p).fault with
  | some f => simp [Outcome.andThen, parsed] at fine
  | none =>
    rw [Outcome.andThen_of_fault_none _ _ parsed] at fine ⊢
    simp only [consumeToken, if_true] at fine ⊢
    exact consumeEnd_initial fine

section Line

variable {boost : Boost} {granted : Bool} {line : Str} {p : Plugin}

private theorem idle_line (unnamed : ∀ c record, body (tokens line) = some (Command.name c, record) →
      p.authenticated = false ∧ c ≠ .login) :
    ¬ (p.authenticated = true ∧ Unsized boost line) ∧ ¬ LogsIn line := by
  constructor
  · rintro ⟨opened, record, found, -⟩
    have closed := (unnamed .image record found).1
    rw [opened] at closed
    cases closed
  · rintro ⟨record, found, -⟩
    exact (unnamed .login record found).2 rfl

private theorem named_line {c : Command} {record : List Str}
    (found : body (tokens line) = some (c.name, record)) :
    (LogsIn line ↔ c = .login ∧ record.length = 2) ∧
      (Unsized boost line ↔
        c = .image ∧ record.length ≤ 6 ∧ record.head?.bind boost.lexicalCast = none) := by
  have login : c.name = "L".toList ↔ c = .login := by cases c <;> decide
  have image : c.name = "I".toList ↔ c = .image := by cases c <;> decide
  simp only [LogsIn, Unsized, found, Option.some.injEq, Prod.mk.injEq, login, image]
  constructor
  · constructor
    · rintro ⟨record', ⟨same, rfl⟩, two⟩
      exact ⟨same, two⟩
    · rintro ⟨same, two⟩
      exact ⟨record, ⟨same, rfl⟩, two⟩
  · constructor
    · rintro ⟨record', ⟨same, rfl⟩, unsized⟩
      exact ⟨same, unsized⟩
    · rintro ⟨same, unsized⟩
      exact ⟨record, ⟨same, rfl⟩, unsized⟩

/-- A line throws exactly when it is an image without a size, and opens the connection
exactly when it is a login that is granted. -/
theorem handleLine_cases (here : p.state = .initial) (unended : Lines.Open '\r' '\n' line) :
    ((handleLine boost granted line p).fault = none ↔
        ¬ (p.authenticated = true ∧ Unsized boost line)) ∧
      ((handleLine boost granted line p).state.authenticated = true ↔
        p.authenticated = true ∨ granted = true ∧ LogsIn line) := by
  have comes := handleLine_comes boost granted here unended
  generalize handleLine boost granted line p = r at comes
  cases comes with
  | idle idle quiet unnamed =>
    obtain ⟨returned, -, same⟩ := idle_end boost granted idle
    obtain ⟨sized, other⟩ := @idle_line boost _ _ unnamed
    simp [returned, same, sized, other]
  | package found inside =>
    obtain ⟨logs, unsized⟩ := @named_line boost _ _ _ found
    obtain ⟨returned, -, same⟩ := package_end boost granted inside
    simp [returned, same, logs, unsized]
  | filled found other allowed ended =>
    obtain ⟨logs, unsized⟩ := @named_line boost _ _ _ found
    obtain ⟨returned, login⟩ := filled_end boost granted other ended
    simp only [returned, login, logs, unsized]
    refine ⟨not_congr ?_, trivial⟩
    -- An image gets this far only on an open connection.
    refine ⟨fun image => ⟨allowed.resolve_right ?_, image⟩, fun image => image.2⟩
    rw [image.1]
    decide

end Line

/-- Between two lines the parser is in its initial state. -/
theorem Session.at_rest {boost : Boost} {s : Session} (reached : (session boost).Reachable s)
    (alive : s.crashed = false) (boundary : s.pending = []) : s.plugin.state = .initial := by
  have parsing := Session.parsing reached alive
  have between : s.consumed = [] := by
    rcases parsing.pending with ⟨-, nothing⟩ | ⟨toks, shape, -⟩
    · exact nothing
    · simp [boundary] at shape
  have placed := parsing.placed
  rw [between] at placed
  exact placed_nil.mp placed

/-- Between two lines of any run, the next line is handled without an exception exactly
when it is no image without a size, or the connection has not logged in. -/
theorem line_returns_iff {boost : Boost} {granted : Bool} {s : Session}
    (reached : (session boost).Reachable s) (alive : s.crashed = false) (boundary : s.pending = [])
    {line : Str} (unended : Lines.Open '\r' '\n' line) :
    (handleLine boost granted line s.plugin).fault = none ↔
      ¬ (s.plugin.authenticated = true ∧ Unsized boost line) :=
  (handleLine_cases (Session.at_rest reached alive boundary) unended).1

/-- `lexical_cast<std::size_t>`: the digits of a number in range, signed or not. -/
def castSize (s : Str) : Option Nat :=
  let (negative, digits) := match s with
    | '-' :: digits => (true, digits)
    | '+' :: digits => (false, digits)
    | digits => (false, digits)
  let n := digits.foldl (fun n c => 10 * n + (c.toNat - '0'.toNat)) 0
  if digits = [] ∨ digits.all Char.isDigit = false ∨ 2 ^ 64 ≤ n then none
  else some (if negative then (2 ^ 64 - n) % 2 ^ 64 else n)

/-- Boost on values that need no escapes, with its numbers. -/
def numeric : Boost := ⟨castSize, id⟩

/-- A connection after its login. -/
def opened : Session := (session numeric).after accepted (Event.whole "#L#i;p".toList)

theorem opened_reachable : (session numeric).Reachable opened := reachable_after numeric _

theorem opened_ready : opened.crashed = false ∧ opened.pending = [] ∧
    opened.plugin.authenticated = true := by decide +kernel

/-- An image of five bytes. -/
def imageLine : Str := "#I#5;0;1;010203;040506;n".toList

theorem line_returns_iff_image :
    (handleLine numeric true imageLine opened.plugin).fault = none ↔
      ¬ (opened.plugin.authenticated = true ∧ Unsized numeric imageLine) := by
  obtain ⟨alive, boundary, -⟩ := opened_ready
  exact line_returns_iff opened_reachable alive boundary (by decide)

/-- A size that is no number leaves the parser by an exception. -/
theorem line_throws : ¬ ∀ s, (session numeric).Reachable s → s.crashed = false → s.pending = [] →
    ∀ line, Lines.Open '\r' '\n' line → (handleLine numeric true line s.plugin).fault = none := by
  intro claimed
  obtain ⟨alive, boundary, -⟩ := opened_ready
  have returned := claimed opened opened_reachable alive boundary "#I#x".toList (by decide)
  exact absurd returned (by decide +kernel)

end Eiptnd.Wialon
