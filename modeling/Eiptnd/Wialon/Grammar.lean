import Eiptnd.Wialon.Exceptions

/-! Which lines are taken as good.

A login and a message are taken only from a line in the grammar. A record of data is
also taken from a body cut short or with a separator for a field, and a ping from a
body of one field. -/
namespace Eiptnd.Wialon

open Reactive

/-- A field without a delimiter in it. -/
abbrev Plain (field : Str) : Prop := Tokens.Free (· == ';') (fun c => c == '#' || c == '|') field

/-- `p#C#b`, with as many fields in `b` as the command has. -/
def Grammar (c : Command) (line : Str) : Prop :=
  ∃ start record, Plain start ∧ record.length = (fields c).length ∧
    (∀ field ∈ record, Plain field) ∧
    line = start ++ '#' :: (c.name ++ '#' :: [';'].intercalate record)

/-- The line has been taken as a good one of the command. -/
def Accepted (c : Command) (r : Result) : Prop :=
  match c with
  | .login => ∃ imei password, .authenticate imei password ∈ calls r.output
  | .data | .shortdata | .message =>
    r.state.currentCmd = c ∧ ∃ content, .processData content ∈ calls r.output
  | .ping => .doWrite "#AP#\r\n".toList ∈ calls r.output
  | .blackbox | .image => False

/-- The parser takes a record of these tokens for the command. -/
def Taken (c : Command) (record : List Str) : Prop :=
  match c with
  | .login | .message | .ping => record.length = max 1 (fields c).length
  | .data | .shortdata => record.length ≤ (fields c).length
  | .blackbox | .image => False

/-- A record of data with too few tokens, or with a separator for a field, or a ping with
something in its body. -/
def Lax (line : Str) : Prop :=
  ∃ c record, body (tokens line) = some (Command.name c, record) ∧
    ((c = .data ∨ c = .shortdata) ∧ record.length ≤ (fields c).length ∧
        (record.length < (fields c).length ∨ "#".toList ∈ record ∨ "|".toList ∈ record) ∨
      c = .ping ∧ record.length = 1 ∧ record ≠ [[]])

/-! ### The grammar by its tokens -/

/-- The tokens of a body. -/
private abbrev bodyTokens (b : Str) : List Str :=
  Tokens.pieces (· == ';') (fun c => c == '#' || c == '|') b

private theorem name_plain (c : Command) : Plain c.name := by
  cases c <;> simp [Command.name, Tokens.Free]

private theorem tokens_body {start b : Str} {c : Command} (first : Plain start) :
    tokens (start ++ '#' :: (c.name ++ '#' :: b)) =
      start :: "#".toList :: c.name :: "#".toList :: bodyTokens b := by
  rw [tokens, Tokens.tokens_of_ne_nil (by simp), Tokens.pieces_append_kept first rfl,
    Tokens.pieces_append_kept (name_plain c) rfl]
  rfl

/-- A line that names a command, with its body in one piece. -/
private theorem body_pieces {line : Str} {c : Command} {record : List Str}
    (found : body (tokens line) = some (c.name, record)) :
    ∃ start b, Plain start ∧ line = start ++ '#' :: (c.name ++ '#' :: b) ∧ bodyTokens b = record := by
  obtain ⟨start, shape⟩ := body_eq_some.mp found
  have some : line ≠ [] := by
    rintro rfl
    cases shape
  rw [tokens, Tokens.tokens_of_ne_nil some] at shape
  obtain ⟨first, rest, rfl, later⟩ := Tokens.pieces_kept_inv rfl shape
  obtain ⟨-, b, rfl, last⟩ := Tokens.pieces_kept_inv rfl later
  exact ⟨start, b, first, rfl, last⟩

/-- Only the hash and the bar are kept. -/
private theorem kept_iff {record : List Str} :
    (∀ k, (k == '#' || k == '|') = true → [k] ∉ record) ↔
      "#".toList ∉ record ∧ "|".toList ∉ record := by
  constructor
  · intro clean
    exact ⟨clean '#' rfl, clean '|' rfl⟩
  · rintro ⟨hash, bar⟩ k kept
    simp only [Bool.or_eq_true, beq_iff_eq] at kept
    rcases kept with rfl | rfl
    · exact hash
    · exact bar

private theorem body_joined {b : Str}
    (clean : "#".toList ∉ bodyTokens b ∧ "|".toList ∉ bodyTokens b) :
    b = [';'].intercalate (bodyTokens b) ∧ ∀ field ∈ bodyTokens b, Plain field :=
  Tokens.joined_of_pieces (by simp) (kept_iff.mpr clean)

/-- A body of up to two tokens has no separator among them. -/
private theorem body_short {b : Str} (short : (bodyTokens b).length ≤ 2) :
    "#".toList ∉ bodyTokens b ∧ "|".toList ∉ bodyTokens b :=
  kept_iff.mp (Tokens.plain_of_short short)

private theorem joined_body {record : List Str} (some : record ≠ [])
    (free : ∀ field ∈ record, Plain field) : bodyTokens ([';'].intercalate record) = record :=
  (Tokens.pieces_joined rfl rfl record some free).1

/-- The tokens of a line in the grammar are its fields. -/
theorem grammar_body {start : Str} {c : Command} {record : List Str} (first : Plain start)
    (some : record ≠ []) (free : ∀ field ∈ record, Plain field) :
    body (tokens (start ++ '#' :: (c.name ++ '#' :: [';'].intercalate record))) =
      .some (c.name, record) := by
  rw [tokens_body first, joined_body some free]
  exact body_eq_some.mpr ⟨start, rfl⟩

/-- A line that names a command is in its grammar when the body has the right number of
fields; the empty body of a ping is one empty token. -/
theorem grammar_iff {line : Str} {c : Command} {record : List Str}
    (found : body (tokens line) = some (c.name, record)) :
    Grammar c line ↔ c = .ping ∧ record = [[]] ∨
      record.length = (fields c).length ∧ "#".toList ∉ record ∧ "|".toList ∉ record := by
  constructor
  · rintro ⟨start, record', first, size, free, rfl⟩
    rw [tokens_body first] at found
    obtain ⟨start', shape⟩ := body_eq_some.mp found
    simp only [List.cons.injEq, true_and] at shape
    obtain ⟨-, rfl⟩ := shape
    by_cases none : record' = []
    -- No fields at all: only the ping has none.
    · subst none
      refine Or.inl ⟨?_, rfl⟩
      cases c <;> simp [fields] at size ⊢
    · rw [joined_body none free]
      refine Or.inr ⟨size, kept_iff.mp ?_⟩
      intro k kept member
      have plain := (free [k] member k (by simp)).2
      cases kept.symm.trans plain
  · obtain ⟨start, b, first, rfl, pieces⟩ := body_pieces found
    rintro (⟨rfl, rfl⟩ | ⟨size, clean⟩)
    · have joined := (body_joined (body_short (by rw [pieces]; decide))).1
      rw [pieces] at joined
      exact ⟨start, [], first, rfl, by simp, by rw [joined]; rfl⟩
    · rw [← pieces] at clean
      obtain ⟨joined, free⟩ := body_joined clean
      rw [pieces] at joined free
      exact ⟨start, record, first, size, free, by rw [← joined]⟩

theorem body_ne_nil {line : Str} {c : Command} {record : List Str}
    (found : body (tokens line) = some (c.name, record)) : record ≠ [] := by
  obtain ⟨start, b, -, -, pieces⟩ := body_pieces found
  rw [← pieces]
  exact Tokens.pieces_ne_nil b

private theorem short_plain {line : Str} {c : Command} {record : List Str}
    (found : body (tokens line) = some (c.name, record)) (size : record.length ≤ 2) :
    "#".toList ∉ record ∧ "|".toList ∉ record := by
  obtain ⟨start, b, -, -, pieces⟩ := body_pieces found
  rw [← pieces] at size ⊢
  exact body_short size

/-! ### What is taken -/

/-- A record of data that is not too long is in the grammar unless it is a lax one. -/
private theorem loose_iff {c : Command} {record : List Str} (other : c ≠ .ping)
    (stored : c = .data ∨ c = .shortdata) :
    (record.length ≤ (fields c).length → c = .ping ∧ record = [[]] ∨
        record.length = (fields c).length ∧ "#".toList ∉ record ∧ "|".toList ∉ record) ↔
      ¬ ((c = .data ∨ c = .shortdata) ∧ record.length ≤ (fields c).length ∧
          (record.length < (fields c).length ∨ "#".toList ∈ record ∨ "|".toList ∈ record) ∨
        c = .ping ∧ record.length = 1 ∧ record ≠ [[]]) := by
  constructor
  · rintro good (⟨-, size, loose⟩ | ⟨ping, -⟩)
    -- Too few fields, or a delimiter taken for one, is what is lax.
    · rcases good size with ⟨ping, -⟩ | ⟨full, hash, bar⟩
      · exact other ping
      · rcases loose with short | member | member
        · omega
        · exact hash member
        · exact bar member
    · exact other ping
  · intro strict size
    refine Or.inr ⟨?_, ?_, ?_⟩
    · by_contra less
      exact strict (Or.inl ⟨stored, size, Or.inl (by omega)⟩)
    · exact fun member => strict (Or.inl ⟨stored, size, Or.inr (Or.inl member)⟩)
    · exact fun member => strict (Or.inl ⟨stored, size, Or.inr (Or.inr member)⟩)

/-- A record is taken but not in the grammar exactly when it is a lax one. -/
private theorem taken_grammar_iff {line : Str} {c : Command} {record : List Str}
    (found : body (tokens line) = some (c.name, record)) :
    (Taken c record → Grammar c line) ↔ ¬ Lax line := by
  have injective {c' : Command} (same : c.name = c'.name) : c' = c := by
    cases c <;> cases c' <;> first | rfl | exact absurd same (by decide)
  have lax : Lax line ↔
      (c = .data ∨ c = .shortdata) ∧ record.length ≤ (fields c).length ∧
        (record.length < (fields c).length ∨ "#".toList ∈ record ∨ "|".toList ∈ record) ∨
      c = .ping ∧ record.length = 1 ∧ record ≠ [[]] := by
    constructor
    · rintro ⟨c', record', found', loose⟩
      rw [found] at found'
      simp only [Option.some.injEq, Prod.mk.injEq] at found'
      obtain ⟨name, rfl⟩ := found'
      rwa [injective name] at loose
    · exact fun loose => ⟨c, record, found, loose⟩
  -- Commands of a fixed number of fields are not lax, and of the others two are.
  rw [lax, grammar_iff found]
  cases c with
  | login => exact iff_of_true (fun size => Or.inr ⟨size, short_plain found size.le⟩) (by simp)
  | message =>
    exact iff_of_true (fun size => Or.inr ⟨size, short_plain found (size.le.trans (by decide))⟩)
      (by simp)
  | data => exact loose_iff (by decide) (Or.inl rfl)
  | shortdata => exact loose_iff (by decide) (Or.inr rfl)
  | ping =>
    constructor
    · rintro good (⟨absurd, -⟩ | ⟨-, one, other⟩)
      · simp at absurd
      · rcases good one with ⟨-, empty⟩ | ⟨none, -⟩
        · exact other empty
        · exact absurd (one.symm.trans none) (by decide)
    · intro strict one
      refine Or.inl ⟨rfl, ?_⟩
      by_contra other
      exact strict (Or.inr ⟨rfl, one, other⟩)
  | blackbox => exact iff_of_true False.elim (by simp)
  | image => exact iff_of_true False.elim (by simp)

section Tokens

variable (boost : Boost) (granted : Bool) {opened : Bool} {c c' : Command} {p : Plugin}

theorem accepted_congr {r r' : Result} (currentCmd : r.state.currentCmd = r'.state.currentCmd)
    (same : calls r.output = calls r'.output) : Accepted c r ↔ Accepted c r' := by
  cases c <;> simp only [Accepted, currentCmd, same]

theorem answer_calls (message : Str) : calls (answer message p).output =
    [.doWrite ((replyText p.cmd message).take answerCapacity)] := by
  rw [answer_output]
  rfl

/-- A commit takes the line for its own command, unless that is an image or a login
after an error. -/
private theorem commit_accepts {record : List Str} (other : c ≠ .blackbox)
    (currentCmd : p.currentCmd = c) (cmd : p.cmd = c.name) (rooted : p.tree ≠ none)
    (content : p.content = fieldTree c record)
    (complete : c = .login → p.isParserError = false → record.length = 2) :
    Accepted c' (commitCommand boost granted p) ↔
      c' = c ∧ c ≠ .image ∧ (c = .login → p.isParserError = false) := by
  obtain ⟨t, tree⟩ := Option.ne_none_iff_exists'.mp rooted
  have kept := (commitCommand_kept boost granted p).currentCmd
  -- What is called decides, together with the command.
  have by_calls {made : List Call} (same : calls (commitCommand boost granted p).output = made) :
      Accepted c' (commitCommand boost granted p) ↔ match c' with
        | .login => ∃ imei password, .authenticate imei password ∈ made
        | .data | .shortdata | .message => c = c' ∧ ∃ content, .processData content ∈ made
        | .ping => .doWrite "#AP#\r\n".toList ∈ made
        | .blackbox | .image => False := by
    cases c' <;> simp only [Accepted, same, kept, currentCmd]
  have stores (stored : c = .data ∨ c = .shortdata ∨ c = .message) :
      Accepted c' (commitCommand boost granted p) ↔
        c' = c ∧ c ≠ .image ∧ (c = .login → p.isParserError = false) := by
    have made : calls (commitCommand boost granted p).output = [.processData p.content] := by
      rcases stored with rfl | rfl | rfl <;> simp only [commitCommand, tree, currentCmd] <;> rfl
    rw [by_calls made]
    rcases stored with rfl | rfl | rfl <;> cases c' <;> simp
  cases c with
  | blackbox => exact absurd rfl other
  | login =>
    cases bad : p.isParserError with
    | true =>
      have made : calls (commitCommand boost granted p).output = [.doWrite "#AL#0\r\n".toList] := by
        simp only [commitCommand, tree, currentCmd, bad, if_true, answer_calls, cmd]
        rfl
      rw [by_calls made]
      cases c' <;> simp
    | false =>
      obtain ⟨imei, password, rfl⟩ := List.length_eq_two.mp (complete rfl bad)
      have first : (fieldTree .login [imei, password]).lookup "imei".toList = some imei := rfl
      have second : (fieldTree .login [imei, password]).lookup "password".toList = some password := rfl
      have made : calls (commitCommand boost granted p).output = [.authenticate imei password,
          .doWrite (if granted then "#AL#1\r\n".toList else "#AL#01\r\n".toList)] := by
        simp only [commitCommand, tree, currentCmd, bad, Bool.false_eq_true, if_false, content, first,
          second]
        cases granted <;> simp [handleAuthenticate, answer_output, cmd, calls, Effect.call] <;> rfl
      rw [by_calls made]
      cases granted <;> cases c' <;> simp
  | data => exact stores (Or.inl rfl)
  | shortdata => exact stores (Or.inr (Or.inl rfl))
  | message => exact stores (Or.inr (Or.inr rfl))
  | ping =>
    have made : calls (commitCommand boost granted p).output = [.doWrite "#AP#\r\n".toList] := by
      simp only [commitCommand, tree, currentCmd, answer_calls, cmd]
      rfl
    rw [by_calls made]
    cases c' <;> simp
  | image =>
    have made : calls (commitCommand boost granted p).output = [] := by
      simp only [commitCommand, tree, currentCmd]
      split
      · rfl
      · split <;> rfl
    rw [by_calls made]
    cases c' <;> simp

private theorem filled_accepts {record : List Str} (some : record ≠ []) (other : c ≠ .blackbox)
    (filled : Filled opened c record p) :
    Accepted c' (consumeEnd boost granted p) ↔ c' = c ∧ Taken c record := by
  have nonempty := List.length_pos_of_ne_nil some
  have ended : Accepted c' (consumeEnd boost granted p) ↔
      Accepted c' (endOfLine boost granted p) := by
    refine accepted_congr ?_ (by rw [consumeEnd_output])
    rw [(consumeEnd_kept boost granted p).currentCmd, (endOfLine_kept boost granted p).currentCmd]
  rw [ended]
  cases filled with
  | short here short filling =>
    obtain ⟨currentCmd, cmd, -, -, -, t, tree, stored⟩ := filling
    have cut : ∃ message, endOfLine boost granted p =
        (parserError message p).andThen (commitCommand boost granted) := by
      simp only [endOfLine, here, currentCmd, ne_eq, other, not_false_eq_true, if_true]
      exact ⟨_, rfl⟩
    obtain ⟨message, cut⟩ := cut
    have accepts := @commit_accepts boost granted c c' { p with isParserError := true } record other
      currentCmd cmd (by simp [tree]) (by simp [Plugin.content, tree, stored]) (by simp)
    have behind : Accepted c' (endOfLine boost granted p) ↔
        Accepted c' (commitCommand boost granted { p with isParserError := true }) := by
      rw [cut, parserError, Outcome.emit_andThen]
      exact accepted_congr rfl rfl
    rw [behind, accepts]
    -- Of a short body only a record of data is taken.
    refine and_congr_right fun _ => ?_
    cases c <;> simp [Taken, fields, some] at short other ⊢ <;> omega
  | full here full filling =>
    obtain ⟨currentCmd, cmd, -, good, -, t, tree, stored⟩ := filling
    have done : endOfLine boost granted p = commitCommand boost granted p := by
      simp only [endOfLine, here]
    have complete : c = .login → p.isParserError = false → record.length = 2 := by
      rintro rfl -
      exact full
    rw [done, @commit_accepts boost granted c c' p record other currentCmd cmd (by simp [tree])
      (by simp [Plugin.content, tree, stored]) complete]
    refine and_congr_right fun _ => ?_
    cases c <;> simp [Taken, fields, good] at full other ⊢ <;> omega
  | long here long =>
    have idle : endOfLine boost granted p = .ok p := by simp only [endOfLine, here]
    have nothing : ¬ Accepted c' (endOfLine boost granted p) := by
      rw [idle]
      cases c' <;> simp [Accepted, calls]
    apply iff_of_false nothing
    rintro ⟨-, taken⟩
    cases c <;> simp [Taken, fields] at long taken <;> omega

/-- Nothing of a package is taken for another command. -/
private theorem package_accepts {r : Result} (currentCmd : r.state.currentCmd = .blackbox)
    (package : ∀ effect ∈ r.output, effect.OfPackage) : ¬ Accepted c' r := by
  have calls_package {call : Call} (member : call ∈ calls r.output) :
      ∃ effect : Effect, effect.call = some call ∧ effect.OfPackage := by
    obtain ⟨effect, present, made⟩ := List.mem_filterMap.mp member
    exact ⟨effect, made, package effect present⟩
  -- The calls a package makes are its own: records, and a count in the reply.
  intro accepted
  cases c' with
  | login =>
    obtain ⟨imei, password, member⟩ := accepted
    obtain ⟨effect, made, allowed⟩ := calls_package member
    cases effect <;> simp [Effect.call] at made
    exact allowed
  | ping =>
    obtain ⟨effect, made, allowed⟩ := calls_package accepted
    cases effect <;> simp [Effect.call] at made
    subst made
    obtain ⟨message, same⟩ := allowed
    simp [replyText, answerCapacity] at same
  | data => simp [Accepted, currentCmd] at accepted
  | shortdata => simp [Accepted, currentCmd] at accepted
  | message => simp [Accepted, currentCmd] at accepted
  | blackbox => exact accepted
  | image => exact accepted

end Tokens

/-- Between two lines of any run, what the next line is taken for it is in the grammar of,
exactly when the connection has not logged in or the line is not a lax one. -/
theorem accepted_grammar_iff {boost : Boost} {granted : Bool} {s : Session}
    (reached : (session boost).Reachable s) (alive : s.crashed = false) (boundary : s.pending = [])
    {line : Str} (unended : Lines.Open '\r' '\n' line) :
    (∀ c, Accepted c (handleLine boost granted line s.plugin) → Grammar c line) ↔
      ¬ (s.plugin.authenticated = true ∧ Lax line) := by
  have comes := handleLine_comes boost granted (Session.at_rest reached alive boundary) unended
  generalize handleLine boost granted line s.plugin = r at comes
  cases comes with
  | @idle q out idle quiet unnamed =>
    have silent : calls (out ++ (consumeEnd boost granted q).output) = [] := by
      rw [calls_append, calls_quiet quiet, calls_quiet (idle_end boost granted idle).output,
        List.append_nil]
    apply iff_of_true
    · intro c accepted
      cases c <;> simp [Accepted, silent] at accepted
    · rintro ⟨opened, c, record, found, -⟩
      have closed := (unnamed c record found).1
      rw [opened] at closed
      cases closed
  | @package record q out found inside early =>
    have late := (package_end boost granted inside).output
    refine iff_of_true (fun c accepted => ?_) ?_
    · refine absurd accepted (package_accepts ?_ ?_)
      · exact (consumeEnd_kept boost granted q).currentCmd.trans inside.currentCmd
      · intro effect member
        exact (List.mem_append.mp member).elim (early effect) (late effect)
    · rintro ⟨-, lax⟩
      exact (taken_grammar_iff found).mp False.elim lax
  | @filled c record q out found other allowed ended quiet =>
    have accepts (c' : Command) : Accepted c' ⟨(consumeEnd boost granted q).state,
        out ++ (consumeEnd boost granted q).output, (consumeEnd boost granted q).fault⟩ ↔
        c' = c ∧ Taken c record := by
      rw [← filled_accepts boost granted (body_ne_nil found) other ended]
      exact accepted_congr rfl (by simp [calls_quiet quiet])
    have strict : (∀ c', c' = c ∧ Taken c record → Grammar c' line) ↔ ¬ Lax line := by
      rw [← taken_grammar_iff found]
      constructor
      · exact fun good taken => good c ⟨rfl, taken⟩
      · rintro good c' ⟨rfl, taken⟩
        exact good taken
    simp only [accepts, strict]
    rcases allowed with opened | rfl
    · simp [opened]
    -- A login is never a lax line.
    · have never : ¬ Lax line :=
        (taken_grammar_iff found).mp fun size =>
          (grammar_iff found).mpr (Or.inr ⟨size, short_plain found size.le⟩)
      simp [never]

theorem accepted_grammar_iff_ping :
    (∀ c, Accepted c (handleLine numeric true "#P#x".toList opened.plugin) →
        Grammar c "#P#x".toList) ↔
      ¬ (opened.plugin.authenticated = true ∧ Lax "#P#x".toList) := by
  obtain ⟨alive, boundary, -⟩ := opened_ready
  exact accepted_grammar_iff opened_reachable alive boundary (by decide)

/-- A record of data with one field in place of sixteen is stored. -/
theorem short_record_stored : ¬ ∀ s, (session numeric).Reachable s → s.crashed = false →
    s.pending = [] → ∀ line, Lines.Open '\r' '\n' line → ∀ c,
      Accepted c (handleLine numeric true line s.plugin) → Grammar c line := by
  intro claimed
  obtain ⟨alive, boundary, -⟩ := opened_ready
  have stored : Accepted .data (handleLine numeric true "#D#x".toList opened.plugin) := by
    have called : .processData [("date".toList, "x".toList)] ∈
        calls (handleLine numeric true "#D#x".toList opened.plugin).output := by decide +kernel
    exact ⟨by decide +kernel, _, called⟩
  have good := claimed opened opened_reachable alive boundary "#D#x".toList (by decide) .data stored
  have found : body (tokens "#D#x".toList) = some (Command.data.name, ["x".toList]) := by decide
  rcases (grammar_iff found).mp good with ⟨ping, -⟩ | ⟨size, -⟩
  · cases ping
  · exact absurd size (by decide)

end Eiptnd.Wialon
