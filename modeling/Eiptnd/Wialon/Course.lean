import Eiptnd.Wialon.Commands

/-! The course of a line: from its first token to the last before the CRLF.

A line without a command the connection may use comes to nothing. Any other fills the
tree of its command, field by field, or is a package. -/
namespace Eiptnd.Wialon

open Reactive

/-! ### Calls -/

/-- What the translator asks of the API it was given. -/
inductive Call
  | authenticate (imei password : Str)
  | processData (content : Tree)
  | doWrite (reply : Str)
  deriving DecidableEq, Repr

def Effect.call : Effect → Option Call
  | .authenticate imei password => some (.authenticate imei password)
  | .processData _ content => some (.processData content)
  | .doWrite reply => some (.doWrite reply)
  | _ => none

def calls (out : List Effect) : List Call := out.filterMap Effect.call

@[simp] theorem calls_append (first second : List Effect) :
    calls (first ++ second) = calls first ++ calls second := List.filterMap_append

/-- An effect that is no call. -/
def Effect.Quiet (effect : Effect) : Prop := effect.call = none

theorem calls_quiet {out : List Effect} (quiet : ∀ effect ∈ out, effect.Quiet) : calls out = [] :=
  List.filterMap_eq_nil_iff.mpr quiet

/-- The command that the tokens of a line name, and the tokens behind it. -/
def body : List Str → Option (Str × List Str)
  | _ :: first :: cmd :: second :: record =>
    if first = "#".toList ∧ second = "#".toList then some (cmd, record) else none
  | _ => none

theorem body_eq_some {toks record : List Str} {cmd : Str} : body toks = some (cmd, record) ↔
    ∃ start, toks = start :: "#".toList :: cmd :: "#".toList :: record := by
  constructor
  · intro found
    unfold body at found
    split at found
    next start first cmd' second record' =>
      split at found
      next hashes =>
        cases found
        exact ⟨start, by rw [hashes.1, hashes.2]⟩
      next => cases found
    next => cases found
  · rintro ⟨start, rfl⟩
    rfl

section Tokens

variable (boost : Boost) (granted : Bool) {opened : Bool} {c : Command} {p : Plugin}

theorem parserError_reaches {message : Str} {P : Plugin → Prop}
    (holds : P { p with isParserError := true }) :
    (parserError message p).Reaches Effect.Quiet P :=
  ⟨rfl, by simp [parserError, Effect.Quiet, Effect.call], holds⟩

theorem consumeEnd_authenticated :
    (consumeEnd boost granted p).state.authenticated =
      (endOfLine boost granted p).state.authenticated := by
  unfold consumeEnd Outcome.andThen
  split <;> simp

/-! ### Lines without a command -/

/-- The parser is in no command. -/
structure Idle (opened : Bool) (p : Plugin) : Prop where
  state : p.state = .initial ∨ p.state = .hashFirst ∨ p.state = .command ∨
    p.state = .hashSecond ∨ p.state = .skipToEnd
  authenticated : p.authenticated = opened

theorem idle_end (idle : Idle opened p) :
    (consumeEnd boost granted p).Reaches Effect.Quiet fun q => q.authenticated = opened := by
  have ended : (endOfLine boost granted p).Reaches Effect.Quiet fun q =>
      q.authenticated = opened := by
    have here := idle.state
    have cases := endOfLine_cases boost granted p
    generalize endOfLine boost granted p = r at cases
    cases cases with
    | misplaced => exact parserError_reaches idle.authenticated
    | idle => exact .ok idle.authenticated
    | cut _ body => simp [body] at here
    | last body => rcases body with ⟨body, -⟩ | bar <;> simp [*] at here
    | done body => rcases body with body | body <;> simp [body] at here
  exact ended.andThen fun q same => .ok same

private theorem skip_tokens {toks : List Str} (clean : crlf ∉ toks) (here : p.state = .skipToEnd) :
    consumeTokens boost granted toks p = .ok p := by
  induction toks with
  | nil => rfl
  | cons tok toks ih =>
    simp only [List.mem_cons, not_or] at clean
    have stays : consumeToken boost granted tok p = .ok p := by
      simp [consumeToken, Ne.symm clean.1, here]
    rw [consumeTokens, stays, Outcome.ok_andThen]
    exact ih clean.2

/-- Once a token has been refused, the rest of the line is skipped. -/
private theorem skip_rest {tok : Str} {toks : List Str} (clean : crlf ∉ toks)
    (refused : (consumeToken boost granted tok p).Reaches Effect.Quiet fun q =>
      q.state = .skipToEnd ∧ q.authenticated = opened) :
    (consumeTokens boost granted (tok :: toks) p).Reaches Effect.Quiet (Idle opened) := by
  apply refused.andThen
  rintro q ⟨here, same⟩
  rw [skip_tokens boost granted clean here]
  exact .ok ⟨by simp [here], same⟩

/-! ### Fields of a command -/

/-- The parser is in the fields of a command, with these read already. -/
structure Filling (opened : Bool) (c : Command) (done : List Str) (p : Plugin) : Prop where
  currentCmd : p.currentCmd = c
  cmd : p.cmd = c.name
  estimate : p.estimate = (fields c).length - done.length
  clean : p.isParserError = false
  authenticated : p.authenticated = opened
  tree : ∃ t, p.tree = some t ∧ p.trees[t]? = some (fieldTree c done)

/-- Where the fields read so far have led the parser. A command without fields is
complete with one token. -/
inductive Filled (opened : Bool) (c : Command) (done : List Str) (p : Plugin) : Prop
  | short : p.state = .body → done.length < max 1 (fields c).length → Filling opened c done p →
      Filled opened c done p
  | full : p.state = .end_ → done.length = max 1 (fields c).length → Filling opened c done p →
      Filled opened c done p
  | long : p.state = .skipToEnd → max 1 (fields c).length < done.length →
      p.authenticated = opened → Filled opened c done p

theorem fill_token {tok : Str} {done : List Str} (notEnd : tok ≠ crlf) (other : c ≠ .blackbox)
    (filled : Filled opened c done p) :
    (consumeToken boost granted tok p).Reaches Effect.Quiet (Filled opened c (done ++ [tok])) := by
  have longer : (done ++ [tok]).length = done.length + 1 := by simp
  cases filled with
  | short here short filling =>
    obtain ⟨rfl, cmd, estimate, clean, authenticated, t, tree, stored⟩ := filling
    have moved : consumeToken boost granted tok p = (consumeField tok p).andThen fun p =>
        if p.estimate = 0 then
          .ok { p with state := if p.currentCmd ≠ Command.blackbox then .end_ else .bar }
        else .ok p := by
      simp [consumeToken, notEnd, here, consumeBody, other]
    rw [moved]
    by_cases none : (fields p.currentCmd).length = 0
    -- No fields at all: the token is dropped.
    · have nothing : done = [] := List.eq_nil_of_length_eq_zero (by omega)
      subst nothing
      have dropped : consumeField tok p = .ok p := by simp [consumeField, estimate, none]
      have same : fieldTree p.currentCmd ([] ++ [tok]) = fieldTree p.currentCmd [] :=
        @fieldTree_full p.currentCmd [] none.symm [tok]
      rw [dropped, Outcome.ok_andThen, if_pos (by omega), if_pos other]
      refine .ok (.full rfl (by rw [longer, none]; rfl) ?_)
      exact ⟨rfl, cmd, by simp [estimate, none], clean, authenticated, t, tree, by rwa [same]⟩
    · obtain ⟨trees, put, after⟩ :=
        @consumeField_fills p.currentCmd done tok p t (by omega) rfl estimate tree stored
      have filling (q : Plugin) (same : q = { p with
          estimate := p.estimate - 1, trees := trees, state := q.state }) :
          Filling opened p.currentCmd (done ++ [tok]) q := by
        rw [same]
        exact ⟨rfl, cmd, by simp only [longer]; omega, clean, authenticated, t, tree, after⟩
      rw [put, Outcome.ok_andThen]
      dsimp only
      split
      · exact .ok (.full rfl (by omega) (filling _ rfl))
      · exact .ok (.short here (by omega) (filling _ rfl))
  | full here full filling =>
    have refused : ∃ message, consumeToken boost granted tok p =
        parserError message { p with state := .skipToEnd } := by
      simp only [consumeToken, notEnd, if_false, here, unexpectedToken]
      exact ⟨_, rfl⟩
    obtain ⟨message, refused⟩ := refused
    rw [refused]
    exact parserError_reaches (.long rfl (by omega) filling.authenticated)
  | long here long authenticated =>
    have stays : consumeToken boost granted tok p = .ok p := by simp [consumeToken, notEnd, here]
    rw [stays]
    exact .ok (.long here (by omega) authenticated)

theorem fill_tokens {toks done : List Str} (clean : crlf ∉ toks) (other : c ≠ .blackbox)
    (filled : Filled opened c done p) :
    (consumeTokens boost granted toks p).Reaches Effect.Quiet (Filled opened c (done ++ toks)) := by
  induction toks generalizing done p with
  | nil =>
    rw [List.append_nil]
    exact .ok filled
  | cons tok toks ih =>
    simp only [List.mem_cons, not_or] at clean
    have joined : done ++ tok :: toks = (done ++ [tok]) ++ toks := by simp
    rw [joined]
    exact (fill_token boost granted (Ne.symm clean.1) other filled).andThen fun q next =>
      ih clean.2 next

/-! ### Packages -/

/-- What a package may put out: trees, and its acknowledgement. -/
def Effect.OfPackage : Effect → Prop
  | .authenticate _ _ => False
  | .doWrite reply => ∃ message, reply = (replyText "B".toList message).take answerCapacity
  | _ => True

/-- The parser is in a package. -/
structure InPackage (opened : Bool) (p : Plugin) : Prop where
  state : p.state = .body ∨ p.state = .bar ∨ p.state = .skipToBarOrEnd
  currentCmd : p.currentCmd = .blackbox
  cmd : p.cmd = "B".toList
  estimate : p.estimate ≤ 16
  tree : p.tree ≠ none
  authenticated : p.authenticated = opened

theorem package_token {tok : Str} (notEnd : tok ≠ crlf) (inside : InPackage opened p) :
    (consumeToken boost granted tok p).Reaches Effect.OfPackage (InPackage opened) := by
  obtain ⟨state, currentCmd, cmd, estimate, tree, authenticated⟩ := inside
  rcases state with here | here | here
  · have moved : consumeToken boost granted tok p = consumeBody tok p := by
      simp only [consumeToken, notEnd, if_false, here]
    rw [moved, consumeBody]
    -- The bar ends a record; any other token fills a field, or is one too many.
    by_cases bar : tok = "|".toList
    · have known : estimates.lookup p.cmd = some (16, .blackbox) := by rw [cmd]; rfl
      rw [if_pos ⟨currentCmd, bar⟩, storeData, Outcome.emit_andThen, known]
      refine ⟨rfl, by simp [Effect.OfPackage], Or.inl here, rfl, cmd, Nat.le_refl 16, ?_, authenticated⟩
      simp [Plugin.newTree]
    · rw [if_neg fun both => bar both.2]
      obtain ⟨t, current⟩ := Option.ne_none_iff_exists'.mp tree
      have field : (consumeField tok p).Reaches Effect.OfPackage fun q =>
          InPackage opened q ∧ q.state = .body := by
        rw [consumeField]
        split
        · exact .ok ⟨⟨Or.inl here, currentCmd, cmd, estimate, tree, authenticated⟩, here⟩
        next more =>
          have place : p.estimate - 1 < (fields p.currentCmd).length := by
            rw [currentCmd]
            exact Nat.lt_of_lt_of_le (by omega) estimate
          rw [List.getElem?_eq_getElem place, current]
          refine .ok ⟨⟨Or.inl here, currentCmd, cmd, ?_, by simp, authenticated⟩, here⟩
          exact (Nat.sub_le _ _).trans estimate
      -- With its last field the record waits for a bar or the end of the line.
      apply field.andThen
      rintro q ⟨⟨state, currentCmd, cmd, estimate, tree, authenticated⟩, body⟩
      split
      · exact .ok ⟨by simp [currentCmd], currentCmd, cmd, estimate, tree, authenticated⟩
      · exact .ok ⟨state, currentCmd, cmd, estimate, tree, authenticated⟩
  · simp only [consumeToken, notEnd, if_false, here]
    split
    · refine ⟨rfl, by simp [storeData, Effect.OfPackage], ?_⟩
      exact ⟨Or.inl rfl, currentCmd, cmd, estimate, tree, authenticated⟩
    -- A field too many: the record is stored all the same, and the rest of it skipped.
    · refine ⟨rfl, by simp [unexpectedToken, parserError, storeData, Effect.OfPackage], ?_⟩
      exact ⟨Or.inr (Or.inr rfl), currentCmd, cmd, estimate, tree, authenticated⟩
  · simp only [consumeToken, notEnd, if_false, here]
    split
    · exact .ok ⟨Or.inl rfl, currentCmd, cmd, estimate, tree, authenticated⟩
    · exact .ok ⟨Or.inr (Or.inr here), currentCmd, cmd, estimate, tree, authenticated⟩

theorem package_tokens {toks : List Str} (clean : crlf ∉ toks) (inside : InPackage opened p) :
    (consumeTokens boost granted toks p).Reaches Effect.OfPackage (InPackage opened) := by
  induction toks generalizing p with
  | nil => exact .ok inside
  | cons tok toks ih =>
    simp only [List.mem_cons, not_or] at clean
    exact (package_token boost granted (Ne.symm clean.1) inside).andThen fun q next => ih clean.2 next

theorem package_end (inside : InPackage opened p) :
    (consumeEnd boost granted p).Reaches Effect.OfPackage fun q => q.authenticated = opened := by
  have acknowledged := commitCommand_blackbox boost granted inside.currentCmd inside.tree
  have answered : (answer (decimal p.multicommand) p).Reaches Effect.OfPackage
      fun q => q.authenticated = opened := by
    refine ⟨rfl, ?_, inside.authenticated⟩
    rw [answer_output, inside.cmd]
    intro effect member
    rcases List.mem_pair.mp member with rfl | rfl
    · exact trivial
    · exact ⟨_, rfl⟩
  have stored : (storeData p).Reaches Effect.OfPackage fun q => q = p :=
    ⟨rfl, by simp [storeData, Effect.OfPackage], rfl⟩
  have ended : (endOfLine boost granted p).Reaches Effect.OfPackage fun q =>
      q.authenticated = opened := by
    have last : ((storeData p).andThen (commitCommand boost granted)).Reaches Effect.OfPackage
        fun q => q.authenticated = opened := by
      apply stored.andThen
      rintro q rfl
      rwa [acknowledged]
    -- The end stores the last record, unless a field too many has stored it already.
    rcases inside.state with here | here | here
    · simp only [endOfLine, here, inside.currentCmd, ne_eq, not_true_eq_false, if_false]
      exact last
    · simp only [endOfLine, here]
      exact last
    · simp only [endOfLine, here, acknowledged]
      exact answered
  exact ended.andThen fun q same => .ok same

/-! ### The start of a line -/

/-- What the first tokens of a line come to: no command, or one that the connection may
use, with the tokens behind it still to be read. -/
inductive Starts (p : Plugin) (toks : List Str) : Prop
  | idle : (consumeTokens boost granted toks p).Reaches Effect.Quiet (Idle p.authenticated) →
      (∀ cmd record estimate c, body toks = some (cmd, record) →
        estimates.lookup cmd = some (estimate, c) → p.authenticated = false ∧ c ≠ .login) →
      Starts p toks
  | named {cmd : Str} {record : List Str} {estimate : Nat} {c : Command} {q : Plugin} :
      body toks = some (cmd, record) → estimates.lookup cmd = some (estimate, c) →
      p.authenticated = true ∨ c = .login → q.state = .body →
      Filling p.authenticated c [] q →
      consumeTokens boost granted toks p = consumeTokens boost granted record q → Starts p toks

/-- The token that names the command. -/
private theorem command_token {tok : Str} (notEnd : tok ≠ crlf) (here : p.state = .command) :
    ((consumeToken boost granted tok p).Reaches Effect.Quiet (fun q =>
        q.state = .skipToEnd ∧ q.authenticated = p.authenticated) ∧
      ∀ estimate c, estimates.lookup tok = some (estimate, c) →
        p.authenticated = false ∧ c ≠ .login) ∨
    ∃ estimate c, estimates.lookup tok = some (estimate, c) ∧
      (p.authenticated = true ∨ c = .login) ∧ consumeToken boost granted tok p = .ok { p with
        cmd := tok, estimate := estimate, currentCmd := c, state := .hashSecond } := by
  have moved : consumeToken boost granted tok p = consumeCommand tok p := by
    simp only [consumeToken, notEnd, if_false, here]
  rw [moved, consumeCommand]
  cases found : estimates.lookup tok with
  | none => exact Or.inl ⟨parserError_reaches ⟨rfl, rfl⟩, by simp⟩
  | some entry =>
    obtain ⟨estimate, c⟩ := entry
    dsimp only
    split
    -- Known, but not to be used before the login.
    next closed =>
      simp only [Bool.and_eq_true, Bool.not_eq_true', decide_eq_true_eq] at closed
      refine Or.inl ⟨.ok ⟨rfl, rfl⟩, ?_⟩
      intro estimate' c' same
      cases same
      exact closed
    next opened =>
      refine Or.inr ⟨estimate, c, rfl, ?_, rfl⟩
      cases locked : p.authenticated with
      | true => exact Or.inl rfl
      | false => exact Or.inr (by simpa [locked] using opened)

/-- The hash in front of the command, or the one behind it. -/
private theorem hash_token {tok : Str} {next : ParserState} (notEnd : tok ≠ crlf)
    (here : p.state = .hashFirst ∧ next = .command ∨ p.state = .hashSecond ∧ next = .body) :
    tok = "#".toList ∧ consumeToken boost granted tok p = .ok { p with state := next } ∨
      tok ≠ "#".toList ∧ (consumeToken boost granted tok p).Reaches Effect.Quiet fun q =>
        q.state = .skipToEnd ∧ q.authenticated = p.authenticated := by
  by_cases hash : tok = "#".toList
  · refine Or.inl ⟨hash, ?_⟩
    rcases here with ⟨here, rfl⟩ | ⟨here, rfl⟩ <;>
      simp only [consumeToken, notEnd, if_false, here] <;> exact if_pos hash
  · refine Or.inr ⟨hash, ?_⟩
    rcases here with ⟨here, -⟩ | ⟨here, -⟩ <;>
      simp only [consumeToken, notEnd, if_false, here, hash] <;>
      exact parserError_reaches ⟨rfl, rfl⟩

/-- The first token is whatever stands in front of the hash. -/
private theorem initial_token {tok : Str} (notEnd : tok ≠ crlf) (here : p.state = .initial) :
    ∃ q, consumeToken boost granted tok p = .ok q ∧ q.state = .hashFirst ∧
      q.isParserError = false ∧ q.authenticated = p.authenticated ∧
      ∃ t, q.tree = some t ∧ q.trees[t]? = some [] := by
  have moved : consumeToken boost granted tok p = consumeInitial p := by
    simp only [consumeToken, notEnd, if_false, here]
  exact ⟨_, moved, rfl, rfl, rfl, p.trees.length, rfl, by simp [Plugin.newTree]⟩

theorem consumeTokens_ok {tok : Str} {toks : List Str} {q : Plugin}
    (moved : consumeToken boost granted tok p = .ok q) :
    consumeTokens boost granted (tok :: toks) p = consumeTokens boost granted toks q := by
  rw [consumeTokens, moved, Outcome.ok_andThen]

/-- The tokens behind the first hash: nothing, or a command, a hash and some fields. -/
private theorem command_starts {toks : List Str} (clean : crlf ∉ toks) (here : p.state = .command)
    (good : p.isParserError = false) (rooted : ∃ t, p.tree = some t ∧ p.trees[t]? = some []) :
    (consumeTokens boost granted toks p).Reaches Effect.Quiet (Idle p.authenticated) ∧
        (∀ cmd record estimate c, toks = cmd :: "#".toList :: record →
          estimates.lookup cmd = some (estimate, c) → p.authenticated = false ∧ c ≠ .login) ∨
      ∃ cmd record estimate c q, toks = cmd :: "#".toList :: record ∧
        estimates.lookup cmd = some (estimate, c) ∧ (p.authenticated = true ∨ c = .login) ∧
        q.state = .body ∧ Filling p.authenticated c [] q ∧
        consumeTokens boost granted toks p = consumeTokens boost granted record q := by
  rcases toks with _ | ⟨cmd, toks⟩
  · exact Or.inl ⟨.ok ⟨by simp [here], rfl⟩, by simp⟩
  simp only [List.mem_cons, not_or] at clean
  obtain ⟨refused, unnamed⟩ | ⟨estimate, c, known, allowed, named⟩ :=
    command_token boost granted (Ne.symm clean.1) here
  -- Refused by its name: the rest of the line is skipped.
  · refine Or.inl ⟨skip_rest boost granted clean.2 refused, ?_⟩
    intro cmd' record estimate c shape
    cases shape
    exact unnamed estimate c
  rw [consumeTokens_ok boost granted named]
  rcases toks with _ | ⟨second, record⟩
  · exact Or.inl ⟨.ok ⟨by simp, rfl⟩, by simp⟩
  simp only [List.mem_cons, not_or] at clean
  obtain ⟨rfl, hashed⟩ | ⟨other, refused⟩ := hash_token boost granted (p := { p with
      cmd := cmd, estimate := estimate, currentCmd := c, state := .hashSecond })
    (Ne.symm clean.2.1) (Or.inr ⟨rfl, rfl⟩)
  -- Behind the second hash the fields begin, and nothing has been put into the tree.
  · refine Or.inr ⟨cmd, record, estimate, c, _, rfl, known, allowed, rfl, ?_,
      consumeTokens_ok boost granted hashed⟩
    exact ⟨rfl, estimates_named known, estimates_fields known, good, rfl,
      by simpa [fieldTree] using rooted⟩
  · refine Or.inl ⟨skip_rest boost granted clean.2.2 refused, ?_⟩
    intro cmd' record' estimate c shape
    cases shape
    exact absurd rfl other

theorem line_starts {toks : List Str} (clean : crlf ∉ toks) (here : p.state = .initial) :
    Starts boost granted p toks := by
  rcases toks with _ | ⟨start, toks⟩
  · exact .idle (.ok ⟨Or.inl here, rfl⟩) (by simp [body])
  simp only [List.mem_cons, not_or] at clean
  obtain ⟨q, begun, state, good, same, rooted⟩ :=
    initial_token boost granted (Ne.symm clean.1) here
  have start_eq := @consumeTokens_ok boost granted _ _ toks _ begun
  rcases toks with _ | ⟨first, toks⟩
  · exact .idle (by rw [start_eq]; exact .ok ⟨by simp [state], same⟩) (by simp [body])
  simp only [List.mem_cons, not_or] at clean
  obtain ⟨rfl, hashed⟩ | ⟨other, refused⟩ :=
    hash_token boost granted (Ne.symm clean.2.1) (Or.inl ⟨state, rfl⟩)
  · rw [consumeTokens_ok boost granted hashed] at start_eq
    obtain ⟨idle, unnamed⟩ |
        ⟨cmd, record, estimate, c, r, rfl, known, allowed, inside, filling, rest⟩ :=
      command_starts boost granted (p := { q with state := .command }) clean.2.2 rfl good rooted
    · refine .idle (by rw [start_eq, ← same]; exact idle) ?_
      intro cmd record estimate c found
      obtain ⟨start', shape⟩ := body_eq_some.mp found
      cases shape
      exact same ▸ unnamed cmd record estimate c rfl
    · exact .named (body_eq_some.mpr ⟨start, rfl⟩) known (same ▸ allowed) inside (same ▸ filling)
        (start_eq.trans rest)
  -- A line that starts with something but a hash has no body.
  · refine .idle (by rw [start_eq, ← same]; exact skip_rest boost granted clean.2.2 refused) ?_
    intro cmd record estimate c found
    obtain ⟨start', shape⟩ := body_eq_some.mp found
    cases shape
    exact absurd rfl other

/-! ### The whole line -/

/-- A line whose tokens do not make the parser throw ends as its last state does. -/
private theorem handleLine_eq {line : Str} {may : Effect → Prop} {P : Plugin → Prop}
    (reaches : (consumeTokens boost granted (tokens line) p).Reaches may P) :
    ∃ q out, P q ∧ (∀ effect ∈ out, may effect) ∧ handleLine boost granted line p =
      ⟨(consumeEnd boost granted q).state, out ++ (consumeEnd boost granted q).output,
        (consumeEnd boost granted q).fault⟩ := by
  obtain ⟨returned, output, holds⟩ := reaches
  refine ⟨_, _, holds, output, ?_⟩
  rw [handleLine, parseString, Outcome.andThen_of_fault_none _ _ returned]
  simp only [consumeToken, if_true]

/-- What a line comes to: the state in which its end finds the parser, and what was put
out before. -/
inductive Comes (line : Str) (p : Plugin) : Result → Prop
  | idle {q : Plugin} {out : List Effect} :
      Idle p.authenticated q → (∀ effect ∈ out, effect.Quiet) →
      (∀ c record, body (tokens line) = some (Command.name c, record) →
        p.authenticated = false ∧ c ≠ .login) →
      Comes line p ⟨(consumeEnd boost granted q).state, out ++ (consumeEnd boost granted q).output,
        (consumeEnd boost granted q).fault⟩
  | package {record : List Str} {q : Plugin} {out : List Effect} :
      body (tokens line) = some (Command.blackbox.name, record) →
      InPackage p.authenticated q → (∀ effect ∈ out, effect.OfPackage) →
      Comes line p ⟨(consumeEnd boost granted q).state, out ++ (consumeEnd boost granted q).output,
        (consumeEnd boost granted q).fault⟩
  | filled {c : Command} {record : List Str} {q : Plugin} {out : List Effect} :
      body (tokens line) = some (c.name, record) → c ≠ .blackbox →
      p.authenticated = true ∨ c = .login →
      Filled p.authenticated c record q → (∀ effect ∈ out, effect.Quiet) →
      Comes line p ⟨(consumeEnd boost granted q).state, out ++ (consumeEnd boost granted q).output,
        (consumeEnd boost granted q).fault⟩

theorem handleLine_comes {line : Str} (here : p.state = .initial)
    (unended : Lines.Open '\r' '\n' line) :
    Comes boost granted line p (handleLine boost granted line p) := by
  have clean := tokens_crlf unended
  cases line_starts boost granted clean here with
  | idle idle unnamed =>
    obtain ⟨q, out, idle, quiet, whole⟩ := handleLine_eq boost granted idle
    rw [whole]
    refine .idle idle quiet ?_
    intro c record found
    obtain ⟨estimate, known⟩ := c.known
    exact unnamed _ _ _ _ found known
  | @named cmd record estimate c q found known allowed inside filling rest =>
    have clean' : crlf ∉ record := by
      obtain ⟨start, shape⟩ := body_eq_some.mp found
      intro member
      exact clean (by simp [shape, member])
    rw [estimates_named known] at found
    -- A package counts its records; any other command has just one.
    by_cases blackbox : c = .blackbox
    · subst blackbox
      have package : InPackage p.authenticated q := by
        obtain ⟨currentCmd, cmd', estimate', -, authenticated, t, tree, -⟩ := filling
        exact ⟨Or.inl inside, currentCmd, cmd', estimate'.le, by simp [tree], authenticated⟩
      have reaches := package_tokens boost granted clean' package
      rw [← rest] at reaches
      obtain ⟨r, out, ended, early, whole⟩ := handleLine_eq boost granted reaches
      rw [whole]
      exact .package found ended early
    · have filled : Filled p.authenticated c [] q :=
        .short inside (Nat.lt_of_lt_of_le Nat.one_pos (Nat.le_max_left _ _)) filling
      have reaches := fill_tokens boost granted clean' blackbox filled
      rw [← rest] at reaches
      obtain ⟨r, out, ended, quiet, whole⟩ := handleLine_eq boost granted reaches
      rw [whole]
      exact .filled found blackbox allowed ended quiet

end Tokens

end Eiptnd.Wialon
