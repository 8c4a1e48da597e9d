import Eiptnd.Wialon.Session

/-! The tables of the parser are not read beyond their ends.

Tokens may come in any order, and completions between them. What the state machine needs
of its tables and of its tree holds in every state reached. -/
namespace Eiptnd.Wialon

open Reactive

/-- Something that happens to the parser. -/
inductive ParserEvent
  | token (granted : Bool) (tok : Str)
  | completed (ok : Bool)
  deriving DecidableEq, Repr

def ParserEvent.run (boost : Boost) : ParserEvent → Plugin → Result
  | .token granted tok => consumeToken boost granted tok
  | .completed ok => handleProcessData ok

/-- The parser by itself: an exception leaves it where it was thrown. -/
def parser (boost : Boost) : Machine Plugin ParserEvent Effect :=
  ⟨Plugin.Fresh, fun p e => some ((e.run boost p).state, (e.run boost p).output)⟩

/-- The tree has these names, in this order. -/
def Plugin.Names (p : Plugin) (names : List Str) : Prop :=
  ∃ t content, p.tree = some t ∧ p.trees[t]? = some content ∧ content.map Prod.fst = names

/-- The command and its count are in the tables, and the tree has the names of the fields that
have been read. -/
structure Plugin.Filed (p : Plugin) : Prop where
  command : ∃ count, estimates.lookup p.cmd = some (count, p.currentCmd)
  bound : p.estimate ≤ (fields p.currentCmd).length
  names : p.Names ((fields p.currentCmd).drop p.estimate).reverse

/-- What each state of the parser relies on. -/
structure Plugin.Indexed (p : Plugin) : Prop where
  rooted : p.state ≠ .initial → p.tree ≠ none
  fresh : p.state = .imei ∨ p.state = .hashFirst ∨ p.state = .command → p.Names []
  filed : p.state = .hashSecond ∨ p.state = .body ∨ p.state = .bar ∨ p.state = .skipToBarOrEnd →
    p.Filed
  package : p.state = .bar ∨ p.state = .skipToBarOrEnd → p.currentCmd = .blackbox ∧ p.estimate = 0

/-- A tree that is handed over is there. -/
def Effect.Rooted : Effect → Prop
  | .processData tree _ => tree ≠ none
  | _ => True

/-- A handler that keeps the invariant, and that neither leaves a table nor lacks the tree. -/
structure Safe (r : Result) : Prop where
  state : r.state.Indexed
  output : ∀ effect ∈ r.output, effect.Rooted
  inside : r.fault ≠ some .outOfRange ∧ r.fault ≠ some .nullTree

theorem Safe.ok {p : Plugin} (indexed : p.Indexed) : Safe (.ok p) := ⟨indexed, by simp, by simp⟩

theorem Safe.andThen {r : Result} {next : Plugin → Result} (first : Safe r)
    (later : r.fault = none → Safe (next r.state)) : Safe (r.andThen next) := by
  cases fault : r.fault with
  | some f => simpa [Outcome.andThen, fault] using first
  | none =>
    have rest := later fault
    rw [Outcome.andThen_of_fault_none _ _ fault]
    refine ⟨rest.state, ?_, rest.inside⟩
    intro effect member
    rcases List.mem_append.mp member with member | member
    · exact first.output effect member
    · exact rest.output effect member

section Steps

variable {boost : Boost} {granted : Bool} {tok : Str} {p : Plugin}

theorem Plugin.Indexed.initial (here : p.state = .initial) : p.Indexed := by
  constructor <;> simp [here]

/-- Outside the fields the tree is all that is needed. -/
theorem Plugin.Indexed.outside (here : p.state = .end_ ∨ p.state = .skipToEnd ∨
    p.state = .binaryData) (rooted : p.tree ≠ none) : p.Indexed := by
  rcases here with here | here | here <;> constructor <;> simp [here, rooted]

/-- Neither the state nor the replies matter. -/
theorem Plugin.Filed.congr {q : Plugin} (filed : p.Filed) (same : q = { p with
    answerBuffer := q.answerBuffer, multicommand := q.multicommand, state := q.state
    authenticated := q.authenticated, isParserError := q.isParserError }) : q.Filed := by
  rw [same]
  exact ⟨filed.command, filed.bound, filed.names⟩

/-- Nor do the flags. -/
theorem Plugin.Indexed.congr {q : Plugin} (indexed : p.Indexed) (same : q = { p with
    answerBuffer := q.answerBuffer, multicommand := q.multicommand
    authenticated := q.authenticated, isParserError := q.isParserError }) : q.Indexed := by
  rw [same]
  exact ⟨indexed.rooted, indexed.fresh, fun here => (indexed.filed here).congr rfl, indexed.package⟩

theorem safe_parserError (message : Str) (indexed : p.Indexed) : Safe (parserError message p) :=
  ⟨indexed.congr rfl, by simp [parserError, Effect.Rooted], by simp [parserError]⟩

theorem safe_answer (message : Str) (indexed : p.Indexed) : Safe (answer message p) :=
  ⟨indexed.congr rfl, by simp [answer_output, Effect.Rooted], by simp⟩

theorem safe_storeData (indexed : p.Indexed) (rooted : p.tree ≠ none) : Safe (storeData p) :=
  ⟨indexed, by simpa [storeData, Effect.Rooted] using rooted, by simp [storeData]⟩

theorem safe_completed (ok : Bool) (indexed : p.Indexed) : Safe (handleProcessData ok p) := by
  rcases handleProcessData_cases ok p with ⟨-, counts⟩ | ⟨-, answers⟩
  · rw [counts]
    exact .ok (indexed.congr rfl)
  · rw [answers]
    exact safe_answer _ indexed

/-! ### The end of a line -/

theorem safe_commit (indexed : p.Indexed) (rooted : p.tree ≠ none) :
    Safe (commitCommand boost granted p) := by
  have awaiting : Plugin.Indexed { p with state := .binaryData } :=
    .outside (Or.inr (Or.inr rfl)) rooted
  rw [commitCommand]
  split
  next none => exact absurd none rooted
  split
  · split
    · exact safe_answer _ indexed
    split
    · refine Safe.andThen ⟨indexed, by simp [Effect.Rooted], by simp⟩ fun _ => ?_
      have rest : Plugin.Indexed { p with state := .initial } := .initial rfl
      cases granted
      · exact safe_answer _ rest
      · exact safe_answer _ (rest.congr rfl)
    · exact ⟨indexed, by simp, by simp⟩
  · exact safe_storeData indexed rooted
  · exact safe_storeData indexed rooted
  · exact safe_answer _ indexed
  · exact safe_storeData indexed rooted
  · exact safe_answer _ indexed
  · dsimp only
    split
    · exact ⟨awaiting, by simp, by simp⟩
    · split
      · exact ⟨awaiting, by simp, by simp⟩
      · exact .ok (.outside (Or.inr (Or.inr rfl)) rooted)

theorem safe_end (indexed : p.Indexed) : Safe (consumeEnd boost granted p) := by
  have ended : Safe (endOfLine boost granted p) := by
    have cases := endOfLine_cases boost granted p
    generalize endOfLine boost granted p = r at cases
    cases cases with
    | cut message here =>
      have rooted := indexed.rooted (by simp [here])
      exact (safe_parserError message indexed).andThen fun _ =>
        safe_commit (indexed.congr rfl) rooted
    | last here =>
      have rooted := indexed.rooted (by rcases here with here | here <;> simp [here])
      exact (safe_storeData indexed rooted).andThen fun _ => safe_commit indexed rooted
    | done here =>
      have rooted := indexed.rooted (by rcases here with here | here <;> simp [here])
      exact safe_commit indexed rooted
    | misplaced message => exact safe_parserError message indexed
    | idle => exact .ok indexed
  exact ended.andThen fun _ => .ok (.initial rfl)

/-! ### Any other token -/

private theorem fields_nodup (c : Command) : (fields c).Nodup := by cases c <;> decide

/-- A field goes into the tree behind those that have been read. -/
private theorem field_filed {name : Str} {t : Nat} (filed : p.Filed) (tree : p.tree = some t)
    (more : p.estimate ≠ 0) (found : (fields p.currentCmd)[p.estimate - 1]? = some name) :
    Plugin.Filed { p with
      estimate := p.estimate - 1, trees := p.trees.modify t (Tree.put name tok) } := by
  obtain ⟨command, bound, t', content, same, stored, names⟩ := filed
  cases tree.symm.trans same
  obtain ⟨inside, here⟩ := List.getElem?_eq_some_iff.mp found
  -- The name in front of those of the fields read so far.
  have next : (fields p.currentCmd).drop (p.estimate - 1) =
      name :: (fields p.currentCmd).drop p.estimate := by
    rw [List.drop_eq_getElem_cons inside, here]
    congr 2
    omega
  have distinct : (name :: (fields p.currentCmd).drop p.estimate).Nodup := by
    rw [← next]
    apply List.Nodup.sublist (List.drop_sublist _ _)
    exact fields_nodup p.currentCmd
  have absent : name ∉ content.map Prod.fst := by
    rw [names, List.mem_reverse]
    exact (List.nodup_cons.mp distinct).1
  refine ⟨command, (Nat.sub_le _ _).trans bound, t, content ++ [(name, tok)], tree, ?_, ?_⟩
  · simp [stored, Tree.put_fresh absent]
  · simp [next, names]

/-- A token in the fields of a command. -/
private theorem field_safe (indexed : p.Indexed) (here : p.state = .body) :
    ∃ estimate trees, consumeField tok p = .ok { p with estimate := estimate, trees := trees } ∧
      Plugin.Filed { p with estimate := estimate, trees := trees } := by
  have filed := indexed.filed (Or.inr (Or.inl here))
  have bound := filed.bound
  obtain ⟨t, tree⟩ := Option.ne_none_iff_exists'.mp (indexed.rooted (by simp [here]))
  by_cases none : p.estimate = 0
  · exact ⟨p.estimate, p.trees, if_pos none, filed⟩
  · have inside : p.estimate - 1 < (fields p.currentCmd).length := by omega
    have found := List.getElem?_eq_getElem inside
    refine ⟨_, _, ?_, @field_filed tok p _ t filed tree none found⟩
    rw [consumeField, if_neg none, found, tree]

private theorem safe_body (indexed : p.Indexed) (here : p.state = .body) :
    Safe (consumeBody tok p) := by
  have filed := indexed.filed (Or.inr (Or.inl here))
  have rooted := indexed.rooted (by simp [here])
  rw [consumeBody]
  split
  next bar =>
    -- The next record has the count of the same command, and a tree without fields.
    obtain ⟨count, known⟩ := filed.command
    have full := estimates_fields known
    refine (safe_storeData indexed rooted).andThen fun _ => ?_
    simp only [storeData, Outcome.emit_state, known]
    have empty : Plugin.Names { p with estimate := count, currentCmd := p.currentCmd }.newTree
        ((fields p.currentCmd).drop count).reverse :=
      ⟨p.trees.length, [], rfl, by simp [Plugin.newTree], by simp [full]⟩
    refine .ok ⟨by simp [Plugin.newTree], ?_, ?_, ?_⟩
    · simp [Plugin.newTree, here]
    · exact fun _ => ⟨⟨count, known⟩, full.le, empty⟩
    · simp [Plugin.newTree, here]
  next other =>
    obtain ⟨estimate, trees, moved, later⟩ := @field_safe tok p indexed here
    rw [moved, Outcome.ok_andThen]
    dsimp only
    split
    next zero =>
      by_cases blackbox : p.currentCmd = .blackbox
      · rw [if_neg (by simp [blackbox])]
        exact .ok ⟨fun _ => rooted, by simp, fun _ => later.congr rfl, fun _ => ⟨blackbox, zero⟩⟩
      · rw [if_pos blackbox]
        exact .ok (.outside (Or.inl rfl) rooted)
    · exact .ok ⟨fun _ => rooted, by simp [here], fun _ => later, by simp [here]⟩

theorem safe_token (indexed : p.Indexed) : Safe (consumeToken boost granted tok p) := by
  by_cases notEnd : tok = crlf
  · rw [consumeToken, if_pos notEnd]
    exact safe_end indexed
  by_cases here : p.state = .body
  · have moved : consumeToken boost granted tok p = consumeBody tok p := by
      simp only [consumeToken, notEnd, if_false, here]
    rw [moved]
    exact safe_body indexed here
  have cases := consumeToken_cases boost granted notEnd p
  generalize consumeToken boost granted tok p = r at cases
  cases cases with
  | begun =>
    have empty : Plugin.Names { p.newTree with
        isParserError := false, multicommand := 0, cmd := notInitialized, state := .hashFirst } [] :=
      ⟨p.trees.length, [], rfl, by simp [Plugin.newTree], rfl⟩
    exact .ok ⟨by simp [Plugin.newTree], fun _ => empty, by simp, by simp⟩
  | hashed next way =>
    rcases way with ⟨from_, rfl⟩ | ⟨from_, -, rfl⟩ | ⟨from_, -, rfl⟩ | ⟨from_, -, rfl⟩
    · exact .ok ⟨fun _ => indexed.rooted (by simp [from_]),
        fun _ => indexed.fresh (Or.inl from_), by simp, by simp⟩
    · exact .ok ⟨fun _ => indexed.rooted (by simp [from_]),
        fun _ => indexed.fresh (Or.inr (Or.inl from_)), by simp, by simp⟩
    · have filed := indexed.filed (Or.inl from_)
      exact .ok ⟨fun _ => indexed.rooted (by simp [from_]), by simp,
        fun _ => filed.congr rfl, by simp⟩
    · have filed := indexed.filed (Or.inr (Or.inr (Or.inr from_)))
      exact .ok ⟨fun _ => indexed.rooted (by simp [from_]), by simp,
        fun _ => filed.congr rfl, by simp⟩
  | refused message from_ =>
    have rooted := indexed.rooted (by rcases from_ with from_ | from_ | from_ <;> simp [from_])
    exact safe_parserError _ (.outside (Or.inr (Or.inl rfl)) rooted)
  | unknown message command =>
    have rooted := indexed.rooted (by simp [command])
    exact safe_parserError _ (.outside (Or.inr (Or.inl rfl)) rooted)
  | barred estimate cmd command =>
    have rooted := indexed.rooted (by simp [command])
    exact .ok (.outside (Or.inr (Or.inl rfl)) rooted)
  | named estimate cmd command found =>
    -- The count is that of the fields, and none of them has been read.
    obtain ⟨t, content, tree, stored, names⟩ := indexed.fresh (Or.inr (Or.inr command))
    have full := estimates_fields found
    refine .ok ⟨fun _ => indexed.rooted (by simp [command]), by simp, fun _ => ?_, by simp⟩
    exact ⟨⟨estimate, found⟩, full.le, t, content, tree, stored, by simp [full, names]⟩
  | recorded _ _ body => exact absurd body here
  | field _ _ _ body => exact absurd body here
  | separated bar =>
    have rooted := indexed.rooted (by simp [bar])
    have filed := indexed.filed (Or.inr (Or.inr (Or.inl bar)))
    exact ⟨⟨fun _ => rooted, by simp, fun _ => filed.congr rfl, by simp⟩,
      by simpa [Effect.Rooted] using rooted, by simp⟩
  | overlong message bar =>
    have rooted := indexed.rooted (by simp [bar])
    have filed := indexed.filed (Or.inr (Or.inr (Or.inl bar)))
    have package := indexed.package (Or.inl bar)
    exact ⟨⟨fun _ => rooted, by simp, fun _ => filed.congr rfl, fun _ => package⟩,
      by simpa [Effect.Rooted] using rooted, by simp⟩
  | skipped => exact .ok indexed
  | failed _ body => exact absurd body here
  | unfiled body => exact absurd body here

theorem ParserEvent.safe (e : ParserEvent) (indexed : p.Indexed) : Safe (e.run boost p) := by
  cases e with
  | token granted tok => exact safe_token indexed
  | completed ok => exact safe_completed ok indexed

end Steps

theorem indexed_of_reachable {boost : Boost} {p : Plugin} (reached : (parser boost).Reachable p) :
    p.Indexed := by
  apply reached.invariant Plugin.Indexed
  · exact fun p fresh => .initial fresh.state
  · intro p e p' out _ indexed stepped
    cases stepped
    exact (e.safe indexed).state

/-- The parser of a connection is one that takes tokens and completions. -/
theorem Session.parser_reachable {boost : Boost} {s : Session}
    (reached : (session boost).Reachable s) : (parser boost).Reachable s.plugin := by
  apply reached.invariant (fun s => (parser boost).Reachable s.plugin)
  · exact fun s fresh => .init fresh.plugin
  · intro s e s' out _ before stepped
    obtain ⟨-, step⟩ := Session.step_cases stepped
    cases step with
    | line => exact before
    | token granted tok rest => exact before.step (e := .token granted tok) rfl
    | complete place ok job => exact before.step (e := .completed ok) rfl

/-- In the fields of a command, its names and its count agree with the tables and with the tree;
between the records of a package nothing is left to be read. So no step leaves a table, and none
lacks the tree. -/
theorem table_in_range {boost : Boost} {p : Plugin} (reached : (parser boost).Reachable p) :
    (p.state = .body →
      (∃ count, estimates.lookup p.cmd = some (count, p.currentCmd)) ∧
      p.estimate ≤ (fields p.currentCmd).length ∧
      p.Names ((fields p.currentCmd).drop p.estimate).reverse) ∧
    (p.state = .bar ∨ p.state = .skipToBarOrEnd → p.currentCmd = .blackbox ∧ p.estimate = 0) ∧
    ∀ e : ParserEvent, (e.run boost p).fault ≠ some .outOfRange ∧
      (e.run boost p).fault ≠ some .nullTree ∧
      ∀ tree content, .processData tree content ∈ (e.run boost p).output → tree ≠ none := by
  have indexed := indexed_of_reachable reached
  refine ⟨fun here => ?_, indexed.package, fun e => ?_⟩
  · have filed := indexed.filed (Or.inr (Or.inl here))
    exact ⟨filed.command, filed.bound, filed.names⟩
  · have safe : Safe (e.run boost p) := e.safe indexed
    exact ⟨safe.inside.1, safe.inside.2, fun tree content member => safe.output _ member⟩

/-- The parser in the second field of a login. -/
def halfway : Plugin := (parser plain).after accepted.plugin
  [.token true [], .token true "#".toList, .token true "L".toList, .token true "#".toList,
    .token true "i".toList]

theorem table_in_range_halfway : halfway.estimate ≤ 2 ∧ halfway.Names ["imei".toList] := by
  have reached : (parser plain).Reachable halfway := .after accepted_fresh.plugin _
  have shape : halfway.state = .body ∧ halfway.currentCmd = .login ∧ halfway.estimate = 1 := by
    decide +kernel
  obtain ⟨here, login, left⟩ := shape
  obtain ⟨-, bound, names⟩ := (table_in_range reached).1 here
  rw [login] at bound names
  rw [left] at names
  exact ⟨bound, names⟩

end Eiptnd.Wialon
