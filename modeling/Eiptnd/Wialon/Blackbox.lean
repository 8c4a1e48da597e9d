import Eiptnd.Wialon.Exceptions

/-! What a black-box package delivers.

The records of a package are separated by bars and their fields by semicolons. Three
states can start the next record, and only one of them starts it with a new tree and
a full count of fields. -/
namespace Eiptnd.Wialon

open Reactive

/-- The fields of a record in the order they are sent. -/
def columns : List Str := (fields .blackbox).reverse

/-- A record as a tree: each field under its name, as far as there are names. -/
def recordTree (record : List Str) : Tree := columns.zip record

/-- The line `#B#r1|r2|…|rk`. -/
def packageLine (records : List (List Str)) : Str :=
  "#B#".toList ++ ['|'].intercalate (records.map ([';'].intercalate ·))

/-! ### Filling a tree -/

theorem columns_length : columns.length = 16 := rfl

theorem recordTree_full {record : List Str} (full : record.length = 16) (more : List Str) :
    recordTree (record ++ more) = recordTree record :=
  @fieldTree_full .blackbox record full more

/-! ### One token -/

/-- The parser is in a package, with so many fields of the record left to read and so
much of it read. -/
structure Reading (here : ParserState) (left : Nat) (content : Tree) (p : Plugin) : Prop where
  state : p.state = here
  estimate : p.estimate = left
  cmd : p.cmd = "B".toList
  currentCmd : p.currentCmd = .blackbox
  tree : ∃ t, p.tree = some t ∧ p.trees[t]? = some content

/-- A handler returns and has delivered exactly these trees. -/
structure Delivers (r : Result) (calls : List Tree) : Prop where
  returned : r.fault = none
  calls : deliveries r.output = calls

structure Gives (r : Result) (calls : List Tree) (here : ParserState) (left : Nat)
    (content : Tree) : Prop extends Delivers r calls where
  reading : Reading here left content r.state

theorem Reading.content {here : ParserState} {left : Nat} {content : Tree} {p : Plugin}
    (reading : Reading here left content p) : p.content = content := by
  obtain ⟨t, current, stored⟩ := reading.tree
  simp [Plugin.content, current, stored]

theorem Delivers.andThen {r : Result} {next : Plugin → Result} {calls more : List Tree}
    (first : Delivers r calls) (second : Delivers (next r.state) more) :
    Delivers (r.andThen next) (calls ++ more) := by
  rw [Outcome.andThen_of_fault_none _ _ first.returned]
  exact ⟨second.returned, by
    simp [deliveries, List.filterMap_append, ← first.calls, ← second.calls]⟩

theorem Gives.andThen {r : Result} {next : Plugin → Result} {calls more : List Tree}
    {here there : ParserState} {left remaining : Nat} {content later : Tree}
    (first : Gives r calls here left content)
    (second : Reading here left content r.state → Gives (next r.state) more there remaining later) :
    Gives (r.andThen next) (calls ++ more) there remaining later := by
  have after := second first.reading
  refine ⟨first.toDelivers.andThen after.toDelivers, ?_⟩
  rw [Outcome.andThen_of_fault_none _ _ first.returned]
  exact after.reading

section Token

variable (boost : Boost) (granted : Bool) {content : Tree} {p : Plugin}

/-- A token that is part of a record. -/
def Ordinary (tok : Str) : Prop := tok ≠ crlf ∧ tok ≠ "|".toList

theorem bar_ne_crlf : "|".toList ≠ crlf := by decide

private theorem Reading.delivers {here : ParserState} {left : Nat}
    (reading : Reading here left content p) (q : Plugin) :
    Delivers (.emit q [.processData p.tree p.content]) [content] :=
  ⟨rfl, by rw [reading.content]; rfl⟩

/-- A field of the record, while there are fields to come. -/
private theorem gives_field {tok : Str} (ordinary : Ordinary tok) {done : List Str}
    (short : done.length < 16) (reading : Reading .body (16 - done.length) (recordTree done) p) :
    Gives (consumeToken boost granted tok p) []
      (if done.length + 1 < 16 then .body else .bar) (16 - (done.length + 1))
      (recordTree (done ++ [tok])) := by
  obtain ⟨state, estimate, cmd, currentCmd, t, current, stored⟩ := reading
  obtain ⟨trees, filled, after⟩ :=
    @consumeField_fills .blackbox done tok p t short currentCmd estimate current stored
  have moved : consumeToken boost granted tok p = consumeBody tok p := by
    simp [consumeToken, ordinary.1, state]
  rw [moved, consumeBody, if_neg (fun bar => ordinary.2 bar.2), filled, Outcome.ok_andThen]
  by_cases last : done.length + 1 < 16
  · have open_ : p.estimate - 1 ≠ 0 := by omega
    rw [if_neg open_, if_pos last]
    exact ⟨⟨rfl, rfl⟩, state, by simp; omega, cmd, currentCmd, t, current, after⟩
  · have closed : p.estimate - 1 = 0 := by omega
    rw [if_pos closed, if_neg last]
    exact ⟨⟨rfl, rfl⟩, by simp [currentCmd], by simp; omega, cmd, currentCmd, t, current, after⟩

/-- A field where no field is left to read. -/
private theorem gives_spent {tok : Str} (ordinary : Ordinary tok)
    (reading : Reading .body 0 content p) :
    Gives (consumeToken boost granted tok p) [] .bar 0 content := by
  obtain ⟨state, estimate, cmd, currentCmd, tree⟩ := reading
  have moved : consumeToken boost granted tok p = .ok { p with state := .bar } := by
    simp only [consumeToken, ordinary.1, if_false, state, consumeBody, ordinary.2, and_false,
      consumeField, estimate, if_true, Outcome.ok_andThen, currentCmd, ne_eq, not_true_eq_false]
  rw [moved]
  exact ⟨⟨rfl, rfl⟩, rfl, estimate, cmd, currentCmd, tree⟩

/-- A field too many: the record is stored and the rest of it skipped. -/
private theorem gives_overlong {tok : Str} (ordinary : Ordinary tok)
    (reading : Reading .bar 0 content p) :
    Gives (consumeToken boost granted tok p) [content] .skipToBarOrEnd 0 content := by
  obtain ⟨state, estimate, cmd, currentCmd, tree⟩ := reading
  have stored := Reading.content ⟨state, estimate, cmd, currentCmd, tree⟩
  have moved : ∃ message, consumeToken boost granted tok p =
      ⟨{ p with isParserError := true, state := .skipToBarOrEnd },
        [.parserError message, .processData p.tree p.content], none⟩ := by
    simp only [consumeToken, ordinary.1, state, ordinary.2, if_false]
    exact ⟨_, rfl⟩
  obtain ⟨message, moved⟩ := moved
  rw [moved, stored]
  exact ⟨⟨rfl, rfl⟩, rfl, estimate, cmd, currentCmd, tree⟩

private theorem gives_skipped {tok : Str} (ordinary : Ordinary tok)
    (reading : Reading .skipToBarOrEnd 0 content p) :
    Gives (consumeToken boost granted tok p) [] .skipToBarOrEnd 0 content := by
  have moved : consumeToken boost granted tok p = .ok p := by
    simp only [consumeToken, ordinary.1, if_false, reading.state, ordinary.2]
  rw [moved]
  exact ⟨⟨rfl, rfl⟩, reading⟩

/-- A bar inside a record stores it and starts the next one afresh. -/
private theorem gives_bar_body {left : Nat} (reading : Reading .body left content p) :
    Gives (consumeToken boost granted "|".toList p) [content] .body 16 [] := by
  obtain ⟨state, estimate, cmd, currentCmd, tree⟩ := reading
  have stored := Reading.content ⟨state, estimate, cmd, currentCmd, tree⟩
  have known : estimates.lookup p.cmd = some (16, .blackbox) := by rw [cmd]; rfl
  have moved : consumeToken boost granted "|".toList p =
      .emit { p with estimate := 16, currentCmd := .blackbox }.newTree
        [.processData p.tree p.content] := by
    simp only [consumeToken, bar_ne_crlf, if_false, state, consumeBody, currentCmd, and_self,
      if_true, storeData, Outcome.emit_andThen, known]
    rfl
  rw [moved, stored]
  exact ⟨⟨rfl, rfl⟩, state, rfl, cmd, rfl, p.trees.length, rfl, by simp [Plugin.newTree]⟩

/-- A bar behind a full record stores it, but leaves its tree and its count in place. -/
private theorem gives_bar_bar (reading : Reading .bar 0 content p) :
    Gives (consumeToken boost granted "|".toList p) [content] .body 0 content := by
  obtain ⟨state, estimate, cmd, currentCmd, tree⟩ := reading
  have stored := Reading.content ⟨state, estimate, cmd, currentCmd, tree⟩
  have moved : consumeToken boost granted "|".toList p =
      .emit { p with state := .body } [.processData p.tree p.content] := by
    simp only [consumeToken, bar_ne_crlf, if_false, state, if_true]
    rfl
  rw [moved, stored]
  exact ⟨⟨rfl, rfl⟩, rfl, estimate, cmd, currentCmd, tree⟩

private theorem gives_bar_skipped (reading : Reading .skipToBarOrEnd 0 content p) :
    Gives (consumeToken boost granted "|".toList p) [] .body 0 content := by
  obtain ⟨state, estimate, cmd, currentCmd, tree⟩ := reading
  have moved : consumeToken boost granted "|".toList p = .ok { p with state := .body } := by
    simp only [consumeToken, bar_ne_crlf, if_false, state, if_true]
  rw [moved]
  exact ⟨⟨rfl, rfl⟩, rfl, estimate, cmd, currentCmd, tree⟩

/-- The end of the line stores a record that is still open. -/
private theorem delivers_end {here : ParserState} {left : Nat} (reading : Reading here left content p)
    (within : here = .body ∨ here = .bar ∨ here = .skipToBarOrEnd) :
    Delivers (consumeToken boost granted crlf p)
      (if here = .skipToBarOrEnd then [] else [content]) := by
  have stored := reading.content
  obtain ⟨state, estimate, cmd, currentCmd, t, current, found⟩ := reading
  have rooted : p.tree ≠ none := by simp [current]
  have acknowledged := commitCommand_blackbox boost granted currentCmd rooted
  have last : Delivers (endOfLine boost granted p)
      (if here = .skipToBarOrEnd then [] else [content]) := by
    rcases within with rfl | rfl | rfl <;>
      simp only [endOfLine, state, currentCmd, ne_eq, not_true_eq_false, if_false, storeData,
        Outcome.emit_andThen, acknowledged, stored, reduceCtorEq, if_true]
    · exact ⟨rfl, rfl⟩
    · exact ⟨rfl, rfl⟩
    · exact ⟨rfl, rfl⟩
  rw [consumeToken, if_pos rfl]
  exact ⟨by rw [consumeEnd_fault, last.returned], by rw [consumeEnd_output, last.calls]⟩

end Token

/-! ### One record -/

theorem consumeTokens_append (boost : Boost) (granted : Bool) (toks more : List Str) (p : Plugin) :
    consumeTokens boost granted (toks ++ more) p =
      (consumeTokens boost granted toks p).andThen (consumeTokens boost granted more) := by
  induction toks generalizing p with
  | nil => rfl
  | cons tok toks ih =>
    simp only [List.cons_append, consumeTokens, Outcome.andThen_assoc]
    congr 1
    funext q
    exact ih q

section Record

variable (boost : Boost) (granted : Bool) {content : Tree} {p : Plugin}

private theorem gives_rest {toks : List Str} (ordinary : ∀ tok ∈ toks, Ordinary tok)
    (reading : Reading .skipToBarOrEnd 0 content p) :
    Gives (consumeTokens boost granted toks p) [] .skipToBarOrEnd 0 content := by
  induction toks generalizing p with
  | nil => exact ⟨⟨rfl, rfl⟩, reading⟩
  | cons tok toks ih =>
    exact (gives_skipped boost granted (ordinary tok (by simp)) reading).andThen
      (ih fun t member => ordinary t (by simp [member]))

/-- A record that has been read as far as there are fields to read: it is stored with
its end, or has been stored already because of what stood behind it. -/
inductive Complete (toks : List Str) (content : Tree) (p : Plugin) : Prop
  | waits : Gives (consumeTokens boost granted toks p) [] .bar 0 content → Complete toks content p
  | stored : Gives (consumeTokens boost granted toks p) [content] .skipToBarOrEnd 0 content →
      Complete toks content p

private theorem complete_full {toks : List Str} (ordinary : ∀ tok ∈ toks, Ordinary tok)
    (reading : Reading .bar 0 content p) : Complete boost granted toks content p := by
  cases toks with
  | nil => exact .waits ⟨⟨rfl, rfl⟩, reading⟩
  | cons tok toks =>
    exact .stored ((gives_overlong boost granted (ordinary tok (by simp)) reading).andThen
      (gives_rest boost granted fun t member => ordinary t (by simp [member])))

/-- The field that completes the record, and whatever is left behind it. -/
private theorem complete_cons {tok : Str} {toks : List Str} (ordinary : ∀ t ∈ toks, Ordinary t)
    (first : Gives (consumeToken boost granted tok p) [] .bar 0 content) :
    Complete boost granted (tok :: toks) content p := by
  cases complete_full boost granted ordinary first.reading with
  | waits gives => exact .waits (first.andThen fun _ => gives)
  | stored gives => exact .stored (first.andThen fun _ => gives)

/-- What follows a full record in its package is read into the old tree: not at all. -/
private theorem complete_spent {toks : List Str} (some : toks ≠ [])
    (ordinary : ∀ tok ∈ toks, Ordinary tok) (reading : Reading .body 0 content p) :
    Complete boost granted toks content p := by
  obtain ⟨tok, toks, rfl⟩ := List.exists_cons_of_ne_nil some
  exact complete_cons boost granted (fun t member => ordinary t (by simp [member]))
    (gives_spent boost granted (ordinary tok (by simp)) reading)

/-- A record from its first field on. -/
private theorem gives_record {done toks : List Str} (ordinary : ∀ tok ∈ toks, Ordinary tok)
    (short : done.length < 16)
    (reading : Reading .body (16 - done.length) (recordTree done) p) :
    (done.length + toks.length < 16 →
      Gives (consumeTokens boost granted toks p) [] .body (16 - (done.length + toks.length))
        (recordTree (done ++ toks))) ∧
    (16 ≤ done.length + toks.length →
      Complete boost granted toks (recordTree (done ++ toks)) p) := by
  induction toks generalizing done p with
  | nil =>
    refine ⟨fun _ => ⟨⟨rfl, rfl⟩, by simpa [consumeTokens] using reading⟩, fun long => ?_⟩
    simp at long
    omega
  | cons tok toks ih =>
    have first := gives_field boost granted (ordinary tok (by simp)) short reading
    have later : ∀ t ∈ toks, Ordinary t := fun t member => ordinary t (by simp [member])
    have joined : done ++ tok :: toks = (done ++ [tok]) ++ toks := by simp
    by_cases last : done.length + 1 < 16
    · rw [if_pos last] at first
      have size : (done ++ [tok]).length = done.length + 1 := by simp
      have start : Reading .body (16 - (done ++ [tok]).length) (recordTree (done ++ [tok]))
          (consumeToken boost granted tok p).state := by
        rw [size]
        exact first.reading
      obtain ⟨within, beyond⟩ := ih later (by omega) start
      simp only [size] at within beyond
      rw [joined]
      constructor
      · intro total
        simp only [List.length_cons] at total
        have gives := first.andThen fun _ => within (by omega)
        rwa [Nat.add_assoc, Nat.add_comm 1] at gives
      · intro total
        simp only [List.length_cons] at total
        cases beyond (by omega) with
        | waits gives => exact .waits (first.andThen fun _ => gives)
        | stored gives => exact .stored (first.andThen fun _ => gives)
    · rw [if_neg last] at first
      have full : (done ++ [tok]).length = 16 := by simp; omega
      refine ⟨fun total => ?_, fun _ => ?_⟩
      · simp only [List.length_cons] at total
        omega
      · rw [joined, recordTree_full full]
        have left : 16 - (done.length + 1) = 0 := by omega
        rw [left] at first
        exact complete_cons boost granted later first

/-! ### All records of a package -/

private theorem complete_bar {toks : List Str} (complete : Complete boost granted toks content p) :
    Gives ((consumeTokens boost granted toks p).andThen (consumeToken boost granted "|".toList))
      [content] .body 0 content := by
  cases complete with
  | waits gives => exact gives.andThen (gives_bar_bar boost granted)
  | stored gives => exact gives.andThen (gives_bar_skipped boost granted)

private theorem complete_end {toks : List Str} (complete : Complete boost granted toks content p) :
    Delivers ((consumeTokens boost granted toks p).andThen (consumeToken boost granted crlf))
      [content] := by
  cases complete with
  | waits gives =>
    have last := delivers_end boost granted gives.reading (Or.inr (Or.inl rfl))
    rw [if_neg (by decide)] at last
    exact gives.toDelivers.andThen last
  | stored gives =>
    have last := delivers_end boost granted gives.reading (Or.inr (Or.inr rfl))
    rw [if_pos rfl] at last
    exact gives.toDelivers.andThen last

/-- A record, the bar behind it and the rest of the line. -/
private theorem delivers_cons {toks more : List Str} {calls later : List Tree}
    {here : ParserState} {left : Nat}
    (first : Gives ((consumeTokens boost granted toks p).andThen
      (consumeToken boost granted "|".toList)) calls here left content)
    (rest : ∀ q, Reading here left content q →
      Delivers ((consumeTokens boost granted more q).andThen (consumeToken boost granted crlf))
        later) :
    Delivers ((consumeTokens boost granted (toks ++ ["|".toList] ++ more) p).andThen
      (consumeToken boost granted crlf)) (calls ++ later) := by
  have joined : (consumeTokens boost granted (toks ++ ["|".toList] ++ more) p).andThen
      (consumeToken boost granted crlf) =
      ((consumeTokens boost granted toks p).andThen (consumeToken boost granted "|".toList)).andThen
        fun q => (consumeTokens boost granted more q).andThen (consumeToken boost granted crlf) := by
    have bar : consumeTokens boost granted ["|".toList] =
        consumeToken boost granted "|".toList := by
      funext q
      exact Outcome.andThen_ok _
    rw [consumeTokens_append, consumeTokens_append, bar, Outcome.andThen_assoc]
  rw [joined]
  exact first.toDelivers.andThen (rest _ first.reading)

/-- Records as the parser takes them: with at least one field, and fields that are
neither a bar nor the end of the line. -/
def Fielded (records : List (List Str)) : Prop :=
  ∀ record ∈ records, record ≠ [] ∧ ∀ tok ∈ record, Ordinary tok

/-- Behind a full record every record is delivered as that one again. -/
private theorem delivers_spent {records : List (List Str)} (some : records ≠ [])
    (fielded : Fielded records) (reading : Reading .body 0 content p) :
    Delivers ((consumeTokens boost granted (["|".toList].intercalate records) p).andThen
      (consumeToken boost granted crlf)) (List.replicate records.length content) := by
  induction records generalizing p with
  | nil => exact absurd rfl some
  | cons record records ih =>
    obtain ⟨nonempty, ordinary⟩ := fielded record (by simp)
    have complete := complete_spent boost granted nonempty ordinary reading
    cases records with
    | nil =>
      rw [List.intercalate_singleton]
      exact complete_end boost granted complete
    | cons next records =>
      rw [List.intercalate_cons_cons]
      exact delivers_cons boost granted (complete_bar boost granted complete) fun q spent =>
        ih (by simp) (fun r member => fielded r (by simp [member])) spent

/-- The trees a package delivers: up to the first record with all its fields each
record's own, and then that record's again and again. -/
def delivered : List (List Str) → List Tree
  | [] => []
  | record :: records =>
    if record.length < 16 then recordTree record :: delivered records
    else List.replicate (records.length + 1) (recordTree record)

private theorem delivers_fresh {records : List (List Str)} (some : records ≠ [])
    (fielded : Fielded records) (reading : Reading .body 16 [] p) :
    Delivers ((consumeTokens boost granted (["|".toList].intercalate records) p).andThen
      (consumeToken boost granted crlf)) (delivered records) := by
  induction records generalizing p with
  | nil => exact absurd rfl some
  | cons record records ih =>
    obtain ⟨nonempty, ordinary⟩ := fielded record (by simp)
    have later : Fielded records := fun r member => fielded r (by simp [member])
    have start : Reading .body (16 - ([] : List Str).length) (recordTree []) p := reading
    obtain ⟨within, beyond⟩ := gives_record boost granted ordinary (by simp) start
    simp only [List.length_nil, Nat.zero_add, List.nil_append] at within beyond
    by_cases short : record.length < 16
    · have gives := within short
      rw [delivered, if_pos short]
      cases records with
      | nil =>
        have last := delivers_end boost granted gives.reading (Or.inl rfl)
        rw [if_neg (by decide)] at last
        rw [List.intercalate_singleton]
        exact gives.toDelivers.andThen last
      | cons next records =>
        rw [List.intercalate_cons_cons]
        exact delivers_cons boost granted (gives.andThen (gives_bar_body boost granted))
          fun q fresh => ih (by simp) later fresh
    · have complete := beyond (by omega)
      rw [delivered, if_neg short]
      cases records with
      | nil =>
        rw [List.intercalate_singleton]
        exact complete_end boost granted complete
      | cons next records =>
        rw [List.intercalate_cons_cons]
        exact delivers_cons boost granted (complete_bar boost granted complete)
          fun q spent => delivers_spent boost granted (by simp) later spent

end Record

/-! ### The line of a package -/

/-- A field as it is sent. -/
def FieldText (field : Str) : Prop := (∀ c ∈ field, c ≠ ';' ∧ c ≠ '#' ∧ c ≠ '|') ∧ ¬ crlf <:+: field

instance (field : Str) : Decidable (FieldText field) :=
  @instDecidableAnd _ _ (List.decidableBAll _ field) inferInstance

theorem FieldText.free {field : Str} (text : FieldText field) :
    Tokens.Free (· == ';') (fun c => c == '#' || c == '|') field := by
  intro c member
  obtain ⟨semicolon, hash, bar⟩ := text.1 c member
  simp [semicolon, hash, bar]

theorem FieldText.ordinary {field : Str} (text : FieldText field) : Ordinary field := by
  constructor
  · rintro rfl
    exact text.2 (List.infix_refl _)
  · rintro rfl
    exact (text.1 '|' (by decide)).2.2 rfl

theorem tokens_packageLine {records : List (List Str)} (some : records ≠ [])
    (nonempty : ∀ record ∈ records, record ≠ [])
    (texts : ∀ record ∈ records, ∀ field ∈ record, FieldText field) :
    tokens (packageLine records) =
      [[], "#".toList, "B".toList, "#".toList] ++ ["|".toList].intercalate records := by
  have grouped := @Tokens.pieces_grouped Char (· == ';') (fun c => c == '#' || c == '|') ';' '|'
    rfl rfl rfl records some nonempty (fun r member f within => (texts r member f within).free)
  have name : Tokens.Free (· == ';') (fun c => c == '#' || c == '|') ['B'] := by
    simp [Tokens.Free]
  have command := @Tokens.pieces_append_kept Char (· == ';') (fun c => c == '#' || c == '|') ['B']
    (['|'].intercalate (records.map ([';'].intercalate ·))) '#' name rfl
  rw [tokens, Tokens.tokens_of_ne_nil (by simp [packageLine])]
  have shape : packageLine records =
      '#' :: (['B'] ++ '#' :: ['|'].intercalate (records.map ([';'].intercalate ·))) := rfl
  rw [shape, Tokens.pieces, if_pos (by rfl), command, grouped]
  rfl

/-- The start of a package, on a connection that has logged in. -/
theorem gives_header (boost : Boost) (granted : Bool) {p : Plugin} (here : p.state = .initial)
    (opened : p.authenticated = true) :
    Gives (consumeTokens boost granted [[], "#".toList, "B".toList, "#".toList] p) [] .body 16 [] := by
  have moved : consumeTokens boost granted [[], "#".toList, "B".toList, "#".toList] p =
      .ok { p.newTree with
        isParserError := false, multicommand := 0, cmd := "B".toList, estimate := 16,
        currentCmd := .blackbox, state := .body } := by
    have notEnd : ([] : Str) ≠ crlf ∧ "#".toList ≠ crlf ∧ "B".toList ≠ crlf := by decide
    have known : estimates.lookup "B".toList = some (16, .blackbox) := rfl
    simp only [consumeTokens, consumeToken, notEnd, if_false, here, consumeInitial,
      Outcome.ok_andThen, if_true, consumeCommand, known, Plugin.newTree, opened, Bool.not_true,
      Bool.false_and, Bool.false_eq_true]
  rw [moved]
  exact ⟨⟨rfl, rfl⟩, rfl, rfl, rfl, rfl, p.trees.length, rfl, by simp [Plugin.newTree]⟩

/-- Every package is handled without a fault, and this is what it delivers. -/
theorem package_delivers (boost : Boost) (granted : Bool) {p : Plugin} (here : p.state = .initial)
    (opened : p.authenticated = true) {records : List (List Str)} (some : records ≠ [])
    (nonempty : ∀ record ∈ records, record ≠ [])
    (texts : ∀ record ∈ records, ∀ field ∈ record, FieldText field) :
    Delivers (handleLine boost granted (packageLine records) p) (delivered records) := by
  have header := gives_header boost granted here opened
  have fielded : Fielded records := fun record member =>
    ⟨nonempty record member, fun field within => (texts record member field within).ordinary⟩
  have rest := delivers_fresh boost granted some fielded header.reading
  rw [handleLine, parseString, tokens_packageLine some nonempty texts, consumeTokens_append,
    Outcome.andThen_assoc]
  exact header.toDelivers.andThen rest

/-! ### Losing and duplicating records -/

def wellFormed (record : List Str) : Bool := record.length == 16

/-- The trees of the well-formed records. -/
def wellFormedTrees (records : List (List Str)) : List Tree :=
  (records.filter wellFormed).map recordTree

/-- A package was handled as it should be: every well-formed record is delivered
exactly once and in order, and where all are well-formed nothing else is. -/
structure PackageDelivered (records : List (List Str)) (r : Result) : Prop where
  returned : r.fault = none
  once : (deliveries r.output).filter (· ∈ wellFormedTrees records) = wellFormedTrees records
  only : (∀ record ∈ records, wellFormed record = true) →
    deliveries r.output = records.map recordTree

/-- Behind the first record with sixteen fields or more nothing can get lost: a
well-formed one is followed only by itself, and an overlong one by no well-formed one. -/
def Separable : List (List Str) → Prop
  | [] => True
  | record :: records =>
    if record.length < 16 then Separable records
    else if record.length = 16 then ∀ later ∈ records, later = record
    else ∀ later ∈ records, later.length ≠ 16

theorem recordTree_length (record : List Str) : (recordTree record).length = min 16 record.length := by
  simp [recordTree, columns_length]

theorem recordTree_injective {r q : List Str} (full : r.length = 16) (other : q.length = 16)
    (same : recordTree r = recordTree q) : r = q := by
  have values := congrArg (List.map Prod.snd) same
  rw [recordTree, recordTree, List.map_snd_zip (by rw [full, columns_length]),
    List.map_snd_zip (by rw [other, columns_length])] at values
  exact values

theorem mem_wellFormedTrees {records : List (List Str)} {t : Tree}
    (member : t ∈ wellFormedTrees records) : t.length = 16 := by
  simp only [wellFormedTrees, List.mem_map, List.mem_filter, wellFormed, beq_iff_eq] at member
  obtain ⟨record, ⟨-, full⟩, rfl⟩ := member
  simp [recordTree_length, full]

/-- The well-formed records are all the same one exactly when their trees are. -/
private theorem wellFormedTrees_replicate {record : List Str} {records : List (List Str)}
    (full : record.length = 16) :
    wellFormedTrees records = List.replicate records.length (recordTree record) ↔
      ∀ later ∈ records, later = record := by
  constructor
  · intro same later member
    have size := congrArg List.length same
    simp only [wellFormedTrees, List.length_map, List.length_replicate,
      List.length_filter_eq_length_iff] at size
    have here := size later member
    have tree : recordTree later ∈ wellFormedTrees records :=
      List.mem_map_of_mem (List.mem_filter.mpr ⟨member, here⟩)
    rw [same] at tree
    exact recordTree_injective (by simpa [wellFormed] using here) full
      (List.eq_of_mem_replicate tree)
  · intro all
    have same : records = List.replicate records.length record := List.eq_replicate_iff.mpr ⟨rfl, all⟩
    have kept : records.filter wellFormed = records :=
      List.filter_eq_self.mpr fun later member => by simp [wellFormed, all later member, full]
    rw [wellFormedTrees, kept]
    conv_lhs => rw [same]
    rw [List.map_replicate]

theorem delivered_once_iff (records : List (List Str)) :
    (delivered records).filter (· ∈ wellFormedTrees records) = wellFormedTrees records ↔
      Separable records := by
  induction records with
  | nil => simp [delivered, wellFormedTrees, Separable]
  | cons record records ih =>
    rcases Nat.lt_trichotomy record.length 16 with short | full | long
    · -- an unfinished record is delivered, but is none of the well-formed ones
      have trees : wellFormedTrees (record :: records) = wellFormedTrees records := by
        have open_ : wellFormed record = false := by simp [wellFormed]; omega
        simp [wellFormedTrees, open_]
      have absent : recordTree record ∉ wellFormedTrees records := by
        intro member
        have size := mem_wellFormedTrees member
        rw [recordTree_length] at size
        omega
      rw [trees, delivered, if_pos short, List.filter_cons_of_neg (by simpa using absent),
        Separable, if_pos short]
      exact ih
    · -- the rest of the package repeats this record
      have notShort : ¬ record.length < 16 := by omega
      have trees : wellFormedTrees (record :: records) =
          recordTree record :: wellFormedTrees records := by
        simp [wellFormedTrees, wellFormed, full]
      rw [delivered, if_neg notShort, List.filter_eq_self.mpr, trees, List.replicate_succ,
        Separable, if_neg notShort, if_pos full, ← wellFormedTrees_replicate full,
        List.cons.injEq]
      · exact ⟨fun same => same.2.symm, fun same => ⟨rfl, same.symm⟩⟩
      · intro t member
        rw [List.eq_of_mem_replicate member, trees]
        simp
    · -- the rest of the package repeats what was read of this record
      have notShort : ¬ record.length < 16 := by omega
      have notFull : record.length ≠ 16 := by omega
      have trees : wellFormedTrees (record :: records) = wellFormedTrees records := by
        simp [wellFormedTrees, wellFormed, notFull]
      have none_iff : (∀ later ∈ records, later.length ≠ 16) ↔ wellFormedTrees records = [] := by
        simp [wellFormedTrees, wellFormed]
      rw [delivered, if_neg notShort, trees, Separable, if_neg notShort, if_neg notFull, none_iff]
      constructor
      · intro same
        by_cases repeated : recordTree record ∈ wellFormedTrees records
        · rw [List.filter_eq_self.mpr fun t member => by
            simpa [List.eq_of_mem_replicate member] using repeated] at same
          have size := congrArg List.length same
          have bound : (wellFormedTrees records).length ≤ records.length := by
            simpa [wellFormedTrees] using List.length_filter_le wellFormed records
          simp only [List.length_replicate] at size
          omega
        · rw [List.filter_eq_nil_iff.mpr fun t member => by
            simpa [List.eq_of_mem_replicate member] using repeated] at same
          exact same.symm
      · intro nothing
        simp [nothing]

theorem delivered_only {records : List (List Str)} (all : ∀ record ∈ records, wellFormed record = true)
    (separable : Separable records) : delivered records = records.map recordTree := by
  cases records with
  | nil => rfl
  | cons record records =>
    have full : record.length = 16 := by simpa [wellFormed] using all record (by simp)
    have notShort : ¬ record.length < 16 := by omega
    rw [Separable, if_neg notShort, if_pos full] at separable
    have same : records = List.replicate records.length record :=
      List.eq_replicate_iff.mpr ⟨rfl, separable⟩
    rw [delivered, if_neg notShort, List.replicate_succ, List.map_cons]
    conv_rhs => rw [same]
    rw [List.map_replicate]

/-- On every connection that has logged in and is between two lines, a package is
handled as it should be exactly when its records are separable. -/
theorem package_delivered_iff {boost : Boost} {granted : Bool} {s : Session}
    (reached : (session boost).Reachable s) (alive : s.crashed = false) (boundary : s.pending = [])
    (opened : s.plugin.authenticated = true) {records : List (List Str)} (some : records ≠ [])
    (nonempty : ∀ record ∈ records, record ≠ [])
    (texts : ∀ record ∈ records, ∀ field ∈ record, FieldText field) :
    PackageDelivered records (handleLine boost granted (packageLine records) s.plugin) ↔
      Separable records := by
  have here := Session.at_rest reached alive boundary
  obtain ⟨returned, calls⟩ := package_delivers boost granted here opened some nonempty texts
  rw [← delivered_once_iff]
  constructor
  · intro right
    rw [← calls]
    exact right.once
  · intro once
    refine ⟨returned, by rw [calls]; exact once, fun all => ?_⟩
    rw [calls]
    exact delivered_only all ((delivered_once_iff records).mp once)

/-- Sixteen fields, the first one told apart. -/
def sampleRecord (date : Str) : List Str := date :: (List.range 15).map decimal

theorem sampleRecord_texts (date : Str) (text : FieldText date) :
    ∀ field ∈ sampleRecord date, FieldText field := by
  intro field member
  rcases List.mem_cons.mp member with rfl | later
  · exact text
  · have digits : ∀ field ∈ (List.range 15).map decimal, FieldText field := by decide +kernel
    exact digits field later

theorem package_delivered_iff_sample :
    PackageDelivered [["a".toList], sampleRecord "b".toList]
      (handleLine plain true (packageLine [["a".toList], sampleRecord "b".toList])
        loggedIn.plugin) ↔
    Separable [["a".toList], sampleRecord "b".toList] := by
  obtain ⟨alive, boundary, opened⟩ := loggedIn_ready
  refine package_delivered_iff loggedIn_reachable alive boundary opened (by simp)
    (by simp [sampleRecord]) ?_
  intro record member field within
  rcases List.mem_pair.mp member with rfl | rfl
  · rw [List.mem_singleton.mp within]
    decide +kernel
  · exact sampleRecord_texts _ (by decide +kernel) field within

/-- Of two well-formed records that differ, the first is delivered twice and the second
not at all. -/
theorem package_loses_second : (session plain).Reachable loggedIn ∧ loggedIn.crashed = false ∧
    loggedIn.pending = [] ∧ loggedIn.plugin.authenticated = true ∧
    deliveries (handleLine plain true
      (packageLine [sampleRecord "a".toList, sampleRecord "b".toList]) loggedIn.plugin).output =
        [recordTree (sampleRecord "a".toList), recordTree (sampleRecord "a".toList)] ∧
    ¬ PackageDelivered [sampleRecord "a".toList, sampleRecord "b".toList]
      (handleLine plain true (packageLine [sampleRecord "a".toList, sampleRecord "b".toList])
        loggedIn.plugin) := by
  obtain ⟨alive, boundary, opened⟩ := loggedIn_ready
  have twice : deliveries (handleLine plain true
      (packageLine [sampleRecord "a".toList, sampleRecord "b".toList]) loggedIn.plugin).output =
        [recordTree (sampleRecord "a".toList), recordTree (sampleRecord "a".toList)] := by
    decide +kernel
  refine ⟨loggedIn_reachable, alive, boundary, opened, twice, ?_⟩
  intro right
  have each := right.only (by decide)
  rw [twice] at each
  exact absurd each (by decide)

end Eiptnd.Wialon
