import Mathlib.Data.List.Basic
import Mathlib.Data.List.Infix

/-! Splitting a sequence at delimiters, with empty tokens kept.

A dropped delimiter only ends a token, a kept one is a token of its own, and
whatever stands between two delimiters is a token even when it is empty. The
empty sequence has no tokens at all. -/
namespace Tokens

universe u

variable {α : Type u} (dropped kept : α → Bool)

/-- The tokens of a sequence with something before it: at least one. -/
def pieces : List α → List (List α)
  | [] => [[]]
  | c :: cs =>
    if kept c then [] :: [c] :: pieces cs
    else if dropped c then [] :: pieces cs
    else (pieces cs).modifyHead (c :: ·)

def tokens (s : List α) : List (List α) :=
  if s.isEmpty then [] else pieces dropped kept s

/-- No delimiter occurs in the field. -/
def Free (field : List α) : Prop := ∀ c ∈ field, dropped c = false ∧ kept c = false

variable {dropped kept}

theorem Free.nil : Free dropped kept [] := by simp [Free]

theorem free_cons {c : α} {field : List α} : Free dropped kept (c :: field) ↔
    (dropped c = false ∧ kept c = false) ∧ Free dropped kept field := by
  simp [Free]

theorem pieces_ne_nil (s : List α) : pieces dropped kept s ≠ [] := by
  induction s with
  | nil => simp [pieces]
  | cons c cs ih =>
    simp only [pieces]
    split
    · simp
    · split
      · simp
      · simpa using ih

theorem tokens_of_ne_nil {s : List α} (some : s ≠ []) :
    tokens dropped kept s = pieces dropped kept s := by
  simp [tokens, some]

/-- A field in front grows the first token. -/
theorem pieces_append {field : List α} (free : Free dropped kept field) (rest : List α) :
    pieces dropped kept (field ++ rest) =
      (pieces dropped kept rest).modifyHead (field ++ ·) := by
  induction field with
  | nil => cases split : pieces dropped kept rest <;> simp [split]
  | cons c cs ih =>
    obtain ⟨⟨notDropped, notKept⟩, rest_free⟩ := free_cons.mp free
    simp only [List.cons_append, pieces, notDropped, notKept, Bool.false_eq_true, if_false,
      ih rest_free, List.modifyHead_modifyHead]
    rfl

theorem pieces_field {field : List α} (free : Free dropped kept field) :
    pieces dropped kept field = [field] := by
  simpa [pieces] using pieces_append free []

theorem pieces_append_kept {field rest : List α} {k : α} (free : Free dropped kept field)
    (isKept : kept k = true) :
    pieces dropped kept (field ++ k :: rest) = field :: [k] :: pieces dropped kept rest := by
  simp [pieces_append free, pieces, isKept]

theorem pieces_append_dropped {field rest : List α} {d : α} (free : Free dropped kept field)
    (isDropped : dropped d = true) (notKept : kept d = false) :
    pieces dropped kept (field ++ d :: rest) = field :: pieces dropped kept rest := by
  simp [pieces_append free, pieces, isDropped, notKept]

/-- Fields joined by a dropped delimiter come back one by one, up to the kept
delimiter or the end behind them. -/
theorem pieces_joined {d : α} (isDropped : dropped d = true) (notKept : kept d = false)
    (fields : List (List α)) (some : fields ≠ []) (free : ∀ f ∈ fields, Free dropped kept f) :
    pieces dropped kept ([d].intercalate fields) = fields ∧
      ∀ k rest, kept k = true → pieces dropped kept ([d].intercalate fields ++ k :: rest) =
        fields ++ [k] :: pieces dropped kept rest := by
  induction fields with
  | nil => exact absurd rfl some
  | cons f fs ih =>
    have first : Free dropped kept f := free f (by simp)
    cases fs with
    | nil =>
      simp only [List.intercalate_singleton]
      exact ⟨pieces_field first, fun k rest isKept => pieces_append_kept first isKept⟩
    | cons g gs =>
      obtain ⟨alone, followed⟩ := ih (by simp) (fun x hx => free x (by simp [hx]))
      simp only [List.intercalate_cons_cons, List.append_assoc, List.singleton_append]
      refine ⟨?_, fun k rest isKept => ?_⟩
      · rw [pieces_append_dropped first isDropped notKept, alone]
      · rw [List.cons_append, pieces_append_dropped first isDropped notKept, followed k rest isKept]
        rfl

/-- Groups of fields, the groups joined by a kept delimiter and their fields by a
dropped one: the tokens are the fields, with the kept delimiter between groups. -/
theorem pieces_grouped {d k : α} (isDropped : dropped d = true) (notKept : kept d = false)
    (isKept : kept k = true) (groups : List (List (List α))) (some : groups ≠ [])
    (nonempty : ∀ g ∈ groups, g ≠ []) (free : ∀ g ∈ groups, ∀ f ∈ g, Free dropped kept f) :
    pieces dropped kept ([k].intercalate (groups.map ([d].intercalate ·))) =
      [[k]].intercalate groups := by
  induction groups with
  | nil => exact absurd rfl some
  | cons g gs ih =>
    have joined := pieces_joined isDropped notKept g (nonempty g (by simp)) (free g (by simp))
    cases gs with
    | nil => simpa using joined.1
    | cons h hs =>
      have later := ih (by simp) (fun x hx => nonempty x (by simp [hx]))
        (fun x hx => free x (by simp [hx]))
      simp only [List.map_cons, List.intercalate_cons_cons, List.append_assoc,
        List.singleton_append] at later ⊢
      rw [joined.2 k _ isKept, later]

/-- The first token is a prefix of the sequence. -/
theorem pieces_head_starts (s : List α) {t : List α} {ts : List (List α)}
    (split : pieces dropped kept s = t :: ts) : t <+: s := by
  induction s generalizing t ts with
  | nil =>
    cases split
    exact List.prefix_refl []
  | cons c cs ih =>
    simp only [pieces] at split
    split at split
    · cases split
      exact List.nil_prefix
    · split at split
      · cases split
        exact List.nil_prefix
      · cases tail : pieces dropped kept cs with
        | nil => exact absurd tail (pieces_ne_nil cs)
        | cons u us =>
          simp only [tail, List.modifyHead_cons, List.cons.injEq] at split
          obtain ⟨rfl, rfl⟩ := split
          exact (List.cons_prefix_cons).mpr ⟨rfl, ih tail⟩

/-- Every token occurs in the sequence as it stands. -/
theorem infix_of_mem_pieces (s : List α) {t : List α} (member : t ∈ pieces dropped kept s) :
    t <:+: s := by
  induction s with
  | nil =>
    simp only [pieces, List.mem_singleton] at member
    simp [member]
  | cons c cs ih =>
    have later (old : t ∈ pieces dropped kept cs) : t <:+: c :: cs :=
      (ih old).trans (List.suffix_cons c cs).isInfix
    cases split : pieces dropped kept (c :: cs) with
    | nil => exact absurd split (pieces_ne_nil _)
    | cons u us =>
      rw [split] at member
      rcases List.mem_cons.mp member with rfl | tail
      · exact (pieces_head_starts _ split).isInfix
      · simp only [pieces] at split
        split at split
        · simp only [List.cons.injEq] at split
          obtain ⟨-, rfl⟩ := split
          rcases List.mem_cons.mp tail with rfl | old
          · exact ⟨[], cs, rfl⟩
          · exact later old
        · split at split
          · simp only [List.cons.injEq] at split
            obtain ⟨-, rfl⟩ := split
            exact later tail
          · cases rest : pieces dropped kept cs with
            | nil => exact absurd rest (pieces_ne_nil cs)
            | cons v vs =>
              simp only [rest, List.modifyHead_cons, List.cons.injEq] at split
              obtain ⟨-, rfl⟩ := split
              exact later (by simp [rest, tail])

theorem infix_of_mem_tokens (s : List α) {t : List α} (member : t ∈ tokens dropped kept s) :
    t <:+: s := by
  rw [tokens] at member
  split at member
  · cases member
  · exact infix_of_mem_pieces s member

/-- The first token is a field: all of the sequence, or what stands in front of the
first delimiter. -/
theorem pieces_cases (s : List α) :
    (Free dropped kept s ∧ pieces dropped kept s = [s]) ∨
    (∃ field d rest, Free dropped kept field ∧ dropped d = true ∧ kept d = false ∧
      s = field ++ d :: rest ∧ pieces dropped kept s = field :: pieces dropped kept rest) ∨
    ∃ field k rest, Free dropped kept field ∧ kept k = true ∧ s = field ++ k :: rest ∧
      pieces dropped kept s = field :: [k] :: pieces dropped kept rest := by
  induction s with
  | nil => exact Or.inl ⟨Free.nil, rfl⟩
  | cons c s ih =>
    cases isKept : kept c with
    | true => exact Or.inr (Or.inr ⟨[], c, s, Free.nil, isKept, rfl, by simp [pieces, isKept]⟩)
    | false =>
      cases isDropped : dropped c with
      | true =>
        exact Or.inr (Or.inl ⟨[], c, s, Free.nil, isDropped, isKept, rfl,
          by simp [pieces, isKept, isDropped]⟩)
      -- A symbol of a field grows the field behind it.
      | false =>
        have grown (ts : List (List α)) (field : List α) (same : pieces dropped kept s = field :: ts) :
            pieces dropped kept (c :: s) = (c :: field) :: ts := by
          simp [pieces, isKept, isDropped, same]
        have longer {field : List α} (free : Free dropped kept field) : Free dropped kept (c :: field) :=
          free_cons.mpr ⟨⟨isDropped, isKept⟩, free⟩
        rcases ih with ⟨free, same⟩ | ⟨field, d, rest, free, drop, keep, rfl, same⟩ |
          ⟨field, k, rest, free, keep, rfl, same⟩
        · exact Or.inl ⟨longer free, grown [] s same⟩
        · exact Or.inr (Or.inl ⟨c :: field, d, rest, longer free, drop, keep, rfl, grown _ field same⟩)
        · exact Or.inr (Or.inr ⟨c :: field, k, rest, longer free, keep, rfl, grown _ field same⟩)

/-- A kept delimiter behind the first token stands there in the sequence. -/
theorem pieces_kept_inv {s t : List α} {k : α} {ts : List (List α)} (isKept : kept k = true)
    (split : pieces dropped kept s = t :: [k] :: ts) :
    Free dropped kept t ∧ ∃ rest, s = t ++ k :: rest ∧ pieces dropped kept rest = ts := by
  rcases @pieces_cases α dropped kept s with
    ⟨-, same⟩ | ⟨field, d, rest, -, -, -, rfl, same⟩ | ⟨field, k', rest, free, -, rfl, same⟩
  · rw [same] at split
    cases split
  · rw [same, List.cons.injEq] at split
    -- What stands behind a dropped delimiter is a field, and no delimiter.
    have first := split.2
    rcases @pieces_cases α dropped kept rest with
      ⟨free, whole⟩ | ⟨f, d', r, free, -, -, rfl, cut⟩ | ⟨f, k', r, free, -, rfl, cut⟩
    · rw [whole] at first
      cases first
      exact absurd (free k (by simp)).2 (by simp [isKept])
    · rw [cut] at first
      cases first
      exact absurd (free k (by simp)).2 (by simp [isKept])
    · rw [cut] at first
      cases first
      exact absurd (free k (by simp)).2 (by simp [isKept])
  · rw [same] at split
    simp only [List.cons.injEq, and_true] at split
    obtain ⟨rfl, rfl, rfl⟩ := split
    exact ⟨free, rest, rfl, rfl⟩

/-- Tokens without a kept delimiter among them are fields, joined by the dropped one. -/
theorem joined_of_pieces {d : α} (only : ∀ c, dropped c = true → c = d) {s : List α}
    (plain : ∀ k, kept k = true → [k] ∉ pieces dropped kept s) :
    s = [d].intercalate (pieces dropped kept s) ∧
      ∀ field ∈ pieces dropped kept s, Free dropped kept field := by
  induction size : s.length using Nat.strongRecOn generalizing s with
  | _ n ih =>
    rcases @pieces_cases α dropped kept s with
      ⟨free, same⟩ | ⟨field, d', rest, free, drop, -, rfl, same⟩ | ⟨field, k, rest, -, keep, rfl, same⟩
    · rw [same]
      simpa using free
    · rw [same] at plain ⊢
      obtain ⟨joined, fields⟩ := ih rest.length (by simp at size; omega)
        (fun k keep member => plain k keep (by simp [member])) rfl
      obtain ⟨t, ts, split⟩ := List.exists_cons_of_ne_nil (@pieces_ne_nil α dropped kept rest)
      refine ⟨?_, ?_⟩
      · rw [split, List.intercalate_cons_cons, ← split, ← joined, only d' drop]
        simp
      · intro f member
        rcases List.mem_cons.mp member with rfl | later
        · exact free
        · exact fields f later
    · exact absurd (by simp [same]) (plain k keep)

/-- Up to two tokens are fields. -/
theorem plain_of_short {s : List α} (short : (pieces dropped kept s).length ≤ 2) :
    ∀ k, kept k = true → [k] ∉ pieces dropped kept s := by
  intro k keep member
  have not_free {field : List α} (free : Free dropped kept field) : [k] ≠ field := by
    rintro rfl
    simpa [keep] using (free k (by simp)).2
  rcases @pieces_cases α dropped kept s with
    ⟨free, same⟩ | ⟨field, d, rest, free, -, -, rfl, same⟩ | ⟨field, k', rest, free, -, rfl, same⟩
  · rw [same, List.mem_singleton] at member
    exact not_free free member
  · rw [same] at short member
    rcases @pieces_cases α dropped kept rest with
      ⟨last, whole⟩ | ⟨f, d', r, -, -, -, rfl, cut⟩ | ⟨f, k', r, -, -, rfl, cut⟩
    · rw [whole] at member
      rcases List.mem_pair.mp member with here | here
      · exact not_free free here
      · exact not_free last here
    · have some := List.length_pos_of_ne_nil (@pieces_ne_nil α dropped kept r)
      simp only [cut, List.length_cons] at short
      omega
    · simp only [cut, List.length_cons] at short
      omega
  · have some := List.length_pos_of_ne_nil (@pieces_ne_nil α dropped kept rest)
    simp only [same, List.length_cons] at short
    omega

end Tokens
