import Mathlib.Algebra.Ring.Nat
import Mathlib.Data.List.Basic
import Mathlib.Data.List.Infix
import Mathlib.Data.List.TakeWhile

/-! Lines of a byte stream.

`split` cuts a stream at every occurrence of a two-symbol terminator, however the
stream was cut into chunks before. `getline` is the reader's primitive: up to one
end symbol, which is taken away with the line. -/
namespace Lines

universe u

variable {α : Type u}

section Open

variable (cr lf : α)

/-- No terminator occurs in the text. -/
def Open (s : List α) : Prop := ¬ [cr, lf] <:+: s

instance [DecidableEq α] (s : List α) : Decidable (Open cr lf s) :=
  inferInstanceAs (Decidable (¬ _))

variable {cr lf}

theorem open_nil : Open cr lf [] := by simp [Open]

theorem open_cons {c : α} {s : List α} :
    Open cr lf (c :: s) ↔ ¬ [cr, lf] <+: c :: s ∧ Open cr lf s := by
  simp [Open, List.infix_cons_iff]

theorem Open.tail {c : α} {s : List α} (unended : Open cr lf (c :: s)) : Open cr lf s :=
  (open_cons.mp unended).2

theorem not_open_append (line rest : List α) : ¬ Open cr lf (line ++ cr :: lf :: rest) := by
  intro unended
  exact unended ⟨line, rest, by simp⟩

/-- Every text is unterminated or begins with a first line. -/
theorem open_or_line (cr lf : α) (s : List α) :
    Open cr lf s ∨ ∃ line rest, s = line ++ cr :: lf :: rest ∧ Open cr lf line := by
  induction s with
  | nil => exact Or.inl open_nil
  | cons c s ih =>
    by_cases here : [cr, lf] <+: c :: s
    · obtain ⟨rest, joined⟩ := here
      exact Or.inr ⟨[], rest, joined.symm, open_nil⟩
    · rcases ih with unended | ⟨line, rest, rfl, unended⟩
      · exact Or.inl (open_cons.mpr ⟨here, unended⟩)
      · refine Or.inr ⟨c :: line, rest, rfl, open_cons.mpr ⟨?_, unended⟩⟩
        intro found
        exact here (found.trans ⟨cr :: lf :: rest, rfl⟩)

end Open

section Split

variable [DecidableEq α] (cr lf : α)

/-- A symbol in front belongs to the first line, or to the rest if no line ends. -/
def push (c : α) : List (List α) × List α → List (List α) × List α
  | ([], rest) => ([], c :: rest)
  | (l :: ls, rest) => ((c :: l) :: ls, rest)

/-- The terminated lines of a stream, without their terminators, and the
unterminated rest. -/
def split : List α → List (List α) × List α
  | [] => ([], [])
  | [c] => ([], [c])
  | c :: d :: s =>
    if c = cr ∧ d = lf then ([] :: (split s).1, (split s).2) else push c (split (d :: s))

variable {cr lf}

theorem split_open {s : List α} (unended : Open cr lf s) : split cr lf s = ([], s) := by
  induction s using split.induct cr lf with
  | case1 => rfl
  | case2 c => rfl
  | case3 c d s here ih =>
    obtain ⟨rfl, rfl⟩ := here
    exact absurd unended (not_open_append [] s)
  | case4 c d s here ih => simp [split, here, ih unended.tail, push]

/-- The first line is cut off at its terminator. -/
theorem split_line (distinct : cr ≠ lf) {line : List α} (unended : Open cr lf line)
    (rest : List α) : split cr lf (line ++ cr :: lf :: rest) =
      (line :: (split cr lf rest).1, (split cr lf rest).2) := by
  induction line with
  | nil => simp [split]
  | cons c line ih =>
    have later := ih unended.tail
    cases line with
    | nil =>
      have split_here : ¬ (c = cr ∧ cr = lf) := fun both => distinct both.2
      simp [split, split_here, push]
    | cons d line =>
      have split_here : ¬ (c = cr ∧ d = lf) := by
        rintro ⟨rfl, rfl⟩
        exact not_open_append [] line unended
      simp only [List.cons_append] at later ⊢
      simp [split, split_here, later, push]

/-- The lines with their terminators and the rest are the stream again. -/
theorem split_joined (distinct : cr ≠ lf) (s : List α) :
    ((split cr lf s).1.map (· ++ [cr, lf])).flatten ++ (split cr lf s).2 = s := by
  induction size : s.length using Nat.strongRecOn generalizing s with
  | _ n ih =>
    rcases open_or_line cr lf s with unended | ⟨line, rest, rfl, unended⟩
    · simp [split_open unended]
    · have later := ih rest.length (by simp at size; omega) rest rfl
      simp [split_line distinct unended, later]

/-- Cutting does not depend on how the stream arrives: what a first part leaves
unterminated is cut together with what follows. -/
theorem split_append (distinct : cr ≠ lf) (s more : List α) :
    split cr lf (s ++ more) =
      ((split cr lf s).1 ++ (split cr lf ((split cr lf s).2 ++ more)).1,
        (split cr lf ((split cr lf s).2 ++ more)).2) := by
  induction size : s.length using Nat.strongRecOn generalizing s with
  | _ n ih =>
    rcases open_or_line cr lf s with unended | ⟨line, rest, rfl, unended⟩
    · simp [split_open unended]
    · have later := ih rest.length (by simp at size; omega) rest rfl
      simp only [List.append_assoc, List.cons_append, split_line distinct unended, later]

/-- The bytes of a stream, counted line by line. -/
theorem split_length (distinct : cr ≠ lf) (s : List α) :
    ((split cr lf s).1.map (·.length + 2)).sum + (split cr lf s).2.length = s.length := by
  conv_rhs => rw [← split_joined distinct s]
  simp [List.length_flatten, Function.comp_def]

/-- No line holds a terminator. -/
theorem open_of_mem_split (distinct : cr ≠ lf) {s line : List α}
    (member : line ∈ (split cr lf s).1) : Open cr lf line := by
  induction size : s.length using Nat.strongRecOn generalizing s with
  | _ n ih =>
    rcases open_or_line cr lf s with unended | ⟨first, rest, rfl, unended⟩
    · simp [split_open unended] at member
    · rw [split_line distinct unended, List.mem_cons] at member
      rcases member with rfl | later
      · exact unended
      · exact ih rest.length (by simp at size; omega) later rfl

end Split

section Getline

variable (isEnd : α → Bool)

/-- The line up to the first end symbol or to the end of the text, and what stands
behind it; the end symbol itself is gone. -/
def getline (s : List α) : List α × List α :=
  (s.takeWhile (!isEnd ·), (s.dropWhile (!isEnd ·)).drop 1)

variable {isEnd}

theorem getline_ended {line rest : List α} {e : α} (clear : ∀ c ∈ line, isEnd c = false)
    (ends : isEnd e = true) : getline isEnd (line ++ e :: rest) = (line, rest) := by
  have all : ∀ c ∈ line, (!isEnd c) = true := by simpa using clear
  simp [getline, List.takeWhile_append_of_pos all, List.dropWhile_append_of_pos all, ends]

theorem getline_unended {line : List α} (clear : ∀ c ∈ line, isEnd c = false) :
    getline isEnd line = (line, []) := by
  have all : ∀ c ∈ line, (!isEnd c) = true := by simpa using clear
  have taken : line.takeWhile (!isEnd ·) = line := List.takeWhile_eq_self_iff.mpr all
  have dropped : line.dropWhile (!isEnd ·) = [] := List.dropWhile_eq_nil_iff.mpr all
  simp [getline, taken, dropped]

/-- Either an end symbol stops the line, or the text does. -/
theorem ended_or_unended (s : List α) : (∀ c ∈ s, isEnd c = false) ∨
    ∃ line e rest, s = line ++ e :: rest ∧ (∀ c ∈ line, isEnd c = false) ∧ isEnd e = true := by
  induction s with
  | nil => simp
  | cons c s ih =>
    cases here : isEnd c with
    | true => exact Or.inr ⟨[], c, s, rfl, by simp, here⟩
    | false =>
      rcases ih with clear | ⟨line, e, rest, rfl, clear, ends⟩
      · exact Or.inl (by simpa [here] using clear)
      · exact Or.inr ⟨c :: line, e, rest, rfl, by simpa [here] using clear, ends⟩

variable (isEnd) in
/-- What stands behind the last end symbol. -/
def unended : List α → List α
  | [] => []
  | c :: s => if s.any isEnd then unended s else if isEnd c then s else c :: s

theorem unended_clear {s : List α} (clear : ∀ c ∈ s, isEnd c = false) : unended isEnd s = s := by
  cases s with
  | nil => rfl
  | cons c s =>
    have none : s.any isEnd = false := by
      rw [List.any_eq_false]
      exact fun d member => by simp [clear d (List.mem_cons_of_mem c member)]
    simp [unended, none, clear c]

theorem unended_suffix (s : List α) : unended isEnd s <:+ s := by
  induction s with
  | nil => exact List.suffix_refl _
  | cons c s ih =>
    rw [unended]
    split
    · exact ih.trans (List.suffix_cons c s)
    · split
      · exact List.suffix_cons c s
      · exact List.suffix_refl _

theorem unended_ended (front : List α) {rest : List α} {e : α} (ends : isEnd e = true) :
    unended isEnd (front ++ e :: rest) = unended isEnd rest := by
  induction front with
  | nil =>
    cases found : rest.any isEnd with
    | true => simp only [List.nil_append, unended, found, if_true]
    | false =>
      rw [List.any_eq_false] at found
      have clear : ∀ c ∈ rest, isEnd c = false := fun c member => by simpa using found c member
      have none : rest.any isEnd = false := by simpa using clear
      rw [unended_clear clear]
      simp [unended, none, ends]
  | cons c front ih =>
    have found : (front ++ e :: rest).any isEnd = true := by simp [ends]
    rw [List.cons_append, unended, if_pos found, ih]

end Getline

end Lines
