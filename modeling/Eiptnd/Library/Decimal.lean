import Mathlib.Data.List.TakeWhile

/-! Natural numbers in decimal notation, at the start of a text. -/
namespace Decimal

/-- The digits a text starts with. -/
def digits (s : List Char) : List Char := s.takeWhile Char.isDigit

/-- What follows them. -/
def rest (s : List Char) : List Char := s.dropWhile Char.isDigit

def value (ds : List Char) : Nat := Nat.ofDigitChars 10 ds 0

/-- An integer in decimal notation. -/
def ofInt (n : Int) : List Char :=
  if n < 0 then '-' :: Nat.toDigits 10 n.natAbs else Nat.toDigits 10 n.natAbs

/-- The text does not start with a digit. -/
def Ends (s : List Char) : Prop := ∀ c ∈ s.head?, c.isDigit = false

theorem digits_of_ends {s : List Char} (ends : Ends s) : digits s = [] := by
  cases s with
  | nil => rfl
  | cons c s => exact List.takeWhile_cons_of_neg (by simp [ends c rfl])

theorem rest_of_ends {s : List Char} (ends : Ends s) : rest s = s := by
  cases s with
  | nil => rfl
  | cons c s => exact List.dropWhile_cons_of_neg (by simp [ends c rfl])

theorem digits_append {ds s : List Char} (all : ∀ c ∈ ds, c.isDigit = true) (ends : Ends s) :
    digits (ds ++ s) = ds := by
  rw [digits, List.takeWhile_append_of_pos all, ← digits, digits_of_ends ends, List.append_nil]

theorem rest_append {ds s : List Char} (all : ∀ c ∈ ds, c.isDigit = true) (ends : Ends s) :
    rest (ds ++ s) = s := by
  rw [rest, List.dropWhile_append_of_pos all, ← rest, rest_of_ends ends]

theorem isDigit_of_mem {n : Nat} : ∀ c ∈ Nat.toDigits 10 n, c.isDigit = true :=
  fun _ member => Nat.isDigit_of_mem_toDigits (by decide) (by decide) member

theorem value_toDigits (n : Nat) : value (Nat.toDigits 10 n) = n := Nat.ofDigitChars_ten_toDigits

theorem value_singleton (c : Char) : value [c] = c.toNat - 48 := Nat.zero_add _

/-- A number is written without leading zeros. -/
theorem head_toDigits {n : Nat} (pos : 0 < n) : (Nat.toDigits 10 n).head? ≠ some '0' := by
  induction n using Nat.strongRecOn with
  | ind n ih =>
    by_cases small : n < 10
    · rw [Nat.toDigits_of_lt_base small]
      intro zero
      have same : n = 0 := by simpa using zero
      omega
    · rw [Nat.toDigits_of_base_le (by decide) (Nat.le_of_not_lt small)]
      have front := ih (n / 10) (by omega) (by omega)
      cases shape : Nat.toDigits 10 (n / 10) with
      | nil => exact absurd shape Nat.toDigits_ne_nil
      | cons c cs =>
        rw [shape] at front
        exact front

end Decimal
