import Eiptnd.Library.Lines

/-! An input buffer that is read through a position, with size arithmetic that wraps.

What has been read stays in front of the position until more is committed, so that
a position can also move back. -/
namespace Streambuf

universe u

/-- Values a size can have. -/
def sizes : Nat := 2 ^ 64

/-- Subtraction of sizes. -/
def sizeSub (a b : Nat) : Nat := (a + (sizes - b % sizes)) % sizes

theorem sizeSub_of_le {a b : Nat} (le : b ≤ a) (fits : a < sizes) : sizeSub a b = a - b := by
  have small : b % sizes = b := Nat.mod_eq_of_lt (by omega)
  have shape : a + (sizes - b) = (a - b) + sizes := by omega
  rw [sizeSub, small, shape, Nat.add_mod_right, Nat.mod_eq_of_lt (by omega)]

/-- A difference below zero counts down from the top. -/
theorem sizeSub_of_lt {a b : Nat} (lt : a < b) (fits : b < sizes) :
    sizeSub a b = sizes - (b - a) := by
  have small : b % sizes = b := Nat.mod_eq_of_lt fits
  rw [sizeSub, small, Nat.mod_eq_of_lt (by omega)]
  omega

end Streambuf

/-- The bytes put in, and how many of them have been read. -/
structure Streambuf (α : Type u) where
  data : List α
  pos : Nat
  bound : pos ≤ data.length
  deriving DecidableEq, Repr

namespace Streambuf

variable {α : Type u}

def empty : Streambuf α := ⟨[], 0, Nat.le_refl 0⟩

def unread (b : Streambuf α) : List α := b.data.drop b.pos

def size (b : Streambuf α) : Nat := b.data.length - b.pos

/-- New bytes go behind the unread ones. -/
def commit (bytes : List α) (b : Streambuf α) : Streambuf α := ⟨b.unread ++ bytes, 0, Nat.zero_le _⟩

/-- The position moves on by `n`, in size arithmetic, but not past the end. -/
def consume (n : Nat) (b : Streambuf α) : Streambuf α :=
  ⟨b.data, min ((b.pos + n) % sizes) b.data.length, Nat.min_le_right _ _⟩

/-- What a `std::istream` over the buffer reads as a line; the flag is set when the
end of the buffer came before the end symbol. -/
def getline (isEnd : α → Bool) (b : Streambuf α) : List α × Bool × Streambuf α :=
  ((Lines.getline isEnd b.unread).1, !b.unread.any isEnd,
    ⟨b.data, b.data.length - (Lines.getline isEnd b.unread).2.length, Nat.sub_le _ _⟩)

@[simp] theorem unread_empty : (empty : Streambuf α).unread = [] := rfl

@[simp] theorem unread_commit (bytes : List α) (b : Streambuf α) :
    (b.commit bytes).unread = b.unread ++ bytes := by
  simp [commit, unread]

theorem unread_consume (n : Nat) (b : Streambuf α) :
    (b.consume n).unread = b.data.drop (min ((b.pos + n) % sizes) b.data.length) := rfl

theorem unread_getline (isEnd : α → Bool) (b : Streambuf α) : (b.getline isEnd).2.2.unread =
    b.data.drop (b.data.length - (Lines.getline isEnd b.unread).2.length) := rfl

theorem length_unread (b : Streambuf α) : b.unread.length = b.size := by
  simp [unread, size]

/-- The buffer at the place where the rest of its data begins. -/
theorem unread_of_suffix {b : Streambuf α} {rest : List α} (suffix : rest <:+ b.data) :
    b.data.drop (b.data.length - rest.length) = rest := by
  obtain ⟨front, same⟩ := suffix
  simp [← same]

theorem unread_suffix (b : Streambuf α) : b.unread <:+ b.data := List.drop_suffix _ _

section Getline

variable {isEnd : α → Bool} {b : Streambuf α}

theorem getline_ended {line rest : List α} {e : α} (found : b.unread = line ++ e :: rest)
    (clear : ∀ c ∈ line, isEnd c = false) (ends : isEnd e = true) :
    (b.getline isEnd).1 = line ∧ (b.getline isEnd).2.1 = false ∧
      (b.getline isEnd).2.2.unread = rest := by
  have cut := @Lines.getline_ended _ isEnd line rest e clear ends
  have suffix : rest <:+ b.data := by
    refine List.IsSuffix.trans ?_ b.unread_suffix
    rw [found]
    exact ⟨line ++ [e], by simp⟩
  refine ⟨by simp [getline, found, cut], by simp [getline, found, ends], ?_⟩
  rw [unread_getline, found, cut]
  exact unread_of_suffix suffix

theorem getline_unended (clear : ∀ c ∈ b.unread, isEnd c = false) :
    (b.getline isEnd).1 = b.unread ∧ (b.getline isEnd).2.1 = true ∧
      (b.getline isEnd).2.2.unread = [] := by
  have cut := Lines.getline_unended clear
  refine ⟨by simp [getline, cut], ?_, ?_⟩
  · simp only [getline, Bool.not_eq_true', List.any_eq_false]
    exact fun c member => by simp [clear c member]
  · rw [unread_getline, cut]
    simp

end Getline

/-- Consuming all but the last bytes, wherever the position was: also when it has to
move back. -/
theorem consume_to {b : Streambuf α} {rest : List α} (suffix : rest <:+ b.data)
    (fits : b.data.length < sizes) :
    (b.consume (sizeSub b.size rest.length)).unread = rest := by
  have short := suffix.length_le
  have bound := b.bound
  have place : (b.pos + sizeSub b.size rest.length) % sizes = b.data.length - rest.length := by
    by_cases back : b.size < rest.length
    · rw [sizeSub_of_lt back (by omega)]
      have shape : b.pos + (sizes - (rest.length - b.size)) =
          (b.data.length - rest.length) + sizes := by
        unfold size at back ⊢
        omega
      rw [shape, Nat.add_mod_right, Nat.mod_eq_of_lt (by omega)]
    · rw [sizeSub_of_le (by omega) (by unfold size; omega), Nat.mod_eq_of_lt (by unfold size; omega)]
      unfold size at back ⊢
      omega
  rw [unread_consume, place, Nat.min_eq_left (Nat.sub_le _ _)]
  exact unread_of_suffix suffix

end Streambuf
