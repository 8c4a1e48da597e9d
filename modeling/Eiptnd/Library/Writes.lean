import Mathlib.Data.List.Basic

/-! Writes that read their bytes from the caller's buffer while they are outstanding.

A write is started for the first so many bytes of a buffer. It takes them one by one, each
as the buffer has it at that moment, and is complete when it has taken them all. -/
namespace Writes

universe u

/-- An outstanding write: the bytes it was started for, and how many it has taken. -/
structure Write where
  size : Nat
  taken : Nat
  deriving DecidableEq, Repr

/-- The writes that are outstanding, what they have put on the wire, and what they were
started for. -/
structure Channel (α : Type u) where
  outstanding : List Write
  wire : List α
  texts : List (List α)
  deriving DecidableEq, Repr

namespace Channel

variable {α : Type u}

def empty : Channel α := ⟨[], [], []⟩

/-- A write is started for a text that stands at the start of the buffer. -/
def start (text : List α) (c : Channel α) : Channel α :=
  { c with outstanding := c.outstanding ++ [⟨text.length, 0⟩], texts := c.texts ++ [text] }

/-- A write takes its next byte. -/
def take (buffer : List α) (place : Nat) (c : Channel α) : Option (Channel α) :=
  match c.outstanding[place]? with
  | none => none
  | some w =>
    if w.taken < w.size then
      match buffer[w.taken]? with
      | none => none
      | some byte => some { c with
          outstanding := c.outstanding.set place { w with taken := w.taken + 1 }
          wire := c.wire ++ [byte] }
    else none

/-- A write that has taken all its bytes is complete. -/
def finish (place : Nat) (c : Channel α) : Option (Channel α) :=
  match c.outstanding[place]? with
  | none => none
  | some w =>
    if w.taken = w.size then some { c with outstanding := c.outstanding.eraseIdx place } else none

/-- Nothing is outstanding and all texts are on the wire, or only the last one is
outstanding, the buffer still starts with it, and all before it are on the wire, with as
much of it as has been taken. -/
inductive Intact (buffer : List α) (c : Channel α) : Prop
  | idle : c.outstanding = [] → c.wire = c.texts.flatten → Intact buffer c
  | busy {texts : List (List α)} {text : List α} {taken : Nat} :
      c.outstanding = [⟨text.length, taken⟩] → c.texts = texts ++ [text] → text <+: buffer →
      taken ≤ text.length → c.wire = texts.flatten ++ text.take taken → Intact buffer c

variable {buffer buffer' : List α} {c c' : Channel α}

theorem Intact.single (intact : Intact buffer c) : c.outstanding.length ≤ 1 := by
  cases intact with
  | idle none => simp [none]
  | busy one => simp [one]

theorem intact_empty : Intact buffer (empty : Channel α) := .idle rfl rfl

theorem Intact.start (intact : Intact buffer c) (none : c.outstanding = []) {text : List α}
    (written : text <+: buffer') : Intact buffer' (c.start text) := by
  cases intact with
  | idle _ wire =>
    exact .busy (by simp [Channel.start, none]) rfl written (Nat.zero_le _)
      (by simp [Channel.start, wire])
  | busy one => simp [none] at one

theorem Intact.take (intact : Intact buffer c) {place : Nat}
    (moved : c.take buffer place = some c') : Intact buffer c' := by
  rw [Channel.take] at moved
  split at moved
  · cases moved
  next w found =>
    split at moved
    next more =>
      split at moved
      · cases moved
      next byte here =>
        cases moved
        cases intact with
        | idle none => simp [none] at found
        | @busy texts text taken one last written bound wire =>
          -- The only write is the one that takes.
          rw [one] at found
          simp only [List.getElem?_singleton, Option.ite_none_right_eq_some, Option.some.injEq] at found
          obtain ⟨rfl, rfl⟩ := found
          have own : text[taken]? = some byte := by
            obtain ⟨rest, rfl⟩ := written
            rwa [List.getElem?_append_left more] at here
          refine @Intact.busy _ _ _ texts text (taken + 1) (by simp [one]) last written more ?_
          simp [wire, List.take_add_one, own]
    next => cases moved

theorem Intact.finish (intact : Intact buffer c) {place : Nat}
    (done : c.finish place = some c') : Intact buffer c' := by
  rw [Channel.finish] at done
  split at done
  · cases done
  next w found =>
    split at done
    next all =>
      cases done
      cases intact with
      | idle none => simp [none] at found
      | @busy texts text taken one last written bound wire =>
        rw [one] at found
        simp only [List.getElem?_singleton, Option.ite_none_right_eq_some, Option.some.injEq] at found
        obtain ⟨rfl, rfl⟩ := found
        refine .idle (by simp [one]) ?_
        simp only at all
        simp [wire, last, all]
    next => cases done

/-- When nothing is outstanding, the wire has carried the texts one after another. -/
theorem Intact.complete (intact : Intact buffer c) (none : c.outstanding = []) :
    c.wire = c.texts.flatten := by
  cases intact with
  | idle _ wire => exact wire
  | busy one => simp [none] at one

/-- What the wire has carried are the first bytes of the texts. -/
theorem Intact.carried (intact : Intact buffer c) : c.wire <+: c.texts.flatten := by
  cases intact with
  | idle _ wire => exact wire ▸ List.prefix_refl _
  | busy one last written bound wire =>
    rw [wire, last, List.flatten_append, List.flatten_singleton]
    exact (List.prefix_append_right_inj _).mpr (List.take_prefix _ _)

end Channel

end Writes
