import Mathlib.Logic.Relation
import Mathlib.Data.List.Nodup

/-! Work that passes through two stages in order.

Items are accepted into a waiting line, the line is launched as a batch once the
batch before is finished, and a batch is finished item by item from the front. -/
namespace Pipeline

universe u

variable {α : Type u}

/-- Where every item accepted so far is. -/
structure Stages (α : Type u) where
  accepted : List α
  waiting : List α
  inflight : List α
  done : List α

def Stages.start : Stages α := ⟨[], [], [], []⟩

inductive Step : Stages α → Stages α → Prop
  | accept (x : α) {s : Stages α} :
      Step s { s with accepted := s.accepted ++ [x], waiting := s.waiting ++ [x] }
  | launch {s : Stages α} : s.inflight = [] →
      Step s { s with waiting := [], inflight := s.waiting }
  | finish (x : α) (rest : List α) {s : Stages α} : s.inflight = x :: rest →
      Step s { s with inflight := rest, done := s.done ++ [x] }

/-- Nothing is lost, nothing is doubled and nothing overtakes. -/
def Conserved (s : Stages α) : Prop := s.done ++ s.inflight ++ s.waiting = s.accepted

theorem Step.conserved {s t : Stages α} (step : Step s t) (before : Conserved s) : Conserved t := by
  unfold Conserved at before ⊢
  cases step with
  | accept x => simp [← before]
  | launch empty => simpa [empty] using before
  | finish x rest batch => simpa [batch] using before

theorem conserved_of_steps {s : Stages α} (steps : Relation.ReflTransGen Step .start s) :
    Conserved s := by
  induction steps with
  | refl => rfl
  | tail _ step ih => exact step.conserved ih

/-- Items are done in the order they were accepted in. -/
theorem Conserved.done_starts {s : Stages α} (conserved : Conserved s) : s.done <+: s.accepted := by
  rw [← conserved, List.append_assoc]
  exact List.prefix_append _ _

/-- An item accepted once is in one place, once. -/
theorem Conserved.placed [DecidableEq α] {s : Stages α} {x : α} (conserved : Conserved s)
    (distinct : s.accepted.Nodup) (member : x ∈ s.accepted) :
    (s.waiting.count x = 1 ∧ s.inflight.count x = 0 ∧ s.done.count x = 0) ∨
      (s.waiting.count x = 0 ∧ s.inflight.count x = 1 ∧ s.done.count x = 0) ∨
      (s.waiting.count x = 0 ∧ s.inflight.count x = 0 ∧ s.done.count x = 1) := by
  have once := List.count_eq_one_of_mem distinct member
  rw [← conserved, List.count_append, List.count_append] at once
  omega

/-- A batch may be finished as far as one likes. -/
theorem finish_many (front rest : List α) (s : Stages α) (batch : s.inflight = front ++ rest) :
    Relation.ReflTransGen Step s { s with inflight := rest, done := s.done ++ front } := by
  induction front generalizing s with
  | nil =>
    have same : ({ s with inflight := rest, done := s.done ++ [] } : Stages α) = s := by
      rw [List.append_nil]
      cases s
      cases batch
      rfl
    rw [same]
  | cons x front ih =>
    refine .head (.finish x (front ++ rest) (by simpa using batch)) ?_
    have more := ih { s with inflight := front ++ rest, done := s.done ++ [x] } rfl
    simpa using more

end Pipeline
