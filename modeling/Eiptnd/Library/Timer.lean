import Mathlib.Logic.Basic

/-! A timer and the handlers that wait on it.

A timer is waited on by any number of handlers. When it expires they are all queued;
cancelling it aborts those that still wait, and calls back none that is queued. Each
handler is run once, and told whether its wait was aborted. -/
namespace Timer

universe u

inductive Status
  | waiting | expired | aborted
  deriving DecidableEq, Repr

/-- A handler that has not been run, and what it waits for. -/
structure Handler (α : Type u) where
  purpose : α
  status : Status
  deriving DecidableEq, Repr

variable {α : Type u}

def Handler.expire (h : Handler α) : Handler α :=
  match h.status with
  | .waiting => { h with status := .expired }
  | _ => h

def Handler.cancel (h : Handler α) : Handler α :=
  match h.status with
  | .waiting => { h with status := .aborted }
  | _ => h

def wait (purpose : α) (handlers : List (Handler α)) : List (Handler α) :=
  handlers ++ [⟨purpose, .waiting⟩]

def expire (handlers : List (Handler α)) : List (Handler α) := handlers.map Handler.expire

def cancel (handlers : List (Handler α)) : List (Handler α) := handlers.map Handler.cancel

/-- A handler that waits for such a thing will not be told that it was aborted, as things
stand. -/
def Armed (P : α → Prop) (handlers : List (Handler α)) : Prop :=
  ∃ h ∈ handlers, P h.purpose ∧ h.status ≠ .aborted

@[simp] theorem Handler.expire_purpose (h : Handler α) : h.expire.purpose = h.purpose := by
  rw [Handler.expire]
  split <;> rfl

@[simp] theorem Handler.cancel_purpose (h : Handler α) : h.cancel.purpose = h.purpose := by
  rw [Handler.cancel]
  split <;> rfl

theorem Handler.expire_aborted (h : Handler α) : h.expire.status = .aborted ↔ h.status = .aborted := by
  rw [Handler.expire]
  cases status : h.status <;> simp [status]

theorem Handler.cancel_alive (h : Handler α) : h.cancel.status ≠ .aborted ↔ h.status = .expired := by
  rw [Handler.cancel]
  cases status : h.status <;> simp [status]

/-- Cancelling and expiring leave every handler what it waits for. -/
theorem purposes_cancel {P : α → Prop} {handlers : List (Handler α)}
    (all : ∀ h ∈ handlers, P h.purpose) : ∀ h ∈ cancel handlers, P h.purpose := by
  intro h member
  obtain ⟨before, inside, rfl⟩ := List.mem_map.mp member
  rw [Handler.cancel_purpose]
  exact all before inside

theorem purposes_expire {P : α → Prop} {handlers : List (Handler α)}
    (all : ∀ h ∈ handlers, P h.purpose) : ∀ h ∈ expire handlers, P h.purpose := by
  intro h member
  obtain ⟨before, inside, rfl⟩ := List.mem_map.mp member
  rw [Handler.expire_purpose]
  exact all before inside

theorem purposes_wait {P : α → Prop} {purpose : α} {handlers : List (Handler α)} (new : P purpose)
    (all : ∀ h ∈ handlers, P h.purpose) : ∀ h ∈ wait purpose handlers, P h.purpose := by
  intro h member
  rcases List.mem_append.mp member with old | last
  · exact all h old
  · rw [List.mem_singleton.mp last]
    exact new

/-- Cancelling the timer calls back no handler that is queued. -/
theorem mem_cancel {h : Handler α} {handlers : List (Handler α)} (member : h ∈ handlers)
    (expired : h.status = .expired) : h ∈ cancel handlers := by
  have same : h.cancel = h := by
    rw [Handler.cancel]
    rw [expired]
  exact List.mem_map.mpr ⟨h, member, same⟩

theorem mem_expire {purpose : α} {handlers : List (Handler α)} (member : ⟨purpose, .waiting⟩ ∈ handlers) :
    ⟨purpose, .expired⟩ ∈ expire handlers :=
  List.mem_map.mpr ⟨_, member, rfl⟩

/-! ### What is armed -/

theorem armed_wait {P : α → Prop} {purpose : α} {handlers : List (Handler α)} (new : P purpose) :
    Armed P (wait purpose handlers) :=
  ⟨⟨purpose, .waiting⟩, by simp [wait], new, by simp⟩

theorem Armed.mono {P : α → Prop} {handlers later : List (Handler α)} (armed : Armed P handlers)
    (kept : ∀ h ∈ handlers, h ∈ later) : Armed P later := by
  obtain ⟨h, member, holds, alive⟩ := armed
  exact ⟨h, kept h member, holds, alive⟩

theorem Armed.expire {P : α → Prop} {handlers : List (Handler α)} (armed : Armed P handlers) :
    Armed P (expire handlers) := by
  obtain ⟨h, member, holds, alive⟩ := armed
  refine ⟨h.expire, List.mem_map.mpr ⟨h, member, rfl⟩, ?_, ?_⟩
  · rw [Handler.expire_purpose]
    exact holds
  · rw [ne_eq, Handler.expire_aborted]
    exact alive

/-- Running a handler of another kind, or an aborted one, disarms nothing. -/
theorem Armed.erase [DecidableEq α] {P : α → Prop} {handlers : List (Handler α)} {run : Handler α}
    (armed : Armed P handlers) (other : P run.purpose → run.status = .aborted) :
    Armed P (handlers.erase run) := by
  obtain ⟨h, member, holds, alive⟩ := armed
  have different : h ≠ run := by
    rintro rfl
    exact alive (other holds)
  exact ⟨h, (List.mem_erase_of_ne different).mpr member, holds, alive⟩

section Disarmed

variable {P : α → Prop} {handlers : List (Handler α)}

/-- What is waited for when the timer is cancelled is over, unless it is queued already. -/
theorem disarmed_cancel (none : ∀ h ∈ handlers, P h.purpose → h.status ≠ .expired) :
    ¬ Armed P (cancel handlers) := by
  rintro ⟨h, member, holds, alive⟩
  obtain ⟨before, inside, rfl⟩ := List.mem_map.mp member
  rw [Handler.cancel_purpose] at holds
  exact none before inside holds (before.cancel_alive.mp alive)

theorem not_expired_of_disarmed (disarmed : ¬ Armed P handlers) :
    ∀ h ∈ handlers, P h.purpose → h.status ≠ .expired := by
  intro h member holds expired
  exact disarmed ⟨h, member, holds, by simp [expired]⟩

theorem disarmed_expire (disarmed : ¬ Armed P handlers) : ¬ Armed P (expire handlers) := by
  rintro ⟨h, member, holds, alive⟩
  obtain ⟨before, inside, rfl⟩ := List.mem_map.mp member
  rw [Handler.expire_purpose] at holds
  rw [ne_eq, Handler.expire_aborted] at alive
  exact disarmed ⟨before, inside, holds, alive⟩

theorem disarmed_wait {purpose : α} (other : ¬ P purpose) (disarmed : ¬ Armed P handlers) :
    ¬ Armed P (wait purpose handlers) := by
  rintro ⟨h, member, holds, alive⟩
  rcases List.mem_append.mp member with old | last
  · exact disarmed ⟨h, old, holds, alive⟩
  · rw [List.mem_singleton.mp last] at holds
    exact other holds

theorem disarmed_erase [DecidableEq α] {run : Handler α} (disarmed : ¬ Armed P handlers) :
    ¬ Armed P (handlers.erase run) := by
  intro armed
  exact disarmed (armed.mono fun _ member => List.mem_of_mem_erase member)

end Disarmed

end Timer
