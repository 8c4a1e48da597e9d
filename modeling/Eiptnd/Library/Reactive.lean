import Mathlib.Logic.Relation

/-! Handlers with effects and faults, and the machines that run them.

A handler reads a state and leaves a new one, the effects it had on the outside
world and possibly a fault. What was done before a fault stays done. A machine
takes one event at a time; an event it is not ready for is refused. -/
namespace Reactive

universe u v w x

/-- What one handler leaves behind. -/
structure Outcome (σ : Type u) (ο : Type v) (φ : Type w) where
  state : σ
  output : List ο
  fault : Option φ

namespace Outcome

variable {σ : Type u} {ο : Type v} {φ : Type w}

def ok (s : σ) : Outcome σ ο φ := ⟨s, [], none⟩

def emit (s : σ) (out : List ο) : Outcome σ ο φ := ⟨s, out, none⟩

def fail (s : σ) (f : φ) : Outcome σ ο φ := ⟨s, [], some f⟩

/-- Sequencing: the second handler starts where the first one stopped, unless
that one failed. -/
def andThen (o : Outcome σ ο φ) (next : σ → Outcome σ ο φ) : Outcome σ ο φ :=
  match o.fault with
  | some _ => o
  | none => ⟨(next o.state).state, o.output ++ (next o.state).output, (next o.state).fault⟩

@[simp] theorem ok_state (s : σ) : (ok s : Outcome σ ο φ).state = s := rfl
@[simp] theorem ok_output (s : σ) : (ok s : Outcome σ ο φ).output = [] := rfl
@[simp] theorem ok_fault (s : σ) : (ok s : Outcome σ ο φ).fault = none := rfl
@[simp] theorem emit_state (s : σ) (out : List ο) : (emit s out : Outcome σ ο φ).state = s := rfl
@[simp] theorem emit_output (s : σ) (out : List ο) :
    (emit s out : Outcome σ ο φ).output = out := rfl
@[simp] theorem emit_fault (s : σ) (out : List ο) :
    (emit s out : Outcome σ ο φ).fault = none := rfl
@[simp] theorem fail_state (s : σ) (f : φ) : (fail s f : Outcome σ ο φ).state = s := rfl
@[simp] theorem fail_output (s : σ) (f : φ) : (fail s f : Outcome σ ο φ).output = [] := rfl
@[simp] theorem fail_fault (s : σ) (f : φ) : (fail s f : Outcome σ ο φ).fault = some f := rfl

@[simp] theorem ok_andThen (s : σ) (next : σ → Outcome σ ο φ) : (ok s).andThen next = next s := by
  simp [andThen]

@[simp] theorem emit_andThen (s : σ) (out : List ο) (next : σ → Outcome σ ο φ) :
    (emit s out).andThen next =
      ⟨(next s).state, out ++ (next s).output, (next s).fault⟩ := rfl

@[simp] theorem fail_andThen (s : σ) (f : φ) (next : σ → Outcome σ ο φ) :
    (fail s f).andThen next = fail s f := rfl

theorem andThen_of_fault_none (o : Outcome σ ο φ) (next : σ → Outcome σ ο φ)
    (fine : o.fault = none) : o.andThen next =
      ⟨(next o.state).state, o.output ++ (next o.state).output, (next o.state).fault⟩ := by
  simp [andThen, fine]

@[simp] theorem andThen_ok (o : Outcome σ ο φ) : o.andThen ok = o := by
  obtain ⟨s, out, fault⟩ := o
  cases fault <;> simp [andThen]

theorem andThen_assoc (o : Outcome σ ο φ) (f g : σ → Outcome σ ο φ) :
    (o.andThen f).andThen g = o.andThen fun s => (f s).andThen g := by
  cases first : o.fault with
  | some e => simp [andThen, first]
  | none =>
    cases second : (f o.state).fault with
    | some e => simp [andThen, first, second]
    | none => simp [andThen, first, second, List.append_assoc]

/-- A property every handler keeps is kept by their sequence. -/
theorem andThen_state (P : σ → Prop) (o : Outcome σ ο φ) (next : σ → Outcome σ ο φ)
    (before : P o.state) (kept : ∀ s, P s → P (next s).state) : P (o.andThen next).state := by
  cases first : o.fault with
  | some e => simpa [andThen, first] using before
  | none => simpa [andThen, first] using kept _ before

/-- The handler returns, puts out only what it may, and leaves a state with the
property. -/
structure Reaches (o : Outcome σ ο φ) (may : ο → Prop) (P : σ → Prop) : Prop where
  returned : o.fault = none
  output : ∀ effect ∈ o.output, may effect
  holds : P o.state

theorem Reaches.ok {s : σ} {may : ο → Prop} {P : σ → Prop} (holds : P s) :
    (ok s : Outcome σ ο φ).Reaches may P :=
  ⟨rfl, by simp, holds⟩

/-- The rule for a sequence. -/
theorem Reaches.andThen {o : Outcome σ ο φ} {next : σ → Outcome σ ο φ} {may : ο → Prop}
    {P Q : σ → Prop} (first : o.Reaches may P) (second : ∀ s, P s → (next s).Reaches may Q) :
    (o.andThen next).Reaches may Q := by
  obtain ⟨returned, output, holds⟩ := second _ first.holds
  rw [andThen_of_fault_none _ _ first.returned]
  refine ⟨returned, ?_, holds⟩
  intro effect member
  rcases List.mem_append.mp member with early | late
  · exact first.output effect early
  · exact output effect late

/-- Two outcomes that look the same from outside, as far as it sees the outputs, and leave
related states unless they failed. -/
structure Agrees {κ : Type x} (view : ο → Option κ) (R : σ → σ → Prop)
    (o o' : Outcome σ ο φ) : Prop where
  fault : o.fault = o'.fault
  output : o.output.filterMap view = o'.output.filterMap view
  state : o.fault = none → R o.state o'.state

theorem Agrees.ok {κ : Type x} {view : ο → Option κ} {R : σ → σ → Prop} {s s' : σ}
    (related : R s s') : (ok s : Outcome σ ο φ).Agrees view R (ok s') :=
  ⟨rfl, rfl, fun _ => related⟩

theorem Agrees.emit {κ : Type x} {view : ο → Option κ} {R : σ → σ → Prop} {s s' : σ}
    {out out' : List ο} (seen : out.filterMap view = out'.filterMap view) (related : R s s') :
    (emit s out : Outcome σ ο φ).Agrees view R (emit s' out') :=
  ⟨rfl, seen, fun _ => related⟩

theorem Agrees.fail {κ : Type x} {view : ο → Option κ} {R : σ → σ → Prop} {s s' : σ} {f : φ} :
    (fail s f : Outcome σ ο φ).Agrees view R (fail s' f) :=
  ⟨rfl, rfl, fun returned => absurd returned (by simp)⟩

/-- The rule for two sequences side by side. -/
theorem Agrees.andThen {κ : Type x} {view : ο → Option κ} {R Q : σ → σ → Prop}
    {o o' : Outcome σ ο φ} {next next' : σ → Outcome σ ο φ} (first : o.Agrees view R o')
    (second : ∀ s s', R s s' → (next s).Agrees view Q (next' s')) :
    (o.andThen next).Agrees view Q (o'.andThen next') := by
  obtain ⟨fault, output, state⟩ := first
  cases returned : o.fault with
  | some f =>
    -- Where the first one fails, so does its partner, and neither goes on.
    have stopped : o.andThen next = o := by simp [Outcome.andThen, returned]
    have stopped' : o'.andThen next' = o' := by simp [Outcome.andThen, fault.symm.trans returned]
    rw [stopped, stopped']
    exact ⟨fault, output, fun fine => absurd (returned.symm.trans fine) (by simp)⟩
  | none =>
    obtain ⟨fault', output', state'⟩ := second _ _ (state returned)
    rw [andThen_of_fault_none _ _ returned, andThen_of_fault_none _ _ (fault.symm.trans returned)]
    exact ⟨fault', by simp [output, output'], state'⟩

end Outcome

/-- Events are taken one at a time; `step` refuses an event by `none`. -/
structure Machine (σ : Type u) (ε : Type v) (ο : Type w) where
  init : σ → Prop
  step : σ → ε → Option (σ × List ο)

namespace Machine

variable {σ : Type u} {ε : Type v} {ο : Type w}

/-- Every event in turn, with all that was put out on the way. -/
def run (m : Machine σ ε ο) (s : σ) : List ε → Option (σ × List ο)
  | [] => some (s, [])
  | e :: events =>
    match m.step s e with
    | none => none
    | some (s', out) =>
      match run m s' events with
      | none => none
      | some (last, rest) => some (last, out ++ rest)

/-- A run with one more event at its start. -/
theorem run_cons {m : Machine σ ε ο} {s last : σ} {e : ε} {events : List ε} {out : List ο} :
    m.run s (e :: events) = some (last, out) ↔ ∃ mid first rest,
      m.step s e = some (mid, first) ∧ m.run mid events = some (last, rest) ∧
        out = first ++ rest := by
  rw [Machine.run]
  constructor
  · intro ran
    split at ran
    · cases ran
    next mid first taken =>
      split at ran
      · cases ran
      next rest later =>
        cases ran
        exact ⟨mid, first, rest, taken, later, rfl⟩
  · rintro ⟨mid, first, rest, taken, later, rfl⟩
    rw [taken]
    dsimp only
    rw [later]

/-- A run with one more event at the end. -/
theorem run_concat {m : Machine σ ε ο} {s last : σ} {events : List ε} {e : ε} {out : List ο} :
    m.run s (events ++ [e]) = some (last, out) ↔ ∃ mid first rest,
      m.run s events = some (mid, first) ∧ m.step mid e = some (last, rest) ∧ out = first ++ rest := by
  induction events generalizing s out with
  | nil =>
    simp only [List.nil_append, Machine.run]
    constructor
    · intro ran
      split at ran
      · cases ran
      next taken =>
        cases ran
        exact ⟨s, [], _, rfl, taken, by simp⟩
    · rintro ⟨mid, first, rest, same, taken, rfl⟩
      cases same
      simp [taken]
  | cons d events ih =>
    simp only [List.cons_append, Machine.run]
    cases taken : m.step s d with
    | none => simp
    | some next =>
      obtain ⟨s', out'⟩ := next
      dsimp only
      constructor
      · intro ran
        split at ran
        · cases ran
        next later =>
          cases ran
          obtain ⟨mid, first, rest, before, after, rfl⟩ := ih.mp later
          exact ⟨mid, out' ++ first, rest, by rw [before], after, by simp⟩
      · rintro ⟨mid, first, rest, before, after, rfl⟩
        split at before
        · cases before
        next prior =>
          cases before
          rw [ih.mpr ⟨_, _, _, prior, after, rfl⟩]
          simp

/-- What every step keeps, a run keeps. -/
theorem run_preserves {m : Machine σ ε ο} (P : σ → Prop)
    (preserved : ∀ s e s' out, P s → m.step s e = some (s', out) → P s')
    {s last : σ} {events : List ε} {out : List ο} (before : P s)
    (ran : m.run s events = some (last, out)) : P last := by
  induction events generalizing s out with
  | nil =>
    cases ran
    exact before
  | cons e events ih =>
    obtain ⟨mid, first, rest, taken, later, -⟩ := run_cons.mp ran
    exact ih (preserved _ _ _ _ before taken) later

/-- The states some run from an initial state leads to. -/
inductive Reachable (m : Machine σ ε ο) : σ → Prop
  | init {s : σ} : m.init s → Reachable m s
  | step {s s' : σ} {e : ε} {out : List ο} :
      Reachable m s → m.step s e = some (s', out) → Reachable m s'

/-- The invariant rule: what holds at the start and survives every step from a
reachable state holds in every reachable state. -/
theorem Reachable.invariant {m : Machine σ ε ο} (P : σ → Prop)
    (initially : ∀ s, m.init s → P s)
    (preserved : ∀ s e s' out, m.Reachable s → P s → m.step s e = some (s', out) → P s')
    {s : σ} (reached : m.Reachable s) : P s := by
  induction reached with
  | init start => exact initially _ start
  | step before taken ih => exact preserved _ _ _ _ before ih taken

theorem Reachable.run {m : Machine σ ε ο} {s last : σ} {events : List ε} {out : List ο}
    (reached : m.Reachable s) (ran : m.run s events = some (last, out)) : m.Reachable last :=
  run_preserves m.Reachable (fun _ _ _ _ before taken => before.step taken) reached ran

/-- Where a run ends; a run that is refused somewhere does not leave its start. -/
def after (m : Machine σ ε ο) (s : σ) (events : List ε) : σ :=
  match m.run s events with
  | some (last, _) => last
  | none => s

theorem Reachable.after {m : Machine σ ε ο} {s : σ} (start : m.init s) (events : List ε) :
    m.Reachable (m.after s events) := by
  rw [Machine.after]
  split
  next last out ran => exact Reachable.run (.init start) ran
  next => exact .init start

/-- The states that runs lead to whose steps all meet a condition. -/
inductive ReachableWhere (m : Machine σ ε ο) (P : σ → ε → σ → Prop) : σ → Prop
  | init {s : σ} : m.init s → ReachableWhere m P s
  | step {s s' : σ} {e : ε} {out : List ο} :
      ReachableWhere m P s → m.step s e = some (s', out) → P s e s' → ReachableWhere m P s'

theorem ReachableWhere.reachable {m : Machine σ ε ο} {P : σ → ε → σ → Prop} {s : σ}
    (reached : m.ReachableWhere P s) : m.Reachable s := by
  induction reached with
  | init start => exact .init start
  | step _ taken _ ih => exact ih.step taken

/-- A run that meets a condition meets a weaker one. -/
theorem ReachableWhere.mono {m : Machine σ ε ο} {P Q : σ → ε → σ → Prop} {s : σ}
    (weaker : ∀ s e s', P s e s' → Q s e s') (reached : m.ReachableWhere P s) :
    m.ReachableWhere Q s := by
  induction reached with
  | init start => exact .init start
  | step _ taken kept ih => exact ih.step taken (weaker _ _ _ kept)

/-- Whether a run is taken and its steps all meet a condition. -/
def along (m : Machine σ ε ο) (P : σ → ε → σ → Prop) [∀ s e s', Decidable (P s e s')] (s : σ) :
    List ε → Bool
  | [] => true
  | e :: events =>
    match m.step s e with
    | none => false
    | some (s', _) => decide (P s e s') && along m P s' events

theorem ReachableWhere.along {m : Machine σ ε ο} {P : σ → ε → σ → Prop}
    [∀ s e s', Decidable (P s e s')] {s : σ} (reached : m.ReachableWhere P s) (events : List ε)
    (kept : m.along P s events = true) : m.ReachableWhere P (m.after s events) := by
  induction events generalizing s with
  | nil => exact reached
  | cons e events ih =>
    simp only [Machine.along] at kept
    split at kept
    · cases kept
    next s' out taken =>
      simp only [Bool.and_eq_true, decide_eq_true_eq] at kept
      have later := ih (reached.step taken kept.1) kept.2
      unfold Machine.after at later ⊢
      simp only [Machine.run, taken]
      split at later
      next last rest ran =>
        rw [ran]
        exact later
      next refused =>
        rw [refused]
        exact reached

/-- Every step of a run meets a condition on the state before it and its event. -/
def EachStep (m : Machine σ ε ο) (P : σ → ε → Prop) (s : σ) : List ε → Prop
  | [] => True
  | e :: events => P s e ∧ ∀ s' out, m.step s e = some (s', out) → EachStep m P s' events

theorem eachStep_cons {m : Machine σ ε ο} {P : σ → ε → Prop} {s s' : σ} {e : ε} {out : List ο}
    {events : List ε} (taken : m.step s e = some (s', out)) :
    m.EachStep P s (e :: events) ↔ P s e ∧ m.EachStep P s' events := by
  simp only [EachStep, taken, Option.some.injEq, Prod.mk.injEq]
  constructor
  · rintro ⟨here, later⟩
    exact ⟨here, later s' out ⟨rfl, rfl⟩⟩
  · rintro ⟨here, later⟩
    refine ⟨here, ?_⟩
    rintro _ _ ⟨rfl, rfl⟩
    exact later

/-- Two conditions that agree wherever an invariant holds, and one of which keeps it, are
met by the same runs. -/
theorem eachStep_iff {m : Machine σ ε ο} {P Q : σ → ε → Prop} (I : σ → Prop)
    (same : ∀ s e, I s → (P s e ↔ Q s e))
    (kept : ∀ s e s' out, I s → P s e → m.step s e = some (s', out) → I s')
    {s : σ} (holds : I s) (events : List ε) : m.EachStep P s events ↔ m.EachStep Q s events := by
  induction events generalizing s with
  | nil => exact Iff.rfl
  | cons e events ih =>
    simp only [EachStep, ← same s e holds]
    refine and_congr_right fun here => ?_
    refine forall_congr' fun s' => forall_congr' fun out => forall_congr' fun taken => ?_
    exact ih (kept s e s' out holds here taken)

/-- Where a condition decides over the outputs of each step, it decides over those of a
whole run. -/
theorem Reachable.outputs_iff {m : Machine σ ε ο} {P : σ → ε → Prop} (Good : ο → Prop)
    (each : ∀ s e s' out, m.Reachable s → m.step s e = some (s', out) →
      ((∀ o ∈ out, Good o) ↔ P s e))
    {s last : σ} {events : List ε} {out : List ο} (reached : m.Reachable s)
    (ran : m.run s events = some (last, out)) : (∀ o ∈ out, Good o) ↔ m.EachStep P s events := by
  induction events generalizing s out with
  | nil =>
    cases ran
    simp [EachStep]
  | cons e events ih =>
    obtain ⟨mid, first, rest, taken, later, rfl⟩ := run_cons.mp ran
    have now := each s e mid first reached taken
    have others := ih (reached.step taken) later
    rw [eachStep_cons taken, List.forall_mem_append, now, others]

/-- The invariant rule for runs under a condition. -/
theorem ReachableWhere.invariant {m : Machine σ ε ο} {P : σ → ε → σ → Prop} (I : σ → Prop)
    (initially : ∀ s, m.init s → I s)
    (preserved : ∀ s e s' out, m.Reachable s → I s → m.step s e = some (s', out) → P s e s' → I s')
    {s : σ} (reached : m.ReachableWhere P s) : I s := by
  induction reached with
  | init start => exact initially _ start
  | step before taken kept ih => exact preserved _ _ _ _ before.reachable ih taken kept

/-- Simulation through an abstraction: when every step of the machine is some
abstract steps, so is every run. -/
theorem Reachable.simulates {τ : Type x} {m : Machine σ ε ο} (abstraction : σ → τ)
    (next : τ → τ → Prop) (start : τ)
    (initially : ∀ s, m.init s → abstraction s = start)
    (simulated : ∀ s e s' out, m.Reachable s → m.step s e = some (s', out) →
      Relation.ReflTransGen next (abstraction s) (abstraction s'))
    {s : σ} (reached : m.Reachable s) : Relation.ReflTransGen next start (abstraction s) := by
  induction reached with
  | init begun => rw [initially _ begun]
  | step before taken ih => exact ih.trans (simulated _ _ _ _ before taken)

end Machine

end Reactive
