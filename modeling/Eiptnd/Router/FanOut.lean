import Eiptnd.Library.Reactive

/-! `request_router::process_data`: one record for several dispatchers.

With several targets each gets a callback that shares a combiner, whose destructor passes
the result on when the last copy of any of them is gone. One target gets the requester's
callback itself, and without targets it is posted with false. -/
namespace Eiptnd.Router

open Reactive

/-! ### The combiner -/

section Combiner

variable {ρ : Type} [DecidableEq ρ]

/-- `combiner::combine`: `result_` is exchanged only as long as it is `CompareResult`. -/
def combine (compareResult result current : ρ) : ρ :=
  if current = compareResult then result else current

theorem combine_first (compareResult result : ρ) :
    combine compareResult result compareResult = result := if_pos rfl

theorem combine_later {compareResult result current : ρ} (changed : current ≠ compareResult) :
    combine compareResult result current = current := if_neg changed

end Combiner

/-- The template arguments of `process_data`. -/
def initialResult : Bool := true

def compareResult : Bool := true

theorem combine_and (result current : Bool) :
    combine compareResult result current = (current && result) := by
  cases current
  · exact combine_later (by decide)
  · exact combine_first compareResult result

/-! ### A request on its way -/

/-- A dispatch target: what it has called its callback with, and whether it has a copy of
the callback left. -/
structure Target where
  report : Option Bool
  holds : Bool
  deriving DecidableEq, Repr

/-- One call of `process_data`: the targets, whether the call has not returned yet and
holds copies of its own, the combiner's `result_`, whether the callback is posted with
false, and what the requester's callback has been invoked with. -/
structure FanOut where
  targets : List Target
  calling : Bool
  result : Bool
  posted : Bool
  invoked : List Bool
  deriving DecidableEq, Repr

/-- All handlers are posted to the `io_service`. -/
def FanOut.start (n : Nat) : FanOut :=
  ⟨List.replicate n ⟨none, true⟩, true, initialResult, n == 0, []⟩

inductive Event
  /-- The call returns. -/
  | return_
  /-- The callback that was posted with false runs. -/
  | post
  /-- A target calls its callback. -/
  | report (place : Nat) (ok : Bool)
  /-- The last copy that a target has is destroyed. -/
  | release (place : Nat)
  deriving DecidableEq, Repr

/-- Some copy of the combined callback is left. -/
def FanOut.held (f : FanOut) : Bool := f.calling || f.targets.any (·.holds)

/-- `~combiner`, when no copy is left. -/
def FanOut.destroy (f : FanOut) : FanOut × List Bool :=
  if 1 < f.targets.length ∧ f.held = false then
    ({ f with invoked := f.invoked ++ [f.result] }, [f.result])
  else (f, [])

def FanOut.step (f : FanOut) : Event → Option (FanOut × List Bool)
  | .return_ => if f.calling then some { f with calling := false }.destroy else none
  | .post =>
    if f.posted then some ({ f with posted := false, invoked := f.invoked ++ [false] }, [false])
    else none
  | .report place ok =>
    match f.targets[place]? with
    | some ⟨none, true⟩ =>
      let f := { f with targets := f.targets.set place ⟨some ok, true⟩ }
      if 1 < f.targets.length then
        some ({ f with result := combine compareResult ok f.result }, [])
      else some ({ f with invoked := f.invoked ++ [ok] }, [ok])
    | _ => none
  | .release place =>
    match f.targets[place]? with
    | some ⟨report, true⟩ =>
      some { f with targets := f.targets.set place ⟨report, false⟩ }.destroy
    | _ => none

def fanOut : Machine FanOut Event Bool := ⟨fun f => ∃ n, f = FanOut.start n, FanOut.step⟩

/-! ### What the requester may rely on -/

/-- Nothing is left to happen. -/
def FanOut.Finished (f : FanOut) : Prop :=
  f.calling = false ∧ f.posted = false ∧ ∀ t ∈ f.targets, t.holds = false

structure FanOut.Sound (f : FanOut) : Prop where
  once : f.invoked.length ≤ 1
  waits : f.invoked ≠ [] → ∀ t ∈ f.targets, t.report ≠ none ∨ t.holds = false
  honest : true ∈ f.invoked → f.targets ≠ [] ∧ ∀ t ∈ f.targets, t.report = some true
  complete : f.Finished → (∀ t ∈ f.targets, t.report ≠ none) →
    f.invoked = [!f.targets.isEmpty && f.targets.all (·.report == some true)]

/-- Once all is over, no target of several has dropped its callback, or another has
reported false. -/
def FanOut.Answered (f : FanOut) : Prop :=
  f.Finished → f.targets.length < 2 ∨ (∀ t ∈ f.targets, t.report ≠ none) ∨
    ∃ t ∈ f.targets, t.report = some false

/-! ### The books of a request -/

/-- What a request has come to so far, by the path it took. -/
inductive FanOut.Books (f : FanOut) : Prop
  | none : f.targets = [] → f.invoked = (if f.posted then [] else [false]) → Books f
  | one (t : Target) : f.targets = [t] → f.posted = false → f.invoked = t.report.toList → Books f
  | many : 1 < f.targets.length → f.posted = false →
      f.result = f.targets.all (·.report != some false) →
      f.invoked = (if f.held then [] else [f.result]) → Books f

private theorem all_set {α : Type} {p : α → Bool} {l : List α} {i : Nat} {x y : α}
    (found : l[i]? = some y) (passes : p y = true) : (l.set i x).all p = (l.all p && p x) := by
  induction l generalizing i with
  | nil => simp at found
  | cons a l ih =>
    cases i with
    | zero =>
      cases found
      simp [passes, Bool.and_comm]
    | succ i =>
      simp only [List.getElem?_cons_succ] at found
      simp [ih found, Bool.and_assoc]

/-- An element that is replaced by one that looks the same is not noticed. -/
private theorem map_set {α β : Type} {p : α → β} {l : List α} {i : Nat} {x y : α}
    (found : l[i]? = some y) (same : p x = p y) : (l.set i x).map p = l.map p := by
  obtain ⟨bound, rfl⟩ := List.getElem?_eq_some_iff.mp found
  have own : p l[i] = (l.map p).get ⟨i, by simpa using bound⟩ := by simp
  rw [List.map_set, same, own]
  exact List.set_getElem_self _

private theorem held_set {l : List Target} {i : Nat} {x y : Target} (found : l[i]? = some y)
    (same : x.holds = y.holds) : (l.set i x).any (·.holds) = l.any (·.holds) := by
  have both := congrArg (List.any · id) (map_set (p := Target.holds) found same)
  rwa [List.any_map, List.any_map] at both

private theorem reports_set {l : List Target} {i : Nat} {x y : Target} (found : l[i]? = some y)
    (same : x.report = y.report) :
    (l.set i x).all (·.report != some false) = l.all (·.report != some false) := by
  have both := congrArg (List.all · (· != some false)) (map_set (p := Target.report) found same)
  rwa [List.all_map, List.all_map] at both

private theorem holds_held {l : List Target} {i : Nat} {report : Option Bool}
    (found : l[i]? = some ⟨report, true⟩) : l.any (·.holds) = true :=
  List.any_eq_true.mpr ⟨_, List.mem_of_getElem? found, rfl⟩

theorem start_books (n : Nat) : (FanOut.start n).Books := by
  rcases n with _ | _ | n
  · exact .none rfl rfl
  · exact .one _ rfl rfl rfl
  · refine .many (by simp [FanOut.start]) rfl ?_ rfl
    simp [FanOut.start, initialResult]

/-- The destructor runs where the last copy goes, if there is a combiner at all. -/
private theorem destroy_books {f : FanOut} (several : 1 < f.targets.length)
    (posted : f.posted = false) (result : f.result = f.targets.all (·.report != some false))
    (waiting : f.invoked = []) : f.destroy.1.Books := by
  rw [FanOut.destroy]
  split
  next gone =>
    have empty : ({ f with invoked := f.invoked ++ [f.result] } : FanOut).held = false := gone.2
    exact .many several posted result (by rw [empty, waiting]; rfl)
  next kept =>
    have held : f.held = true := by simpa [several] using kept
    exact .many several posted result (by rw [held, waiting]; rfl)

private theorem destroy_few {f : FanOut} (few : ¬ 1 < f.targets.length) : f.destroy.1 = f := by
  rw [FanOut.destroy, if_neg fun both => few both.1]

theorem step_books {f f' : FanOut} {e : Event} {out : List Bool} (books : f.Books)
    (stepped : f.step e = some (f', out)) : f'.Books := by
  cases e with
  | return_ =>
    simp only [FanOut.step] at stepped
    split at stepped
    next calling =>
      simp only [Option.some.injEq] at stepped
      have same : f' = ({ f with calling := false } : FanOut).destroy.1 :=
        (congrArg Prod.fst stepped).symm
      rw [same]
      cases books with
      | none empty invoked =>
        rw [destroy_few (by simp [empty])]
        exact .none empty invoked
      | one t single posted invoked =>
        rw [destroy_few (by simp [single])]
        exact .one t single posted invoked
      | many several posted result invoked =>
        have held : f.held = true := by simp [FanOut.held, calling]
        rw [held] at invoked
        exact destroy_books several posted result invoked
    next => cases stepped
  | post =>
    simp only [FanOut.step] at stepped
    split at stepped
    next posted =>
      cases stepped
      cases books with
      | none empty invoked => exact .none empty (by simp [invoked, posted])
      | one _ _ unposted => simp [unposted] at posted
      | many _ unposted => simp [unposted] at posted
    next => cases stepped
  | report place ok =>
    simp only [FanOut.step] at stepped
    split at stepped
    next found =>
      cases books with
      | none empty => simp [empty] at found
      | one t single posted invoked =>
        rw [single] at found
        simp only [List.getElem?_singleton, Option.ite_none_right_eq_some, Option.some.injEq] at found
        obtain ⟨rfl, rfl⟩ := found
        simp only [single, List.set_cons_zero, List.length_singleton, Nat.lt_irrefl, if_false,
          Option.some.injEq, Prod.mk.injEq] at stepped
        obtain ⟨rfl, -⟩ := stepped
        exact .one _ rfl posted (by simp [invoked])
      | many several posted result invoked =>
        have held : f.held = true := by simp [FanOut.held, holds_held found]
        have still : 1 < (f.targets.set place ⟨some ok, true⟩).length := by simpa using several
        simp only [still, if_true, Option.some.injEq, Prod.mk.injEq] at stepped
        obtain ⟨rfl, -⟩ := stepped
        refine .many still posted ?_ ?_
        -- The first false stays in `result_`, whatever is reported later.
        · rw [all_set found (by decide), ← result, combine_and]
          cases ok <;> rfl
        · have same : ({ f with
                targets := f.targets.set place ⟨some ok, true⟩
                result := combine compareResult ok f.result } : FanOut).held = f.held := by
            exact congrArg (f.calling || ·) (held_set found rfl)
          rw [same, held]
          rw [held] at invoked
          exact invoked
    next => cases stepped
  | release place =>
    simp only [FanOut.step] at stepped
    split at stepped
    next report found =>
      simp only [Option.some.injEq] at stepped
      have same := (congrArg Prod.fst stepped).symm
      simp only at same
      rw [same]
      cases books with
      | none empty => simp [empty] at found
      | one t single posted invoked =>
        rw [single] at found
        simp only [List.getElem?_singleton, Option.ite_none_right_eq_some, Option.some.injEq] at found
        obtain ⟨rfl, rfl⟩ := found
        rw [destroy_few (by simp [single])]
        exact .one ⟨report, false⟩ (by simp [single]) posted invoked
      | many several posted result invoked =>
        have held : f.held = true := by simp [FanOut.held, holds_held found]
        rw [held] at invoked
        exact destroy_books (by simpa using several) posted
          (result.trans (reports_set (x := ⟨report, false⟩) found rfl).symm) invoked
    next => cases stepped

theorem FanOut.books {f : FanOut} (reached : fanOut.Reachable f) : f.Books := by
  refine reached.invariant FanOut.Books ?_ fun _ _ _ _ _ => step_books
  rintro _ ⟨n, rfl⟩
  exact start_books n

/-! ### The verdict -/

private theorem held_eq_false {f : FanOut} :
    f.held = false ↔ f.calling = false ∧ ∀ t ∈ f.targets, t.holds = false := by
  simp [FanOut.held]

private theorem report_true {report : Option Bool} (some : report ≠ none)
    (clean : report ≠ .some false) : report = .some true := by
  cases report with
  | none => exact absurd rfl some
  | some ok =>
    cases ok with
    | true => rfl
    | false => exact absurd rfl clean

/-- In every run and at every moment the requester gets what it may rely on, exactly when
no target of several drops its callback, or another one reports false. -/
theorem sound_iff {f : FanOut} (reached : fanOut.Reachable f) : f.Sound ↔ f.Answered := by
  cases FanOut.books reached with
  | none empty invoked =>
    refine iff_of_true ⟨?_, by simp [empty], ?_, ?_⟩ fun _ => Or.inl (by simp [empty])
    · rw [invoked]
      split <;> simp
    · rw [invoked]
      split <;> simp
    · rintro ⟨-, posted, -⟩ -
      simp [invoked, posted, empty]
  | one t single posted invoked =>
    refine iff_of_true ⟨?_, ?_, ?_, ?_⟩ fun _ => Or.inl (by simp [single])
    · rw [invoked]
      cases t.report <;> simp
    · rw [invoked, single]
      cases report : t.report <;> simp [report]
    · rw [invoked, single]
      cases report : t.report <;> simp [report]
    · rw [invoked, single]
      rintro - reported
      have some := reported t (by simp)
      cases report : t.report with
      | none => exact absurd report some
      | some ok => cases ok <;> simp [report]
  | many several posted result invoked =>
    cases held : f.held with
    -- Some copy is left: nothing has been delivered.
    | true =>
      rw [held, if_pos rfl] at invoked
      have unfinished : ¬ f.Finished := by
        rintro ⟨calling, -, gone⟩
        rw [held_eq_false.mpr ⟨calling, gone⟩] at held
        cases held
      refine iff_of_true ⟨?_, ?_, ?_, ?_⟩ fun finished => absurd finished unfinished
      · simp [invoked]
      · simp [invoked]
      · simp [invoked]
      · exact fun finished => absurd finished unfinished
    | false =>
      obtain ⟨calling, gone⟩ := held_eq_false.mp held
      simp only [held, Bool.false_eq_true, if_false] at invoked
      have agreed : f.result = true ↔ ∀ t ∈ f.targets, t.report ≠ some false := by
        simp [result]
      constructor
      · intro sound _
        by_cases denied : ∃ t ∈ f.targets, t.report = some false
        · exact Or.inr (Or.inr denied)
        · have yes := agreed.mpr fun t member no => denied ⟨t, member, no⟩
          have all := (sound.honest (by simp [invoked, yes])).2
          exact Or.inr (Or.inl fun t member => by simp [all t member])
      · intro answered
        have nonempty : f.targets ≠ [] := by
          rintro none
          simp [none] at several
        have known := (answered ⟨calling, posted, gone⟩).resolve_left (by omega)
        refine ⟨by simp [invoked], fun _ t member => Or.inr (gone t member), ?_, ?_⟩
        · intro yes
          rw [invoked, List.mem_singleton] at yes
          have clean := agreed.mp yes.symm
          have reported := known.resolve_right fun ⟨t, member, no⟩ => clean t member no
          refine ⟨nonempty, fun t member => ?_⟩
          exact report_true (reported t member) (clean t member)
        · intro _ reported
          have same : f.targets.all (·.report != some false) =
              f.targets.all (·.report == some true) := by
            rw [Bool.eq_iff_iff]
            simp only [List.all_eq_true, bne_iff_ne, ne_eq, beq_iff_eq]
            constructor
            · exact fun clean t member => report_true (reported t member) (clean t member)
            · exact fun yes t member => by simp [yes t member]
          simp [invoked, result, same, nonempty]

theorem reachable_after (n : Nat) (events : List Event) :
    fanOut.Reachable (fanOut.after (FanOut.start n) events) :=
  Machine.Reachable.after (m := fanOut) ⟨n, rfl⟩ events

/-- Two targets that both report. -/
def reportingEvents : List Event :=
  [.return_, .report 1 true, .release 1, .report 0 false, .release 0]

theorem sound_iff_reporting : ∃ f, fanOut.Reachable f ∧ f.invoked = [false] ∧
    (f.Sound ↔ f.Answered) := by
  have reached := reachable_after 2 reportingEvents
  exact ⟨_, reached, by decide, sound_iff reached⟩

/-- Two targets, one of which drops its callback. -/
def droppingEvents : List Event := [.return_, .report 0 true, .release 0, .release 1]

/-- The requester is told that all is well, although one target never reported. -/
theorem dropped_confirmed : ¬ ∀ f, fanOut.Reachable f → f.Sound := by
  intro claimed
  have reached := reachable_after 2 droppingEvents
  have shape : fanOut.after (FanOut.start 2) droppingEvents =
      ⟨[⟨some true, false⟩, ⟨none, false⟩], false, true, false, [true]⟩ := by decide
  rw [shape] at reached
  have all := ((claimed _ reached).honest (by simp)).2
  exact absurd (all ⟨none, false⟩ (by simp)) (by decide)

end Eiptnd.Router
