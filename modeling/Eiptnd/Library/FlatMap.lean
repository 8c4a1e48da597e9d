import Mathlib.Order.Lattice

/-! Maps and multimaps in one vector that is kept in the order of the keys.

An entry is found by the bounds of its key, and a new one goes in between. Several entries
of a multimap may have one key; the newest is the last of them. An iterator is a position,
and no longer means anything once an entry has gone in. -/
namespace Flat

universe u v

variable {κ : Type u} {α : Type v} [LinearOrder κ]

/-- How many entries stand in front of the first whose key is not below `k`. -/
def lowerBound (k : κ) : List (κ × α) → Nat
  | [] => 0
  | e :: entries => if e.1 < k then lowerBound k entries + 1 else 0

/-- How many entries stand in front of the first whose key is above `k`. -/
def upperBound (k : κ) : List (κ × α) → Nat
  | [] => 0
  | e :: entries => if e.1 ≤ k then upperBound k entries + 1 else 0

theorem lowerBound_le (k : κ) (entries : List (κ × α)) : lowerBound k entries ≤ entries.length := by
  induction entries with
  | nil => exact Nat.le_refl _
  | cons e entries ih =>
    simp only [lowerBound]
    split
    · exact Nat.succ_le_succ ih
    · exact Nat.zero_le _

theorem upperBound_le (k : κ) (entries : List (κ × α)) : upperBound k entries ≤ entries.length := by
  induction entries with
  | nil => exact Nat.le_refl _
  | cons e entries ih =>
    simp only [upperBound]
    split
    · exact Nat.succ_le_succ ih
    · exact Nat.zero_le _

/-! ### Entries in order -/

section Sorted

variable {k : κ} {entries : List (κ × α)}

/-- No entry has a key that the first one is above. -/
private theorem filter_of_above {e : κ × α} (first : ∀ d ∈ entries, e.1 ≤ d.1) (above : k < e.1) :
    (e :: entries).filter (·.1 = k) = [] := by
  rw [List.filter_eq_nil_iff]
  intro d member same
  rcases List.mem_cons.mp member with rfl | later
  · exact above.ne' (of_decide_eq_true same)
  · exact (above.trans_le (first d later)).ne' (of_decide_eq_true same)

/-- The bounds of a key enclose its entries. -/
theorem take_drop_bounds (sorted : entries.Pairwise fun a b => a.1 ≤ b.1) :
    (entries.take (upperBound k entries)).drop (lowerBound k entries) =
      entries.filter (·.1 = k) := by
  induction entries with
  | nil => rfl
  | cons e entries ih =>
    obtain ⟨first, rest⟩ := List.pairwise_cons.mp sorted
    rcases lt_trichotomy e.1 k with below | same | above
    · rw [lowerBound, if_pos below, upperBound, if_pos below.le, List.take_succ_cons,
        List.drop_succ_cons, ih rest, List.filter_cons_of_neg (by simpa using below.ne)]
    · -- The lower bound of what follows is its start.
      have here : lowerBound k entries = 0 := by
        cases entries with
        | nil => rfl
        | cons next _ => exact if_neg (not_lt.mpr (same.symm.trans_le (first next (by simp))))
      have tail := ih rest
      rw [here, List.drop_zero] at tail
      rw [lowerBound, if_neg same.not_lt, upperBound, if_pos same.le, List.take_succ_cons,
        List.drop_zero, tail, List.filter_cons_of_pos (by simp [same])]
    · rw [filter_of_above first above, upperBound, if_neg above.not_ge, List.take_zero,
        List.drop_nil]

/-- `find`: the first entry that is not below the key, unless it is above. -/
def find? (k : κ) (entries : List (κ × α)) : Option (κ × α) :=
  entries[lowerBound k entries]?.filter fun e => !decide (k < e.1)

theorem getElem?_of_find? {e : κ × α} (found : find? k entries = some e) :
    entries[lowerBound k entries]? = some e :=
  (Option.filter_eq_some_iff.mp found).1

theorem find?_eq_head (sorted : entries.Pairwise fun a b => a.1 ≤ b.1) :
    find? k entries = (entries.filter (·.1 = k)).head? := by
  induction entries with
  | nil => rfl
  | cons e entries ih =>
    obtain ⟨first, rest⟩ := List.pairwise_cons.mp sorted
    rcases lt_trichotomy e.1 k with below | same | above
    · rw [find?, lowerBound, if_pos below, List.getElem?_cons_succ, ← find?, ih rest,
        List.filter_cons_of_neg (by simpa using below.ne)]
    · rw [find?, lowerBound, if_neg same.not_lt, List.getElem?_cons_zero,
        List.filter_cons_of_pos (by simp [same]), List.head?_cons, Option.filter_some]
      simp [same]
    · rw [find?, lowerBound, if_neg above.not_gt, filter_of_above first above,
        List.getElem?_cons_zero]
      simp [above]

theorem filter_insertIdx_upperBound (x : α) (k' : κ)
    (sorted : entries.Pairwise fun a b => a.1 ≤ b.1) :
    (entries.insertIdx (upperBound k entries) (k, x)).filter (·.1 = k') =
      if k' = k then entries.filter (·.1 = k') ++ [(k, x)] else entries.filter (·.1 = k') := by
  induction entries with
  | nil =>
    by_cases same : k' = k
    · simp [upperBound, same]
    · simp [upperBound, same, Ne.symm same]
  | cons e entries ih =>
    obtain ⟨first, rest⟩ := List.pairwise_cons.mp sorted
    simp only [upperBound]
    split
    next notAbove =>
      rw [List.insertIdx_succ_cons, List.filter_cons, ih rest, List.filter_cons]
      split <;> split <;> simp
    next above =>
      rw [List.insertIdx_zero]
      split
      next same =>
        have none : (e :: entries).filter (·.1 = k') = [] :=
          filter_of_above first (same ▸ not_le.mp above)
        rw [List.filter_cons_of_pos (by simp [same]), none, List.nil_append]
      next other => rw [List.filter_cons_of_neg (by simpa using Ne.symm other)]

theorem pairwise_insertIdx_upperBound (x : α) (sorted : entries.Pairwise fun a b => a.1 ≤ b.1) :
    (entries.insertIdx (upperBound k entries) (k, x)).Pairwise fun a b => a.1 ≤ b.1 := by
  induction entries with
  | nil => simp [upperBound]
  | cons e entries ih =>
    obtain ⟨first, rest⟩ := List.pairwise_cons.mp sorted
    simp only [upperBound]
    split
    next notAbove =>
      refine List.pairwise_cons.mpr ⟨?_, ih rest⟩
      intro d member
      rcases (List.mem_insertIdx (upperBound_le k entries)).mp member with rfl | old
      · exact notAbove
      · exact first d old
    next above =>
      refine List.pairwise_cons.mpr ⟨?_, sorted⟩
      intro d member
      rcases List.mem_cons.mp member with rfl | later
      · exact (not_le.mp above).le
      · exact (not_le.mp above).le.trans (first d later)

theorem pairwise_insertIdx_lowerBound (x : α) (sorted : entries.Pairwise fun a b => a.1 < b.1)
    (absent : ∀ e ∈ entries, e.1 ≠ k) :
    (entries.insertIdx (lowerBound k entries) (k, x)).Pairwise fun a b => a.1 < b.1 := by
  induction entries with
  | nil => simp [lowerBound]
  | cons e entries ih =>
    obtain ⟨first, rest⟩ := List.pairwise_cons.mp sorted
    have later := ih rest fun d member => absent d (List.mem_cons_of_mem e member)
    simp only [lowerBound]
    split
    next below =>
      refine List.pairwise_cons.mpr ⟨?_, later⟩
      intro d member
      rcases (List.mem_insertIdx (lowerBound_le k entries)).mp member with rfl | old
      · exact below
      · exact first d old
    next notBelow =>
      have above : k < e.1 := lt_of_le_of_ne (not_lt.mp notBelow) (absent e (by simp)).symm
      refine List.pairwise_cons.mpr ⟨?_, sorted⟩
      intro d member
      rcases List.mem_cons.mp member with rfl | old
      · exact above
      · exact above.trans (first d old)

/-- At most one entry has the key. -/
theorem find?_eq_some_iff (sorted : entries.Pairwise fun a b => a.1 < b.1) {e : κ × α} :
    find? k entries = some e ↔ e ∈ entries ∧ e.1 = k := by
  rw [find?_eq_head (sorted.imp le_of_lt)]
  constructor
  · intro found
    have member := List.mem_of_mem_head? found
    simpa using member
  · rintro ⟨member, same⟩
    have alone := sorted.filter (·.1 = k)
    have here : e ∈ entries.filter (·.1 = k) := by simp [member, same]
    cases shape : entries.filter (·.1 = k) with
    | nil => simp [shape] at here
    | cons d rest =>
      rw [shape] at alone here
      rcases List.mem_cons.mp here with rfl | later
      · rfl
      · -- Two entries with the key would be in order.
        have front : d ∈ entries.filter (·.1 = k) := by simp [shape]
        have ordered := (List.pairwise_cons.mp alone).1 e later
        have same' : d.1 = k := of_decide_eq_true (List.mem_filter.mp front).2
        exact absurd (same'.trans same.symm) ordered.ne

end Sorted

end Flat

/-- `boost::container::flat_multimap`. -/
structure FlatMultimap (κ : Type u) (α : Type v) [LinearOrder κ] where
  entries : List (κ × α)
  sorted : entries.Pairwise fun a b => a.1 ≤ b.1

namespace FlatMultimap

open Flat

variable {κ : Type u} {α : Type v} [LinearOrder κ]

def empty : FlatMultimap κ α := ⟨[], List.Pairwise.nil⟩

def emplace (k : κ) (x : α) (m : FlatMultimap κ α) : FlatMultimap κ α :=
  ⟨m.entries.insertIdx (upperBound k m.entries) (k, x), pairwise_insertIdx_upperBound x m.sorted⟩

def find (k : κ) (m : FlatMultimap κ α) : Option (κ × α) := find? k m.entries

/-- From `lower_bound` up to `upper_bound`. -/
def equalRange (k : κ) (m : FlatMultimap κ α) : List (κ × α) :=
  (m.entries.take (upperBound k m.entries)).drop (lowerBound k m.entries)

theorem equalRange_eq_filter (k : κ) (m : FlatMultimap κ α) :
    m.equalRange k = m.entries.filter (·.1 = k) := take_drop_bounds m.sorted

theorem mem_equalRange {k : κ} {m : FlatMultimap κ α} {e : κ × α} :
    e ∈ m.equalRange k ↔ e ∈ m.entries ∧ e.1 = k := by
  simp [equalRange_eq_filter]

/-- `find` stops at the first of several. -/
theorem find_eq_head (k : κ) (m : FlatMultimap κ α) : m.find k = (m.equalRange k).head? := by
  rw [equalRange_eq_filter]
  exact find?_eq_head m.sorted

/-- The newest entry of a key is the last one. -/
theorem equalRange_emplace (k k' : κ) (x : α) (m : FlatMultimap κ α) :
    (m.emplace k x).equalRange k' =
      if k' = k then m.equalRange k' ++ [(k, x)] else m.equalRange k' := by
  simp only [equalRange_eq_filter]
  exact filter_insertIdx_upperBound x k' m.sorted

theorem mem_emplace {k : κ} {x : α} {m : FlatMultimap κ α} {e : κ × α} :
    e ∈ (m.emplace k x).entries ↔ e = (k, x) ∨ e ∈ m.entries :=
  List.mem_insertIdx (upperBound_le k m.entries)

theorem emplace_perm (k : κ) (x : α) (m : FlatMultimap κ α) :
    (m.emplace k x).entries.Perm ((k, x) :: m.entries) :=
  List.perm_insertIdx (k, x) m.entries (upperBound_le k m.entries)

end FlatMultimap

/-- An iterator of a map, with the number of entries that had gone in when it was taken. -/
structure Flat.Iterator where
  position : Nat
  version : Nat
  deriving DecidableEq, Repr

/-- `boost::container::flat_map`. -/
structure FlatMap (κ : Type u) (α : Type v) [LinearOrder κ] where
  entries : List (κ × α)
  unique : entries.Pairwise fun a b => a.1 < b.1
  version : Nat

namespace FlatMap

open Flat

variable {κ : Type u} {α : Type v} [LinearOrder κ]

def empty : FlatMap κ α := ⟨[], List.Pairwise.nil, 0⟩

/-- `end()`. -/
def past (m : FlatMap κ α) : Iterator := ⟨m.entries.length, m.version⟩

/-- What an iterator points to; one that is past the end or no longer valid has nothing. -/
def deref (it : Iterator) (m : FlatMap κ α) : Option (κ × α) :=
  if it.version = m.version then m.entries[it.position]? else none

def find (k : κ) (m : FlatMap κ α) : Iterator :=
  match find? k m.entries with
  | some _ => ⟨lowerBound k m.entries, m.version⟩
  | none => m.past

/-- The value that `find` or `at` comes to. -/
def lookup (k : κ) (m : FlatMap κ α) : Option α := (find? k m.entries).map (·.2)

/-- An entry goes in unless its key is there; the iterator is that of the key. -/
def emplace (k : κ) (x : α) (m : FlatMap κ α) : FlatMap κ α × Iterator :=
  if absent : ∀ e ∈ m.entries, e.1 ≠ k then
    (⟨m.entries.insertIdx (lowerBound k m.entries) (k, x),
      pairwise_insertIdx_lowerBound x m.unique absent, m.version + 1⟩,
      ⟨lowerBound k m.entries, m.version + 1⟩)
  else (m, m.find k)

omit [LinearOrder κ] in
private theorem map_fst_modify (f : α → α) (entries : List (κ × α)) (i : Nat) :
    (entries.modify i fun e => (e.1, f e.2)).map (·.1) = entries.map (·.1) := by
  induction entries generalizing i with
  | nil => simp
  | cons e entries ih =>
    cases i with
    | zero => simp
    | succ i => simp [ih]

/-- The value that an iterator points to is changed in place. -/
def modify (it : Iterator) (f : α → α) (m : FlatMap κ α) : FlatMap κ α :=
  ⟨m.entries.modify it.position fun e => (e.1, f e.2), by
    have unique := List.pairwise_map.mpr m.unique
    rw [← map_fst_modify f m.entries it.position] at unique
    exact List.pairwise_map.mp unique, m.version⟩

theorem lookup_eq_some_iff {k : κ} {x : α} {m : FlatMap κ α} :
    m.lookup k = some x ↔ (k, x) ∈ m.entries := by
  simp only [lookup, Option.map_eq_some_iff, find?_eq_some_iff m.unique]
  constructor
  · rintro ⟨⟨k', x'⟩, ⟨member, rfl⟩, rfl⟩
    exact member
  · intro member
    exact ⟨(k, x), ⟨member, rfl⟩, rfl⟩

theorem lookup_eq_none_iff {k : κ} {m : FlatMap κ α} :
    m.lookup k = none ↔ ∀ e ∈ m.entries, e.1 ≠ k := by
  rw [Option.eq_none_iff_forall_ne_some]
  constructor
  · rintro none ⟨k', x⟩ member rfl
    exact none x (lookup_eq_some_iff.mpr member)
  · intro absent x found
    exact absent _ (lookup_eq_some_iff.mp found) rfl

@[simp] theorem lookup_empty (k : κ) : (empty : FlatMap κ α).lookup k = none := rfl

theorem mem_emplace {k : κ} {x : α} {m : FlatMap κ α} {e : κ × α} :
    e ∈ (m.emplace k x).1.entries ↔ e ∈ m.entries ∨ (m.lookup k = none ∧ e = (k, x)) := by
  rw [emplace]
  split
  next absent =>
    simp [List.mem_insertIdx (lowerBound_le k m.entries), lookup_eq_none_iff.mpr absent, or_comm]
  next present =>
    refine (or_iff_left ?_).symm
    rintro ⟨absent, -⟩
    exact present (lookup_eq_none_iff.mp absent)

/-- The first value of a key is kept. -/
theorem lookup_emplace (k k' : κ) (x : α) (m : FlatMap κ α) :
    (m.emplace k x).1.lookup k' =
      if k' = k then some ((m.lookup k).getD x) else m.lookup k' := by
  refine Option.ext fun y => ?_
  rw [lookup_eq_some_iff, mem_emplace, ← lookup_eq_some_iff]
  split
  next same =>
    subst same
    cases m.lookup k' <;> simp [eq_comm]
  next other => simp [other]

/-- The iterator that an insertion returns points to the entry of its key. -/
theorem deref_emplace (k : κ) (x : α) (m : FlatMap κ α) (absent : m.lookup k = none) :
    (m.emplace k x).1.deref (m.emplace k x).2 = some (k, x) := by
  rw [emplace, dif_pos (lookup_eq_none_iff.mp absent), deref, if_pos rfl,
    List.getElem?_insertIdx_self, if_pos (lowerBound_le k m.entries)]

theorem deref_past (m : FlatMap κ α) : m.deref m.past = none := by simp [deref, past]

/-- An iterator that `find` returns points to the entry of the key, if there is one. -/
theorem deref_find (k : κ) (m : FlatMap κ α) :
    m.deref (m.find k) = (m.lookup k).map fun x => (k, x) := by
  unfold find lookup
  cases found : find? k m.entries with
  | none => exact deref_past m
  | some e =>
    have same := ((find?_eq_some_iff m.unique).mp found).2
    subst same
    simp [deref, getElem?_of_find? found]

theorem find_eq_past_iff {k : κ} {m : FlatMap κ α} : m.find k = m.past ↔ m.lookup k = none := by
  have reached := deref_find k m
  constructor
  · intro same
    rw [same, deref_past] at reached
    simpa using reached.symm
  · intro absent
    rw [lookup] at absent
    rw [find, Option.map_eq_none_iff.mp absent]

/-- Only one position has the key. -/
theorem eq_find_of_deref {k : κ} {x : α} {it : Iterator} {m : FlatMap κ α}
    (here : m.deref it = some (k, x)) : it = m.find k := by
  obtain ⟨position, version⟩ := it
  rw [deref] at here
  split at here
  next current =>
    have member : (k, x) ∈ m.entries := List.mem_of_getElem? here
    have found : find? k m.entries = some (k, x) := (find?_eq_some_iff m.unique).mpr ⟨member, rfl⟩
    obtain ⟨bound, at_⟩ := List.getElem?_eq_some_iff.mp here
    obtain ⟨bound', at_'⟩ := List.getElem?_eq_some_iff.mp (getElem?_of_find? found)
    have ordered := List.pairwise_iff_getElem.mp m.unique
    rw [find, found]
    rcases Nat.lt_trichotomy position (lowerBound k m.entries) with before | same | behind
    · have below := ordered _ _ bound bound' before
      rw [at_, at_'] at below
      exact absurd below (lt_irrefl k)
    · rw [Iterator.mk.injEq]
      exact ⟨same, current⟩
    · have below := ordered _ _ bound' bound behind
      rw [at_, at_'] at below
      exact absurd below (lt_irrefl k)
  next => cases here

theorem deref_modify (it it' : Iterator) (f : α → α) (m : FlatMap κ α) :
    ((m.modify it f).deref it').isSome = (m.deref it').isSome := by
  by_cases current : it'.version = m.version
  · simp [deref, modify, current, List.getElem?_modify]
  · simp [deref, modify, current]

theorem lookup_modify {k : κ} {x : α} {it : Iterator} {m : FlatMap κ α} (f : α → α) (k' : κ)
    (here : m.deref it = some (k, x)) :
    (m.modify it f).lookup k' = if k' = k then some (f x) else m.lookup k' := by
  rw [deref] at here
  split at here
  next current =>
    have at_ (i : Nat) (e : κ × α) : (m.modify it f).entries[i]? = some e ↔
        ∃ d, m.entries[i]? = some d ∧ (if it.position = i then (d.1, f d.2) else d) = e := by
      rw [modify, List.getElem?_modify]
      cases m.entries[i]? <;> split <;> simp
    split
    next same =>
      refine lookup_eq_some_iff.mpr (List.mem_iff_getElem?.mpr ⟨it.position, ?_⟩)
      exact (at_ _ _).mpr ⟨_, here, by simp [same]⟩
    next other =>
      refine Option.ext fun y => ?_
      simp only [lookup_eq_some_iff, List.mem_iff_getElem?, at_]
      constructor
      · rintro ⟨i, d, found, changed⟩
        refine ⟨i, found.trans (congrArg some ?_)⟩
        split at changed
        next place =>
          rw [← place, here] at found
          cases found
          exact absurd (congrArg Prod.fst changed).symm other
        next => exact changed
      · rintro ⟨i, found⟩
        refine ⟨i, _, found, if_neg fun place => ?_⟩
        rw [← place, here] at found
        cases found
        exact other rfl
  next => cases here

end FlatMap
