import Eiptnd.Wialon.Transitions

/-! What a whole line does to the parser: the command it names, the tree it fills, and
when it makes the parser throw. -/
namespace Eiptnd.Wialon

open Reactive

/-! ### Commands by name -/

/-- The name of each command on the wire. -/
def Command.name : Command → Str
  | .login => "L".toList
  | .data => "D".toList
  | .ping => "P".toList
  | .shortdata => "SD".toList
  | .blackbox => "B".toList
  | .message => "M".toList
  | .image => "I".toList

theorem estimates_named {cmd : Str} {estimate : Nat} {c : Command}
    (found : estimates.lookup cmd = some (estimate, c)) : cmd = c.name := by
  obtain ⟨before, after, listed, -⟩ := List.lookup_eq_some_iff.mp found
  have all : ∀ entry ∈ estimates, entry.1 = entry.2.2.name := by decide
  exact all (cmd, estimate, c) (by simp [listed])

theorem Command.known (c : Command) : ∃ estimate, estimates.lookup c.name = some (estimate, c) := by
  cases c <;> exact ⟨_, rfl⟩

/-- The count of a command is the number of its fields. -/
theorem estimates_fields {cmd : Str} {estimate : Nat} {c : Command}
    (found : estimates.lookup cmd = some (estimate, c)) : estimate = (fields c).length := by
  obtain ⟨before, after, listed, -⟩ := List.lookup_eq_some_iff.mp found
  have all : ∀ entry ∈ estimates, entry.2.1 = (fields entry.2.2).length := by decide
  exact all (cmd, estimate, c) (by simp [listed])

/-- No token of a line is its end. -/
theorem tokens_crlf {message : Str} (unended : Lines.Open '\r' '\n' message) :
    crlf ∉ tokens message := fun member => unended (Tokens.infix_of_mem_tokens message member)

/-! ### Filling a tree -/

/-- The fields of a command in the order they are sent. -/
def fieldNames (c : Command) : List Str := (fields c).reverse

/-- Some fields as a tree: each under its name, as far as there are names. -/
def fieldTree (c : Command) (record : List Str) : Tree := (fieldNames c).zip record

theorem fieldNames_length (c : Command) : (fieldNames c).length = (fields c).length :=
  List.length_reverse

theorem fieldNames_nodup (c : Command) : (fieldNames c).Nodup := by cases c <;> decide

theorem Tree.put_fresh {key value : Str} {t : Tree} (fresh : key ∉ t.map Prod.fst) :
    Tree.put key value t = t ++ [(key, value)] := by
  induction t with
  | nil => rfl
  | cons entry t ih =>
    obtain ⟨k, v⟩ := entry
    simp only [List.map_cons, List.mem_cons, not_or] at fresh
    simp [Tree.put, Ne.symm fresh.1, ih fresh.2]

/-- The name the parser gives the next field is the next one in the order of sending. -/
theorem field_name {c : Command} {done : Nat} (short : done < (fields c).length) :
    (fields c)[(fields c).length - done - 1]? = (fieldNames c)[done]? := by
  rw [fieldNames, List.getElem?_reverse short]
  congr 1
  omega

theorem fieldTree_append {c : Command} {done : List Str} (field : Str)
    (short : done.length < (fields c).length) :
    ∃ name, (fieldNames c)[done.length]? = some name ∧
      Tree.put name field (fieldTree c done) = fieldTree c (done ++ [field]) := by
  have cut : fieldNames c = (fieldNames c).take done.length ++ (fieldNames c).drop done.length :=
    (List.take_append_drop _ _).symm
  have size : ((fieldNames c).take done.length).length = done.length :=
    List.length_take_of_le (fieldNames_length c ▸ short.le)
  cases rest : (fieldNames c).drop done.length with
  | nil =>
    have none := List.drop_eq_nil_iff.mp rest
    rw [fieldNames_length] at none
    omega
  | cons name later =>
    rw [rest] at cut
    generalize (fieldNames c).take done.length = before at cut size
    have distinct := fieldNames_nodup c
    rw [cut] at distinct
    have absent : name ∉ before := fun member =>
      (List.nodup_append.mp distinct).2.2 name member name (by simp) rfl
    have old : fieldTree c done = before.zip done := by
      have pad : (before ++ name :: later).zip (done ++ []) =
          before.zip done ++ (name :: later).zip [] := List.zip_append size
      simpa [fieldTree, cut] using pad
    have new : fieldTree c (done ++ [field]) = before.zip done ++ [(name, field)] := by
      simp [fieldTree, cut, List.zip_append size]
    refine ⟨name, by simp [cut, ← size], ?_⟩
    rw [new, old]
    -- No field before this one has its name.
    apply Tree.put_fresh
    rwa [List.map_fst_zip size.le]

/-- Fields without a name leave no trace. -/
theorem fieldTree_full {c : Command} {record : List Str} (full : record.length = (fields c).length)
    (more : List Str) : fieldTree c (record ++ more) = fieldTree c record := by
  have pad : (fieldNames c ++ []).zip (record ++ more) = (fieldNames c).zip record ++ [].zip more :=
    List.zip_append ((fieldNames_length c).trans full.symm)
  simpa [fieldTree] using pad

/-- A field goes into the tree under the next name. -/
theorem consumeField_fills {c : Command} {done : List Str} {tok : Str} {p : Plugin} {t : Nat}
    (short : done.length < (fields c).length) (currentCmd : p.currentCmd = c)
    (estimate : p.estimate = (fields c).length - done.length) (tree : p.tree = some t)
    (stored : p.trees[t]? = some (fieldTree c done)) :
    ∃ trees, consumeField tok p = .ok { p with estimate := p.estimate - 1, trees := trees } ∧
      trees[t]? = some (fieldTree c (done ++ [tok])) := by
  obtain ⟨name, place, put⟩ := fieldTree_append tok short
  have more : p.estimate ≠ 0 := by omega
  have named : (fields p.currentCmd)[p.estimate - 1]? = some name := by
    rw [currentCmd, estimate, field_name short, place]
  refine ⟨p.trees.modify t (Tree.put name tok), ?_, by simp [stored, put]⟩
  simp [consumeField, more, named, tree]

end Eiptnd.Wialon
