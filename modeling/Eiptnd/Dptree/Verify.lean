import Eiptnd.Dptree.Denotation

/-! `write_json` as a whole: `verify_json` first, and the text only of a tree it accepts. -/
namespace Eiptnd.Dptree

/-- `write_json`, with the `write_json_helper` of a `dptree`. -/
def writeJsonInternal (boost : Boost) (pretty : Bool) (tree : Dptree) : Option Str :=
  boost.writeJsonInternal (fun pretty tree => text (writeJsonHelper boost pretty 0 tree)) pretty
    tree

/-- What the documentation of Boost says of these functions. -/
structure Boost.Documented (boost : Boost) : Prop where
  escapes : boost.Escapes
  /-- White space follows the value. -/
  blank : ∀ pretty, ∀ c ∈ boost.ending pretty, Json.isSpace c = true
  /-- `verify_json` refuses a tree exactly if data would get lost: at the root, or in a node that
  has children too. -/
  verifies : ∀ tree, boost.verifyJson tree = true ↔ tree.Verified
  /-- `write_json_internal` throws for a tree that `verify_json` refuses, and has any other one
  written by `write_json_helper`. -/
  writes : ∀ helper pretty tree, boost.writeJsonInternal helper pretty tree =
    if boost.verifyJson tree then some (helper pretty tree ++ boost.ending pretty) else none

variable {boost : Boost} {pretty : Bool} {tree : Dptree}

theorem writeJsonInternal_eq (documented : boost.Documented) :
    writeJsonInternal boost pretty tree =
      if boost.verifyJson tree then some (writeJson boost pretty tree) else none :=
  documented.writes _ pretty tree

theorem writeJsonInternal_some (documented : boost.Documented) {message : Str}
    (written : writeJsonInternal boost pretty tree = some message) :
    message = writeJson boost pretty tree := by
  rw [writeJsonInternal_eq documented] at written
  split at written
  · exact (Option.some.inj written).symm
  · cases written

theorem writeJsonInternal_verified (documented : boost.Documented) (verified : tree.Verified) :
    writeJsonInternal boost pretty tree = some (writeJson boost pretty tree) := by
  rw [writeJsonInternal_eq documented]
  exact if_pos ((documented.verifies tree).mpr verified)

/-- The text of a tree without floats and narrow integers is read back, up to its end. -/
theorem parse_writeJson (documented : boost.Documented) (pretty : Bool) (exact : tree.Exact)
    (wide : tree.Wide) :
    Json.parse (writeJson boost pretty tree) = some (denote true tree) := by
  have enough : (text (writeJsonHelper boost pretty 0 tree)).length <
      (writeJson boost pretty tree).length + 1 := by
    rw [writeJson, List.length_append]
    omega
  have read : Json.value ((writeJson boost pretty tree).length + 1) (writeJson boost pretty tree) =
      some (denote true tree, boost.ending pretty) :=
    value_writeJsonHelper pretty documented.escapes 0 _ (boost.ending pretty) tree exact wide enough
      (fun pos => absurd pos (Nat.lt_irrefl 0))
  have ended : (boost.ending pretty).all Json.isSpace = true :=
    List.all_eq_true.mpr (documented.blank pretty)
  rw [Json.parse, read]
  exact if_pos ended

/-- What `write_json` makes of a tree in which no data gets lost is read back as the value that
the tree denotes; of any other tree it makes nothing. -/
theorem writeJsonInternal_reads {boost : Boost} (documented : boost.Documented) (pretty : Bool)
    {tree : Dptree} (exact : tree.Exact) (wide : tree.Wide) :
    (tree.Verified → ∃ output, writeJsonInternal boost pretty tree = some output ∧
      Json.parse output = some (denote true tree)) ∧
    (¬ tree.Verified → writeJsonInternal boost pretty tree = none) := by
  constructor
  · intro verified
    exact ⟨_, writeJsonInternal_verified documented verified,
      parse_writeJson documented pretty exact wide⟩
  · intro lossy
    have refused : boost.verifyJson tree ≠ true := mt (documented.verifies tree).mp lossy
    rw [writeJsonInternal_eq documented]
    exact if_neg refused

theorem escaping_documented : escaping.Documented where
  escapes := escaping_escapes
  blank := by simp [escaping, Json.isSpace]
  verifies := fun _ => decide_eq_true_iff
  writes := by
    intro helper pretty tree
    by_cases verified : tree.Verified <;> simp [escaping, verified]

theorem writeJsonInternal_reads_single :
    ∃ output, writeJsonInternal escaping true (single (.bool true)) = some output ∧
      Json.parse output = some (denote true (single (.bool true))) :=
  (writeJsonInternal_reads escaping_documented true (single_exact id)
    ⟨id, ⟨id, trivial⟩, trivial⟩).1 (single_verified _)

end Eiptnd.Dptree
