import Eiptnd.Dptree.Writer
import Eiptnd.Library.Json

/-! What the JSON that is written for a tree denotes.

It is read back as the tree unless a leaf holds an integer of eight bits, which is
written as a character. -/
namespace Eiptnd

namespace DptreeValue

/-- The number in an integer alternative. -/
def integer : DptreeValue → Option ℤ
  | intLeast8 v => some v.toInt
  | uintLeast8 v => some v.toNat
  | intLeast16 v => some v.toInt
  | uintLeast16 v => some v.toNat
  | intLeast32 v => some v.toInt
  | uintLeast32 v => some v.toNat
  | intLeast64 v => some v.toInt
  | uintLeast64 v => some v.toNat
  | _ => none

def Floating : DptreeValue → Prop
  | float _ | double _ => True
  | _ => False

/-- The alternatives that are character types as well. -/
def Narrow : DptreeValue → Prop
  | intLeast8 _ | uintLeast8 _ => True
  | _ => False

/-- The value a leaf stands for; floating point is left out. -/
def denote : DptreeValue → Json.Value
  | string v => .string v
  | bool v => .bool v
  | v => match v.integer with
    | some n => .number n
    | none => .null

end DptreeValue

namespace Dptree

mutual
/-- The value a tree stands for: the root is an object, whatever it holds. -/
def denote (root : Bool) : Dptree → Json.Value
  | .node data children =>
    if root = false ∧ children.isEmpty then data.denote
    else if root = false ∧ ∀ child ∈ children, child.1 = [] then
      .array ((denoteChildren children).map Prod.snd)
    else .object (denoteChildren children)
def denoteChildren : List (Str × Dptree) → List (Str × Json.Value)
  | [] => []
  | (key, child) :: rest => (key, denote false child) :: denoteChildren rest
end

mutual
/-- Every node has a property, of its data and its children. -/
def Everywhere (P : DptreeValue → List (Str × Dptree) → Prop) : Dptree → Prop
  | .node data children => P data children ∧ EverywhereIn P children
def EverywhereIn (P : DptreeValue → List (Str × Dptree) → Prop) : List (Str × Dptree) → Prop
  | [] => True
  | (_, child) :: rest => Everywhere P child ∧ EverywhereIn P rest
end

/-- Only a leaf has data. -/
def DataInLeaves : Dptree → Prop :=
  Everywhere fun data children => children ≠ [] → data = .string []

/-- What `verify_json` accepts. -/
def Verified (tree : Dptree) : Prop := tree.data = .string [] ∧ tree.DataInLeaves

instance (data : DptreeValue) : Decidable (data = .string []) :=
  match data with
  | .string [] => isTrue rfl
  | .string (_ :: _) => isFalse (by simp)
  | .intLeast8 _ | .uintLeast8 _ | .intLeast16 _ | .uintLeast16 _ | .intLeast32 _ | .uintLeast32 _
  | .intLeast64 _ | .uintLeast64 _ | .float _ | .double _ | .bool _ => isFalse (by simp)

mutual
/-- Whether only a leaf has data. -/
def dataInLeaves : Dptree → Bool
  | .node data children => decide (children ≠ [] → data = .string []) && dataInLeavesIn children
def dataInLeavesIn : List (Str × Dptree) → Bool
  | [] => true
  | (_, child) :: rest => dataInLeaves child && dataInLeavesIn rest
end

mutual
theorem dataInLeaves_iff : ∀ tree, dataInLeaves tree = true ↔ tree.DataInLeaves
  | .node data children => by
    rw [dataInLeaves, Bool.and_eq_true, decide_eq_true_iff, dataInLeavesIn_iff children]
    rfl
theorem dataInLeavesIn_iff : ∀ children, dataInLeavesIn children = true ↔
    EverywhereIn (fun data children => children ≠ [] → data = .string []) children
  | [] => iff_of_true rfl trivial
  | (_, child) :: rest => by
    rw [dataInLeavesIn, Bool.and_eq_true, dataInLeaves_iff child, dataInLeavesIn_iff rest]
    rfl
end

instance : DecidablePred DataInLeaves := fun tree => decidable_of_iff _ (dataInLeaves_iff tree)

instance : DecidablePred Verified := fun tree =>
  inferInstanceAs (Decidable (tree.data = .string [] ∧ tree.DataInLeaves))

/-- Only strings, integers and truth values. -/
def Exact : Dptree → Prop := Everywhere fun data _ => ¬ data.Floating

/-- No integers of eight bits. -/
def Wide : Dptree → Prop := Everywhere fun data _ => ¬ data.Narrow

/-- `create_escapes` escapes a string as JSON does. -/
def Boost.Escapes (boost : Boost) : Prop :=
  ∀ s rest, Json.string (boost.createEscapes s ++ '"' :: rest) = some (s, rest)

/-! ### Pieces of text -/

theorem text_append (ps qs : List Piece) : text (ps ++ qs) = text ps ++ text qs :=
  List.flatMap_append ..

theorem text_singleton (p : Piece) : text [p] = p.text := List.append_nil _

theorem isSpace_of_prettily {piece : Piece} (layout : piece.isLayout = true) (pretty : Bool) :
    ∀ c ∈ text (prettily pretty piece), Json.isSpace c = true := by
  intro c member
  cases pretty with
  | false => cases member
  | true =>
    have shown : c ∈ piece.text := by simpa [text, prettily] using member
    cases piece with
    | newline =>
      cases List.mem_singleton.mp shown
      rfl
    | spaces n =>
      cases (List.mem_replicate.mp shown).2
      rfl
    | _ => cases layout

/-! ### Leaves -/

section Leaves

variable (boost : Boost) {v : DptreeValue} {n : Nat} {rest : Str}

/-- A wide integer is written in decimal notation. -/
theorem outJsonValue_integer {i : ℤ} (integer : v.integer = some i) (wide : ¬ v.Narrow) :
    outJsonValue boost v = .scalar (Decimal.ofInt i) ∧ v.denote = .number i := by
  cases v
  case intLeast8 | uintLeast8 => exact absurd trivial wide
  case string | float | double | bool => cases integer
  all_goals
    cases integer
    exact ⟨rfl, rfl⟩

/-- The alternatives there are. -/
theorem alternatives (exact : ¬ v.Floating) :
    v.Narrow ∨ (∃ s, v = .string s) ∨ (∃ b, v = .bool b) ∨ ∃ i, v.integer = some i := by
  cases v
  case intLeast8 | uintLeast8 => exact Or.inl trivial
  case string s => exact Or.inr (Or.inl ⟨s, rfl⟩)
  case bool b => exact Or.inr (Or.inr (Or.inl ⟨b, rfl⟩))
  case float | double => exact absurd trivial exact
  all_goals exact Or.inr (Or.inr (Or.inr ⟨_, rfl⟩))

/-- A leaf that is not narrow is read back. -/
theorem value_outJsonValue (escapes : boost.Escapes) (exact : ¬ v.Floating) (wide : ¬ v.Narrow)
    (closed : Json.Closed rest) :
    Json.value (n + 1) (text [outJsonValue boost v] ++ rest) = some (v.denote, rest) := by
  rcases alternatives exact with narrow | ⟨s, rfl⟩ | ⟨b, rfl⟩ | ⟨i, integer⟩
  · exact absurd narrow wide
  · have shape : text [outJsonValue boost (.string s)] ++ rest =
        '"' :: (boost.createEscapes s ++ '"' :: rest) := by
      rw [text_singleton]
      simp [outJsonValue, Piece.text]
    rw [shape, Json.value_string, escapes]
    rfl
  · have shape : text [outJsonValue boost (.bool b)] =
        if b then "true".toList else "false".toList := text_singleton _
    rw [shape, Json.value_bool]
    rfl
  · obtain ⟨piece, denotes⟩ := outJsonValue_integer boost integer wide
    have shape : text [outJsonValue boost v] = Decimal.ofInt i := by
      rw [piece, text_singleton]
      rfl
    rw [shape, denotes, Json.value_ofInt n i closed]

/-- A digit is worth less than its code. -/
private theorem digit_below {k : Nat} (byte : k < 256) (digit : (Char.ofNat k).isDigit = true) :
    k < 58 ∧ Decimal.value [Char.ofNat k] ≠ k := by
  have valid : k.isValidChar := Or.inl (by omega)
  have code : (Char.ofNat k).toNat = k := by
    rw [Char.ofNat, dif_pos valid]
    rfl
  obtain ⟨low, high⟩ := Char.isDigit_iff_toNat.mp digit
  rw [code, show '0'.toNat = 48 from rfl] at low
  rw [code, show '9'.toNat = 57 from rfl] at high
  rw [Decimal.value_singleton, code]
  omega

/-- A narrow integer is not: the digit that it may look like is another number. -/
theorem wide_of_value (closed : Json.Closed rest) {after : Str}
    (read : Json.value n (text [outJsonValue boost v] ++ rest) = some (v.denote, after)) :
    ¬ v.Narrow := by
  intro narrow
  cases v
  case intLeast8 v =>
    obtain ⟨digit, same⟩ := Json.value_single closed read
    obtain ⟨low, other⟩ := digit_below v.toUInt8.toNat_lt digit
    have number : v.toInt = v.toUInt8.toNat :=
      BitVec.toInt_eq_toNat_of_lt (show 2 * v.toUInt8.toNat < 256 by omega)
    rw [number] at same
    exact other (by exact_mod_cast same.symm)
  case uintLeast8 v =>
    obtain ⟨digit, same⟩ := Json.value_single closed read
    obtain ⟨-, other⟩ := digit_below v.toNat_lt digit
    exact other (by exact_mod_cast same.symm)
  all_goals exact narrow

end Leaves

/-! ### Labels -/

section Labels

/-- What a loop puts in front of a child, and the reader of such items. -/
structure Labels {α : Type} (label : Str → List Piece) (item : Nat → Json.Reader α)
    (close : Char) (wrap : Str → Json.Value → α) : Prop where
  reads : ∀ n key s, item n (text (label key) ++ s) =
    (Json.value n s).map fun read => (wrap key read.1, read.2)
  blank : ∀ n (blank s : Str), (∀ c ∈ blank, Json.isSpace c = true) →
    item n (blank ++ s) = item n s
  starts : ∀ n s, item n s ≠ none → ∃ c tail, Json.skip s = c :: tail ∧ c ≠ close
  injective : ∀ key v w, wrap key v = wrap key w → v = w
  closes : close = ']' ∨ close = '\x7d'

theorem labels_array : Labels (fun _ => []) Json.value ']' fun _ v => v where
  reads n key s := by
    have same : (fun read : Json.Value × Str => (read.1, read.2)) = id := rfl
    rw [same, Option.map_id]
    rfl
  blank n blank s all := Json.value_append all n s
  starts n s read := Json.value_starts read
  injective _ _ _ same := same
  closes := Or.inl rfl

theorem labels_object {boost : Boost} (escapes : boost.Escapes) (pretty : Bool) :
    Labels (label boost pretty) (fun n => Json.member (Json.value n)) '\x7d' Prod.mk where
  reads n key s := by
    have shape : text (label boost pretty key) ++ s = '"' :: (boost.createEscapes key
        ++ '"' :: ':' :: (text (prettily pretty (.spaces 1)) ++ s)) := by
      simp [label, text, Piece.text]
    rw [shape, Json.member_named _ (escapes key _),
      Json.value_append (isSpace_of_prettily rfl pretty)]
  blank n blank s all := Json.member_append _ all s
  starts n s read := Json.member_starts read
  injective _ _ _ same := congrArg Prod.snd same
  closes := Or.inr rfl

end Labels

/-! ### Children -/

section Children

variable {boost : Boost} {pretty : Bool} {indent n m : Nat} {α : Type}
  {label : Str → List Piece} {item : Nat → Json.Reader α} {close : Char}
  {wrap : Str → Json.Value → α} (labels : Labels label item close wrap)
  {key tail r : Str} {child : Dptree} {rest : List (Str × Dptree)}

variable (boost pretty indent label) in
/-- What is written behind a child, in front of the rest of the text. -/
def behind (rest : List (Str × Dptree)) (tail : Str) : Str :=
  text (if rest.isEmpty then [] else [.comma]) ++ (text (prettily pretty .newline)
    ++ (text (writeChildren boost pretty indent label rest) ++ tail))

include labels in
/-- The first child is read behind its label. -/
theorem item_writeChildren :
    item n (text (writeChildren boost pretty indent label ((key, child) :: rest)) ++ tail) =
      (Json.value n (text (writeJsonHelper boost pretty (indent + 1) child)
        ++ behind boost pretty indent label rest tail)).map fun read => (wrap key read.1, read.2) := by
  have shape : text (writeChildren boost pretty indent label ((key, child) :: rest)) ++ tail =
      text (prettily pretty (.spaces (4 * (indent + 1)))) ++ (text (label key)
        ++ (text (writeJsonHelper boost pretty (indent + 1) child)
          ++ behind boost pretty indent label rest tail)) := by
    simp only [writeChildren, text_append, behind, List.append_assoc]
  rw [shape, labels.blank _ _ _ (isSpace_of_prettily rfl pretty), labels.reads]

theorem skip_behind_nil : Json.skip (behind boost pretty indent label [] tail) = Json.skip tail :=
  Json.skip_append (isSpace_of_prettily rfl pretty) tail

theorem skip_behind_cons {next : Str × Dptree} :
    Json.skip (behind boost pretty indent label (next :: rest) tail) =
      ',' :: (text (prettily pretty .newline)
        ++ (text (writeChildren boost pretty indent label (next :: rest)) ++ tail)) :=
  Json.skip_cons rfl _

include labels in
theorem closed_behind (closes : Json.skip tail = close :: r) :
    Json.Closed (behind boost pretty indent label rest tail) := by
  cases rest with
  | nil => exact ⟨close, r, skip_behind_nil.trans closes, Or.inr labels.closes⟩
  | cons next rest => exact ⟨',', _, skip_behind_cons, Or.inl rfl⟩

theorem length_child : (text (writeJsonHelper boost pretty (indent + 1) child)).length ≤
    (text (writeChildren boost pretty indent label ((key, child) :: rest))).length := by
  simp only [writeChildren, text_append, List.length_append]
  omega

theorem length_rest {next : Str × Dptree} :
    (text (writeChildren boost pretty indent label (next :: rest))).length <
      (text (writeChildren boost pretty indent label ((key, child) :: next :: rest))).length := by
  rw [writeChildren.eq_2 boost pretty indent label key child]
  have comma : (text (if (next :: rest).isEmpty then [] else [.comma])).length = 1 := rfl
  simp only [text_append, List.length_append, comma]
  omega

include labels in
/-- One child after another is read, to the closing bracket. -/
theorem separated_step (closes : Json.skip tail = close :: r) {v : Json.Value}
    (reads : Json.value n (text (writeJsonHelper boost pretty (indent + 1) child)
      ++ behind boost pretty indent label rest tail) =
        some (v, behind boost pretty indent label rest tail)) :
    Json.separated (item n) close (m + 1)
      (text (writeChildren boost pretty indent label ((key, child) :: rest)) ++ tail) =
        if rest.isEmpty then some ([wrap key v], r)
        else (Json.separated (item n) close m
          (text (writeChildren boost pretty indent label rest) ++ tail)).map
            fun read => (wrap key v :: read.1, read.2) := by
  have first :
      item n (text (writeChildren boost pretty indent label ((key, child) :: rest)) ++ tail) =
        some (wrap key v, behind boost pretty indent label rest tail) := by
    rw [item_writeChildren labels, reads]
    rfl
  cases rest with
  | nil =>
    have other : close ≠ ',' := by rcases labels.closes with rfl | rfl <;> decide
    exact Json.separated_close first (skip_behind_nil.trans closes) other
  | cons next rest =>
    rw [Json.separated_comma first skip_behind_cons, Json.separated_append]
    · rfl
    · intro s
      exact labels.blank n _ s (isSpace_of_prettily rfl pretty)

variable (boost pretty indent label close) in
/-- What is written between an opening bracket and the rest of the text. -/
def inner (children : List (Str × Dptree)) (r : Str) : Str :=
  text (prettily pretty .newline) ++ (text (writeChildren boost pretty indent label children)
    ++ (text (prettily pretty (.spaces (4 * indent))) ++ close :: r))

variable (r) in
include labels in
theorem skip_closing : Json.skip (text (prettily pretty (.spaces (4 * indent))) ++ close :: r) =
    close :: r := by
  rw [Json.skip_append (isSpace_of_prettily rfl pretty)]
  exact Json.skip_cons (by rcases labels.closes with rfl | rfl <;> rfl) r

theorem length_inner {children : List (Str × Dptree)} :
    (text (writeChildren boost pretty indent label children)).length <
      (inner boost pretty indent label close children r).length := by
  simp only [inner, List.length_append, List.length_cons]
  omega

include labels in
theorem separated_inner {children : List (Str × Dptree)} :
    Json.separated (item n) close m (inner boost pretty indent label close children r) =
      Json.separated (item n) close m (text (writeChildren boost pretty indent label children)
        ++ (text (prettily pretty (.spaces (4 * indent))) ++ close :: r)) :=
  Json.separated_append (fun s => labels.blank n _ s (isSpace_of_prettily rfl pretty)) _

include labels in
theorem separated_of_inner {children : List (Str × Dptree)} {after : Str}
    (nonempty : children ≠ [])
    (read : Json.group (item n) close (inner boost pretty indent label close children r) =
      some ((denoteChildren children).map fun child => wrap child.1 child.2, after)) :
    Json.separated (item n) close ((inner boost pretty indent label close children r).length + 1)
      (text (writeChildren boost pretty indent label children)
        ++ (text (prettily pretty (.spaces (4 * indent))) ++ close :: r)) =
      some ((denoteChildren children).map fun child => wrap child.1 child.2, after) := by
  cases children with
  | nil => exact absurd rfl nonempty
  | cons child rest =>
    rw [← separated_inner labels]
    exact Json.separated_of_group read

include labels in
theorem group_inner {children : List (Str × Dptree)} {xs : List α}
    (empty : children = [] → xs = [])
    (read : children ≠ [] → ∀ m,
      (text (writeChildren boost pretty indent label children)).length < m →
      Json.separated (item n) close m (text (writeChildren boost pretty indent label children)
        ++ (text (prettily pretty (.spaces (4 * indent))) ++ close :: r)) = some (xs, r)) :
    Json.group (item n) close (inner boost pretty indent label close children r) =
      some (xs, r) := by
  cases children with
  | nil =>
    rw [empty rfl]
    apply Json.group_close
    rw [inner, Json.skip_append (isSpace_of_prettily rfl pretty)]
    exact skip_closing labels r
  | cons child rest =>
    apply Json.group_separated (labels.starts n _)
    rw [separated_inner labels]
    exact read (List.cons_ne_nil _ _) _ (Nat.lt_succ_of_lt length_inner)

end Children

/-! ### Trees -/

section Trees

variable (boost : Boost) (pretty : Bool) (indent : Nat) (data : DptreeValue)
  (children : List (Str × Dptree))

/-- The three shapes of a node, in the text and in the value. -/
theorem shapes :
    (0 < indent ∧ children = [] ∧
      writeJsonHelper boost pretty indent (.node data children) = [outJsonValue boost data] ∧
      denote (indent == 0) (.node data children) = data.denote) ∨
    (children ≠ [] ∧
      (∀ r, text (writeJsonHelper boost pretty indent (.node data children)) ++ r =
        '[' :: inner boost pretty indent (fun _ => []) ']' children r) ∧
      denote (indent == 0) (.node data children) =
        .array ((denoteChildren children).map Prod.snd)) ∨
    ((0 < indent → children ≠ []) ∧
      (∀ r, text (writeJsonHelper boost pretty indent (.node data children)) ++ r =
        '\x7b' :: inner boost pretty indent (label boost pretty) '\x7d' children r) ∧
      denote (indent == 0) (.node data children) = .object (denoteChildren children)) := by
  have inside : (indent == 0) = false ↔ indent > 0 := by
    simp [Nat.pos_iff_ne_zero]
  have keys : count [] children = children.length ↔ ∀ child ∈ children, child.1 = [] := by
    simp [count, List.countP_eq_length]
  unfold writeJsonHelper denote
  simp only [inside, keys]
  split
  next leaf =>
    exact Or.inl ⟨leaf.1, List.isEmpty_iff.mp leaf.2, rfl, rfl⟩
  next other =>
    split
    next array =>
      refine Or.inr (Or.inl ⟨?_, ?_, rfl⟩)
      · exact fun empty => other ⟨array.1, List.isEmpty_iff.mpr empty⟩
      · intro r
        simp [Piece.text, inner, text]
    next object =>
      refine Or.inr (Or.inr ⟨?_, ?_, rfl⟩)
      · exact fun pos empty => other ⟨pos, List.isEmpty_iff.mpr empty⟩
      · intro r
        simp [Piece.text, inner, text]

/-- The text of the children is shorter than that of their node. -/
theorem length_children {boost : Boost} {pretty : Bool} {indent n : Nat} {data : DptreeValue}
    {children : List (Str × Dptree)} {label : Str → List Piece} {opening close : Char}
    (shape : ∀ r, text (writeJsonHelper boost pretty indent (.node data children)) ++ r =
      opening :: inner boost pretty indent label close children r)
    (enough : (text (writeJsonHelper boost pretty indent (.node data children))).length < n + 1) :
    (text (writeChildren boost pretty indent label children)).length < n := by
  have long := congrArg List.length (shape [])
  have part : (text (writeChildren boost pretty indent label children)).length <
    (inner boost pretty indent label close children []).length := length_inner
  simp only [List.append_nil, List.length_cons] at long
  omega

end Trees

section Reading

variable {boost : Boost} (pretty : Bool)

mutual
/-- A tree without narrow integers is read back. -/
theorem value_writeJsonHelper (escapes : boost.Escapes) (indent n : Nat) (r : Str) : ∀ tree : Dptree,
    tree.Exact → tree.Wide → (text (writeJsonHelper boost pretty indent tree)).length < n →
    (0 < indent → Json.Closed r) →
    Json.value n (text (writeJsonHelper boost pretty indent tree) ++ r) =
      some (denote (indent == 0) tree, r)
  | .node data children => by
    intro exact wide enough closed
    cases n with
    | zero => cases enough
    | succ n =>
      rcases shapes boost pretty indent data children with
        ⟨inside, rfl, shape, value⟩ | ⟨nonempty, shape, value⟩ | ⟨-, shape, value⟩
      · rw [shape, value]
        exact value_outJsonValue boost escapes exact.1 wide.1 (closed inside)
      · have short : (text (writeChildren boost pretty indent (fun _ => []) children)).length < n :=
          length_children shape enough
        have read := group_inner labels_array (fun empty => absurd empty nonempty)
          (fun _ m long => separated_writeChildren escapes labels_array indent n m
            (skip_closing labels_array r) children nonempty exact.2 wide.2 short long)
        rw [shape, value, Json.value_array, read]
        rfl
      · have short : (text (writeChildren boost pretty indent (label boost pretty)
            children)).length < n := length_children shape enough
        have object := labels_object escapes pretty
        have read := group_inner object (fun empty => by rw [empty]; rfl)
          (fun nonempty m long => separated_writeChildren escapes object indent n m
            (skip_closing object r) children nonempty exact.2 wide.2 short long)
        rw [shape, value, Json.value_object, read]
        simp
theorem separated_writeChildren (escapes : boost.Escapes) {α : Type} {label : Str → List Piece}
    {item : Nat → Json.Reader α} {close : Char} {wrap : Str → Json.Value → α}
    (labels : Labels label item close wrap) (indent n m : Nat) {tail r : Str}
    (closes : Json.skip tail = close :: r) : ∀ children : List (Str × Dptree), children ≠ [] →
    EverywhereIn (fun data _ => ¬ data.Floating) children →
    EverywhereIn (fun data _ => ¬ data.Narrow) children →
    (text (writeChildren boost pretty indent label children)).length < n →
    (text (writeChildren boost pretty indent label children)).length < m →
    Json.separated (item n) close m
      (text (writeChildren boost pretty indent label children) ++ tail) =
        some ((denoteChildren children).map fun child => wrap child.1 child.2, r)
  | [] => fun nonempty => absurd rfl nonempty
  | (key, child) :: rest => by
    intro _ exact wide deep long
    cases m with
    | zero => cases long
    | succ m =>
      have first := value_writeJsonHelper escapes (indent + 1) n
        (behind boost pretty indent label rest tail) child exact.1 wide.1
        (Nat.lt_of_le_of_lt length_child deep) (fun _ => closed_behind labels closes)
      rw [separated_step labels closes first]
      cases rest with
      | nil => rfl
      | cons next rest =>
        have later := separated_writeChildren escapes labels indent n m closes (next :: rest)
          (List.cons_ne_nil _ _) exact.2 wide.2 (Nat.lt_trans length_rest deep)
          (Nat.lt_of_lt_of_le length_rest (Nat.le_of_lt_succ long))
        rw [later]
        rfl
end

mutual
/-- A tree that is read back has no narrow integers. -/
theorem wide_of_writeJsonHelper (escapes : boost.Escapes) (indent n : Nat) (r after : Str) :
    ∀ tree : Dptree, tree.Exact → tree.DataInLeaves → (indent = 0 → tree.data = .string []) →
    (text (writeJsonHelper boost pretty indent tree)).length < n →
    (0 < indent → Json.Closed r) →
    Json.value n (text (writeJsonHelper boost pretty indent tree) ++ r) =
      some (denote (indent == 0) tree, after) → tree.Wide
  | .node data children => by
    intro exact leaves root enough closed read
    cases n with
    | zero => cases enough
    | succ n =>
      rcases shapes boost pretty indent data children with
        ⟨inside, rfl, shape, value⟩ | ⟨nonempty, shape, value⟩ | ⟨nonempty, shape, value⟩
      · rw [shape, value] at read
        exact ⟨wide_of_value boost (closed inside) read, trivial⟩
      · rw [shape, value, Json.value_array] at read
        have items : Json.group (Json.value n) ']' (inner boost pretty indent (fun _ => []) ']'
            children r) = some ((denoteChildren children).map Prod.snd, after) :=
          Json.of_map (fun _ _ => Json.Value.array.inj) read
        refine ⟨leaves.1 nonempty ▸ id, ?_⟩
        exact wide_of_writeChildren escapes labels_array indent n _ (skip_closing labels_array r)
          children exact.2 leaves.2 (length_children shape enough)
          (Nat.lt_succ_of_lt length_inner) (separated_of_inner labels_array nonempty items)
      · rw [shape, value, Json.value_object] at read
        have members : Json.group (Json.member (Json.value n)) '\x7d' (inner boost pretty indent
            (label boost pretty) '\x7d' children r) =
              some ((denoteChildren children).map fun child => (child.1, child.2), after) := by
          rw [List.map_id'' fun _ => rfl]
          exact Json.of_map (fun _ _ => Json.Value.object.inj) read
        have object := labels_object escapes pretty
        have bare : data = .string [] := by
          rcases Nat.eq_zero_or_pos indent with zero | pos
          · exact root zero
          · exact leaves.1 (nonempty pos)
        refine ⟨bare ▸ id, ?_⟩
        by_cases empty : children = []
        · rw [empty]
          exact trivial
        · exact wide_of_writeChildren escapes object indent n _ (skip_closing object r)
            children exact.2 leaves.2 (length_children shape enough)
            (Nat.lt_succ_of_lt length_inner) (separated_of_inner object empty members)
theorem wide_of_writeChildren (escapes : boost.Escapes) {α : Type} {label : Str → List Piece}
    {item : Nat → Json.Reader α} {close : Char} {wrap : Str → Json.Value → α}
    (labels : Labels label item close wrap) (indent n m : Nat) {tail r after : Str}
    (closes : Json.skip tail = close :: r) : ∀ children : List (Str × Dptree),
    EverywhereIn (fun data _ => ¬ data.Floating) children →
    EverywhereIn (fun data children => children ≠ [] → data = .string []) children →
    (text (writeChildren boost pretty indent label children)).length < n →
    (text (writeChildren boost pretty indent label children)).length < m →
    Json.separated (item n) close m
      (text (writeChildren boost pretty indent label children) ++ tail) =
        some ((denoteChildren children).map fun child => wrap child.1 child.2, after) →
    EverywhereIn (fun data _ => ¬ data.Narrow) children
  | [] => fun _ _ _ _ _ => trivial
  | (key, child) :: rest => by
    intro exact leaves deep long read
    have short := Nat.lt_of_le_of_lt length_child deep
    have closed : Json.Closed (behind boost pretty indent label rest tail) :=
      closed_behind labels closes
    have wide : child.Wide := by
      obtain ⟨x, s, first, head⟩ := Json.separated_head read
      have value : x = wrap key (denote false child) := (Option.some.inj head).symm
      rw [item_writeChildren labels, value] at first
      apply wide_of_writeJsonHelper escapes (indent + 1) n _ s child exact.1 leaves.1
        (fun zero => absurd zero (Nat.succ_ne_zero indent)) short (fun _ => closed)
      exact Json.of_map (labels.injective key) first
    refine ⟨wide, ?_⟩
    cases m with
    | zero => cases long
    | succ m =>
      have first := value_writeJsonHelper pretty escapes (indent + 1) n _ child exact.1 wide short
        (fun _ => closed)
      rw [separated_step labels closes first] at read
      cases rest with
      | nil => exact trivial
      | cons next rest =>
        have later : Json.separated (item n) close m (text (writeChildren boost pretty indent label
            (next :: rest)) ++ tail) = some ((denoteChildren (next :: rest)).map fun child =>
              wrap child.1 child.2, after) :=
          Json.of_map (f := (wrap key (denote false child) :: ·))
            (fun _ _ same => (List.cons.inj same).2) read
        exact wide_of_writeChildren escapes labels indent n m closes (next :: rest) exact.2 leaves.2
          (Nat.lt_trans length_rest deep)
          (Nat.lt_of_lt_of_le length_rest (Nat.le_of_lt_succ long)) later
end

end Reading

section Writing

variable {boost : Boost}

/-- What is written for a tree is one JSON value that denotes it, if and only if no leaf holds an
integer of eight bits. -/
theorem writeJson_denotes (escapes : boost.Escapes)
    (blank : ∀ pretty, ∀ c ∈ boost.ending pretty, Json.isSpace c = true) (pretty : Bool)
    (tree : Dptree) (verified : tree.Verified) (exact : tree.Exact) :
    Json.parse (writeJson boost pretty tree) = some (denote true tree) ↔ tree.Wide := by
  have enough : (text (writeJsonHelper boost pretty 0 tree)).length <
      (writeJson boost pretty tree).length + 1 := by
    rw [writeJson, List.length_append]
    omega
  constructor
  · intro parsed
    rw [Json.parse] at parsed
    split at parsed
    · cases parsed
    next v after found =>
      split at parsed
      · cases parsed
        exact wide_of_writeJsonHelper pretty escapes 0 _ _ after tree exact verified.2
          (fun _ => verified.1) enough (fun pos => absurd pos (Nat.lt_irrefl 0)) found
      · cases parsed
  · intro wide
    have read : Json.value ((writeJson boost pretty tree).length + 1) (writeJson boost pretty tree) =
        some (denote true tree, boost.ending pretty) :=
      value_writeJsonHelper pretty escapes 0 _ (boost.ending pretty) tree exact wide enough
        (fun pos => absurd pos (Nat.lt_irrefl 0))
    have ended : (boost.ending pretty).all Json.isSpace = true :=
      List.all_eq_true.mpr (blank pretty)
    rw [Json.parse, read]
    exact if_pos ended

/-- Boost, with the characters that have to be escaped in a string escaped. -/
def escaping : Boost where
  createEscapes s := s.flatMap Json.escape
  castFloat _ := []
  castDouble _ := []
  verifyJson tree := decide tree.Verified
  ending _ := ['\n']
  writeJsonInternal helper pretty tree :=
    if tree.Verified then some (helper pretty tree ++ ['\n']) else none

/-- A tree with a single leaf under the root. -/
def single (v : DptreeValue) : Dptree :=
  .node (.string []) [("a".toList, .node v [])]

theorem single_verified (v : DptreeValue) : (single v).Verified := by
  refine ⟨rfl, ?_⟩
  simp [DataInLeaves, single, Everywhere, EverywhereIn]

theorem single_exact {v : DptreeValue} (exact : ¬ v.Floating) : (single v).Exact :=
  ⟨id, ⟨exact, trivial⟩, trivial⟩

theorem escaping_escapes : escaping.Escapes := Json.string_escape

theorem writeJson_denotes_single : Json.parse (writeJson escaping true (single (.bool true))) =
    some (denote true (single (.bool true))) :=
  (writeJson_denotes escaping_escapes (by simp [escaping, Json.isSpace]) true _
    (single_verified _) (single_exact id)).mpr ⟨id, ⟨id, trivial⟩, trivial⟩

/-- The number 65 is written as a letter. -/
theorem narrow_misread : escaping.Escapes ∧ (single (.intLeast8 65)).Verified ∧
    (single (.intLeast8 65)).Exact ∧
    writeJson escaping false (single (.intLeast8 65)) = "\x7b\"a\":A\x7d\n".toList ∧
    Json.parse (writeJson escaping false (single (.intLeast8 65))) ≠
      some (denote true (single (.intLeast8 65))) := by
  refine ⟨escaping_escapes, single_verified _, single_exact id, rfl, ?_⟩
  have unread : Json.parse (writeJson escaping false (single (.intLeast8 65))) = none := rfl
  simp [unread]

end Writing

end Dptree
end Eiptnd
