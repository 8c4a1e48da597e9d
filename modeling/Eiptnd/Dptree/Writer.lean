import Eiptnd.Library.Decimal
import Mathlib.Data.List.Count

/-! The writer of trees as JSON, as `dptree.hpp` and `dptree_json.hpp` have it.

What one `<<` puts into the stream, or three of them around a quoted string, is a piece. -/
namespace Eiptnd

/-- `std::string`: a sequence of bytes. -/
abbrev Dptree.Str := List Char

/-- The alternatives of the variant. -/
inductive DptreeValue
  | string (v : Dptree.Str)
  | intLeast8 (v : Int8)
  | uintLeast8 (v : UInt8)
  | intLeast16 (v : Int16)
  | uintLeast16 (v : UInt16)
  | intLeast32 (v : Int32)
  | uintLeast32 (v : UInt32)
  | intLeast64 (v : Int64)
  | uintLeast64 (v : UInt64)
  | float (v : BitVec 32)
  | double (v : BitVec 64)
  | bool (v : Bool)

inductive Dptree
  | node (data : DptreeValue) (children : List (Dptree.Str × Dptree))

namespace Dptree

def data : Dptree → DptreeValue
  | .node data _ => data

def children : Dptree → List (Str × Dptree)
  | .node _ children => children

/-- What the writer takes from Boost. -/
structure Boost where
  createEscapes : Str → Str
  /-- `lexical_cast<std::string>` of a `float`. -/
  castFloat : BitVec 32 → Str
  /-- `lexical_cast<std::string>` of a `double`. -/
  castDouble : BitVec 64 → Str
  /-- `verify_json`, of a whole tree. -/
  verifyJson : Dptree → Bool
  /-- What `write_json` puts behind the value. -/
  ending : Bool → Str
  /-- `write_json_internal`, given what `write_json_helper` makes of a tree; `none` where it
  throws. -/
  writeJsonInternal : (Bool → Dptree → Str) → Bool → Dptree → Option Str

/-! ### Values -/

variable (boost : Boost)

/-- `dptree_translator<std::string>::get_value`. -/
def getValue : DptreeValue → Str
  | .bool v => if v then "true".toList else "false".toList
  | .string v => v
  -- `lexical_cast` takes `signed char` and `unsigned char` for a character.
  | .intLeast8 v => [Char.ofNat v.toUInt8.toNat]
  | .uintLeast8 v => [Char.ofNat v.toNat]
  | .intLeast16 v => Decimal.ofInt v.toInt
  | .uintLeast16 v => Decimal.ofInt v.toNat
  | .intLeast32 v => Decimal.ofInt v.toInt
  | .uintLeast32 v => Decimal.ofInt v.toNat
  | .intLeast64 v => Decimal.ofInt v.toInt
  | .uintLeast64 v => Decimal.ofInt v.toNat
  | .float v => boost.castFloat v
  | .double v => boost.castDouble v

inductive Piece
  | openArray | closeArray | openObject | closeObject | comma | colon
  /-- Between quotation marks, as it is escaped. -/
  | quoted (escapes : Str)
  | scalar (data : Str)
  | newline
  | spaces (count : Nat)
  deriving DecidableEq

def Piece.text : Piece → Str
  | .openArray => ['[']
  | .closeArray => [']']
  | .openObject => ['\x7b']
  | .closeObject => ['\x7d']
  | .comma => [',']
  | .colon => [':']
  | .quoted escapes => '"' :: escapes ++ ['"']
  | .scalar data => data
  | .newline => ['\n']
  | .spaces count => List.replicate count ' '

/-- The characters in the stream. -/
def text (pieces : List Piece) : Str := pieces.flatMap Piece.text

/-- `out_json_value`: the overload for strings and the one for the other alternatives. -/
def outJsonValue : DptreeValue → Piece
  | .string v => .quoted (boost.createEscapes v)
  | v => .scalar (getValue boost v)

/-! ### Trees -/

/-- `if (pretty) stream << …`. -/
def prettily (pretty : Bool) (piece : Piece) : List Piece := if pretty then [piece] else []

/-- `count` of the tree: how many children have the key. -/
def count (key : Str) (children : List (Str × Dptree)) : Nat :=
  children.countP fun child => child.1 == key

/-- What the loop over an object puts in front of a child. -/
def label (pretty : Bool) (key : Str) : List Piece :=
  .quoted (boost.createEscapes key) :: .colon :: prettily pretty (.spaces 1)

mutual
/-- The indent is zero at the root only. -/
def writeJsonHelper (pretty : Bool) (indent : Nat) : Dptree → List Piece
  | .node data children =>
    if indent > 0 ∧ children.isEmpty then [outJsonValue boost data]
    else if indent > 0 ∧ count [] children = children.length then
      .openArray :: prettily pretty .newline
        ++ writeChildren pretty indent (fun _ => []) children
        ++ prettily pretty (.spaces (4 * indent)) ++ [.closeArray]
    else
      .openObject :: prettily pretty .newline
        ++ writeChildren pretty indent (label boost pretty) children
        ++ prettily pretty (.spaces (4 * indent)) ++ [.closeObject]
/-- The loop over the children of an array or of an object. -/
def writeChildren (pretty : Bool) (indent : Nat) (label : Str → List Piece) :
    List (Str × Dptree) → List Piece
  | [] => []
  | (key, child) :: rest =>
    prettily pretty (.spaces (4 * (indent + 1)))
      ++ label key ++ writeJsonHelper pretty (indent + 1) child
      ++ (if rest.isEmpty then [] else [.comma])
      ++ prettily pretty .newline ++ writeChildren pretty indent label rest
end

/-- `write_json`, of a tree that `verify_json` accepts. -/
def writeJson (pretty : Bool) (tree : Dptree) : Str :=
  text (writeJsonHelper boost pretty 0 tree) ++ boost.ending pretty

/-! ### Pretty and compact -/

/-- White space that only the pretty output has. -/
def Piece.isLayout : Piece → Bool
  | .newline | .spaces _ => true
  | _ => false

/-- Without the white space. -/
def lexical (pieces : List Piece) : List Piece := pieces.filter fun piece => !piece.isLayout

theorem lexical_append (ps qs : List Piece) : lexical (ps ++ qs) = lexical ps ++ lexical qs :=
  List.filter_append ..

theorem lexical_newline (pretty : Bool) : lexical (prettily pretty .newline) = [] := by
  cases pretty <;> rfl

theorem lexical_spaces (pretty : Bool) (n : Nat) : lexical (prettily pretty (.spaces n)) = [] := by
  cases pretty <;> rfl

theorem prettily_false (piece : Piece) : prettily false piece = [] := rfl

theorem lexical_outJsonValue (v : DptreeValue) :
    lexical [outJsonValue boost v] = [outJsonValue boost v] := by
  cases v <;> rfl

theorem lexical_label (key : Str) : lexical (label boost true key) = label boost false key := rfl

theorem lexical_comma (rest : List (Str × Dptree)) :
    lexical (if rest.isEmpty then [] else [.comma]) = if rest.isEmpty then [] else [.comma] := by
  split <;> rfl

/-- The white space inside a pair of brackets goes. -/
theorem lexical_group {opening closing : Piece} (brackets : lexical [opening] = [opening] ∧
    lexical [closing] = [closing]) (pretty : Bool) (indent : Nat) (inner : List Piece) :
    lexical (opening :: prettily pretty .newline ++ inner
      ++ prettily pretty (.spaces (4 * indent)) ++ [closing]) =
        opening :: lexical inner ++ [closing] := by
  have front : lexical (opening :: prettily pretty .newline) = [opening] := by
    rw [← List.singleton_append, lexical_append, brackets.1, lexical_newline]
    rfl
  rw [lexical_append, lexical_append, lexical_append, front, lexical_spaces, brackets.2]
  simp

mutual
private theorem lexical_writeJsonHelper (indent : Nat) : ∀ tree,
    lexical (writeJsonHelper boost true indent tree) = writeJsonHelper boost false indent tree
  | .node data children => by
    have items := lexical_writeChildren indent (fun _ => []) (fun _ => []) (fun _ => rfl) children
    have members := lexical_writeChildren indent (label boost true) (label boost false)
      (lexical_label boost) children
    unfold writeJsonHelper
    split
    · exact lexical_outJsonValue boost data
    split
    · rw [lexical_group ⟨rfl, rfl⟩, items]
      simp [prettily_false]
    · rw [lexical_group ⟨rfl, rfl⟩, members]
      simp [prettily_false]
private theorem lexical_writeChildren (indent : Nat) (spaced tight : Str → List Piece)
    (labels : ∀ key, lexical (spaced key) = tight key) : ∀ children,
    lexical (writeChildren boost true indent spaced children) =
      writeChildren boost false indent tight children
  | [] => rfl
  | (key, child) :: rest => by
    have first := lexical_writeJsonHelper (indent + 1) child
    have later := lexical_writeChildren indent spaced tight labels rest
    rw [writeChildren, writeChildren]
    simp only [lexical_append, lexical_newline, lexical_spaces, lexical_comma, prettily_false,
      labels, first, later]
end

/-- At every depth and from every indent, the pretty output is the compact one with white space
put in between its pieces. -/
theorem pretty_compact (indent : Nat) (tree : Dptree) :
    lexical (writeJsonHelper boost true indent tree) = writeJsonHelper boost false indent tree ∧
      ∀ piece ∈ writeJsonHelper boost false indent tree, piece.isLayout = false := by
  have same := lexical_writeJsonHelper boost indent tree
  refine ⟨same, ?_⟩
  intro piece member
  rw [← same] at member
  simpa using (List.mem_filter.mp member).2

end Dptree
end Eiptnd
