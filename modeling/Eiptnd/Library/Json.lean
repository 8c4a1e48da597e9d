import Eiptnd.Library.Decimal
import Mathlib.Algebra.Field.Rat

/-! Texts in JSON and the values they denote.

A reader takes one value from the front of a text and leaves the rest. -/
namespace Json

inductive Value
  | null
  | bool (b : Bool)
  | number (q : ℚ)
  | string (s : List Char)
  | array (items : List Value)
  | object (members : List (List Char × Value))

/-- A reader for things of a type. -/
abbrev Reader (α : Type) := List Char → Option (α × List Char)

def isSpace (c : Char) : Bool := c == ' ' || c == '\t' || c == '\n' || c == '\r'

def skip (s : List Char) : List Char := s.dropWhile isSpace

/-! ### Numbers -/

/-- Digits behind a point, if there is one. -/
def fraction : Reader (List Char)
  | '.' :: s =>
    if Decimal.digits s = [] then none else some (Decimal.digits s, Decimal.rest s)
  | s => some ([], s)

/-- The digits of an exponent behind its sign. -/
def exponentDigits (negative : Bool) (s : List Char) : Option (ℤ × List Char) :=
  if Decimal.digits s = [] then none
  else
    let e : ℤ := Decimal.value (Decimal.digits s)
    some (if negative then -e else e, Decimal.rest s)

def exponent : Reader ℤ
  | c :: s =>
    if c = 'e' ∨ c = 'E' then
      match s with
      | '-' :: s => exponentDigits true s
      | '+' :: s => exponentDigits false s
      | s => exponentDigits false s
    else some (0, c :: s)
  | [] => some (0, [])

/-- A number without its sign. -/
def unsigned (s : List Char) : Option (ℚ × List Char) :=
  let whole := Decimal.digits s
  if whole = [] ∨ (whole.head? = some '0' ∧ whole ≠ ['0']) then none
  else
    match fraction (Decimal.rest s) with
    | none => none
    | some (part, s) =>
      match exponent s with
      | none => none
      | some (e, s) => some (Decimal.value (whole ++ part) * 10 ^ (e - part.length), s)

def number : Reader ℚ
  | '-' :: s => (unsigned s).map fun read => (-read.1, read.2)
  | s => unsigned s

/-! ### Strings -/

def hexDigit (c : Char) : Option Nat :=
  if '0' ≤ c ∧ c ≤ '9' then some (c.toNat - '0'.toNat)
  else if 'a' ≤ c ∧ c ≤ 'f' then some (c.toNat - 'a'.toNat + 10)
  else if 'A' ≤ c ∧ c ≤ 'F' then some (c.toNat - 'A'.toNat + 10)
  else none

/-- Four hexadecimal digits. -/
def codeUnit : Reader Nat
  | a :: b :: c :: d :: s =>
    match hexDigit a, hexDigit b, hexDigit c, hexDigit d with
    | some a, some b, some c, some d => some (4096 * a + 256 * b + 16 * c + d, s)
    | _, _, _, _ => none
  | _ => none

/-- What follows `\u`: a code unit, or two for a character beyond the first plane. -/
def unicode (s : List Char) : Option (Char × List Char) :=
  match codeUnit s with
  | none => none
  | some (high, s) =>
    if high < 0xD800 ∨ 0xE000 ≤ high then some (Char.ofNat high, s)
    else if 0xDC00 ≤ high then none
    else
      match s with
      | '\\' :: 'u' :: s =>
        match codeUnit s with
        | none => none
        | some (low, s) =>
          if 0xDC00 ≤ low ∧ low < 0xE000 then
            some (Char.ofNat (0x10000 + 1024 * (high - 0xD800) + (low - 0xDC00)), s)
          else none
      | _ => none

/-- What follows a backslash. -/
def escaped : Reader Char
  | '"' :: s => some ('"', s)
  | '\\' :: s => some ('\\', s)
  | '/' :: s => some ('/', s)
  | 'b' :: s => some ('\x08', s)
  | 'f' :: s => some ('\x0c', s)
  | 'n' :: s => some ('\n', s)
  | 'r' :: s => some ('\r', s)
  | 't' :: s => some ('\t', s)
  | 'u' :: s => unicode s
  | _ => none

/-- The characters up to the closing quotation mark. -/
def characters : Nat → Reader (List Char)
  | 0, _ => none
  | _ + 1, [] => none
  | n + 1, c :: s =>
    if c = '"' then some ([], s)
    else if c = '\\' then
      match escaped s with
      | none => none
      | some (c, s) => (characters n s).map fun read => (c :: read.1, read.2)
    else if c.toNat < 0x20 then none
    else (characters n s).map fun read => (c :: read.1, read.2)

/-- A string behind its opening quotation mark. -/
def string (s : List Char) : Option (List Char × List Char) := characters (s.length + 1) s

/-- A hexadecimal digit. -/
def hex (n : Nat) : Char := if n < 10 then Char.ofNat (48 + n) else Char.ofNat (87 + n)

/-- How a character stands in a string. -/
def escape (c : Char) : List Char :=
  if c = '"' ∨ c = '\\' then ['\\', c]
  else if c.toNat < 0x20 then
    ['\\', 'u', '0', '0', hex (c.toNat / 16), hex (c.toNat % 16)]
  else [c]

/-! ### Values -/

section Lists

variable {α : Type} (item : Reader α) (close : Char)

/-- One item or several with commas between them, up to a closing character. -/
def separated : Nat → Reader (List α)
  | 0, _ => none
  | n + 1, s =>
    match item s with
    | none => none
    | some (x, s) =>
      match skip s with
      | [] => none
      | c :: s =>
        if c = ',' then (separated n s).map fun read => (x :: read.1, read.2)
        else if c = close then some ([x], s)
        else none

/-- The closing character at once, or items before it. -/
def group (s : List Char) : Option (List α × List Char) :=
  match skip s with
  | [] => none
  | c :: rest => if c = close then some ([], rest) else separated item close (s.length + 1) s

end Lists

/-- A name, a colon and a value. -/
def member {α : Type} (item : Reader α) (s : List Char) : Option ((List Char × α) × List Char) :=
  match skip s with
  | '"' :: s =>
    match string s with
    | none => none
    | some (name, s) =>
      match skip s with
      | ':' :: s => (item s).map fun read => ((name, read.1), read.2)
      | _ => none
  | _ => none

/-- A literal name behind its first character. -/
def literal {α : Type} (name : List Char) (x : α) (s : List Char) : Option (α × List Char) :=
  if name.isPrefixOf s then some (x, s.drop name.length) else none

/-- A value that is nested at most as deep as the number tells. -/
def value : Nat → Reader Value
  | 0, _ => none
  | n + 1, s =>
    match skip s with
    | [] => none
    | c :: s =>
      if c = '{' then (group (member (value n)) '}' s).map fun read => (.object read.1, read.2)
      else if c = '[' then (group (value n) ']' s).map fun read => (.array read.1, read.2)
      else if c = '"' then (string s).map fun read => (.string read.1, read.2)
      else if c = 't' then literal "rue".toList (.bool true) s
      else if c = 'f' then literal "alse".toList (.bool false) s
      else if c = 'n' then literal "ull".toList .null s
      else (number (c :: s)).map fun read => (.number read.1, read.2)

/-- The value that a whole text denotes. -/
def parse (text : List Char) : Option Value :=
  match value (text.length + 1) text with
  | none => none
  | some (v, rest) => if rest.all isSpace then some v else none

/-- What is read is known from what is made of it. -/
theorem of_map {α β : Type} {f : α → β} (injective : Function.Injective f)
    {read : Option (α × List Char)} {x : α} {rest : List Char}
    (made : (read.map fun pair => (f pair.1, pair.2)) = some (f x, rest)) :
    read = some (x, rest) :=
  Option.map_injective (injective.prodMap Function.injective_id) made

/-! ### Blanks -/

theorem skip_append {blank : List Char} (all : ∀ c ∈ blank, isSpace c = true) (s : List Char) :
    skip (blank ++ s) = skip s := List.dropWhile_append_of_pos all

theorem skip_cons {c : Char} (other : isSpace c = false) (s : List Char) : skip (c :: s) = c :: s :=
  List.dropWhile_cons_of_neg (by simp [other])

theorem skip_cons_blank {c : Char} (blank : isSpace c = true) (s : List Char) :
    skip (c :: s) = skip s := List.dropWhile_cons_of_pos blank

theorem value_append {blank : List Char} (all : ∀ c ∈ blank, isSpace c = true) (n : Nat)
    (s : List Char) : value n (blank ++ s) = value n s := by
  cases n with
  | zero => rfl
  | succ n => rw [value, value, skip_append all]

/-- Behind a value that is inside another one: blanks, and a comma or a closing bracket. -/
def Closed (s : List Char) : Prop :=
  ∃ c rest, skip s = c :: rest ∧ (c = ',' ∨ c = ']' ∨ c = '}')

/-- The characters that can follow a value inside another one. -/
theorem Closed.head {s : List Char} (closed : Closed s) : ∃ c rest, s = c :: rest ∧
    (c = ' ' ∨ c = '\t' ∨ c = '\n' ∨ c = '\r' ∨ c = ',' ∨ c = ']' ∨ c = '}') := by
  obtain ⟨d, tail, found, which⟩ := closed
  cases s with
  | nil => cases found
  | cons c rest =>
    refine ⟨c, rest, rfl, ?_⟩
    cases blank : isSpace c with
    | true =>
      simp only [isSpace, Bool.or_eq_true, beq_iff_eq] at blank
      rcases blank with ((rfl | rfl) | rfl) | rfl <;> simp
    | false =>
      rw [skip_cons blank] at found
      cases found
      rcases which with rfl | rfl | rfl <;> simp

/-- None of them goes on with a number. -/
theorem Closed.stops {s : List Char} (closed : Closed s) :
    Decimal.Ends s ∧ fraction s = some ([], s) ∧ exponent s = some (0, s) := by
  obtain ⟨c, rest, rfl, which⟩ := closed.head
  have ends : c.isDigit = false ∧ c ≠ '.' ∧ ¬ (c = 'e' ∨ c = 'E') := by
    rcases which with rfl | rfl | rfl | rfl | rfl | rfl | rfl <;> decide
  refine ⟨by simpa [Decimal.Ends] using ends.1, ?_, ?_⟩
  · rw [fraction]
    intro s same
    exact ends.2.1 (List.cons.inj same).1
  · unfold exponent
    exact if_neg ends.2.2

/-! ### Strings -/

theorem hexDigit_hex : ∀ k < 16, hexDigit (hex k) = some k := by decide

theorem unicode_hex {n : Nat} (control : n < 0x20) (s : List Char) :
    unicode ('0' :: '0' :: hex (n / 16) :: hex (n % 16) :: s) = some (Char.ofNat n, s) := by
  have unit : codeUnit ('0' :: '0' :: hex (n / 16) :: hex (n % 16) :: s) = some (n, s) := by
    have zero : hexDigit '0' = some 0 := rfl
    rw [codeUnit, zero, hexDigit_hex (n / 16) (by omega), hexDigit_hex (n % 16) (by omega)]
    exact congrArg some (Prod.ext (by simp; omega) rfl)
  rw [unicode, unit]
  exact if_pos (Or.inl (by omega))

theorem escaped_hex {n : Nat} (control : n < 0x20) (s : List Char) :
    escaped ('u' :: '0' :: '0' :: hex (n / 16) :: hex (n % 16) :: s) = some (Char.ofNat n, s) := by
  rw [escaped, unicode_hex control]

theorem characters_escape (n : Nat) (c : Char) (s : List Char) :
    characters (n + 1) (escape c ++ s) =
      (characters n s).map fun read => (c :: read.1, read.2) := by
  rw [escape]
  split
  next special =>
    rcases special with rfl | rfl <;> rfl
  split
  next other control =>
    have read := escaped_hex control s
    rw [Char.ofNat_toNat] at read
    rw [List.cons_append, characters, if_neg (by decide), if_pos rfl]
    simp only [List.cons_append, List.nil_append, read]
  next other plain =>
    simp only [not_or] at other
    rw [List.singleton_append, characters, if_neg other.1, if_neg other.2, if_neg plain]

theorem escape_ne_nil (c : Char) : escape c ≠ [] := by
  rw [escape]
  split
  · exact List.cons_ne_nil _ _
  split <;> exact List.cons_ne_nil _ _

theorem length_escape (t : List Char) : t.length ≤ (t.flatMap escape).length := by
  induction t with
  | nil => exact Nat.le_refl 0
  | cons c t ih =>
    have one := List.length_pos_iff.mpr (escape_ne_nil c)
    rw [List.flatMap_cons, List.length_append, List.length_cons]
    omega

theorem characters_flatMap (t r : List Char) {n : Nat} (enough : t.length < n) :
    characters n (t.flatMap escape ++ '"' :: r) = some (t, r) := by
  induction t generalizing n with
  | nil =>
    cases n with
    | zero => cases enough
    | succ n => exact if_pos rfl
  | cons c t ih =>
    cases n with
    | zero => cases enough
    | succ n =>
      rw [List.flatMap_cons, List.append_assoc, characters_escape, ih (by simpa using enough)]
      rfl

/-- A string is read back from its escaped characters. -/
theorem string_escape (t r : List Char) :
    string (t.flatMap escape ++ '"' :: r) = some (t, r) := by
  have long := length_escape t
  apply characters_flatMap
  simp only [List.length_append, List.length_cons]
  omega

/-! ### Whole numbers -/

theorem unsigned_toDigits (n : Nat) {s : List Char} (closed : Closed s) :
    unsigned (Nat.toDigits 10 n ++ s) = some ((n : ℚ), s) := by
  obtain ⟨ends, fraction, exponent⟩ := closed.stops
  have whole := Decimal.digits_append (Decimal.isDigit_of_mem (n := n)) ends
  have rest := Decimal.rest_append (Decimal.isDigit_of_mem (n := n)) ends
  have plain : ¬ (Nat.toDigits 10 n = [] ∨
      ((Nat.toDigits 10 n).head? = some '0' ∧ Nat.toDigits 10 n ≠ ['0'])) := by
    rintro (empty | ⟨zero, other⟩)
    · exact Nat.toDigits_ne_nil empty
    · rcases Nat.eq_zero_or_pos n with rfl | pos
      · exact other (Nat.toDigits_zero 10)
      · exact Decimal.head_toDigits pos zero
  rw [unsigned]
  rw [whole, rest, fraction, if_neg plain]
  dsimp only
  rw [exponent]
  simp [Decimal.value_toDigits]

theorem number_ofInt (n : ℤ) {s : List Char} (closed : Closed s) :
    number (Decimal.ofInt n ++ s) = some ((n : ℚ), s) := by
  have read := unsigned_toDigits n.natAbs closed
  rw [Decimal.ofInt]
  split
  next negative =>
    have same : -((n.natAbs : ℤ) : ℚ) = n := by
      rw [← Int.cast_neg]
      exact congrArg Int.cast (by omega)
    rw [List.cons_append, number, read, Option.map_some]
    exact congrArg some (Prod.ext same rfl)
  next positive =>
    have same : ((n.natAbs : ℤ) : ℚ) = n := congrArg Int.cast (by omega)
    rw [number, read]
    · exact congrArg some (Prod.ext same rfl)
    · -- No digit is a minus sign.
      intro tail minus
      cases shape : Nat.toDigits 10 n.natAbs with
      | nil => exact Nat.toDigits_ne_nil shape
      | cons d ds =>
        have digit := Decimal.isDigit_of_mem d (by rw [shape]; simp)
        rw [shape] at minus
        cases minus
        exact absurd digit (by decide)

/-! ### Reading one value -/

theorem value_object (n : Nat) (s : List Char) : value (n + 1) ('{' :: s) =
    (group (member (value n)) '}' s).map fun read => (.object read.1, read.2) := by
  rw [value, skip_cons (by rfl)]
  exact if_pos rfl

theorem value_array (n : Nat) (s : List Char) : value (n + 1) ('[' :: s) =
    (group (value n) ']' s).map fun read => (.array read.1, read.2) := by
  rw [value, skip_cons (by rfl)]
  rfl

theorem value_string (n : Nat) (s : List Char) : value (n + 1) ('"' :: s) =
    (string s).map fun read => (.string read.1, read.2) := by
  rw [value, skip_cons (by rfl)]
  rfl

theorem value_bool (n : Nat) (b : Bool) (s : List Char) :
    value (n + 1) ((if b then "true".toList else "false".toList) ++ s) = some (.bool b, s) := by
  cases b <;> rfl

/-- A character that no other value starts with starts a number. -/
theorem value_number (n : Nat) {c : Char} (blank : isSpace c = false)
    (other : c ∉ ['{', '[', '"', 't', 'f', 'n']) (s : List Char) : value (n + 1) (c :: s) =
      (number (c :: s)).map fun read => (.number read.1, read.2) := by
  simp only [List.mem_cons, List.not_mem_nil, or_false, not_or] at other
  obtain ⟨brace, bracket, quote, t, f, nul⟩ := other
  rw [value, skip_cons blank]
  dsimp only
  rw [if_neg brace, if_neg bracket, if_neg quote, if_neg t, if_neg f, if_neg nul]

theorem value_ofInt (n : Nat) (i : ℤ) {s : List Char} (closed : Closed s) :
    value (n + 1) (Decimal.ofInt i ++ s) = some (.number i, s) := by
  have starts : ∃ c cs, Decimal.ofInt i = c :: cs ∧ (c = '-' ∨ c.isDigit = true) := by
    rw [Decimal.ofInt]
    split
    · exact ⟨'-', _, rfl, Or.inl rfl⟩
    · cases shape : Nat.toDigits 10 i.natAbs with
      | nil => exact absurd shape Nat.toDigits_ne_nil
      | cons c cs => exact ⟨c, cs, rfl, Or.inr (Decimal.isDigit_of_mem c (by rw [shape]; simp))⟩
  obtain ⟨c, cs, shape, which⟩ := starts
  have plain : isSpace c = false ∧ c ∉ ['{', '[', '"', 't', 'f', 'n'] := by
    rcases which with rfl | digit
    · decide
    · constructor
      · cases blank : isSpace c with
        | false => rfl
        | true =>
          simp only [isSpace, Bool.or_eq_true, beq_iff_eq] at blank
          rcases blank with ((rfl | rfl) | rfl) | rfl <;> simp at digit
      · intro member
        simp only [List.mem_cons, List.not_mem_nil, or_false] at member
        rcases member with rfl | rfl | rfl | rfl | rfl | rfl <;> simp at digit
  have read := number_ofInt i closed
  rw [shape, List.cons_append] at read ⊢
  rw [value_number n plain.1 plain.2, read]
  rfl

/-- No value starts with a closing bracket. -/
theorem value_closing {c : Char} (which : c = ',' ∨ c = ']' ∨ c = '}') (n : Nat)
    {s rest : List Char} (found : skip s = c :: rest) : value n s = none := by
  cases n with
  | zero => rfl
  | succ n =>
    rw [value, found]
    rcases which with rfl | rfl | rfl <;> rfl

theorem value_starts {n : Nat} {s : List Char} (read : value n s ≠ none) :
    ∃ c tail, skip s = c :: tail ∧ c ≠ ']' := by
  cases found : skip s with
  | nil =>
    cases n with
    | zero => exact absurd rfl read
    | succ n => exact absurd (by rw [value, found]) read
  | cons c tail =>
    refine ⟨c, tail, rfl, ?_⟩
    rintro rfl
    exact read (value_closing (Or.inr (Or.inl rfl)) n found)

theorem member_named {α : Type} (item : Reader α) {name s rest : List Char}
    (read : string s = some (name, ':' :: rest)) :
    member item ('"' :: s) = (item rest).map fun read => ((name, read.1), read.2) := by
  have colon : skip (':' :: rest) = ':' :: rest := skip_cons rfl rest
  rw [member, skip_cons rfl]
  simp only [read, colon]

theorem member_append {α : Type} (item : Reader α) {blank : List Char}
    (all : ∀ c ∈ blank, isSpace c = true) (s : List Char) :
    member item (blank ++ s) = member item s := by
  rw [member, member, skip_append all]

theorem member_starts {α : Type} {item : Reader α} {s : List Char} (read : member item s ≠ none) :
    ∃ c tail, skip s = c :: tail ∧ c ≠ '}' := by
  rw [member] at read
  split at read
  next tail found => exact ⟨'"', tail, found, by decide⟩
  next => exact absurd rfl read

theorem unsigned_single {c : Char} {s rest : List Char} {q : ℚ} (closed : Closed s)
    (read : unsigned (c :: s) = some (q, rest)) :
    c.isDigit = true ∧ q = (Decimal.value [c] : Nat) := by
  obtain ⟨ends, fraction, exponent⟩ := closed.stops
  cases digit : c.isDigit with
  | false =>
    have whole : Decimal.digits (c :: s) = [] :=
      Decimal.digits_of_ends (by simpa [Decimal.Ends] using digit)
    rw [unsigned, whole] at read
    cases read
  | true =>
    have all : ∀ d ∈ [c], d.isDigit = true := by simpa using digit
    have whole : Decimal.digits (c :: s) = [c] := Decimal.digits_append all ends
    have tail : Decimal.rest (c :: s) = s := Decimal.rest_append all ends
    have plain : ¬ ([c] = [] ∨ ([c].head? = some '0' ∧ [c] ≠ ['0'])) := by simp
    rw [unsigned] at read
    rw [whole, tail, fraction, if_neg plain] at read
    dsimp only at read
    rw [exponent] at read
    simp at read
    exact ⟨rfl, read.1.symm⟩

theorem number_single {c : Char} {s rest : List Char} {q : ℚ} (closed : Closed s)
    (read : number (c :: s) = some (q, rest)) :
    c.isDigit = true ∧ q = (Decimal.value [c] : Nat) := by
  unfold number at read
  split at read
  next s' same =>
    -- A sign alone is no number.
    cases same
    have none : unsigned s = none := by
      rw [unsigned, Decimal.digits_of_ends closed.stops.1]
      rfl
    rw [none] at read
    cases read
  · exact unsigned_single closed read

/-- One character in front of what may follow a value is a number only as a digit. -/
theorem value_single {n : Nat} {c : Char} {s rest : List Char} {q : ℚ} (closed : Closed s)
    (read : value n (c :: s) = some (.number q, rest)) :
    c.isDigit = true ∧ q = (Decimal.value [c] : Nat) := by
  cases n with
  | zero => cases read
  | succ n =>
    cases blank : isSpace c with
    | true =>
      obtain ⟨d, tail, found, which⟩ := closed
      rw [value_closing which (n + 1) ((skip_cons_blank blank s).trans found)] at read
      cases read
    | false =>
      rw [value, skip_cons blank] at read
      dsimp only at read
      -- Only the last branch reads a number.
      iterate 3
        split at read
        · obtain ⟨_, -, other⟩ := Option.map_eq_some_iff.mp read
          cases other
      iterate 3
        split at read
        · rw [literal] at read
          split at read <;> cases read
      obtain ⟨pair, found, same⟩ := Option.map_eq_some_iff.mp read
      cases same
      exact number_single closed found

/-! ### Reading several -/

section Lists

variable {α : Type} {item : Reader α} {close : Char} {n : Nat} {s r rest : List Char} {x : α}

theorem separated_comma (reads : item s = some (x, r)) (next : skip r = ',' :: rest) :
    separated item close (n + 1) s =
      (separated item close n rest).map fun read => (x :: read.1, read.2) := by
  rw [separated, reads]
  dsimp only
  rw [next]
  exact if_pos rfl

theorem separated_close (reads : item s = some (x, r)) (next : skip r = close :: rest)
    (other : close ≠ ',') : separated item close (n + 1) s = some ([x], rest) := by
  rw [separated, reads]
  dsimp only
  rw [next]
  dsimp only
  rw [if_neg other, if_pos rfl]

/-- The first item of several is what is read first. -/
theorem separated_head {xs : List α} (read : separated item close n s = some (xs, rest)) :
    ∃ x r, item s = some (x, r) ∧ xs.head? = some x := by
  cases n with
  | zero => cases read
  | succ n =>
    rw [separated] at read
    cases first : item s with
    | none => simp [first] at read
    | some pair =>
      obtain ⟨x, r⟩ := pair
      refine ⟨x, r, rfl, ?_⟩
      rw [first] at read
      dsimp only at read
      split at read
      · cases read
      · split at read
        · obtain ⟨later, -, same⟩ := Option.map_eq_some_iff.mp read
          cases same
          rfl
        · split at read
          · cases read
            rfl
          · cases read

theorem group_close (next : skip s = close :: rest) : group item close s = some ([], rest) := by
  rw [group, next]
  exact if_pos rfl

/-- Several items are a group where none of them starts with the closing character. -/
theorem group_separated {xs : List α}
    (starts : item s ≠ none → ∃ c tail, skip s = c :: tail ∧ c ≠ close)
    (read : separated item close (s.length + 1) s = some (xs, rest)) :
    group item close s = some (xs, rest) := by
  obtain ⟨x, r, first, -⟩ := separated_head read
  obtain ⟨c, tail, found, other⟩ := starts (by simp [first])
  rw [group, found]
  dsimp only
  rw [if_neg other, read]

/-- A group that is not empty is one item or several. -/
theorem separated_of_group {xs : List α} (read : group item close s = some (x :: xs, rest)) :
    separated item close (s.length + 1) s = some (x :: xs, rest) := by
  rw [group] at read
  split at read
  · cases read
  split at read
  · cases read
  · exact read

theorem separated_append {blank : List Char} (blanks : ∀ s, item (blank ++ s) = item s)
    (s : List Char) : separated item close n (blank ++ s) = separated item close n s := by
  cases n with
  | zero => rfl
  | succ n => rw [separated, separated, blanks]

end Lists

end Json
