import Eiptnd.Library.Decimal

/-! Commands in the Redis serialization protocol: arrays of bulk strings. -/
namespace Resp

def crlf : List Char := ['\r', '\n']

/-- The text behind the end of a line. -/
def endLine : List Char → Option (List Char)
  | '\r' :: '\n' :: s => some s
  | _ => none

/-- A length and the end of its line. -/
def length (s : List Char) : Option (Nat × List Char) :=
  if Decimal.digits s = [] then none
  else (endLine (Decimal.rest s)).map fun rest => (Decimal.value (Decimal.digits s), rest)

/-- A string behind its length, which may hold any characters. -/
def bulk : List Char → Option (List Char × List Char)
  | '$' :: s =>
    match length s with
    | none => none
    | some (n, s) =>
      if n ≤ s.length then (endLine (s.drop n)).map fun rest => (s.take n, rest) else none
  | _ => none

def bulks : Nat → List Char → Option (List (List Char) × List Char)
  | 0, s => some ([], s)
  | n + 1, s =>
    match bulk s with
    | none => none
    | some (x, s) => (bulks n s).map fun read => (x :: read.1, read.2)

def command : List Char → Option (List (List Char) × List Char)
  | '*' :: s =>
    match length s with
    | none => none
    | some (n, s) => bulks n s
  | _ => none

/-- So many commands at most, to the end of the text. -/
def commands : Nat → List Char → Option (List (List (List Char)))
  | _, [] => some []
  | 0, _ :: _ => none
  | n + 1, c :: s =>
    match command (c :: s) with
    | none => none
    | some (x, s) => (commands n s).map fun later => x :: later

/-- The commands that a whole text consists of. -/
def decode (s : List Char) : Option (List (List (List Char))) := commands s.length s

/-! ### More text behind -/

section Append

variable {s rest t : List Char}

theorem endLine_append (ended : endLine s = some rest) : endLine (s ++ t) = some (rest ++ t) := by
  rw [endLine.eq_def] at ended
  split at ended
  · cases ended
    rfl
  · cases ended

theorem endLine_ends (ended : endLine s = some rest) : Decimal.Ends s := by
  rw [endLine.eq_def] at ended
  split at ended
  · simp [Decimal.Ends]
  · cases ended

theorem length_append {n : Nat} (read : length s = some (n, rest)) :
    length (s ++ t) = some (n, rest ++ t) := by
  rw [length] at read
  split at read
  · cases read
  next digits =>
    obtain ⟨behind, ended, same⟩ := Option.map_eq_some_iff.mp read
    cases same
    have all : ∀ c ∈ Decimal.digits s, c.isDigit = true := fun c member =>
      List.mem_takeWhile_imp member
    have whole : s ++ t = Decimal.digits s ++ (Decimal.rest s ++ t) := by
      rw [← List.append_assoc, Decimal.digits, Decimal.rest, List.takeWhile_append_dropWhile]
    -- The digits stop where they did, at the end of the line.
    have ends : Decimal.Ends (Decimal.rest s ++ t) := by
      cases shape : Decimal.rest s with
      | nil =>
        rw [shape] at ended
        cases ended
      | cons c more =>
        have here := endLine_ends ended
        rw [shape] at here
        exact here
    rw [length, whole, Decimal.digits_append all ends, Decimal.rest_append all ends, if_neg digits,
      endLine_append ended]
    rfl

theorem bulk_append {x : List Char} (read : bulk s = some (x, rest)) :
    bulk (s ++ t) = some (x, rest ++ t) := by
  rw [bulk.eq_def] at read
  split at read
  next s =>
    split at read
    · cases read
    next n behind measured =>
      split at read
      next enough =>
        obtain ⟨more, ended, same⟩ := Option.map_eq_some_iff.mp read
        cases same
        have longer : n ≤ (behind ++ t).length := by
          rw [List.length_append]
          omega
        rw [List.cons_append, bulk, length_append measured]
        dsimp only
        rw [if_pos longer, List.drop_append_of_le_length enough, endLine_append ended,
          List.take_append_of_le_length enough]
        rfl
      next => cases read
  next => cases read

theorem bulks_append {n : Nat} {xs : List (List Char)} (read : bulks n s = some (xs, rest)) :
    bulks n (s ++ t) = some (xs, rest ++ t) := by
  induction n generalizing s xs with
  | zero =>
    cases read
    rfl
  | succ n ih =>
    rw [bulks] at read
    split at read
    · cases read
    next x behind first =>
      obtain ⟨⟨later, more⟩, following, same⟩ := Option.map_eq_some_iff.mp read
      cases same
      rw [bulks, bulk_append first]
      dsimp only
      rw [ih following]
      rfl

/-- A command that has been read whole is not changed by what comes behind it. -/
theorem command_append {xs : List (List Char)} (read : command s = some (xs, rest)) :
    command (s ++ t) = some (xs, rest ++ t) := by
  rw [command.eq_def] at read
  split at read
  next s =>
    split at read
    · cases read
    next n behind measured =>
      rw [List.cons_append, command, length_append measured]
      exact bulks_append read
  next => cases read

end Append

/-! ### Writing -/

def ofBulk (x : List Char) : List Char :=
  '$' :: Nat.toDigits 10 x.length ++ crlf ++ x ++ crlf

def ofCommand (xs : List (List Char)) : List Char :=
  '*' :: Nat.toDigits 10 xs.length ++ crlf ++ xs.flatMap ofBulk

theorem length_toDigits (n : Nat) (s : List Char) :
    length (Nat.toDigits 10 n ++ (crlf ++ s)) = some (n, s) := by
  have ends : Decimal.Ends (crlf ++ s) := by simp [Decimal.Ends, crlf]
  have digits := Decimal.digits_append (Decimal.isDigit_of_mem (n := n)) ends
  have rest := Decimal.rest_append (Decimal.isDigit_of_mem (n := n)) ends
  rw [length, digits, rest, if_neg Nat.toDigits_ne_nil, Decimal.value_toDigits]
  rfl

theorem bulk_ofBulk (x s : List Char) : bulk (ofBulk x ++ s) = some (x, s) := by
  have shape : ofBulk x ++ s = '$' :: (Nat.toDigits 10 x.length ++ (crlf ++ (x ++ (crlf ++ s)))) := by
    simp [ofBulk]
  have enough : x.length ≤ (x ++ (crlf ++ s)).length := by simp
  rw [shape, bulk, length_toDigits]
  dsimp only
  rw [if_pos enough, List.drop_left, List.take_left]
  rfl

theorem bulks_ofBulk (xs : List (List Char)) (s : List Char) :
    bulks xs.length (xs.flatMap ofBulk ++ s) = some (xs, s) := by
  induction xs with
  | nil => rfl
  | cons x xs ih =>
    rw [List.flatMap_cons, List.append_assoc, List.length_cons, bulks, bulk_ofBulk]
    dsimp only
    rw [ih]
    rfl

theorem command_ofCommand (xs : List (List Char)) (s : List Char) :
    command (ofCommand xs ++ s) = some (xs, s) := by
  have shape : ofCommand xs ++ s =
      '*' :: (Nat.toDigits 10 xs.length ++ (crlf ++ (xs.flatMap ofBulk ++ s))) := by
    simp [ofCommand]
  rw [shape, command, length_toDigits]
  exact bulks_ofBulk xs s

theorem commands_ofCommand (cmds : List (List (List Char))) {n : Nat} (enough : cmds.length ≤ n) :
    commands n (cmds.flatMap ofCommand) = some cmds := by
  induction cmds generalizing n with
  | nil => cases n <;> rfl
  | cons xs cmds ih =>
    cases n with
    | zero => cases enough
    | succ n =>
      have read := command_ofCommand xs (cmds.flatMap ofCommand)
      have later := ih (Nat.le_of_succ_le_succ enough)
      rw [List.flatMap_cons]
      -- What is written for a command starts with its star.
      rw [ofCommand, List.cons_append, List.cons_append, List.cons_append] at read ⊢
      rw [commands, read]
      dsimp only
      rw [later]
      rfl

/-- Commands one behind the other are read back, and nothing is left. -/
theorem decode_ofCommand (cmds : List (List (List Char))) :
    decode (cmds.flatMap ofCommand) = some cmds := by
  apply commands_ofCommand
  induction cmds with
  | nil => exact Nat.le_refl 0
  | cons xs cmds ih =>
    simp only [List.flatMap_cons, ofCommand, List.length_append, List.length_cons] at ih ⊢
    omega

end Resp
