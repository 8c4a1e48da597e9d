import Eiptnd.Redis.System
import Eiptnd.Redis.Transitions

/-! What a server can send that the client does not survive.

Whatever is in the buffer, the handler returns and counts right, unless the loop meets an
empty line, or the end of the buffer behind a reply that has no LF yet. -/
namespace Eiptnd.Redis

open Reactive

/-- The bytes of a line that the client takes for a reply. -/
def Spelled (line : Bytes) : Prop :=
  line.getLast? = some '\r' ∧ (line.head? = some ':' ∨ line = pong)

theorem supported_iff (line : List InByte) : Supported line ↔ Spelled (text line) := by
  have last : line.getLast?.map InByte.char = (text line).getLast? := by
    rw [text, List.getLast?_map]
  have first : line.head?.map InByte.char = (text line).head? := by
    rw [text, List.head?_map]
  rw [Supported, Spelled, last, first]

/-- Fewer replies than there are callbacks, and behind them four bytes or more that start with
an LF, or that spell another reply but have no LF. -/
def Derails (callbacks : Nat) (bytes : Bytes) : Prop :=
  ∃ (lines : List Bytes) (tail : Bytes), bytes = lines.flatMap (· ++ ['\n']) ++ tail ∧
    lines.length < callbacks ∧ (∀ line ∈ lines, Spelled line ∧ '\n' ∉ line) ∧ 4 ≤ tail.length ∧
    (tail.head? = some '\n' ∨ '\n' ∉ tail ∧ Spelled tail)

/-- `left` is never taken below zero: the loop subtracts at every reply it meets. -/
def CountsRight : Nat → Nat → Bool → List InByte → Client → Prop
  | 0, _, _, _, _ => True
  | i + 1, left, eof, s, c =>
    4 ≤ left →
      let (s, eof, inBuf) := nextLine eof s c.inBuf
      Supported s → s.length + 1 ≤ left ∧
        CountsRight i (Streambuf.sizeSub left (s.length + 1)) eof s
          (c.matched inBuf c.outTmpBuf.callbacks.tail)

/-! ### Where a buffer derails -/

section Buffers

variable {n : Nat} {line rest bytes : Bytes}

theorem not_derails_of_short (short : bytes.length < 4) : ¬ Derails n bytes := by
  rintro ⟨lines, tail, rfl, -, -, long, -⟩
  rw [List.length_append] at short
  omega

/-- A buffer without an LF. -/
theorem derails_unended (clear : '\n' ∉ bytes) (long : 4 ≤ bytes.length) :
    Derails (n + 1) bytes ↔ Spelled bytes := by
  constructor
  · rintro ⟨lines, tail, rfl, -, -, -, kind⟩
    cases lines with
    | nil =>
      rcases kind with lf | kind
      · exact absurd (List.mem_of_mem_head? lf) clear
      · exact kind.2
    | cons line lines => simp at clear
  · intro spelled
    exact ⟨[], bytes, rfl, Nat.zero_lt_succ n, by simp, long, Or.inr ⟨clear, spelled⟩⟩

theorem derails_empty (long : 4 ≤ ('\n' :: rest).length) : Derails (n + 1) ('\n' :: rest) :=
  ⟨[], '\n' :: rest, rfl, Nat.zero_lt_succ n, by simp, long, Or.inl rfl⟩

private theorem split_line {first later : Bytes} (clear : '\n' ∉ line) (clear' : '\n' ∉ first)
    (same : line ++ '\n' :: rest = first ++ '\n' :: later) : line = first ∧ rest = later := by
  have cut {line rest : Bytes} (clear : '\n' ∉ line) :
      Lines.getline (· == '\n') (line ++ '\n' :: rest) = (line, rest) := by
    apply Lines.getline_ended _ rfl
    intro c member
    rw [beq_eq_false_iff_ne]
    rintro rfl
    exact clear member
  have equal := (cut clear).symm.trans (same ▸ cut clear')
  exact Prod.mk.inj equal

/-- Behind a line that is not empty, the buffer does not derail in front of it. -/
private theorem not_derails_here {tail : Bytes} (clear : '\n' ∉ line) (nonempty : line ≠ [])
    (same : line ++ '\n' :: rest = tail) :
    ¬ (tail.head? = some '\n' ∨ '\n' ∉ tail ∧ Spelled tail) := by
  subst same
  rintro (lf | ⟨none, -⟩)
  · cases line with
    | nil => exact nonempty rfl
    | cons c line =>
      cases lf
      exact clear List.mem_cons_self
  · simp at none

/-- A line that is no reply stops the loop before anything can happen. -/
theorem not_derails_of_other (clear : '\n' ∉ line) (nonempty : line ≠ [])
    (other : ¬ Spelled line) : ¬ Derails n (line ++ '\n' :: rest) := by
  rintro ⟨lines, tail, same, -, replies, -, kind⟩
  cases lines with
  | nil => exact not_derails_here clear nonempty same kind
  | cons first lines =>
    obtain ⟨spelled, clear'⟩ := replies first List.mem_cons_self
    have shape : line ++ '\n' :: rest = first ++ '\n' :: (lines.flatMap (· ++ ['\n']) ++ tail) := by
      simpa using same
    exact other ((split_line clear clear' shape).1 ▸ spelled)

/-- Behind a reply there is one callback less. -/
theorem derails_reply (clear : '\n' ∉ line) (spelled : Spelled line) :
    Derails (n + 1) (line ++ '\n' :: rest) ↔ Derails n rest := by
  constructor
  · rintro ⟨lines, tail, same, fewer, replies, long, kind⟩
    cases lines with
    | nil =>
      have nonempty : line ≠ [] := by
        rintro rfl
        cases spelled.1
      exact absurd kind (not_derails_here clear nonempty same)
    | cons first lines =>
      obtain ⟨-, clear'⟩ := replies first List.mem_cons_self
      have shape : line ++ '\n' :: rest = first ++ '\n' :: (lines.flatMap (· ++ ['\n']) ++ tail) := by
        simpa using same
      refine ⟨lines, tail, (split_line clear clear' shape).2, Nat.lt_of_succ_lt_succ fewer, ?_,
        long, kind⟩
      exact fun other member => replies other (List.mem_cons_of_mem _ member)
  · rintro ⟨lines, tail, rfl, fewer, replies, long, kind⟩
    refine ⟨line :: lines, tail, by simp, Nat.succ_lt_succ fewer, ?_, long, kind⟩
    intro other member
    rcases List.mem_cons.mp member with rfl | member
    · exact ⟨spelled, clear⟩
    · exact replies other member

end Buffers

/-! ### The loop -/

section Loop

variable {i left : Nat} {s line : List InByte} {c : Client}

/-- An empty line has no last character. -/
private theorem replyLoop_empty (enough : 4 ≤ left)
    {ended : Bool} {inBuf : Streambuf InByte} (next : nextLine false s c.inBuf = ([], ended, inBuf)) :
    (replyLoop (i + 1) left false s c).exit = .outOfRange := by
  rw [replyLoop, if_neg (by omega), next]
  rfl

/-- Another line stops the loop. -/
private theorem replyLoop_stops (enough : 4 ≤ left) (nonempty : line ≠ [])
    {ended : Bool} {inBuf : Streambuf InByte} (next : nextLine false s c.inBuf = (line, ended, inBuf))
    (other : ¬ Supported line) : (replyLoop (i + 1) left false s c).exit ≠ .outOfRange := by
  obtain ⟨first, start⟩ : ∃ first, line.head? = some first := by
    cases line with
    | nil => exact absurd rfl nonempty
    | cons first _ => exact ⟨first, rfl⟩
  have final := List.getLast?_eq_some_getLast nonempty
  rw [replyLoop, if_neg (by omega), next]
  simp only [start, final]
  split
  · simp
  next cr =>
    split
    · simp
    next kind =>
      exfalso
      apply other
      refine ⟨by simpa [final] using cr, ?_⟩
      by_cases colon : first.char = ':'
      · exact Or.inl (by simp [start, colon])
      · exact Or.inr (not_not.mp fun notPong => kind ⟨colon, notPong⟩)

private theorem countsRight_succ {eof ended : Bool} {inBuf : Streambuf InByte} (enough : 4 ≤ left)
    (next : nextLine eof s c.inBuf = (line, ended, inBuf)) :
    CountsRight (i + 1) left eof s c ↔ (Supported line → line.length + 1 ≤ left ∧
      CountsRight i (Streambuf.sizeSub left (line.length + 1)) ended line
        (c.matched inBuf c.outTmpBuf.callbacks.tail)) := by
  rw [CountsRight, next]
  exact ⟨fun counts => counts enough, fun counts _ => counts⟩

/-- The end of the buffer comes before an LF: a reply is counted off with an LF that is not
there. -/
private theorem replyLoop_right_unended (bytes : left = c.inBuf.unread.length) (enough : 4 ≤ left)
    (clear : ∀ b ∈ c.inBuf.unread, isLf b = false) :
    (replyLoop (i + 1) left false s c).exit ≠ .outOfRange ∧ CountsRight (i + 1) left false s c ↔
      ¬ Derails (i + 1) (text c.inBuf.unread) := by
  have next := nextLine_unended (s := s) clear
  have long : 4 ≤ (text c.inBuf.unread).length := by rwa [text_length, ← bytes]
  rw [derails_unended (text_of_isLf clear) long, ← supported_iff, countsRight_succ enough next]
  constructor
  · rintro ⟨-, counts⟩ supported
    have wrapped := (counts supported).1
    omega
  · intro other
    refine ⟨replyLoop_stops enough ?_ next other, fun supported => absurd supported other⟩
    apply List.ne_nil_of_length_pos
    omega

/-- The loop stays in range and counts right, if and only if the buffer does not derail. -/
theorem replyLoop_right_iff (count : c.outTmpBuf.callbacks.length = i)
    (bytes : left = c.inBuf.unread.length) (fits : left < Streambuf.sizes) :
    (replyLoop i left false s c).exit ≠ .outOfRange ∧ CountsRight i left false s c ↔
      ¬ Derails i (text c.inBuf.unread) := by
  induction i generalizing left s c with
  | zero =>
    have never : ¬ Derails 0 (text c.inBuf.unread) := by
      rintro ⟨lines, tail, -, fewer, -⟩
      exact absurd fewer (Nat.not_lt_zero _)
    simp [replyLoop, CountsRight, never]
  | succ i ih =>
    have size : (text c.inBuf.unread).length = left := by rw [text_length, bytes]
    by_cases few : left < 4
    · have short : ¬ Derails (i + 1) (text c.inBuf.unread) := not_derails_of_short (by omega)
      have idle : ¬ 4 ≤ left := by omega
      simp [replyLoop, CountsRight, few, idle, short]
    have enough : 4 ≤ left := by omega
    rcases @Lines.ended_or_unended _ isLf c.inBuf.unread with
      clear | ⟨line, lf, rest, found, clear, ends⟩
    · exact replyLoop_right_unended bytes enough clear
    have next := nextLine_ended (s := s) found clear ends
    have newline : lf.char = '\n' := by simpa [isLf] using ends
    have spells : text c.inBuf.unread = text line ++ '\n' :: text rest := by
      simp [found, text, newline]
    have clear' := text_of_isLf clear
    rw [countsRight_succ enough next, spells]
    by_cases supported : Supported line
    · -- A reply: the loop goes on behind it.
      obtain ⟨-, -, behind⟩ := Streambuf.getline_ended found clear ends
      have total : left = line.length + 1 + rest.length := by
        rw [bytes, found, List.length_append, List.length_cons]
        omega
      have less : Streambuf.sizeSub left (line.length + 1) = rest.length := by
        rw [Streambuf.sizeSub_of_le (by omega) fits]
        omega
      cases queue : c.outTmpBuf.callbacks with
      | nil => simp [queue] at count
      | cons entry others =>
        have later := @ih rest.length line (c.matched (c.inBuf.getline isLf).2.2 others)
          (by simpa [queue] using count) (congrArg List.length behind.symm) (by omega)
        rw [Client.matched_inBuf, behind] at later
        rw [replyLoop_reply enough next supported queue,
          derails_reply clear' ((supported_iff line).mp supported), ← later, less, List.tail_cons]
        have within : line.length + 1 ≤ left := by omega
        simp [supported, within]
    by_cases empty : line = []
    · -- An empty line: its last character is out of range.
      subst empty
      have long : 4 ≤ ('\n' :: text rest).length := by
        have same : ('\n' :: text rest).length = left := by
          rw [← size, spells]
          rfl
        omega
      simp only [replyLoop_empty enough next, ne_eq, not_true, false_and, false_iff, not_not]
      exact derails_empty long
    · have stops : (replyLoop (i + 1) left false s c).exit ≠ .outOfRange :=
        replyLoop_stops enough empty next supported
      have nonempty : text line ≠ [] := by simpa [text] using empty
      have stands : ¬ Derails (i + 1) (text line ++ '\n' :: text rest) :=
        not_derails_of_other clear' nonempty ((supported_iff line).not.mp supported)
      simp [stops, stands, supported]

end Loop

/-! ### The handler -/

/-- The handler returns if and only if the loop stays in range. -/
theorem handleRead_returns_iff (c : Client) : (handleRead true c).fault = none ↔
    (replyLoop c.outTmpBuf.callbacks.length c.inBuf.size false [] c).exit ≠ .outOfRange := by
  obtain ⟨front, rest, matched⟩ := replyLoop_matched c.inBuf.size c
  have queued := matched.queued
  rw [handleRead]
  rw [if_neg (by simp)]
  generalize replyLoop c.outTmpBuf.callbacks.length c.inBuf.size false [] c = loop at queued
  rw [Outcome.emit_andThen]
  dsimp only
  cases exit : loop.exit with
  | outOfRange => simp
  | emptyQueue => exact absurd exit queued
  | badReply => simp [reconnect_emits]
  | leave i left =>
    have returned : ∀ c : Client, (write true c).fault = none := fun c => by rw [write_locked]; rfl
    dsimp only
    split
    · simp [read]
    split
    · simp
    · simp [returned]

/-- What a reply must not be able to break: the handler returns, `left` stays above zero, and the
handler waits for more, has completed the batch or has failed what is left of it. -/
structure Survives (c : Client) : Prop where
  returns : (handleRead true c).fault = none
  counts : CountsRight c.outTmpBuf.callbacks.length c.inBuf.size false [] c
  handled : Handled c (handleRead true c)

/-- A server can derail the client by an empty line and by the end of what it sends, and by nothing
else. -/
theorem survives_iff {c : Client} (fits : c.inBuf.data.length < Streambuf.sizes) :
    Survives c ↔ ¬ Derails c.outTmpBuf.callbacks.length (text c.inBuf.unread) := by
  have size : c.inBuf.size < Streambuf.sizes := (Nat.sub_le _ _).trans_lt fits
  have right := replyLoop_right_iff (s := []) (c := c) rfl (Streambuf.length_unread _).symm size
  rw [← right]
  constructor
  · intro survives
    exact ⟨(handleRead_returns_iff c).mp survives.returns, survives.counts⟩
  · rintro ⟨inside, counts⟩
    have returns := (handleRead_returns_iff c).mpr inside
    exact ⟨returns, counts, handleRead_cases c returns⟩

/-- One ping is outstanding, and these bytes have come. -/
def outstanding (bytes : Bytes) : Client :=
  received 0 bytes { Client.initial with
    isConnected := true, busy := true, outTmpBuf := ⟨[], [⟨⟨0, true⟩, .ping⟩]⟩ }

theorem survives_iff_outstanding : Survives (outstanding ":1\r\n+PO".toList) := by
  have fits : (outstanding ":1\r\n+PO".toList).inBuf.data.length < Streambuf.sizes := by decide
  apply (survives_iff fits).mpr
  have short : ¬ Derails 0 "+PO".toList := not_derails_of_short (by decide)
  have spelled : Spelled ":1\r".toList := ⟨rfl, Or.inl rfl⟩
  exact (derails_reply (n := 0) (by decide) spelled).not.mpr short

/-- An LF at the start of a line ends the daemon, and a reply without its LF is counted off
with one. -/
theorem reply_derails : (handleRead true (outstanding "\n+PONG\r\n".toList)).fault = some .outOfRange ∧
    ¬ CountsRight 1 4 false [] (outstanding ":12\r".toList) ∧
    ¬ ∀ c : Client, c.inBuf.data.length < Streambuf.sizes → Survives c := by
  have crash : (handleRead true (outstanding "\n+PONG\r\n".toList)).fault = some .outOfRange := by
    decide +kernel
  refine ⟨crash, ?_, ?_⟩
  · intro counts
    have wrapped := (counts (by decide) (by decide)).1
    exact absurd wrapped (by decide)
  · intro claimed
    have returns := (claimed (outstanding "\n+PONG\r\n".toList) (by decide)).returns
    rw [crash] at returns
    cases returns

end Eiptnd.Redis
