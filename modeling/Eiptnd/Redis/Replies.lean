import Eiptnd.Redis.Orderly

/-! How replies are matched when they arrive in pieces.

A stream of well-formed replies is cut anywhere. Each completion of `handle_read` finds
the unfinished reply of the last one in front of its chunk. -/
namespace Eiptnd.Redis

open Reactive

/-! ### Well-formed replies -/

inductive Reply
  | integer (digits : Bytes) (nonempty : digits ≠ []) (valid : ∀ d ∈ digits, d.isDigit = true)
  | pong

/-- A reply up to its CR. -/
def Reply.line : Reply → Bytes
  | .integer digits _ _ => (':' :: digits) ++ ['\r']
  | .pong => Eiptnd.Redis.pong

def Reply.bytes (reply : Reply) : Bytes := reply.line ++ ['\n']

def stream (replies : List Reply) : Bytes := replies.flatMap Reply.bytes

theorem pong_eq : pong = ['+', 'P', 'O', 'N', 'G'] ++ ['\r'] := rfl

private theorem isDigit_ne {d c : Char} (digit : d.isDigit = true) (other : c.isDigit = false) :
    d ≠ c := by
  rintro rfl
  rw [digit] at other
  cases other

/-- The CR is the last byte of the line, and the LF is not in it. -/
theorem Reply.line_shape (reply : Reply) : ∃ body, reply.line = body ++ ['\r'] ∧ '\r' ∉ body ∧
    '\n' ∉ body ∧ 2 ≤ body.length := by
  cases reply with
  | integer digits nonempty valid =>
    refine ⟨':' :: digits, rfl, ?_, ?_, ?_⟩
    · intro member
      rcases List.mem_cons.mp member with same | member
      · cases same
      · exact isDigit_ne (valid _ member) rfl rfl
    · intro member
      rcases List.mem_cons.mp member with same | member
      · cases same
      · exact isDigit_ne (valid _ member) rfl rfl
    · have positive := List.length_pos_of_ne_nil nonempty
      simp only [List.length_cons]
      omega
  | pong => exact ⟨['+', 'P', 'O', 'N', 'G'], pong_eq, by decide, by decide, by decide⟩

theorem Reply.line_clear (reply : Reply) : '\n' ∉ reply.line := by
  obtain ⟨body, shape, -, clear, -⟩ := reply.line_shape
  rw [shape]
  simp [clear]

theorem Reply.line_length (reply : Reply) : 3 ≤ reply.line.length := by
  obtain ⟨body, shape, -, -, long⟩ := reply.line_shape
  simp only [shape, List.length_append, List.length_singleton]
  omega

/-- A line that spells a reply is taken for one. -/
theorem Reply.supported {reply : Reply} {line : List InByte} (spells : text line = reply.line) :
    Supported line := by
  have last : line.getLast?.map InByte.char = (text line).getLast? := by
    rw [text, List.getLast?_map]
  have first : line.head?.map InByte.char = (text line).head? := by
    rw [text, List.head?_map]
  refine ⟨?_, ?_⟩
  · obtain ⟨body, shape, -⟩ := reply.line_shape
    simp [last, spells, shape]
  · cases reply with
    | integer digits => exact .inl (by simp [first, spells, Reply.line])
    | pong => exact .inr spells

/-- A part of a line that ends in CR is the line. -/
theorem Reply.line_whole {reply : Reply} {part : Bytes} (starts : part <+: reply.line)
    (cr : part.getLast? = some '\r') : part = reply.line := by
  obtain ⟨body, shape, clear, -⟩ := reply.line_shape
  rw [shape] at starts ⊢
  rcases List.prefix_concat_iff.mp starts with whole | inside
  · exact whole
  · have member := inside.subset (List.mem_of_getLast? cr)
    exact absurd member clear

/-! ### Cutting a stream -/

/-- The bytes of the reply that is not complete yet. -/
def unfinished (bytes : Bytes) : Bytes := Lines.unended (· == '\n') bytes

private theorem clear_lf {bytes : Bytes} (clear : '\n' ∉ bytes) :
    ∀ c ∈ bytes, (c == '\n') = false := by
  intro c member
  rw [beq_eq_false_iff_ne]
  rintro rfl
  exact clear member

/-- What has arrived of a stream: some replies, and a part of the next. -/
structure CutOff (replies : List Reply) (bytes : Bytes) : Prop where
  arrived : bytes = stream (replies.take (bytes.count '\n')) ++ unfinished bytes
  clear : '\n' ∉ unfinished bytes
  most : bytes.count '\n' ≤ replies.length
  next : unfinished bytes = [] ∨ ∃ reply, replies[bytes.count '\n']? = some reply ∧
    unfinished bytes <+: reply.line
  rest : bytes ≠ stream replies → bytes.count '\n' < replies.length

theorem stream_cutOff {replies : List Reply} {bytes : Bytes} (starts : bytes <+: stream replies) :
    CutOff replies bytes := by
  induction replies generalizing bytes with
  | nil =>
    have none : bytes = [] := List.prefix_nil.mp starts
    subst none
    exact ⟨rfl, by simp [unfinished, Lines.unended], by simp, .inl rfl, by simp [stream]⟩
  | cons reply replies ih =>
    have shape : stream (reply :: replies) = reply.bytes ++ stream replies := List.flatMap_cons
    have inside_or_more : bytes <+: reply.line ∨ reply.bytes <+: bytes := by
      rw [shape] at starts
      rcases List.prefix_or_prefix_of_prefix starts (List.prefix_append _ _) with short | long
      · rcases List.prefix_concat_iff.mp short with whole | inside
        · exact .inr ⟨[], by rw [whole, List.append_nil]; rfl⟩
        · exact .inl inside
      · exact .inr long
    rcases inside_or_more with inside | ⟨more, rfl⟩
    -- The first reply is not complete.
    · have clear : '\n' ∉ bytes := fun member => reply.line_clear (inside.subset member)
      have none : bytes.count '\n' = 0 := List.count_eq_zero.mpr clear
      have all : unfinished bytes = bytes := Lines.unended_clear (clear_lf clear)
      refine ⟨?_, ?_, ?_, ?_, ?_⟩
      · rw [none, all]
        rfl
      · rwa [all]
      · omega
      · exact .inr ⟨reply, by rw [none]; rfl, by rwa [all]⟩
      · intro _
        simp [none]
    -- The first reply is complete, and the others are cut off.
    · have starts : more <+: stream replies := by
        rw [shape] at starts
        exact (List.prefix_append_right_inj _).mp starts
      have cut := ih starts
      have one : (reply.bytes ++ more).count '\n' = more.count '\n' + 1 := by
        have none : reply.line.count '\n' = 0 := List.count_eq_zero.mpr reply.line_clear
        simp only [Reply.bytes, List.count_append, none, List.count_singleton_self]
        omega
      have same : unfinished (reply.bytes ++ more) = unfinished more := by
        have ended := @Lines.unended_ended Char (· == '\n') reply.line more '\n' rfl
        rw [Reply.bytes, List.append_assoc]
        exact ended
      refine ⟨?_, ?_, ?_, ?_, ?_⟩
      · rw [one, same, List.take_succ_cons]
        have first : stream (reply :: replies.take (more.count '\n')) =
            reply.bytes ++ stream (replies.take (more.count '\n')) := List.flatMap_cons
        rw [first, List.append_assoc, ← cut.arrived]
      · rw [same]
        exact cut.clear
      · rw [one]
        exact Nat.succ_le_succ cut.most
      · rw [one, same]
        exact cut.next
      · intro other
        rw [one]
        apply Nat.succ_lt_succ
        apply cut.rest
        rintro rfl
        exact other shape.symm

/-! ### The loop on a stream -/

/-- The client in front of which a stream of replies and a part of one have been read. -/
theorem replyLoop_replies (replies : List Reply) {i left : Nat} {s : List InByte} {c : Client}
    {part : Bytes} (arrived : text c.inBuf.unread = stream replies ++ part)
    (bytes : left = c.inBuf.unread.length) (fits : left < Streambuf.sizes)
    (count : c.outTmpBuf.callbacks.length = i) (enough : replies.length ≤ i) :
    ∃ inBuf front last, text inBuf.unread = part ∧ inBuf.data = c.inBuf.data ∧
      front.map Prod.fst = c.outTmpBuf.callbacks.take replies.length ∧
      let later := replyLoop (i - replies.length) part.length false last
        (c.matched inBuf (c.outTmpBuf.callbacks.drop replies.length))
      replyLoop i left false s c = { later with output := matchOutput c front ++ later.output } := by
  induction replies generalizing i left s c with
  | nil =>
    have all : left = part.length := by
      rw [bytes, ← List.length_map (f := InByte.char)]
      exact congrArg List.length arrived
    refine ⟨c.inBuf, [], s, arrived, rfl, rfl, ?_⟩
    rw [all]
    rfl
  | cons reply replies ih =>
    -- The buffer starts with the line of the reply and its LF.
    have shape : text c.inBuf.unread = reply.line ++ ('\n' :: (stream replies ++ part)) := by
      rw [arrived]
      simp [stream, Reply.bytes]
    obtain ⟨line, behind, found, spells, ending⟩ := List.map_eq_append_iff.mp shape
    obtain ⟨lf, rest, rfl, newline, spelled⟩ := List.map_eq_cons_iff.mp ending
    have clear : ∀ b ∈ line, isLf b = false :=
      isLf_of_text (by rw [text, spells]; exact reply.line_clear)
    have ends : isLf lf = true := by simp [isLf, newline]
    have total : left = line.length + 1 + rest.length := by
      rw [bytes, found, List.length_append, List.length_cons]
      omega
    have long : 3 ≤ line.length := by
      have same : line.length = reply.line.length := by rw [← spells, List.length_map]
      rw [same]
      exact reply.line_length
    obtain ⟨-, -, unread⟩ := Streambuf.getline_ended found clear ends
    cases i with
    | zero => simp at enough
    | succ i =>
      cases queue : c.outTmpBuf.callbacks with
      | nil => simp [queue] at count
      | cons entry others =>
        -- The loop counts the line and its LF off, as the buffer does.
        have less : Streambuf.sizeSub left (line.length + 1) = rest.length := by
          rw [Streambuf.sizeSub_of_le (by omega) fits]
          omega
        have later : text (c.matched (c.inBuf.getline isLf).2.2 others).inBuf.unread =
            stream replies ++ part := by
          rw [← spelled, ← unread]
          rfl
        obtain ⟨inBuf, front, last, remains, data, callbacks, loop⟩ :=
          @ih i rest.length line (c.matched (c.inBuf.getline isLf).2.2 others) later
            (congrArg List.length unread.symm) (by omega) (by simpa [queue] using count)
            (by simpa using enough)
        refine ⟨inBuf, (entry, line) :: front, last, remains, data, ?_, ?_⟩
        · rw [List.map_cons, callbacks]
          rfl
        · rw [replyLoop_reply (by omega) (nextLine_ended found clear ends) (Reply.supported spells)
            queue, less, loop]
          have all : matchOutput c ((entry, line) :: front) =
              invoke entry.callback true line c ++ matchOutput c front := List.flatMap_cons
          rw [all, List.length_cons, Nat.add_sub_add_right, List.drop_succ_cons]
          simp only [List.append_assoc]
          rfl

/-- The loop stops at a part that is too short for a reply or does not end in CR, and
gives its bytes back. -/
theorem replyLoop_part {i : Nat} {s : List InByte} {c : Client} {part : Bytes}
    (arrived : text c.inBuf.unread = part) (clear : '\n' ∉ part)
    (waits : ¬ (4 ≤ part.length ∧ part.getLast? = some '\r')) :
    ∃ inBuf, inBuf.data = c.inBuf.data ∧
      replyLoop i part.length false s c = ⟨{ c with inBuf := inBuf }, [], .leave i part.length⟩ := by
  cases i with
  | zero => exact ⟨c.inBuf, rfl, rfl⟩
  | succ i =>
    by_cases short : part.length < 4
    · refine ⟨c.inBuf, rfl, ?_⟩
      rw [replyLoop, if_pos short]
    refine ⟨(c.inBuf.getline isLf).2.2, rfl, ?_⟩
    rw [replyLoop, if_neg short, nextLine_unended (isLf_of_text (by rwa [arrived]))]
    dsimp only
    split
    next first last start final =>
      rw [if_pos]
      intro cr
      apply waits
      refine ⟨by omega, ?_⟩
      rw [← arrived, text, List.getLast?_map, final, ← cr]
      rfl
    next _ _ empty =>
      -- Four bytes or more make a line that is not empty.
      have filled : c.inBuf.unread ≠ [] := by
        apply List.ne_nil_of_length_pos
        rw [← text_length, arrived]
        omega
      exact absurd (List.getLast?_eq_some_getLast filled)
        (empty _ _ (List.head?_eq_some_head filled))

/-- A whole line is taken for a reply before its LF has arrived. -/
private theorem replyLoop_early {i : Nat} {s : List InByte} {c : Client} {reply : Reply}
    {entry : Entry} {others : List Entry} (arrived : text c.inBuf.unread = reply.line)
    (long : 4 ≤ reply.line.length) (queue : c.outTmpBuf.callbacks = entry :: others) :
    ∃ line more, (replyLoop (i + 1) reply.line.length false s c).output =
      invoke entry.callback true line c ++ more := by
  have next := nextLine_unended (s := s) (isLf_of_text (by rw [arrived]; exact reply.line_clear))
  rw [replyLoop_reply long next (Reply.supported arrived) queue]
  exact ⟨_, _, rfl⟩

/-! ### One completion -/

/-- What `handle_read` leaves when `done` replies and a part of the next have arrived. -/
structure Delivered (c : Client) (done : Nat) (part : Bytes) (r : Result) : Prop where
  fine : r.fault = none
  unread : text r.state.inBuf.unread = part
  answered : ∀ sentOn, ∃ front, answers sentOn r.output = replied sentOn front ∧
    front.map Prod.fst = c.outTmpBuf.callbacks.take done
  reading : done < c.outTmpBuf.callbacks.length →
    r.state.outTmpBuf.callbacks = c.outTmpBuf.callbacks.drop done ∧ started r.output = [.read]

theorem handleRead_delivered {replies : List Reply} {c : Client} {part : Bytes}
    (arrived : text c.inBuf.unread = stream replies ++ part) (clear : '\n' ∉ part)
    (waits : ¬ (4 ≤ part.length ∧ part.getLast? = some '\r'))
    (fits : c.inBuf.data.length < Streambuf.sizes)
    (enough : replies.length ≤ c.outTmpBuf.callbacks.length) :
    Delivered c replies.length part (handleRead true c) := by
  have size : c.inBuf.size < Streambuf.sizes := (Nat.sub_le _ _).trans_lt fits
  obtain ⟨inBuf, front, last, remains, data, callbacks, loop⟩ := replyLoop_replies replies (s := [])
    arrived (Streambuf.length_unread _).symm size rfl enough
  obtain ⟨inBuf', data', stops⟩ := replyLoop_part (s := last)
    (c := c.matched inBuf (c.outTmpBuf.callbacks.drop replies.length))
    (i := c.outTmpBuf.callbacks.length - replies.length) remains clear waits
  have back : text (inBuf'.consume (Streambuf.sizeSub inBuf'.size part.length)).unread = part := by
    have suffix : inBuf.unread <:+ inBuf'.data := by
      rw [data']
      exact inBuf.unread_suffix
    have same : inBuf.unread.length = part.length := by rw [← text_length, remains]
    have consumed := Streambuf.consume_to suffix (by rw [data', Client.matched_inBuf, data]; exact fits)
    rw [← same, consumed, remains]
  rw [handleRead]
  rw [if_neg (by simp), loop, stops]
  simp only [Outcome.emit_andThen, List.append_nil]
  have answered {tail : List Effect} (none : ∀ sentOn, answers sentOn tail = []) (sentOn : Nat) :
      ∃ matched, answers sentOn (matchOutput c front ++ tail) = replied sentOn matched ∧
        matched.map Prod.fst = c.outTmpBuf.callbacks.take replies.length := by
    refine ⟨front, ?_, callbacks⟩
    rw [answers_append, answers_matchOutput, none, List.append_nil]
  split
  next more =>
    refine ⟨rfl, back, answered fun _ => rfl, fun _ => ⟨rfl, ?_⟩⟩
    exact (started_append _ _).trans (by rw [started_matchOutput]; rfl)
  next all =>
    have done : ¬ replies.length < c.outTmpBuf.callbacks.length := by omega
    split
    · exact ⟨rfl, back, answered fun _ => rfl, fun less => absurd less done⟩
    · exact ⟨rfl, back, answered fun _ => rfl, fun less => absurd less done⟩

/-- Answers are counted before the LF of the last reply has arrived. -/
private theorem handleRead_early {replies : List Reply} {reply : Reply} {c : Client}
    (arrived : text c.inBuf.unread = stream replies ++ reply.line)
    (long : 4 ≤ reply.line.length) (fits : c.inBuf.data.length < Streambuf.sizes)
    (enough : replies.length < c.outTmpBuf.callbacks.length) (sentOn : Nat) :
    replies.length < (answers sentOn (handleRead true c).output).length := by
  have size : c.inBuf.size < Streambuf.sizes := (Nat.sub_le _ _).trans_lt fits
  obtain ⟨inBuf, front, last, remains, data, callbacks, loop⟩ := replyLoop_replies replies (s := [])
    arrived (Streambuf.length_unread _).symm size rfl enough.le
  -- A callback is left for the reply whose LF is still to come.
  obtain ⟨i, count⟩ : ∃ i, c.outTmpBuf.callbacks.length - replies.length = i + 1 :=
    ⟨c.outTmpBuf.callbacks.length - replies.length - 1, by omega⟩
  obtain ⟨entry, others, queue⟩ : ∃ entry others,
      c.outTmpBuf.callbacks.drop replies.length = entry :: others :=
    ⟨_, _, List.drop_eq_getElem_cons enough⟩
  obtain ⟨line, more, early⟩ := replyLoop_early (s := last) (i := i)
    (c := c.matched inBuf (c.outTmpBuf.callbacks.drop replies.length)) remains long queue
  have outputs : ∃ tail, (handleRead true c).output =
      matchOutput c front ++ (invoke entry.callback true line
        (c.matched inBuf (c.outTmpBuf.callbacks.drop replies.length)) ++ tail) := by
    rw [handleRead]
    rw [if_neg (by simp), loop, count]
    simp only [Outcome.emit_andThen, early, List.append_assoc]
    exact ⟨_, rfl⟩
  obtain ⟨tail, output⟩ := outputs
  have length : front.length = replies.length := by
    rw [← List.length_map (f := Prod.fst), callbacks, List.length_take]
    omega
  rw [output, answers_append, answers_append, answers_invoke, answers_matchOutput]
  simp only [replied, List.length_append, List.length_map, List.length_singleton, length]
  omega

/-! ### One chunk after another -/

/-- When `bytes` have arrived, the first callbacks have been invoked with true, one for
each line feed, and the reply that is not complete is in the buffer. -/
structure InOrder (s : System) (bytes : Bytes) (s' : System) : Prop where
  answered : ∃ new, s'.answered = s.answered ++ new ∧
    new.map Answer.callback =
      (s.client.outTmpBuf.callbacks.take (bytes.count '\n')).map Entry.callback ∧
    ∀ answer ∈ new, answer.ok = true
  unread : text s'.client.inBuf.unread = unfinished bytes

/-- As long as replies are missing, the client is reading. -/
structure Midway (s : System) (bytes : Bytes) (s' : System) : Prop extends InOrder s bytes s' where
  reading : bytes.count '\n' < s.client.outTmpBuf.callbacks.length → s'.ops = [.read] ∧
    s'.client.outTmpBuf.callbacks = s.client.outTmpBuf.callbacks.drop (bytes.count '\n')

/-- A reply cut off between its CR and its LF, when it is long enough to be looked at. -/
def EarlyCut (part : Bytes) : Prop := 4 ≤ part.length ∧ part.getLast? = some '\r'

instance (part : Bytes) : Decidable (EarlyCut part) := inferInstanceAs (Decidable (_ ∧ _))

theorem text_received (conn : Nat) (chunk : Bytes) (c : Client) :
    text (received conn chunk c).inBuf.unread = text c.inBuf.unread ++ chunk := by
  simp [received, text, Function.comp_def]

theorem data_received (conn : Nat) (chunk : Bytes) (c : Client) :
    (received conn chunk c).inBuf.data.length = (text c.inBuf.unread).length + chunk.length := by
  simp [received, Streambuf.commit, text]

/-- A chunk completes some replies and leaves a part of the next one. -/
private theorem chunk_shape {replies : List Reply} {bytes chunk : Bytes}
    (starts : bytes ++ chunk <+: stream replies) : ∃ complete,
      unfinished bytes ++ chunk = stream complete ++ unfinished (bytes ++ chunk) ∧
      bytes.count '\n' + complete.length = (bytes ++ chunk).count '\n' := by
  have before := stream_cutOff ((List.prefix_append bytes chunk).trans starts)
  have after := stream_cutOff starts
  have fewer : bytes.count '\n' ≤ (bytes ++ chunk).count '\n' := by
    rw [List.count_append]
    omega
  -- The replies complete before the chunk and those it completes.
  have joined : stream (replies.take (bytes.count '\n')) ++
      stream ((replies.take ((bytes ++ chunk).count '\n')).drop (bytes.count '\n')) =
      stream (replies.take ((bytes ++ chunk).count '\n')) := by
    have first := List.take_append_drop (bytes.count '\n')
      (replies.take ((bytes ++ chunk).count '\n'))
    rw [List.take_take, Nat.min_eq_left fewer] at first
    rw [stream, stream, ← List.flatMap_append, first]
    rfl
  refine ⟨(replies.take ((bytes ++ chunk).count '\n')).drop (bytes.count '\n'), ?_, ?_⟩
  · apply @List.append_cancel_left _ (stream (replies.take (bytes.count '\n')))
    rw [← List.append_assoc, ← before.arrived, ← List.append_assoc, joined]
    exact after.arrived
  · have most := after.most
    rw [List.length_drop, List.length_take]
    omega

/-- The buffer in front of the next completion. -/
private theorem buffer_shape {s s₀ : System} {replies : List Reply} {bytes chunk : Bytes}
    (starts : bytes ++ chunk <+: stream replies)
    (fits : (unfinished bytes).length + chunk.length < Streambuf.sizes)
    (before : Midway s bytes s₀) : ∃ complete : List Reply,
      text (received s₀.conn chunk s₀.client).inBuf.unread =
        stream complete ++ unfinished (bytes ++ chunk) ∧
      (received s₀.conn chunk s₀.client).inBuf.data.length < Streambuf.sizes ∧
      bytes.count '\n' + complete.length = (bytes ++ chunk).count '\n' := by
  obtain ⟨complete, shape, counted⟩ := chunk_shape starts
  refine ⟨complete, ?_, ?_, counted⟩
  · rw [text_received, before.unread, shape]
  · rw [data_received, before.unread]
    exact fits

section Deliveries

variable {s s₀ : System} {replies : List Reply} {bytes chunk : Bytes}

private theorem readDone_step (single : s.ops = [.read]) (nonempty : chunk ≠ [])
    (fine : (handleRead true (received s.conn chunk s.client)).fault = none) :
    system.step s (.readDone chunk) =
      some (s.after [] (handleRead true (received s.conn chunk s.client)),
        (handleRead true (received s.conn chunk s.client)).output) := by
  change System.step s (.readDone chunk) = _
  rw [System.step, if_pos ⟨by simp [single], nonempty⟩, single, List.erase_cons_head, taken, fine]

private theorem midway_step (most : replies.length ≤ s.client.outTmpBuf.callbacks.length)
    (starts : bytes ++ chunk <+: stream replies) (nonempty : chunk ≠ [])
    (fits : (unfinished bytes).length + chunk.length < Streambuf.sizes)
    (waits : ¬ EarlyCut (unfinished (bytes ++ chunk))) (before : Midway s bytes s₀) :
    ∃ s' out, system.step s₀ (.readDone chunk) = some (s', out) ∧ Midway s (bytes ++ chunk) s' := by
  obtain ⟨complete, arrived, small, counted⟩ := buffer_shape starts fits before
  have after := stream_cutOff starts
  -- A byte is still to come, so a reply is, and the client reads.
  have missing : bytes.count '\n' < replies.length := by
    apply (stream_cutOff ((List.prefix_append bytes chunk).trans starts)).rest
    rintro rfl
    have length := starts.length_le
    have positive := List.length_pos_of_ne_nil nonempty
    rw [List.length_append] at length
    omega
  obtain ⟨single, callbacks⟩ := before.reading (by omega)
  have same : (received s₀.conn chunk s₀.client).outTmpBuf.callbacks =
      s.client.outTmpBuf.callbacks.drop (bytes.count '\n') := callbacks
  have enough := after.most
  have delivered := handleRead_delivered arrived after.clear waits small (by
    rw [same, List.length_drop]
    omega)
  refine ⟨_, _, readDone_step single nonempty delivered.fine, ?_⟩
  obtain ⟨new, appended, invoked, ok⟩ := before.answered
  obtain ⟨front, answered, matched⟩ := delivered.answered s₀.sentOn
  refine ⟨⟨⟨new ++ replied s₀.sentOn front, ?_, ?_, ?_⟩, delivered.unread⟩, ?_⟩
  · rw [System.after, answered, appended, List.append_assoc]
  · have callback : (replied s₀.sentOn front).map Answer.callback =
        (front.map Prod.fst).map Entry.callback := by
      simp [replied]
    rw [List.map_append, invoked, callback, matched, same, ← List.map_append, ← List.take_add,
      counted]
  · intro answer member
    rcases List.mem_append.mp member with old | now
    · exact ok answer old
    · obtain ⟨x, -, rfl⟩ := List.mem_map.mp now
      rfl
  · intro less
    obtain ⟨left, read⟩ := delivered.reading (by
      rw [same, List.length_drop]
      omega)
    refine ⟨by rw [System.after, read]; rfl, ?_⟩
    rw [System.after, left, same, List.drop_drop, counted]

private theorem early_step (most : replies.length ≤ s.client.outTmpBuf.callbacks.length)
    (starts : bytes ++ chunk <+: stream replies)
    (fits : (unfinished bytes).length + chunk.length < Streambuf.sizes)
    (early : EarlyCut (unfinished (bytes ++ chunk))) (before : Midway s bytes s₀) {s' : System}
    {out : List Effect} (step : system.step s₀ (.readDone chunk) = some (s', out)) :
    ¬ InOrder s (bytes ++ chunk) s' := by
  intro inOrder
  obtain ⟨complete, arrived, small, counted⟩ := buffer_shape starts fits before
  rcases (stream_cutOff starts).next with none | ⟨reply, place, inside⟩
  · rw [none] at early
    exact absurd early.1 (by simp)
  have whole := Reply.line_whole inside early.2
  have missing := (List.getElem?_eq_some_iff.mp place).1
  obtain ⟨single, callbacks⟩ := before.reading (by omega)
  have same : (received s₀.conn chunk s₀.client).outTmpBuf.callbacks =
      s.client.outTmpBuf.callbacks.drop (bytes.count '\n') := callbacks
  rw [whole] at arrived
  have more := handleRead_early arrived (whole ▸ early.1) small (by
    rw [same, List.length_drop]
    omega) s₀.sentOn
  -- More callbacks have been invoked than line feeds have arrived.
  have grown : s'.answered = s₀.answered ++
      answers s₀.sentOn (handleRead true (received s₀.conn chunk s₀.client)).output := by
    change System.step s₀ (.readDone chunk) = _ at step
    rw [System.step] at step
    split at step
    · obtain ⟨-, rfl, -⟩ := taken_some step
      rfl
    · cases step
  obtain ⟨new, appended, invoked, -⟩ := before.answered
  obtain ⟨new', appended', invoked', -⟩ := inOrder.answered
  have length := congrArg List.length invoked
  have length' := congrArg List.length invoked'
  have total := congrArg List.length (appended'.symm.trans grown)
  simp only [List.length_map, List.length_take] at length length'
  simp only [appended, List.length_append] at total
  omega

end Deliveries

/-- A stream of replies arrives chunk by chunk while a batch of requests is outstanding. -/
structure Delivery (s : System) (replies : List Reply) (chunks : List Bytes) : Prop where
  reading : s.ops = [.read]
  empty : s.client.inBuf.unread = []
  most : replies.length ≤ s.client.outTmpBuf.callbacks.length
  cut : chunks.flatten = stream replies
  nonempty : ∀ chunk ∈ chunks, chunk ≠ []
  /-- The size of the buffer is a size. -/
  fits : ∀ arrived chunk, arrived ++ [chunk] <+: chunks →
    (unfinished arrived.flatten).length + chunk.length < Streambuf.sizes

/-- Every completion returns, and leaves all in order. -/
def AllInOrder (s : System) (chunks : List Bytes) : Prop :=
  ∀ arrived, arrived <+: chunks → ∃ s' out,
    system.run s (arrived.map .readDone) = some (s', out) ∧ InOrder s arrived.flatten s'

section Runs

variable {s : System} {replies : List Reply} {chunks : List Bytes}

private theorem Delivery.starts (delivery : Delivery s replies chunks) {arrived : List Bytes}
    {chunk : Bytes} (part : arrived ++ [chunk] <+: chunks) :
    arrived.flatten ++ chunk <+: stream replies := by
  obtain ⟨later, rfl⟩ := part
  rw [← delivery.cut]
  exact ⟨later.flatten, by simp⟩

/-- As long as no cut comes early, all is in order. -/
private theorem midway_run (delivery : Delivery s replies chunks) {arrived : List Bytes}
    (part : arrived <+: chunks)
    (waits : ∀ before, before <+: arrived → ¬ EarlyCut (unfinished before.flatten)) :
    ∃ s' out, system.run s (arrived.map .readDone) = some (s', out) ∧ Midway s arrived.flatten s' := by
  induction arrived using List.reverseRecOn with
  | nil =>
    refine ⟨s, [], rfl, ⟨⟨⟨[], by simp⟩, ?_⟩, fun _ => ⟨delivery.reading, rfl⟩⟩⟩
    rw [delivery.empty]
    rfl
  | append_singleton arrived chunk ih =>
    -- The run up to the last chunk, then the step that reads it.
    obtain ⟨s₀, first, ran, before⟩ := ih ((List.prefix_append _ _).trans part)
      fun before inside => waits before (inside.trans (List.prefix_append _ _))
    have nonempty := delivery.nonempty chunk (part.subset (by simp))
    have last := waits _ (List.prefix_refl _)
    rw [List.flatten_append, List.flatten_singleton] at last ⊢
    obtain ⟨s', rest, taken, after⟩ := midway_step delivery.most (delivery.starts part) nonempty
      (delivery.fits arrived chunk part) last before
    refine ⟨s', first ++ rest, ?_, after⟩
    rw [List.map_append]
    exact Machine.run_concat.mpr ⟨s₀, first, rest, ran, taken, rfl⟩

/-- When all is in order, no cut has come early. -/
private theorem waits_of_inOrder (delivery : Delivery s replies chunks)
    (matched : AllInOrder s chunks) {arrived : List Bytes}
    (part : arrived <+: chunks) : ∀ before, before <+: arrived → ¬ EarlyCut (unfinished before.flatten) := by
  induction arrived using List.reverseRecOn with
  | nil =>
    intro before inside
    rw [List.prefix_nil.mp inside]
    simp [EarlyCut, unfinished, Lines.unended]
  | append_singleton arrived chunk ih =>
    have shorter := (List.prefix_append arrived [chunk]).trans part
    intro before inside
    rcases List.prefix_concat_iff.mp inside with rfl | earlier
    · obtain ⟨s₀, first, ran, midway⟩ := midway_run delivery shorter (ih shorter)
      obtain ⟨s', out, all, inOrder⟩ := matched _ part
      rw [List.map_append] at all
      obtain ⟨mid, first', rest, ran', step, -⟩ := Machine.run_concat.mp all
      -- The runs up to the last chunk are the same.
      cases ran.symm.trans ran'
      rw [List.flatten_append, List.flatten_singleton] at inOrder ⊢
      intro early
      exact early_step delivery.most (delivery.starts part) (delivery.fits arrived chunk part) early
        midway step inOrder
    · exact ih shorter before earlier

/-- Replies are matched one by one, whatever the chunks, if and only if no chunk ends
between the CR and the LF of a reply with at least four bytes before the LF. -/
theorem replies_matched_iff (delivery : Delivery s replies chunks) :
    AllInOrder s chunks ↔
      ∀ arrived, arrived <+: chunks → ¬ EarlyCut (unfinished arrived.flatten) := by
  constructor
  · intro matched arrived part
    exact waits_of_inOrder delivery matched part arrived (List.prefix_refl _)
  · intro waits arrived part
    obtain ⟨s', out, ran, midway⟩ := midway_run delivery part
      fun before inside => waits before (inside.trans part)
    exact ⟨s', out, ran, midway.toInOrder⟩

end Runs

private theorem fits_of_total {chunks : List Bytes}
    (total : chunks.flatten.length < Streambuf.sizes) : ∀ arrived chunk,
    arrived ++ [chunk] <+: chunks →
      (unfinished arrived.flatten).length + chunk.length < Streambuf.sizes := by
  rintro arrived chunk ⟨later, rfl⟩
  have part : (unfinished arrived.flatten).length ≤ arrived.flatten.length :=
    (Lines.unended_suffix _).length_le
  simp only [List.flatten_append, List.flatten_singleton, List.length_append] at total
  omega

/-- A batch of two requests has been written. -/
def twoOutstanding : System :=
  system.after .initial [.handleConnect true [], .ping, .publish ['a'] ['b'], .ping, .writeDone,
    .readDone "+PONG\r\n".toList, .writeDone]

def twelve : Reply := .integer ['1', '2'] (by simp) (by simp [Char.isDigit])

theorem replies_matched_iff_pieces : AllInOrder twoOutstanding
    [":1".toList, "2\r\n+PO".toList, "NG\r\n".toList] := by
  have delivery : Delivery twoOutstanding [twelve, .pong]
      [":1".toList, "2\r\n+PO".toList, "NG\r\n".toList] :=
    ⟨by decide +kernel, by decide +kernel, by decide +kernel, by decide +kernel,
      by decide +kernel, fits_of_total (by decide +kernel)⟩
  apply (replies_matched_iff delivery).mpr
  intro arrived part
  have waits : ∀ arrived ∈ [":1".toList, "2\r\n+PO".toList, "NG\r\n".toList].inits,
      ¬ EarlyCut (unfinished arrived.flatten) := by decide +kernel
  exact waits arrived ((List.mem_inits _ _).mpr part)

/-- A chunk that ends in the CR of the first reply completes both requests. -/
theorem reply_matched_twice : ¬ ∀ s replies chunks, Delivery s replies chunks → AllInOrder s chunks := by
  intro claimed
  have delivery : Delivery twoOutstanding [twelve] [":12\r".toList, "\n".toList] :=
    ⟨by decide +kernel, by decide +kernel, by decide +kernel, by decide +kernel,
      by decide +kernel, fits_of_total (by decide +kernel)⟩
  obtain ⟨s', out, ran, inOrder⟩ := claimed _ _ _ delivery [":12\r".toList] (List.prefix_append _ _)
  have invoked : (system.after twoOutstanding [.readDone ":12\r".toList]).answered.length =
      twoOutstanding.answered.length + 2 := by decide +kernel
  have ended : system.after twoOutstanding [.readDone ":12\r".toList] = s' := by
    rw [Machine.after]
    exact ran ▸ rfl
  obtain ⟨new, appended, callbacks, -⟩ := inOrder.answered
  -- No line feed has arrived.
  have clear : [":12\r".toList].flatten.count '\n' = 0 := by decide
  rw [clear, List.take_zero, List.map_nil, List.map_eq_nil_iff] at callbacks
  rw [ended, appended, callbacks, List.append_nil] at invoked
  omega

end Eiptnd.Redis
