import Eiptnd.Wialon.Exceptions

/-! How `handle_read` cuts the stream into lines.

Bytes are appended to `sbuf_` while a read is outstanding, `handle_read` runs once
the buffer holds a CRLF, and it has to ask for the next read itself. -/
namespace Eiptnd.Wialon

open Reactive

/-! ### The buffer is the reader's alone -/

private theorem commitCommand_sbuf (boost : Boost) (granted : Bool) (p : Plugin) :
    (commitCommand boost granted p).state.sbuf = p.sbuf := by
  have commit := commitCommand_cases boost granted p
  generalize commitCommand boost granted p = r at commit
  cases commit with
  | asked => cases granted <;> rfl
  | _ => rfl

private theorem endOfLine_sbuf (boost : Boost) (granted : Bool) (p : Plugin) :
    (endOfLine boost granted p).state.sbuf = p.sbuf := by
  have ended := endOfLine_cases boost granted p
  generalize endOfLine boost granted p = r at ended
  cases ended with
  | cut => exact commitCommand_sbuf boost granted _
  | last => exact commitCommand_sbuf boost granted p
  | done => exact commitCommand_sbuf boost granted p
  | _ => rfl

theorem consumeToken_sbuf (boost : Boost) (granted : Bool) (tok : Str) (p : Plugin) :
    (consumeToken boost granted tok p).state.sbuf = p.sbuf := by
  by_cases ends : tok = crlf
  · rw [consumeToken, if_pos ends]
    refine Outcome.andThen_state (fun q : Plugin => q.sbuf = p.sbuf) _ _
      (endOfLine_sbuf boost granted p) ?_
    intro q same
    exact same
  · have step := consumeToken_cases boost granted ends p
    generalize consumeToken boost granted tok p = r at step
    cases step <;> rfl

theorem handleLine_sbuf (boost : Boost) (granted : Bool) (message : Str) (p : Plugin) :
    (handleLine boost granted message p).state.sbuf = p.sbuf := by
  have toks_sbuf (toks : List Str) (p : Plugin) :
      (consumeTokens boost granted toks p).state.sbuf = p.sbuf := by
    induction toks generalizing p with
    | nil => rfl
    | cons tok toks ih =>
      exact Outcome.andThen_state (fun q : Plugin => q.sbuf = p.sbuf) _ _
        (consumeToken_sbuf boost granted tok p) fun q same => (ih q).trans same
  exact Outcome.andThen_state (fun q : Plugin => q.sbuf = p.sbuf) _ _ (toks_sbuf _ p)
    fun q same => (consumeToken_sbuf boost granted crlf q).trans same

/-! ### Reading a line -/

/-- How the loop of `handle_read` is left. -/
inductive Gathered
  /-- The buffer is empty and no line was found. -/
  | nothing
  /-- An empty string was asked for its last character. -/
  | beforeBegin (rest : Str)
  | line (message rest : Str)
  deriving DecidableEq, Repr

/-- What the loop leaves in the buffer. -/
def Gathered.rest : Gathered → Str
  | .nothing => []
  | .beforeBegin rest => rest
  | .line _ rest => rest

/-- The loop of `handle_read`. Each turn takes at least one byte from the buffer, so
that as many turns as bytes are enough. -/
def gather : Nat → Str → Str → Gathered
  | 0, _, _ => .nothing
  | turns + 1, message, buffer =>
    if buffer = [] then .nothing
    else
      let (tmp, rest) := Lines.getline (· == '\n') buffer
      let rest := rest.drop (tmp.length + 1)
      match tmp.getLast? with
      | none => .beforeBegin rest
      | some last =>
        if last = '\r' then .line (message ++ tmp.dropLast) rest
        else gather turns (message ++ tmp ++ ['\n']) rest

section Reader

variable (boost : Boost)

def handleRead (granted : Bool) (p : Plugin) : Result :=
  match gather p.sbuf.length [] p.sbuf with
  | .nothing => .ok { p with sbuf := [] }
  | .beforeBegin rest => .fail { p with sbuf := rest } .beforeBegin
  | .line message rest =>
    ((Outcome.emit { p with sbuf := rest } [.parseString message]).andThen
      (handleLine boost granted message)).andThen fun p =>
        if p.state ≠ .binaryData then .emit p [.doReadUntil crlf] else .ok p

/-- The strings handed to `parse_string` among some effects. -/
def messages (out : List Effect) : List Str :=
  out.filterMap fun
    | .parseString message => some message
    | _ => none

def Effect.isArm : Effect → Bool
  | .doReadUntil _ => true
  | _ => false

/-- The receiving end of a connection: whether a read is outstanding, and what has
been handed to `parse_string` so far. -/
structure Reader where
  plugin : Plugin
  armed : Bool
  passed : List Str
  deriving Repr

/-- `handle_start`. -/
def Reader.start (p : Plugin) : Reader := ⟨p, true, []⟩

/-- One call of `handle_read`; `answers` are those of `authenticate`, line by line. -/
def Reader.handle (answers : Nat → Bool) (r : Reader) : Reader :=
  let o := handleRead boost (answers r.passed.length) r.plugin
  ⟨o.state, o.output.any Effect.isArm, r.passed ++ messages o.output⟩

/-- The outstanding read completes as long as the buffer holds a CRLF. -/
def Reader.drain (answers : Nat → Bool) : Nat → Reader → Reader
  | 0, r => r
  | turns + 1, r =>
    if r.armed = true ∧ ¬ Lines.Open '\r' '\n' r.plugin.sbuf then
      Reader.drain answers turns (r.handle boost answers)
    else r

/-- A chunk is read off the socket if a read is outstanding. -/
def Reader.receive (answers : Nat → Bool) (r : Reader) (chunk : Str) : Reader :=
  if r.armed then
    let buffer := r.plugin.sbuf ++ chunk
    Reader.drain boost answers buffer.length { r with plugin := { r.plugin with sbuf := buffer } }
  else r

end Reader

/-! ### What the loop takes and loses -/

private theorem getLast?_cr {tmp : Str} (last : tmp.getLast? = some '\r') :
    tmp = tmp.dropLast ++ ['\r'] := by
  obtain ⟨some, same⟩ := List.getLast?_eq_some_iff.mp last
  simp [same]

/-- One turn of the loop on a buffer with a line feed. -/
private theorem gather_fed {turns : Nat} {message tmp rest : Str} (clear : '\n' ∉ tmp) :
    gather (turns + 1) message (tmp ++ '\n' :: rest) =
      match tmp.getLast? with
      | none => .beforeBegin (rest.drop (tmp.length + 1))
      | some last =>
        if last = '\r' then .line (message ++ tmp.dropLast) (rest.drop (tmp.length + 1))
        else gather turns (message ++ tmp ++ ['\n']) (rest.drop (tmp.length + 1)) := by
  have found : Lines.getline (· == '\n') (tmp ++ '\n' :: rest) = (tmp, rest) :=
    Lines.getline_ended (fun c member => by
      simp only [beq_eq_false_iff_ne]
      rintro rfl
      exact clear member) rfl
  rw [gather, if_neg (by simp)]
  simp only [found]

/-- One turn of the loop on a buffer without: it is emptied. -/
private theorem gather_unfed {turns : Nat} {message buffer : Str} (nonempty : buffer ≠ [])
    (clear : '\n' ∉ buffer) :
    gather (turns + 1) message buffer =
      match buffer.getLast? with
      | none => .beforeBegin []
      | some last =>
        if last = '\r' then .line (message ++ buffer.dropLast) []
        else gather turns (message ++ buffer ++ ['\n']) [] := by
  have found : Lines.getline (· == '\n') buffer = (buffer, []) :=
    Lines.getline_unended fun c member => by
      simp only [beq_eq_false_iff_ne]
      rintro rfl
      exact clear member
  rw [gather, if_neg nonempty]
  simp only [found, List.drop_nil]

private theorem gather_nil (turns : Nat) (message : Str) : gather turns message [] = .nothing := by
  cases turns <;> simp [gather]

/-- A buffer is cut at its first line feed, if it has one. -/
private theorem fed_or_unfed (buffer : Str) : '\n' ∉ buffer ∨
    ∃ tmp rest, buffer = tmp ++ '\n' :: rest ∧ '\n' ∉ tmp := by
  by_cases fed : '\n' ∈ buffer
  · obtain ⟨tmp, rest, rfl, clear⟩ := List.eq_append_cons_of_mem fed
    exact Or.inr ⟨tmp, rest, rfl, clear⟩
  · exact Or.inl fed

/-- A line found stands for at most one byte more than the loop had. -/
private theorem gather_bound {turns : Nat} {message buffer line rest : Str}
    (found : gather turns message buffer = .line line rest) :
    line.length + 2 + rest.length ≤ message.length + buffer.length + 1 := by
  induction turns generalizing message buffer with
  | zero => simp [gather] at found
  | succ turns ih =>
    by_cases nothing : buffer = []
    · rw [nothing, gather_nil] at found
      cases found
    rcases fed_or_unfed buffer with clear | ⟨tmp, more, rfl, clear⟩
    · rw [gather_unfed nothing clear] at found
      split at found
      · cases found
      next last ends =>
        split at found
        next cr =>
          have size := congrArg List.length (getLast?_cr (cr ▸ ends))
          simp only [List.length_append, List.length_singleton] at size
          cases found
          simp only [List.length_append, List.length_nil]
          omega
        next =>
          rw [gather_nil] at found
          cases found
    · rw [gather_fed clear] at found
      split at found
      · cases found
      next last ends =>
        split at found
        next cr =>
          have size := congrArg List.length (getLast?_cr (cr ▸ ends))
          simp only [List.length_append, List.length_singleton] at size
          cases found
          simp only [List.length_append, List.length_cons, List.length_drop]
          omega
        next =>
          have bound := ih found
          simp only [List.length_append, List.length_cons, List.length_nil, List.length_drop]
            at bound ⊢
          omega

/-- From a buffer with a line feed nothing is gained, and something is lost unless it
holds exactly one line. -/
private theorem gather_loses {turns : Nat} {tmp more line rest : Str} (clear : '\n' ∉ tmp)
    (found : gather (turns + 1) [] (tmp ++ '\n' :: more) = .line line rest) :
    line.length + 2 + rest.length ≤ (tmp ++ '\n' :: more).length ∧
      (line.length + 2 + rest.length = (tmp ++ '\n' :: more).length →
        more = [] ∧ tmp.getLast? = some '\r') := by
  rw [gather_fed clear] at found
  split at found
  · cases found
  next last ends =>
    split at found
    next cr =>
      have size := congrArg List.length (getLast?_cr (cr ▸ ends))
      simp only [List.length_append, List.length_singleton] at size
      cases found
      simp only [List.nil_append, List.length_append, List.length_cons, List.length_drop]
      refine ⟨by omega, fun same => ⟨?_, cr ▸ ends⟩⟩
      exact List.length_eq_zero_iff.mp (by omega)
    next =>
      -- the line goes on behind the bytes that are consumed for nothing
      have bound := gather_bound found
      have some : more.drop (tmp.length + 1) ≠ [] := by
        intro nothing
        rw [nothing, gather_nil] at found
        cases found
      have left : tmp.length + 1 < more.length := by
        by_contra short
        exact some (List.drop_eq_nil_of_le (by omega))
      have nonempty : 0 < tmp.length := by
        cases tmp with
        | nil => simp at ends
        | cons => simp
      simp only [List.nil_append, List.length_append, List.length_cons, List.length_nil,
        List.length_drop] at bound ⊢
      omega

/-- A buffer that holds one line and nothing behind it. -/
def OneLine (buffer : Str) : Prop := ∃ line, buffer = line ++ crlf ∧ '\n' ∉ line

private theorem gather_oneLine {turns : Nat} {line : Str} (clear : '\n' ∉ line) :
    gather (turns + 1) [] (line ++ crlf) = .line line [] := by
  have shape : line ++ crlf = (line ++ ['\r']) ++ '\n' :: [] := by simp [crlf]
  have inside : '\n' ∉ line ++ ['\r'] := by simpa using clear
  rw [shape, gather_fed inside]
  simp

/-- Every call of `handle_read` takes something from a buffer that is not empty. -/
private theorem gather_shrinks {turns : Nat} {message buffer : Str} (nonempty : buffer ≠ []) :
    (gather turns message buffer).rest.length < buffer.length := by
  have positive := List.length_pos_of_ne_nil nonempty
  induction turns generalizing message buffer with
  | zero => exact positive
  | succ turns ih =>
    rcases fed_or_unfed buffer with clear | ⟨tmp, more, rfl, clear⟩
    · rw [gather_unfed nonempty clear]
      cases buffer.getLast? with
      | none => exact positive
      | some last =>
        dsimp only
        split
        · exact positive
        · rw [gather_nil]
          exact positive
    · have smaller : (more.drop (tmp.length + 1)).length < (tmp ++ '\n' :: more).length := by
        simp only [List.length_drop, List.length_append, List.length_cons]
        omega
      rw [gather_fed clear]
      cases tmp.getLast? with
      | none => exact smaller
      | some last =>
        dsimp only
        split
        · exact smaller
        · by_cases spent : more.drop (tmp.length + 1) = []
          · rw [spent, gather_nil]
            exact positive
          · exact (ih spent (List.length_pos_of_ne_nil spent)).trans smaller

/-- As many turns as bytes are enough. -/
theorem gather_enough {turns : Nat} {message buffer : Str} (enough : buffer.length ≤ turns) :
    gather turns message buffer = gather buffer.length message buffer := by
  induction size : buffer.length using Nat.strongRecOn generalizing turns message buffer with
  | _ n ih =>
    subst size
    by_cases nonempty : buffer = []
    · rw [nonempty, gather_nil, gather_nil]
    obtain ⟨most, rfl⟩ := Nat.exists_eq_add_one_of_ne_zero
      (Nat.ne_of_gt ((List.length_pos_of_ne_nil nonempty).trans_le enough))
    obtain ⟨least, exact⟩ := Nat.exists_eq_add_one_of_ne_zero
      (Nat.ne_of_gt (List.length_pos_of_ne_nil nonempty))
    rcases fed_or_unfed buffer with clear | ⟨tmp, more, rfl, clear⟩
    · rw [exact, gather_unfed nonempty clear, gather_unfed nonempty clear, gather_nil, gather_nil]
    · have shorter : (more.drop (tmp.length + 1)).length < (tmp ++ '\n' :: more).length := by
        simp only [List.length_drop, List.length_append, List.length_cons]
        omega
      have settled (turns : Nat) (fits : (more.drop (tmp.length + 1)).length ≤ turns)
          (message : Str) : gather turns message (more.drop (tmp.length + 1)) =
            gather (more.drop (tmp.length + 1)).length message (more.drop (tmp.length + 1)) :=
        ih _ shorter fits rfl
      rw [exact, gather_fed clear, gather_fed clear, settled most (by omega),
        settled least (by omega)]

/-! ### One call -/

def Effect.isRead : Effect → Bool
  | .parseString _ | .doReadUntil _ => true
  | _ => false

private theorem commitCommand_reads (boost : Boost) (granted : Bool) (p : Plugin) :
    (commitCommand boost granted p).output.any Effect.isRead = false := by
  have commit := commitCommand_cases boost granted p
  generalize commitCommand boost granted p = r at commit
  cases commit with
  | asked => cases granted <;> simp [handleAuthenticate, answer_output, Effect.isRead]
  | _ => simp [answer_output, storeData, Effect.isRead]

theorem consumeToken_reads (boost : Boost) (granted : Bool) (tok : Str) (p : Plugin) :
    (consumeToken boost granted tok p).output.any Effect.isRead = false := by
  by_cases ends : tok = crlf
  · rw [consumeToken, if_pos ends, consumeEnd_output]
    have ended := endOfLine_cases boost granted p
    generalize endOfLine boost granted p = r at ended
    cases ended with
    | cut => exact commitCommand_reads boost granted _
    | last => exact commitCommand_reads boost granted p
    | done => exact commitCommand_reads boost granted p
    | _ => rfl
  · have step := consumeToken_cases boost granted ends p
    generalize consumeToken boost granted tok p = r at step
    cases step <;> rfl

private theorem reads_andThen {r : Result} {next : Plugin → Result}
    (first : r.output.any Effect.isRead = false)
    (later : ∀ p, (next p).output.any Effect.isRead = false) :
    (r.andThen next).output.any Effect.isRead = false := by
  rw [Outcome.andThen]
  split
  · exact first
  · rw [List.any_append, first, later, Bool.or_self]

theorem handleLine_reads (boost : Boost) (granted : Bool) (message : Str) (p : Plugin) :
    (handleLine boost granted message p).output.any Effect.isRead = false := by
  have toks_reads (toks : List Str) (p : Plugin) :
      (consumeTokens boost granted toks p).output.any Effect.isRead = false := by
    induction toks generalizing p with
    | nil => rfl
    | cons tok toks ih => exact reads_andThen (consumeToken_reads boost granted tok p) ih
  exact reads_andThen (toks_reads _ p) (consumeToken_reads boost granted crlf)

private theorem messages_quiet {out : List Effect} (quiet : out.any Effect.isRead = false) :
    messages out = [] ∧ out.any Effect.isArm = false := by
  induction out with
  | nil => exact ⟨rfl, rfl⟩
  | cons effect out ih =>
    rw [List.any_cons, Bool.or_eq_false_iff] at quiet
    obtain ⟨read, later⟩ := quiet
    have rest := ih later
    cases effect with
    | parseString => cases read
    | doReadUntil => cases read
    | _ => exact rest

/-- A call that finds a line hands on that line, and asks for the next read unless the
line makes the parser throw. -/
theorem handleRead_line {boost : Boost} {granted : Bool} {p : Plugin} {line rest : Str}
    (found : gather p.sbuf.length [] p.sbuf = .line line rest) :
    (handleRead boost granted p).state =
        (handleLine boost granted line { p with sbuf := rest }).state ∧
      messages (handleRead boost granted p).output = [line] ∧
      ((handleRead boost granted p).output.any Effect.isArm = true ↔
        (handleLine boost granted line { p with sbuf := rest }).fault = none) := by
  have reads := messages_quiet (handleLine_reads boost granted line { p with sbuf := rest })
  rw [handleRead]
  rw [found]
  simp only [Outcome.emit_andThen]
  cases fault : (handleLine boost granted line { p with sbuf := rest }).fault with
  | some f =>
    refine ⟨rfl, ?_, ?_⟩
    · simpa [Outcome.andThen, messages] using reads.1
    · simpa [Outcome.andThen, Effect.isArm] using reads.2
  | none =>
    have ready : (handleLine boost granted line { p with sbuf := rest }).state.state ≠
        .binaryData := by
      rw [handleLine_initial fault]
      decide
    refine ⟨?_, ?_, ?_⟩
    · simp [Outcome.andThen, ready]
    · simpa [Outcome.andThen, ready, messages] using reads.1
    · simp [Outcome.andThen, ready, Effect.isArm]

theorem handleRead_lost {boost : Boost} {granted : Bool} {p : Plugin}
    (lost : ∀ line rest, gather p.sbuf.length [] p.sbuf ≠ .line line rest) :
    (handleRead boost granted p).state.sbuf = (gather p.sbuf.length [] p.sbuf).rest ∧
      (handleRead boost granted p).output = [] := by
  rw [handleRead]
  split
  next found => exact ⟨by rw [found]; rfl, rfl⟩
  next rest found => exact ⟨by rw [found]; rfl, rfl⟩
  next line rest found => exact absurd found (lost line rest)

theorem handleRead_sbuf (boost : Boost) (granted : Bool) (p : Plugin) :
    (handleRead boost granted p).state.sbuf = (gather p.sbuf.length [] p.sbuf).rest := by
  cases found : gather p.sbuf.length [] p.sbuf with
  | line line rest =>
    rw [(handleRead_line found).1, handleLine_sbuf]
    rfl
  | nothing =>
    rw [(handleRead_lost (by simp [found])).1, found]
  | beforeBegin rest =>
    rw [(handleRead_lost (by simp [found])).1, found]

/-! ### A whole stream -/

section Stream

variable (boost : Boost) (answers : Nat → Bool)

/-- The connection after some chunks. -/
def Reader.run (p : Plugin) (chunks : List Str) : Reader :=
  chunks.foldl (Reader.receive boost answers) (Reader.start p)

/-- Lines handled one after another, each answered in its turn. -/
def handleLines : Nat → Plugin → List Str → Plugin
  | _, p, [] => p
  | k, p, line :: lines => handleLines (k + 1) (handleLine boost (answers k) line p).state lines

/-- None of the lines, handled in order, makes the parser throw. -/
def Returns : Nat → Plugin → List Str → Prop
  | _, _, [] => True
  | k, p, line :: lines => (handleLine boost (answers k) line p).fault = none ∧
      Returns (k + 1) (handleLine boost (answers k) line p).state lines

end Stream

/-- The connection is where it should be after a stream: its lines have been handed
on, its unfinished rest is buffered, and the next read is outstanding. -/
structure Reader.Framed (r : Reader) (stream : Str) : Prop where
  armed : r.armed = true
  passed : r.passed = (Lines.split '\r' '\n' stream).1
  buffered : r.plugin.sbuf = (Lines.split '\r' '\n' stream).2

/-- Whenever a chunk completes a line, the buffer then holds just that line. -/
def OneAtATime (chunks : List Str) : Prop :=
  ∀ seen chunk, seen ++ [chunk] <+: chunks →
    ¬ Lines.Open '\r' '\n' ((Lines.split '\r' '\n' seen.flatten).2 ++ chunk) →
    OneLine ((Lines.split '\r' '\n' seen.flatten).2 ++ chunk)

section Weight

variable {boost : Boost} {answers : Nat → Bool}

/-- The bytes a connection accounts for. -/
def Reader.weight (r : Reader) : Nat := (r.passed.map (·.length + 2)).sum + r.plugin.sbuf.length

private theorem fed_of_not_open {buffer : Str} (ended : ¬ Lines.Open '\r' '\n' buffer) :
    ∃ tmp more, buffer = tmp ++ '\n' :: more ∧ '\n' ∉ tmp := by
  refine (fed_or_unfed buffer).resolve_left fun clear => ended fun ⟨s, t, same⟩ => clear ?_
  rw [← same]
  simp

private theorem handle_weight {r : Reader} (ended : ¬ Lines.Open '\r' '\n' r.plugin.sbuf) :
    (r.handle boost answers).weight ≤ r.weight ∧
      ((r.handle boost answers).weight = r.weight → OneLine r.plugin.sbuf) := by
  obtain ⟨tmp, more, shape, clear⟩ := fed_of_not_open ended
  have positive : r.plugin.sbuf ≠ [] := by simp [shape]
  obtain ⟨turns, size⟩ := Nat.exists_eq_add_one_of_ne_zero
    (Nat.ne_of_gt (List.length_pos_of_ne_nil positive))
  have sbuf := handleRead_sbuf boost (answers r.passed.length) r.plugin
  cases found : gather r.plugin.sbuf.length [] r.plugin.sbuf with
  | line line rest =>
    have passed := (@handleRead_line boost (answers r.passed.length) _ _ _ found).2.1
    rw [found] at sbuf
    rw [size, shape] at found
    obtain ⟨bound, tight⟩ := gather_loses clear found
    simp only [Reader.weight, Reader.handle, passed, sbuf, Gathered.rest, List.map_append,
      List.sum_append, List.map_cons, List.map_nil, List.sum_cons, List.sum_nil]
    rw [shape]
    refine ⟨by omega, fun same => ?_⟩
    obtain ⟨rfl, cr⟩ := tight (by omega)
    refine ⟨tmp.dropLast, ?_, fun member => clear (List.mem_of_mem_dropLast member)⟩
    conv_lhs => rw [getLast?_cr cr]
    simp [crlf]
  | nothing =>
    have quiet := (@handleRead_lost boost (answers r.passed.length) r.plugin (by simp [found])).2
    have less := @gather_shrinks r.plugin.sbuf.length [] _ positive
    rw [← sbuf] at less
    simp only [Reader.weight, Reader.handle, quiet, messages, List.filterMap_nil, List.append_nil]
    exact ⟨by omega, fun same => by omega⟩
  | beforeBegin rest =>
    have quiet := (@handleRead_lost boost (answers r.passed.length) r.plugin (by simp [found])).2
    have less := @gather_shrinks r.plugin.sbuf.length [] _ positive
    rw [← sbuf] at less
    simp only [Reader.weight, Reader.handle, quiet, messages, List.filterMap_nil, List.append_nil]
    exact ⟨by omega, fun same => by omega⟩

private theorem drain_weight (turns : Nat) (r : Reader) :
    (r.drain boost answers turns).weight ≤ r.weight := by
  induction turns generalizing r with
  | zero => exact Nat.le_refl _
  | succ turns ih =>
    rw [Reader.drain]
    split
    next ready => exact (ih _).trans (handle_weight ready.2).1
    next => exact Nat.le_refl _

/-- A buffer with more than one line in it, or with something behind the line, loses bytes. -/
private theorem drain_loses {turns : Nat} {r : Reader} (armed : r.armed = true)
    (ended : ¬ Lines.Open '\r' '\n' r.plugin.sbuf) (more : ¬ OneLine r.plugin.sbuf) :
    (r.drain boost answers (turns + 1)).weight < r.weight := by
  have start := @handle_weight boost answers r ended
  rw [Reader.drain, if_pos ⟨armed, ended⟩]
  exact (drain_weight turns _).trans_lt (lt_of_le_of_ne start.1 fun same => more (start.2 same))

/-- A framed connection accounts for every byte. -/
theorem Reader.Framed.weight {r : Reader} {stream : Str} (framed : r.Framed stream) :
    r.weight = stream.length := by
  rw [Reader.weight, framed.passed, framed.buffered]
  exact Lines.split_length (by decide) stream

/-- As many calls as bytes are enough: no line is left in the buffer while a read is
outstanding. -/
theorem drain_stops {turns : Nat} {r : Reader} (enough : r.plugin.sbuf.length ≤ turns)
    (armed : (r.drain boost answers turns).armed = true) :
    Lines.Open '\r' '\n' (r.drain boost answers turns).plugin.sbuf := by
  induction turns generalizing r with
  | zero =>
    rw [Reader.drain, List.length_eq_zero_iff.mp (Nat.le_zero.mp enough)]
    exact Lines.open_nil
  | succ turns ih =>
    rw [Reader.drain] at armed ⊢
    split at armed
    next ready =>
      rw [if_pos ready]
      refine ih ?_ armed
      obtain ⟨tmp, more, shape, -⟩ := fed_of_not_open ready.2
      have less := @gather_shrinks r.plugin.sbuf.length [] r.plugin.sbuf (by simp [shape])
      rw [← handleRead_sbuf boost (answers r.passed.length)] at less
      simp only [Reader.handle]
      omega
    next idle =>
      rw [if_neg idle]
      by_contra ended
      exact idle ⟨armed, ended⟩

end Weight

section Framing

variable {boost : Boost} {answers : Nat → Bool}

theorem handleLines_sbuf (k : Nat) (p : Plugin) (lines : List Str) :
    (handleLines boost answers k p lines).sbuf = p.sbuf := by
  induction lines generalizing k p with
  | nil => rfl
  | cons line lines ih => exact (ih _ _).trans (handleLine_sbuf boost (answers k) line p)

theorem handleLines_append (k : Nat) (p : Plugin) (lines more : List Str) :
    handleLines boost answers k p (lines ++ more) =
      handleLines boost answers (k + lines.length) (handleLines boost answers k p lines) more := by
  induction lines generalizing k p with
  | nil => rfl
  | cons line lines ih =>
    rw [List.cons_append, handleLines, handleLines, ih, List.length_cons]
    congr 1
    omega

theorem returns_append (k : Nat) (p : Plugin) (lines more : List Str) :
    Returns boost answers k p (lines ++ more) ↔ Returns boost answers k p lines ∧
      Returns boost answers (k + lines.length) (handleLines boost answers k p lines) more := by
  induction lines generalizing k p with
  | nil => simp [Returns, handleLines]
  | cons line lines ih =>
    rw [List.cons_append, Returns, Returns, ih, handleLines, List.length_cons, and_assoc,
      Nat.add_right_comm, Nat.add_assoc]

/-- No image without a size comes behind a login that was granted. -/
def Sized (boost : Boost) (answers : Nat → Bool) (lines : List Str) : Prop :=
  ∀ i j login line, i < j → lines[i]? = some login → LogsIn login → answers i = true →
    lines[j]? = some line → ¬ Unsized boost line

/-- What is left of a new connection once its lines have been handled. -/
private theorem handleLines_ready {p : Plugin} (here : p.state = .initial)
    (closed : p.authenticated = false) {lines : List Str}
    (unended : ∀ line ∈ lines, Lines.Open '\r' '\n' line) (returns : Returns boost answers 0 p lines) :
    (handleLines boost answers 0 p lines).state = .initial ∧
      ((handleLines boost answers 0 p lines).authenticated = true ↔
        ∃ i login, lines[i]? = some login ∧ LogsIn login ∧ answers i = true) := by
  induction lines using List.reverseRecOn with
  | nil => exact ⟨here, by simp [handleLines, closed]⟩
  | append_singleton lines line ih =>
    obtain ⟨before, fine, -⟩ := (returns_append 0 p lines [line]).mp returns
    obtain ⟨initial, opened⟩ := ih (fun l member => unended l (by simp [member])) before
    have cases := @handleLine_cases boost (answers (0 + lines.length)) line _ initial
      (unended line (by simp))
    rw [handleLines_append, handleLines, handleLines]
    refine ⟨handleLine_initial fine, cases.2.trans ?_⟩
    rw [opened, Nat.zero_add]
    constructor
    · rintro (⟨i, login, place, logs, granted⟩ | ⟨granted, logs⟩)
      · have bound := (List.getElem?_eq_some_iff.mp place).1
        exact ⟨i, login, by rw [List.getElem?_append_left bound, place], logs, granted⟩
      · exact ⟨lines.length, line, by simp, logs, granted⟩
    · rintro ⟨i, login, place, logs, granted⟩
      rcases Nat.lt_or_ge i lines.length with early | late
      · rw [List.getElem?_append_left early] at place
        exact Or.inl ⟨i, login, place, logs, granted⟩
      · rw [List.getElem?_append_right late, List.getElem?_singleton] at place
        split at place
        next last =>
          cases place
          rw [show i = lines.length by omega] at granted
          exact Or.inr ⟨granted, logs⟩
        next => cases place

private theorem sized_concat {lines : List Str} {line : Str} :
    Sized boost answers (lines ++ [line]) ↔ Sized boost answers lines ∧
      ((∃ i login, lines[i]? = some login ∧ LogsIn login ∧ answers i = true) →
        ¬ Unsized boost line) := by
  constructor
  · intro sized
    constructor
    · intro i j login later less place logs granted found
      have bound := (List.getElem?_eq_some_iff.mp found).1
      exact sized i j login later less (by rwa [List.getElem?_append_left (less.trans bound)]) logs
        granted (by rwa [List.getElem?_append_left bound])
    · rintro ⟨i, login, place, logs, granted⟩
      have bound := (List.getElem?_eq_some_iff.mp place).1
      exact sized i lines.length login line bound (by rwa [List.getElem?_append_left bound]) logs
        granted (by simp)
  · rintro ⟨sized, last⟩ i j login later less place logs granted found
    rcases Nat.lt_or_ge j lines.length with early | late
    · rw [List.getElem?_append_left early] at found
      rw [List.getElem?_append_left (less.trans early)] at place
      exact sized i j login later less place logs granted found
    · rw [List.getElem?_append_right late, List.getElem?_singleton] at found
      split at found
      next here =>
        cases found
        rw [List.getElem?_append_left (by omega)] at place
        exact last ⟨i, login, place, logs, granted⟩
      next => cases found

/-- The lines of a new connection are handled without an exception exactly when they are
sized. -/
theorem returns_iff {p : Plugin} (here : p.state = .initial) (closed : p.authenticated = false)
    {lines : List Str} (unended : ∀ line ∈ lines, Lines.Open '\r' '\n' line) :
    Returns boost answers 0 p lines ↔ Sized boost answers lines := by
  induction lines using List.reverseRecOn with
  | nil => simp [Returns, Sized]
  | append_singleton lines line ih =>
    have before : ∀ l ∈ lines, Lines.Open '\r' '\n' l := fun l member => unended l (by simp [member])
    rw [returns_append, sized_concat, ← ih before]
    refine and_congr_right fun returns => ?_
    obtain ⟨initial, opened⟩ := handleLines_ready here closed before returns
    have fine := (@handleLine_cases boost (answers (0 + lines.length)) line _ initial
      (unended line (by simp))).1
    simp only [Returns, and_true]
    rw [fine, opened, not_and]

/-- The connection after a stream that was framed so far: all lines handled, the rest
buffered. -/
def Reader.settled (boost : Boost) (answers : Nat → Bool) (p : Plugin) (stream : Str) : Reader :=
  ⟨{ handleLines boost answers 0 p (Lines.split '\r' '\n' stream).1 with
      sbuf := (Lines.split '\r' '\n' stream).2 },
    true, (Lines.split '\r' '\n' stream).1⟩

theorem cr_ne_lf : '\r' ≠ '\n' := by decide

/-- A buffer with one line is taken by one call. -/
theorem drain_oneLine {q : Plugin} (empty : q.sbuf = []) {line : Str} (clear : '\n' ∉ line)
    (lines : List Str) (turns : Nat) :
    ∃ armed, Reader.drain boost answers (turns + 1) ⟨{ q with sbuf := line ++ crlf }, true, lines⟩ =
        ⟨(handleLine boost (answers lines.length) line q).state, armed, lines ++ [line]⟩ ∧
      (armed = true ↔ (handleLine boost (answers lines.length) line q).fault = none) := by
  obtain ⟨size, long⟩ : ∃ n, (line ++ crlf).length = n + 1 := ⟨line.length + 1, by simp [crlf]⟩
  have found : gather (line ++ crlf).length [] (line ++ crlf) = .line line [] := by
    rw [long]
    exact gather_oneLine clear
  have same : ({ q with sbuf := [] } : Plugin) = q := by rw [← empty]
  obtain ⟨state, passed, armed⟩ :=
    @handleRead_line boost (answers lines.length) { q with sbuf := line ++ crlf } _ _ found
  simp only [same] at state armed
  have ended : ¬ Lines.Open '\r' '\n' (line ++ crlf) := Lines.not_open_append line []
  refine ⟨_, ?_, armed⟩
  rw [Reader.drain, if_pos ⟨rfl, ended⟩, Reader.handle]
  simp only [state, passed]
  cases turns with
  | zero => rfl
  | succ turns =>
    rw [Reader.drain, if_neg]
    intro ready
    apply ready.2
    simp only [handleLine_sbuf, empty]
    exact Lines.open_nil

/-- One more chunk: it keeps the framing exactly when it completes at most one line,
and nothing behind it, and that line does not make the parser throw. -/
private theorem receive_framed_iff {p : Plugin} (empty : p.sbuf = []) (stream chunk : Str) :
    let buffer := (Lines.split '\r' '\n' stream).2 ++ chunk
    let lines := (Lines.split '\r' '\n' stream).1
    (((Reader.settled boost answers p stream).receive boost answers chunk).Framed (stream ++ chunk) ↔
      (¬ Lines.Open '\r' '\n' buffer → OneLine buffer) ∧
        Returns boost answers lines.length (handleLines boost answers 0 p lines)
          (Lines.split '\r' '\n' buffer).1) ∧
    (((Reader.settled boost answers p stream).receive boost answers chunk).Framed (stream ++ chunk) →
      (Reader.settled boost answers p stream).receive boost answers chunk =
        Reader.settled boost answers p (stream ++ chunk)) := by
  intro buffer lines
  have cut := Lines.split_append cr_ne_lf stream chunk
  have quiet : (handleLines boost answers 0 p lines).sbuf = [] := by rw [handleLines_sbuf, empty]
  have received : (Reader.settled boost answers p stream).receive boost answers chunk =
      Reader.drain boost answers buffer.length
        ⟨{ handleLines boost answers 0 p lines with sbuf := buffer }, true, lines⟩ := rfl
  rw [received]
  by_cases unended : Lines.Open '\r' '\n' buffer
  · -- no line is completed
    have idle : Reader.drain boost answers buffer.length
        ⟨{ handleLines boost answers 0 p lines with sbuf := buffer }, true, lines⟩ =
        Reader.settled boost answers p (stream ++ chunk) := by
      rw [Reader.settled, cut, Lines.split_open unended, List.append_nil]
      cases buffer.length with
      | zero => rfl
      | succ turns =>
        rw [Reader.drain, if_neg]
        exact fun ready => ready.2 unended
    rw [idle]
    refine ⟨⟨fun _ => ⟨fun ended => absurd unended ended, ?_⟩, fun _ => ⟨rfl, rfl, rfl⟩⟩, fun _ => rfl⟩
    rw [Lines.split_open unended]
    exact trivial
  obtain ⟨tmp, more, shape, -⟩ := fed_of_not_open unended
  obtain ⟨turns, size⟩ : ∃ turns, buffer.length = turns + 1 := ⟨tmp.length + more.length, by
    rw [shape]
    simp only [List.length_append, List.length_cons]
    omega⟩
  rw [size]
  by_cases whole : OneLine buffer
  · -- one line and nothing behind it
    obtain ⟨line, same, clear⟩ := whole
    have alone : Lines.split '\r' '\n' buffer = ([line], []) := by
      have inside : Lines.Open '\r' '\n' line := by
        rintro ⟨s, t, same⟩
        apply clear
        rw [← same]
        simp
      rw [same]
      exact Lines.split_line cr_ne_lf inside []
    obtain ⟨armed, taken, fine⟩ := @drain_oneLine boost answers _ quiet line clear lines turns
    rw [same, taken]
    rw [← same]
    have after : (handleLine boost (answers lines.length) line
        (handleLines boost answers 0 p lines)).state.sbuf = [] := by rw [handleLine_sbuf, quiet]
    have framed_iff : Reader.Framed ⟨(handleLine boost (answers lines.length) line
        (handleLines boost answers 0 p lines)).state, armed, lines ++ [line]⟩ (stream ++ chunk) ↔
        armed = true := by
      refine ⟨fun framed => framed.armed, fun ready => ⟨ready, ?_, ?_⟩⟩ <;> rw [cut, alone]
      exact after
    rw [framed_iff, alone]
    refine ⟨?_, fun ready => ?_⟩
    · simp only [Returns, and_true, fine]
      exact ⟨fun returned => ⟨fun _ => ⟨line, same, clear⟩, returned⟩, fun both => both.2⟩
    · rw [Reader.settled, cut, alone, handleLines_append, Nat.zero_add, ready]
      simp only [handleLines]
      congr 1
      rw [← after]
  · -- something behind the line, or inside it, is lost for good
    have lossy : ¬ Reader.Framed (Reader.drain boost answers (turns + 1)
        ⟨{ handleLines boost answers 0 p lines with sbuf := buffer }, true, lines⟩)
        (stream ++ chunk) := by
      intro framed
      have before : (Reader.settled boost answers p stream).weight = stream.length :=
        Reader.Framed.weight ⟨rfl, rfl, rfl⟩
      have grown : Reader.weight
          ⟨{ handleLines boost answers 0 p lines with sbuf := buffer }, true, lines⟩ =
          (Reader.settled boost answers p stream).weight + chunk.length := by
        rw [Reader.weight, Reader.weight, Nat.add_assoc]
        exact congrArg _ List.length_append
      have lost := @drain_loses boost answers turns
        ⟨{ handleLines boost answers 0 p lines with sbuf := buffer }, true, lines⟩ rfl unended whole
      rw [framed.weight, grown, before, ← List.length_append] at lost
      exact lt_irrefl _ lost
    exact ⟨⟨fun framed => absurd framed lossy, fun both => absurd (both.1 unended) whole⟩,
      fun framed => absurd framed lossy⟩

/-- The lines a stream is cut into make the parser throw only where one asks for an image
without a size. -/
theorem returns_split_iff {p : Plugin} (fresh : p.Fresh) (stream : Str) :
    Returns boost answers 0 p (Lines.split '\r' '\n' stream).1 ↔
      Sized boost answers (Lines.split '\r' '\n' stream).1 :=
  returns_iff fresh.state fresh.authenticated fun _ member =>
    Lines.open_of_mem_split cr_ne_lf member

/-- The framing is right after each chunk exactly when no chunk leaves more in the buffer than
one line, and no line makes the parser throw. -/
private theorem framed_iff_returns {p : Plugin} (fresh : p.Fresh) (chunks : List Str) :
    (∀ seen, seen <+: chunks → (Reader.run boost answers p seen).Framed seen.flatten) ↔
      OneAtATime chunks ∧
        Returns boost answers 0 p (Lines.split '\r' '\n' chunks.flatten).1 := by
  have whole : ((∀ seen, seen <+: chunks →
        (Reader.run boost answers p seen).Framed seen.flatten) ↔
      OneAtATime chunks ∧ Returns boost answers 0 p (Lines.split '\r' '\n' chunks.flatten).1) ∧
      ((∀ seen, seen <+: chunks → (Reader.run boost answers p seen).Framed seen.flatten) →
        Reader.run boost answers p chunks = Reader.settled boost answers p chunks.flatten) := by
    induction chunks using List.reverseRecOn with
    | nil =>
      have start : Reader.run boost answers p [] = Reader.settled boost answers p [] := by
        simp [Reader.run, Reader.start, Reader.settled, Lines.split, handleLines, ← fresh.sbuf]
      refine ⟨⟨fun _ => ⟨?_, trivial⟩, fun _ seen part => ?_⟩, fun _ => start⟩
      · intro seen chunk part
        simp at part
      · rw [List.prefix_nil.mp part, start]
        exact ⟨rfl, rfl, rfl⟩
    | append_singleton chunks chunk ih =>
      obtain ⟨before, settled⟩ := ih
      have prefixes_iff (P : List Str → Prop) : (∀ seen, seen <+: chunks ++ [chunk] → P seen) ↔
          (∀ seen, seen <+: chunks → P seen) ∧ P (chunks ++ [chunk]) := by
        simp only [List.prefix_concat_iff]
        exact ⟨fun all => ⟨fun seen part => all seen (Or.inr part), all _ (Or.inl rfl)⟩,
          fun both seen part => part.elim (fun same => same ▸ both.2) (both.1 seen)⟩
      have split_chunks : OneAtATime (chunks ++ [chunk]) ↔ OneAtATime chunks ∧
          (¬ Lines.Open '\r' '\n' ((Lines.split '\r' '\n' chunks.flatten).2 ++ chunk) →
            OneLine ((Lines.split '\r' '\n' chunks.flatten).2 ++ chunk)) := by
        constructor
        · intro all
          exact ⟨fun seen c part => all seen c (part.trans (List.prefix_append _ _)),
            all chunks chunk (List.prefix_refl _)⟩
        · rintro ⟨all, last⟩ seen c part
          rcases List.prefix_concat_iff.mp part with same | part
          · obtain ⟨rfl, tail⟩ := List.append_inj' same rfl
            obtain rfl := List.singleton_inj.mp tail
            exact last
          · exact all seen c part
      have run_append : Reader.run boost answers p (chunks ++ [chunk]) =
          (Reader.run boost answers p chunks).receive boost answers chunk := by
        simp [Reader.run]
      have joined : (chunks ++ [chunk]).flatten = chunks.flatten ++ chunk := by simp
      obtain ⟨step_iff, step_settled⟩ :=
        @receive_framed_iff boost answers p fresh.sbuf chunks.flatten chunk
      have cut := Lines.split_append cr_ne_lf chunks.flatten chunk
      rw [prefixes_iff, split_chunks, run_append, joined, cut, returns_append, Nat.zero_add]
      constructor
      · constructor
        · rintro ⟨all, last⟩
          rw [settled all] at last
          have clean := before.mp all
          have next := step_iff.mp last
          exact ⟨⟨clean.1, next.1⟩, clean.2, next.2⟩
        · rintro ⟨⟨clean, next⟩, returned, later⟩
          have all := before.mpr ⟨clean, returned⟩
          refine ⟨all, ?_⟩
          rw [settled all]
          exact step_iff.mpr ⟨next, later⟩
      · rintro ⟨all, last⟩
        rw [settled all] at last ⊢
        exact step_settled last
  exact whole.1

/-- On every new connection, for every stream and every way of cutting it: the framing is right
after each chunk exactly when no chunk leaves more in the buffer than one line, and no image
without a size comes behind a login that was granted. -/
theorem framed_iff {p : Plugin} (fresh : p.Fresh) (chunks : List Str) :
    (∀ seen, seen <+: chunks → (Reader.run boost answers p seen).Framed seen.flatten) ↔
      OneAtATime chunks ∧ Sized boost answers (Lines.split '\r' '\n' chunks.flatten).1 := by
  rw [framed_iff_returns fresh, returns_split_iff fresh]

end Framing

theorem framed_iff_pieces :
    (∀ seen, seen <+: ["#L#i;".toList, "p\r".toList, "\n#P".toList] →
        (Reader.run plain (fun _ => true) accepted.plugin seen).Framed seen.flatten) ↔
      OneAtATime ["#L#i;".toList, "p\r".toList, "\n#P".toList] ∧
        Sized plain (fun _ => true)
          (Lines.split '\r' '\n' ["#L#i;".toList, "p\r".toList, "\n#P".toList].flatten).1 :=
  framed_iff accepted_fresh.plugin _

/-- Of two lines that arrive together the second is swallowed. -/
theorem second_line_lost : accepted.plugin.Fresh ∧
    (Reader.run plain (fun _ => true) accepted.plugin ["#P#\r\n#P#\r\n".toList]).passed =
      ["#P#".toList] ∧
    ¬ ∀ seen, seen <+: ["#P#\r\n#P#\r\n".toList] →
      (Reader.run plain (fun _ => true) accepted.plugin seen).Framed seen.flatten := by
  have passed : (Reader.run plain (fun _ => true) accepted.plugin
      ["#P#\r\n#P#\r\n".toList]).passed = ["#P#".toList] := by decide +kernel
  refine ⟨accepted_fresh.plugin, passed, fun framed => ?_⟩
  have both := (framed _ (List.prefix_refl _)).passed
  rw [passed] at both
  exact absurd both (by decide +kernel)

end Eiptnd.Wialon
