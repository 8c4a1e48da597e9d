import Eiptnd.Wialon.Blackbox
import Eiptnd.Wialon.Reader
import Eiptnd.Wialon.Session

/-! From the socket to the lines of a connection.

A line in which no LF stands, sent alone, is handed to `parse_string` as it was sent, however it
is cut. What its tokens do to the parser is then the same whether they are taken in one handler
or one after the other. -/
namespace Eiptnd.Wialon

open Reactive

variable {boost : Boost}

/-! ### Between two lines the buffer is empty -/

theorem sbuf_of_reachable {s : Session} (reached : (session boost).Reachable s) :
    s.plugin.sbuf = [] := by
  apply reached.invariant fun s => s.plugin.sbuf = []
  · exact fun s fresh => fresh.plugin.sbuf
  · intro s e s' out _ empty stepped
    obtain ⟨-, step⟩ := Session.step_cases stepped
    cases step with
    | line => exact empty
    | token granted tok => exact (consumeToken_sbuf boost granted tok s.plugin).trans empty
    | complete place ok =>
      -- A reply is written into another buffer.
      obtain ⟨-, counts⟩ | ⟨-, answers⟩ := handleProcessData_cases ok s.plugin
      · simp only [Session.complete, counts]
        exact empty
      · simp only [Session.complete, answers]
        exact empty

/-! ### The chunks of one line -/

section Chunks

variable {answers : Nat → Bool} {q : Plugin} {line seen chunk : Str} {lines : List Str}

/-- A chunk in which the line does not end stays in the buffer. -/
theorem receive_part (clear : '\n' ∉ seen ++ chunk) :
    Reader.receive boost answers ⟨{ q with sbuf := seen }, true, lines⟩ chunk =
      ⟨{ q with sbuf := seen ++ chunk }, true, lines⟩ := by
  have unended : Lines.Open '\r' '\n' (seen ++ chunk) := by
    rintro ⟨s, t, same⟩
    apply clear
    rw [← same]
    simp
  rw [Reader.receive, if_pos rfl]
  dsimp only
  cases (seen ++ chunk).length with
  | zero => rfl
  | succ turns => rw [Reader.drain, if_neg fun ready => ready.2 unended]

/-- The chunk in which it ends hands it on. -/
theorem receive_last (empty : q.sbuf = []) (clear : '\n' ∉ line)
    (whole : seen ++ chunk = line ++ crlf) :
    ∃ armed, Reader.receive boost answers ⟨{ q with sbuf := seen }, true, lines⟩ chunk =
        ⟨(handleLine boost (answers lines.length) line q).state, armed, lines ++ [line]⟩ ∧
      (armed = true ↔ (handleLine boost (answers lines.length) line q).fault = none) := by
  obtain ⟨armed, taken, returned⟩ :=
    @drain_oneLine boost answers q empty line clear lines (line.length + 1)
  have size : (line ++ crlf).length = line.length + 1 + 1 := by simp [crlf]
  refine ⟨armed, ?_, returned⟩
  rw [Reader.receive, if_pos rfl]
  dsimp only
  rw [whole, size]
  exact taken

/-- Where no byte arrives, nothing happens. -/
theorem receive_nothing {r : Reader} (empty : r.plugin.sbuf = []) {chunks : List Str}
    (nothing : chunks.flatten = []) : chunks.foldl (Reader.receive boost answers) r = r := by
  induction chunks with
  | nil => rfl
  | cons chunk chunks ih =>
    obtain ⟨rfl, later⟩ := List.append_eq_nil_iff.mp nothing
    have still : Reader.receive boost answers r [] = r := by
      have same : ({ r.plugin with sbuf := [] } : Plugin) = r.plugin := by rw [← empty]
      rw [Reader.receive, List.append_nil, empty]
      split
      · simp only [same, List.length_nil, Reader.drain]
      · rfl
    rw [List.foldl_cons, still]
    exact ih later

/-- However a line is cut, it is handed on once, as it was sent. -/
theorem receive_line (empty : q.sbuf = []) (clear : '\n' ∉ line) {chunks : List Str}
    (unended : '\n' ∉ seen) (whole : seen ++ chunks.flatten = line ++ crlf) :
    ∃ armed, chunks.foldl (Reader.receive boost answers) ⟨{ q with sbuf := seen }, true, lines⟩ =
        ⟨(handleLine boost (answers lines.length) line q).state, armed, lines ++ [line]⟩ ∧
      (armed = true ↔ (handleLine boost (answers lines.length) line q).fault = none) := by
  induction chunks generalizing seen with
  | nil =>
    rw [List.flatten_nil, List.append_nil] at whole
    exact absurd (by rw [whole]; simp [crlf]) unended
  | cons chunk chunks ih =>
    rw [List.flatten_cons, ← List.append_assoc] at whole
    rw [List.foldl_cons]
    -- As long as the LF is missing, `async_read_until` goes on.
    by_cases part : '\n' ∉ seen ++ chunk
    · rw [receive_part part]
      exact ih part whole
    · -- The LF is the last byte that was sent.
      have rest : chunks.flatten = [] := by
        have shape : line ++ crlf = (line ++ ['\r']) ++ ['\n'] := by simp [crlf]
        rw [shape] at whole
        by_contra some
        have shorter : (seen ++ chunk).length ≤ (line ++ ['\r']).length := by
          have lengths := congrArg List.length whole
          have positive := List.length_pos_of_ne_nil some
          simp only [List.length_append, List.length_singleton] at lengths ⊢
          omega
        have front : seen ++ chunk <+: line ++ ['\r'] :=
          List.prefix_of_prefix_length_le ⟨_, whole⟩ (List.prefix_append _ _) shorter
        exact part fun member => by
          have inside := front.subset member
          simp [clear] at inside
      rw [rest, List.append_nil] at whole
      obtain ⟨armed, taken, returned⟩ :=
        @receive_last boost answers q line seen chunk lines empty clear whole
      rw [taken, receive_nothing _ rest]
      · exact ⟨armed, rfl, returned⟩
      · exact (handleLine_sbuf boost _ line q).trans empty

end Chunks

/-! ### The tokens of one line -/

/-- The tokens that wait, taken one after the other as far as they go. -/
theorem tokens_taken {granted : Bool} {toks : List Str} {s : Session} (running : s.crashed = false)
    (pending : s.pending = toks) : ∃ taken s' out,
      (session boost).run s (List.replicate taken (.token granted)) = some (s', out) ∧
      s'.plugin = (consumeTokens boost granted toks s.plugin).state ∧
      (s'.crashed = false ↔ (consumeTokens boost granted toks s.plugin).fault = none) ∧
      (s'.crashed = false → s'.pending = []) := by
  induction toks generalizing s with
  | nil => exact ⟨0, s, [], rfl, rfl, iff_of_true running rfl, fun _ => pending⟩
  | cons tok toks ih =>
    have first : (session boost).step s (.token granted) = some (s.take boost granted tok toks) := by
      simp only [session, Session.step, running, pending]
    -- After a token that throws none is taken, in either reading.
    cases fault : (consumeToken boost granted tok s.plugin).fault with
    | some f =>
      have thrown : consumeTokens boost granted (tok :: toks) s.plugin =
          consumeToken boost granted tok s.plugin := by
        rw [consumeTokens, Outcome.andThen, fault]
      refine ⟨1, (s.take boost granted tok toks).1, (s.take boost granted tok toks).2 ++ [],
        ?_, ?_, ?_, ?_⟩
      · exact Machine.run_cons.mpr ⟨_, _, [], first, rfl, rfl⟩
      · rw [thrown]
        rfl
      · rw [thrown]
        simp [Session.take, fault]
      · simp [Session.take, fault]
    | none =>
      obtain ⟨taken, s', out, ran, plugin, crashed, rest⟩ :=
        @ih (s.take boost granted tok toks).1 (by simp [Session.take, fault]) rfl
      have later : consumeTokens boost granted (tok :: toks) s.plugin =
          (consumeToken boost granted tok s.plugin).andThen (consumeTokens boost granted toks) := rfl
      rw [later, Outcome.andThen_of_fault_none _ _ fault]
      refine ⟨taken + 1, s', (s.take boost granted tok toks).2 ++ out, ?_, plugin, crashed, rest⟩
      exact Machine.run_cons.mpr ⟨_, _, out, first, ran, rfl⟩

/-- A line that arrives alone between two lines, in any pieces, is the next line of the session,
and the next read is outstanding if and only if the session goes on. -/
theorem received_line {answers : Nat → Bool} {s : Session} (reached : (session boost).Reachable s)
    (running : s.crashed = false) (idle : s.pending = []) {line : Str} (clear : '\n' ∉ line)
    (passed : List Str) {chunks : List Str} (whole : chunks.flatten = line ++ crlf) :
    ∃ taken s' out armed,
      (session boost).run s
        (.line line :: List.replicate taken (.token (answers passed.length))) = some (s', out) ∧
      chunks.foldl (Reader.receive boost answers) ⟨s.plugin, true, passed⟩ =
        ⟨s'.plugin, armed, passed ++ [line]⟩ ∧
      (armed = true ↔ s'.crashed = false) ∧ (s'.crashed = false → s'.pending = []) := by
  have unended : Lines.Open '\r' '\n' line := by
    rintro ⟨s, t, same⟩
    apply clear
    rw [← same]
    simp
  have empty := sbuf_of_reachable reached
  obtain ⟨armed, received, returned⟩ := @receive_line boost answers s.plugin line [] passed empty
    clear chunks (by simp) (by rw [List.nil_append, whole])
  have same : ({ s.plugin with sbuf := [] } : Plugin) = s.plugin := by rw [← empty]
  rw [same] at received
  have line_taken : (session boost).step s (.line line) =
      some ({ s with pending := tokens line ++ [crlf] }, [.parseString line]) := by
    simp only [session, Session.step]
    exact if_pos ⟨running, idle, unended⟩
  obtain ⟨taken, s', out, ran, plugin, crashed, rest⟩ := @tokens_taken boost (answers passed.length)
    (tokens line ++ [crlf]) { s with pending := tokens line ++ [crlf] } running rfl
  -- The handler takes the CRLF as one more token of the line.
  have whole_line : consumeTokens boost (answers passed.length) (tokens line ++ [crlf]) s.plugin =
      handleLine boost (answers passed.length) line s.plugin := by
    rw [consumeTokens_append, handleLine, parseString]
    congr 1
    funext p
    exact Outcome.andThen_ok _
  rw [whole_line] at plugin crashed
  refine ⟨taken, s', [.parseString line] ++ out, armed, ?_, ?_, returned.trans crashed.symm, rest⟩
  · exact Machine.run_cons.mpr ⟨_, _, out, line_taken, ran, rfl⟩
  · rw [received, plugin]

end Eiptnd.Wialon
