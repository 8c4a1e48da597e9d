import Eiptnd.Wialon.Grammar
import Eiptnd.Wialon.Reader

/-! The bytes of an image.

The commit of an image asks for its bytes, but the end of the same line puts the parser
back to where it reads lines, so that the bytes are read as lines. -/
namespace Eiptnd.Wialon

open Reactive

/-- `#I#sz;ind;count;date;time;name`. -/
def imageOf (sz ind count date time name : Str) : Str :=
  "#I#".toList ++ [';'].intercalate [sz, ind, count, date, time, name]

/-- The translator waits for `n` bytes of an image, and asks for no line. -/
structure Reader.AwaitsImage (n : Nat) (r : Reader) : Prop where
  state : r.plugin.state = .binaryData
  estimate : r.plugin.estimate = n
  disarmed : r.armed = false

section Image

variable {boost : Boost} {answers : Nat → Bool} {sz ind count date time name : Str} {n : Nat}

private theorem imageOf_body (plain : ∀ field ∈ [sz, ind, count, date, time, name], Plain field) :
    body (tokens (imageOf sz ind count date time name)) =
      some (Command.image.name, [sz, ind, count, date, time, name]) := by
  have shape : imageOf sz ind count date time name =
      [] ++ '#' :: (Command.image.name ++
        '#' :: [';'].intercalate [sz, ind, count, date, time, name]) := rfl
  rw [shape, grammar_body Tokens.Free.nil (by simp) plain]

/-- An image with a size is no line that throws. -/
private theorem imageOf_sized (plain : ∀ field ∈ [sz, ind, count, date, time, name], Plain field)
    (number : boost.lexicalCast sz = some n) :
    ¬ Unsized boost (imageOf sz ind count date time name) := by
  rintro ⟨record, found, -, unsized⟩
  rw [imageOf_body plain] at found
  cases found
  simp [number] at unsized

/-- When `handle_read` has finished the line of an image, on any connection, logged in or
not, and from any buffer, the parser does not wait for the image: the next read for a line is
outstanding, and the next bytes that come are handed to `parse_string`. -/
theorem images_parsed {s : Session} (reached : (session boost).Reachable s)
    (alive : s.crashed = false) (boundary : s.pending = [])
    (plain : ∀ field ∈ [sz, ind, count, date, time, name], Plain field)
    (unended : Lines.Open '\r' '\n' (imageOf sz ind count date time name))
    (number : boost.lexicalCast sz = some n) {r : Reader} {buffer rest : Str}
    (holding : r.plugin = { s.plugin with sbuf := buffer })
    (taken : gather buffer.length [] buffer = .line (imageOf sz ind count date time name) rest) :
    ¬ (r.handle boost answers).AwaitsImage n ∧
      (rest = [] → ∀ payload, '\n' ∉ payload →
        ((r.handle boost answers).receive boost answers (payload ++ crlf)).passed =
          (r.handle boost answers).passed ++ [payload]) := by
  have here : ({ r.plugin with sbuf := rest } : Plugin).state = .initial := by
    rw [holding]
    exact Session.at_rest reached alive boundary
  -- The size is a number, so nothing throws.
  have returned : (handleLine boost (answers r.passed.length) (imageOf sz ind count date time name)
      { r.plugin with sbuf := rest }).fault = none :=
    (handleLine_cases here unended).1.mpr fun bad => imageOf_sized plain number bad.2
  have taken' : gather r.plugin.sbuf.length [] r.plugin.sbuf =
      .line (imageOf sz ind count date time name) rest := by
    rw [holding]
    exact taken
  obtain ⟨state, -, armed⟩ := @handleRead_line boost (answers r.passed.length) _ _ _ taken'
  -- The end of the line has put the parser back to the start, so a line is read next.
  have again : (r.handle boost answers).armed = true := armed.mpr returned
  refine ⟨fun awaits => ?_, fun spent payload clear => ?_⟩
  · rw [awaits.disarmed] at again
    cases again
  · have spent' : (r.handle boost answers).plugin.sbuf = [] := by
      rw [Reader.handle, handleRead_sbuf, taken']
      exact spent
    have clear' : payload ++ crlf ≠ [] := by simp [crlf]
    obtain ⟨turns, size⟩ := Nat.exists_eq_add_one_of_ne_zero
      (Nat.ne_of_gt (List.length_pos_of_ne_nil clear'))
    -- The payload is a line like any other.
    have next := @drain_oneLine boost answers (r.handle boost answers).plugin spent' payload clear
      (r.handle boost answers).passed turns
    obtain ⟨armed', drained, -⟩ := next
    rw [Reader.receive, if_pos again]
    simp only [spent', List.nil_append, size]
    have same : (r.handle boost answers) = ⟨(r.handle boost answers).plugin, true,
        (r.handle boost answers).passed⟩ := by rw [← again]
    rw [same]
    exact congrArg Reader.passed drained

end Image

/-- An image of five bytes, by its fields. -/
private theorem imageLine_plain : ∀ field ∈ ["5".toList, "0".toList, "1".toList, "010203".toList,
    "040506".toList, "n".toList], Plain field := by
  simp [Tokens.Free]

/-- A connection that has logged in, with the line of an image in its buffer. -/
def imaging : Reader := ⟨{ opened.plugin with sbuf := imageLine ++ crlf }, true, []⟩

theorem images_parsed_imageLine :
    ¬ (imaging.handle numeric fun _ => true).AwaitsImage 5 ∧
      ([] = ([] : Str) → ∀ payload, '\n' ∉ payload →
        ((imaging.handle numeric fun _ => true).receive numeric (fun _ => true)
            (payload ++ crlf)).passed =
          (imaging.handle numeric fun _ => true).passed ++ [payload]) := by
  obtain ⟨alive, boundary, -⟩ := opened_ready
  exact images_parsed opened_reachable alive boundary imageLine_plain (by decide)
    (show numeric.lexicalCast "5".toList = some 5 by decide) rfl (by decide +kernel)

/-- The bytes of an image are a command, and it is obeyed. -/
theorem payload_obeyed :
    (Reader.run numeric (fun _ => true) accepted.plugin
        ["#L#i;p\r\n".toList, imageLine ++ crlf, "#P#\r\n".toList]).passed =
      ["#L#i;p".toList, imageLine, "#P#".toList] ∧
    ¬ ∀ s, (session numeric).Reachable s → s.crashed = false → s.pending = [] →
      s.plugin.authenticated = true → ∀ sz ind count date time name n,
        (∀ field ∈ [sz, ind, count, date, time, name], Plain field) →
        numeric.lexicalCast sz = some n → ∀ r : Reader,
        r.plugin = { s.plugin with sbuf := imageOf sz ind count date time name ++ crlf } →
        (r.handle numeric fun _ => true).AwaitsImage n := by
  refine ⟨by decide +kernel, fun claimed => ?_⟩
  obtain ⟨alive, boundary, login⟩ := opened_ready
  have awaits := claimed opened opened_reachable alive boundary login _ _ _ _ _ _ 5 imageLine_plain
    (by decide) imaging rfl
  have again : (imaging.handle numeric fun _ => true).armed = true := by decide +kernel
  rw [awaits.disarmed] at again
  cases again

end Eiptnd.Wialon
