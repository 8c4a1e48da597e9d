import Eiptnd.Wialon.Login

/-! What becomes of a completion.

A completion reads `cmd_`, `current_cmd_` and `multicommand_` when it runs, so the
lines begun since its record was parsed decide what it answers. -/
namespace Eiptnd.Wialon

open Reactive

/-! ### Replies -/

/-- The code a record's own result calls for. -/
def recordCode (ok : Bool) (cmd : Str) : Str :=
  if ok then "1".toList else if cmd = "M".toList then "0".toList else "-1".toList

/-- A completion did what its record asks for: one reply with the record's command
and its own code, or for a black-box record no reply and one count for its package. -/
def Completion.Right (c : Completion) : Prop :=
  if c.job.cmd = "B".toList then
    replies c.output = [] ∧ c.counted = true ∧ c.line = c.job.line
  else replies c.output = [replyText c.job.cmd (recordCode c.ok c.job.cmd)]

instance : DecidablePred Completion.Right := fun c =>
  inferInstanceAs (Decidable (if c.job.cmd = "B".toList then
    replies c.output = [] ∧ c.counted = true ∧ c.line = c.job.line
  else replies c.output = [replyText c.job.cmd (recordCode c.ok c.job.cmd)]))

/-- Nothing parsed since stands in the way of a completion: for a black-box record no
later line has begun, for any other the parser's command is the record's. -/
def Completion.Undisturbed (c : Completion) : Prop :=
  if c.job.cmd = "B".toList then c.line = c.job.line else c.cmd = c.job.cmd

private theorem recordCode_name {ok : Bool} {c : Command} (stores : c.Stores)
    (other : c ≠ .blackbox) : recordCode ok c.name = resultCode ok c := by
  rcases stores with rfl | rfl | rfl | rfl
  · cases ok <;> decide
  · cases ok <;> decide
  · cases ok <;> decide
  · exact absurd rfl other

private theorem reply_plain {ok : Bool} {c : Command} :
    '#' ∉ c.name ∧ '#' ∉ recordCode ok c.name ∧
      (replyText c.name (recordCode ok c.name)).length < answerCapacity := by
  cases c <;> cases ok <;> decide

/-- A text shorter than the buffer is the start of no longer reply. -/
private theorem take_reply {cmd message text : Str} (short : text.length < answerCapacity) :
    (replyText cmd message).take answerCapacity = text ↔ replyText cmd message = text := by
  constructor
  · intro same
    have bound : (replyText cmd message).length ≤ answerCapacity := by
      by_contra long
      have size := congrArg List.length same
      rw [List.length_take_of_le (by omega)] at size
      omega
    rwa [List.take_of_length_le bound] at same
  · rintro rfl
    exact List.take_of_length_le short.le

private theorem complete_right_iff {place : Nat} {job : Job} {ok : Bool} {s : Session}
    (books : s.Books) (fits : s.Fits job) :
    ∀ c ∈ (s.complete place job ok).1.completions, c ∉ s.completions →
      (c.Right ↔ c.Undisturbed) := by
  intro c member fresh
  have made := (List.mem_append.mp member).resolve_left fresh
  rw [List.mem_singleton] at made
  obtain ⟨-, here, estimate, kind, known, stores⟩ := fits
  have named := estimates_named known
  rcases handleProcessData_cases ok s.plugin with ⟨blackbox, counts⟩ | ⟨other, answers⟩
  · -- the completion is counted
    simp only [counts, Outcome.ok_state, Outcome.ok_output] at made
    by_cases package : job.cmd = "B".toList
    · simp [made, Completion.Right, Completion.Undisturbed, package, replies]
    · have unnamed : s.plugin.cmd ≠ job.cmd := by
        intro same
        rw [← same] at known
        have current := books.command estimate kind known
        rw [current] at blackbox
        exact package (by rw [named, blackbox]; rfl)
      simp [made, Completion.Right, Completion.Undisturbed, replies, unnamed]
  · -- the completion is answered under the parser's command
    simp only [answers, (answer_kept _ _).multicommand, bne_self_eq_false] at made
    by_cases package : job.cmd = "B".toList
    · have later : s.line ≠ job.line := by
        intro same
        have current := books.command 16 .blackbox (by rw [here same.symm, package]; rfl)
        exact other current
      simp [made, Completion.Right, Completion.Undisturbed, package, later]
    · have kept : kind ≠ .blackbox := by
        rintro rfl
        exact package named
      obtain ⟨plainName, plainCode, short⟩ := @reply_plain ok kind
      simp only [made, Completion.Right, Completion.Undisturbed, package, if_false,
        answer_replies, List.cons.injEq, and_true]
      rw [named, take_reply short]
      constructor
      · intro same
        exact (((replyText_inj plainName plainCode).mp same.symm).1).symm
      · intro same
        have current := books.command estimate kind (by rw [same, ← named]; exact known)
        rw [same, current, recordCode_name stores kept]

/-- In every run, a completion did what its record asks for exactly when nothing parsed
since stood in its way. -/
theorem completion_right_iff {boost : Boost} {s : Session}
    (reached : (session boost).Reachable s) :
    ∀ c ∈ s.completions, c.Right ↔ c.Undisturbed := by
  apply reached.invariant (fun s => ∀ c ∈ s.completions, c.Right ↔ c.Undisturbed)
  · intro s fresh c member
    rw [fresh.completions] at member
    cases member
  · intro s e s' out before ih stepped c member
    obtain ⟨running, step⟩ := Session.step_cases stepped
    cases step with
    | line => exact ih c member
    | token => exact ih c member
    | complete place ok job found =>
      have books := Session.books before running
      by_cases old : c ∈ s.completions
      · exact ih c old
      · have fits := books.fits job (by simp [List.mem_of_getElem? found])
        exact complete_right_iff books fits c member old

def dataLine : Str := "#D#1;2;3;4;5;6;7;8;9;10;11;12;13;14;15;16".toList

theorem completion_right_iff_data : ∃ s, (session plain).Reachable s ∧
    (∃ c ∈ s.completions, replies c.output = ["#AD#1\r\n".toList]) ∧
    ∀ c ∈ s.completions, c.Right ↔ c.Undisturbed := by
  have reached := reachable_after plain
    (Event.whole "#L#i;p".toList ++ Event.whole dataLine ++ [.complete 0 true])
  exact ⟨_, reached, by decide +kernel, completion_right_iff reached⟩

/-- A record completed after the next line was parsed is answered under that line's
command. -/
theorem completion_answered_as_ping : ∃ s, (session plain).Reachable s ∧
    ∃ c ∈ s.completions, c.job.cmd = "D".toList ∧ c.ok = true ∧
      replies c.output = ["#AP#1\r\n".toList] ∧ ¬ c.Right := by
  have reached := reachable_after plain
    (Event.whole "#L#i;p".toList ++ Event.whole dataLine ++ Event.whole "#P#".toList ++
      [.complete 0 true])
  exact ⟨_, reached, by decide +kernel⟩

end Eiptnd.Wialon
