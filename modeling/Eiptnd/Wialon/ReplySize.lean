import Eiptnd.Wialon.Login

/-! The size of a reply.

A reply to a line fits the buffer, as long as the counter of a package is not longer
than any `std::size_t`. A reply to a completion is made under whatever token stood in
the place of a command last. -/
namespace Eiptnd.Wialon

open Reactive

/-- The size that `answer` computes is one the buffer has. -/
def Effect.Fits : Effect → Prop
  | .answer cmd message => 2 + cmd.length + 1 + message.length + 2 ≤ answerCapacity
  | _ => True

/-- No package counter of more than 26 digits is sent, and no completion is answered
while `cmd_` is an unknown command too long for it. -/
def Session.Roomy (s : Session) : Event → Prop
  | .line _ => True
  | .token _ => ∀ tok rest, s.pending = tok :: rest → s.closes tok = true →
      s.plugin.multicommand < 10 ^ 26
  | .complete _ ok => s.plugin.currentCmd ≠ .blackbox → estimates.lookup s.plugin.cmd = none →
      s.plugin.cmd.length + (resultCode ok s.plugin.currentCmd).length ≤ 27

theorem name_length (c : Command) : c.name.length ≤ 2 := by cases c <;> decide

theorem resultCode_length (ok : Bool) (c : Command) : (resultCode ok c).length ≤ 2 := by
  rw [resultCode]
  split
  · decide
  · split <;> decide

private theorem answer_fits (message : Str) (p : Plugin) :
    (∀ effect ∈ (answer message p).output, effect.Fits) ↔
      p.cmd.length + message.length ≤ 27 := by
  rw [answer_output]
  simp only [List.mem_cons, List.not_mem_nil, or_false, forall_eq_or_imp, forall_eq, Effect.Fits,
    and_true, answerCapacity]
  omega

/-! ### Replies to lines -/

private theorem commitCommand_fits {boost : Boost} {granted : Bool} {p : Plugin}
    (named : p.cmd = p.currentCmd.name) (other : p.currentCmd ≠ .blackbox) :
    ∀ effect ∈ (commitCommand boost granted p).output, effect.Fits := by
  have short := name_length p.currentCmd
  rw [← named] at short
  -- All codes are one or two characters.
  have fits (message : Str) (size : message.length ≤ 2) (q : Plugin) (same : q.cmd = p.cmd) :
      ∀ effect ∈ (answer message q).output, effect.Fits := by
    rw [answer_fits, same]
    omega
  have commit := commitCommand_cases boost granted p
  generalize commitCommand boost granted p = r at commit
  cases commit with
  | rejected => exact fits _ (by decide) p rfl
  | asked imei password =>
    intro effect member
    rcases List.mem_cons.mp member with rfl | later
    · exact trivial
    · cases granted with
      | false => exact fits _ (by decide) _ rfl effect later
      | true => exact fits _ (by decide) _ rfl effect later
  | stored => simp [storeData, Effect.Fits]
  | pinged => exact fits _ (by decide) p rfl
  | acknowledged blackbox => exact absurd blackbox other
  | awaited => simp
  | failed => simp

/-- The end of a package is answered with its counter. -/
private theorem closing_fits {boost : Boost} {granted : Bool} {p : Plugin}
    (named : p.cmd = p.currentCmd.name) (blackbox : p.currentCmd = .blackbox)
    (rooted : p.tree ≠ none)
    (here : p.state = .body ∨ p.state = .bar ∨ p.state = .skipToBarOrEnd) :
    (∀ effect ∈ (endOfLine boost granted p).output, effect.Fits) ↔ p.multicommand < 10 ^ 26 := by
  have size : p.cmd.length = 1 := by
    rw [named, blackbox]
    rfl
  have digits : (decimal p.multicommand).length ≤ 26 ↔ p.multicommand < 10 ^ 26 :=
    Nat.length_toDigits_le_iff (by decide) (by decide)
  have acknowledged : (∀ effect ∈ (answer (decimal p.multicommand) p).output, effect.Fits) ↔
      p.multicommand < 10 ^ 26 := by
    rw [answer_fits, size, ← digits]
    omega
  have stored : (∀ effect ∈ ((storeData p).andThen (commitCommand boost granted)).output,
      effect.Fits) ↔ p.multicommand < 10 ^ 26 := by
    rw [storeData, Outcome.emit_andThen, commitCommand_blackbox boost granted blackbox rooted]
    simp only [List.forall_mem_append, acknowledged]
    simp [Effect.Fits]
  rcases here with here | here | here
  · simp only [endOfLine, here, blackbox, ne_eq, not_true_eq_false, if_false]
    exact stored
  · simp only [endOfLine, here]
    exact stored
  · simp only [endOfLine, here, commitCommand_blackbox boost granted blackbox rooted]
    exact acknowledged

/-- Any other token is answered with little, if at all. -/
private theorem consumeToken_fits {boost : Boost} {granted : Bool} {tok : Str} {s : Session}
    (placed : Placed s.consumed s.plugin) (going : s.closes tok ≠ true) :
    ∀ effect ∈ (consumeToken boost granted tok s.plugin).output, effect.Fits := by
  have other (here : s.plugin.state = .body ∨ s.plugin.state = .bar ∨
      s.plugin.state = .skipToBarOrEnd) (ends : tok = crlf) : s.plugin.currentCmd ≠ .blackbox := by
    intro blackbox
    exact going (by simpa [Session.closes, ends, blackbox, or_assoc] using here)
  by_cases ends : tok = crlf
  · rw [consumeToken, if_pos ends, consumeEnd_output]
    have ended := endOfLine_cases boost granted s.plugin
    generalize endOfLine boost granted s.plugin = r at ended
    cases ended with
    | cut message here cmd =>
      -- A command cut short: its error is answered, and it is not a package.
      have named := (placed.active (Or.inr (Or.inl here))).name
      have fits : ∀ effect ∈ (commitCommand boost granted
          { s.plugin with isParserError := true }).output, effect.Fits :=
        commitCommand_fits named cmd
      intro effect member
      rcases List.mem_cons.mp member with rfl | later
      · exact trivial
      · exact fits effect later
    -- Of the ends that store a record only the excluded ones belong to a package.
    | last here =>
      rcases here with ⟨body, blackbox⟩ | bar
      · exact absurd blackbox (other (Or.inl body) ends)
      · simp only [Placed, bar] at placed
        exact absurd placed.2 (other (Or.inr (Or.inl bar)) ends)
    | done here =>
      rcases here with skip | last
      · simp only [Placed, skip] at placed
        exact absurd placed.2 (other (Or.inr (Or.inr skip)) ends)
      · simp only [Placed, last] at placed
        exact commitCommand_fits placed.1.name placed.2
    | misplaced => simp [parserError, Effect.Fits]
    | idle => simp
  -- Inside a line nothing is answered.
  · have step := consumeToken_cases boost granted ends s.plugin
    generalize consumeToken boost granted tok s.plugin = r at step
    cases step <;> simp [parserError, consumeInitial, Effect.Fits]

/-! ### Over a whole run -/

theorem step_roomy_iff {boost : Boost} {s s' : Session} {e : Event} {out : List Effect}
    (reached : (session boost).Reachable s) (stepped : (session boost).step s e = some (s', out)) :
    (∀ effect ∈ out, effect.Fits) ↔ s.Roomy e := by
  obtain ⟨running, step⟩ := Session.step_cases stepped
  have parsing := Session.parsing reached running
  cases step with
  | line => simp [Session.Roomy, Effect.Fits]
  | token granted tok rest pending =>
    by_cases closes : s.closes tok = true
    · have shape := closes
      simp only [Session.closes, Bool.and_eq_true, Bool.or_eq_true, beq_iff_eq, or_assoc] at shape
      obtain ⟨⟨rfl, blackbox⟩, here⟩ := shape
      have active : Active s.consumed s.plugin := parsing.placed.active (by tauto)
      have within : s.consumed ≠ [] := fun none => by simpa [none] using active.named
      rw [consumeToken, if_pos rfl, consumeEnd_output,
        closing_fits active.name blackbox (parsing.rooted within) here]
      simp [Session.Roomy, pending, closes]
    · apply iff_of_true (consumeToken_fits parsing.placed closes)
      intro tok' rest' same closes'
      rw [pending] at same
      cases same
      exact absurd closes' closes
  | complete place ok job found =>
    rcases handleProcessData_cases ok s.plugin with ⟨blackbox, counts⟩ | ⟨other, answers⟩
    · simp [counts, Session.Roomy, blackbox]
    · rw [answers, answer_fits]
      refine ⟨fun fits _ _ => fits, fun roomy => ?_⟩
      cases found : estimates.lookup s.plugin.cmd with
      | none => exact roomy other found
      -- The name of a command is short, and so is the code.
      | some entry =>
        have name := name_length entry.2
        have code := resultCode_length ok s.plugin.currentCmd
        have named := estimates_named found
        rw [← named] at name
        omega

/-- In every run every reply fits the buffer exactly when every step of the run leaves room
for what it has to answer. -/
theorem replies_fit_iff {boost : Boost} {s last : Session} {events : List Event}
    {out : List Effect} (fresh : s.Fresh) (ran : (session boost).run s events = some (last, out)) :
    (∀ effect ∈ out, effect.Fits) ↔ (session boost).EachStep Session.Roomy s events :=
  Machine.Reachable.outputs_iff Effect.Fits (fun _ _ _ _ => step_roomy_iff) (.init fresh) ran

/-- A record, and its completion after the line. -/
def recordEvents : List Event :=
  Event.whole "#L#i;p".toList ++ Event.whole "#M#hi".toList ++ [.complete 0 true]

theorem replies_fit_iff_record : ∃ last out,
    (session plain).run accepted recordEvents = some (last, out) ∧
    ((∀ effect ∈ out, effect.Fits) ↔
      (session plain).EachStep Session.Roomy accepted recordEvents) := by
  have taken : ((session plain).run accepted recordEvents).isSome = true := by decide +kernel
  obtain ⟨⟨last, out⟩, ran⟩ := Option.isSome_iff_exists.mp taken
  exact ⟨last, out, ran, replies_fit_iff accepted_fresh ran⟩

/-- A completion that comes back while an unknown command of thirty bytes is read. -/
def overlongEvents : List Event :=
  Event.whole "#L#i;p".toList ++ Event.whole "#M#hi".toList ++
    [.line ("#".toList ++ List.replicate 30 'x'), .token true, .token true, .token true,
      .complete 0 true]

/-- Its reply is longer than the buffer. -/
theorem reply_overlong : ¬ ∀ s, s.Fresh → ∀ events last out,
    (session plain).run s events = some (last, out) → ∀ effect ∈ out, effect.Fits := by
  intro claimed
  have taken : ((session plain).run accepted overlongEvents).any (fun result =>
      result.2.any fun effect => effect == .answer (List.replicate 30 'x') "1".toList) = true := by
    decide +kernel
  rw [Option.any_eq_true] at taken
  obtain ⟨⟨last, out⟩, ran, sent⟩ := taken
  obtain ⟨effect, member, same⟩ := List.any_eq_true.mp sent
  have fits := claimed accepted accepted_fresh overlongEvents last out ran effect member
  rw [beq_iff_eq.mp same] at fits
  exact absurd fits (by simp [Effect.Fits, answerCapacity])

end Eiptnd.Wialon
