import Eiptnd.Wialon.Session

/-! Nothing passes before login: neither data to the dispatchers nor a reply to
the device, answers to a login apart. -/
namespace Eiptnd.Wialon

open Reactive

theorem Active.name {consumed : List Str} {p : Plugin} (active : Active consumed p) :
    p.cmd = p.currentCmd.name := by
  obtain ⟨estimate, found⟩ := active.known
  exact estimates_named found

/-- What the device may be told about a login. -/
def loginReplies : List Str :=
  ["#AL#0\r\n".toList, "#AL#1\r\n".toList, "#AL#01\r\n".toList]

/-- The step ends a line that named the command `L`. -/
def Session.EndsLogin (s : Session) (e : Event) : Prop :=
  (∃ granted, e = .token granted) ∧ s.pending = [crlf] ∧ s.consumed[2]? = some "L".toList

/-- What the step from `s` to `s'` may do: data and replies need an `authenticate`
request answered with true, replies to a login excepted, and `authenticate` is
called at the end of a login line without a parser error, the end included. -/
def Session.Permitted (s : Session) (e : Event) (s' : Session) : Effect → Prop
  | .processData _ _ => s.granted = true
  | .doWrite reply => s.granted = true ∨ s.EndsLogin e ∧ reply ∈ loginReplies
  | .authenticate _ _ => s.EndsLogin e ∧ s'.raised = false
  | _ => True

/-! ### The commands behind the effects -/

/-- Effects of the end of a line whose command is being read. -/
private def Proper (p : Plugin) (r : Result) : Effect → Prop
  | .authenticate _ _ => p.currentCmd = .login ∧ r.state.isParserError = false
  | .doWrite reply => p.currentCmd = .login → reply ∈ loginReplies
  | _ => True

private theorem login_replies {message : Str} (sent : message ∈ ["0".toList, "1".toList, "01".toList]) :
    (replyText "L".toList message).take answerCapacity ∈ loginReplies := by
  have all : ∀ message ∈ ["0".toList, "1".toList, "01".toList],
      (replyText "L".toList message).take answerCapacity ∈ loginReplies := by decide
  exact all message sent

private theorem commitCommand_proper {boost : Boost} {granted : Bool} {p : Plugin}
    (named : p.cmd = p.currentCmd.name) :
    ∀ effect ∈ (commitCommand boost granted p).output,
      Proper p (commitCommand boost granted p) effect := by
  have commit := commitCommand_cases boost granted p
  generalize commitCommand boost granted p = r at commit
  intro effect member
  cases commit with
  | rejected login bad =>
    rw [login] at named
    simp only [answer_output, named, Command.name] at member
    rcases List.mem_pair.mp member with rfl | rfl
    · exact trivial
    · exact fun _ => login_replies (by simp)
  | asked imei password login good =>
    rw [login] at named
    cases granted <;>
      simp only [Outcome.emit_andThen, handleAuthenticate, Bool.false_eq_true, if_false, if_true,
        answer_output, named, Command.name, List.singleton_append] at member <;>
      rcases List.mem_cons.mp member with rfl | later
    · exact ⟨login, good⟩
    · rcases List.mem_pair.mp later with rfl | rfl
      · exact trivial
      · exact fun _ => login_replies (by simp)
    · exact ⟨login, good⟩
    · rcases List.mem_pair.mp later with rfl | rfl
      · exact trivial
      · exact fun _ => login_replies (by simp)
  | stored =>
    rw [List.mem_singleton.mp member]
    exact trivial
  | pinged ping =>
    simp only [answer_output] at member
    rcases List.mem_pair.mp member with rfl | rfl
    · exact trivial
    · exact fun login => by simp [login] at ping
  | acknowledged package =>
    simp only [answer_output] at member
    rcases List.mem_pair.mp member with rfl | rfl
    · exact trivial
    · exact fun login => by simp [login] at package
  | awaited => cases member
  | failed => cases member

private theorem endOfLine_proper {boost : Boost} {granted : Bool} {consumed : List Str}
    {p : Plugin} (placed : Placed consumed p) :
    ∀ effect ∈ (endOfLine boost granted p).output,
      (effect.isLogin = true ∨ (∃ reply, effect = .doWrite reply)) →
      Active consumed p ∧ Proper p (endOfLine boost granted p) effect := by
  intro effect member loud
  have ended := endOfLine_cases boost granted p
  generalize endOfLine boost granted p = r at ended member
  cases ended with
  | cut message here =>
    have active := placed.active (Or.inr (Or.inl here))
    rcases List.mem_cons.mp member with rfl | later
    · simp [Effect.isLogin] at loud
    · have proper := commitCommand_proper (p := { p with isParserError := true }) active.name
        effect later
      exact ⟨active, by cases effect <;> exact proper⟩
  | last here =>
    have active : Active consumed p := placed.active (by tauto)
    rcases List.mem_cons.mp member with rfl | later
    · simp [Effect.isLogin] at loud
    · have proper := commitCommand_proper active.name effect later
      exact ⟨active, by cases effect <;> exact proper⟩
  | done here =>
    have active : Active consumed p := placed.active (by tauto)
    exact ⟨active, commitCommand_proper active.name effect member⟩
  | misplaced =>
    rw [List.mem_singleton.mp member] at loud
    simp [Effect.isLogin] at loud
  | idle => cases member

private theorem consumeEnd_isParserError {boost : Boost} {granted : Bool} {p : Plugin} :
    (consumeEnd boost granted p).state.isParserError =
      (endOfLine boost granted p).state.isParserError := by
  unfold consumeEnd Outcome.andThen
  split <;> simp

/-- Before the end of a line nothing is asked or replied. -/
private theorem consumeToken_silent {boost : Boost} {granted : Bool} {tok : Str}
    (notEnd : tok ≠ crlf) (p : Plugin) :
    ∀ effect ∈ (consumeToken boost granted tok p).output,
      effect.isLogin = false ∧ ∀ reply, effect ≠ .doWrite reply := by
  have step := consumeToken_cases boost granted notEnd p
  generalize consumeToken boost granted tok p = r at step
  intro effect member
  cases step <;> simp [parserError, consumeInitial] at member
  case refused => simp [member, Effect.isLogin]
  case unknown => simp [member, Effect.isLogin]
  case recorded => simp [member, Effect.isLogin]
  case separated => simp [member, Effect.isLogin]
  case overlong => rcases member with rfl | rfl <;> simp [Effect.isLogin]
  case unfiled => simp [member, Effect.isLogin]

/-! ### Runs -/

theorem Active.opened {s : Session} (parsing : s.Parsing) (active : Active s.consumed s.plugin)
    (other : s.plugin.currentCmd ≠ .login) : s.granted = true :=
  parsing.granted (active.allowed.resolve_right other)

theorem Command.Stores.not_login {c : Command} (stores : c.Stores) : c ≠ .login := by
  rintro rfl
  simp [Command.Stores] at stores

private theorem take_called (boost : Boost) (granted : Bool) (tok : Str) {s : Session}
    (parsing : s.Parsing)
    (called : deliveries (consumeToken boost granted tok s.plugin).output ≠ []) :
    s.granted = true := by
  obtain ⟨active, stores⟩ := consumeToken_stores parsing.placed called
  exact active.opened parsing stores.not_login

/-- Only calls of an opened connection can complete. -/
theorem Session.jobs_granted {boost : Boost} {s : Session}
    (reached : (session boost).Reachable s) : s.jobs ≠ [] → s.granted = true := by
  apply reached.invariant (fun s => s.jobs ≠ [] → s.granted = true)
  · intro s fresh outstanding
    exact absurd fresh.jobs outstanding
  · intro s e s' out before ih stepped outstanding
    obtain ⟨running, step⟩ := Session.step_cases stepped
    cases step with
    | line => exact ih outstanding
    | token granted tok rest pending =>
      have opened : s.granted = true := by
        by_cases old : s.jobs = []
        · apply take_called boost granted tok (Session.parsing before running)
          intro quiet
          apply outstanding
          simp [Session.take, Session.called, old, quiet]
        · exact ih old
      simp [Session.take, opened]
    | complete place ok job found => exact ih (List.ne_nil_of_mem (List.mem_of_getElem? found))

/-- In every run, each effect of each step is permitted. -/
theorem nothing_before_login {boost : Boost} {s s' : Session} {e : Event} {out : List Effect}
    (reached : (session boost).Reachable s)
    (stepped : (session boost).step s e = some (s', out)) :
    ∀ effect ∈ out, s.Permitted e s' effect := by
  intro effect member
  obtain ⟨running, step⟩ := Session.step_cases stepped
  have parsing := Session.parsing reached running
  cases step with
  | line message =>
    rw [List.mem_singleton.mp member]
    exact trivial
  | complete place ok job found =>
    have opened := Session.jobs_granted reached (List.ne_nil_of_mem (List.mem_of_getElem? found))
    cases effect with
    | processData tree content => exact opened
    | doWrite reply => exact Or.inl opened
    | authenticate imei password =>
      rcases handleProcessData_cases ok s.plugin with ⟨-, counts⟩ | ⟨-, answers⟩
      · simp [counts] at member
      · simp [answers, answer_output] at member
    | _ => exact trivial
  | token granted tok rest pending =>
    have loud (asked : effect.isLogin = true ∨ ∃ reply, effect = .doWrite reply) :
        s.pending = [crlf] ∧ Active s.consumed s.plugin ∧
          Proper s.plugin (endOfLine boost granted s.plugin) effect := by
      by_cases ends : tok = crlf
      · rw [consumeToken, if_pos ends, consumeEnd_output] at member
        refine ⟨?_, endOfLine_proper parsing.placed effect member asked⟩
        rcases parsing.pending with ⟨idle, -⟩ | ⟨toks, shape, clean⟩
        · rw [pending] at idle
          cases idle
        · rw [pending, ends] at shape
          cases toks with
          | nil => rw [pending, ends, (List.cons.inj shape).2]
          | cons t toks => exact absurd (by simp [(List.cons.inj shape).1]) clean
      · obtain ⟨unasked, silent⟩ := consumeToken_silent ends s.plugin effect member
        rcases asked with asked | ⟨reply, written⟩
        · rw [unasked] at asked
          cases asked
        · exact absurd written (silent reply)
    have ends_login (last : s.pending = [crlf]) (active : Active s.consumed s.plugin)
        (login : s.plugin.currentCmd = .login) : s.EndsLogin (.token granted) := by
      refine ⟨⟨granted, rfl⟩, last, ?_⟩
      rw [active.named, active.name, login]
      rfl
    cases effect with
    | processData tree content =>
      apply take_called boost granted tok parsing
      exact List.ne_nil_of_mem (List.mem_filterMap.mpr ⟨_, member, rfl⟩)
    | doWrite reply =>
      obtain ⟨last, active, proper⟩ := loud (Or.inr ⟨reply, rfl⟩)
      by_cases login : s.plugin.currentCmd = .login
      · exact Or.inr ⟨ends_login last active login, proper login⟩
      · exact Or.inl (active.opened parsing login)
    | authenticate imei password =>
      obtain ⟨last, active, login, clean⟩ := loud (Or.inl rfl)
      refine ⟨ends_login last active login, ?_⟩
      rw [pending] at last
      obtain ⟨rfl, rfl⟩ := List.cons.inj last
      have progress := consumeEnd_progress boost granted s.plugin
      have quiet : ¬ ((consumeEnd boost granted s.plugin).state.isParserError = true) := by
        rw [consumeEnd_isParserError, clean]
        exact Bool.false_ne_true
      simp only [Session.take, consumeToken, if_true, Session.begins, bne_self_eq_false,
        Bool.false_and, Bool.not_false, Bool.true_and, Bool.or_eq_false_iff]
      constructor
      · exact Bool.eq_false_iff.mpr fun noted => quiet (progress.error (Or.inl (parsing.raised noted)))
      · exact Bool.eq_false_iff.mpr fun noted => quiet (progress.error (Or.inr noted))
    | _ => exact trivial

theorem nothing_before_login_message :
    ∃ s s' out, (session plain).step s (.token true) = some (s', out) ∧
      deliveries out = [[("message".toList, "hi".toList)]] ∧
      ∀ effect ∈ out, s.Permitted (.token true) s' effect := by
  have reached := reachable_after plain
    (Event.whole "#L#i;p".toList ++ (Event.whole "#M#hi".toList).dropLast)
  have delivered : ((session plain).step ((session plain).after accepted
      (Event.whole "#L#i;p".toList ++ (Event.whole "#M#hi".toList).dropLast))
      (.token true)).map (deliveries ·.2) = some [[("message".toList, "hi".toList)]] := by
    decide +kernel
  obtain ⟨⟨s', out⟩, stepped, same⟩ := Option.map_eq_some_iff.mp delivered
  exact ⟨_, s', out, stepped, same, nothing_before_login reached stepped⟩

end Eiptnd.Wialon
