import Eiptnd.Library.Writes
import Eiptnd.Wialon.Session

/-! The replies of a connection on their way to the device.

`answer` writes into the one reply buffer and starts a write of its first bytes. Neither it
nor `handle_write` takes note that a write is under way. -/
namespace Eiptnd.Wialon

open Reactive Writes

/-- A connection with its outstanding writes. -/
structure Wired where
  session : Session
  channel : Channel Char

structure Wired.Fresh (w : Wired) : Prop where
  session : w.session.Fresh
  channel : w.channel = .empty

inductive WireEvent
  /-- A line, a token or a completion. -/
  | session (e : Event)
  /-- An outstanding write takes a byte. -/
  | take (place : Nat)
  /-- A write is complete, and `handle_write` called. -/
  | written (place : Nat)
  deriving DecidableEq, Repr

section Machine

variable (boost : Boost)

/-- A step of the connection, whose replies become writes. -/
def Wired.step (w : Wired) : WireEvent → Option (Wired × List Effect)
  | .session e =>
    match w.session.step boost e with
    | none => none
    | some (s, out) => some (⟨s, (replies out).foldl (fun c text => c.start text) w.channel⟩, out)
  | .take place =>
    match w.channel.take w.session.plugin.answerBuffer place with
    | none => none
    | some c => some ({ w with channel := c }, [])
  | .written place =>
    match w.channel.finish place with
    | none => none
    | some c => some ({ w with channel := c }, [])

def wire : Machine Wired WireEvent Effect := ⟨Wired.Fresh, Wired.step boost⟩

end Machine

/-- The end of the line would commit a login, a ping or a package. -/
def Plugin.Concludes (p : Plugin) : Prop :=
  (p.state = .body ∨ p.state = .bar ∨ p.state = .skipToBarOrEnd ∨ p.state = .end_) ∧
    (p.currentCmd = .login ∨ p.currentCmd = .ping ∨ p.currentCmd = .blackbox)

/-- The event makes the translator reply: the end of such a line, or a completion outside
a package. -/
def Session.Answers (s : Session) : Event → Prop
  | .line _ => False
  | .token _ => s.pending.head? = some crlf ∧ s.plugin.Concludes
  | .complete _ _ => s.plugin.currentCmd ≠ .blackbox

/-- No reply is made while a write is outstanding. -/
def Wired.Alone (w : Wired) : WireEvent → Wired → Prop
  | .session e, _ => w.session.Answers e → w.channel.outstanding = []
  | _, _ => True

/-! ### What a reply does to the buffer -/

/-- The buffer stays, or it starts with the one reply that is made. -/
def Speaks (may : Prop) (p : Plugin) (r : Result) : Prop :=
  replies r.output = [] ∧ r.state.answerBuffer = p.answerBuffer ∨
    may ∧ ∃ reply, replies r.output = [reply] ∧ reply <+: r.state.answerBuffer

section Replies

variable (boost : Boost) (granted : Bool) {p : Plugin} {may : Prop}

private theorem answer_speaks (message : Str) (allowed : may) : Speaks may p (answer message p) :=
  Or.inr ⟨allowed, _, rfl, List.take_prefix _ _⟩

private theorem silent_speaks {r : Result} (silent : replies r.output = [])
    (same : r.state.answerBuffer = p.answerBuffer) : Speaks may p r :=
  Or.inl ⟨silent, same⟩

/-- What does not reply in front changes nothing. -/
private theorem Speaks.behind {q : Plugin} {r : Result} {out : List Effect} (speaks : Speaks may q r)
    (silent : replies out = []) (same : q.answerBuffer = p.answerBuffer) :
    Speaks may p ⟨r.state, out ++ r.output, r.fault⟩ := by
  have both : replies (out ++ r.output) = replies r.output := by
    rw [replies, List.filterMap_append]
    exact congrArg (· ++ _) silent
  rcases speaks with ⟨none, kept⟩ | ⟨allowed, reply, made, written⟩
  · exact Or.inl ⟨both.trans none, kept.trans same⟩
  · exact Or.inr ⟨allowed, reply, both.trans made, written⟩

private theorem commitCommand_speaks (allowed : p.currentCmd = .login ∨ p.currentCmd = .ping ∨
    p.currentCmd = .blackbox → may) : Speaks may p (commitCommand boost granted p) := by
  have commit := commitCommand_cases boost granted p
  generalize commitCommand boost granted p = r at commit
  cases commit with
  | rejected login => exact answer_speaks _ (allowed (Or.inl login))
  | asked imei password login =>
    have answered : Speaks may p (handleAuthenticate granted p) := by
      cases granted with
      | false => exact answer_speaks _ (allowed (Or.inl login))
      | true => exact answer_speaks _ (allowed (Or.inl login))
    exact answered.behind rfl rfl
  | stored => exact silent_speaks rfl rfl
  | pinged ping => exact answer_speaks _ (allowed (Or.inr (Or.inl ping)))
  | acknowledged blackbox => exact answer_speaks _ (allowed (Or.inr (Or.inr blackbox)))
  | awaited => exact silent_speaks rfl rfl
  | failed => exact silent_speaks rfl rfl

/-- Of a line, only the end replies, and only where it commits a command. -/
private theorem consumeToken_speaks {tok : Str} :
    Speaks (tok = crlf ∧ p.Concludes) p (consumeToken boost granted tok p) := by
  by_cases ends : tok = crlf
  · have ended : Speaks p.Concludes p (endOfLine boost granted p) := by
      -- What stands in front of the commit, a log or a record, makes no reply.
      have cases := endOfLine_cases boost granted p
      generalize endOfLine boost granted p = r at cases
      cases cases with
      | cut message here =>
        have commit := @commitCommand_speaks boost granted { p with isParserError := true }
          p.Concludes fun cmd => ⟨Or.inl here, cmd⟩
        exact commit.behind rfl rfl
      | last here =>
        have commit := @commitCommand_speaks boost granted p p.Concludes fun cmd =>
          ⟨here.elim (fun body => Or.inl body.1) fun bar => Or.inr (Or.inl bar), cmd⟩
        exact commit.behind rfl rfl
      | done here =>
        exact commitCommand_speaks boost granted fun cmd => ⟨Or.inr (Or.inr here), cmd⟩
      | misplaced => exact silent_speaks rfl rfl
      | idle => exact silent_speaks rfl rfl
    -- The reset at the end leaves the buffer to the write.
    have buffer : (consumeEnd boost granted p).state.answerBuffer =
        (endOfLine boost granted p).state.answerBuffer := by
      unfold consumeEnd Outcome.andThen
      split <;> rfl
    rw [consumeToken, if_pos ends, Speaks, consumeEnd_output, buffer]
    apply ended.imp id
    rintro ⟨allowed, reply⟩
    exact ⟨⟨ends, allowed⟩, reply⟩
  · have step := consumeToken_cases boost granted ends p
    generalize consumeToken boost granted tok p = r at step
    cases step <;> exact silent_speaks rfl rfl

end Replies

/-- A step of a connection makes at most one reply, which then stands in the buffer. -/
private theorem session_speaks {boost : Boost} {s s' : Session} {e : Event} {out : List Effect}
    (stepped : s.step boost e = some (s', out)) :
    replies out = [] ∧ s'.plugin.answerBuffer = s.plugin.answerBuffer ∨
      s.Answers e ∧ ∃ reply, replies out = [reply] ∧ reply <+: s'.plugin.answerBuffer := by
  obtain ⟨running, step⟩ := @Session.step_cases boost s s' e out stepped
  cases step with
  | line => exact Or.inl ⟨rfl, rfl⟩
  | token granted tok rest pending =>
    have speaks := @consumeToken_speaks boost granted s.plugin tok
    apply speaks.imp id
    rintro ⟨⟨ends, allowed⟩, reply⟩
    exact ⟨⟨by rw [pending, ends]; rfl, allowed⟩, reply⟩
  | complete place ok job =>
    -- A black-box record is counted; any other is answered.
    rcases handleProcessData_cases ok s.plugin with ⟨-, counts⟩ | ⟨other, answers⟩
    · refine Or.inl ⟨by rw [counts]; rfl, ?_⟩
      simp only [Session.complete, counts]
      rfl
    · refine Or.inr ⟨other, _, by rw [answers]; rfl, ?_⟩
      simp only [Session.complete, answers]
      exact List.take_prefix _ _

/-! ### Over a whole run -/

theorem Wired.intact_step {boost : Boost} {w w' : Wired} {e : WireEvent} {out : List Effect}
    (intact : w.channel.Intact w.session.plugin.answerBuffer)
    (stepped : (wire boost).step w e = some (w', out)) (alone : w.Alone e w') :
    w'.channel.Intact w'.session.plugin.answerBuffer ∧
      (w.channel.outstanding ≠ [] →
        w'.session.plugin.answerBuffer = w.session.plugin.answerBuffer) := by
  cases e with
  | session e =>
    simp only [wire, Wired.step] at stepped
    split at stepped
    · cases stepped
    next s out moved =>
      cases stepped
      rcases session_speaks moved with ⟨silent, same⟩ | ⟨answers, reply, made, written⟩
      · rw [silent, same]
        exact ⟨intact, fun _ => rfl⟩
      · rw [made]
        -- This is where a reply would overwrite the one before it.
        have none := alone answers
        exact ⟨intact.start none written, fun some => absurd none some⟩
  | take place =>
    simp only [wire, Wired.step] at stepped
    split at stepped
    · cases stepped
    next c moved =>
      cases stepped
      exact ⟨intact.take moved, fun _ => rfl⟩
  | written place =>
    simp only [wire, Wired.step] at stepped
    split at stepped
    · cases stepped
    next c done =>
      cases stepped
      exact ⟨intact.finish done, fun _ => rfl⟩

/-- In every run in which no reply is made while a write is outstanding, there is never
more than one write, the buffer is not touched while there is one, and the wire carries
the replies one after another. -/
theorem replies_intact {boost : Boost} {w : Wired}
    (reached : (wire boost).ReachableWhere Wired.Alone w) :
    w.channel.outstanding.length ≤ 1 ∧
      w.channel.wire <+: w.channel.texts.flatten ∧
      (w.channel.outstanding = [] → w.channel.wire = w.channel.texts.flatten) ∧
      ∀ e w' out, (wire boost).step w e = some (w', out) → w.Alone e w' →
        w.channel.outstanding ≠ [] →
        w'.session.plugin.answerBuffer = w.session.plugin.answerBuffer := by
  have intact : w.channel.Intact w.session.plugin.answerBuffer := by
    apply reached.invariant (fun w => w.channel.Intact w.session.plugin.answerBuffer)
    · intro w fresh
      rw [fresh.channel]
      exact Channel.intact_empty
    · intro w e w' out _ intact stepped alone
      exact (Wired.intact_step intact stepped alone).1
  exact ⟨intact.single, intact.carried, intact.complete,
    fun e w' out stepped alone => (Wired.intact_step intact stepped alone).2⟩

/-! ### Concrete runs -/

instance (p : Plugin) : Decidable p.Concludes := inferInstanceAs (Decidable (_ ∧ _))

instance (s : Session) : (e : Event) → Decidable (s.Answers e)
  | .line _ => inferInstanceAs (Decidable False)
  | .token _ => inferInstanceAs (Decidable (_ ∧ _))
  | .complete _ _ => inferInstanceAs (Decidable (_ ≠ _))

instance (w : Wired) : (e : WireEvent) → (w' : Wired) → Decidable (w.Alone e w')
  | .session e, _ => inferInstanceAs (Decidable (w.session.Answers e → _))
  | .take _, _ => inferInstanceAs (Decidable True)
  | .written _, _ => inferInstanceAs (Decidable True)

/-- A connection just accepted, with nothing to write. -/
def connected : Wired := ⟨accepted, .empty⟩

theorem connected_fresh : connected.Fresh := ⟨accepted_fresh, rfl⟩

/-- The login is answered before the next line comes. -/
def politeEvents : List WireEvent :=
  (Event.whole "#L#i;p".toList).map .session ++ List.replicate 7 (.take 0) ++ [.written 0] ++
    (Event.whole "#P#".toList).map .session

theorem replies_intact_polite : ∃ w : Wired, (wire plain).ReachableWhere Wired.Alone w ∧
    w.channel.texts = ["#AL#1\r\n".toList, "#AP#\r\n".toList] ∧
    w.channel.outstanding.length ≤ 1 ∧
      w.channel.wire <+: w.channel.texts.flatten ∧
      (w.channel.outstanding = [] → w.channel.wire = w.channel.texts.flatten) ∧
      ∀ e w' out, (wire plain).step w e = some (w', out) → w.Alone e w' →
        w.channel.outstanding ≠ [] →
        w'.session.plugin.answerBuffer = w.session.plugin.answerBuffer := by
  have reached := Machine.ReachableWhere.along (m := wire plain) (P := Wired.Alone)
    (.init connected_fresh) politeEvents (by decide +kernel)
  exact ⟨_, reached, by decide +kernel, replies_intact reached⟩

/-- A ping comes before the reply to the login has been taken from the buffer. -/
def hastyEvents : List WireEvent :=
  (Event.whole "#L#i;p".toList ++ Event.whole "#P#".toList).map .session ++
    List.replicate 7 (.take 0)

/-- The device gets the reply to the ping in place of that to its login. -/
theorem reply_overwritten : ¬ ∀ w : Wired, (wire plain).Reachable w →
    w.channel.outstanding.length ≤ 1 ∧ w.channel.wire <+: w.channel.texts.flatten := by
  intro claimed
  have sent : ((wire plain).after connected hastyEvents).channel.outstanding.length = 2 ∧
      ((wire plain).after connected hastyEvents).channel.wire = "#AP#\r\n\n".toList := by
    decide +kernel
  have single := (claimed _ (Machine.Reachable.after connected_fresh hastyEvents)).1
  rw [sent.1] at single
  exact absurd single (by decide)

end Eiptnd.Wialon
