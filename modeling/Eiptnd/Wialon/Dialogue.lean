import Eiptnd.Wialon.Blackbox
import Eiptnd.Wialon.Grammar
import Eiptnd.Wialon.Wire

/-! The conversation with a device.

Each line has a reply that is meant for it, which depends on the line, on the login and on what
the router has answered, but on nothing else that came before. What the parser makes of a line
ends in that reply, or leaves it to the result of a record. -/
namespace Eiptnd.Wialon

open Reactive Writes

/-! ### What is meant for a line -/

/-- The command that a connection takes a line for, with the tokens of its body. -/
def addressed (opened : Bool) (line : Str) : Option (Command × List Str) :=
  match body (tokens line) with
  | none => none
  | some (cmd, record) =>
    match estimates.lookup cmd with
    | none => none
    | some (_, c) => if opened = true ∨ c = .login then some (c, record) else none

/-- A line that the device has sent, and what came of it. -/
structure Turn where
  line : Str
  /-- The results that came in before the line had been read to its end. -/
  early : List Bool
  /-- Once it has: what `authenticate` would answer. -/
  granted : Option Bool
  /-- The results that came in later. -/
  late : List Bool
  /-- The records that have been handed over for it. -/
  handed : List Tree
  deriving DecidableEq, Repr

/-- A record that is handed over on its own. -/
def Records (c : Command) (record : List Str) : Prop :=
  (c = .data ∨ c = .shortdata ∨ c = .message) ∧ record.length ≤ (fields c).length

instance (c : Command) (record : List Str) : Decidable (Records c record) :=
  inferInstanceAs (Decidable (_ ∧ _))

namespace Turn

/-- The code of the reply: a login is granted or not, a record has its result, and a package
counts the results that have come in. -/
def code (granted : Bool) (c : Command) (record : List Str) (turn : Turn) : Option Str :=
  match c with
  | .login =>
    if record.length < 2 then some "0".toList
    else if record.length = 2 then some (if granted then "1".toList else "01".toList)
    else none
  | .ping => if record.length ≤ 1 then some [] else none
  | .data | .shortdata | .message =>
    if Records c record then turn.late.head?.map fun ok => resultCode ok c else none
  | .blackbox => some (decimal turn.early.length)
  | .image => none

def reply (opened : Bool) (turn : Turn) : Option Str :=
  match turn.granted, addressed opened turn.line with
  | some granted, some (c, record) =>
    (turn.code granted c record).map fun code => (replyText c.name code).take answerCapacity
  | _, _ => none

/-- The line is a login with both its fields, and granted. -/
def opens (opened : Bool) (turn : Turn) : Bool :=
  match turn.granted, addressed opened turn.line with
  | some true, some (.login, record) => record.length == 2
  | _, _ => false

/-- The record of the line, when the reply is that it has been stored. -/
def stored (opened : Bool) (turn : Turn) : Option Tree :=
  match addressed opened turn.line with
  | some (c, record) =>
    if (c = .data ∨ c = .shortdata ∨ c = .message) ∧
        turn.reply opened = some (replyText c.name "1".toList) then some (fieldTree c record)
    else none
  | none => none

/-- A result comes in. -/
def hear (ok : Bool) (turn : Turn) : Turn :=
  match turn.granted with
  | none => { turn with early := turn.early ++ [ok] }
  | some _ => { turn with late := turn.late ++ [ok] }

/-- The line has been read, and there have been as many results as records were handed over for
it: a record on its own had its one result afterwards. -/
structure Done (opened : Bool) (turn : Turn) : Prop where
  read : turn.granted ≠ none
  heard : turn.early.length + turn.late.length = turn.handed.length
  once : ∀ c record, addressed opened turn.line = some (c, record) → Records c record →
    turn.handed = [fieldTree c record] ∧ turn.late.length = 1

end Turn

/-- Whether some turn has logged in; the last turn comes first. -/
def opens : List Turn → Bool
  | [] => false
  | turn :: before => opens before || turn.opens (opens before)

/-- The replies to the turns. -/
def meant : List Turn → List Str
  | [] => []
  | turn :: before => meant before ++ (turn.reply (opens before)).toList

/-- The records that have been stored, by the replies. -/
def stored : List Turn → List Tree
  | [] => []
  | turn :: before => stored before ++ (turn.stored (opens before)).toList

def Settled : List Turn → Prop
  | [] => True
  | turn :: before => turn.Done (opens before) ∧ Settled before

/-- A record has been stored when its result was success. -/
theorem Turn.stored_some {opened : Bool} {turn : Turn} {content : Tree}
    (stored : turn.stored opened = some content) :
    ∃ c record, addressed opened turn.line = some (c, record) ∧ Records c record ∧
      turn.granted ≠ none ∧ true ∈ turn.late ∧ content = fieldTree c record := by
  rw [Turn.stored] at stored
  split at stored
  next c record meant =>
    split at stored
    next said =>
      obtain ⟨record', said⟩ := said
      cases stored
      rw [reply, meant] at said
      split at said
      next granted c₁ record₁ read same =>
        cases same
        obtain ⟨code, made, text⟩ := Option.map_eq_some_iff.mp said
        have made : (if Records c record then turn.late.head?.map fun ok => resultCode ok c
            else none) = some code := by
          rcases record' with rfl | rfl | rfl <;> exact made
        split at made
        next taken =>
          obtain ⟨ok, first, rfl⟩ := Option.map_eq_some_iff.mp made
          refine ⟨c, record, meant, taken, by simp [read], ?_, rfl⟩
          -- No other result makes this reply.
          have yes : ok = true := by
            revert text
            rcases record' with rfl | rfl | rfl <;> cases ok <;> decide
          rw [yes] at first
          exact List.mem_of_mem_head? first
        next => cases made
      next => cases said
    next => cases stored
  next => cases stored

/-! ### The conversation -/

/-- A connection with what the device has sent on it (history). -/
structure Talk where
  wired : Wired
  turns : List Turn

structure Talk.Fresh (t : Talk) : Prop where
  wired : t.wired.Fresh
  turns : t.turns = []

/-- The current turn changes. -/
def amend (f : Turn → Turn) : List Turn → List Turn
  | [] => []
  | turn :: before => f turn :: before

/-- A token of the line has been taken, which may be the end of it. -/
def Turn.take (granted : Option Bool) (contents : List Tree) (turn : Turn) : Turn :=
  { turn with
    granted := granted
    handed := turn.handed ++ contents }

/-- What an event adds to the turns. -/
def Talk.noted (t : Talk) (out : List Effect) : WireEvent → List Turn
  | .session (.line message) => ⟨message, [], none, [], []⟩ :: t.turns
  | .session (.token granted) =>
    let read := if t.wired.session.pending = [crlf] then some granted else none
    amend (Turn.take read (deliveries out)) t.turns
  | .session (.complete _ ok) => amend (Turn.hear ok) t.turns
  | _ => t.turns

section Machine

variable (boost : Boost)

def Talk.step (t : Talk) (e : WireEvent) : Option (Talk × List Effect) :=
  match t.wired.step boost e with
  | none => none
  | some (wired, out) => some (⟨wired, t.noted out e⟩, out)

def talk : Machine Talk WireEvent Effect := ⟨Talk.Fresh, Talk.step boost⟩

end Machine

/-- The next line, in which no LF stands, comes when no record waits for its result and no reply
is on its way. -/
def Talk.Waits (t : Talk) (e : WireEvent) (_ : Talk) : Prop :=
  match e with
  | .session (.line message) =>
    '\n' ∉ message ∧ t.wired.session.jobs = [] ∧ t.wired.channel.outstanding = []
  | _ => True

instance (t : Talk) (e : WireEvent) (t' : Talk) : Decidable (t.Waits e t') := by
  unfold Talk.Waits
  split <;> infer_instance

/-- A token does the same whatever the counter, which only the first one of a line sets, and
whatever a login would come to. -/
theorem consumeToken_recount (boost : Boost) (granted granted' : Bool) {tok : Str} (notEnd : tok ≠ crlf)
    (n : Nat) (p : Plugin) : ∃ n',
      consumeToken boost granted tok { p with multicommand := n } =
        ⟨{ (consumeToken boost granted' tok p).state with multicommand := n' },
          (consumeToken boost granted' tok p).output, (consumeToken boost granted' tok p).fault⟩ ∧
      (p.state ≠ .initial → n' = n) := by
  obtain ⟨sbuf, buffer, estimate, tree, counted, authenticated, bad, state, cmd, current, trees⟩ := p
  unfold consumeToken
  rw [if_neg notEnd, if_neg notEnd]
  -- Only the first token of a line sets the counter.
  by_cases begins : state = .initial
  · subst begins
    exact ⟨0, rfl, fun later => absurd rfl later⟩
  refine ⟨n, ?_, fun _ => rfl⟩
  cases state with
  | initial => exact absurd rfl begins
  | command =>
    dsimp only [consumeCommand]
    cases estimates.lookup tok with
    | none => rfl
    | some entry =>
      dsimp only
      split <;> rfl
  | body =>
    dsimp only [consumeBody]
    split
    · cases found : estimates.lookup cmd with
      | none => simp [storeData, found, Plugin.content]
      | some entry => simp [storeData, found, Plugin.content, Plugin.newTree]
    · dsimp only [consumeField]
      split
      · simp only [Outcome.ok_andThen]
        split <;> rfl
      · split
        · rfl
        · cases tree with
          | none => rfl
          | some t =>
            simp only [Outcome.ok_andThen]
            split <;> rfl
  | hashFirst =>
    dsimp only
    split <;> rfl
  | hashSecond =>
    dsimp only
    split <;> rfl
  | bar =>
    dsimp only
    split <;> rfl
  | skipToBarOrEnd =>
    dsimp only
    split <;> rfl
  | imei => rfl
  | end_ => rfl
  | skipToEnd => rfl
  | binaryData => rfl

/-! ### Where a line leads -/

section Line

variable {boost : Boost} {granted opened : Bool} {line : Str} {c : Command} {record : List Str}
  {p q : Plugin}

theorem addressed_of_body (found : body (tokens line) = some (c.name, record))
    (allowed : opened = true ∨ c = .login) : addressed opened line = some (c, record) := by
  obtain ⟨estimate, known⟩ := c.known
  rw [addressed, found]
  dsimp only
  rw [known]
  exact if_pos allowed

theorem addressed_none (unnamed : ∀ cmd record estimate c, body (tokens line) = some (cmd, record) →
    estimates.lookup cmd = some (estimate, c) → opened = false ∧ c ≠ .login) :
    addressed opened line = none := by
  rw [addressed]
  split
  · rfl
  next cmd record found =>
    split
    · rfl
    next estimate c known =>
      obtain ⟨closed, other⟩ := unnamed _ _ _ _ found known
      exact if_neg (by simp [closed, other])

/-- What the tokens of a whole line have led to. -/
inductive Stops (opened : Bool) (line : Str) (q : Plugin) : Prop
  | idle : addressed opened line = none → Idle opened q → Stops opened line q
  | package {record : List Str} : addressed opened line = some (.blackbox, record) →
      InPackage opened q → Stops opened line q
  | filled {c : Command} {record : List Str} : addressed opened line = some (c, record) →
      c ≠ .blackbox → record ≠ [] → Filled opened c record q → Stops opened line q

theorem tokens_stop (clean : crlf ∉ tokens line) (here : p.state = .initial) :
    (consumeTokens boost granted (tokens line) p).fault = none ∧
      Stops p.authenticated line (consumeTokens boost granted (tokens line) p).state := by
  cases line_starts boost granted clean here with
  | idle idle unnamed => exact ⟨idle.returned, .idle (addressed_none unnamed) idle.holds⟩
  | @named cmd record estimate c q found known allowed inside filling rest =>
    rw [estimates_named known] at found
    have clean' : crlf ∉ record := by
      obtain ⟨start, shape⟩ := body_eq_some.mp found
      intro member
      exact clean (by simp [shape, member])
    have meant := addressed_of_body found allowed
    rw [rest]
    by_cases blackbox : c = .blackbox
    · subst blackbox
      have package : InPackage p.authenticated q := by
        obtain ⟨currentCmd, cmd', estimate', -, authenticated, t, tree, -⟩ := filling
        exact ⟨Or.inl inside, currentCmd, cmd', estimate'.le, by simp [tree], authenticated⟩
      have ended := package_tokens boost granted clean' package
      exact ⟨ended.returned, .package meant ended.holds⟩
    · have filled : Filled p.authenticated c [] q :=
        .short inside (Nat.lt_of_lt_of_le Nat.one_pos (Nat.le_max_left _ _)) filling
      have ended := fill_tokens boost granted clean' blackbox filled
      exact ⟨ended.returned, .filled meant blackbox (body_ne_nil found) ended.holds⟩

/-- The counter of a package is its own affair. -/
theorem Stops.recount (stops : Stops opened line q) (n : Nat) :
    Stops opened line { q with multicommand := n } := by
  have filling {c : Command} {record : List Str} (filling : Filling opened c record q) :
      Filling opened c record { q with multicommand := n } := by
    obtain ⟨currentCmd, cmd, estimate, clean, authenticated, tree⟩ := filling
    exact ⟨currentCmd, cmd, estimate, clean, authenticated, tree⟩
  cases stops with
  | idle meant idle => exact .idle meant ⟨idle.state, idle.authenticated⟩
  | package meant inside =>
    obtain ⟨state, currentCmd, cmd, estimate, tree, authenticated⟩ := inside
    exact .package meant ⟨state, currentCmd, cmd, estimate, tree, authenticated⟩
  | filled meant other some filled =>
    apply Stops.filled meant other some
    cases filled with
    | short here short inside => exact .short here short (filling inside)
    | full here full inside => exact .full here full (filling inside)
    | long here long authenticated => exact .long here long authenticated

/-- These tokens have led the parser from a line boundary to where it is, except that the
counter may have gone up on the way. -/
def Led (boost : Boost) (opened : Bool) (consumed : List Str) (q : Plugin) : Prop :=
  ∃ start n, start.state = .initial ∧ start.authenticated = opened ∧
    (consumeTokens boost false consumed start).fault = none ∧
    q = { (consumeTokens boost false consumed start).state with multicommand := n }

theorem Led.rest (here : q.state = .initial) (login : q.authenticated = opened) :
    Led boost opened [] q := ⟨q, q.multicommand, here, login, rfl, rfl⟩

theorem Led.count {consumed : List Str} (led : Led boost opened consumed q) (n : Nat) :
    Led boost opened consumed { q with multicommand := n } := by
  obtain ⟨start, -, here, login, returned, rfl⟩ := led
  exact ⟨start, n, here, login, returned, rfl⟩

theorem Led.token {consumed : List Str} {tok : Str} (led : Led boost opened consumed q)
    (notEnd : tok ≠ crlf) (fine : (consumeToken boost granted tok q).fault = none) :
    Led boost opened (consumed ++ [tok]) (consumeToken boost granted tok q).state := by
  obtain ⟨start, n, here, login, returned, rfl⟩ := led
  obtain ⟨n', moved, -⟩ := consumeToken_recount boost granted false notEnd n
    (consumeTokens boost false consumed start).state
  rw [moved] at fine ⊢
  have fine' : (consumeToken boost false tok (consumeTokens boost false consumed start).state).fault =
      none := fine
  have one : consumeTokens boost false [tok] (consumeTokens boost false consumed start).state =
      consumeToken boost false tok (consumeTokens boost false consumed start).state :=
    Outcome.andThen_ok _
  refine ⟨start, n', here, login, ?_⟩
  rw [consumeTokens_append, Outcome.andThen_of_fault_none _ _ returned, one]
  exact ⟨fine', rfl⟩

theorem Led.stops (led : Led boost opened (tokens line) q) (clean : crlf ∉ tokens line) :
    Stops opened line q := by
  obtain ⟨start, n, here, rfl, -, rfl⟩ := led
  exact (tokens_stop clean here).2.recount n

end Line

/-! ### The end of a line -/

section End

variable {boost : Boost} {granted opened : Bool} {c : Command} {record : List Str} {turn : Turn}
  {p q : Plugin}

private theorem replies_answer {out : List Effect} {message : Str} (quiet : replies out = []) :
    replies (out ++ (answer message p).output) = [(replyText p.cmd message).take answerCapacity] := by
  rw [replies, List.filterMap_append, ← replies, ← replies, quiet, answer_replies]
  rfl

/-- What the commit of a line comes to, for its turn. -/
structure Commit (opened granted : Bool) (c : Command) (record : List Str) (turn : Turn)
    (r : Result) : Prop where
  replies : replies r.output = ((turn.code granted c record).map fun code =>
    (replyText c.name code).take answerCapacity).toList
  login : r.state.authenticated = (opened || granted && c == .login && record.length == 2)
  handed : deliveries r.output = if Records c record then [fieldTree c record] else []

/-- What was put out in front of it, by an error, does not count. -/
private theorem Commit.behind {message : Str} (commit : Commit opened granted c record turn
    (commitCommand boost granted { p with isParserError := true })) :
    Commit opened granted c record turn
      ((parserError message p).andThen (commitCommand boost granted)) := by
  obtain ⟨replies, login, handed⟩ := commit
  rw [parserError, Outcome.emit_andThen]
  exact ⟨replies, login, handed⟩

private theorem commit_turn (other : c ≠ .blackbox) (currentCmd : p.currentCmd = c)
    (cmd : p.cmd = c.name) (rooted : p.tree ≠ none) (content : p.content = fieldTree c record)
    (some : record ≠ []) (late : turn.late = []) (login : p.authenticated = opened)
    (size : p.isParserError = true ∧ record.length < max 1 (fields c).length ∨
      p.isParserError = false ∧ record.length = max 1 (fields c).length) :
    Commit opened granted c record turn (commitCommand boost granted p) := by
  obtain ⟨t, tree⟩ := Option.ne_none_iff_exists'.mp rooted
  have nonempty := List.length_pos_of_ne_nil some
  have stores (stored : c = .data ∨ c = .shortdata ∨ c = .message) :
      Commit opened granted c record turn (commitCommand boost granted p) := by
    have committed : commitCommand boost granted p = storeData p := by
      rcases stored with rfl | rfl | rfl <;> simp only [commitCommand, tree, currentCmd]
    have taken : Records c record := by
      have small : record.length ≤ max 1 (fields c).length := by
        rcases size with ⟨-, short⟩ | ⟨-, full⟩
        · exact short.le
        · exact full.le
      refine ⟨stored, ?_⟩
      rcases stored with rfl | rfl | rfl <;> exact small.trans (by decide)
    rw [committed]
    refine ⟨?_, ?_, by rw [if_pos taken, ← content]; rfl⟩
    -- Its reply is made when its result comes in.
    · rcases stored with rfl | rfl | rfl <;> simp [Turn.code, late, storeData, replies]
    · rcases stored with rfl | rfl | rfl <;> simp [storeData, login]
  cases c with
  | blackbox => exact absurd rfl other
  | data => exact stores (Or.inl rfl)
  | shortdata => exact stores (Or.inr (Or.inl rfl))
  | message => exact stores (Or.inr (Or.inr rfl))
  | login =>
    have alone : ¬ Records .login record := by simp [Records]
    rcases size with ⟨bad, short⟩ | ⟨good, full⟩
    · have short : record.length < 2 := short
      have committed : commitCommand boost granted p = answer "0".toList p := by
        simp only [commitCommand, tree, currentCmd, bad, if_true]
      rw [committed]
      refine ⟨?_, ?_, by rw [if_neg alone]; rfl⟩
      · rw [answer_replies, cmd]
        simp [Turn.code, short]
      · have shorter : (record.length == 2) = false := by simp [short.ne]
        rw [shorter, Bool.and_false, Bool.or_false]
        exact login
    · have full : record.length = 2 := full
      obtain ⟨imei, password, rfl⟩ := List.length_eq_two.mp full
      have first : p.content.lookup "imei".toList = .some imei := by
        rw [content]
        rfl
      have second : p.content.lookup "password".toList = .some password := by
        rw [content]
        rfl
      have committed : commitCommand boost granted p =
          (Outcome.emit p [.authenticate imei password]).andThen (handleAuthenticate granted) := by
        simp only [commitCommand, tree, currentCmd, good, Bool.false_eq_true, if_false, first, second]
      rw [committed, Outcome.emit_andThen]
      cases granted with
      | true =>
        refine ⟨(replies_answer rfl).trans ?_, ?_, by rw [if_neg alone]; rfl⟩
        · simp [Turn.code, cmd]
        · simp [handleAuthenticate, answer]
      | false =>
        refine ⟨(replies_answer rfl).trans ?_, ?_, by rw [if_neg alone]; rfl⟩
        · simp [Turn.code, cmd]
        · simp [handleAuthenticate, answer, login]
  | ping =>
    have alone : ¬ Records .ping record := by simp [Records]
    have small : record.length ≤ 1 := by
      rcases size with ⟨-, short⟩ | ⟨-, full⟩
      · exact short.le
      · exact full.le
    have committed : commitCommand boost granted p = answer [] p := by
      simp only [commitCommand, tree, currentCmd]
    rw [committed]
    refine ⟨?_, by simp [answer, login], by rw [if_neg alone]; rfl⟩
    rw [answer_replies, cmd]
    simp [Turn.code, small]
  | image =>
    have alone : ¬ Records .image record := by simp [Records]
    have silent : (commitCommand boost granted p).output = [] ∧
        (commitCommand boost granted p).state.authenticated = opened := by
      simp only [commitCommand, tree, currentCmd]
      split
      · exact ⟨rfl, login⟩
      · split
        · exact ⟨rfl, login⟩
        · exact ⟨rfl, login⟩
    refine ⟨by rw [silent.1]; rfl, ?_, by rw [if_neg alone, silent.1]; rfl⟩
    rw [silent.2]
    simp

/-- A line with too many fields has no reply. -/
private theorem code_long (other : c ≠ .blackbox) (long : max 1 (fields c).length < record.length) :
    turn.code granted c record = none := by
  have more : 1 < record.length := (Nat.le_max_left _ _).trans_lt long
  have beyond : (fields c).length < record.length := (Nat.le_max_right _ _).trans_lt long
  have unrecorded : ¬ Records c record := fun taken => absurd taken.2 (Nat.not_le.mpr beyond)
  cases c with
  | blackbox => exact absurd rfl other
  | image => rfl
  | ping => exact if_neg (Nat.not_le.mpr more)
  | login =>
    have beyond : 2 < record.length := beyond
    rw [Turn.code]
    simp only [Nat.not_lt.mpr beyond.le, beyond.ne', if_false]
  | data => exact if_neg unrecorded
  | shortdata => exact if_neg unrecorded
  | message => exact if_neg unrecorded

private theorem opens_eq {line : Str} {early late : List Bool} {handed : List Tree}
    (meant : addressed opened line = some (c, record)) :
    Turn.opens opened ⟨line, early, some granted, late, handed⟩ =
      (granted && c == .login && record.length == 2) := by
  cases granted <;> cases c <;> simp [Turn.opens, meant]

/-- What is left to come for a line when it has been read. -/
inductive Leaves (opened : Bool) (line : Str) (r : Result) : Prop
  | nothing : deliveries r.output = [] →
      (∀ c record, addressed opened line = some (c, record) → ¬ Records c record) → Leaves opened line r
  | package {record : List Str} : addressed opened line = some (.blackbox, record) →
      r.state.currentCmd = .blackbox → Leaves opened line r
  | result {c : Command} {record : List Str} : addressed opened line = some (c, record) →
      Records c record → deliveries r.output = [fieldTree c record] → r.state.currentCmd = c →
      r.state.cmd = c.name → Leaves opened line r

private theorem quiet_replies {out : List Effect} (quiet : ∀ effect ∈ out, effect.Quiet) :
    replies out = [] ∧ deliveries out = [] := by
  constructor
  · apply List.filterMap_eq_nil_iff.mpr
    intro effect member
    have silent := quiet effect member
    cases effect <;> simp_all [Effect.Quiet, Effect.call]
  · apply List.filterMap_eq_nil_iff.mpr
    intro effect member
    have silent := quiet effect member
    cases effect <;> simp_all [Effect.Quiet, Effect.call]

/-- The end of a line makes the reply that is meant for it, or leaves it to the result. -/
theorem Stops.ends {line : Str} (stops : Stops opened line q) {early : List Bool} {handed : List Tree}
    (counted : ∀ record, addressed opened line = some (.blackbox, record) →
      q.multicommand = early.length) :
    replies (consumeEnd boost granted q).output =
        (Turn.reply opened ⟨line, early, some granted, [], handed⟩).toList ∧
      (consumeEnd boost granted q).state.authenticated =
        (opened || Turn.opens opened ⟨line, early, some granted, [], handed⟩) ∧
      Leaves opened line (consumeEnd boost granted q) := by
  cases stops with
  | idle meant idle =>
    obtain ⟨-, quiet, login⟩ := idle_end boost granted idle
    obtain ⟨silent, unstored⟩ := quiet_replies quiet
    refine ⟨by simp [silent, Turn.reply, meant], by simp [login, Turn.opens, meant],
      .nothing unstored ?_⟩
    intro c record found
    rw [meant] at found
    cases found
  | @package record meant inside =>
    have login := (package_end boost granted inside).holds
    refine ⟨?_, by simp [login, Turn.opens, meant], .package meant ?_⟩
    · have acknowledged := commitCommand_blackbox boost granted inside.currentCmd inside.tree
      have here := inside.state
      have cases := endOfLine_cases boost granted q
      rw [consumeEnd_output]
      generalize endOfLine boost granted q = r at cases
      have said : (replyText q.cmd (decimal q.multicommand)).take answerCapacity =
          (replyText Command.blackbox.name (decimal early.length)).take answerCapacity := by
        rw [inside.cmd, counted record meant]
        rfl
      cases cases with
      | cut message _ other => exact absurd inside.currentCmd other
      | last =>
        rw [storeData, Outcome.emit_andThen, acknowledged]
        dsimp only
        rw [replies_answer rfl, said]
        simp [Turn.reply, meant, Turn.code]
      | done =>
        rw [acknowledged, answer_replies, said]
        simp [Turn.reply, meant, Turn.code]
      | misplaced _ misplaced => rcases misplaced with at_ | at_ | at_ <;> simp [at_] at here
      | idle idle => rcases idle with at_ | at_ | at_ | at_ <;> simp [at_] at here
    · exact (consumeEnd_kept boost granted q).currentCmd.trans inside.currentCmd
  | @filled c record meant other nonempty filled =>
    have kept := consumeEnd_kept boost granted q
    -- A line that was not too long is committed, and all follows from that.
    have committed (inside : q.currentCmd = c ∧ q.cmd = c.name)
        (commit : Commit opened granted c record ⟨line, early, some granted, [], handed⟩
          (endOfLine boost granted q)) :
        replies (consumeEnd boost granted q).output =
            (Turn.reply opened ⟨line, early, some granted, [], handed⟩).toList ∧
          (consumeEnd boost granted q).state.authenticated =
            (opened || Turn.opens opened ⟨line, early, some granted, [], handed⟩) ∧
          Leaves opened line (consumeEnd boost granted q) := by
      obtain ⟨replies, login, delivered⟩ := commit
      refine ⟨?_, ?_, ?_⟩
      · rw [consumeEnd_output, replies]
        simp only [Turn.reply, meant]
      · rw [consumeEnd_authenticated, login, opens_eq meant]
      · rw [← consumeEnd_output boost granted q] at delivered
        by_cases taken : Records c record
        · rw [if_pos taken] at delivered
          exact .result meant taken delivered (kept.currentCmd.trans inside.1) (kept.cmd.trans inside.2)
        · rw [if_neg taken] at delivered
          apply Leaves.nothing delivered
          intro c' record' found
          rw [meant] at found
          cases found
          exact taken
    cases filled with
    | short here short inside =>
      obtain ⟨currentCmd, cmd, -, -, login, t, tree, stored⟩ := inside
      apply committed ⟨currentCmd, cmd⟩
      have cut : ∃ message, endOfLine boost granted q =
          (parserError message q).andThen (commitCommand boost granted) := by
        simp only [endOfLine, here, currentCmd, ne_eq, other, not_false_eq_true, if_true]
        exact ⟨_, rfl⟩
      obtain ⟨message, cut⟩ := cut
      rw [cut]
      apply Commit.behind
      exact commit_turn other currentCmd cmd (by simp [tree]) (by simp [Plugin.content, tree, stored])
        nonempty rfl login (Or.inl ⟨rfl, short⟩)
    | full here full inside =>
      obtain ⟨currentCmd, cmd, -, clean, login, t, tree, stored⟩ := inside
      apply committed ⟨currentCmd, cmd⟩
      have done : endOfLine boost granted q = commitCommand boost granted q := by
        simp only [endOfLine, here]
      rw [done]
      exact commit_turn other currentCmd cmd (by simp [tree]) (by simp [Plugin.content, tree, stored])
        nonempty rfl login (Or.inr ⟨clean, full⟩)
    | long here long login =>
      have idle : Idle opened q := ⟨by simp [here], login⟩
      obtain ⟨-, quiet, login'⟩ := idle_end boost granted idle
      obtain ⟨silent, unstored⟩ := quiet_replies quiet
      have untaken : ¬ Records c record := by
        rintro ⟨-, size⟩
        omega
      refine ⟨?_, ?_, .nothing unstored ?_⟩
      · rw [silent]
        simp [Turn.reply, meant, code_long other long]
      · rw [login', opens_eq meant]
        have unfit : (c == .login && record.length == 2) = false := by
          by_contra both
          simp only [Bool.not_eq_false, Bool.and_eq_true, beq_iff_eq] at both
          obtain ⟨rfl, two⟩ := both
          rw [two] at long
          exact absurd long (by decide)
        rw [Bool.and_assoc, unfit, Bool.and_false, Bool.or_false]
      · intro c' record' found
        rw [meant] at found
        cases found
        exact untaken

end End

end Eiptnd.Wialon
