import Eiptnd.Wialon.Dialogue

/-! A device that waits for its reply.

Between two lines nothing is under way. While a line is read only the records of a package are
handed over; afterwards at most one record waits, or the results of a package come in late. -/
namespace Eiptnd.Wialon

open Reactive Writes

/-! ### Reading a line -/

/-- Only the records of a package are handed over before the end of the line. -/
def Ahead (handed : List Tree) (q : Plugin) : Prop :=
  handed ≠ [] → q.currentCmd = .blackbox ∧
    (q.state = .body ∨ q.state = .bar ∨ q.state = .skipToBarOrEnd)

section Token

variable {boost : Boost} {granted : Bool} {tok : Str} {consumed : List Str} {q : Plugin}

private theorem consumeToken_unspoken (notEnd : tok ≠ crlf) :
    replies (consumeToken boost granted tok q).output = [] := by
  have step := consumeToken_cases boost granted notEnd q
  generalize consumeToken boost granted tok q = r at step
  cases step <;> rfl

private theorem consumeToken_count (notEnd : tok ≠ crlf) :
    (consumeToken boost granted tok q).state.multicommand =
      if q.state = .initial then 0 else q.multicommand := by
  have step := consumeToken_cases boost granted notEnd q
  have begins (here : q.state = .initial) :
      (consumeToken boost granted tok q).state.multicommand = 0 := by
    simp only [consumeToken, notEnd, if_false, here]
    rfl
  split
  next here => exact begins here
  next other =>
    generalize consumeToken boost granted tok q = r at step
    cases step with
    | begun here => exact absurd here other
    | _ => rfl

private theorem Ahead.token {handed : List Tree} (ahead : Ahead handed q) (placed : Placed consumed q)
    (notEnd : tok ≠ crlf) (fine : (consumeToken boost granted tok q).fault = none) :
    Ahead (handed ++ deliveries (consumeToken boost granted tok q).output)
      (consumeToken boost granted tok q).state := by
  intro some
  have owed : handed ≠ [] ∨ deliveries (consumeToken boost granted tok q).output ≠ [] := by
    rwa [ne_eq, List.append_eq_nil_iff, not_and_or] at some
  have step := consumeToken_cases boost granted notEnd q
  generalize consumeToken boost granted tok q = r at step fine owed
  -- Where nothing is handed over, something must have been before.
  have before (quiet : deliveries r.output = []) := ahead (owed.resolve_right (not_not.mpr quiet))
  cases step with
  | begun here =>
    have inside := (before rfl).2
    simp [here] at inside
  | hashed next moves =>
    obtain ⟨package, inside⟩ := before rfl
    refine ⟨package, ?_⟩
    rcases moves with ⟨here, -⟩ | ⟨here, -⟩ | ⟨here, -⟩ | ⟨here, -, rfl⟩
    · simp [here] at inside
    · simp [here] at inside
    · simp [here] at inside
    · exact Or.inl rfl
  | refused message here =>
    have inside := (before rfl).2
    rcases here with here | here | here <;> simp [here] at inside
  | unknown message here =>
    have inside := (before rfl).2
    simp [here] at inside
  | barred estimate cmd here =>
    have inside := (before rfl).2
    simp [here] at inside
  | named estimate cmd here =>
    have inside := (before rfl).2
    simp [here] at inside
  | recorded estimate cmd here blackbox _ known =>
    have active := placed.active (Or.inr (Or.inl here))
    obtain ⟨estimate', known'⟩ := active.known
    rw [known] at known'
    cases known'
    exact ⟨blackbox, Or.inl here⟩
  | field estimate trees next _ moves =>
    obtain ⟨package, -⟩ := before rfl
    refine ⟨package, ?_⟩
    rcases moves with rfl | ⟨-, other⟩ | ⟨rfl, -⟩
    · exact Or.inl rfl
    · exact absurd package other
    · exact Or.inr (Or.inl rfl)
  | separated here =>
    rw [Placed, here] at placed
    exact ⟨placed.2, Or.inl rfl⟩
  | overlong message here =>
    rw [Placed, here] at placed
    exact ⟨placed.2, Or.inr (Or.inr rfl)⟩
  | skipped => exact before rfl
  | failed => cases fine
  | unfiled => cases fine

end Token

/-- A line is being read. -/
structure Talk.Reading (boost : Boost) (t : Talk) (turn : Turn) (before : List Turn)
    (rest : List Str) : Prop where
  turns : t.turns = turn :: before
  unread : turn.granted = none ∧ turn.late = []
  settled : Settled before
  alone : t.wired.channel.outstanding = []
  clean : crlf ∉ tokens turn.line
  pending : t.wired.session.pending = rest ++ [crlf]
  split : tokens turn.line = t.wired.session.consumed ++ rest
  led : Led boost (opens before) t.wired.session.consumed t.wired.session.plugin
  ahead : Ahead turn.handed t.wired.session.plugin
  owed : t.wired.session.jobs.length + turn.early.length = turn.handed.length
  counted : if t.wired.session.consumed = [] then t.wired.session.jobs = [] ∧ turn.early = []
    else t.wired.session.plugin.multicommand = turn.early.length

/-- The connection in the course of a turn. -/
inductive Talk.Phase (boost : Boost) (t : Talk) : Prop
  | rest : t.wired.session.pending = [] → t.wired.session.jobs = [] → Settled t.turns →
      t.wired.session.plugin.authenticated = opens t.turns → Phase boost t
  | reading {turn : Turn} {before : List Turn} {rest : List Str} :
      t.Reading boost turn before rest → Phase boost t
  -- A package has been acknowledged, and its results come in one after the other.
  | package {turn : Turn} {before : List Turn} {record : List Str} : t.turns = turn :: before →
      addressed (opens before) turn.line = some (.blackbox, record) → turn.granted ≠ none →
      t.wired.session.jobs.length + (turn.early.length + turn.late.length) = turn.handed.length →
      Settled before → t.wired.session.pending = [] →
      t.wired.session.plugin.currentCmd = .blackbox →
      t.wired.session.plugin.authenticated = opens t.turns → Phase boost t
  -- A record waits for its result, and the device for the reply.
  | result {turn : Turn} {before : List Turn} {c : Command} {record : List Str} {job : Job} :
      t.turns = turn :: before → addressed (opens before) turn.line = some (c, record) →
      Records c record → turn.granted ≠ none → turn.early = [] → turn.late = [] →
      turn.handed = [fieldTree c record] → Settled before →
      t.wired.session.pending = [] → t.wired.session.jobs = [job] →
      t.wired.channel.outstanding = [] → t.wired.session.plugin.currentCmd = c →
      t.wired.session.plugin.cmd = c.name →
      t.wired.session.plugin.authenticated = opens t.turns → Phase boost t

structure Talk.Sound (boost : Boost) (t : Talk) : Prop where
  intact : t.wired.channel.Intact t.wired.session.plugin.answerBuffer
  texts : t.wired.channel.texts = meant t.turns
  phase : t.wired.session.crashed = false → t.Phase boost

/-! ### The events -/

section Steps

variable {boost : Boost} {t : Talk} {turn : Turn} {before : List Turn} {rest : List Str}

/-- Between two lines on which nothing waits, every turn is done. -/
theorem Talk.Phase.settled (phase : t.Phase boost) (idle : t.wired.session.pending = [])
    (none : t.wired.session.jobs = []) :
    Settled t.turns ∧ t.wired.session.plugin.authenticated = opens t.turns := by
  cases phase with
  | rest _ _ settled login => exact ⟨settled, login⟩
  | reading reading =>
    have pending := reading.pending
    rw [idle] at pending
    simp at pending
  | package turns meant read owed settled _ _ login =>
    refine ⟨?_, login⟩
    rw [none, List.length_nil, Nat.zero_add] at owed
    rw [turns]
    refine ⟨⟨read, owed, ?_⟩, settled⟩
    intro c record found taken
    rw [meant] at found
    cases found
    -- A package is no record on its own.
    rcases taken.1 with other | other | other <;> cases other
  | result _ _ _ _ _ _ _ _ _ one =>
    rw [none] at one
    cases one

/-- What is on its way when a reply has been made, or none. -/
private theorem outstanding_said {channel : Channel Char} {texts : List Str} (none : texts = []) :
    (texts.foldl (fun c text => c.start text) channel) = channel := by rw [none]; rfl

private theorem texts_said {channel : Channel Char} (reply : Option Str) :
    (reply.toList.foldl (fun c text => c.start text) channel).texts =
      channel.texts ++ reply.toList := by
  cases reply with
  | none => exact (List.append_nil _).symm
  | some text => rfl

/-- The device begins a turn. -/
private theorem Talk.Phase.line (phase : t.Phase boost) (here : t.wired.session.plugin.state = .initial)
    (between : t.wired.session.consumed = []) {message : Str}
    (idle : t.wired.session.pending = []) (unended : Lines.Open '\r' '\n' message)
    (jobs : t.wired.session.jobs = []) (alone : t.wired.channel.outstanding = []) :
    Talk.Reading boost
      ⟨⟨{ t.wired.session with pending := tokens message ++ [crlf] }, t.wired.channel⟩,
        ⟨message, [], none, [], []⟩ :: t.turns⟩ ⟨message, [], none, [], []⟩ t.turns
        (tokens message) := by
  have begun := phase.settled idle jobs
  refine ⟨rfl, ⟨rfl, rfl⟩, begun.1, alone, tokens_crlf unended, rfl, ?_, ?_, ?_, ?_, ?_⟩
  · dsimp only
    rw [between]
    rfl
  · dsimp only
    rw [between]
    exact .rest here begun.2
  · exact fun some => absurd rfl some
  · dsimp only
    rw [jobs]
    rfl
  · dsimp only
    rw [if_pos between]
    exact ⟨jobs, rfl⟩

/-- A token within the line. -/
private theorem Talk.Reading.token {granted : Bool} {tok : Str}
    (reading : t.Reading boost turn before (tok :: rest)) (parsing : t.wired.session.Parsing)
    (fine : (t.wired.session.take boost granted tok (rest ++ [crlf])).1.crashed = false) :
    Talk.Reading boost
      ⟨⟨(t.wired.session.take boost granted tok (rest ++ [crlf])).1, t.wired.channel⟩,
        turn.take none (deliveries (consumeToken boost granted tok t.wired.session.plugin).output) ::
          before⟩
      (turn.take none (deliveries (consumeToken boost granted tok t.wired.session.plugin).output))
      before rest := by
  obtain ⟨turns, unread, settled, alone, clean, pending, split, led, ahead, owed, counted⟩ := reading
  have notEnd : tok ≠ crlf := by
    rintro rfl
    exact clean (by rw [split]; simp)
  have returned : (consumeToken boost granted tok t.wired.session.plugin).fault = none := by
    simpa [Session.take, Option.isSome_eq_false_iff] using fine
  have longer : (t.wired.session.take boost granted tok (rest ++ [crlf])).1.consumed =
      t.wired.session.consumed ++ [tok] := if_neg notEnd
  refine ⟨rfl, ⟨rfl, unread.2⟩, settled, alone, clean, rfl, ?_, ?_, ?_, ?_, ?_⟩
  · rw [longer, Turn.take, split]
    simp
  · rw [longer]
    exact led.token notEnd returned
  · exact ahead.token parsing.placed notEnd returned
  · -- Every record handed over is a call that waits for its result.
    simp only [Turn.take, Session.take, Session.called, List.length_append, List.length_map, ← owed]
    omega
  · -- The counter is reset by the first token of the line only.
    rw [longer, if_neg (by simp), Turn.take]
    have count := @consumeToken_count boost granted tok t.wired.session.plugin notEnd
    change (consumeToken boost granted tok t.wired.session.plugin).state.multicommand = _
    rw [count]
    by_cases first : t.wired.session.consumed = []
    · rw [if_pos first] at counted
      have placed := parsing.placed
      rw [first] at placed
      rw [if_pos (placed_nil.mp placed), counted.2]
      rfl
    · rw [if_neg first] at counted
      have later : t.wired.session.plugin.state ≠ .initial := by
        intro here
        have placed := parsing.placed
        rw [Placed, here] at placed
        exact first placed
      rw [if_neg later, counted]

/-- A result for a record of a package whose line has not ended. -/
private theorem Talk.Reading.complete {place : Nat} {job : Job} {ok : Bool}
    (reading : t.Reading boost turn before rest) (found : t.wired.session.jobs[place]? = some job) :
    replies (handleProcessData ok t.wired.session.plugin).output = [] ∧
    Talk.Reading boost
      ⟨⟨(t.wired.session.complete place job ok).1, t.wired.channel⟩,
        { turn with early := turn.early ++ [ok] } :: before⟩ { turn with early := turn.early ++ [ok] }
      before rest := by
  obtain ⟨turns, unread, settled, alone, clean, pending, split, led, ahead, owed, counted⟩ := reading
  have bound := (List.getElem?_eq_some_iff.mp found).1
  have some : t.wired.session.jobs ≠ [] := by
    intro none
    simp [none] at found
  -- Only a package has handed over a record before its line has ended.
  have handed : turn.handed ≠ [] := by
    apply List.ne_nil_of_length_pos
    omega
  have more : t.wired.session.consumed ≠ [] := by
    intro first
    rw [if_pos first] at counted
    exact some counted.1
  rcases handleProcessData_cases ok t.wired.session.plugin with ⟨package, counts⟩ | ⟨other, -⟩
  · have next : (t.wired.session.complete place job ok).1.plugin =
        { t.wired.session.plugin with multicommand := t.wired.session.plugin.multicommand + 1 } := by
      simp only [Session.complete, counts]
      rfl
    refine ⟨by rw [counts]; rfl, rfl, unread, settled, alone, clean, pending, split, ?_, ?_, ?_, ?_⟩
    · dsimp only
      rw [next]
      exact led.count _
    · intro _
      dsimp only
      rw [next]
      exact ahead handed
    · have left := List.length_eraseIdx_of_lt bound
      rw [List.length_append, List.length_singleton, ← owed]
      simp only [Session.complete, left]
      omega
    · rw [if_neg more] at counted
      refine (if_neg more).mpr ?_
      dsimp only
      rw [next]
      simp [counted]
  · exact absurd (ahead handed).1 other

/-- Records that wait at the end of a line are those of a package. -/
private theorem Stops.package_of_ahead {opened : Bool} {line : Str} {q : Plugin}
    (stops : Stops opened line q) (package : q.currentCmd = .blackbox)
    (inside : q.state = .body ∨ q.state = .bar ∨ q.state = .skipToBarOrEnd) :
    ∃ record, addressed opened line = some (.blackbox, record) := by
  cases stops with
  | idle _ idle =>
    have here := idle.state
    rcases inside with inside | inside | inside <;> simp [inside] at here
  | package meant => exact ⟨_, meant⟩
  | filled meant other _ filled =>
    cases filled with
    | short _ _ filling => exact absurd (filling.currentCmd.symm.trans package) other
    | full here => rcases inside with inside | inside | inside <;> simp [inside] at here
    | long here => rcases inside with inside | inside | inside <;> simp [inside] at here

/-- At the end of a line its tokens have led the parser there, and the counter is that of the
results that have come in. -/
private theorem Talk.Reading.stops (reading : t.Reading boost turn before []) :
    Stops (opens before) turn.line t.wired.session.plugin ∧ ∀ record,
      addressed (opens before) turn.line = some (.blackbox, record) →
        t.wired.session.plugin.multicommand = turn.early.length := by
  have whole : t.wired.session.consumed = tokens turn.line := by
    rw [reading.split, List.append_nil]
  have led := reading.led
  have counted := reading.counted
  rw [whole] at led counted
  refine ⟨led.stops reading.clean, fun record found => ?_⟩
  have some : tokens turn.line ≠ [] := by
    intro none
    rw [addressed, none] at found
    cases found
  rwa [if_neg some] at counted

/-- Where the records of a line have all been handed over, it is a package. -/
private theorem Talk.Reading.packaged (reading : t.Reading boost turn before [])
    (handed : turn.handed ≠ []) :
    ∃ record, addressed (opens before) turn.line = some (.blackbox, record) := by
  obtain ⟨package, inside⟩ := reading.ahead handed
  exact reading.stops.1.package_of_ahead package inside

/-- The record of a line is handed over at its end, and nothing before it. -/
theorem Talk.Reading.hands {granted : Bool} {c : Command} {record : List Str}
    (reading : t.Reading boost turn before [])
    (meant : addressed (opens before) turn.line = some (c, record)) (taken : Records c record) :
    turn.handed = [] ∧ deliveries (consumeToken boost granted crlf t.wired.session.plugin).output =
      [fieldTree c record] := by
  obtain ⟨stops, counts⟩ := reading.stops
  obtain ⟨-, -, leaves⟩ := @Stops.ends boost granted _ _ _ stops turn.early turn.handed counts
  have other : c ≠ .blackbox := by rcases taken.1 with rfl | rfl | rfl <;> decide
  have ending : consumeToken boost granted crlf t.wired.session.plugin =
      consumeEnd boost granted t.wired.session.plugin := if_pos rfl
  constructor
  · by_contra some
    obtain ⟨record', meant'⟩ := reading.packaged some
    rw [meant] at meant'
    cases meant'
    exact other rfl
  · rw [ending]
    cases leaves with
    | nothing _ none => exact absurd taken (none c record meant)
    | package meant' =>
      rw [meant] at meant'
      cases meant'
      exact absurd rfl other
    | result meant' _ only =>
      rw [meant] at meant'
      cases meant'
      exact only

/-- The line ends. -/
private theorem Talk.Reading.ends {granted : Bool} (reading : t.Reading boost turn before []) :
    replies (consumeToken boost granted crlf t.wired.session.plugin).output =
        (Turn.reply (opens before) (turn.take (some granted)
          (deliveries (consumeToken boost granted crlf t.wired.session.plugin).output))).toList ∧
      ((t.wired.session.take boost granted crlf []).1.crashed = false → Talk.Phase boost
        ⟨⟨(t.wired.session.take boost granted crlf []).1,
          (replies (consumeToken boost granted crlf t.wired.session.plugin).output).foldl
            (fun c text => c.start text) t.wired.channel⟩,
          turn.take (some granted)
            (deliveries (consumeToken boost granted crlf t.wired.session.plugin).output) :: before⟩) := by
  obtain ⟨stops, counts⟩ := reading.stops
  have packaged := reading.packaged
  have hands {c : Command} {record : List Str} :=
    @Talk.Reading.hands boost t turn before granted c record reading
  obtain ⟨turns, unread, settled, alone, -, -, -, -, ahead, owed, -⟩ := reading
  obtain ⟨line, early, granted', late, handed⟩ := turn
  obtain ⟨rfl, rfl⟩ : granted' = none ∧ late = [] := unread
  have ending : consumeToken boost granted crlf t.wired.session.plugin =
      consumeEnd boost granted t.wired.session.plugin := if_pos rfl
  rw [ending]
  obtain ⟨said, login, leaves⟩ := @Stops.ends boost granted _ _ _ stops early
    (handed ++ deliveries (consumeEnd boost granted t.wired.session.plugin).output) counts
  refine ⟨said, fun _ => ?_⟩
  have plugin : (t.wired.session.take boost granted crlf []).1.plugin =
      (consumeEnd boost granted t.wired.session.plugin).state := congrArg Outcome.state ending
  have jobs : (t.wired.session.take boost granted crlf []).1.jobs = t.wired.session.jobs ++
      t.wired.session.called (consumeEnd boost granted t.wired.session.plugin).output := by
    rw [← ending]
    rfl
  have login' : (t.wired.session.take boost granted crlf []).1.plugin.authenticated =
      opens (⟨line, early, some granted, [], handed ++
        deliveries (consumeEnd boost granted t.wired.session.plugin).output⟩ :: before) := by
    rw [plugin, login]
    rfl
  have owed' : (t.wired.session.take boost granted crlf []).1.jobs.length + (early.length + 0) =
      (handed ++ deliveries (consumeEnd boost granted t.wired.session.plugin).output).length := by
    rw [jobs, List.length_append, Session.called, List.length_map, List.length_append, ← owed]
    dsimp only
    omega
  cases leaves with
  | nothing quiet unnamed =>
    by_cases none : handed = []
    · -- Nothing has been handed over, and so nothing waits.
      subst none
      have idle : t.wired.session.jobs = [] ∧ early = [] := by
        rw [← List.length_eq_zero_iff, ← List.length_eq_zero_iff]
        exact Nat.add_eq_zero_iff.mp owed
      rw [quiet]
      refine .rest rfl ?_ ⟨⟨by simp [Turn.take], ?_, ?_⟩, settled⟩ ?_
      · dsimp only
        rw [jobs, idle.1, Session.called, quiet]
        rfl
      · rw [Turn.take, idle.2]
        rfl
      · exact fun c record meant taken => absurd taken (unnamed c record meant)
      · rw [quiet] at login'
        exact login'
    · obtain ⟨record, meant⟩ := packaged none
      obtain ⟨package, -⟩ := ahead none
      refine .package rfl meant (by simp [Turn.take]) owed' settled rfl ?_ login'
      dsimp only
      rw [plugin, (consumeEnd_kept boost granted t.wired.session.plugin).currentCmd, package]
  | package meant package =>
    refine .package rfl meant (by simp [Turn.take]) owed' settled rfl ?_ login'
    dsimp only
    rw [plugin, package]
  | @result c record meant taken only current named =>
    obtain rfl : handed = [] := (hands meant taken).1
    have idle : t.wired.session.jobs = [] ∧ early = [] := by
      rw [← List.length_eq_zero_iff, ← List.length_eq_zero_iff]
      exact Nat.add_eq_zero_iff.mp owed
    -- The reply is made when the result comes in.
    have silent : replies (consumeEnd boost granted t.wired.session.plugin).output = [] := by
      rw [said]
      simp only [Turn.reply, meant]
      rcases taken.1 with rfl | rfl | rfl <;> simp [Turn.code]
    have waits : (t.wired.session.take boost granted crlf []).1.jobs =
        [⟨t.wired.session.line, t.wired.session.consumed[2]?.getD []⟩] := by
      rw [jobs, idle.1, Session.called, only]
      rfl
    refine .result rfl meant taken (by simp [Turn.take]) idle.2 rfl ?_ settled rfl waits ?_ ?_ ?_ login'
    · rw [Turn.take, only]
      rfl
    · dsimp only
      rw [outstanding_said silent, alone]
    · dsimp only
      rw [plugin, current]
    · dsimp only
      rw [plugin, named]

/-- The result of the one record of a line makes its reply. -/
private theorem result_said {opened : Bool} {c : Command} {record : List Str} {ok : Bool} {p : Plugin}
    (meant : addressed opened turn.line = some (c, record)) (taken : Records c record)
    (read : turn.granted ≠ none) (late : turn.late = []) (current : p.currentCmd = c)
    (named : p.cmd = c.name) :
    Turn.reply opened turn = none ∧ replies (handleProcessData ok p).output =
      (Turn.reply opened { turn with late := turn.late ++ [ok] }).toList := by
  obtain ⟨line, early, granted, _, handed⟩ := turn
  obtain ⟨granted, rfl⟩ := Option.ne_none_iff_exists'.mp read
  obtain rfl : _ = [] := late
  have other : p.currentCmd ≠ .blackbox := by
    rw [current]
    rcases taken.1 with rfl | rfl | rfl <;> decide
  obtain ⟨package, -⟩ | ⟨-, answers⟩ := handleProcessData_cases ok p
  · exact absurd package other
  rw [answers, answer_replies, current, named]
  simp only [Turn.reply, meant]
  rcases taken.1 with rfl | rfl | rfl <;> simp [Turn.code, taken]

/-- A result that comes in after the end of the line. -/
private theorem Talk.Phase.complete {place : Nat} {job : Job} {ok : Bool} {out : List Effect}
    (phase : t.Phase boost)
    (found : t.wired.session.jobs[place]? = some job) (idle : t.wired.session.pending = []) :
    (replies (handleProcessData ok t.wired.session.plugin).output = [] ∨
        t.wired.channel.outstanding = []) ∧
      meant t.turns ++ replies (handleProcessData ok t.wired.session.plugin).output =
        meant (t.noted out (.session (.complete place ok))) ∧
      Talk.Phase boost
        ⟨⟨(t.wired.session.complete place job ok).1,
          (replies (handleProcessData ok t.wired.session.plugin).output).foldl
            (fun c text => c.start text) t.wired.channel⟩,
          t.noted out (.session (.complete place ok))⟩ := by
  have bound := (List.getElem?_eq_some_iff.mp found).1
  have same := handleProcessData_counted ok t.wired.session.plugin
  have left : (t.wired.session.complete place job ok).1.jobs = t.wired.session.jobs.eraseIdx place := rfl
  have login : (t.wired.session.complete place job ok).1.plugin.authenticated =
      t.wired.session.plugin.authenticated := same.authenticated
  cases phase with
  | rest _ none =>
    rw [none] at found
    cases found
  | reading reading =>
    have pending := reading.pending
    rw [idle] at pending
    simp at pending
  | @package turn before record turns meant read owed settled _ package opened =>
    obtain ⟨line, early, granted, late, handed⟩ := turn
    obtain ⟨granted, rfl⟩ := Option.ne_none_iff_exists'.mp read
    have noted : t.noted out (.session (.complete place ok)) =
        ⟨line, early, some granted, late ++ [ok], handed⟩ :: before := by
      simp [Talk.noted, turns, amend, Turn.hear]
    have silent : replies (handleProcessData ok t.wired.session.plugin).output = [] := by
      obtain ⟨-, counts⟩ | ⟨other, -⟩ := handleProcessData_cases ok t.wired.session.plugin
      · rw [counts]
        rfl
      · exact absurd package other
    -- A package does not look at the results that come too late.
    have reply : Turn.reply (opens before) ⟨line, early, some granted, late ++ [ok], handed⟩ =
        Turn.reply (opens before) ⟨line, early, some granted, late, handed⟩ := by
      simp only [Turn.reply, meant, Turn.code]
    have opened' : opens (⟨line, early, some granted, late ++ [ok], handed⟩ :: before) =
        opens t.turns := by
      rw [turns]
      rfl
    rw [silent, noted]
    refine ⟨Or.inl rfl, ?_, .package rfl meant (by simp) ?_ settled idle ?_ ?_⟩
    · rw [turns, List.append_nil, Eiptnd.Wialon.meant, Eiptnd.Wialon.meant, reply]
    · have fewer := List.length_eraseIdx_of_lt bound
      dsimp only at owed ⊢
      rw [left, fewer, List.length_append, List.length_singleton]
      omega
    · exact same.currentCmd.trans package
    · rw [opened', ← opened]
      exact login
  | @result turn before c record job' turns meant taken read early late handed settled _ one alone
      current named opened =>
    obtain ⟨before_, said⟩ := @result_said turn _ _ _ ok _ meant taken read late current named
    have noted : t.noted out (.session (.complete place ok)) =
        { turn with late := turn.late ++ [ok] } :: before := by
      obtain ⟨granted, read⟩ := Option.ne_none_iff_exists'.mp read
      simp [Talk.noted, turns, amend, Turn.hear, read]
    have opened' : opens ({ turn with late := turn.late ++ [ok] } :: before) = opens t.turns := by
      rw [turns]
      rfl
    rw [noted]
    refine ⟨Or.inr alone, ?_, .rest idle ?_ ⟨⟨read, ?_, ?_⟩, settled⟩ ?_⟩
    · rw [said, turns, Eiptnd.Wialon.meant, Eiptnd.Wialon.meant, before_]
      simp
    · dsimp only
      rw [left]
      rw [one] at found ⊢
      -- The only job is the one that completes.
      cases place with
      | zero => rfl
      | succ place => cases found
    · simp [early, late, handed]
    · intro c' record' meant' _
      dsimp only at meant'
      rw [meant] at meant'
      cases meant'
      exact ⟨handed, by simp [late]⟩
    · rw [opened', ← opened]
      exact login

end Steps

/-! ### Every run -/

section Run

variable {boost : Boost} {t t' : Talk} {e : WireEvent} {out : List Effect}

/-- A step of the session, with the replies it makes. -/
private theorem session_moved {w w' : Wired} {e : Event}
    (moved : w.step boost (.session e) = some (w', out)) : ∃ s', w.session.step boost e = some (s', out) ∧
      w' = ⟨s', (replies out).foldl (fun c text => c.start text) w.channel⟩ := by
  rw [Wired.step] at moved
  split at moved
  · cases moved
  next s' made stepped =>
    cases moved
    exact ⟨s', stepped, rfl⟩

/-- A write that goes on changes neither the session nor the replies. -/
private theorem channel_moved {w w' : Wired} (moved : w.step boost e = some (w', out))
    (other : ∀ e', e ≠ .session e') : w'.session = w.session ∧
      w'.channel.texts = w.channel.texts ∧
      (w.channel.outstanding = [] → w'.channel.outstanding = []) := by
  cases e with
  | session e => exact absurd rfl (other e)
  | take place =>
    simp only [Wired.step, Channel.take] at moved
    split at moved
    · cases moved
    next c taken =>
      cases moved
      split at taken
      · cases taken
      next w found =>
        split at taken
        · split at taken
          · cases taken
          · cases taken
            refine ⟨rfl, rfl, fun none => ?_⟩
            simp [none] at found
        · cases taken
  | written place =>
    simp only [Wired.step, Channel.finish] at moved
    split at moved
    · cases moved
    next c done =>
      cases moved
      split at done
      · cases done
      next w found =>
        split at done
        · cases done
          refine ⟨rfl, rfl, fun none => ?_⟩
          simp [none] at found
        · cases done

/-- Nothing is on its way when a reply is made. -/
private theorem Talk.Sound.alone (sound : t.Sound boost) {w' : Wired}
    (moved : t.wired.step boost e = some (w', out)) : t.wired.Alone e w' := by
  cases e with
  | take place => exact trivial
  | written place => exact trivial
  | session e =>
    intro answers
    obtain ⟨s', stepped, rfl⟩ := session_moved moved
    obtain ⟨running, step⟩ := Session.step_cases stepped
    have phase := sound.phase running
    cases step with
    | line => exact answers.elim
    | token granted tok rest pending =>
      cases phase with
      | rest idle =>
        rw [pending] at idle
        cases idle
      | reading reading => exact reading.alone
      | package _ _ _ _ _ idle =>
        rw [pending] at idle
        cases idle
      | result _ _ _ _ _ _ _ _ idle =>
        rw [pending] at idle
        cases idle
    | complete place ok job found =>
      cases phase with
      | rest _ none =>
        rw [none] at found
        cases found
      | @reading turn _ _ reading =>
        -- The record is one of a package, which is answered at its end.
        have some : turn.handed ≠ [] := by
          have bound := (List.getElem?_eq_some_iff.mp found).1
          have owed := reading.owed
          apply List.ne_nil_of_length_pos
          omega
        exact absurd (reading.ahead some).1 answers
      | package _ _ _ _ _ _ package => exact absurd package answers
      | result _ _ _ _ _ _ _ _ _ _ alone => exact alone

private theorem Talk.Phase.moved {w' : Wired} {turns : List Turn} (phase : t.Phase boost)
    (session : w'.session = t.wired.session) (same : turns = t.turns)
    (alone : t.wired.channel.outstanding = [] → w'.channel.outstanding = []) :
    Talk.Phase boost ⟨w', turns⟩ := by
  obtain ⟨s, channel⟩ := w'
  obtain rfl : s = _ := session
  subst same
  cases phase with
  | rest idle none settled login => exact .rest idle none settled login
  | reading reading =>
    obtain ⟨turns, unread, settled, none, clean, pending, split, led, ahead, owed, counted⟩ := reading
    exact .reading
      ⟨turns, unread, settled, alone none, clean, pending, split, led, ahead, owed, counted⟩
  | package turns meant read owed settled idle package login =>
    exact .package turns meant read owed settled idle package login
  | result turns meant taken read early late handed settled idle one none current named login =>
    exact .result turns meant taken read early late handed settled idle one (alone none) current named
      login

theorem Talk.Sound.step (sound : t.Sound boost) (reached : (session boost).Reachable t.wired.session)
    (stepped : (talk boost).step t e = some (t', out)) (waits : t.Waits e t') : t'.Sound boost := by
  simp only [talk, Talk.step] at stepped
  split at stepped
  · cases stepped
  next w' made moved =>
    cases stepped
    have intact := (Wired.intact_step sound.intact moved (sound.alone moved)).1
    suffices later : w'.channel.texts = meant (t.noted out e) ∧
        (w'.session.crashed = false → Talk.Phase boost ⟨w', t.noted out e⟩) from
      ⟨intact, later.1, later.2⟩
    cases e with
    | take place =>
      obtain ⟨session, texts, alone⟩ := channel_moved moved (by simp)
      refine ⟨texts.trans sound.texts, fun alive => ?_⟩
      rw [session] at alive
      exact (sound.phase alive).moved session rfl alone
    | written place =>
      obtain ⟨session, texts, alone⟩ := channel_moved moved (by simp)
      refine ⟨texts.trans sound.texts, fun alive => ?_⟩
      rw [session] at alive
      exact (sound.phase alive).moved session rfl alone
    | session e =>
      obtain ⟨s', stepped, rfl⟩ := session_moved moved
      obtain ⟨running, step⟩ := Session.step_cases stepped
      have phase := sound.phase running
      have parsing := Session.parsing reached running
      cases step with
      | line message idle unended =>
        have between : t.wired.session.consumed = [] := by
          rcases parsing.pending with ⟨-, nothing⟩ | ⟨toks, shape, -⟩
          · exact nothing
          · simp [idle] at shape
        refine ⟨?_, fun _ => .reading (phase.line (Session.at_rest reached running idle) between idle
          unended waits.2.1 waits.2.2)⟩
        change t.wired.channel.texts = meant t.turns ++ []
        rw [List.append_nil, sound.texts]
      | token granted tok rest pending =>
        -- Tokens come in no phase but that of reading.
        obtain ⟨turn, before, toks, reading⟩ : ∃ turn before toks, t.Reading boost turn before toks := by
          cases phase with
          | rest idle =>
            rw [pending] at idle
            cases idle
          | reading reading => exact ⟨_, _, _, reading⟩
          | package _ _ _ _ _ idle =>
            rw [pending] at idle
            cases idle
          | result _ _ _ _ _ _ _ _ idle =>
            rw [pending] at idle
            cases idle
        have shape := reading.pending
        rw [pending] at shape
        cases toks with
        | nil =>
          cases shape
          obtain ⟨said, ended⟩ := @Talk.Reading.ends boost t turn before granted reading
          have noted : t.noted (consumeToken boost granted crlf t.wired.session.plugin).output
              (.session (.token granted)) = turn.take (some granted)
                (deliveries (consumeToken boost granted crlf t.wired.session.plugin).output) ::
                  before := by
            simp [Talk.noted, pending, reading.turns, amend]
          rw [noted]
          refine ⟨?_, ended⟩
          have unsaid : meant t.turns = meant before := by
            rw [reading.turns, meant, Turn.reply, reading.unread.1]
            exact List.append_nil _
          have texts := @texts_said t.wired.channel
            (Turn.reply (opens before) (turn.take (some granted)
              (deliveries (consumeToken boost granted crlf t.wired.session.plugin).output)))
          rw [← said] at texts
          rw [meant, ← unsaid, ← sound.texts]
          exact texts.trans (congrArg _ said)
        | cons tok' toks =>
          cases shape
          have notEnd : tok ≠ crlf := by
            rintro rfl
            exact reading.clean (by rw [reading.split]; simp)
          have noted : t.noted (consumeToken boost granted tok t.wired.session.plugin).output
              (.session (.token granted)) = turn.take none
                (deliveries (consumeToken boost granted tok t.wired.session.plugin).output) ::
                  before := by
            simp [Talk.noted, pending, reading.turns, amend]
          rw [noted, consumeToken_unspoken notEnd]
          refine ⟨?_, fun alive => .reading (reading.token parsing alive)⟩
          change t.wired.channel.texts = _
          rw [sound.texts, reading.turns, meant, meant, Turn.reply, Turn.reply, Turn.take,
            reading.unread.1]
      | complete place ok job found =>
        by_cases idle : t.wired.session.pending = []
        · obtain ⟨-, texts, next⟩ := @Talk.Phase.complete _ _ place job ok
            (handleProcessData ok t.wired.session.plugin).output phase found idle
          refine ⟨?_, fun _ => next⟩
          rw [← texts, ← sound.texts]
          obtain ⟨package, counts⟩ | ⟨other, answers⟩ := handleProcessData_cases ok t.wired.session.plugin
          · rw [counts]
            exact (List.append_nil _).symm
          · rw [answers, answer_replies]
            rfl
        · obtain ⟨turn, before, toks, reading⟩ :
              ∃ turn before toks, t.Reading boost turn before toks := by
            cases phase with
            | rest none => exact absurd none idle
            | reading reading => exact ⟨_, _, _, reading⟩
            | package _ _ _ _ _ none => exact absurd none idle
            | result _ _ _ _ _ _ _ _ none => exact absurd none idle
          obtain ⟨silent, next⟩ := @Talk.Reading.complete _ _ _ _ _ place job ok reading found
          have noted : t.noted (handleProcessData ok t.wired.session.plugin).output
              (.session (.complete place ok)) =
              { turn with early := turn.early ++ [ok] } :: before := by
            simp [Talk.noted, reading.turns, amend, Turn.hear, reading.unread.1]
          rw [noted, silent]
          refine ⟨?_, fun _ => .reading next⟩
          change t.wired.channel.texts = _
          rw [sound.texts, reading.turns, meant, meant, Turn.reply, Turn.reply, reading.unread.1]

theorem session_of_talk (reached : (talk boost).Reachable t) :
    (session boost).Reachable t.wired.session := by
  apply reached.invariant fun t => (session boost).Reachable t.wired.session
  · exact fun t fresh => .init fresh.wired.session
  · intro t e t' out _ before stepped
    simp only [talk, Talk.step] at stepped
    split at stepped
    · cases stepped
    next w' made moved =>
      cases stepped
      cases e with
      | session e =>
        obtain ⟨s', stepped, rfl⟩ := session_moved moved
        exact before.step stepped
      | take place => rwa [(channel_moved moved (by simp)).1]
      | written place => rwa [(channel_moved moved (by simp)).1]

theorem Talk.sound (reached : (talk boost).ReachableWhere Talk.Waits t) : t.Sound boost := by
  apply reached.invariant (Talk.Sound boost)
  · intro t fresh
    refine ⟨?_, ?_, fun _ => .rest fresh.wired.session.pending fresh.wired.session.jobs ?_ ?_⟩
    · rw [fresh.wired.channel]
      exact Channel.intact_empty
    · rw [fresh.wired.channel, fresh.turns]
      rfl
    · rw [fresh.turns]
      exact trivial
    · rw [fresh.turns]
      exact fresh.wired.session.plugin.authenticated
  · intro t e t' out before sound stepped waits
    exact sound.step (session_of_talk before) stepped waits

end Run

/-- A device that waits gets the reply that is meant for each of its lines, whole and in their
order; and when nothing is under way any more, each record has had its result and the connection
is open if a login was granted. -/
theorem answered_in_turn {boost : Boost} {t : Talk}
    (reached : (talk boost).ReachableWhere Talk.Waits t) :
    t.wired.channel.texts = meant t.turns ∧
      t.wired.channel.wire <+: (meant t.turns).flatten ∧
      (t.wired.channel.outstanding = [] → t.wired.channel.wire = (meant t.turns).flatten) ∧
      (t.wired.session.crashed = false → t.wired.session.pending = [] → t.wired.session.jobs = [] →
        Settled t.turns ∧ t.wired.session.plugin.authenticated = opens t.turns) := by
  have sound := Talk.sound reached
  have carried := sound.intact.carried
  have complete := sound.intact.complete
  rw [sound.texts] at carried complete
  exact ⟨sound.texts, carried, complete, fun alive => (sound.phase alive).settled⟩

/-- A connection just accepted, on which nothing has been said. -/
def unspoken : Talk := ⟨connected, []⟩

/-- So many bytes of a reply go out, and that is all of it. -/
def sentReply (size : Nat) : List WireEvent := List.replicate size (.take 0) ++ [.written 0]

/-- A package of two records, of which the first is through before the line has ended. -/
def halfPackage : List Event :=
  .line "#B#x|y".toList :: List.replicate 6 (.token true) ++ [.complete 0 true] ++
    List.replicate 2 (.token true)

/-- A login, a package whose second result is late, a message that is refused, a line that is
none, and a ping. -/
def patientEvents : List WireEvent :=
  (Event.whole "#L#i;p".toList).map .session ++ sentReply 7 ++ halfPackage.map .session ++
    sentReply 7 ++ [.session (.complete 0 true)] ++ (Event.whole "#M#hello".toList).map .session ++
    [.session (.complete 0 false)] ++ sentReply 7 ++ (Event.whole "?".toList).map .session ++
    (Event.whole "#P#".toList).map .session

theorem answered_in_turn_patient :
    meant ((talk plain).after unspoken patientEvents).turns =
        ["#AL#1\r\n".toList, "#AB#1\r\n".toList, "#AM#0\r\n".toList, "#AP#\r\n".toList] ∧
      ((talk plain).after unspoken patientEvents).wired.channel.wire <+:
        (meant ((talk plain).after unspoken patientEvents).turns).flatten := by
  have kept : (talk plain).along Talk.Waits unspoken patientEvents = true := by decide +kernel
  have reached := Machine.ReachableWhere.along (m := talk plain) (P := Talk.Waits)
    (.init ⟨connected_fresh, rfl⟩) patientEvents kept
  have inTurn := answered_in_turn reached
  exact ⟨by decide +kernel, inTurn.2.1⟩

end Eiptnd.Wialon
