import Eiptnd.Wialon.Exceptions

/-! Lines do not see each other.

What an earlier line has left in the members is overwritten before it is read, so that
two connections that agree on the login treat every next line alike. -/
namespace Eiptnd.Wialon

open Reactive

/-- The parser has a tree. -/
def Plugin.Rooted (p : Plugin) : Prop := ∃ t, p.tree = some t ∧ t < p.trees.length

/-- The members that the first token of a line sets are the same. -/
structure SameLine (p q : Plugin) : Prop where
  isParserError : p.isParserError = q.isParserError
  multicommand : p.multicommand = q.multicommand
  cmd : p.cmd = q.cmd
  content : p.content = q.content
  rooted : p.Rooted
  rooted' : q.Rooted

/-- The members that the command of a line sets are the same. -/
structure SameCommand (p q : Plugin) : Prop where
  currentCmd : p.currentCmd = q.currentCmd
  estimate : p.estimate = q.estimate

/-- What the next line can read. -/
abbrev SameLogin (p q : Plugin) : Prop := p.authenticated = q.authenticated

/-- Both parsers are in a command. -/
structure Inside (p q : Plugin) : Prop where
  state : p.state = q.state
  login : SameLogin p q
  line : SameLine p q
  command : SameCommand p q

/-- What the parser can still read in its state is the same. -/
structure Alike (p q : Plugin) : Prop where
  state : p.state = q.state
  login : SameLogin p q
  line : p.state ≠ .initial → SameLine p q
  command : p.state = .hashSecond ∨ p.state = .body ∨ p.state = .bar ∨
    p.state = .skipToBarOrEnd ∨ p.state = .end_ → SameCommand p q

/-- Outcomes with the same calls and related states. -/
abbrev Agree (R : Plugin → Plugin → Prop) (r r' : Result) : Prop := r.Agrees Effect.call R r'

theorem Inside.alike {p q : Plugin} (inside : Inside p q) : Alike p q :=
  ⟨inside.state, inside.login, fun _ => inside.line, fun _ => inside.command⟩

theorem SameLine.at_state {p q : Plugin} (line : SameLine p q) (next : ParserState) :
    SameLine { p with state := next } { q with state := next } :=
  ⟨line.isParserError, line.multicommand, line.cmd, line.content, line.rooted, line.rooted'⟩

theorem Inside.at_state {p q : Plugin} (inside : Inside p q) (next : ParserState) :
    Inside { p with state := next } { q with state := next } :=
  ⟨rfl, inside.login, inside.line.at_state next, inside.command.currentCmd, inside.command.estimate⟩

section Steps

variable (boost : Boost) (granted : Bool) {p q : Plugin} {tok : Str}

private theorem Plugin.newTree_rooted (p : Plugin) : p.newTree.Rooted :=
  ⟨p.trees.length, rfl, by simp [Plugin.newTree]⟩

private theorem Plugin.newTree_content (p : Plugin) : p.newTree.content = [] := by
  simp [Plugin.content, Plugin.newTree]

theorem parserError_agree {R : Plugin → Plugin → Prop} {message message' : Str}
    (related : R { p with isParserError := true } { q with isParserError := true }) :
    Agree R (parserError message p) (parserError message' q) :=
  .emit rfl related

theorem storeData_agree {R : Plugin → Plugin → Prop} (content : p.content = q.content)
    (related : R p q) : Agree R (storeData p) (storeData q) :=
  .emit (by simp [Effect.call, content]) related

/-! ### The end of a line -/

theorem answer_agree {message : Str} (login : SameLogin p q) (cmd : p.cmd = q.cmd) :
    Agree SameLogin (answer message p) (answer message q) := by
  refine ⟨rfl, ?_, fun _ => login⟩
  rw [answer_output, answer_output, cmd]

theorem handleAuthenticate_agree (login : SameLogin p q) (cmd : p.cmd = q.cmd) :
    Agree SameLogin (handleAuthenticate granted p) (handleAuthenticate granted q) := by
  unfold handleAuthenticate
  dsimp only
  split
  · exact answer_agree rfl cmd
  · exact answer_agree login cmd

theorem commitCommand_agree (inside : Inside p q) :
    Agree SameLogin (commitCommand boost granted p) (commitCommand boost granted q) := by
  obtain ⟨state, login, line, command⟩ := inside
  obtain ⟨t, tree, -⟩ := line.rooted
  obtain ⟨t', tree', -⟩ := line.rooted'
  have awaiting : ({ p with state := .binaryData } : Plugin).content = q.content := line.content
  have awaiting' : ({ q with state := .binaryData } : Plugin).content = q.content := rfl
  unfold commitCommand
  dsimp only
  -- From here on both sides ask the same questions.
  rw [awaiting, awaiting', tree, tree', command.currentCmd, line.isParserError, line.content,
    line.multicommand]
  dsimp only
  split
  · split
    · exact answer_agree login line.cmd
    · split
      next imei password _ _ =>
        have asked : Agree (fun p q => SameLogin p q ∧ p.cmd = q.cmd)
            (Outcome.emit p [.authenticate imei password])
            (Outcome.emit q [.authenticate imei password]) := .emit rfl ⟨login, line.cmd⟩
        exact asked.andThen fun _ _ both => handleAuthenticate_agree granted both.1 both.2
      · exact .fail
  · exact storeData_agree line.content login
  · exact storeData_agree line.content login
  · exact answer_agree login line.cmd
  · exact storeData_agree line.content login
  · exact answer_agree login line.cmd
  · split
    · exact .fail
    · split
      · exact .fail
      · exact .ok login

theorem endOfLine_agree (alike : Alike p q) :
    Agree SameLogin (endOfLine boost granted p) (endOfLine boost granted q) := by
  obtain ⟨state, login, line, command⟩ := alike
  have commit (p q : Plugin) (inside : Inside p q) := commitCommand_agree boost granted inside
  unfold endOfLine
  rw [← state, show q.authenticated = p.authenticated from login.symm]
  cases here : p.state with
  | body =>
    have named := command (by simp [here])
    have same := line (by simp [here])
    dsimp only
    rw [named.currentCmd]
    split
    -- The error is raised on both sides, whatever was raised before.
    · have raised : SameLine { p with isParserError := true } { q with isParserError := true } :=
        ⟨rfl, same.multicommand, same.cmd, same.content, same.rooted, same.rooted'⟩
      have command : SameCommand { p with isParserError := true } { q with isParserError := true } :=
        ⟨named.currentCmd, named.estimate⟩
      exact (parserError_agree ⟨state, login, raised, command⟩).andThen commit
    · exact (storeData_agree same.content ⟨state, login, same, named⟩).andThen commit
  | bar =>
    have same := line (by simp [here])
    exact (storeData_agree same.content ⟨state, login, same, command (by simp [here])⟩).andThen commit
  | skipToBarOrEnd => exact commit p q ⟨state, login, line (by simp [here]), command (by simp [here])⟩
  | end_ => exact commit p q ⟨state, login, line (by simp [here]), command (by simp [here])⟩
  | command =>
    dsimp only
    split <;> exact parserError_agree login
  | hashFirst => exact parserError_agree login
  | hashSecond => exact parserError_agree login
  | initial => exact .ok login
  | imei => exact .ok login
  | skipToEnd => exact .ok login
  | binaryData => exact .ok login

theorem consumeEnd_agree (alike : Alike p q) :
    Agree Alike (consumeEnd boost granted p) (consumeEnd boost granted q) :=
  (endOfLine_agree boost granted alike).andThen fun _ _ login =>
    .ok ⟨rfl, login, fun later => absurd rfl later, fun inside => by simp at inside⟩

/-! ### Any other token -/

private theorem consumeField_named {name : Str} (rooted : p.Rooted) (more : p.estimate ≠ 0)
    (named : (fields p.currentCmd)[p.estimate - 1]? = some name) :
    ∃ trees, consumeField tok p = .ok { p with estimate := p.estimate - 1, trees := trees } ∧
      ({ p with estimate := p.estimate - 1, trees := trees } : Plugin).content =
        Tree.put name tok p.content ∧
      ({ p with estimate := p.estimate - 1, trees := trees } : Plugin).Rooted := by
  obtain ⟨t, tree, bound⟩ := rooted
  refine ⟨p.trees.modify t (Tree.put name tok), ?_, ?_, t, tree, by simpa using bound⟩
  · simp [consumeField, more, named, tree]
  · simp [Plugin.content, tree, bound]

theorem consumeField_agree (inside : Inside p q) :
    Agree Inside (consumeField tok p) (consumeField tok q) := by
  obtain ⟨state, login, line, command⟩ := inside
  by_cases none : p.estimate = 0
  · have none' := command.estimate.symm.trans none
    simp only [consumeField, none, none', if_true]
    exact .ok ⟨state, login, line, command⟩
  -- The trees may have other numbers, but what is put where is the same.
  · have more : q.estimate ≠ 0 := command.estimate ▸ none
    cases named : (fields p.currentCmd)[p.estimate - 1]? with
    | none =>
      have named' : (fields q.currentCmd)[q.estimate - 1]? = .none := by
        rw [← command.currentCmd, ← command.estimate, named]
      simp only [consumeField, none, more, if_false, named, named']
      exact .fail
    | some name =>
      have named' : (fields q.currentCmd)[q.estimate - 1]? = some name := by
        rw [← command.currentCmd, ← command.estimate, named]
      obtain ⟨trees, put, content, rooted⟩ :=
        @consumeField_named p tok name line.rooted none named
      obtain ⟨trees', put', content', rooted'⟩ :=
        @consumeField_named q tok name line.rooted' more named'
      have filled : SameLine { p with estimate := p.estimate - 1, trees := trees }
          { q with estimate := q.estimate - 1, trees := trees' } :=
        ⟨line.isParserError, line.multicommand, line.cmd,
          by rw [content, content', line.content], rooted, rooted'⟩
      rw [put, put']
      exact .ok ⟨state, login, filled, command.currentCmd, congrArg (· - 1) command.estimate⟩

theorem consumeBody_agree (inside : Inside p q) :
    Agree Alike (consumeBody tok p) (consumeBody tok q) := by
  unfold consumeBody
  rw [inside.command.currentCmd]
  split
  -- The next record begins with a tree of its own on both sides.
  · apply (storeData_agree inside.line.content inside).andThen
    rintro p q ⟨state, login, line, -⟩
    cases found : estimates.lookup p.cmd with
    | none =>
      rw [← line.cmd, found]
      exact .fail
    | some entry =>
      have found' := line.cmd ▸ found
      rw [found']
      obtain ⟨estimate, currentCmd⟩ := entry
      have next : SameLine
          { p with estimate := estimate, currentCmd := currentCmd }.newTree
          { q with estimate := estimate, currentCmd := currentCmd }.newTree :=
        ⟨line.isParserError, line.multicommand, line.cmd,
          by rw [Plugin.newTree_content, Plugin.newTree_content],
          Plugin.newTree_rooted _, Plugin.newTree_rooted _⟩
      exact .ok ⟨state, login, fun _ => next, fun _ => ⟨rfl, rfl⟩⟩
  · apply (consumeField_agree inside).andThen
    intro p q inside
    have next : (if p.currentCmd ≠ Command.blackbox then ParserState.end_ else .bar) =
        if q.currentCmd ≠ Command.blackbox then .end_ else .bar := by
      rw [inside.command.currentCmd]
    by_cases complete : p.estimate = 0
    · have complete' : q.estimate = 0 := inside.command.estimate ▸ complete
      rw [next, if_pos complete, if_pos complete']
      exact .ok (inside.at_state _).alike
    · have more : q.estimate ≠ 0 := inside.command.estimate ▸ complete
      rw [if_neg complete, if_neg more]
      exact .ok inside.alike

theorem consumeCommand_agree (login : SameLogin p q) (line : SameLine p q) :
    Agree Alike (consumeCommand tok p) (consumeCommand tok q) := by
  -- From here on the name and what is known of it are the token's.
  have named (estimate : Nat) (currentCmd : Command) (next : ParserState) : Inside
      { p with cmd := tok, estimate := estimate, currentCmd := currentCmd, state := next }
      { q with cmd := tok, estimate := estimate, currentCmd := currentCmd, state := next } :=
    ⟨rfl, login, ⟨line.isParserError, line.multicommand, rfl, line.content, line.rooted,
      line.rooted'⟩, rfl, rfl⟩
  unfold consumeCommand
  dsimp only
  split
  · refine parserError_agree ⟨rfl, login, fun _ => ?_, by simp⟩
    exact ⟨rfl, line.multicommand, rfl, line.content, line.rooted, line.rooted'⟩
  next estimate currentCmd _ =>
    by_cases closed : (!p.authenticated && decide (currentCmd ≠ .login)) = true
    · rw [if_pos closed, if_pos (login ▸ closed)]
      exact .ok (named estimate currentCmd .skipToEnd).alike
    · rw [if_neg closed, if_neg (login ▸ closed)]
      exact .ok (named estimate currentCmd .hashSecond).alike

/-- The first token sets what later ones read. -/
theorem consumeInitial_agree (login : SameLogin p q) :
    Agree Alike (consumeInitial p) (consumeInitial q) := by
  refine .ok ⟨rfl, login, fun _ => ?_, by simp⟩
  refine ⟨rfl, rfl, rfl, ?_, Plugin.newTree_rooted p, Plugin.newTree_rooted q⟩
  exact (Plugin.newTree_content p).trans (Plugin.newTree_content q).symm

theorem unexpectedToken_agree {expected : Str} (login : SameLogin p q) (line : SameLine p q) :
    Agree Alike (unexpectedToken boost expected tok { p with state := .skipToEnd })
      (unexpectedToken boost expected tok { q with state := .skipToEnd }) := by
  refine parserError_agree ⟨rfl, login, fun _ => ?_, by simp⟩
  exact ⟨rfl, line.multicommand, line.cmd, line.content, line.rooted, line.rooted'⟩

theorem consumeToken_agree (alike : Alike p q) :
    Agree Alike (consumeToken boost granted tok p) (consumeToken boost granted tok q) := by
  unfold consumeToken
  split
  · exact consumeEnd_agree boost granted alike
  obtain ⟨state, login, line, command⟩ := alike
  rw [← state]
  -- What the parser has kept of the line counts only inside of it.
  cases here : p.state with
  | initial => exact consumeInitial_agree login
  | imei =>
    exact .ok ⟨rfl, login, fun _ => (line (by simp [here])).at_state _, by simp⟩
  | command => exact consumeCommand_agree login (line (by simp [here]))
  | body => exact consumeBody_agree ⟨state, login, line (by simp [here]), command (by simp [here])⟩
  | hashFirst =>
    have same := line (by simp [here])
    dsimp only
    split
    · exact .ok ⟨rfl, login, fun _ => same.at_state _, by simp⟩
    · exact unexpectedToken_agree boost login same
  | hashSecond =>
    have inside : Inside p q := ⟨state, login, line (by simp [here]), command (by simp [here])⟩
    dsimp only
    split
    · exact .ok (inside.at_state _).alike
    · exact unexpectedToken_agree boost login inside.line
  | bar =>
    have inside : Inside p q := ⟨state, login, line (by simp [here]), command (by simp [here])⟩
    dsimp only
    split
    · exact .andThen (.ok (inside.at_state .body)) fun _ _ same =>
        storeData_agree same.line.content same.alike
    · have line := inside.line
      have raised : Inside { p with state := .skipToBarOrEnd, isParserError := true }
          { q with state := .skipToBarOrEnd, isParserError := true } :=
        ⟨rfl, login, ⟨rfl, line.multicommand, line.cmd, line.content, line.rooted, line.rooted'⟩,
          inside.command.currentCmd, inside.command.estimate⟩
      exact (parserError_agree raised).andThen fun _ _ same =>
        storeData_agree same.line.content same.alike
  | skipToBarOrEnd =>
    have inside : Inside p q := ⟨state, login, line (by simp [here]), command (by simp [here])⟩
    dsimp only
    split
    · exact .ok (inside.at_state _).alike
    · exact .ok inside.alike
  | end_ => exact unexpectedToken_agree boost login (line (by simp [here]))
  | skipToEnd => exact .ok ⟨state, login, line, command⟩
  | binaryData => exact .ok ⟨state, login, line, command⟩

theorem consumeTokens_agree {toks : List Str} (alike : Alike p q) :
    Agree Alike (consumeTokens boost granted toks p) (consumeTokens boost granted toks q) := by
  induction toks generalizing p q with
  | nil => exact .ok alike
  | cons tok toks ih => exact (consumeToken_agree boost granted alike).andThen fun _ _ => ih

theorem handleLine_agree {line : Str} (alike : Alike p q) :
    Agree Alike (handleLine boost granted line p) (handleLine boost granted line q) :=
  (consumeTokens_agree boost granted alike).andThen fun _ _ => consumeToken_agree boost granted

end Steps

/-- Between two lines only the login counts. -/
theorem alike_at_rest {p q : Plugin} (here : p.state = .initial) (here' : q.state = .initial)
    (login : SameLogin p q) : Alike p q :=
  ⟨here.trans here'.symm, login, fun later => absurd here later, by simp [here]⟩

/-- Any two connections that stand between two lines and agree on the login make the same
calls for the next line and return from it alike, to the initial state. -/
theorem lines_isolated {boost : Boost} {granted : Bool} {s s' : Session}
    (reached : (session boost).Reachable s) (reached' : (session boost).Reachable s')
    (alive : s.crashed = false) (alive' : s'.crashed = false)
    (boundary : s.pending = []) (boundary' : s'.pending = [])
    (login : s.plugin.authenticated = s'.plugin.authenticated) (line : Str) :
    calls (handleLine boost granted line s.plugin).output =
        calls (handleLine boost granted line s'.plugin).output ∧
      (handleLine boost granted line s.plugin).fault =
        (handleLine boost granted line s'.plugin).fault ∧
      ((handleLine boost granted line s.plugin).fault = none →
        (handleLine boost granted line s.plugin).state.state = .initial ∧
        (handleLine boost granted line s'.plugin).state.state = .initial) := by
  have alike := alike_at_rest (Session.at_rest reached alive boundary)
    (Session.at_rest reached' alive' boundary') login
  obtain ⟨fault, output, state⟩ := @handleLine_agree boost granted _ _ line alike
  refine ⟨output, fault, fun returned => ?_⟩
  exact ⟨handleLine_initial returned, handleLine_initial (fault.symm.trans returned)⟩

/-- A connection after its login and a package cut short. -/
def disturbed : Session :=
  (session numeric).after accepted (Event.whole "#L#i;p".toList ++ Event.whole "#B#x|y#".toList)

theorem lines_isolated_disturbed :
    calls (handleLine numeric true "#D#x".toList opened.plugin).output =
        calls (handleLine numeric true "#D#x".toList disturbed.plugin).output ∧
      (handleLine numeric true "#D#x".toList opened.plugin).fault =
        (handleLine numeric true "#D#x".toList disturbed.plugin).fault ∧
      ((handleLine numeric true "#D#x".toList opened.plugin).fault = none →
        (handleLine numeric true "#D#x".toList opened.plugin).state.state = .initial ∧
        (handleLine numeric true "#D#x".toList disturbed.plugin).state.state = .initial) := by
  obtain ⟨alive, boundary, login⟩ := opened_ready
  have ready : disturbed.crashed = false ∧ disturbed.pending = [] ∧
      disturbed.plugin.authenticated = true := by decide +kernel
  exact lines_isolated opened_reachable (reachable_after numeric _) alive ready.1 boundary ready.2.1
    (login.trans ready.2.2.symm) "#D#x".toList

end Eiptnd.Wialon
