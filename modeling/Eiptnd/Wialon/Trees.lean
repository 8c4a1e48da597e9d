import Eiptnd.Wialon.Exceptions

/-! A tree that has been handed over is not changed any more.

The parser keeps its tree after several of the hand-overs. It has no more fields to read
then, until it makes itself a new one. -/
namespace Eiptnd.Wialon

open Reactive

/-- The current tree is one of those allocated, and a package has no more fields where a
bar is due. -/
structure Plugin.Tidy (p : Plugin) : Prop where
  bound : ∀ t, p.tree = some t → t < p.trees.length
  complete : p.state = .bar ∨ p.state = .skipToBarOrEnd → p.estimate = 0

/-- The parser writes no more to its tree before it makes a new one. -/
def Plugin.Settled (p : Plugin) : Prop :=
  p.state = .initial ∨ p.estimate = 0 ∧ (p.state = .body ∨ p.state = .bar ∨
    p.state = .skipToBarOrEnd ∨ p.state = .end_ ∨ p.state = .skipToEnd)

/-- The tree holds this, and will. -/
structure Sealed (t : Nat) (content : Tree) (p : Plugin) : Prop where
  kept : p.trees[t]? = some content
  settled : p.tree = some t → p.Settled

/-- A tree that is handed over is the current one, as it is. -/
def Effect.HandsOver (p : Plugin) : Effect → Prop
  | .processData tree content => tree = p.tree ∧ content = p.content
  | _ => True

section Tokens

variable (boost : Boost) (granted : Bool) {tok : Str} {p : Plugin} {t : Nat} {content : Tree}

/-! ### The end of a line -/

private theorem answer_hands (message : Str) (q : Plugin) :
    ∀ effect ∈ (answer message q).output, effect.HandsOver p := by
  rw [answer_output]
  simp [Effect.HandsOver]

private theorem commitCommand_trees :
    (commitCommand boost granted p).state.tree = p.tree ∧
      (commitCommand boost granted p).state.trees = p.trees ∧
      ∀ effect ∈ (commitCommand boost granted p).output, effect.HandsOver p := by
  have commit := commitCommand_cases boost granted p
  generalize commitCommand boost granted p = r at commit
  cases commit with
  | rejected => exact ⟨rfl, rfl, answer_hands _ p⟩
  | asked imei password =>
    have answered (ok : Bool) : ∀ effect ∈ (handleAuthenticate ok p).output, effect.HandsOver p := by
      cases ok <;> exact answer_hands _ _
    refine ⟨by cases granted <;> rfl, by cases granted <;> rfl, ?_⟩
    intro effect member
    rcases List.mem_cons.mp member with rfl | later
    · exact trivial
    · exact answered granted effect later
  | stored => exact ⟨rfl, rfl, by simp [storeData, Effect.HandsOver]⟩
  | pinged => exact ⟨rfl, rfl, answer_hands _ p⟩
  | acknowledged => exact ⟨rfl, rfl, answer_hands _ p⟩
  | awaited => exact ⟨rfl, rfl, by simp⟩
  | failed => exact ⟨rfl, rfl, by simp⟩

theorem consumeEnd_trees :
    (consumeEnd boost granted p).state.tree = p.tree ∧
      (consumeEnd boost granted p).state.trees = p.trees ∧
      ∀ effect ∈ (consumeEnd boost granted p).output, effect.HandsOver p := by
  have ended : (endOfLine boost granted p).state.tree = p.tree ∧
      (endOfLine boost granted p).state.trees = p.trees ∧
      ∀ effect ∈ (endOfLine boost granted p).output, effect.HandsOver p := by
    have ends := endOfLine_cases boost granted p
    generalize endOfLine boost granted p = r at ends
    cases ends with
    | cut message =>
      obtain ⟨tree, trees, hands⟩ :=
        commitCommand_trees boost granted (p := { p with isParserError := true })
      refine ⟨tree, trees, ?_⟩
      intro effect member
      rcases List.mem_cons.mp member with rfl | later
      · exact trivial
      · cases effect <;> exact hands _ later
    -- The last record of a package is handed over before the command is committed.
    | last =>
      obtain ⟨tree, trees, hands⟩ := commitCommand_trees boost granted (p := p)
      refine ⟨tree, trees, ?_⟩
      intro effect member
      rcases List.mem_cons.mp member with rfl | later
      · exact ⟨rfl, rfl⟩
      · exact hands effect later
    | done => exact commitCommand_trees boost granted
    | misplaced => exact ⟨rfl, rfl, by simp [parserError, Effect.HandsOver]⟩
    | idle => exact ⟨rfl, rfl, by simp⟩
  -- The reset behind it touches no tree.
  obtain ⟨tree, trees, hands⟩ := ended
  rw [consumeEnd_output]
  unfold consumeEnd Outcome.andThen
  split
  · exact ⟨tree, trees, hands⟩
  · exact ⟨tree, trees, hands⟩

theorem consumeEnd_sealed (frozen : Sealed t content p)
    (returned : (consumeEnd boost granted p).fault = none) :
    Sealed t content (consumeEnd boost granted p).state := by
  obtain ⟨tree, trees, -⟩ := consumeEnd_trees boost granted (p := p)
  exact ⟨by rw [trees, frozen.kept], fun _ => Or.inl (consumeEnd_initial returned)⟩

/-! ### Any other token -/

private theorem fresh_sealed {q : Plugin} (kept : p.trees[t]? = some content)
    (tree : q.tree = some p.trees.length) (trees : q.trees = p.trees ++ [[]]) :
    Sealed t content q := by
  have bound : t < p.trees.length := (List.getElem?_eq_some_iff.mp kept).1
  refine ⟨by rw [trees, List.getElem?_append_left bound, kept], fun same => ?_⟩
  rw [tree, Option.some.injEq] at same
  omega

private theorem fresh_tidy {q : Plugin} (tree : q.tree = some p.trees.length)
    (trees : q.trees = p.trees ++ [[]]) (outside : q.state ≠ .bar ∧ q.state ≠ .skipToBarOrEnd) :
    q.Tidy := by
  refine ⟨?_, ?_⟩
  · intro t same
    rw [tree, Option.some.injEq] at same
    simp [trees, ← same]
  · rintro (here | here)
    · exact absurd here outside.1
    · exact absurd here outside.2

/-- A field is written only while there are fields to read. -/
private theorem consumeField_trees :
    (consumeField tok p).output = [] ∧ (consumeField tok p).state.tree = p.tree ∧
      (consumeField tok p).state.trees.length = p.trees.length ∧
      (consumeField tok p).state.state = p.state ∧
      ((consumeField tok p).state.trees = p.trees ∧
          (consumeField tok p).state.estimate = p.estimate ∨
        p.estimate ≠ 0 ∧ ∃ u name, p.tree = some u ∧
          (consumeField tok p).state.trees = p.trees.modify u (Tree.put name tok)) := by
  rw [consumeField]
  split
  · exact ⟨rfl, rfl, rfl, rfl, Or.inl ⟨rfl, rfl⟩⟩
  next more =>
    split
    · exact ⟨rfl, rfl, rfl, rfl, Or.inl ⟨rfl, rfl⟩⟩
    next name _ =>
      split
      · exact ⟨rfl, rfl, rfl, rfl, Or.inl ⟨rfl, rfl⟩⟩
      next u tree =>
        refine ⟨rfl, rfl, by simp, rfl, Or.inr ⟨more, u, name, tree, rfl⟩⟩

private theorem consumeField_sealed (frozen : Sealed t content p) (here : p.state = .body) :
    Sealed t content (consumeField tok p).state := by
  obtain ⟨-, tree, -, state, write⟩ := @consumeField_trees tok p
  have going : p.state ≠ .initial := by simp [here]
  rcases write with ⟨trees, estimate⟩ | ⟨more, u, name, current, trees⟩
  · refine ⟨by rw [trees, frozen.kept], fun same => Or.inr ?_⟩
    rw [estimate, state]
    exact (frozen.settled (tree ▸ same)).resolve_left going
  -- The tree that is written to is another one.
  · have other : t ≠ u := by
      rintro rfl
      exact more ((frozen.settled current).resolve_left going).1
    refine ⟨by rw [trees, List.getElem?_modify_ne _ _ other.symm, frozen.kept], fun same => ?_⟩
    rw [tree, current, Option.some.injEq] at same
    exact absurd same.symm other

private theorem consumeBody_sealed (frozen : Sealed t content p) (here : p.state = .body) :
    Sealed t content (consumeBody tok p).state := by
  rw [consumeBody]
  split
  · rw [storeData, Outcome.emit_andThen]
    split
    · exact frozen
    · exact fresh_sealed frozen.kept rfl rfl
  · have field := @consumeField_sealed tok _ _ _ frozen here
    refine Outcome.andThen_state (Sealed t content) _ _ field fun q frozen => ?_
    split
    next complete =>
      refine ⟨frozen.kept, fun _ => Or.inr ⟨complete, ?_⟩⟩
      simp only [Outcome.ok_state]
      split
      · exact Or.inr (Or.inr (Or.inr (Or.inl rfl)))
      · exact Or.inr (Or.inl rfl)
    next => exact frozen

private theorem consumeBody_tidy (tidy : p.Tidy) (here : p.state = .body) :
    (consumeBody tok p).state.Tidy := by
  rw [consumeBody]
  split
  · rw [storeData, Outcome.emit_andThen]
    split
    · exact tidy
    · exact fresh_tidy rfl rfl ⟨by simp [Plugin.newTree, here], by simp [Plugin.newTree, here]⟩
  · obtain ⟨-, tree, size, state, -⟩ := @consumeField_trees tok p
    have field : (consumeField tok p).state.Tidy :=
      ⟨by rw [tree, size]; exact tidy.bound, by simp [state, here]⟩
    refine Outcome.andThen_state Plugin.Tidy _ _ field fun q tidy => ?_
    split
    -- The bar is due only when the count has come down to zero.
    next complete => exact ⟨tidy.bound, fun _ => complete⟩
    next => exact tidy

theorem consumeEnd_tidy (tidy : p.Tidy) (returned : (consumeEnd boost granted p).fault = none) :
    (consumeEnd boost granted p).state.Tidy := by
  obtain ⟨tree, trees, -⟩ := consumeEnd_trees boost granted (p := p)
  refine ⟨by rw [tree, trees]; exact tidy.bound, ?_⟩
  simp [consumeEnd_initial returned]

theorem consumeToken_tidy (tidy : p.Tidy)
    (returned : (consumeToken boost granted tok p).fault = none) :
    (consumeToken boost granted tok p).state.Tidy := by
  by_cases ends : tok = crlf
  · rw [consumeToken, if_pos ends] at returned ⊢
    exact consumeEnd_tidy boost granted tidy returned
  by_cases here : p.state = .body
  · have moved : consumeToken boost granted tok p = consumeBody tok p := by
      simp only [consumeToken, ends, if_false, here]
    rw [moved]
    exact consumeBody_tidy tidy here
  have step := consumeToken_cases boost granted ends p
  clear returned
  generalize consumeToken boost granted tok p = r at step
  cases step with
  | begun => exact fresh_tidy rfl rfl ⟨by simp [consumeInitial], by simp [consumeInitial]⟩
  | hashed next change =>
    rcases change with ⟨-, rfl⟩ | ⟨-, -, rfl⟩ | ⟨-, -, rfl⟩ | ⟨-, -, rfl⟩ <;>
      exact ⟨tidy.bound, by simp⟩
  | refused => exact ⟨tidy.bound, by simp [parserError]⟩
  | unknown => exact ⟨tidy.bound, by simp [parserError]⟩
  | barred => exact ⟨tidy.bound, by simp⟩
  | named => exact ⟨tidy.bound, by simp⟩
  -- What the body can do has been dealt with above.
  | recorded _ _ body => exact absurd body here
  | field _ _ _ body => exact absurd body here
  | separated => exact ⟨tidy.bound, by simp⟩
  | overlong _ bar => exact ⟨tidy.bound, fun _ => tidy.complete (Or.inl bar)⟩
  | skipped => exact tidy
  | failed _ body => exact absurd body here
  | unfiled body => exact absurd body here

theorem consumeToken_sealed (frozen : Sealed t content p) :
    (consumeToken boost granted tok p).state.trees[t]? = some content ∧
      ((consumeToken boost granted tok p).fault = none →
        Sealed t content (consumeToken boost granted tok p).state) := by
  by_cases ends : tok = crlf
  · rw [consumeToken, if_pos ends]
    refine ⟨?_, consumeEnd_sealed boost granted frozen⟩
    rw [(consumeEnd_trees boost granted).2.1, frozen.kept]
  by_cases here : p.state = .body
  · have moved : consumeToken boost granted tok p = consumeBody tok p := by
      simp only [consumeToken, ends, if_false, here]
    have next := @consumeBody_sealed tok _ _ _ frozen here
    rw [moved]
    exact ⟨next.kept, fun _ => next⟩
  have next : Sealed t content (consumeToken boost granted tok p).state := by
    obtain ⟨kept, settled⟩ := frozen
    -- In the states in front of a body the tree is still to be filled.
    have filling (front : p.state = .imei ∨ p.state = .hashFirst ∨ p.state = .command ∨
        p.state = .hashSecond) (same : p.tree = some t) : False := by
      have := settled same
      rcases front with here | here | here | here <;> simp [Plugin.Settled, here] at this
    have step := consumeToken_cases boost granted ends p
    generalize consumeToken boost granted tok p = r at step
    cases step with
    | begun => exact fresh_sealed kept rfl rfl
    | hashed next change =>
      rcases change with ⟨front, rfl⟩ | ⟨front, -, rfl⟩ | ⟨front, -, rfl⟩ | ⟨skip, -, rfl⟩
      · exact ⟨kept, fun same => (filling (Or.inl front) same).elim⟩
      · exact ⟨kept, fun same => (filling (Or.inr (Or.inl front)) same).elim⟩
      · exact ⟨kept, fun same => (filling (Or.inr (Or.inr (Or.inr front))) same).elim⟩
      · refine ⟨kept, fun same => Or.inr ⟨?_, Or.inl rfl⟩⟩
        exact ((settled same).resolve_left (by simp [skip])).1
    | refused message front =>
      refine ⟨kept, fun same => Or.inr ⟨?_, Or.inr (Or.inr (Or.inr (Or.inr rfl)))⟩⟩
      rcases front with front | front | last
      · exact (filling (Or.inr (Or.inl front)) same).elim
      · exact (filling (Or.inr (Or.inr (Or.inr front))) same).elim
      · exact ((settled same).resolve_left (by simp [last])).1
    | unknown _ front => exact ⟨kept, fun same => (filling (Or.inr (Or.inr (Or.inl front))) same).elim⟩
    | barred _ _ front =>
      exact ⟨kept, fun same => (filling (Or.inr (Or.inr (Or.inl front))) same).elim⟩
    | named _ _ front =>
      exact ⟨kept, fun same => (filling (Or.inr (Or.inr (Or.inl front))) same).elim⟩
    | recorded _ _ body => exact absurd body here
    | field _ _ _ body => exact absurd body here
    | separated bar =>
      refine ⟨kept, fun same => Or.inr ⟨?_, Or.inl rfl⟩⟩
      exact ((settled same).resolve_left (by simp [bar])).1
    | overlong _ bar =>
      refine ⟨kept, fun same => Or.inr ⟨?_, Or.inr (Or.inr (Or.inl rfl))⟩⟩
      exact ((settled same).resolve_left (by simp [bar])).1
    | skipped => exact ⟨kept, settled⟩
    | failed _ body => exact absurd body here
    | unfiled body => exact absurd body here
  exact ⟨next.kept, fun _ => next⟩

/-! ### The hand-over -/

private theorem consumeBody_hands (stored : p.trees[t]? = some p.content) (current : p.tree = some t)
    {tree : Option Nat} (handed : .processData tree content ∈ (consumeBody tok p).output) :
    tree = some t ∧ (consumeBody tok p).state.trees[t]? = some content ∧
      ((consumeBody tok p).fault = none → Sealed t content (consumeBody tok p).state) := by
  by_cases bar : p.currentCmd = .blackbox ∧ tok = "|".toList
  · rw [consumeBody, if_pos bar, storeData, Outcome.emit_andThen] at handed ⊢
    cases found : estimates.lookup p.cmd with
    | none =>
      rw [found] at handed
      simp only [Outcome.fail_output, List.append_nil, List.mem_singleton, Effect.processData.injEq]
        at handed
      obtain ⟨rfl, rfl⟩ := handed
      exact ⟨current, stored, by simp⟩
    | some entry =>
      rw [found] at handed
      simp only [Outcome.ok_output, List.append_nil, List.mem_singleton, Effect.processData.injEq]
        at handed
      obtain ⟨rfl, rfl⟩ := handed
      have next : Sealed t p.content
          { p with estimate := entry.1, currentCmd := entry.2 }.newTree :=
        fresh_sealed stored rfl rfl
      exact ⟨current, next.kept, fun _ => next⟩
  -- A field hands nothing over.
  · have silent : (consumeBody tok p).output = [] := by
      rw [consumeBody, if_neg bar]
      have field := (@consumeField_trees tok p).1
      rw [Outcome.andThen]
      split
      · exact field
      · rw [field]
        dsimp only
        split <;> rfl
    rw [silent] at handed
    cases handed

/-- A tree is sealed by the step that hands it over. -/
theorem consumeToken_hands (tidy : p.Tidy) (current : p.tree = some t) {tree : Option Nat}
    (handed : .processData tree content ∈ (consumeToken boost granted tok p).output) :
    tree = some t ∧ (consumeToken boost granted tok p).state.trees[t]? = some content ∧
      ((consumeToken boost granted tok p).fault = none →
        Sealed t content (consumeToken boost granted tok p).state) := by
  have stored : p.trees[t]? = some p.content := by
    simp [Plugin.content, current, tidy.bound t current]
  by_cases ends : tok = crlf
  · rw [consumeToken, if_pos ends] at handed ⊢
    obtain ⟨-, trees, hands⟩ := consumeEnd_trees boost granted (p := p)
    obtain ⟨rfl, rfl⟩ := hands _ handed
    refine ⟨current, by rw [trees, stored], fun returned => ?_⟩
    exact ⟨by rw [trees, stored], fun _ => Or.inl (consumeEnd_initial returned)⟩
  by_cases here : p.state = .body
  · have moved : consumeToken boost granted tok p = consumeBody tok p := by
      simp only [consumeToken, ends, if_false, here]
    rw [moved] at handed ⊢
    exact consumeBody_hands stored current handed
  -- Where a bar is due the tree is complete, handed over or not.
  have bar : p.state = .bar ∧ tree = p.tree ∧ content = p.content := by
    have step := consumeToken_cases boost granted ends p
    generalize consumeToken boost granted tok p = r at step handed
    cases step with
    | recorded _ _ body => exact absurd body here
    | unfiled body => exact absurd body here
    | separated bar => simpa [bar] using handed
    | overlong _ bar => simpa [bar] using handed
    | _ => simp [parserError, consumeInitial] at handed
  obtain ⟨bar, rfl, rfl⟩ := bar
  have frozen : Sealed t p.content p :=
    ⟨stored, fun _ => Or.inr ⟨tidy.complete (Or.inl bar), Or.inr (Or.inl bar)⟩⟩
  exact ⟨current, consumeToken_sealed boost granted frozen⟩

end Tokens

/-! ### Over a whole run -/

theorem handleProcessData_trees (ok : Bool) (p : Plugin) :
    (handleProcessData ok p).state.trees = p.trees ∧
      (handleProcessData ok p).state.estimate = p.estimate ∧
      ∀ effect ∈ (handleProcessData ok p).output, ∀ tree content,
        effect ≠ .processData tree content := by
  rw [handleProcessData]
  split
  · exact ⟨rfl, rfl, by simp⟩
  · split
    · exact ⟨rfl, rfl, by simp [answer_output]⟩
    · split <;> exact ⟨rfl, rfl, by simp [answer_output]⟩

theorem Session.tidy {boost : Boost} {s : Session} (reached : (session boost).Reachable s) :
    s.crashed = false → s.plugin.Tidy := by
  apply reached.invariant (fun s => s.crashed = false → s.plugin.Tidy)
  · intro s fresh _
    have start := fresh.plugin
    exact ⟨by simp [start.tree], by simp [start.state]⟩
  · intro s e s' out _ ih stepped alive
    obtain ⟨running, step⟩ := Session.step_cases stepped
    have tidy := ih running
    cases step with
    | line => exact tidy
    | token granted tok rest =>
      apply consumeToken_tidy boost granted tidy
      simpa [Session.take] using alive
    | complete place ok job =>
      have same := handleProcessData_counted ok s.plugin
      obtain ⟨trees, estimate, -⟩ := handleProcessData_trees ok s.plugin
      refine ⟨?_, ?_⟩
      · rw [Session.complete, same.tree, trees]
        exact tidy.bound
      · rw [Session.complete, same.state, estimate]
        exact tidy.complete

/-- The tree holds this, and will hold it in all that follows. -/
def Session.Holds (t : Nat) (content : Tree) (s : Session) : Prop :=
  s.plugin.trees[t]? = some content ∧ (s.crashed = false → Sealed t content s.plugin)

theorem Session.holds_step {boost : Boost} {t : Nat} {content : Tree} {s s' : Session} {e : Event}
    {out : List Effect} (holds : s.Holds t content)
    (stepped : (session boost).step s e = some (s', out)) : s'.Holds t content := by
  obtain ⟨running, step⟩ := Session.step_cases stepped
  have frozen := holds.2 running
  cases step with
  | line => exact holds
  | token granted tok rest =>
    obtain ⟨kept, returned⟩ := @consumeToken_sealed boost granted tok _ _ _ frozen
    refine ⟨kept, fun alive => returned ?_⟩
    simpa [Session.take] using alive
  | complete place ok job =>
    have same := handleProcessData_counted ok s.plugin
    obtain ⟨trees, estimate, -⟩ := handleProcessData_trees ok s.plugin
    -- A completion writes to no tree.
    have kept : (s.complete place job ok).1.plugin.trees[t]? = some content := by
      rw [Session.complete, trees, frozen.kept]
    refine ⟨kept, fun _ => ⟨kept, ?_⟩⟩
    rw [Session.complete, same.tree, Plugin.Settled, same.state, estimate]
    exact frozen.settled

/-- A tree that a step of any run hands over holds from then on, whatever follows, what it
held when it was handed over. -/
theorem trees_frozen {boost : Boost} {s s' last : Session} {e : Event} {events : List Event}
    {out later : List Effect} {tree : Option Nat} {content : Tree}
    (reached : (session boost).Reachable s)
    (stepped : (session boost).step s e = some (s', out))
    (handed : .processData tree content ∈ out)
    (ran : (session boost).run s' events = some (last, later)) :
    ∃ t, tree = some t ∧ last.plugin.trees[t]? = some content := by
  obtain ⟨running, step⟩ := Session.step_cases stepped
  have parsing := Session.parsing reached running
  have tidy := Session.tidy reached running
  have holds : ∃ t, tree = some t ∧ s'.Holds t content := by
    cases step with
    | line => simp at handed
    | token granted tok rest =>
      -- Only a token behind the name of a command hands a tree over, so there is one.
      have called : deliveries (consumeToken boost granted tok s.plugin).output ≠ [] :=
        List.ne_nil_of_mem (List.mem_filterMap.mpr ⟨_, handed, rfl⟩)
      have named := (consumeToken_stores parsing.placed called).1.named
      have within : s.consumed ≠ [] := fun none => by simp [none] at named
      obtain ⟨t, current⟩ := Option.ne_none_iff_exists'.mp (parsing.rooted within)
      obtain ⟨same, kept, returned⟩ := consumeToken_hands boost granted tidy current handed
      refine ⟨t, same, kept, fun alive => returned ?_⟩
      simpa [Session.take] using alive
    | complete place ok job =>
      exact absurd rfl ((handleProcessData_trees ok s.plugin).2.2 _ handed tree content)
  obtain ⟨t, same, holds⟩ := holds
  -- From the step on, the run rule.
  have kept := Machine.run_preserves (Session.Holds t content)
    (fun _ _ _ _ holds stepped => Session.holds_step holds stepped) holds ran
  exact ⟨t, same, kept.1⟩

/-- A connection with a message of which only the end of the line is still to come. -/
def handing : Session := (session numeric).after accepted
  (Event.whole "#L#i;p".toList ++ .line "#M#hi".toList :: List.replicate 5 (.token true))

theorem handing_reachable : (session numeric).Reachable handing := reachable_after numeric _

theorem trees_frozen_message : ∃ s' out last later,
    (session numeric).step handing (.token true) = some (s', out) ∧
    (session numeric).run s' (.complete 0 true :: Event.whole "#M#ho".toList) = some (last, later) ∧
    ∃ t, some 1 = some t ∧ last.plugin.trees[t]? = some [("message".toList, "hi".toList)] := by
  have steps : ((session numeric).step handing (.token true)).any (fun next =>
      decide (.processData (some 1) [("message".toList, "hi".toList)] ∈ next.2) &&
      ((session numeric).run next.1
        (.complete 0 true :: Event.whole "#M#ho".toList)).isSome) = true := by decide +kernel
  rw [Option.any_eq_true] at steps
  obtain ⟨⟨s', out⟩, stepped, both⟩ := steps
  simp only [Bool.and_eq_true, decide_eq_true_eq] at both
  obtain ⟨handed, going⟩ := both
  obtain ⟨⟨last, later⟩, ran⟩ := Option.isSome_iff_exists.mp going
  exact ⟨s', out, last, later, stepped, ran, trees_frozen handing_reachable stepped handed ran⟩

end Eiptnd.Wialon
