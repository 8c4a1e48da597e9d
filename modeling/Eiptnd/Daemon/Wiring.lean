import Eiptnd.Daemon.System
import Eiptnd.Library.Replace
import Eiptnd.Wialon.Trees

/-! What the parts of the daemon rely on when they call each other.

Between any two calls, within a handler or not, every part is in a state that it can reach on
its own, and a connection waits for exactly those of its records that have no answer yet. So
no part ever refuses what another one asks of it. -/
namespace Eiptnd.Daemon

open Reactive Router

/-! ### The combined callback -/

section FanOut

variable {f f' : FanOut} {e : Router.Event} {out : List Bool}

private theorem destroy_invoked (f : FanOut) : f.destroy.1.invoked = f.invoked ++ f.destroy.2 := by
  rw [FanOut.destroy]
  split
  · rfl
  · simp

private theorem destroy_targets (f : FanOut) : f.destroy.1.targets = f.targets ∧
    f.destroy.1.calling = f.calling ∧ f.destroy.1.posted = f.posted := by
  rw [FanOut.destroy]
  split <;> exact ⟨rfl, rfl, rfl⟩

/-- What a step puts out is what the requester has been told in it. -/
theorem fanOut_invoked (stepped : f.step e = some (f', out)) : f'.invoked = f.invoked ++ out := by
  cases e with
  | return_ =>
    simp only [FanOut.step, Option.ite_none_right_eq_some, Option.some.injEq] at stepped
    have told := destroy_invoked { f with calling := false }
    rw [stepped.2] at told
    exact told
  | post =>
    simp only [FanOut.step, Option.ite_none_right_eq_some, Option.some.injEq, Prod.mk.injEq] at stepped
    obtain ⟨-, rfl, rfl⟩ := stepped
    rfl
  | report place ok =>
    simp only [FanOut.step] at stepped
    split at stepped
    · split at stepped
      · cases stepped
        exact (List.append_nil _).symm
      · cases stepped
        rfl
    · cases stepped
  | release place =>
    simp only [FanOut.step] at stepped
    split at stepped
    next report found =>
      simp only [Option.some.injEq] at stepped
      have told := destroy_invoked { f with targets := f.targets.set place ⟨report, false⟩ }
      rw [stepped] at told
      exact told
    · cases stepped

/-- Only a report or a release touches the targets, and only the one it is about. -/
def touched (targets : List Target) : Router.Event → List Target
  | .report place ok => targets.set place ⟨some ok, true⟩
  | .release place => targets.set place ⟨targets[place]?.bind Target.report, false⟩
  | .return_ | .post => targets

theorem fanOut_targets (stepped : f.step e = some (f', out)) :
    f'.targets = touched f.targets e := by
  cases e with
  | return_ =>
    simp only [FanOut.step, Option.ite_none_right_eq_some, Option.some.injEq] at stepped
    have kept := (destroy_targets { f with calling := false }).1
    rw [stepped.2] at kept
    exact kept
  | post =>
    simp only [FanOut.step, Option.ite_none_right_eq_some, Option.some.injEq, Prod.mk.injEq] at stepped
    obtain ⟨-, rfl, -⟩ := stepped
    rfl
  | report place ok =>
    simp only [FanOut.step] at stepped
    split at stepped
    · split at stepped
      · cases stepped
        rfl
      · cases stepped
        rfl
    · cases stepped
  | release place =>
    simp only [FanOut.step] at stepped
    split at stepped
    next report found =>
      simp only [Option.some.injEq] at stepped
      have kept := (destroy_targets { f with targets := f.targets.set place ⟨report, false⟩ }).1
      rw [stepped] at kept
      rw [kept, touched, found]
      rfl
    · cases stepped

theorem fanOut_once (reached : Router.fanOut.Reachable f) : f.invoked.length ≤ 1 := by
  cases FanOut.books reached with
  | none _ invoked =>
    rw [invoked]
    split <;> simp
  | one t _ _ invoked =>
    rw [invoked]
    cases t.report <;> simp
  | many _ _ _ invoked =>
    rw [invoked]
    split <;> simp

/-- A step tells the requester nothing, or the one thing it has waited for. -/
theorem fanOut_tells (reached : Router.fanOut.Reachable f) (stepped : f.step e = some (f', out)) :
    out = [] ∨ f.invoked = [] ∧ ∃ ok, out = [ok] := by
  have once := fanOut_once (reached.step stepped)
  rw [fanOut_invoked stepped, List.length_append] at once
  rcases out with _ | ⟨ok, _ | ⟨_, _⟩⟩
  · exact Or.inl rfl
  · rw [List.length_singleton] at once
    exact Or.inr ⟨List.length_eq_zero_iff.mp (by omega), ok, rfl⟩
  · simp only [List.length_cons] at once
    omega

/-- A target that has its callback may use it, and may then let go of it. -/
theorem fanOut_report {place : Nat} (ok : Bool) (found : f.targets[place]? = some ⟨none, true⟩) :
    ∃ f₁ told₁ f₂ told₂, f.step (.report place ok) = some (f₁, told₁) ∧
      f₁.step (.release place) = some (f₂, told₂) ∧
      f₂.targets = f.targets.set place ⟨some ok, false⟩ := by
  have bound := (List.getElem?_eq_some_iff.mp found).1
  obtain ⟨⟨f₁, told₁⟩, reported⟩ : ∃ r, f.step (.report place ok) = some r := by
    simp only [FanOut.step, found]
    split <;> exact ⟨_, rfl⟩
  have targets₁ := fanOut_targets reported
  have found₁ : f₁.targets[place]? = some ⟨some ok, true⟩ := by
    rw [targets₁, touched, List.getElem?_set_self bound]
  obtain ⟨⟨f₂, told₂⟩, released⟩ : ∃ r, f₁.step (.release place) = some r := by
    simp only [FanOut.step, found₁]
    exact ⟨_, rfl⟩
  refine ⟨f₁, told₁, f₂, told₂, reported, released, ?_⟩
  rw [fanOut_targets released, touched, found₁, targets₁, touched, List.set_set]
  rfl

end FanOut

/-! ### The connection -/

section Session

variable {boost : Wialon.Boost} {s s' : Wialon.Session} {e : Wialon.Event}
  {out : List Wialon.Effect}

theorem session_step (reached : (Wialon.session boost).Reachable s)
    (stepped : s.step boost e = some (s', out)) : (Wialon.session boost).Reachable s' := by
  have taken : (Wialon.session boost).step s e = some (s', out) := stepped
  exact reached.step taken

theorem session_holds {t : Nat} {content : Wialon.Tree} (holds : s.Holds t content)
    (stepped : s.step boost e = some (s', out)) : s'.Holds t content := by
  have taken : (Wialon.session boost).step s e = some (s', out) := stepped
  exact Wialon.Session.holds_step holds taken

/-- A completion is taken at any time, and does not make the translator throw. -/
theorem session_complete {place : Nat} (ok : Bool) (alive : s.crashed = false)
    (bound : place < s.jobs.length) :
    ∃ s' out completion, s.step boost (.complete place ok) = some (s', out) ∧ s'.crashed = false ∧
      s'.jobs = s.jobs.eraseIdx place ∧ s'.completions = s.completions ++ [completion] ∧
      completion.ok = ok := by
  have found : s.jobs[place]? = some s.jobs[place] := List.getElem?_eq_getElem bound
  have returned : (Wialon.handleProcessData ok s.plugin).fault = none := by
    rw [Wialon.handleProcessData]
    split
    · rfl
    · split
      · rfl
      · split <;> rfl
  refine ⟨_, _, _, by rw [Wialon.Session.step, alive, found], ?_, rfl, rfl, rfl⟩
  simp [Wialon.Session.complete, returned]

theorem handedOver_length (out : List Wialon.Effect) :
    (handedOver out).length = (Wialon.deliveries out).length := by
  induction out with
  | nil => rfl
  | cons effect out ih =>
    simp only [handedOver, Wialon.deliveries] at ih ⊢
    cases effect <;> simp [ih]

/-- A line or a token makes a job of each tree it hands over. -/
theorem session_jobs (stepped : s.step boost e = some (s', out))
    (reads : ∀ place ok, e ≠ .complete place ok) :
    s'.jobs.length = s.jobs.length + (handedOver out).length ∧ s'.completions = s.completions := by
  obtain ⟨-, step⟩ := Wialon.Session.step_cases stepped
  cases step with
  | line => exact ⟨rfl, rfl⟩
  | token =>
    rw [handedOver_length]
    exact ⟨by simp [Wialon.Session.take, Wialon.Session.called], rfl⟩
  | complete place ok => exact absurd rfl (reads place ok)

/-- A tree that is handed over is there, and nobody writes to it any more. -/
theorem session_hands (reached : (Wialon.session boost).Reachable s)
    (stepped : s.step boost e = some (s', out)) {tree : Option Nat} {content : Wialon.Tree}
    (handed : (tree, content) ∈ handedOver out) :
    ∃ t, tree = some t ∧ s'.Holds t content := by
  have member : .processData tree content ∈ out := by
    obtain ⟨effect, member, same⟩ := List.mem_filterMap.mp handed
    cases effect <;> cases same
    exact member
  obtain ⟨running, step⟩ := Wialon.Session.step_cases stepped
  have parsing := Wialon.Session.parsing reached running
  have tidy := Wialon.Session.tidy reached running
  cases step with
  | line => simp at member
  | token granted tok rest =>
    -- Only a token behind the name of a command hands a tree over, so there is one.
    have called : Wialon.deliveries (Wialon.consumeToken boost granted tok s.plugin).output ≠ [] :=
      List.ne_nil_of_mem (List.mem_filterMap.mpr ⟨_, member, rfl⟩)
    have named := (Wialon.consumeToken_stores parsing.placed called).1.named
    have within : s.consumed ≠ [] := fun none => by simp [none] at named
    obtain ⟨t, current⟩ := Option.ne_none_iff_exists'.mp (parsing.rooted within)
    obtain ⟨same, kept, returned⟩ := Wialon.consumeToken_hands boost granted tidy current member
    refine ⟨t, same, kept, fun alive => returned ?_⟩
    simpa [Wialon.Session.take] using alive
  | complete place ok job =>
    exact absurd rfl ((Wialon.handleProcessData_trees ok s.plugin).2.2 _ member tree content)

end Session

/-! ### The parts together -/

/-- The dispatchers that the records of a connection go to. -/
def serials : ProcessData → List Nat
  | .request dispatchTargets => dispatchTargets.map fun target => target.serial
  | .callbackFalse => []

theorem served_call (processData : ProcessData) (record : Nat) :
    served (processData.call record) = serials processData := by
  cases processData with
  | callbackFalse => rfl
  | request dispatchTargets =>
    rw [ProcessData.call, processData_eq]
    split
    next none =>
      rw [none]
      rfl
    next =>
      rw [served, List.filterMap_map, serials, ← List.filterMap_eq_map]
      rfl

/-- A record between existing parts. -/
structure Record.Sound (links dispatchers : Nat) (r : Record) : Prop where
  connection : r.connection < links
  targets : r.fanOut.targets.length = r.targets.length
  serials : ∀ serial ∈ r.targets, serial < dispatchers
  fanOut : Router.fanOut.Reachable r.fanOut

/-- A record of a connection whose callback has not been invoked. -/
def Core.Unanswered (connection record : Nat) (d : Core) : Prop :=
  ∃ r, d.records[record]? = some r ∧ r.connection = connection ∧ r.fanOut.invoked = []

/-- A record of a connection whose callback has been invoked. -/
def Core.Answered (connection record : Nat) (d : Core) : Prop :=
  ∃ r, d.records[record]? = some r ∧ r.connection = connection ∧ r.fanOut.invoked ≠ []

/-- A record whose completion is this one. -/
def Core.Told (connection : Nat) (d : Core) (record : Nat) (c : Wialon.Completion) : Prop :=
  ∃ r, d.records[record]? = some r ∧ r.connection = connection ∧ r.fanOut.invoked = [c.ok]

section Wired

variable (boost : Wialon.Boost) (factory : PluginFactory)

/-- What a connection and the records of it have to do with each other. -/
structure Core.Linked (connection : Nat) (link : Link) (d : Core) : Prop where
  session : (Wialon.session boost).Reachable link.session
  routed : ∀ serial ∈ Daemon.serials link.papi.processData, serial < d.dispatchers.length
  jobs : link.session.jobs.length = link.waiting.length
  distinct : link.waiting.Nodup
  waiting : ∀ record, record ∈ link.waiting ↔ d.Unanswered connection record
  told : List.Forall₂ (d.Told connection) link.settled link.session.completions
  once : link.settled.Nodup
  settled : ∀ record, record ∈ link.settled ↔ d.Answered connection record
  shares : ∀ (record : Nat) (r : Record), d.records[record]? = some r → r.connection = connection →
    ∃ t, r.tree = some t ∧ link.session.Holds t r.content

structure Core.Wired (d : Core) : Prop where
  dispatchers : ∀ dispatcher ∈ d.dispatchers, dispatcher.Sound
  serves : Serves factory d.dispatchers
  records : ∀ (record : Nat) (r : Record), d.records[record]? = some r →
    r.Sound d.links.length d.dispatchers.length
  links : ∀ connection link, d.links[connection]? = some link → d.Linked boost connection link

end Wired

section FanOutStep

variable {boost : Wialon.Boost} {factory : PluginFactory} {d d' : Core} {record : Nat} {r : Record}
  {f : FanOut} {e : Router.Event} {oks : List Bool}

/-- A record after something has happened to its callback. -/
theorem record_set (found : d.records[record]? = some r)
    (records : d'.records = d.records.set record { r with fanOut := f }) (j : Nat) (r' : Record) :
    d'.records[j]? = some r' ↔ j = record ∧ r' = { r with fanOut := f } ∨
      j ≠ record ∧ d.records[j]? = some r' := by
  rw [records]
  exact Replace.getElem?_set found j

/-- A connection that is told nothing notices nothing. -/
theorem Core.Linked.unmoved {connection : Nat} {link : Link}
    (found : d.records[record]? = some r) (invoked : f.invoked = r.fanOut.invoked ++ oks)
    (records : d'.records = d.records.set record { r with fanOut := f })
    (dispatchers : d'.dispatchers = d.dispatchers)
    (silent : oks = [] ∨ connection ≠ r.connection) (linked : d.Linked boost connection link) :
    d'.Linked boost connection link := by
  have lookup := record_set found records
  -- Of this connection, every record has been told the same as before.
  have own (j : Nat) (so : List Bool → Prop) :
      (∃ r', d'.records[j]? = some r' ∧ r'.connection = connection ∧ so r'.fanOut.invoked) ↔
        ∃ r', d.records[j]? = some r' ∧ r'.connection = connection ∧ so r'.fanOut.invoked := by
    by_cases same : j = record
    · subst same
      constructor
      · rintro ⟨r', here, mine, told⟩
        obtain ⟨-, rfl⟩ := ((lookup _ _).mp here).resolve_right fun other => other.1 rfl
        obtain rfl := silent.resolve_right fun other => other mine.symm
        rw [List.append_nil] at invoked
        exact ⟨r, found, mine, invoked ▸ told⟩
      · rintro ⟨r', here, mine, told⟩
        obtain rfl : r = r' := Option.some.inj (found.symm.trans here)
        obtain rfl := silent.resolve_right fun other => other mine.symm
        rw [List.append_nil] at invoked
        exact ⟨_, (lookup _ _).mpr (Or.inl ⟨rfl, rfl⟩), mine, invoked ▸ told⟩
    · refine exists_congr fun r' => and_congr_left fun _ => ?_
      rw [lookup]
      simp [same]
  refine ⟨linked.session, ?_, linked.jobs, linked.distinct, ?_, ?_, linked.once, ?_, ?_⟩
  · rw [dispatchers]
    exact linked.routed
  · intro j
    exact (linked.waiting j).trans (own j (· = [])).symm
  · refine linked.told.imp fun j c told => ?_
    exact (own j (· = [c.ok])).mpr told
  · intro j
    exact (linked.settled j).trans (own j (· ≠ [])).symm
  · intro j r' here mine
    rcases (lookup _ _).mp here with ⟨rfl, rfl⟩ | ⟨-, before⟩
    · exact linked.shares _ r found mine
    · exact linked.shares j r' before mine

/-- The connection that a record belongs to takes its result. -/
theorem Core.Linked.completed {link : Link} {ok : Bool}
    (found : d.records[record]? = some r) (waits : r.fanOut.invoked = []) (told : f.invoked = [ok])
    (linked : d.Linked boost r.connection link) (alive : link.session.crashed = false) :
    ∃ link', link.complete boost record ok = some link' ∧ link'.session.crashed = false ∧
      ∀ d' : Core, d'.records = d.records.set record { r with fanOut := f } →
        d'.dispatchers = d.dispatchers → d'.Linked boost r.connection link' := by
  have member : record ∈ link.waiting := (linked.waiting record).mpr ⟨r, found, rfl, waits⟩
  have place : link.waiting.idxOf record < link.session.jobs.length :=
    linked.jobs ▸ List.idxOf_lt_length_of_mem member
  obtain ⟨session, out, completion, stepped, running, jobs, completions, result⟩ :=
    @session_complete boost _ _ ok alive place
  refine ⟨⟨link.port, session, link.papi, link.waiting.erase record, link.settled ++ [record]⟩,
    ?_, running, ?_⟩
  · rw [Link.complete, stepped]
  intro d' records dispatchers
  have lookup := record_set found records
  have unsettled : record ∉ link.settled := by
    intro settled
    obtain ⟨r', here, -, answered⟩ := (linked.settled record).mp settled
    obtain rfl : r = r' := Option.some.inj (found.symm.trans here)
    exact answered waits
  refine ⟨session_step linked.session stepped, ?_, ?_, linked.distinct.erase record, ?_, ?_, ?_, ?_, ?_⟩
  · rw [dispatchers]
    exact linked.routed
  · dsimp only
    rw [jobs, List.length_eraseIdx_of_lt place, List.length_erase_of_mem member, linked.jobs]
  · intro j
    rw [linked.distinct.mem_erase_iff, linked.waiting]
    constructor
    · rintro ⟨other, r', here, mine, unasked⟩
      exact ⟨r', (lookup _ _).mpr (Or.inr ⟨other, here⟩), mine, unasked⟩
    · rintro ⟨r', here, mine, unasked⟩
      rcases (lookup _ _).mp here with ⟨rfl, rfl⟩ | ⟨other, before⟩
      · exact absurd (told.symm.trans unasked) (List.cons_ne_nil _ _)
      · exact ⟨other, r', before, mine, unasked⟩
  · dsimp only
    rw [completions]
    apply List.rel_append
    · refine linked.told.imp ?_
      rintro j c ⟨r', here, mine, answered⟩
      refine ⟨r', (lookup _ _).mpr (Or.inr ⟨?_, here⟩), mine, answered⟩
      rintro rfl
      obtain rfl : r = r' := Option.some.inj (found.symm.trans here)
      exact absurd (waits.symm.trans answered).symm (List.cons_ne_nil _ _)
    · refine .cons ⟨_, (lookup _ _).mpr (Or.inl ⟨rfl, rfl⟩), rfl, ?_⟩ .nil
      rw [result]
      exact told
  · dsimp only
    rw [← List.concat_eq_append]
    exact linked.once.concat unsettled
  · intro j
    rw [List.mem_append, List.mem_singleton, linked.settled]
    constructor
    · rintro (⟨r', here, mine, answered⟩ | rfl)
      · refine ⟨r', (lookup _ _).mpr (Or.inr ⟨?_, here⟩), mine, answered⟩
        rintro rfl
        obtain rfl : r = r' := Option.some.inj (found.symm.trans here)
        exact answered waits
      · refine ⟨_, (lookup _ _).mpr (Or.inl ⟨rfl, rfl⟩), rfl, ?_⟩
        dsimp only
        rw [told]
        exact List.cons_ne_nil _ _
    · rintro ⟨r', here, mine, answered⟩
      rcases (lookup _ _).mp here with ⟨same, -⟩ | ⟨-, before⟩
      · exact Or.inr same
      · exact Or.inl ⟨r', before, mine, answered⟩
  · intro j r' here mine
    have shared : ∃ t, r'.tree = some t ∧ link.session.Holds t r'.content := by
      rcases (lookup _ _).mp here with ⟨rfl, rfl⟩ | ⟨-, before⟩
      · exact linked.shares _ r found mine
      · exact linked.shares j r' before mine
    obtain ⟨t, tree, holds⟩ := shared
    exact ⟨t, tree, session_holds holds stepped⟩

theorem Core.alive_iff : d.alive = true ↔ ∀ link ∈ d.links, link.session.crashed = false := by
  simp [Core.alive]

/-- What happens to a callback is taken by everyone it concerns. -/
theorem fanOut_wired (wired : d.Wired boost factory) (alive : d.alive = true)
    (found : d.records[record]? = some r) (stepped : r.fanOut.step e = some (f, oks)) :
    ∃ d', d.fanOut boost record e = some d' ∧ d'.Wired boost factory ∧ d'.alive = true ∧
      d'.tasks = d.tasks ∧ d'.dispatchers = d.dispatchers ∧
      d'.records = d.records.set record { r with fanOut := f } := by
  have sound := wired.records record r found
  have invoked := fanOut_invoked stepped
  have set : d.fanOut boost record e = Core.complete boost record r.connection
      { d with records := d.records.set record { r with fanOut := f } } oks := by
    rw [Core.fanOut, found]
    dsimp only
    rw [stepped]
  have records (d' : Core) (links : d'.links.length = d.links.length)
      (dispatchers : d'.dispatchers = d.dispatchers)
      (same : d'.records = d.records.set record { r with fanOut := f }) (j : Nat) (r' : Record)
      (here : d'.records[j]? = some r') : r'.Sound d'.links.length d'.dispatchers.length := by
    rw [links, dispatchers]
    rcases (record_set found same _ _).mp here with ⟨-, rfl⟩ | ⟨-, before⟩
    · have targets : f.targets.length = r.fanOut.targets.length := by
        rw [fanOut_targets stepped]
        cases e <;> simp [touched]
      exact ⟨sound.connection, targets.trans sound.targets, sound.serials, sound.fanOut.step stepped⟩
    · exact wired.records j r' before
  rcases fanOut_tells sound.fanOut stepped with rfl | ⟨waits, ok, rfl⟩
  -- Nobody is told.
  · refine ⟨_, set, ⟨wired.dispatchers, wired.serves, records _ rfl rfl rfl, ?_⟩, alive, rfl, rfl, rfl⟩
    intro connection link here
    exact Core.Linked.unmoved found invoked rfl rfl (Or.inl rfl) (wired.links connection link here)
  -- The connection is told.
  · obtain ⟨link, here⟩ : ∃ link, d.links[r.connection]? = some link :=
      ⟨_, List.getElem?_eq_getElem sound.connection⟩
    have running := Core.alive_iff.mp alive link (List.mem_of_getElem? here)
    rw [waits, List.nil_append] at invoked
    obtain ⟨link', completed, running', linked⟩ :=
      Core.Linked.completed found waits invoked (wired.links _ link here) running
    refine ⟨{ d with
      links := d.links.set r.connection link'
      records := d.records.set record { r with fanOut := f } }, ?_, ⟨wired.dispatchers, wired.serves,
        records _ (List.length_set ..) rfl rfl, ?_⟩, ?_, rfl, rfl, rfl⟩
    · rw [set, Core.complete]
      dsimp only
      rw [here]
      dsimp only
      rw [completed]
      rfl
    · intro connection link₁ here₁
      rcases (Replace.getElem?_set here connection).mp here₁ with ⟨rfl, rfl⟩ | ⟨other, here₁⟩
      · exact linked _ rfl rfl
      · have appended : f.invoked = r.fanOut.invoked ++ [ok] := by rw [waits, invoked, List.nil_append]
        exact Core.Linked.unmoved found appended rfl rfl (Or.inr other)
          (wired.links connection link₁ here₁)
    · rw [Core.alive_iff]
      intro link₁ member
      rcases List.mem_or_eq_of_mem_set member with old | rfl
      · exact Core.alive_iff.mp alive link₁ old
      · exact running'

end FanOutStep

/-! ### New records -/

/-- The record that a call of `process_data` makes. -/
def Record.start (connection : Nat) (processData : ProcessData)
    (call : Option Nat × Wialon.Tree) : Record :=
  ⟨connection, call.1, call.2, serials processData, FanOut.start (serials processData).length⟩

/-- The callbacks that are posted with a record. -/
def posted (targets record : Nat) : List Ticket := (List.range targets).map fun place => ⟨record, place⟩

/-- What the calls of `process_data` for some trees come to. -/
theorem handOver_eq (connection : Nat) (processData : ProcessData)
    (calls : List (Option Nat × Wialon.Tree)) (d : Core) :
    d.handOver connection processData calls =
      ({ d with
        records := d.records ++ calls.map (Record.start connection processData)
        tasks := d.tasks ++ (List.range' d.records.length calls.length).flatMap
          (posted (serials processData).length) },
        List.range' d.records.length calls.length) := by
  induction calls generalizing d with
  | nil => simp [Core.handOver]
  | cons call calls ih =>
    obtain ⟨tree, content⟩ := call
    simp only [Core.handOver, served_call, ih]
    simp [List.range'_succ, Record.start, posted]

section SessionStep

variable {boost : Wialon.Boost} {factory : PluginFactory} {d d' : Core} {connection : Nat}
  {e : Wialon.Event}

theorem Link.advance_some {link : Link} {answers : Str → Str → Bool} {session : Wialon.Session}
    {out : List Wialon.Effect} (advanced : link.advance boost answers e = some (session, out)) :
    link.session.step boost e = some (session, out) :=
  (Option.filter_eq_some_iff.mp advanced).1

/-- A handler of a connection has run. -/
theorem onSession_some (stepped : d.onSession boost factory connection e = some d') :
    ∃ link session out, d.links[connection]? = some link ∧
      link.session.step boost e = some (session, out) ∧
      d' = { d with
        links := d.links.set connection { link with
          session := session
          waiting := link.waiting ++ List.range' d.records.length (handedOver out).length }
        records := d.records ++
          (handedOver out).map (Record.start connection link.papi.processData)
        tasks := d.tasks ++ (List.range' d.records.length (handedOver out).length).flatMap
          (posted (serials link.papi.processData).length) } := by
  rw [Core.onSession] at stepped
  split at stepped
  · cases stepped
  next link here =>
    split at stepped
    · cases stepped
    next session out advanced =>
      rw [handOver_eq] at stepped
      cases stepped
      exact ⟨link, session, out, here, Link.advance_some advanced, rfl⟩

theorem start_reachable (n : Nat) : Router.fanOut.Reachable (FanOut.start n) := .init ⟨n, rfl⟩

/-- A lookup among the records, when new ones have come. -/
theorem record_append {records calls : List Record} {record : Nat} {r : Record} :
    (records ++ calls)[record]? = some r ↔ records[record]? = some r ∨
      records.length ≤ record ∧ calls[record - records.length]? = some r := by
  rw [List.getElem?_append]
  split
  next below => simp [Nat.not_le.mpr below]
  next above =>
    simp [Nat.not_lt.mp above]

/-- The records of a handler are wired like those before. -/
theorem onSession_wired (wired : d.Wired boost factory) (reads : ∀ place ok, e ≠ .complete place ok)
    (stepped : d.onSession boost factory connection e = some d') : d'.Wired boost factory := by
  obtain ⟨link, session, out, here, taken, rfl⟩ := onSession_some stepped
  have linked := wired.links connection link here
  have bound := (List.getElem?_eq_some_iff.mp here).1
  obtain ⟨jobs, completions⟩ := session_jobs taken reads
  -- What a new record is.
  have fresh {i : Nat} {r : Record}
      (found : ((handedOver out).map (Record.start connection link.papi.processData))[i]? = some r) :
      ∃ call ∈ handedOver out, r = Record.start connection link.papi.processData call := by
    rw [List.getElem?_map, Option.map_eq_some_iff] at found
    obtain ⟨call, found, same⟩ := found
    exact ⟨call, List.mem_of_getElem? found, same.symm⟩
  refine ⟨wired.dispatchers, wired.serves, ?_, ?_⟩
  · intro j r found
    dsimp only
    rw [List.length_set]
    rcases record_append.mp found with old | ⟨-, new⟩
    · exact wired.records j r old
    · obtain ⟨call, -, rfl⟩ := fresh new
      exact ⟨bound, List.length_replicate, linked.routed, start_reachable _⟩
  · intro connection₁ link₁ here₁
    by_cases same : connection₁ = connection
    · subst same
      rw [List.getElem?_set_self bound] at here₁
      cases here₁
      refine ⟨session_step linked.session taken, linked.routed, ?_, ?_, ?_, ?_, linked.once, ?_, ?_⟩
      · dsimp only
        rw [jobs, linked.jobs, List.length_append, List.length_range']
      · rw [List.nodup_append]
        refine ⟨linked.distinct, List.nodup_range' .., ?_⟩
        rintro j old _ new rfl
        obtain ⟨r, found, -⟩ := (linked.waiting j).mp old
        have below := (List.getElem?_eq_some_iff.mp found).1
        rw [List.mem_range'_1] at new
        omega
      · intro j
        rw [List.mem_append, linked.waiting, List.mem_range'_1]
        constructor
        · rintro (⟨r, found, mine, waits⟩ | ⟨above, below⟩)
          · exact ⟨r, record_append.mpr (Or.inl found), mine, waits⟩
          · have inside : j - d.records.length < (handedOver out).length := by omega
            refine ⟨Record.start connection₁ link.papi.processData (handedOver out)[j - d.records.length],
              record_append.mpr (Or.inr ⟨above, ?_⟩), rfl, rfl⟩
            rw [List.getElem?_map, List.getElem?_eq_getElem inside]
            rfl
        · rintro ⟨r, found, mine, waits⟩
          rcases record_append.mp found with old | ⟨above, new⟩
          · exact Or.inl ⟨r, old, mine, waits⟩
          · have inside := (List.getElem?_eq_some_iff.mp new).1
            rw [List.length_map] at inside
            exact Or.inr ⟨above, by omega⟩
      · dsimp only
        rw [completions]
        refine linked.told.imp ?_
        rintro j c ⟨r, found, mine, answered⟩
        exact ⟨r, record_append.mpr (Or.inl found), mine, answered⟩
      · intro j
        rw [linked.settled]
        constructor
        · rintro ⟨r, found, mine, answered⟩
          exact ⟨r, record_append.mpr (Or.inl found), mine, answered⟩
        · rintro ⟨r, found, mine, answered⟩
          rcases record_append.mp found with old | ⟨-, new⟩
          · exact ⟨r, old, mine, answered⟩
          · obtain ⟨call, -, rfl⟩ := fresh new
            exact absurd rfl answered
      · intro j r found mine
        rcases record_append.mp found with old | ⟨-, new⟩
        · obtain ⟨t, tree, holds⟩ := linked.shares j r old mine
          exact ⟨t, tree, session_holds holds taken⟩
        · obtain ⟨call, handed, rfl⟩ := fresh new
          exact session_hands linked.session taken handed
    -- To another connection, the new records do not matter.
    · rw [List.getElem?_set_ne (Ne.symm same)] at here₁
      have other := wired.links connection₁ link₁ here₁
      have foreign {i : Nat} {r : Record}
          (found : ((handedOver out).map (Record.start connection link.papi.processData))[i]? = some r) :
          r.connection ≠ connection₁ := by
        obtain ⟨call, -, rfl⟩ := fresh found
        exact Ne.symm same
      refine ⟨other.session, other.routed, other.jobs, other.distinct, ?_, ?_, other.once, ?_, ?_⟩
      · intro j
        rw [other.waiting]
        constructor
        · rintro ⟨r, found, mine, waits⟩
          exact ⟨r, record_append.mpr (Or.inl found), mine, waits⟩
        · rintro ⟨r, found, mine, waits⟩
          have old := (record_append.mp found).resolve_right fun new => foreign new.2 mine
          exact ⟨r, old, mine, waits⟩
      · refine other.told.imp ?_
        rintro j c ⟨r, found, mine, answered⟩
        exact ⟨r, record_append.mpr (Or.inl found), mine, answered⟩
      · intro j
        rw [other.settled]
        constructor
        · rintro ⟨r, found, mine, answered⟩
          exact ⟨r, record_append.mpr (Or.inl found), mine, answered⟩
        · rintro ⟨r, found, mine, answered⟩
          have old := (record_append.mp found).resolve_right fun new => foreign new.2 mine
          exact ⟨r, old, mine, answered⟩
      · intro j r found mine
        have old := (record_append.mp found).resolve_right fun new => foreign new.2 mine
        exact other.shares j r old mine

end SessionStep

end Eiptnd.Daemon
