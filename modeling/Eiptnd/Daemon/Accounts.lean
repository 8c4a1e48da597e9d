import Eiptnd.Daemon.Boot

/-! What the books say about the daemon at any moment: where the callbacks are, and what the
requesters have been told. -/
namespace Eiptnd.Daemon

open Reactive Router

section

variable {boost : Wialon.Boost} {factory : PluginFactory} {json : Dptree.Boost} {d d' : Core}

/-! ### What the books say -/

/-- All that has to happen before the requester of a record is told its result. -/
def Decided (f : FanOut) : Prop :=
  f.posted = false ∧ (∀ target ∈ f.targets, target.report ≠ none) ∧
    (1 < f.targets.length → f.calling = false)

instance : DecidablePred Decided := fun _ => inferInstanceAs (Decidable (_ ∧ _ ∧ _))

/-- What the requester of a record is to be told until then, and from then on. -/
def verdict (f : FanOut) : List Bool :=
  if Decided f then [!f.targets.isEmpty && f.targets.all (·.report == some true)] else []

private theorem clean_all {targets : List Target} (clean : ∀ target ∈ targets, Clean target)
    (reported : ∀ target ∈ targets, target.report ≠ none) :
    targets.all (·.report != some false) = targets.all (·.report == some true) := by
  rw [Bool.eq_iff_iff, List.all_eq_true, List.all_eq_true]
  refine forall_congr' fun target => forall_congr' fun member => ?_
  rcases clean target member with rfl | ⟨ok, rfl⟩
  · exact absurd rfl (reported _ member)
  · cases ok <;> decide

theorem invoked_verdict {f : FanOut} (reached : Router.fanOut.Reachable f)
    (clean : ∀ target ∈ f.targets, Clean target) : f.invoked = verdict f := by
  rw [verdict]
  cases FanOut.books reached with
  | none empty invoked =>
    have decided : Decided f ↔ f.posted = false := by simp [Decided, empty]
    rw [invoked]
    cases posted : f.posted with
    | true => simp [decided, posted]
    | false => simp [decided, posted, empty]
  | one target single posted invoked =>
    have decided : Decided f ↔ target.report ≠ none := by simp [Decided, single, posted]
    rw [invoked]
    cases report : target.report with
    | none => simp [decided, report]
    | some ok => cases ok <;> simp [decided, report, single]
  | many several posted result invoked =>
    have held : f.held = false ↔ Decided f := by
      simp only [FanOut.held, Bool.or_eq_false_iff, List.any_eq_false, Decided, posted, several,
        true_and, forall_const]
      rw [and_comm]
      refine and_congr_left fun _ => forall_congr' fun target => forall_congr' fun member => ?_
      rcases clean target member with rfl | ⟨ok, rfl⟩ <;> simp
    rw [invoked]
    by_cases decided : Decided f
    · have nonempty : f.targets.isEmpty = false := by
        cases targets : f.targets with
        | nil => simp [targets] at several
        | cons => rfl
      rw [held.mpr decided, if_neg (by simp), if_pos decided, result,
        clean_all clean decided.2.1, nonempty]
      rfl
    · have still : f.held = true := by simpa using mt held.mp decided
      rw [still, if_pos rfl, if_neg decided]

theorem Core.Books.clean_of {due : List Ticket} (books : d.Books due) {record : Nat} {r : Record}
    (found : d.records[record]? = some r) : ∀ target ∈ r.fanOut.targets, Clean target := by
  intro target member
  obtain ⟨place, there⟩ := List.getElem?_of_mem member
  apply books.clean ⟨record, place⟩
  rw [Core.target, found]
  exact there

/-- A ticket that is out leads to a dispatcher, and to the tree as it was handed over. -/
theorem ticket_leads (wired : d.Wired boost factory) (books : d.Books []) {ticket : Ticket}
    (out : ticket ∈ d.tasks ++ d.held) : ∃ r serial dispatcher,
      d.records[ticket.record]? = some r ∧ d.serialOf ticket = some serial ∧
      d.dispatchers[serial]? = some dispatcher ∧ d.treeOf ticket = some r.content := by
  have unused : d.target ticket = some ⟨none, true⟩ := by
    by_contra other
    have counted := books.counted ticket
    rw [if_neg other, List.append_nil] at counted
    exact List.count_eq_zero.mp counted out
  obtain ⟨r, found, there⟩ := Option.bind_eq_some_iff.mp unused
  have sound := wired.records _ r found
  have bound := (List.getElem?_eq_some_iff.mp there).1
  rw [sound.targets] at bound
  have mine : d.serialOf ticket = some r.targets[ticket.place] := by
    rw [Core.serialOf, found]
    exact List.getElem?_eq_getElem bound
  have made := sound.serials _ (List.getElem_mem bound)
  obtain ⟨link, here⟩ : ∃ link, d.links[r.connection]? = some link :=
    ⟨_, List.getElem?_eq_getElem sound.connection⟩
  obtain ⟨t, tree, holds⟩ := (wired.links _ _ here).shares _ r found rfl
  refine ⟨r, _, _, found, mine, List.getElem?_eq_getElem made, ?_⟩
  rw [Core.treeOf, found]
  dsimp only
  rw [here, tree]
  exact holds.1

/-- In every run of the daemon, the callback of each target that has not reported is in one
place, once: with a posted call or with a dispatcher. A record's requester has been told what
the targets have come to as soon as all have reported, and nothing before; and a connection
waits for exactly its records that have no result yet, and has completed each other one once. -/
theorem callbacks_accounted (reached : (core boost factory json).Reachable d) :
    (∀ ticket, (d.tasks ++ d.held).count ticket =
      if d.target ticket = some ⟨none, true⟩ then 1 else 0) ∧
    (∀ (record : Nat) (r : Record), d.records[record]? = some r →
      r.fanOut.invoked = verdict r.fanOut) ∧
    ∀ (connection : Nat) (link : Link), d.links[connection]? = some link →
      link.session.jobs.length = link.waiting.length ∧ (link.waiting ++ link.settled).Nodup ∧
        (∀ record, record ∈ link.waiting ↔ d.Unanswered connection record) ∧
        ∀ record, record ∈ link.settled ↔ d.Answered connection record := by
  obtain ⟨wired, books⟩ := books_of_reachable reached
  refine ⟨?_, ?_, ?_⟩
  · intro ticket
    have counted := books.counted ticket
    rwa [List.append_nil] at counted
  · intro record r found
    exact invoked_verdict (wired.records record r found).fanOut (books.clean_of found)
  · intro connection link here
    have linked := wired.links connection link here
    refine ⟨linked.jobs, ?_, linked.waiting, linked.settled⟩
    rw [List.nodup_append]
    refine ⟨linked.distinct, linked.once, ?_⟩
    rintro record waits _ settled rfl
    obtain ⟨r, found, -, unasked⟩ := (linked.waiting record).mp waits
    obtain ⟨r', found', -, answered⟩ := (linked.settled record).mp settled
    obtain rfl : r = r' := Option.some.inj (found.symm.trans found')
    exact answered unasked

theorem callbacks_accounted_message :
    (exampleAfter exampleMessage).target ⟨0, 1⟩ = some ⟨none, true⟩ ∧
    ((exampleAfter exampleMessage).tasks ++ (exampleAfter exampleMessage).held).count ⟨0, 1⟩ = 1 ∧
    (exampleAfter exampleMessage).records.map (fun r => r.fanOut.invoked) = [[]] := by
  have out : (exampleAfter exampleMessage).target ⟨0, 1⟩ = some ⟨none, true⟩ := by decide +kernel
  have counted := (callbacks_accounted (example_reachable exampleMessage)).1 ⟨0, 1⟩
  rw [if_pos out] at counted
  exact ⟨out, counted, by decide +kernel⟩

/-- Nothing gets lost on the way: when no call is posted or under way and no dispatcher holds a
callback, every requester has been told what its targets have come to, and every connection
has completed each of its records, once. -/
theorem quiet_settled (reached : (core boost factory json).Reachable d) (tasks : d.tasks = [])
    (held : d.held = [])
    (returned : ∀ r ∈ d.records, r.fanOut.calling = false ∧ r.fanOut.posted = false) :
    (∀ r ∈ d.records, r.fanOut.invoked =
      [!r.fanOut.targets.isEmpty && r.fanOut.targets.all (·.report == some true)]) ∧
    ∀ (connection : Nat) (link : Link), d.links[connection]? = some link →
      link.session.jobs = [] ∧ link.settled.Nodup ∧ ∀ record,
        record ∈ link.settled ↔ ∃ r, d.records[record]? = some r ∧ r.connection = connection := by
  obtain ⟨wired, books⟩ := books_of_reachable reached
  have decided {record : Nat} {r : Record} (found : d.records[record]? = some r) :
      r.fanOut.invoked =
        [!r.fanOut.targets.isEmpty && r.fanOut.targets.all (·.report == some true)] := by
    obtain ⟨calling, posted⟩ := returned r (List.mem_of_getElem? found)
    rw [invoked_verdict (wired.records record r found).fanOut (books.clean_of found), verdict,
      if_pos]
    refine ⟨posted, ?_, fun _ => calling⟩
    -- A target that has not reported would have its callback with somebody.
    intro target member unreported
    obtain ⟨place, there⟩ := List.getElem?_of_mem member
    rcases books.clean_of found target member with rfl | ⟨ok, rfl⟩
    · have counted := books.counted ⟨record, place⟩
      have out : d.target ⟨record, place⟩ = some ⟨none, true⟩ := by
        rw [Core.target, found]
        exact there
      rw [if_pos out, tasks, held] at counted
      cases counted
    · cases unreported
  refine ⟨?_, ?_⟩
  · intro r member
    obtain ⟨record, found⟩ := List.getElem?_of_mem member
    exact decided found
  · intro connection link here
    have linked := wired.links connection link here
    have idle : link.waiting = [] := by
      apply List.eq_nil_iff_forall_not_mem.mpr
      intro record waits
      obtain ⟨r, found, -, unasked⟩ := (linked.waiting record).mp waits
      rw [decided found] at unasked
      cases unasked
    refine ⟨?_, linked.once, ?_⟩
    · rw [← List.length_eq_zero_iff, linked.jobs, idle]
      rfl
    · intro record
      rw [linked.settled]
      refine exists_congr fun r => and_congr_right fun found => and_iff_left ?_
      rw [decided found]
      exact List.cons_ne_nil _ _

/-- The logger answers after its delay, and Redis once the message has been counted. -/
def exampleStored : List Event := exampleMessage ++ [
  .returned 0, .act 1 (.handler (.handleConnect true [])), .run 1, .run 0, .act 0 (.timer 0),
  .act 1 (.handler .writeDone), .act 1 (.handler (.readDone ":1\r\n".toList))]

theorem quiet_settled_stored : ∃ link, (exampleAfter exampleStored).links[0]? = some link ∧
    0 ∈ link.settled ∧ link.session.jobs = [] := by
  have one : (exampleAfter exampleStored).links.length = 1 := by decide +kernel
  have mine : (exampleAfter exampleStored).records.map Record.connection = [0] := by decide +kernel
  have tasks : (exampleAfter exampleStored).tasks = [] := by decide +kernel
  have held : (exampleAfter exampleStored).held = [] := by decide +kernel
  have returned : (exampleAfter exampleStored).records.map (fun r =>
      (r.fanOut.calling, r.fanOut.posted)) = [(false, false)] := by decide +kernel
  obtain ⟨r, records, same⟩ := List.map_eq_singleton_iff.mp mine
  rw [records, List.map_singleton, List.singleton_inj, Prod.mk.injEq] at returned
  have quiet := quiet_settled (example_reachable exampleStored) tasks held
    (by rw [records]; simpa using returned)
  obtain ⟨link, here⟩ : ∃ link, (exampleAfter exampleStored).links[0]? = some link :=
    ⟨_, List.getElem?_eq_getElem (by omega)⟩
  obtain ⟨idle, -, settled⟩ := quiet.2 0 link here
  exact ⟨link, here, (settled 0).mpr ⟨r, by rw [records]; rfl, same⟩, idle⟩

end

end Eiptnd.Daemon
