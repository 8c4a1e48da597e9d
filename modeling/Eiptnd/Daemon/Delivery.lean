import Eiptnd.Daemon.Accounts

/-! What a success that a device is told stands for.

A record counts as stored when every dispatcher it was routed to has said so, and the Redis
dispatcher says so when the client has called the callback of the message that was published
for it. -/
namespace Eiptnd.Daemon

open Reactive Router

/-- What a record held when it was handed over. -/
def Core.contentOf (ticket : Ticket) (d : Core) : Option Wialon.Tree :=
  d.records[ticket.record]?.map Record.content

section

variable (json : Dptree.Boost)

/-- The message that a Redis dispatcher makes of a record. -/
def messageOf (dr : DispatcherRedis) (content : Wialon.Tree) : Option Redis.Bytes :=
  Dptree.writeJsonInternal json dr.pretty (recordTree content)

/-- A publication is about a record that goes to this dispatcher. -/
def Core.Stamps (serial : Nat) (dr : DispatcherRedis) (p : Publication) (d : Core) : Prop :=
  d.serialOf p.ticket = some serial ∧
    ∃ content, d.contentOf p.ticket = some content ∧ messageOf json dr content = some p.message

/-- If a ticket is made out to a Redis dispatcher, the publication of its record has succeeded. -/
def Core.Vouches (ticket : Ticket) (d : Core) : Prop :=
  ∀ serial dr, d.serialOf ticket = some serial → d.dispatchers[serial]? = some (.redis dr) →
    ∃ content message, d.contentOf ticket = some content ∧
      messageOf json dr content = some message ∧ dr.Succeeded ticket message

structure Core.Vouched (d : Core) : Prop where
  stamped : ∀ serial dr, d.dispatchers[serial]? = some (.redis dr) →
    ∀ p, some p ∈ dr.owners → d.Stamps json serial dr p
  vouched : ∀ ticket, d.target ticket = some ⟨some true, false⟩ → d.Vouches json ticket

end

theorem messageOf_run {json : Dptree.Boost} {dr dr' : DispatcherRedis} {owner : Option Publication}
    {e : Redis.Event} {reported : List Report} (ran : dr.run owner e = some (dr', reported)) :
    messageOf json dr' = messageOf json dr := by
  funext content
  rw [messageOf, messageOf, DispatcherRedis.run_pretty ran]

theorem SameRecords.contentOf {d d' : Core} (same : SameRecords d d') (ticket : Ticket) :
    d'.contentOf ticket = d.contentOf ticket := by
  have here := congrArg (Option.map fun handed : Nat × Option Nat × Wialon.Tree × List Nat =>
    handed.2.2.1) (same ticket.record)
  rw [Option.map_map, Option.map_map] at here
  exact here

section Step

variable {boost : Wialon.Boost} {factory : PluginFactory} {json : Dptree.Boost} {d d' : Core}
  {reported : List Report}

/-- Nothing is said about a record but what it is about, and by the dispatchers. -/
theorem Core.Vouches.congr {ticket : Ticket} (same : SameRecords d d')
    (dispatchers : d'.dispatchers = d.dispatchers) (vouches : d.Vouches json ticket) :
    d'.Vouches json ticket := by
  intro serial dr mine found
  rw [same.serialOf] at mine
  rw [dispatchers] at found
  rw [same.contentOf]
  exact vouches serial dr mine found

theorem Core.Vouched.congr (same : SameRecords d d') (dispatchers : d'.dispatchers = d.dispatchers)
    (targets : ∀ ticket, d'.target ticket = some ⟨some true, false⟩ →
      d.target ticket = some ⟨some true, false⟩ ∨ d.Vouches json ticket)
    (vouched : d.Vouched json) : d'.Vouched json := by
  constructor
  · intro serial dr found p member
    rw [dispatchers] at found
    have stamps := vouched.stamped serial dr found p member
    rw [Core.Stamps, same.serialOf, same.contentOf]
    exact stamps
  · intro ticket yes
    rcases targets ticket yes with old | new
    · exact (vouched.vouched ticket old).congr same dispatchers
    · exact new.congr same dispatchers

/-! ### A dispatcher among the others -/

/-- How a Redis dispatcher has come to be as it is. -/
def Ran (json : Dptree.Boost) (d : Core) (serial : Nat) (dispatcher dispatcher' : Dispatcher)
    (reported : List Report) : Prop :=
  ∀ dr', dispatcher' = .redis dr' → ∃ dr owner e, dispatcher = .redis dr ∧
    dr.run owner e = some (dr', reported) ∧ ∀ p, owner = some p → d.Stamps json serial dr p

theorem act_ran {serial : Nat} {dispatcher dispatcher' : Dispatcher} {activity : Activity}
    (acts : dispatcher.act activity = some (dispatcher', reported)) :
    Ran json d serial dispatcher dispatcher' reported := by
  rintro dr' rfl
  cases dispatcher with
  | redis dr =>
    cases activity with
    | handler e =>
      rw [Dispatcher.act] at acts
      split at acts
      · obtain ⟨⟨dr₁, reported₁⟩, ran, same⟩ := Option.map_eq_some_iff.mp acts
        cases same
        exact ⟨dr, none, e, rfl, ran, by simp⟩
      · cases acts
    | timer => cases acts
  | logger dl =>
    cases activity with
    | handler => cases acts
    | timer place =>
      rw [Dispatcher.act] at acts
      obtain ⟨_, -, same⟩ := Option.map_eq_some_iff.mp acts
      cases same

theorem handleProcessData_ran {serial : Nat} {dispatcher dispatcher' : Dispatcher} {ticket : Ticket}
    {content : Wialon.Tree} (mine : d.serialOf ticket = some serial)
    (about : d.contentOf ticket = some content)
    (handled : dispatcher.handleProcessData json ticket (recordTree content) =
      some (dispatcher', reported)) : Ran json d serial dispatcher dispatcher' reported := by
  rintro dr' rfl
  cases dispatcher with
  | redis dr =>
    rw [Dispatcher.handleProcessData, DispatcherRedis.handleProcessData] at handled
    obtain ⟨⟨dr₁, reported₁⟩, ran, same⟩ := Option.map_eq_some_iff.mp handled
    cases same
    split at ran
    · cases ran
    next message written =>
      refine ⟨dr, _, _, rfl, ran, ?_⟩
      intro p handed
      cases handed
      exact ⟨mine, content, about, written⟩
  | logger dl =>
    rw [Dispatcher.handleProcessData] at handled
    obtain ⟨_, -, same⟩ := Option.map_eq_some_iff.mp handled
    cases same

/-- A dispatcher that has run says nothing that is not so. -/
theorem Core.Vouched.ran {serial : Nat} {dispatcher dispatcher' : Dispatcher} {tasks : List Ticket}
    (vouched : d.Vouched json) (wired : d.Wired boost factory)
    (found : d.dispatchers[serial]? = some dispatcher)
    (ran : Ran json d serial dispatcher dispatcher' reported)
    (mine : ∀ ticket ∈ reported.map Prod.fst, d.serialOf ticket = some serial) :
    ({ d with tasks := tasks, dispatchers := d.dispatchers.set serial dispatcher' } :
        Core).Vouched json ∧
      ∀ ticket, (ticket, true) ∈ reported → ({ d with
        tasks := tasks
        dispatchers := d.dispatchers.set serial dispatcher' } : Core).Vouches json ticket := by
  have bound := (List.getElem?_eq_some_iff.mp found).1
  have sound := wired.dispatchers dispatcher (List.mem_of_getElem? found)
  -- The dispatcher under a number, before and after.
  have lookup {serial₁ : Nat} {dr' : DispatcherRedis}
      (there : (d.dispatchers.set serial dispatcher')[serial₁]? = some (.redis dr')) :
      serial₁ = serial ∧ dispatcher' = .redis dr' ∨ d.dispatchers[serial₁]? = some (.redis dr') := by
    rcases (Replace.getElem?_set found serial₁).mp there with ⟨own, same⟩ | ⟨-, before⟩
    · exact Or.inl ⟨own, same.symm⟩
    · exact Or.inr before
  -- Its publications are about records as before, or about the one just handed in.
  have stamped (dr' : DispatcherRedis) (same : dispatcher' = .redis dr') (p : Publication)
      (member : some p ∈ dr'.owners) : d.Stamps json serial dr' p := by
    obtain ⟨dr, owner, e, rfl, ran, handed⟩ := ran dr' same
    rw [Core.Stamps, messageOf_run ran]
    rcases DispatcherRedis.run_owners ran member with old | new
    · exact vouched.stamped serial dr found p old
    · exact handed p new
  refine ⟨⟨?_, ?_⟩, ?_⟩
  · intro serial₁ dr' there p member
    rcases lookup there with ⟨rfl, same⟩ | before
    · exact stamped dr' same p member
    · exact vouched.stamped serial₁ dr' before p member
  · intro ticket yes serial₁ dr' here there
    rcases lookup there with ⟨rfl, same⟩ | before
    · obtain ⟨dr, owner, e, rfl, ran, -⟩ := ran dr' same
      obtain ⟨content, message, about, made, succeeded⟩ :=
        vouched.vouched ticket yes serial₁ dr here found
      rw [← messageOf_run ran] at made
      exact ⟨content, message, about, made, DispatcherRedis.run_keeps sound succeeded ran⟩
    · exact vouched.vouched ticket yes serial₁ dr' here before
  · intro ticket yes serial₁ dr' here there
    have own : d.serialOf ticket = some serial := mine ticket (List.mem_map_of_mem yes)
    obtain rfl : serial₁ = serial := Option.some.inj (here.symm.trans own)
    dsimp only at there
    rw [List.getElem?_set_self bound, Option.some.injEq] at there
    obtain ⟨dr, owner, e, rfl, ran, -⟩ := ran dr' there
    obtain ⟨message, answer, member, ok, owned⟩ := DispatcherRedis.run_succeeds sound ran yes
    -- The message that has succeeded is the one for this record.
    have published : some (⟨ticket, message⟩ : Publication) ∈ dr'.owners := by
      rw [ownerOf] at owned
      exact List.mem_of_getElem? (Option.join_eq_some_iff.mp owned)
    obtain ⟨-, content, about, same⟩ := stamped dr' there _ published
    exact ⟨content, message, about, same, answer, member, ok, owned⟩

/-! ### Every step -/

theorem Core.contentOf_append {new : List Record} (records : d'.records = d.records ++ new)
    {ticket : Ticket} {serial : Nat} (mine : d.serialOf ticket = some serial) :
    d'.serialOf ticket = some serial ∧ d'.contentOf ticket = d.contentOf ticket := by
  rw [Core.serialOf] at mine ⊢
  rw [Core.contentOf, Core.contentOf, records]
  cases old : d.records[ticket.record]? with
  | none => simp [old] at mine
  | some r =>
    rw [old] at mine
    rw [List.getElem?_append_left (List.getElem?_eq_some_iff.mp old).1, old]
    exact ⟨mine, rfl⟩

/-- New records have not been reported by anybody. -/
theorem onSession_vouched {connection : Nat} {e : Wialon.Event} (wired : d.Wired boost factory)
    (vouched : d.Vouched json) (stepped : d.onSession boost factory connection e = some d') :
    d'.Vouched json := by
  obtain ⟨link, session, out, -, -, moved⟩ := onSession_some stepped
  have records : d'.records = d.records ++
      (handedOver out).map (Record.start connection link.papi.processData) := by rw [moved]
  have dispatchers : d'.dispatchers = d.dispatchers := by rw [moved]
  constructor
  · intro serial dr found p member
    rw [dispatchers] at found
    obtain ⟨mine, content, about, same⟩ := vouched.stamped serial dr found p member
    obtain ⟨mine', about'⟩ := Core.contentOf_append records mine
    exact ⟨mine', content, about'.trans about, same⟩
  · intro ticket yes serial dr mine found
    rw [dispatchers] at found
    obtain ⟨r, here, target⟩ := Option.bind_eq_some_iff.mp yes
    rw [records] at here
    rcases record_append.mp here with old | ⟨-, new⟩
    · have before : d.target ticket = some ⟨some true, false⟩ := by
        rw [Core.target, old]
        exact target
      have sound := wired.records _ r old
      obtain ⟨bound, -⟩ := List.getElem?_eq_some_iff.mp target
      rw [sound.targets] at bound
      have mine₁ : d.serialOf ticket = some r.targets[ticket.place] := by
        rw [Core.serialOf, old]
        exact List.getElem?_eq_getElem bound
      obtain ⟨mine', about'⟩ := Core.contentOf_append records mine₁
      obtain rfl := Option.some.inj (mine'.symm.trans mine)
      obtain ⟨content, message, about, succeeded⟩ := vouched.vouched ticket before _ dr mine₁ found
      exact ⟨content, message, about'.trans about, succeeded⟩
    · -- A new record has no target that has reported.
      rw [List.getElem?_map, Option.map_eq_some_iff] at new
      obtain ⟨call, -, rfl⟩ := new
      have fresh : (Record.start connection link.papi.processData call).fanOut.targets =
          List.replicate (serials link.papi.processData).length ⟨none, true⟩ := rfl
      rw [fresh, List.getElem?_replicate] at target
      split at target <;> cases target

theorem Core.Fresh.vouched (fresh : d.Fresh factory) : d.Vouched json := by
  constructor
  · intro serial dr found p member
    have start := fresh.dispatchers _ (List.mem_of_getElem? found)
    rw [start.owners] at member
    cases member
  · intro ticket yes
    rw [Core.target, fresh.records] at yes
    cases yes

theorem vouched_of_reachable (reached : (core boost factory json).Reachable d) : d.Vouched json := by
  apply reached.invariant (Core.Vouched json)
  · exact fun d fresh => fresh.vouched
  intro d e d' reported before vouched stepped
  obtain ⟨wired, books⟩ := books_of_reachable before
  obtain ⟨alive, step⟩ := step_cases stepped
  -- What is left to do once a dispatcher has run.
  have report {d₁ : Core}
      (kept : d₁.Wired boost factory ∧ d₁.links = d.links ∧ d₁.Books (reported.map Prod.fst))
      (vouched₁ : d₁.Vouched json)
      (vouches : ∀ ticket, (ticket, true) ∈ reported → d₁.Vouches json ticket)
      (done : d₁.reportAll boost reported = some d') : d'.Vouched json := by
    obtain ⟨-, -, -, dispatchers, records, targets⟩ := reportAll_kept alive kept done
    apply vouched₁.congr records dispatchers
    intro ticket yes
    rcases targets ticket _ yes with old | ⟨ok, member, equal⟩
    · exact Or.inl old
    · cases equal
      exact Or.inr (vouches ticket member)
  cases step with
  | accept => exact ⟨vouched.stamped, vouched.vouched⟩
  | session connection e _ _ reads moved => exact onSession_vouched wired vouched moved
  | fanOut record e _ _ still moved =>
    obtain ⟨-, -, dispatchers, records, targets⟩ := fanOut_books wired alive books still moved
    exact vouched.congr records dispatchers fun ticket yes => Or.inl (targets ticket ▸ yes)
  | run place d₁ _ _ ran done =>
    have kept := run_books wired books ran
    obtain ⟨ticket, serial, tree, dispatcher, dispatcher', posted, mine, shared, found, handled,
      rfl⟩ := run_some ran
    have sound := wired.dispatchers dispatcher (List.mem_of_getElem? found)
    obtain ⟨r, _, _, here, -, -, content⟩ :=
      ticket_leads wired books (List.mem_append_left _ (List.mem_of_getElem? posted))
    obtain rfl : tree = r.content := Option.some.inj (shared.symm.trans content)
    have about : d.contentOf ticket = some r.content := by
      rw [Core.contentOf, here]
      rfl
    have own : ∀ other ∈ reported.map Prod.fst, d.serialOf other = some serial := by
      intro other member
      have origin := (Dispatcher.handleProcessData_held sound handled).2.subset
        (List.mem_append_left _ member)
      rcases List.mem_append.mp origin with old | new
      · exact books.assigned serial dispatcher found other old
      · rw [List.mem_singleton.mp new]
        exact mine
    obtain ⟨vouched₁, vouches⟩ :=
      vouched.ran wired found (handleProcessData_ran mine about handled) own
    exact report kept vouched₁ vouches done
  | act serial activity d₁ _ _ acted done =>
    have kept := act_books wired books acted
    obtain ⟨dispatcher, dispatcher', found, acts, rfl⟩ := act_some acted
    have sound := wired.dispatchers dispatcher (List.mem_of_getElem? found)
    have own : ∀ other ∈ reported.map Prod.fst, d.serialOf other = some serial := by
      intro other member
      have origin := (Dispatcher.act_held sound acts).2.subset (List.mem_append_left _ member)
      exact books.assigned serial dispatcher found other origin
    obtain ⟨vouched₁, vouches⟩ := vouched.ran wired found (act_ran acts) own
    exact report kept vouched₁ vouches done

/-! ### Success -/

/-- The JSON object of a record. -/
def recordValue (content : Wialon.Tree) : Json.Value :=
  .object (content.map fun entry => (entry.1, .string entry.2))

theorem recordTree_plain (content : Wialon.Tree) :
    (recordTree content).Exact ∧ (recordTree content).Wide ∧
      Dptree.denote true (recordTree content) = recordValue content := by
  have leaves : Dptree.EverywhereIn (fun data _ => ¬ data.Floating)
        (content.map fun entry => (entry.1, .node (.string entry.2) [])) ∧
      Dptree.EverywhereIn (fun data _ => ¬ data.Narrow)
        (content.map fun entry => (entry.1, .node (.string entry.2) [])) ∧
      Dptree.denoteChildren (content.map fun entry => (entry.1, .node (.string entry.2) [])) =
        content.map fun entry => (entry.1, .string entry.2) := by
    induction content with
    | nil => exact ⟨trivial, trivial, rfl⟩
    | cons entry content ih =>
      obtain ⟨exact, wide, denoted⟩ := ih
      refine ⟨⟨⟨id, trivial⟩, exact⟩, ⟨⟨id, trivial⟩, wide⟩, ?_⟩
      rw [List.map_cons, Dptree.denoteChildren, denoted]
      rfl
  refine ⟨⟨id, leaves.1⟩, ⟨id, leaves.2.1⟩, ?_⟩
  rw [recordTree, Dptree.denote, if_neg (by simp), if_neg (by simp), leaves.2.2]
  rfl

theorem messageOf_parse (documented : json.Documented) {dr : DispatcherRedis}
    {content : Wialon.Tree} {message : Redis.Bytes} (made : messageOf json dr content = some message) :
    Json.parse message = some (recordValue content) := by
  obtain ⟨exact, wide, denoted⟩ := recordTree_plain content
  rw [Dptree.writeJsonInternal_some documented made,
    Dptree.parse_writeJson documented dr.pretty exact wide, denoted]

/-- The record holds this, and its dispatchers, one at least, have all reported success: a Redis
dispatcher when the callback was called of the message that it had published, which read as JSON
is the record. -/
def Core.Succeeded (connection record : Nat) (content : Wialon.Tree) (d : Core) : Prop :=
  ∃ r, d.records[record]? = some r ∧ r.connection = connection ∧ r.content = content ∧
    r.targets ≠ [] ∧ ∀ place serial : Nat, r.targets[place]? = some serial →
      d.target ⟨record, place⟩ = some ⟨some true, false⟩ ∧ ∀ dr : DispatcherRedis,
        d.dispatchers[serial]? = some (.redis dr) → ∃ message, dr.Succeeded ⟨record, place⟩ message ∧
          Json.parse message = some (recordValue content)

/-- A record whose result is success has succeeded with every dispatcher. -/
theorem Core.Told.succeeded (documented : json.Documented)
    (reached : (core boost factory json).Reachable d) {connection record : Nat}
    {c : Wialon.Completion} (told : d.Told connection record c) (yes : c.ok = true) :
    ∃ content, d.Succeeded connection record content := by
  obtain ⟨wired, books⟩ := books_of_reachable reached
  have vouched := vouched_of_reachable reached
  obtain ⟨r, found, mine, told⟩ := told
  have sound := wired.records record r found
  rw [yes, invoked_verdict sound.fanOut (books.clean_of found), verdict] at told
  split at told
  next decided =>
    simp only [List.cons.injEq, Bool.and_eq_true, Bool.not_eq_true', List.isEmpty_eq_false_iff,
      List.all_eq_true, beq_iff_eq, and_true] at told
    obtain ⟨some, all⟩ := told
    refine ⟨r.content, r, found, mine, rfl, ?_, ?_⟩
    · rintro none
      apply some
      rw [← List.length_eq_zero_iff, sound.targets, none]
      rfl
    · intro place serial listed
      have bound := (List.getElem?_eq_some_iff.mp listed).1
      rw [← sound.targets] at bound
      have member := List.getElem_mem bound
      -- The verdict is true only if each target has reported true.
      have target : d.target ⟨record, place⟩ = .some ⟨.some true, false⟩ := by
        rw [Core.target, found, Option.bind_some, List.getElem?_eq_getElem bound]
        rcases books.clean_of found _ member with unused | ⟨ok, used⟩
        · have reported := all _ member
          rw [unused] at reported
          cases reported
        · have reported := all _ member
          rw [used] at reported
          rw [used]
          exact congrArg (fun report => Option.some (Target.mk report false)) reported
      refine ⟨target, fun dr there => ?_⟩
      have out : d.serialOf ⟨record, place⟩ = .some serial := by
        rw [Core.serialOf, found]
        exact listed
      obtain ⟨content, message, about, made, succeeded⟩ :=
        vouched.vouched _ target serial dr out there
      rw [Core.contentOf, found, Option.map_some, Option.some.injEq] at about
      subst about
      exact ⟨message, succeeded, messageOf_parse documented made⟩
  next => cases told

end Step

end Eiptnd.Daemon
