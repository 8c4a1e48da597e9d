import Eiptnd.Daemon.Wiring

/-! The books of the whole daemon: where every callback is that has not been invoked yet.

A handler of a dispatcher may have several reports to make. Until it has made them, they are
due: nobody else has their callbacks any more. -/
namespace Eiptnd.Daemon

open Reactive Router

/-- What has become of the target that a ticket stands for. -/
def Core.target (ticket : Ticket) (d : Core) : Option Target :=
  d.records[ticket.record]?.bind fun r => r.fanOut.targets[ticket.place]?

/-- The callbacks that the dispatchers have. -/
def Core.held (d : Core) : List Ticket := d.dispatchers.flatMap Dispatcher.held

/-- A target that still has its callback, and one that has used it and has let go of it. -/
def Clean (target : Target) : Prop := target = ⟨none, true⟩ ∨ ∃ ok, target = ⟨some ok, false⟩

structure Core.Books (due : List Ticket) (d : Core) : Prop where
  counted : ∀ ticket, (d.tasks ++ d.held ++ due).count ticket =
    if d.target ticket = some ⟨none, true⟩ then 1 else 0
  clean : ∀ ticket target, d.target ticket = some target → Clean target
  assigned : ∀ serial dispatcher, d.dispatchers[serial]? = some dispatcher →
    ∀ ticket ∈ dispatcher.held, d.serialOf ticket = some serial

/-- What a record is about, whatever has become of it. -/
def Record.handed (r : Record) : Nat × Option Nat × Wialon.Tree × List Nat :=
  (r.connection, r.tree, r.content, r.targets)

/-- Of what records are about, nothing changes. -/
def SameRecords (d d' : Core) : Prop :=
  ∀ record : Nat, d'.records[record]?.map Record.handed = d.records[record]?.map Record.handed

theorem SameRecords.trans {d d' d'' : Core} (first : SameRecords d d') (second : SameRecords d' d'') :
    SameRecords d d'' := fun record => (second record).trans (first record)

theorem SameRecords.serialOf {d d' : Core} (same : SameRecords d d') (ticket : Ticket) :
    d'.serialOf ticket = d.serialOf ticket := by
  have here := same ticket.record
  rw [Core.serialOf, Core.serialOf]
  cases found : d.records[ticket.record]? with
  | none =>
    rw [found, Option.map_none, Option.map_eq_none_iff] at here
    rw [here]
  | some r =>
    rw [found, Option.map_some, Option.map_eq_some_iff] at here
    obtain ⟨r', found', parts⟩ := here
    simp only [Record.handed, Prod.mk.injEq] at parts
    rw [found']
    dsimp only
    rw [parts.2.2.2]

/-! ### One record whose callback has changed -/

theorem sameRecords_set {d d' : Core} {record : Nat} {r : Record} {f : FanOut}
    (found : d.records[record]? = some r)
    (records : d'.records = d.records.set record { r with fanOut := f }) : SameRecords d d' := by
  intro j
  have same : d'.records.map Record.handed = d.records.map Record.handed := by
    rw [records]
    exact Replace.map_set found rfl
  rw [← List.getElem?_map, ← List.getElem?_map, same]

theorem target_set {d d' : Core} {record : Nat} {r : Record} {f : FanOut}
    (found : d.records[record]? = some r)
    (records : d'.records = d.records.set record { r with fanOut := f }) (ticket : Ticket) :
    d'.target ticket =
      if ticket.record = record then f.targets[ticket.place]? else d.target ticket := by
  have bound := (List.getElem?_eq_some_iff.mp found).1
  rw [Core.target, Core.target, records]
  split
  next own =>
    rw [own, List.getElem?_set_self bound]
    rfl
  next other => rw [List.getElem?_set_ne (Ne.symm other)]

section Report

variable {boost : Wialon.Boost} {factory : PluginFactory} {d d' : Core} {ticket : Ticket} {ok : Bool}
  {due : List Ticket}

/-- A report reaches everybody it concerns. -/
structure Reported (ticket : Ticket) (ok : Bool) (d d' : Core) : Prop where
  tasks : d'.tasks = d.tasks
  dispatchers : d'.dispatchers = d.dispatchers
  records : SameRecords d d'
  target : ∀ other, d'.target other = if other = ticket then some ⟨some ok, false⟩ else d.target other

theorem report_reported (ok : Bool) (wired : d.Wired boost factory) (alive : d.alive = true)
    (unused : d.target ticket = some ⟨none, true⟩) :
    ∃ d', d.report boost ticket ok = some d' ∧ d'.Wired boost factory ∧ d'.alive = true ∧
      Reported ticket ok d d' := by
  obtain ⟨record, place⟩ := ticket
  obtain ⟨r, found, there⟩ := Option.bind_eq_some_iff.mp unused
  dsimp only at found there
  obtain ⟨f₁, told₁, f₂, told₂, reported, released, targets⟩ := fanOut_report ok there
  obtain ⟨d₁, step₁, wired₁, alive₁, tasks₁, dispatchers₁, records₁⟩ :=
    fanOut_wired wired alive found reported
  have bound := (List.getElem?_eq_some_iff.mp found).1
  have found₁ : d₁.records[record]? = some { r with fanOut := f₁ } := by
    rw [records₁, List.getElem?_set_self bound]
  obtain ⟨d₂, step₂, wired₂, alive₂, tasks₂, dispatchers₂, records₂⟩ :=
    fanOut_wired wired₁ alive₁ found₁ released
  have records : d₂.records = d.records.set record { r with fanOut := f₂ } := by
    rw [records₂, records₁, List.set_set]
  refine ⟨d₂, ?_, wired₂, alive₂, tasks₂.trans tasks₁, dispatchers₂.trans dispatchers₁,
    sameRecords_set found records, ?_⟩
  · rw [Core.report, step₁]
    exact step₂
  · -- Of the targets of the record, only the one that has reported is another.
    rintro ⟨j, place'⟩
    rw [target_set found records]
    dsimp only
    by_cases same : j = record
    · subst same
      rw [if_pos rfl, targets, Core.target, found, Option.bind_some]
      by_cases own : place' = place
      · subst own
        rw [List.getElem?_set_self (List.getElem?_eq_some_iff.mp there).1, if_pos rfl]
      · rw [List.getElem?_set_ne (Ne.symm own), if_neg (by simp [own])]
    · rw [if_neg same, if_neg (by simp [same])]

/-- A report that is due finds its callback unused. -/
theorem Core.Books.unused (books : d.Books (ticket :: due)) :
    d.target ticket = some ⟨none, true⟩ := by
  have counted := books.counted ticket
  rw [List.count_append, List.count_cons_self] at counted
  by_contra other
  rw [if_neg other] at counted
  omega

theorem Reported.books (reported : Reported ticket ok d d') (books : d.Books (ticket :: due)) :
    d'.Books due := by
  have unused := books.unused
  have held : d'.held = d.held := by rw [Core.held, reported.dispatchers, Core.held]
  refine ⟨?_, ?_, ?_⟩
  · intro other
    have counted := books.counted other
    rw [reported.tasks, held, reported.target]
    rw [List.count_append, List.count_cons] at counted
    rw [List.count_append]
    by_cases same : other = ticket
    · subst same
      rw [unused, if_pos rfl, if_pos (beq_self_eq_true other)] at counted
      rw [if_pos rfl, if_neg (by simp)]
      omega
    · have apart : (ticket == other) = false := by simpa using Ne.symm same
      rw [apart] at counted
      rw [if_neg same]
      simpa using counted
  · intro other target found
    rw [reported.target] at found
    split at found
    · cases found
      exact Or.inr ⟨ok, rfl⟩
    · exact books.clean other target found
  · intro serial dispatcher found other member
    rw [reported.dispatchers] at found
    rw [reported.records.serialOf]
    exact books.assigned serial dispatcher found other member

/-- The reports of a handler: each of them is taken, and then nothing is due any more. -/
theorem reportAll_books (reports : List Report) (wired : d.Wired boost factory)
    (alive : d.alive = true) (books : d.Books (reports.map Prod.fst)) :
    ∃ d', d.reportAll boost reports = some d' ∧ d'.Wired boost factory ∧ d'.alive = true ∧
      d'.Books [] ∧ d'.tasks = d.tasks ∧ d'.dispatchers = d.dispatchers ∧ SameRecords d d' ∧
      ∀ other target, d'.target other = some target → d.target other = some target ∨
        ∃ ok, (other, ok) ∈ reports ∧ target = ⟨some ok, false⟩ := by
  induction reports generalizing d with
  | nil =>
    exact ⟨d, rfl, wired, alive, books, rfl, rfl, fun _ => rfl, fun _ _ found => Or.inl found⟩
  | cons report reports ih =>
    obtain ⟨ticket, ok⟩ := report
    obtain ⟨d₁, step, wired₁, alive₁, reported⟩ := report_reported ok wired alive books.unused
    obtain ⟨d', later, wired', alive', books', tasks, dispatchers, records, targets⟩ :=
      ih wired₁ alive₁ (reported.books books)
    refine ⟨d', ?_, wired', alive', books', tasks.trans reported.tasks,
      dispatchers.trans reported.dispatchers, reported.records.trans records, ?_⟩
    · rw [Core.reportAll, step]
      exact later
    · intro other target found
      rcases targets other target found with before | ⟨ok', member, same⟩
      · rw [reported.target] at before
        split at before
        next this =>
          cases before
          exact Or.inr ⟨ok, by simp [this], rfl⟩
        next => exact Or.inl before
      · exact Or.inr ⟨ok', List.mem_cons_of_mem _ member, same⟩

/-- What a handler of a live daemon has reported, once it has left the connections alone. -/
theorem reportAll_kept {d₀ d₁ : Core} {reports : List Report} (alive : d₀.alive = true)
    (kept : d.Wired boost factory ∧ d.links = d₀.links ∧ d.Books (reports.map Prod.fst))
    (done : d.reportAll boost reports = some d₁) : d₁.Wired boost factory ∧ d₁.Books [] ∧
      d₁.tasks = d.tasks ∧ d₁.dispatchers = d.dispatchers ∧ SameRecords d d₁ ∧
      ∀ other target, d₁.target other = some target → d.target other = some target ∨
        ∃ ok, (other, ok) ∈ reports ∧ target = ⟨some ok, false⟩ := by
  obtain ⟨wired, links, books⟩ := kept
  have alive : d.alive = true := by rw [Core.alive, links]; exact alive
  obtain ⟨d₂, done₂, wired', -, books', same⟩ := reportAll_books reports wired alive books
  obtain rfl : d₂ = d₁ := Option.some.inj (done₂.symm.trans done)
  exact ⟨wired', books', same⟩

end Report

/-! ### What a dispatcher does -/

section Dispatcher

variable {boost : Wialon.Boost} {factory : PluginFactory} {json : Dptree.Boost} {d d' : Core}
  {reported : List Report}

/-- Nothing but the dispatchers has changed, which are as many as before. -/
theorem Core.Wired.redispatched {tasks : List Ticket} {dispatchers : List Dispatcher}
    (wired : d.Wired boost factory) (size : dispatchers.length = d.dispatchers.length)
    (sound : ∀ dispatcher ∈ dispatchers, dispatcher.Sound) :
    ({ d with tasks := tasks, dispatchers := dispatchers } : Core).Wired boost factory := by
  refine ⟨sound, ?_, ?_, ?_⟩
  · intro key targets found target member
    rw [size]
    exact wired.serves key targets found target member
  · intro record r found
    dsimp only
    rw [size]
    exact wired.records record r found
  · intro connection link here
    have linked := wired.links connection link here
    exact { linked with routed := by simpa [size] using linked.routed }

/-- One dispatcher among the others. -/
theorem held_set {serial : Nat} {dispatcher : Dispatcher} (dispatcher' : Dispatcher)
    {dispatchers : List Dispatcher} (found : dispatchers[serial]? = some dispatcher) :
    ∃ rest, (dispatchers.flatMap Dispatcher.held).Perm (dispatcher.held ++ rest) ∧
      ((dispatchers.set serial dispatcher').flatMap Dispatcher.held).Perm
        (dispatcher'.held ++ rest) := by
  obtain ⟨bound, rfl⟩ := List.getElem?_eq_some_iff.mp found
  refine ⟨(dispatchers.eraseIdx serial).flatMap Dispatcher.held, ?_, ?_⟩
  · exact (List.getElem_cons_eraseIdx_perm bound).symm.flatMap_right _
  · exact (List.set_perm_cons_eraseIdx bound dispatcher').flatMap_right _

/-- A dispatcher has moved callbacks between what is posted to it, what it holds and what it
is about to report. -/
theorem Core.Books.moved {serial : Nat} {dispatcher dispatcher' : Dispatcher}
    {tasks posted : List Ticket} (books : d.Books [])
    (found : d.dispatchers[serial]? = some dispatcher) (taken : d.tasks.Perm (posted ++ tasks))
    (mine : ∀ ticket ∈ posted, d.serialOf ticket = some serial)
    (moved : (reported.map Prod.fst ++ dispatcher'.held).Perm (dispatcher.held ++ posted)) :
    ({ d with
      tasks := tasks
      dispatchers := d.dispatchers.set serial dispatcher' } : Core).Books
        (reported.map Prod.fst) := by
  refine ⟨?_, books.clean, ?_⟩
  · -- What leaves the tasks and the dispatcher is reported, or held by it now.
    intro ticket
    obtain ⟨rest, before, after⟩ := held_set dispatcher' found
    have counted := books.counted ticket
    have all := moved.count_eq ticket
    have queue := taken.count_eq ticket
    have before := before.count_eq ticket
    have after := after.count_eq ticket
    simp only [Core.held, List.count_append, List.count_nil] at counted all queue before after ⊢
    have same : ({ d with
      tasks := tasks
      dispatchers := d.dispatchers.set serial dispatcher' } : Core).target ticket =
        d.target ticket := rfl
    rw [same, ← counted]
    omega
  · intro serial₁ dispatcher₁ found₁ ticket member
    have kept : d.serialOf ticket = some serial₁ := by
      dsimp only at found₁
      rcases (Replace.getElem?_set found serial₁).mp found₁ with ⟨rfl, rfl⟩ | ⟨-, found₁⟩
      · have origin := moved.subset (List.mem_append_right _ member)
        rcases List.mem_append.mp origin with old | new
        · exact books.assigned serial₁ dispatcher found ticket old
        · exact mine ticket new
      · exact books.assigned serial₁ dispatcher₁ found₁ ticket member
    exact kept

theorem act_some {serial : Nat} {activity : Activity}
    (acted : d.act serial activity = some (d', reported)) :
    ∃ dispatcher dispatcher', d.dispatchers[serial]? = some dispatcher ∧
      dispatcher.act activity = some (dispatcher', reported) ∧
      d' = { d with dispatchers := d.dispatchers.set serial dispatcher' } := by
  rw [Core.act] at acted
  split at acted
  · cases acted
  next dispatcher found =>
    split at acted
    · cases acted
    next dispatcher' reported acts =>
      cases acted
      exact ⟨dispatcher, dispatcher', found, acts, rfl⟩

theorem run_some {place : Nat} (ran : d.run json place = some (d', reported)) :
    ∃ ticket serial tree dispatcher dispatcher', d.tasks[place]? = some ticket ∧
      d.serialOf ticket = some serial ∧ d.treeOf ticket = some tree ∧
      d.dispatchers[serial]? = some dispatcher ∧
      dispatcher.handleProcessData json ticket (recordTree tree) = some (dispatcher', reported) ∧
      d' = { d with
        tasks := d.tasks.eraseIdx place
        dispatchers := d.dispatchers.set serial dispatcher' } := by
  rw [Core.run] at ran
  split at ran
  · cases ran
  next ticket posted =>
    split at ran
    next serial tree mine shared =>
      split at ran
      · cases ran
      next dispatcher found =>
        split at ran
        · cases ran
        next dispatcher' reported handled =>
          cases ran
          exact ⟨ticket, serial, tree, dispatcher, dispatcher', posted, mine, shared, found, handled,
            rfl⟩
    · cases ran

private theorem sound_set {serial : Nat} {dispatcher : Dispatcher} (wired : d.Wired boost factory)
    (sound : dispatcher.Sound) : ∀ other ∈ d.dispatchers.set serial dispatcher, other.Sound := by
  intro other member
  rcases List.mem_or_eq_of_mem_set member with old | rfl
  · exact wired.dispatchers other old
  · exact sound

theorem act_books {serial : Nat} {activity : Activity} (wired : d.Wired boost factory)
    (books : d.Books []) (acted : d.act serial activity = some (d', reported)) :
    d'.Wired boost factory ∧ d'.links = d.links ∧ d'.Books (reported.map Prod.fst) := by
  obtain ⟨dispatcher, dispatcher', found, acts, rfl⟩ := act_some acted
  have sound := wired.dispatchers dispatcher (List.mem_of_getElem? found)
  obtain ⟨sound', moved⟩ := Dispatcher.act_held sound acts
  refine ⟨wired.redispatched (List.length_set ..) (sound_set wired sound'), rfl, ?_⟩
  have none : ∀ ticket ∈ ([] : List Ticket), d.serialOf ticket = some serial := by simp
  rw [← List.append_nil dispatcher.held] at moved
  exact books.moved found (.refl _) none moved

theorem run_books {place : Nat} (wired : d.Wired boost factory) (books : d.Books [])
    (ran : d.run json place = some (d', reported)) :
    d'.Wired boost factory ∧ d'.links = d.links ∧ d'.Books (reported.map Prod.fst) := by
  obtain ⟨ticket, serial, tree, dispatcher, dispatcher', posted, mine, -, found, handled, rfl⟩ :=
    run_some ran
  have sound := wired.dispatchers dispatcher (List.mem_of_getElem? found)
  obtain ⟨sound', moved⟩ := Dispatcher.handleProcessData_held sound handled
  refine ⟨wired.redispatched (List.length_set ..) (sound_set wired sound'), rfl, ?_⟩
  obtain ⟨bound, rfl⟩ := List.getElem?_eq_some_iff.mp posted
  refine books.moved found (List.getElem_cons_eraseIdx_perm bound).symm ?_ moved
  simpa using mine

end Dispatcher

/-! ### What a connection does -/

section Connection

variable {boost : Wialon.Boost} {factory : PluginFactory} {d d' : Core}

private theorem count_posted (n record : Nat) (ticket : Ticket) :
    (posted n record).count ticket = if ticket.record = record ∧ ticket.place < n then 1 else 0 := by
  have distinct : (posted n record).Nodup :=
    List.nodup_range.map fun place place' same => congrArg Ticket.place same
  by_cases member : ticket ∈ posted n record
  · rw [List.count_eq_one_of_mem distinct member]
    obtain ⟨place, below, rfl⟩ := List.mem_map.mp member
    rw [if_pos ⟨rfl, List.mem_range.mp below⟩]
  · rw [List.count_eq_zero_of_not_mem member, if_neg]
    rintro ⟨rfl, below⟩
    exact member (List.mem_map.mpr ⟨ticket.place, List.mem_range.mpr below, rfl⟩)

private theorem count_flatMap_posted (n first k : Nat) (ticket : Ticket) :
    ((List.range' first k).flatMap (posted n)).count ticket =
      if first ≤ ticket.record ∧ ticket.record < first + k ∧ ticket.place < n then 1 else 0 := by
  induction k generalizing first with
  | zero =>
    rw [if_neg (by omega)]
    rfl
  | succ k ih =>
    rw [List.range'_succ, List.flatMap_cons, List.count_append, ih, count_posted]
    split
    next here => rw [if_neg (by omega), if_pos (by omega)]
    next other =>
      split
      next there => rw [if_pos (by omega)]
      next nowhere => rw [if_neg (by omega)]

/-- New records come with a posted call for each of their targets. -/
theorem Core.Books.added {n k : Nat} {new : List Record} (books : d.Books [])
    (start : ∀ r ∈ new, r.fanOut.targets = List.replicate n ⟨none, true⟩) (size : new.length = k)
    (dispatchers : d'.dispatchers = d.dispatchers) (records : d'.records = d.records ++ new)
    (tasks : d'.tasks = d.tasks ++ (List.range' d.records.length k).flatMap (posted n)) :
    d'.Books [] := by
  subst size
  have target (ticket : Ticket) : d'.target ticket =
      if d.records.length ≤ ticket.record ∧ ticket.record < d.records.length + new.length ∧
        ticket.place < n then some ⟨none, true⟩ else d.target ticket := by
    rw [Core.target, Core.target, records, List.getElem?_append]
    by_cases old : ticket.record < d.records.length
    · rw [if_pos old, if_neg (by omega)]
    · have none : d.records[ticket.record]? = none := List.getElem?_eq_none_iff.mpr (by omega)
      rw [if_neg old, none]
      by_cases fresh : ticket.record - d.records.length < new.length
      · rw [List.getElem?_eq_getElem fresh, Option.bind_some, start _ (List.getElem_mem fresh),
          List.getElem?_replicate]
        by_cases below : ticket.place < n
        · rw [if_pos below, if_pos (by omega)]
        · rw [if_neg below, if_neg (by omega)]
          rfl
      · rw [List.getElem?_eq_none_iff.mpr (by omega), if_neg (by omega)]
  refine ⟨?_, ?_, ?_⟩
  · -- A ticket of a new record has one posted call, and none of an old record is new.
    intro ticket
    have counted := books.counted ticket
    rw [target, tasks, Core.held, dispatchers, ← Core.held]
    simp only [List.append_nil, List.count_append] at counted ⊢
    rw [count_flatMap_posted]
    by_cases fresh : d.records.length ≤ ticket.record ∧
        ticket.record < d.records.length + new.length ∧ ticket.place < n
    · have none : d.target ticket = none := by
        rw [Core.target, List.getElem?_eq_none_iff.mpr fresh.1]
        rfl
      rw [none, if_neg (by simp)] at counted
      rw [if_pos fresh, if_pos fresh, if_pos rfl]
      omega
    · rw [if_neg fresh, if_neg fresh]
      exact counted
  · intro ticket found here
    rw [target] at here
    split at here
    · cases here
      exact Or.inl rfl
    · exact books.clean ticket found here
  · intro serial dispatcher found ticket member
    rw [dispatchers] at found
    have mine := books.assigned serial dispatcher found ticket member
    rw [Core.serialOf] at mine ⊢
    cases old : d.records[ticket.record]? with
    | none => simp [old] at mine
    | some r =>
      rw [old] at mine
      rw [records, List.getElem?_append_left (List.getElem?_eq_some_iff.mp old).1, old]
      exact mine

theorem onSession_books {connection : Nat} {e : Wialon.Event} (books : d.Books [])
    (stepped : d.onSession boost factory connection e = some d') : d'.Books [] := by
  obtain ⟨link, session, out, -, -, rfl⟩ := onSession_some stepped
  have start : ∀ r ∈ (handedOver out).map (Record.start connection link.papi.processData),
      r.fanOut.targets = List.replicate (serials link.papi.processData).length ⟨none, true⟩ := by
    intro r member
    obtain ⟨call, -, rfl⟩ := List.mem_map.mp member
    rfl
  exact books.added start (List.length_map _) rfl rfl rfl

theorem fanOut_some {record : Nat} {e : Router.Event} (stepped : d.fanOut boost record e = some d') :
    ∃ r f oks, d.records[record]? = some r ∧ r.fanOut.step e = some (f, oks) := by
  rw [Core.fanOut] at stepped
  split at stepped
  · cases stepped
  next r found =>
    split at stepped
    · cases stepped
    next f oks taken => exact ⟨r, f, oks, found, taken⟩

/-- What does not concern the targets leaves the books as they are. -/
theorem fanOut_books {record : Nat} {e : Router.Event} (wired : d.Wired boost factory)
    (alive : d.alive = true) (books : d.Books []) (still : ∀ targets, touched targets e = targets)
    (stepped : d.fanOut boost record e = some d') :
    d'.Wired boost factory ∧ d'.Books [] ∧ d'.dispatchers = d.dispatchers ∧ SameRecords d d' ∧
      ∀ ticket, d'.target ticket = d.target ticket := by
  obtain ⟨r, f, oks, found, taken⟩ := fanOut_some stepped
  obtain ⟨d₁, stepped₁, wired₁, -, tasks, dispatchers, records⟩ := fanOut_wired wired alive found taken
  obtain rfl : d₁ = d' := Option.some.inj (stepped₁.symm.trans stepped)
  have same := sameRecords_set found records
  have target (ticket : Ticket) : d₁.target ticket = d.target ticket := by
    rw [target_set found records]
    split
    next here => rw [fanOut_targets taken, still, Core.target, here, found, Option.bind_some]
    next => rfl
  refine ⟨wired₁, ⟨?_, ?_, ?_⟩, dispatchers, same, target⟩
  · intro ticket
    rw [tasks, Core.held, dispatchers, target]
    exact books.counted ticket
  · intro ticket
    rw [target]
    exact books.clean ticket
  · intro serial dispatcher here ticket member
    rw [dispatchers] at here
    rw [same.serialOf]
    exact books.assigned serial dispatcher here ticket member

end Connection

/-! ### Every step -/

section Step

variable {boost : Wialon.Boost} {factory : PluginFactory} {json : Dptree.Boost} {d d' : Core}
  {e : Event} {reported : List Report}

theorem construct_fresh (memory : Wialon.Plugin) : (construct memory).Fresh := by
  refine ⟨rfl, ?_, rfl, rfl, rfl, rfl, rfl⟩
  simp [construct, Wialon.answerCapacity]

theorem Link.start_fresh (port : Port) (memory : Wialon.Plugin) (papi : ApiTranslator) :
    (Link.start port memory papi).session.Fresh := by
  obtain ⟨-, pending, jobs, crashed, consumed, granted, raised, counted, line, completions⟩ :=
    Wialon.accepted_fresh
  exact ⟨construct_fresh memory, pending, jobs, crashed, consumed, granted, raised, counted, line,
    completions⟩

/-- The targets of a route have been made. -/
theorem Core.Wired.routed (wired : d.Wired boost factory) (uid : Str) (port : Port) (address : Str) :
    ∀ serial ∈ serials (factory.requestRouter.setupConnectionRoutes uid port address).processData,
      serial < d.dispatchers.length := by
  intro serial member
  rw [RequestRouter.setupConnectionRoutes] at member
  split at member
  next targets found =>
    obtain ⟨target, listed, rfl⟩ := List.mem_map.mp member
    exact wired.serves _ targets found target listed
  · cases member

/-- A connection calls what the router has set up for its port. -/
theorem connectionOf_some {port : Port} {address : Str} {papi : ApiTranslator}
    (made : connectionOf factory port address = some papi) :
    papi = factory.requestRouter.setupConnectionRoutes "wialon".toList port address := by
  rw [connectionOf] at made
  split at made
  next connection connected =>
    split at made
    next wialon =>
      cases made
      simp only [onConnection] at connected
      split at connected
      · cases connected
      · cases connected
      · rw [if_pos trivial] at connected
        cases connected
        exact congrArg (factory.requestRouter.setupConnectionRoutes · port address) wialon
    next => cases made
  next => cases made

theorem accept_wired {port : Port} {address : Str} {papi : ApiTranslator} (memory : Wialon.Plugin)
    (made : connectionOf factory port address = some papi) (wired : d.Wired boost factory) :
    ({ d with links := d.links ++ [Link.start port memory papi] } : Core).Wired boost factory := by
  obtain rfl := connectionOf_some made
  refine ⟨wired.dispatchers, wired.serves, ?_, ?_⟩
  · intro record r found
    obtain ⟨connection, targets, serials, fanOut⟩ := wired.records record r found
    refine ⟨?_, targets, serials, fanOut⟩
    rw [List.length_append]
    exact Nat.lt_add_right _ connection
  · intro connection link here
    dsimp only at here
    by_cases old : connection < d.links.length
    · rw [List.getElem?_append_left old] at here
      exact { wired.links connection link here with }
    · rw [List.getElem?_append_right (by omega), List.getElem?_singleton] at here
      simp only [Option.ite_none_right_eq_some, Option.some.injEq] at here
      obtain ⟨-, rfl⟩ := here
      -- No record belongs to a connection that has just been made.
      have none {record : Nat} {r : Record} (found : d.records[record]? = some r) :
          r.connection ≠ connection := by
        have bound := (wired.records record r found).connection
        omega
      have fresh := Link.start_fresh port memory
        (factory.requestRouter.setupConnectionRoutes "wialon".toList port address)
      refine ⟨.init fresh, wired.routed "wialon".toList port address, ?_, List.nodup_nil, ?_, ?_,
        List.nodup_nil, ?_, ?_⟩
      · rw [fresh.jobs]
        rfl
      · intro record
        constructor
        · intro member
          cases member
        · rintro ⟨r, found, mine, -⟩
          exact absurd mine (none found)
      · rw [fresh.completions]
        exact .nil
      · intro record
        constructor
        · intro member
          cases member
        · rintro ⟨r, found, mine, -⟩
          exact absurd mine (none found)
      · intro record r found mine
        exact absurd mine (none found)

theorem Core.Fresh.wired (fresh : d.Fresh factory) : d.Wired boost factory ∧ d.Books [] := by
  obtain ⟨links, records, tasks, dispatchers, serves⟩ := fresh
  have held : d.held = [] := by
    rw [Core.held, List.flatMap_eq_nil_iff]
    intro dispatcher member
    exact (dispatchers dispatcher member).sound.2
  refine ⟨⟨fun dispatcher member => (dispatchers dispatcher member).sound.1, serves, ?_, ?_⟩, ?_, ?_,
    ?_⟩
  · simp [records]
  · simp [links]
  · intro ticket
    simp [tasks, held, Core.target, records]
  · simp [Core.target, records]
  · intro serial dispatcher found ticket member
    have none := (dispatchers dispatcher (List.mem_of_getElem? found)).sound.2
    rw [none] at member
    cases member

theorem reporting_some {r : Option (Core × List Report)}
    (stepped : reporting boost r = some (d', reported)) :
    ∃ d₁, r = some (d₁, reported) ∧ d₁.reportAll boost reported = some d' := by
  rw [reporting, Option.bind_eq_some_iff] at stepped
  obtain ⟨⟨d₁, reported₁⟩, same, done⟩ := stepped
  rw [Option.map_eq_some_iff] at done
  obtain ⟨d₂, done, equal⟩ := done
  cases equal
  exact ⟨d₁, same, done⟩

/-- Everything a step can be. -/
inductive Core.Steps (boost : Wialon.Boost) (factory : PluginFactory) (json : Dptree.Boost) (d : Core) :
    Event → Core → List Report → Prop
  | accept (port : Port) (address : Str) (memory : Wialon.Plugin) (papi : ApiTranslator) :
      connectionOf factory port address = some papi →
      Steps boost factory json d (.accept port address memory)
        { d with links := d.links ++ [Link.start port memory papi] } []
  | session (connection : Nat) (e : Wialon.Event) (e' : Event) (d' : Core) :
      (∀ place ok, e ≠ .complete place ok) → d.onSession boost factory connection e = some d' →
      Steps boost factory json d e' d' []
  | fanOut (record : Nat) (e : Router.Event) (e' : Event) (d' : Core) :
      (∀ targets, touched targets e = targets) → d.fanOut boost record e = some d' →
      Steps boost factory json d e' d' []
  | run (place : Nat) (d₁ d' : Core) (reported : List Report) :
      d.run json place = some (d₁, reported) → d₁.reportAll boost reported = some d' →
      Steps boost factory json d (.run place) d' reported
  | act (serial : Nat) (activity : Activity) (d₁ d' : Core) (reported : List Report) :
      d.act serial activity = some (d₁, reported) → d₁.reportAll boost reported = some d' →
      Steps boost factory json d (.act serial activity) d' reported

theorem step_cases (stepped : (core boost factory json).step d e = some (d', reported)) :
    d.alive = true ∧ d.Steps boost factory json e d' reported := by
  simp only [core, Core.step] at stepped
  split at stepped
  next alive =>
    refine ⟨alive, ?_⟩
    split at stepped
    · obtain ⟨papi, made, same⟩ := Option.map_eq_some_iff.mp stepped
      cases same
      exact .accept _ _ _ papi made
    · obtain ⟨d₁, moved, same⟩ := Option.map_eq_some_iff.mp stepped
      cases same
      exact .session _ _ _ _ (by simp) moved
    · obtain ⟨d₁, moved, same⟩ := Option.map_eq_some_iff.mp stepped
      cases same
      exact .session _ _ _ _ (by simp) moved
    · obtain ⟨d₁, moved, same⟩ := Option.map_eq_some_iff.mp stepped
      cases same
      exact .fanOut _ _ _ _ (fun _ => rfl) moved
    · obtain ⟨d₁, moved, same⟩ := Option.map_eq_some_iff.mp stepped
      cases same
      exact .fanOut _ _ _ _ (fun _ => rfl) moved
    · obtain ⟨d₁, ran, done⟩ := reporting_some stepped
      exact .run _ d₁ _ _ ran done
    · obtain ⟨d₁, acted, done⟩ := reporting_some stepped
      exact .act _ _ d₁ _ _ acted done
  next => cases stepped

theorem Core.Steps.kept (alive : d.alive = true) (step : d.Steps boost factory json e d' reported)
    (wired : d.Wired boost factory) (books : d.Books []) : d'.Wired boost factory ∧ d'.Books [] := by
  cases step with
  | accept port address memory papi made =>
    refine ⟨accept_wired memory made wired, ?_⟩
    exact ⟨books.counted, books.clean, books.assigned⟩
  | session connection e _ _ reads moved =>
    exact ⟨onSession_wired wired reads moved, onSession_books books moved⟩
  | fanOut record e _ _ still moved =>
    obtain ⟨wired', books', -⟩ := fanOut_books wired alive books still moved
    exact ⟨wired', books'⟩
  | run place d₁ _ _ ran done =>
    obtain ⟨wired', books', -⟩ := reportAll_kept alive (run_books wired books ran) done
    exact ⟨wired', books'⟩
  | act serial activity d₁ _ _ acted done =>
    obtain ⟨wired', books', -⟩ := reportAll_kept alive (act_books wired books acted) done
    exact ⟨wired', books'⟩

theorem books_of_reachable (reached : (core boost factory json).Reachable d) :
    d.Wired boost factory ∧ d.Books [] := by
  apply reached.invariant fun d => d.Wired boost factory ∧ d.Books []
  · exact fun d fresh => fresh.wired
  · intro d e d' reported _ kept stepped
    obtain ⟨alive, step⟩ := step_cases stepped
    exact step.kept alive kept.1 kept.2

end Step

end Eiptnd.Daemon
