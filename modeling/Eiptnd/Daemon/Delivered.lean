import Eiptnd.Daemon.World

/-! What the servers have executed.

A record is published at most once by each of its dispatchers, since a posted call is run once.
So what the servers execute are records, each at most once for every time it is routed to their
dispatcher; and a record that a device is told to be stored is among them. -/
namespace Eiptnd.Daemon

open Reactive Router

/-! ### A posted call is run once -/

/-- What a dispatcher has published, in turn. -/
def DispatcherRedis.publications (dr : DispatcherRedis) : List Publication := dr.owners.filterMap id

/-- No two publications have the same ticket, and none has one that is still posted. -/
structure Core.Once (d : Core) : Prop where
  distinct : ∀ (serial : Nat) (dr : DispatcherRedis), d.dispatchers[serial]? = some (.redis dr) →
    (dr.publications.map Publication.ticket).Nodup
  taken : ∀ (serial : Nat) (dr : DispatcherRedis), d.dispatchers[serial]? = some (.redis dr) →
    ∀ p ∈ dr.publications, p.ticket ∉ d.tasks

section Once

variable {boost : Wialon.Boost} {factory : PluginFactory} {json : Dptree.Boost} {d d' : Core}
  {reported : List Report} {e : Event}

theorem publications_run {dr dr' : DispatcherRedis} {owner : Option Publication} {re : Redis.Event}
    (ran : dr.run owner re = some (dr', reported)) :
    dr'.publications.Sublist (dr.publications ++ owner.toList) := by
  obtain ⟨rcon, out, -, rfl, -⟩ := DispatcherRedis.run_some ran
  have whole : (dr.owners ++ [owner]).filterMap id = dr.publications ++ owner.toList := by
    rw [List.filterMap_append]
    cases owner <;> rfl
  rw [← whole]
  exact (List.take_sublist _ _).filterMap id

/-- New calls are posted for new records only. -/
private theorem step_tasks (reached : (core boost factory json).Reachable d)
    (stepped : (core boost factory json).step d e = some (d', reported)) :
    ∀ ticket ∈ d'.tasks, ticket ∈ d.tasks ∨ d.records.length ≤ ticket.record := by
  obtain ⟨wired, books⟩ := books_of_reachable reached
  obtain ⟨alive, step⟩ := step_cases stepped
  cases step with
  | accept => exact fun ticket member => Or.inl member
  | session connection e _ _ _ moved =>
    obtain ⟨link, session, out, -, -, rfl⟩ := onSession_some moved
    intro ticket member
    rcases List.mem_append.mp member with old | new
    · exact Or.inl old
    · obtain ⟨record, range, own⟩ := List.mem_flatMap.mp new
      obtain ⟨place, -, rfl⟩ := List.mem_map.mp own
      exact Or.inr (List.left_le_of_mem_range' range)
  | fanOut record e _ _ still moved =>
    obtain ⟨r, f, oks, found, taken⟩ := fanOut_some moved
    obtain ⟨d₁, moved₁, -, -, tasks, -⟩ := fanOut_wired wired alive found taken
    obtain rfl : d₁ = d' := Option.some.inj (moved₁.symm.trans moved)
    exact fun ticket member => Or.inl (tasks ▸ member)
  | run place d₁ _ _ ran done =>
    obtain ⟨-, -, tasks, -⟩ := reportAll_kept alive (run_books wired books ran) done
    obtain ⟨_, _, _, _, _, -, -, -, -, -, rfl⟩ := run_some ran
    rw [tasks]
    exact fun ticket member => Or.inl (List.mem_of_mem_eraseIdx member)
  | act own activity d₁ _ _ acted done =>
    obtain ⟨-, -, tasks, -⟩ := reportAll_kept alive (act_books wired books acted) done
    obtain ⟨_, _, -, -, rfl⟩ := act_some acted
    rw [tasks]
    exact fun ticket member => Or.inl member

/-- A call that runs is not posted any more. -/
private theorem run_tasks {place : Nat} {ticket : Ticket}
    (reached : (core boost factory json).Reachable d)
    (stepped : (core boost factory json).step d (.run place) = some (d', reported))
    (posted : d.tasks[place]? = some ticket) : ticket ∉ d'.tasks := by
  obtain ⟨wired, books⟩ := books_of_reachable reached
  obtain ⟨alive, -⟩ := step_cases stepped
  simp only [core, Core.step, alive, if_true] at stepped
  obtain ⟨d₁, ran, done⟩ := reporting_some stepped
  obtain ⟨-, -, tasks, -⟩ := reportAll_kept alive (run_books wired books ran) done
  obtain ⟨_, _, _, _, _, -, -, -, -, -, rfl⟩ := run_some ran
  obtain ⟨bound, here⟩ := List.getElem?_eq_some_iff.mp posted
  have counted := books.counted ticket
  have once := (List.getElem_cons_eraseIdx_perm bound).count_eq ticket
  rw [here, List.count_cons_self] at once
  rw [List.append_nil, List.count_append] at counted
  rw [tasks]
  intro again
  have twice := List.count_pos_iff.mpr again
  split at counted
  · dsimp only at twice
    omega
  · omega

theorem Core.Once.step (reached : (core boost factory json).Reachable d)
    (stepped : (core boost factory json).step d e = some (d', reported)) (once : d.Once) : d'.Once := by
  have vouched := vouched_of_reachable reached
  -- What has been published is about records that there are.
  have known {serial : Nat} {dr : DispatcherRedis} (found : d.dispatchers[serial]? = some (.redis dr)) :
      ∀ p ∈ dr.publications, p.ticket ∉ d'.tasks := by
    intro p member posted
    rcases step_tasks reached stepped p.ticket posted with old | new
    · exact once.taken serial dr found p member old
    · obtain ⟨_, owned, rfl⟩ := List.mem_filterMap.mp member
      obtain ⟨mine, -⟩ := vouched.stamped serial dr found p owned
      rw [Core.serialOf] at mine
      split at mine
      · cases mine
      next r here =>
        have bound := (List.getElem?_eq_some_iff.mp here).1
        omega
  constructor
  · intro serial dr' there
    obtain ⟨dr, found, handled⟩ := step_handled reached stepped there
    have before := once.distinct serial dr found
    cases handled with
    | still => exact before
    | acted _ _ ran =>
      have fewer := publications_run ran
      rw [Option.toList_none, List.append_nil] at fewer
      exact before.sublist (fewer.map _)
    | @published _ p place reported posted _ _ ran =>
      have fewer := publications_run ran
      refine List.Nodup.sublist (fewer.map _) ?_
      rw [List.map_append, List.nodup_append]
      refine ⟨before, List.nodup_singleton _, ?_⟩
      intro ticket old other last same
      subst same
      obtain ⟨p', member, rfl⟩ := List.mem_map.mp old
      apply once.taken serial dr found p' member
      rw [List.mem_singleton.mp last]
      exact List.mem_of_getElem? posted
  · intro serial dr' there p member
    obtain ⟨dr, found, handled⟩ := step_handled reached stepped there
    cases handled with
    | still => exact known found p member
    | acted _ _ ran =>
      have fewer := publications_run ran
      rw [Option.toList_none, List.append_nil] at fewer
      exact known found p (fewer.subset member)
    | @published _ p' place reported posted same _ ran =>
      have fewer := publications_run ran
      rcases List.mem_append.mp (fewer.subset member) with old | new
      · exact known found p old
      · subst same
        rw [List.mem_singleton.mp new]
        exact run_tasks reached stepped posted

theorem once_of_reachable (reached : (core boost factory json).Reachable d) : d.Once := by
  apply reached.invariant Core.Once
  · intro d fresh
    have none (serial : Nat) (dr : DispatcherRedis) (found : d.dispatchers[serial]? = some (.redis dr)) :
        dr.publications = [] := by
      have start := fresh.dispatchers _ (List.mem_of_getElem? found)
      rw [DispatcherRedis.publications, start.owners]
      rfl
    constructor
    · intro serial dr found
      rw [none serial dr found]
      exact List.nodup_nil
    · intro serial dr found p member
      rw [none serial dr found] at member
      cases member
  · intro d e d' reported before once stepped
    exact once.step before stepped

end Once

/-! ### Records on the servers -/

/-- The request that this ticket was published with has been executed, on the connection that it
was launched on and at its place there; and its message, read as JSON, is the record. -/
def World.Executed (ticket : Ticket) (content : Wialon.Tree) (serial : Nat) (w : World) : Prop :=
  ∃ (dr : DispatcherRedis) (x : Redis.Exchange) (message : Redis.Bytes) (id : Nat)
    (server : Redis.Server) (place : Nat),
    w.fleet.core.dispatchers[serial]? = some (.redis dr) ∧ w.exchangeAt serial = some x ∧
    dr.owners[id]? = some (some ⟨ticket, message⟩) ∧ Json.parse message = some (recordValue content) ∧
    server ∈ x.servers ∧ server.launched[place]? = some id ∧
    server.commands[place]? = some (Redis.Request.publish "foo".toList message).command

/-- The record holds this, has been routed somewhere, and has been executed by every Redis
dispatcher's servers, for each time that it was routed to the dispatcher. -/
def World.Delivered (connection record : Nat) (content : Wialon.Tree) (w : World) : Prop :=
  ∃ r, w.fleet.core.records[record]? = some r ∧ r.connection = connection ∧ r.content = content ∧
    r.targets ≠ [] ∧ ∀ (place serial : Nat) (dr : DispatcherRedis), r.targets[place]? = some serial →
      w.fleet.core.dispatchers[serial]? = some (.redis dr) → w.Executed ⟨record, place⟩ content serial

/-- A publication is a record that goes to this dispatcher. -/
def World.Publishes (serial : Nat) (w : World) (p : Publication) : Prop :=
  ∃ r, w.fleet.core.records[p.ticket.record]? = some r ∧
    r.targets[p.ticket.place]? = some serial ∧ Json.parse p.message = some (recordValue r.content)

section Delivered

variable {boost : Wialon.Boost} {factory : PluginFactory} {json : Dptree.Boost} {w : World}
  {serial : Nat} {x : Redis.Exchange}

/-- A record that has succeeded with its dispatchers is on their servers. -/
theorem World.Sound.delivered {connection record : Nat} {content : Wialon.Tree}
    (sound : w.Sound boost factory json)
    (succeeded : w.fleet.core.Succeeded connection record content) :
    w.Delivered connection record content := by
  obtain ⟨r, found, mine, same, routed, succeeded⟩ := succeeded
  refine ⟨r, found, mine, same, routed, ?_⟩
  intro place serial dr listed there
  obtain ⟨message, ⟨answer, member, yes, owned⟩, parsed⟩ := (succeeded place serial listed).2 dr there
  obtain ⟨b, own⟩ : ∃ b, w.backings[serial]? = some b := by
    have bound := (List.getElem?_eq_some_iff.mp there).1
    rw [← sound.backings] at bound
    exact ⟨_, List.getElem?_eq_getElem bound⟩
  have here : w.exchangeAt serial = some (b.exchange dr.rcon) := by
    rw [World.exchangeAt, there, own]
  have backed := sound.backed serial dr b there own
  have member : answer ∈ (b.exchange dr.rcon).system.answered := member
  obtain ⟨server, request, at_, used, asked, number, executed⟩ :=
    (Redis.sound_of_reachable backed.reached).executed member yes
  have owned := Option.join_eq_some_iff.mp owned
  refine ⟨dr, b.exchange dr.rcon, message, answer.callback.id, server, at_, there, here, owned, parsed,
    List.mem_of_getElem? used, number, ?_⟩
  -- The request that was answered is the publication of this record.
  have known : b.asked[answer.callback.id]? = some request := asked
  rw [backed.asked, List.getElem?_map, owned] at known
  cases known
  exact executed

/-- What the client has been asked for, but for its own pings. -/
private theorem publications_asked (owners : List (Option Publication)) :
    ((owners.map requestOf).map Redis.Request.command).filter (· ≠ Redis.Request.ping.command) =
      (owners.filterMap id).map fun p => (Redis.Request.publish "foo".toList p.message).command := by
  induction owners with
  | nil => rfl
  | cons owner owners ih =>
    cases owner with
    | none =>
      rw [List.map_cons, List.map_cons, List.filter_cons_of_neg (by simp [requestOf]), ih]
      rfl
    | some p =>
      rw [List.map_cons, List.map_cons, List.filter_cons_of_pos, ih]
      · rfl
      · simp [requestOf, Redis.Request.command]

/-- Over any run: what the servers of a dispatcher have executed, but for pings, is part of what the
dispatcher has published and in that order, taking the logs of its connections one after the
other. It has published records that are routed to it, each at most once for every time it is. -/
theorem executed_records (documented : json.Documented)
    (reached : (world boost factory json).ReachableWhere (World.Orderly json) w)
    (here : w.exchangeAt serial = some x) : ∃ dr : DispatcherRedis,
      w.fleet.core.dispatchers[serial]? = some (.redis dr) ∧
      (dr.publications.map Publication.ticket).Nodup ∧
      (∀ p ∈ dr.publications, w.Publishes serial p) ∧
      ((x.servers.flatMap Redis.Server.commands).filter (· ≠ Redis.Request.ping.command)).Sublist
        (dr.publications.map fun p => (Redis.Request.publish "foo".toList p.message).command) := by
  have sound := world_sound reached
  obtain ⟨dr, b, found, own, rfl⟩ := World.exchangeAt_some here
  have backed := sound.backed serial dr b found own
  refine ⟨dr, found, (once_of_reachable sound.core).distinct serial dr found, ?_, ?_⟩
  · intro p member
    obtain ⟨_, owned, rfl⟩ := List.mem_filterMap.mp member
    obtain ⟨mine, content, about, message⟩ :=
      (vouched_of_reachable sound.core).stamped serial dr found p owned
    rw [Core.contentOf, Option.map_eq_some_iff] at about
    obtain ⟨r, there, rfl⟩ := about
    rw [Core.serialOf, there] at mine
    exact ⟨r, there, mine, messageOf_parse documented message⟩
  · have executed := (Redis.sound_of_reachable backed.reached).once.filter
      (· ≠ Redis.Request.ping.command)
    have asked : (b.exchange dr.rcon).asked = dr.owners.map requestOf := backed.asked
    rw [asked, publications_asked] at executed
    exact executed

/-- What a success stands for, whatever the devices do: a record whose result is success has been
routed somewhere, and each of its publications has been executed by a server. -/
theorem success_executed (documented : json.Documented)
    (reached : (world boost factory json).ReachableWhere (World.Orderly json) w) {connection : Nat}
    {link : Link} (here : w.fleet.core.links[connection]? = some link) :
    List.Forall₂ (fun record c => c.ok = true → ∃ content, w.Delivered connection record content)
      link.settled link.session.completions := by
  have sound := world_sound reached
  obtain ⟨wired, -⟩ := books_of_reachable sound.core
  apply (wired.links connection link here).told.imp
  intro record c told yes
  obtain ⟨content, succeeded⟩ := told.succeeded documented sound.core yes
  exact ⟨content, sound.delivered succeeded⟩

/-- From the device to the servers, over any run: a device that waits for its answers reads the
replies that are meant for its lines, in their order, and all of them once nothing is on its way;
and the lines whose reply is success have each a record of their own, which holds the fields of
the line, and whose publications have been executed, each as a request of its own. -/
theorem told_delivered (documented : json.Documented)
    (reached : (world boost factory json).ReachableWhere (World.Proper json) w) {connection : Nat}
    {link : Link} {device : Device} (here : w.fleet.core.links[connection]? = some link)
    (own : w.fleet.devices[connection]? = some device) :
    (device.channel.wire <+: (Wialon.meant device.turns).flatten ∧
      (device.channel.outstanding = [] →
        device.channel.wire = (Wialon.meant device.turns).flatten)) ∧
      ∃ records : List Nat, records.Pairwise (· < ·) ∧
        List.Forall₂ (fun record content => w.Delivered connection record content)
          records (Wialon.stored device.turns) := by
  have sound := world_sound (orderly_of_proper reached)
  have fleet := fleet_sound (fleet_of_world reached)
  obtain ⟨records, increasing, stored⟩ := fleet.stored documented here own
  exact ⟨fleet.wire here own, records, increasing, stored.imp fun _ _ => sound.delivered⟩

end Delivered

/-! ### The example configuration -/

def exampleWorld : World :=
  ⟨exampleFleet, List.replicate exampleCore.dispatchers.length .start⟩

theorem exampleWorld_fresh : exampleWorld.Fresh exampleFactory :=
  ⟨⟨boot_fresh example_boot, rfl⟩, rfl⟩

/-- What a tracker sends is published, reaches the server in two pieces, is executed, and the
tracker reads that it has been stored. -/
def exampleDelivered : List WorldEvent :=
  (exampleTold.take (exampleTold.length - 10)).map .fleet ++
    [.traffic 1 (.sends 20), .traffic 1 (.sends 30), .traffic 1 .written,
      .traffic 1 (.executes Redis.twelve), .traffic 1 (.arrives 5)] ++ replyTaken.map .fleet

theorem exampleDelivered_reached :
    (world Wialon.plain exampleFactory Dptree.escaping).ReachableWhere (World.Proper Dptree.escaping)
      ((world Wialon.plain exampleFactory Dptree.escaping).after exampleWorld exampleDelivered) := by
  have kept : (world Wialon.plain exampleFactory Dptree.escaping).along (World.Proper Dptree.escaping)
      exampleWorld exampleDelivered = true := by decide +kernel
  exact .along (.init exampleWorld_fresh) exampleDelivered kept

theorem executed_records_delivered : ∃ w x, World.exchangeAt 1 w = some x ∧
    x.servers.flatMap Redis.Server.commands =
      ["PUBLISH".toList, "foo".toList, "\x7b\"message\":\"hi\"\x7d\n".toList] :: [] ∧
    ∃ dr : DispatcherRedis, w.fleet.core.dispatchers[1]? = some (.redis dr) ∧
      (dr.publications.map Publication.ticket).Nodup ∧
      ∀ p ∈ dr.publications, w.Publishes 1 p := by
  have reached := orderly_of_proper exampleDelivered_reached
  generalize after : (world Wialon.plain exampleFactory Dptree.escaping).after exampleWorld
    exampleDelivered = w at reached
  have executed : (w.exchangeAt 1).map (fun x => x.servers.flatMap Redis.Server.commands) =
      some (["PUBLISH".toList, "foo".toList, "\x7b\"message\":\"hi\"\x7d\n".toList] :: []) := by
    rw [← after]
    decide +kernel
  obtain ⟨x, here, commands⟩ := Option.map_eq_some_iff.mp executed
  obtain ⟨dr, found, distinct, records, -⟩ :=
    executed_records Dptree.escaping_documented reached here
  exact ⟨w, x, here, commands, dr, found, distinct, records⟩

theorem success_executed_message : ∃ w : World, ∃ record content, w.Delivered 0 record content := by
  have reached := orderly_of_proper exampleDelivered_reached
  generalize after : (world Wialon.plain exampleFactory Dptree.escaping).after exampleWorld
    exampleDelivered = w at reached
  have results : w.fleet.core.links[0]?.map (fun link =>
      link.session.completions.map (·.ok)) = some [true] := by
    rw [← after]
    decide +kernel
  obtain ⟨link, here, one⟩ := Option.map_eq_some_iff.mp results
  obtain ⟨c, completions, yes⟩ := List.map_eq_singleton_iff.mp one
  have executed := success_executed Dptree.escaping_documented reached here
  rw [completions] at executed
  obtain ⟨record, _, first, -⟩ := List.forall₂_cons_right_iff.mp executed
  obtain ⟨content, delivered⟩ := first yes
  exact ⟨w, record, content, delivered⟩

theorem told_delivered_message : ∃ w : World, ∃ device, w.fleet.devices[0]? = some device ∧
    device.channel.wire = "#AL#1\r\n#AM#1\r\n".toList ∧
    ∃ record, w.Delivered 0 record [("message".toList, "hi".toList)] := by
  have reached := exampleDelivered_reached
  generalize after : (world Wialon.plain exampleFactory Dptree.escaping).after exampleWorld
    exampleDelivered = w at reached
  have wires : w.fleet.devices[0]?.map (fun device =>
      (device.channel.wire, Wialon.stored device.turns)) =
        some ("#AL#1\r\n#AM#1\r\n".toList, [[("message".toList, "hi".toList)]]) := by
    rw [← after]
    decide +kernel
  have links : w.fleet.core.links[0]?.isSome = true := by
    rw [← after]
    decide +kernel
  obtain ⟨device, own, same⟩ := Option.map_eq_some_iff.mp wires
  simp only [Prod.mk.injEq] at same
  obtain ⟨wire, one⟩ := same
  obtain ⟨link, here⟩ := Option.isSome_iff_exists.mp links
  obtain ⟨-, records, -, delivered⟩ :=
    told_delivered Dptree.escaping_documented reached here own
  rw [one] at delivered
  obtain ⟨record, _, first, -⟩ := List.forall₂_cons_right_iff.mp delivered
  exact ⟨w, device, own, wire, record, first⟩

end Eiptnd.Daemon
