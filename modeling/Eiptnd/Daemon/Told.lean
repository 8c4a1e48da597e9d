import Eiptnd.Daemon.Devices

/-! What a device is told, from its line to the dispatchers.

The record of a line is handed over when the line has ended, with the fields of the line. Its
one result comes in when it is the only record that waits, so that the reply is about it. -/
namespace Eiptnd.Daemon

open Reactive Router Writes

/-! ### Results and their records -/

/-- A record of the connection has had this result. -/
def Link.Resulted (record : Nat) (ok : Bool) (link : Link) : Prop :=
  ∃ (place : Nat) (c : Wialon.Completion), link.settled[place]? = some record ∧
    link.session.completions[place]? = some c ∧ c.ok = ok

/-- The record of a turn, one of those from `first` on and before `bound`, holds its fields; it
waits, or has had the result that came in. -/
def Core.Keeps (connection : Nat) (link : Link) (opened : Bool) (turn : Wialon.Turn)
    (first bound : Nat) (d : Core) : Prop :=
  ∀ c fields, Wialon.addressed opened turn.line = some (c, fields) → Wialon.Records c fields →
    turn.granted ≠ none → ∃ record r, first ≤ record ∧ record < bound ∧
      d.records[record]? = some r ∧ r.connection = connection ∧
      r.content = Wialon.fieldTree c fields ∧ (turn.late = [] → link.waiting = [record]) ∧
      ∀ ok ∈ turn.late, link.Resulted record ok

/-- The records of the turns come one after the other. -/
def Core.KeepsAll (connection : Nat) (link : Link) (d : Core) : Nat → List Wialon.Turn → Prop
  | _, [] => True
  | bound, turn :: before => ∃ first ≤ bound,
      d.Keeps connection link (Wialon.opens before) turn first bound ∧
      d.KeepsAll connection link first before

/-- Records stay what they are about. -/
def Core.Carries (d d' : Core) : Prop :=
  ∀ (record : Nat) (r : Record), d.records[record]? = some r →
    ∃ r', d'.records[record]? = some r' ∧ r'.connection = r.connection ∧ r'.content = r.content

/-- A connection has had further results, and no others. -/
structure Link.Grows (link link' : Link) : Prop where
  settled : link.settled <+: link'.settled
  completions : link.session.completions <+: link'.session.completions

section Keeps

variable {d d' : Core} {connection : Nat} {link link' : Link} {turn : Wialon.Turn}
  {turns : List Wialon.Turn} {opened : Bool} {first bound : Nat}

theorem Core.Carries.of_same (same : SameRecords d d') : d.Carries d' := by
  intro record r found
  have here := same record
  rw [found, Option.map_some, Option.map_eq_some_iff] at here
  obtain ⟨r', found', parts⟩ := here
  simp only [Record.handed, Prod.mk.injEq] at parts
  exact ⟨r', found', parts.1, parts.2.2.1⟩

theorem Core.Carries.of_append {new : List Record} (records : d'.records = d.records ++ new) :
    d.Carries d' := by
  intro record r found
  refine ⟨r, ?_, rfl, rfl⟩
  rw [records, List.getElem?_append_left (List.getElem?_eq_some_iff.mp found).1, found]

theorem Core.Carries.length_le (carries : d.Carries d') : d.records.length ≤ d'.records.length := by
  by_contra shorter
  obtain ⟨_, found, -⟩ := carries d'.records.length _ (List.getElem?_eq_getElem (by omega))
  exact lt_irrefl _ (List.getElem?_eq_some_iff.mp found).1

theorem Link.Grows.refl (link : Link) : link.Grows link := ⟨List.prefix_refl _, List.prefix_refl _⟩

theorem Link.Resulted.grow {record : Nat} {ok : Bool} (grows : link.Grows link')
    (resulted : link.Resulted record ok) : link'.Resulted record ok := by
  obtain ⟨⟨more, settled⟩, ⟨later, completions⟩⟩ := grows
  obtain ⟨place, c, here, there, same⟩ := resulted
  refine ⟨place, c, ?_, ?_, same⟩
  · rw [← settled, List.getElem?_append_left (List.getElem?_eq_some_iff.mp here).1, here]
  · rw [← completions, List.getElem?_append_left (List.getElem?_eq_some_iff.mp there).1, there]

/-- What has been kept stays, unless a record is still waiting. -/
theorem Core.Keeps.grow (carries : d.Carries d') (grows : link.Grows link')
    (still : turn.late = [] → (∃ c fields, Wialon.addressed opened turn.line = some (c, fields) ∧
      Wialon.Records c fields) → link'.waiting = link.waiting)
    (keeps : d.Keeps connection link opened turn first bound) :
    d'.Keeps connection link' opened turn first bound := by
  intro c fields meant taken read
  obtain ⟨record, r, late, early, found, mine, content, waits, resulted⟩ := keeps c fields meant taken read
  obtain ⟨r', found', mine', content'⟩ := carries record r found
  refine ⟨record, r', late, early, found', mine'.trans mine, content'.trans content, ?_, ?_⟩
  · intro late
    rw [still late ⟨c, fields, meant, taken⟩]
    exact waits late
  · exact fun ok member => (resulted ok member).grow grows

/-- A turn that is done waits for nothing. -/
theorem Core.KeepsAll.grow (carries : d.Carries d') (grows : link.Grows link')
    (still : link'.waiting = link.waiting ∨ Wialon.Settled turns)
    (keeps : d.KeepsAll connection link bound turns) : d'.KeepsAll connection link' bound turns := by
  induction turns generalizing bound with
  | nil => exact trivial
  | cons turn before ih =>
    obtain ⟨first, below, own, others⟩ := keeps
    refine ⟨first, below, own.grow carries grows ?_, ih (still.imp id And.right) others⟩
    rintro late ⟨c, fields, meant, taken⟩
    rcases still with same | ⟨done, -⟩
    · exact same
    · have one := (done.once c fields meant taken).2
      rw [late] at one
      cases one

/-- A line that has not been read to its end has handed no record over. -/
theorem Core.Keeps.unread (unread : turn.granted = none) :
    d.Keeps connection link opened turn first bound := fun _ _ _ _ read => absurd unread read

theorem Core.KeepsAll.bound_le {bound' : Nat} (le : bound ≤ bound')
    (keeps : d.KeepsAll connection link bound turns) : d.KeepsAll connection link bound' turns := by
  cases turns with
  | nil => exact trivial
  | cons turn before =>
    obtain ⟨first, below, own, others⟩ := keeps
    refine ⟨first, below.trans le, ?_, others⟩
    intro c fields meant taken read
    obtain ⟨record, r, late, early, kept⟩ := own c fields meant taken read
    exact ⟨record, r, late, early.trans_le le, kept⟩

end Keeps

/-! ### A connection and its device -/

/-- A connection and its device between any two results. -/
structure Device.Fits (boost : Wialon.Boost) (connection : Nat) (link : Link) (d : Core)
    (device : Device) : Prop where
  talk : (Wialon.talk boost).ReachableWhere Wialon.Talk.Waits (device.talk link.session)
  counted : link.settled.length = link.session.completions.length
  jobs : link.session.jobs.length = link.waiting.length
  keeps : d.KeepsAll connection link d.records.length device.turns

section Fits

variable {boost : Wialon.Boost} {d d' : Core} {connection : Nat} {link link' : Link}
  {device device' : Device}

/-- What happens elsewhere. -/
theorem Device.Fits.carried (carries : d.Carries d') (fits : device.Fits boost connection link d) :
    device.Fits boost connection link d' :=
  ⟨fits.talk, fits.counted, fits.jobs,
    (fits.keeps.grow carries (.refl link) (Or.inl rfl)).bound_le carries.length_le⟩

/-- A result is that of the one record that waits, unless it belongs to a package. -/
theorem Device.Fits.complete {record : Nat} {ok : Bool} (fits : device.Fits boost connection link d)
    (completed : link.complete boost record ok = some link') :
    ∃ c, link'.session.completions = link.session.completions ++ [c] ∧
      (device.told c).Fits boost connection link' d := by
  rw [Link.complete] at completed
  split at completed
  · cases completed
  next session out stepped =>
    cases completed
    have taken : (Wialon.session boost).step link.session
        (.complete (link.waiting.idxOf record) ok) = some (session, out) := stepped
    obtain ⟨running, step⟩ := Wialon.Session.step_cases taken
    have phase := (Wialon.Talk.sound fits.talk).phase running
    have talk : (Wialon.talk boost).step (device.talk link.session)
        (.session (.complete (link.waiting.idxOf record) ok)) =
          some (⟨⟨session, (Wialon.replies out).foldl (fun c text => c.start text) device.channel⟩,
            Wialon.amend (Wialon.Turn.hear ok) device.turns⟩, out) := by
      simp only [Wialon.talk, Wialon.Talk.step, Wialon.Wired.step, Device.talk, stepped]
      rfl
    cases step with
    | complete _ _ job found =>
      have bound := (List.getElem?_eq_some_iff.mp found).1
      refine ⟨_, rfl, fits.talk.step talk trivial, ?_, ?_, ?_⟩
      · simp [Wialon.Session.complete, fits.counted]
      · rw [fits.jobs] at bound
        have member := List.idxOf_lt_length_iff.mp bound
        have left := List.length_eraseIdx_of_lt (fits.jobs ▸ bound)
        dsimp only
        rw [List.length_erase_of_mem member, ← fits.jobs]
        exact left
      · have grows : link.Grows ⟨link.port,
            (link.session.complete (link.waiting.idxOf record) job ok).1, link.papi,
            link.waiting.erase record, link.settled ++ [record]⟩ :=
          ⟨List.prefix_append _ _, List.prefix_append _ _⟩
        have carries : d.Carries d := fun record r found => ⟨r, found, rfl, rfl⟩
        have keeps := fits.keeps
        change d.KeepsAll connection _ _ (Wialon.amend (Wialon.Turn.hear ok) device.turns)
        cases phase with
        | rest _ none =>
          have none : link.session.jobs = [] := none
          rw [none] at found
          cases found
        | @reading turn before _ reading =>
          have turns : device.turns = turn :: before := reading.turns
          rw [turns] at keeps ⊢
          obtain ⟨first, below, -, others⟩ := keeps
          refine ⟨first, below, .unread ?_, others.grow carries grows (Or.inr reading.settled)⟩
          rw [Wialon.Turn.hear, reading.unread.1]
        | @package turn before _ turns meant read _ settled =>
          have turns : device.turns = turn :: before := turns
          rw [turns] at keeps ⊢
          obtain ⟨first, below, -, others⟩ := keeps
          refine ⟨first, below, ?_, others.grow carries grows (Or.inr settled)⟩
          -- The results of a package are no turn's own.
          have line : (Wialon.Turn.hear ok turn).line = turn.line := by
            rw [Wialon.Turn.hear]
            split <;> rfl
          intro c fields meant'
          rw [line, meant] at meant'
          cases meant'
          rintro ⟨other | other | other, -⟩ <;> cases other
        | @result turn before c fields job' turns meant taken read _ late _ settled _ one =>
          have turns : device.turns = turn :: before := turns
          have one : link.session.jobs = [job'] := one
          obtain ⟨granted, read⟩ := Option.ne_none_iff_exists'.mp read
          have heard : Wialon.Turn.hear ok turn = { turn with late := [ok] } := by
            rw [Wialon.Turn.hear, read]
            simp [late]
          rw [turns] at keeps ⊢
          rw [Wialon.amend, heard]
          obtain ⟨first, below, own, others⟩ := keeps
          refine ⟨first, below, ?_, others.grow carries grows (Or.inr settled)⟩
          intro c' fields' meant' taken' _
          obtain ⟨record', r, least, most, here, mine, content, waits, -⟩ :=
            own c' fields' meant' taken' (by simp [read])
          have waits := waits late
          -- The record that has had its result is the one that has waited.
          have same : record = record' := by
            rw [waits, one] at bound
            have member := List.idxOf_lt_length_iff.mp bound
            exact List.mem_singleton.mp member
          subst same
          refine ⟨record, r, least, most, here, mine, content, fun none => absurd none (by simp), ?_⟩
          intro ok' member
          obtain rfl := List.mem_singleton.mp member
          obtain ⟨c, completions, result⟩ : ∃ c,
              (link.session.complete (link.waiting.idxOf record) job ok').1.completions =
                link.session.completions ++ [c] ∧ c.ok = ok' := ⟨_, rfl, rfl⟩
          refine ⟨link.settled.length, c, List.getElem?_concat_length, ?_, result⟩
          dsimp only
          rw [fits.counted, completions]
          exact List.getElem?_concat_length

/-- Any number of results. -/
theorem Device.Fits.completes (fits : device.Fits boost connection link d)
    (completes : Completes boost link link') :
    ((link'.session.completions.drop link.session.completions.length).foldl Device.told
      device).Fits boost connection link' d := by
  suffices some : ∃ results, link'.session.completions = link.session.completions ++ results ∧
      (results.foldl Device.told device).Fits boost connection link' d by
    obtain ⟨results, completions, fits'⟩ := some
    rw [completions, List.drop_left]
    exact fits'
  induction completes with
  | none => exact ⟨[], (List.append_nil _).symm, fits⟩
  | one record ok _ completed ih =>
    obtain ⟨results, completions, fits'⟩ := ih
    obtain ⟨c, more, fits''⟩ := fits'.complete completed
    refine ⟨results ++ [c], by rw [more, completions, List.append_assoc], ?_⟩
    rw [List.foldl_append]
    exact fits''

end Fits

/-! ### Lines and tokens -/

section Reads

variable {boost : Wialon.Boost} {d d' : Core} {connection : Nat} {link : Link} {device : Device}
  {e : Wialon.Event} {session : Wialon.Session} {out : List Wialon.Effect}

theorem talk_session (stepped : link.session.step boost e = some (session, out)) :
    (Wialon.talk boost).step (device.talk link.session) (.session e) =
      some (⟨⟨session, (Wialon.replies out).foldl (fun c text => c.start text) device.channel⟩,
        (device.talk link.session).noted out (.session e)⟩, out) := by
  simp only [Wialon.talk, Wialon.Talk.step, Wialon.Wired.step, Device.talk, stepped]

theorem handedOver_contents (out : List Wialon.Effect) :
    (handedOver out).map Prod.snd = Wialon.deliveries out := by
  induction out with
  | nil => rfl
  | cons effect out ih =>
    simp only [handedOver, Wialon.deliveries] at ih ⊢
    cases effect <;> simp [ih]

/-- The connection when a line or a token has been taken. -/
def Link.took (session : Wialon.Session) (out : List Wialon.Effect) (d : Core) (link : Link) : Link :=
  { link with
    session := session
    waiting := link.waiting ++ List.range' d.records.length (handedOver out).length }

/-- A token finds the device in a line, and one at its end ends it. -/
private theorem reading_token {granted : Bool}
    (fits : device.Fits boost connection link d)
    (stepped : link.session.step boost (.token granted) = some (session, out)) :
    ∃ turn before toks tok, (device.talk link.session).Reading boost turn before toks ∧
      link.session.pending = toks ++ [Wialon.crlf] ∧ (toks ++ [Wialon.crlf]).head? = some tok ∧
      out = (Wialon.consumeToken boost granted tok link.session.plugin).output := by
  have taken : (Wialon.session boost).step link.session (.token granted) = some (session, out) :=
    stepped
  obtain ⟨running, step⟩ := Wialon.Session.step_cases taken
  have phase := (Wialon.Talk.sound fits.talk).phase running
  cases step with
  | token _ tok rest pending =>
    have busy : (device.talk link.session).wired.session.pending ≠ [] := by
      intro idle
      cases pending.symm.trans idle
    cases phase with
    | rest idle => exact absurd idle busy
    | package _ _ _ _ _ idle => exact absurd idle busy
    | result _ _ _ _ _ _ _ _ idle => exact absurd idle busy
    | @reading turn before toks reading =>
      have shape : link.session.pending = toks ++ [Wialon.crlf] := reading.pending
      refine ⟨turn, before, toks, tok, reading, shape, ?_, rfl⟩
      rw [← shape, pending]
      rfl

/-- A record is handed over when its line ends; it is the only one then. -/
private theorem Device.Fits.kept (fits : device.Fits boost connection link d)
    (reads : ∀ place ok, e ≠ .complete place ok)
    (stepped : link.session.step boost e = some (session, out))
    (records : d'.records =
      d.records ++ (handedOver out).map (Record.start connection link.papi.processData)) :
    d'.KeepsAll connection (link.took session out d) d'.records.length
      ((device.talk link.session).noted out (.session e)) := by
  have carries := Core.Carries.of_append records
  obtain ⟨-, same⟩ := session_jobs stepped reads
  have grows : link.Grows (link.took session out d) :=
    ⟨List.prefix_refl _, by rw [Link.took, same]⟩
  have keeps := fits.keeps
  cases e with
  | complete place ok => exact absurd rfl (reads place ok)
  | line message =>
    have silent : handedOver out = [] := by
      have taken : (Wialon.session boost).step link.session (.line message) = some (session, out) :=
        stepped
      obtain ⟨-, step⟩ := Wialon.Session.step_cases taken
      cases step with
      | line => rfl
    refine ⟨d.records.length, carries.length_le, .unread rfl, keeps.grow carries grows (Or.inl ?_)⟩
    rw [Link.took, silent]
    exact List.append_nil _
  | token granted =>
    obtain ⟨turn, before, toks, tok, reading, pending, first, rfl⟩ := reading_token fits stepped
    have turns : device.turns = turn :: before := reading.turns
    rw [turns] at keeps
    obtain ⟨start, below, -, others⟩ := keeps
    have older := others.grow carries grows (Or.inr reading.settled)
    have noted : (device.talk link.session).noted
        (Wialon.consumeToken boost granted tok link.session.plugin).output (.session (.token granted)) =
          turn.take (if link.session.pending = [Wialon.crlf] then some granted else none)
            (Wialon.deliveries
              (Wialon.consumeToken boost granted tok link.session.plugin).output) :: before := by
      change Wialon.amend _ device.turns = _
      rw [turns]
      rfl
    rw [noted]
    refine ⟨start, below.trans carries.length_le, ?_, older⟩
    cases toks with
    | cons tok' toks =>
      rw [pending, if_neg (by simp)]
      exact .unread rfl
    | nil =>
      -- The end of the line hands over its one record, which is the only one that waits.
      obtain rfl : Wialon.crlf = tok := Option.some.inj first
      rw [pending, List.nil_append, if_pos rfl]
      intro c fields meant taken _
      obtain ⟨none, only⟩ := @Wialon.Talk.Reading.hands _ _ _ _ granted _ _ reading meant taken
      have none : link.session.jobs = [] := by
        have owed := reading.owed
        rw [none] at owed
        exact List.eq_nil_of_length_eq_zero (Nat.eq_zero_of_add_eq_zero_right owed)
      rw [← handedOver_contents] at only
      obtain ⟨⟨tree, content⟩, handed, contents⟩ := List.map_eq_singleton_iff.mp only
      have handed : handedOver (Wialon.consumeToken boost granted Wialon.crlf
          link.session.plugin).output = [(tree, content)] := handed
      have waiting : link.waiting = [] := by
        have jobs := fits.jobs
        rw [none] at jobs
        exact List.eq_nil_of_length_eq_zero jobs.symm
      refine ⟨d.records.length, Record.start connection link.papi.processData (tree, content), below,
        ?_, ?_, rfl, contents, ?_, ?_⟩
      · simp [records, handed]
      · rw [records, handed]
        exact List.getElem?_concat_length
      · intro _
        rw [Link.took, handed, waiting]
        rfl
      · intro ok member
        have unheard : turn.late = [] := reading.unread.2
        have member : ok ∈ turn.late := member
        rw [unheard] at member
        cases member

theorem Device.Fits.reads (fits : device.Fits boost connection link d)
    (reads : ∀ place ok, e ≠ .complete place ok)
    (stepped : link.session.step boost e = some (session, out))
    (waits : ∀ message, e = .line message →
      '\n' ∉ message ∧ link.session.jobs = [] ∧ device.channel.outstanding = [])
    (records : d'.records =
      d.records ++ (handedOver out).map (Record.start connection link.papi.processData)) :
    ∃ device', device.step boost link.session (.session e) = some device' ∧
      device'.Fits boost connection (link.took session out d) d' := by
  have talk := @talk_session _ _ device _ _ _ stepped
  obtain ⟨jobs, same⟩ := session_jobs stepped reads
  refine ⟨_, congrArg (Option.map _) talk, fits.talk.step talk ?_, ?_, ?_, ?_⟩
  · cases e with
    | line message => exact waits message rfl
    | token => exact trivial
    | complete => exact trivial
  · rw [Link.took, same]
    exact fits.counted
  · rw [Link.took, jobs, fits.jobs, List.length_append, List.length_range']
  · exact fits.kept reads stepped records

end Reads

/-! ### The whole fleet -/

structure Fleet.Sound (boost : Wialon.Boost) (factory : PluginFactory) (json : Dptree.Boost)
    (f : Fleet) : Prop where
  reached : (Daemon.core boost factory json).Reachable f.core
  devices : f.devices.length = f.core.links.length
  fits : ∀ (connection : Nat) (link : Link) (device : Device),
    f.core.links[connection]? = some link → f.devices[connection]? = some device →
      device.Fits boost connection link f.core

section Fleet

variable {boost : Wialon.Boost} {factory : PluginFactory} {json : Dptree.Boost} {d d' : Core}
  {f f' : Fleet} {reported : List Report}

/-- What is neither a new connection nor something read brings results only. -/
theorem step_hears {e : Event} (reached : (core boost factory json).Reachable d)
    (stepped : d.step boost factory json e = some (d', reported))
    (other : (∀ port address memory, e ≠ .accept port address memory) ∧
      (∀ connection message, e ≠ .line connection message) ∧
      ∀ connection granted, e ≠ .token connection granted) : d.Hears boost d' ∧ d.Carries d' := by
  obtain ⟨wired, books⟩ := books_of_reachable reached
  simp only [Core.step] at stepped
  split at stepped
  next alive =>
    have result {record : Nat} {e : Router.Event} (still : ∀ targets, touched targets e = targets)
        (moved : d.fanOut boost record e = some d') : d.Hears boost d' ∧ d.Carries d' := by
      obtain ⟨-, -, -, records, -⟩ := fanOut_books wired alive books still moved
      exact ⟨fanOut_hears moved, .of_same records⟩
    -- What a dispatcher has to report it reports in the same step.
    have report {d₁ : Core}
        (kept : d₁.Wired boost factory ∧ d₁.links = d.links ∧ d₁.Books (reported.map Prod.fst))
        (same : d₁.records = d.records) (done : d₁.reportAll boost reported = some d') :
        d.Hears boost d' ∧ d.Carries d' := by
      obtain ⟨-, -, -, -, records, -⟩ := reportAll_kept alive kept done
      refine ⟨(Core.Hears.refl kept.2.1).trans (reportAll_hears done), .of_same fun record => ?_⟩
      rw [records record, same]
    cases e with
    | accept port address memory => exact absurd rfl (other.1 port address memory)
    | line connection message => exact absurd rfl (other.2.1 connection message)
    | token connection granted => exact absurd rfl (other.2.2 connection granted)
    | returned record =>
      obtain ⟨d₁, moved, same⟩ := Option.map_eq_some_iff.mp stepped
      cases same
      exact result (fun _ => rfl) moved
    | refused record =>
      obtain ⟨d₁, moved, same⟩ := Option.map_eq_some_iff.mp stepped
      cases same
      exact result (fun _ => rfl) moved
    | run place =>
      obtain ⟨d₁, ran, done⟩ := reporting_some stepped
      have kept := run_books wired books ran
      obtain ⟨_, _, _, _, _, -, -, -, -, -, rfl⟩ := run_some ran
      exact report kept rfl done
    | act serial activity =>
      obtain ⟨d₁, acted, done⟩ := reporting_some stepped
      have kept := act_books wired books acted
      obtain ⟨_, _, -, -, rfl⟩ := act_some acted
      exact report kept rfl done
  next => cases stepped

/-- A write that goes on is a step of the conversation that the daemon does not notice. -/
theorem Device.Fits.writes {connection : Nat} {link : Link} {device device' : Device}
    {e : Wialon.WireEvent} (fits : device.Fits boost connection link d)
    (writes : ∀ e', e ≠ .session e') (stepped : device.step boost link.session e = some device') :
    device'.Fits boost connection link d := by
  obtain ⟨⟨t, out⟩, moved, rfl⟩ := Option.map_eq_some_iff.mp stepped
  -- Bytes that go out leave the session and what has been said as they are.
  have same : t.wired.session = link.session ∧ t.turns = device.turns := by
    rw [Wialon.Talk.step] at moved
    split at moved
    · cases moved
    next w out' wired =>
      cases moved
      cases e with
      | session e => exact absurd rfl (writes e)
      | take place =>
        rw [Wialon.Wired.step] at wired
        split at wired
        · cases wired
        · cases wired
          exact ⟨rfl, rfl⟩
      | written place =>
        rw [Wialon.Wired.step] at wired
        split at wired
        · cases wired
        · cases wired
          exact ⟨rfl, rfl⟩
  have waits : (device.talk link.session).Waits e t := by
    cases e with
    | session e => exact absurd rfl (writes e)
    | take => exact trivial
    | written => exact trivial
  have next := fits.talk.step moved waits
  obtain ⟨⟨session, channel⟩, turns⟩ := t
  obtain ⟨rfl, rfl⟩ := same
  exact ⟨next, fits.counted, fits.jobs, fits.keeps⟩

/-- Something has been read on one connection. -/
private theorem Fleet.Sound.reads {connection : Nat} {e : Wialon.Event} {devices : List Device}
    (sound : f.Sound boost factory json) (reads : ∀ place ok, e ≠ .complete place ok)
    (moved : f.core.onSession boost factory connection e = some d')
    (followed : f.converse boost connection (.session e) = some devices)
    (waits : ∀ message, e = .line message →
      '\n' ∉ message ∧ (∀ link ∈ f.core.links[connection]?, link.session.jobs = []) ∧
        ∀ device ∈ f.devices[connection]?, device.channel.outstanding = []) :
    devices.length = d'.links.length ∧ ∀ (other : Nat) (link : Link) (device : Device),
      d'.links[other]? = some link → devices[other]? = some device →
        device.Fits boost other link d' := by
  obtain ⟨link, session, out, here, stepped, moved⟩ := onSession_some moved
  rw [Fleet.converse, here] at followed
  split at followed
  next link₁ device found own =>
    obtain rfl : link = link₁ := Option.some.inj found
    have records : d'.records = f.core.records ++
        (handedOver out).map (Record.start connection link.papi.processData) := by rw [moved]
    have links : d'.links = f.core.links.set connection (link.took session out f.core) := by rw [moved]; rfl
    obtain ⟨device', conversed, fits⟩ := (sound.fits connection link device here own).reads reads stepped
      (fun message line => by
        obtain ⟨clean, idle, alone⟩ := waits message line
        exact ⟨clean, idle link here, alone device own⟩)
      records
    rw [conversed] at followed
    obtain rfl := Option.some.inj followed
    refine ⟨by rw [links, List.length_set, List.length_set, sound.devices], ?_⟩
    intro other link₁ device₁ there there'
    rw [links] at there
    -- For the other connections there are new records only.
    rcases (Replace.getElem?_set here other).mp there with ⟨rfl, rfl⟩ | ⟨apart, there⟩
    · obtain ⟨-, rfl⟩ | ⟨apart, -⟩ := (Replace.getElem?_set own other).mp there'
      · exact fits
      · exact absurd rfl apart
    · obtain ⟨same, -⟩ | ⟨-, there'⟩ := (Replace.getElem?_set own other).mp there'
      · exact absurd same apart
      · exact (sound.fits other link₁ device₁ there there').carried (.of_append records)
  next => cases followed

/-- A write of one connection has gone on. -/
private theorem Fleet.Sound.wrote {connection : Nat} {e : Wialon.WireEvent}
    (sound : f.Sound boost factory json) (writes : ∀ e', e ≠ .session e')
    (stepped : (f.converse boost connection e).map (fun devices => ({ f with devices := devices },
      ([] : List Report))) = some (f', reported)) : f'.Sound boost factory json := by
  obtain ⟨devices, conversed, same⟩ := Option.map_eq_some_iff.mp stepped
  cases same
  rw [Fleet.converse] at conversed
  split at conversed
  next link device here own =>
    obtain ⟨device', moved, rfl⟩ := Option.map_eq_some_iff.mp conversed
    have fits := (sound.fits connection link device here own).writes writes moved
    refine ⟨sound.reached, by rw [List.length_set, sound.devices], ?_⟩
    intro other link₁ device₁ there there'
    rcases (Replace.getElem?_set own other).mp there' with ⟨rfl, rfl⟩ | ⟨-, there'⟩
    · obtain rfl : link = link₁ := Option.some.inj (here.symm.trans there)
      exact fits
    · exact sound.fits other link₁ device₁ there there'
  next => cases conversed

/-- Results may have come in on every connection. -/
private theorem Fleet.Sound.hears (sound : f.Sound boost factory json)
    (heard : f.core.Hears boost d' ∧ f.core.Carries d') (connection : Nat) (link : Link)
    (device : Device) (here : d'.links[connection]? = some link)
    (own : (f.devices.mapIdx fun connection device =>
      (f.core.resultsSince connection d').foldl Device.told device)[connection]? = some device) :
    device.Fits boost connection link d' := by
  obtain ⟨⟨-, links⟩, carries⟩ := heard
  rw [List.getElem?_mapIdx, Option.map_eq_some_iff] at own
  obtain ⟨device₀, own, rfl⟩ := own
  obtain ⟨link₀, there⟩ : ∃ link₀, f.core.links[connection]? = some link₀ := by
    have bound := (List.getElem?_eq_some_iff.mp own).1
    rw [sound.devices] at bound
    exact ⟨_, List.getElem?_eq_getElem bound⟩
  obtain ⟨link₁, there₁, completes⟩ := links connection link₀ there
  obtain rfl : link₁ = link := Option.some.inj (there₁.symm.trans here)
  rw [Core.resultsSince, there, here]
  exact ((sound.fits connection link₀ device₀ there own).completes completes).carried carries

/-- A new connection is at the start of its conversation. -/
private theorem Fleet.Sound.accepts {port : Port} {memory : Wialon.Plugin} {papi : ApiTranslator}
    (sound : f.Sound boost factory json) (links : d'.links = f.core.links ++ [.start port memory papi])
    (records : d'.records = f.core.records) (connection : Nat) (link : Link) (device : Device)
    (here : d'.links[connection]? = some link)
    (own : (f.devices ++ [Device.start])[connection]? = some device) :
    device.Fits boost connection link d' := by
  have carries : f.core.Carries d' := .of_same fun record => by rw [records]
  rw [links] at here
  by_cases old : connection < f.core.links.length
  · rw [List.getElem?_append_left old] at here
    rw [List.getElem?_append_left (by rw [sound.devices]; exact old)] at own
    exact (sound.fits connection link device here own).carried carries
  · have bound := (List.getElem?_eq_some_iff.mp here).1
    obtain rfl : connection = f.core.links.length := by
      rw [List.length_append, List.length_singleton] at bound
      omega
    rw [List.getElem?_concat_length] at here
    rw [← sound.devices, List.getElem?_concat_length] at own
    cases here
    cases own
    exact ⟨.init ⟨⟨Link.start_fresh port memory papi, rfl⟩, rfl⟩, rfl, rfl, trivial⟩

/-- What the devices follow of a step of the daemon. -/
private theorem Fleet.Sound.follows {e : Event} {devices : List Device}
    (sound : f.Sound boost factory json)
    (stepped : f.core.step boost factory json e = some (d', reported))
    (followed : f.follow boost e d' = some devices) (waits : f.Waits (.daemon e) f') :
    devices.length = d'.links.length ∧ ∀ (connection : Nat) (link : Link) (device : Device),
      d'.links[connection]? = some link → devices[connection]? = some device →
        device.Fits boost connection link d' := by
  have hears (other : (∀ port address memory, e ≠ .accept port address memory) ∧
      (∀ connection message, e ≠ .line connection message) ∧
      ∀ connection granted, e ≠ .token connection granted)
      (same : (f.devices.mapIdx fun connection device =>
        (f.core.resultsSince connection d').foldl Device.told device) = devices) :
      devices.length = d'.links.length ∧ ∀ (connection : Nat) (link : Link) (device : Device),
        d'.links[connection]? = some link → devices[connection]? = some device →
          device.Fits boost connection link d' := by
    have heard := step_hears sound.reached stepped other
    subst same
    exact ⟨by rw [List.length_mapIdx, sound.devices, heard.1.same], sound.hears heard⟩
  -- A new connection, a step of one, or results for any of them.
  cases e with
  | accept port address memory =>
    simp only [Core.step] at stepped
    split at stepped
    next alive =>
      obtain ⟨papi, made, same⟩ := Option.map_eq_some_iff.mp stepped
      cases same
      cases followed
      exact ⟨by simp [sound.devices], sound.accepts rfl rfl⟩
    next => cases stepped
  | line connection message =>
    simp only [Core.step] at stepped
    split at stepped
    next alive =>
      obtain ⟨d₁, moved, same⟩ := Option.map_eq_some_iff.mp stepped
      cases same
      exact sound.reads (by simp) moved followed fun _ same => by
        cases same
        exact waits
    next => cases stepped
  | token connection granted =>
    simp only [Core.step] at stepped
    split at stepped
    next alive =>
      obtain ⟨d₁, moved, same⟩ := Option.map_eq_some_iff.mp stepped
      cases same
      exact sound.reads (by simp) moved followed (by simp)
    next => cases stepped
  | returned record => exact hears (by simp) (Option.some.inj followed)
  | refused record => exact hears (by simp) (Option.some.inj followed)
  | run place => exact hears (by simp) (Option.some.inj followed)
  | act serial activity => exact hears (by simp) (Option.some.inj followed)

theorem Fleet.Sound.step {e : FleetEvent} (sound : f.Sound boost factory json)
    (stepped : (fleet boost factory json).step f e = some (f', reported)) (waits : f.Waits e f') :
    f'.Sound boost factory json := by
  cases e with
  | daemon e =>
    simp only [fleet, Fleet.step] at stepped
    split at stepped
    · cases stepped
    next d' reported' moved =>
      obtain ⟨devices, followed, same⟩ := Option.map_eq_some_iff.mp stepped
      cases same
      obtain ⟨length, fits⟩ := sound.follows moved followed waits
      exact ⟨sound.reached.step moved, length, fits⟩
  | take connection place => exact sound.wrote (by simp) stepped
  | written connection place => exact sound.wrote (by simp) stepped

/-- A fleet whose devices wait for their answers. -/
theorem fleet_sound (reached : (fleet boost factory json).ReachableWhere Fleet.Waits f) :
    f.Sound boost factory json := by
  apply reached.invariant (Fleet.Sound boost factory json)
  · rintro f ⟨core, devices⟩
    refine ⟨.init core, by simp [devices, core.links], ?_⟩
    intro connection link device here
    rw [core.links] at here
    cases here
  · intro f e f' reported _ sound stepped waits
    exact sound.step stepped waits

/-! ### What has succeeded -/

/-- A result is told as the router has found it. -/
theorem Link.Resulted.told {connection record : Nat} {link : Link} {ok : Bool}
    (told : List.Forall₂ (d.Told connection) link.settled link.session.completions)
    (resulted : link.Resulted record ok) : ∃ c, d.Told connection record c ∧ c.ok = ok := by
  obtain ⟨place, c, here, there, same⟩ := resulted
  obtain ⟨bound, rfl⟩ := List.getElem?_eq_some_iff.mp here
  obtain ⟨bound', rfl⟩ := List.getElem?_eq_some_iff.mp there
  exact ⟨_, told.get bound bound', same⟩

/-- The lines that have been answered with success have each a record of their own. -/
theorem Core.KeepsAll.stored {connection bound : Nat} {link : Link} {turns : List Wialon.Turn}
    (keeps : d.KeepsAll connection link bound turns) : ∃ records : List Nat,
      records.Pairwise (· < ·) ∧ (∀ record ∈ records, record < bound) ∧
      List.Forall₂ (fun record content => link.Resulted record true ∧
        ∃ r, d.records[record]? = some r ∧ r.connection = connection ∧ r.content = content)
        records (Wialon.stored turns) := by
  induction turns generalizing bound with
  | nil => exact ⟨[], .nil, by simp, .nil⟩
  | cons turn before ih =>
    obtain ⟨first, below, own, others⟩ := keeps
    obtain ⟨records, increasing, least, stored⟩ := ih others
    rw [Wialon.stored]
    cases found : turn.stored (Wialon.opens before) with
    | none =>
      rw [Option.toList_none, List.append_nil]
      exact ⟨records, increasing, fun record member => (least record member).trans_le below, stored⟩
    | some content =>
      obtain ⟨c, fields, meant, taken, read, yes, rfl⟩ := Wialon.Turn.stored_some found
      obtain ⟨record, r, late, early, here, mine, content, -, resulted⟩ := own c fields meant taken read
      -- Its record came after those of the turns before.
      refine ⟨records ++ [record], ?_, ?_, ?_⟩
      · rw [List.pairwise_append]
        refine ⟨increasing, List.pairwise_singleton _ _, ?_⟩
        intro older member newer last
        rw [List.mem_singleton.mp last]
        exact (least older member).trans_le late
      · intro older member
        rcases List.mem_append.mp member with member | last
        · exact (least older member).trans_le below
        · rw [List.mem_singleton.mp last]
          exact early
      · apply List.rel_append stored
        exact .cons ⟨resulted true yes, r, here, mine, content⟩ .nil

theorem Fleet.Sound.wire {connection : Nat} {link : Link} {device : Device}
    (sound : f.Sound boost factory json) (here : f.core.links[connection]? = some link)
    (own : f.devices[connection]? = some device) :
    device.channel.wire <+: (Wialon.meant device.turns).flatten ∧
      (device.channel.outstanding = [] →
        device.channel.wire = (Wialon.meant device.turns).flatten) := by
  have talk := Wialon.Talk.sound (sound.fits connection link device here own).talk
  have carried := talk.intact.carried
  have complete := talk.intact.complete
  rw [talk.texts] at carried complete
  exact ⟨carried, complete⟩

theorem Fleet.Sound.stored {connection : Nat} {link : Link} {device : Device}
    (documented : json.Documented) (sound : f.Sound boost factory json)
    (here : f.core.links[connection]? = some link)
    (own : f.devices[connection]? = some device) : ∃ records : List Nat,
      records.Pairwise (· < ·) ∧ List.Forall₂ (fun record content =>
        f.core.Succeeded connection record content) records (Wialon.stored device.turns) := by
  have fits := sound.fits connection link device here own
  obtain ⟨wired, -⟩ := books_of_reachable sound.reached
  have told := (wired.links connection link here).told
  obtain ⟨records, increasing, -, stored⟩ := fits.keeps.stored
  refine ⟨records, increasing, stored.imp ?_⟩
  rintro record content ⟨resulted, r, found, mine, rfl⟩
  obtain ⟨c, told, yes⟩ := resulted.told told
  obtain ⟨content, succeeded⟩ := told.succeeded documented sound.reached yes
  obtain ⟨r', found', -, same, -⟩ := id succeeded
  obtain rfl : r = r' := Option.some.inj (found.symm.trans found')
  subst same
  exact succeeded

/-- What a device that waits for its answers is told is what its records have come to. It reads
the replies that are meant for its lines, in their order, and all of them once nothing is on its
way; and the lines whose reply is success have each a record of their own, which holds the fields
of the line and has succeeded with every dispatcher. -/
theorem told_truly (documented : json.Documented)
    (reached : (fleet boost factory json).ReachableWhere Fleet.Waits f) {connection : Nat}
    {link : Link} {device : Device} (here : f.core.links[connection]? = some link)
    (own : f.devices[connection]? = some device) :
    (device.channel.wire <+: (Wialon.meant device.turns).flatten ∧
      (device.channel.outstanding = [] →
        device.channel.wire = (Wialon.meant device.turns).flatten)) ∧
      ∃ records : List Nat, records.Pairwise (· < ·) ∧
        List.Forall₂ (fun record content => f.core.Succeeded connection record content)
          records (Wialon.stored device.turns) := by
  have sound := fleet_sound reached
  exact ⟨sound.wire here own, sound.stored documented here own⟩

end Fleet

/-! ### The example configuration -/

def exampleFleet : Fleet := ⟨exampleCore, []⟩

/-- A reply of seven bytes goes out to the first device. -/
def replyTaken : List FleetEvent := List.replicate 7 (.take 0 0) ++ [.written 0 0]

/-- A tracker logs in, reads the reply, sends a message and reads that it has been stored. -/
def exampleTold : List FleetEvent :=
  .daemon (.accept wialonPort [] Wialon.accepted.plugin) ::
    (Event.whole 0 "#L#i;p").map .daemon ++ replyTaken ++
    (Event.whole 0 "#M#hi" ++ exampleStored.drop exampleMessage.length).map .daemon ++ replyTaken

theorem told_truly_stored : ∃ f : Fleet, ∃ device, f.devices[0]? = some device ∧
    device.channel.wire = "#AL#1\r\n#AM#1\r\n".toList ∧
    ∃ record, f.core.Succeeded 0 record [("message".toList, "hi".toList)] := by
  have kept : (fleet Wialon.plain exampleFactory Dptree.escaping).along Fleet.Waits exampleFleet
      exampleTold = true := by decide +kernel
  have reached := Machine.ReachableWhere.along
    (m := fleet Wialon.plain exampleFactory Dptree.escaping) (P := Fleet.Waits)
    (.init ⟨boot_fresh example_boot, rfl⟩) exampleTold kept
  generalize after : (fleet Wialon.plain exampleFactory Dptree.escaping).after exampleFleet
    exampleTold = f at reached
  have wires : f.devices[0]?.map (fun device => (device.channel.wire, Wialon.stored device.turns)) =
      some ("#AL#1\r\n#AM#1\r\n".toList, [[("message".toList, "hi".toList)]]) := by
    rw [← after]
    decide +kernel
  have links : f.core.links[0]?.isSome = true := by
    rw [← after]
    decide +kernel
  obtain ⟨device, own, same⟩ := Option.map_eq_some_iff.mp wires
  simp only [Prod.mk.injEq] at same
  obtain ⟨wire, one⟩ := same
  obtain ⟨link, here⟩ := Option.isSome_iff_exists.mp links
  obtain ⟨-, records, -, stored⟩ := told_truly Dptree.escaping_documented reached here own
  rw [one] at stored
  obtain ⟨record, _, succeeded, -⟩ := List.forall₂_cons_right_iff.mp stored
  exact ⟨f, device, own, wire, record, succeeded⟩

end Eiptnd.Daemon
