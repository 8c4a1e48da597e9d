import Eiptnd.Daemon.Delivery
import Eiptnd.Wialon.Waiting

/-! The daemon and the devices that are connected to it.

What a handler does on a connection is a step of its conversation with the device: a line or a
token, or the results of records, which may come in several at a time and on any connection. -/
namespace Eiptnd.Daemon

open Reactive Router Writes

/-- The conversation on a connection, but for the translator. -/
structure Device where
  channel : Channel Char
  /-- What the device has sent (history). -/
  turns : List Wialon.Turn

def Device.start : Device := ⟨.empty, []⟩

def Device.talk (session : Wialon.Session) (device : Device) : Wialon.Talk :=
  ⟨⟨session, device.channel⟩, device.turns⟩

/-- The daemon, with a device for each of its connections. -/
structure Fleet where
  core : Core
  devices : List Device

inductive FleetEvent
  | daemon (e : Event)
  /-- An outstanding write of a connection takes a byte. -/
  | take (connection place : Nat)
  /-- A write of a connection is complete. -/
  | written (connection place : Nat)
  deriving DecidableEq, Repr

/-- The results that have come in on a connection since. -/
def Core.resultsSince (before : Core) (connection : Nat) (d : Core) : List Wialon.Completion :=
  match before.links[connection]?, d.links[connection]? with
  | some link, some link' => link'.session.completions.drop link.session.completions.length
  | _, _ => []

/-- A result comes in, and may make a reply. -/
def Device.told (device : Device) (c : Wialon.Completion) : Device :=
  ⟨(Wialon.replies c.output).foldl (fun channel text => channel.start text) device.channel,
    Wialon.amend (Wialon.Turn.hear c.ok) device.turns⟩

section Machine

variable (boost : Wialon.Boost)

/-- Something happens in the conversation. -/
def Device.step (session : Wialon.Session) (e : Wialon.WireEvent) (device : Device) :
    Option Device :=
  ((device.talk session).step boost e).map fun r => ⟨r.1.wired.channel, r.1.turns⟩

/-- Something happens on one connection. -/
def Fleet.converse (connection : Nat) (e : Wialon.WireEvent) (f : Fleet) : Option (List Device) :=
  match f.core.links[connection]?, f.devices[connection]? with
  | some link, some device =>
    (device.step boost link.session e).map fun device => f.devices.set connection device
  | _, _ => none

/-- What a step of the daemon is for the devices. -/
def Fleet.follow (e : Event) (core : Core) (f : Fleet) : Option (List Device) :=
  match e with
  | .accept _ _ _ => some (f.devices ++ [.start])
  | .line connection message => f.converse boost connection (.session (.line message))
  | .token connection granted => f.converse boost connection (.session (.token granted))
  | .returned _ | .refused _ | .run _ | .act _ _ =>
    some (f.devices.mapIdx fun connection device =>
      (f.core.resultsSince connection core).foldl Device.told device)

variable (factory : PluginFactory) (json : Dptree.Boost)

def Fleet.step (f : Fleet) : FleetEvent → Option (Fleet × List Report)
  | .daemon e =>
    match f.core.step boost factory json e with
    | none => none
    | some (core, reported) =>
      (f.follow boost e core).map fun devices => (⟨core, devices⟩, reported)
  | .take connection place =>
    (f.converse boost connection (.take place)).map fun devices => ({ f with devices := devices }, [])
  | .written connection place =>
    (f.converse boost connection (.written place)).map fun devices =>
      ({ f with devices := devices }, [])

structure Fleet.Fresh (f : Fleet) : Prop where
  core : f.core.Fresh factory
  devices : f.devices = []

def fleet : Machine Fleet FleetEvent Report := ⟨Fleet.Fresh factory, Fleet.step boost factory json⟩

end Machine

/-- A device sends its next line, in which no LF stands, when none of its records waits for a
result and no reply is on its way. -/
def Fleet.Waits (f : Fleet) (e : FleetEvent) (_ : Fleet) : Prop :=
  match e with
  | .daemon (.line connection message) =>
    '\n' ∉ message ∧ (∀ link ∈ f.core.links[connection]?, link.session.jobs = []) ∧
      ∀ device ∈ f.devices[connection]?, device.channel.outstanding = []
  | _ => True

instance (f : Fleet) (e : FleetEvent) (f' : Fleet) : Decidable (f.Waits e f') := by
  unfold Fleet.Waits
  split <;> infer_instance

/-! ### The results of a step -/

section Completes

variable {boost : Wialon.Boost} {factory : PluginFactory} {json : Dptree.Boost} {d d' : Core}
  {link link' : Link}

/-- Some results come in on a connection, one after the other. -/
inductive Completes (boost : Wialon.Boost) (link : Link) : Link → Prop
  | none : Completes boost link link
  | one {link₁ link₂ : Link} (record : Nat) (ok : Bool) : Completes boost link link₁ →
      link₁.complete boost record ok = some link₂ → Completes boost link link₂

theorem Completes.trans {link₁ link₂ : Link} (first : Completes boost link link₁)
    (second : Completes boost link₁ link₂) : Completes boost link link₂ := by
  induction second with
  | none => exact first
  | one record ok _ completed ih => exact .one record ok ih completed

/-- The connections stay, and get results only. -/
structure Core.Hears (boost : Wialon.Boost) (d d' : Core) : Prop where
  same : d'.links.length = d.links.length
  links : ∀ (connection : Nat) (link : Link), d.links[connection]? = some link →
    ∃ link', d'.links[connection]? = some link' ∧ Completes boost link link'

theorem Core.Hears.refl (same : d'.links = d.links) : d.Hears boost d' :=
  ⟨by rw [same], fun _ link here => ⟨link, by rw [same, here], .none⟩⟩

theorem Core.Hears.trans {d'' : Core} (first : d.Hears boost d') (second : d'.Hears boost d'') :
    d.Hears boost d'' := by
  refine ⟨second.same.trans first.same, fun connection link here => ?_⟩
  obtain ⟨link₁, here₁, completes⟩ := first.links connection link here
  obtain ⟨link₂, here₂, later⟩ := second.links connection link₁ here₁
  exact ⟨link₂, here₂, completes.trans later⟩

theorem complete_hears {record connection : Nat} {oks : List Bool}
    (completed : Core.complete boost record connection d oks = some d') : d.Hears boost d' := by
  induction oks generalizing d with
  | nil =>
    cases completed
    exact .refl rfl
  | cons ok oks ih =>
    rw [Core.complete] at completed
    split at completed
    · cases completed
    next link here =>
      split at completed
      · cases completed
      next link' done =>
        have bound := (List.getElem?_eq_some_iff.mp here).1
        apply Core.Hears.trans ⟨List.length_set .., fun other link₁ there => ?_⟩ (ih completed)
        by_cases same : other = connection
        · subst same
          obtain rfl : link = link₁ := Option.some.inj (here.symm.trans there)
          exact ⟨link', List.getElem?_set_self bound, .one record ok .none done⟩
        · exact ⟨link₁, (List.getElem?_set_ne (Ne.symm same)).trans there, .none⟩

theorem fanOut_hears {record : Nat} {e : Router.Event} (stepped : d.fanOut boost record e = some d') :
    d.Hears boost d' := by
  rw [Core.fanOut] at stepped
  split at stepped
  · cases stepped
  · split at stepped
    · cases stepped
    · obtain ⟨same, links⟩ := complete_hears stepped
      exact ⟨same, links⟩

theorem reportAll_hears {reports : List Report} (reported : d.reportAll boost reports = some d') :
    d.Hears boost d' := by
  induction reports generalizing d with
  | nil =>
    cases reported
    exact .refl rfl
  | cons report reports ih =>
    obtain ⟨ticket, ok⟩ := report
    obtain ⟨d₁, first, later⟩ := Option.bind_eq_some_iff.mp reported
    obtain ⟨d₂, used, released⟩ := Option.bind_eq_some_iff.mp first
    exact ((fanOut_hears used).trans (fanOut_hears released)).trans (ih later)

end Completes

end Eiptnd.Daemon
