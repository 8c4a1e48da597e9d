import Eiptnd.Redis.Turns

/-! That a client without a connection keeps trying to get one.

Every attempt starts the time limit that leads to the next one, and nothing but a
connection cancels it for good; a lost connection resolves the name again. What ends
this is a name that is not resolved: the handler reads the end iterator. -/
namespace Eiptnd.Redis

open Reactive

def Wait.Connecting : Wait → Prop
  | .connect _ => True
  | .ping => False

/-- Endpoints of that host and port, and not the end iterator. -/
def Named (host port : Bytes) (endpoints : List Endpoint) : Prop :=
  endpoints ≠ [] ∧ ∀ endpoint ∈ endpoints, endpoint.query = (host, port)

def Wait.Named (host port : Bytes) : Wait → Prop
  | .connect endpoints => Redis.Named host port endpoints
  | .ping => True

/-- Something is pending that leads to another attempt to connect. -/
def World.Trying (host port : Bytes) (w : World) : Prop :=
  (host, port) ∈ w.resolves ∨ w.attempts ≠ [] ∨ Timer.Armed Wait.Connecting w.timer

/-- What is pending is about the host and port, and so is what the client remembers of
them once it has anything to remember. -/
structure World.Retrying (host port : Bytes) (w : World) : Prop where
  positive : 0 < w.client.timeoutConnect
  resolves : ∀ query ∈ w.resolves, query = (host, port)
  attempts : ∀ endpoints ∈ w.attempts, Named host port endpoints
  waits : ∀ h ∈ w.timer, h.purpose.Named host port
  remembers : w.client.host = host ∧ w.client.port = port ∨
    w.attempts = [] ∧ w.timer = [] ∧ w.client.isConnected = false
  /-- The socket is closed only to be opened again. -/
  reopens : w.client.socketOpen = false → w.resolves ≠ []
  /-- The attempts are left out: each of them may fail without another one. -/
  trying : w.client.isConnected = false →
    w.resolves ≠ [] ∨ Timer.Armed Wait.Connecting w.timer

section Kept

variable {w w' : World} {host port : Bytes} {h : Happening}

/-- Another attempt, and no more than before of everything else. -/
private theorem dialled_retrying {v : World} {s : System} {endpoints : List Endpoint}
    (before : w.Retrying host port) (resolves : v.resolves ⊆ w.resolves)
    (attempts : v.attempts ⊆ w.attempts) (waits : v.timer ⊆ w.timer)
    (named : Named host port endpoints) (client : s.client = w.client.moved host port true) :
    (v.dialled s endpoints).Retrying host port := by
  have shape : (v.dialled s endpoints).client = w.client.moved host port true := client
  refine ⟨?_, fun query member => before.resolves query (resolves member), ?_, ?_, .inl ?_, ?_,
    fun _ => .inr ?_⟩
  · rw [shape]
    exact before.positive
  · intro attempt member
    rcases List.mem_append.mp member with old | new
    · exact before.attempts attempt (attempts old)
    · rw [List.mem_singleton.mp new]
      exact named
  · have limit : Wait.Named host port (.connect endpoints) := named
    apply Timer.purposes_wait limit
    exact Timer.purposes_cancel fun h member => before.waits h (waits member)
  · rw [shape]
    exact ⟨rfl, rfl⟩
  · intro closed
    rw [shape] at closed
    cases closed
  · exact Timer.armed_wait trivial

private theorem waits_erase {run : Timer.Handler Wait} {handlers : List (Timer.Handler Wait)}
    (waits : ∀ h ∈ handlers, h.purpose.Named host port) :
    ∀ h ∈ handlers.erase run, h.purpose.Named host port :=
  fun h member => waits h (List.mem_of_mem_erase member)

private theorem waits_pong {front : List (Entry × List InByte)} (c : Client)
    {handlers : List (Timer.Handler Wait)} (waits : ∀ h ∈ handlers, h.purpose.Named host port) :
    ∀ h ∈ timed handlers (matchOutput c front), h.purpose.Named host port := by
  apply timed_matchOutput (P := fun handlers => ∀ h ∈ handlers, h.purpose.Named host port)
  · exact fun _ => Timer.purposes_cancel
  · exact fun _ => Timer.purposes_wait trivial
  · exact waits

theorem World.Retrying.connected (before : w.Retrying host port)
    (connected : w.client.isConnected = true) : w.client.host = host ∧ w.client.port = port := by
  rcases before.remembers with names | ⟨-, -, closed⟩
  · exact names
  · simp [connected] at closed

theorem World.Retrying.attempted {endpoints : List Endpoint} (before : w.Retrying host port)
    (member : endpoints ∈ w.attempts) : w.client.host = host ∧ w.client.port = port := by
  rcases before.remembers with names | ⟨none, -, -⟩
  · exact names
  · simp [none] at member

theorem World.Retrying.waited {wait : Timer.Handler Wait} (before : w.Retrying host port)
    (member : wait ∈ w.timer) : w.client.host = host ∧ w.client.port = port := by
  rcases before.remembers with names | ⟨-, none, -⟩
  · exact names
  · simp [none] at member

/-- A step that leaves the connection as it is, and no more attempts than before. -/
private theorem still_retrying {s : System} {attempts : List (List Endpoint)}
    {handlers : List (Timer.Handler Wait)} (before : w.Retrying host port)
    (link : w.client.SameLink s.client) (fewer : attempts ⊆ w.attempts)
    (waits : ∀ h ∈ handlers, h.purpose.Named host port) (none : w.timer = [] → handlers = [])
    (armed : Timer.Armed Wait.Connecting w.timer → Timer.Armed Wait.Connecting handlers) :
    World.Retrying host port { w with system := s, attempts := attempts, timer := handlers } := by
  refine ⟨?_, before.resolves, fun attempt member => before.attempts attempt (fewer member),
    waits, ?_, ?_, ?_⟩
  · exact link.timeoutConnect ▸ before.positive
  · rcases before.remembers with ⟨sameHost, samePort⟩ | ⟨empty, timer, closed⟩
    · exact .inl ⟨link.host.trans sameHost, link.port.trans samePort⟩
    · rw [empty] at fewer
      exact .inr ⟨List.subset_nil.mp fewer, none timer, link.isConnected.trans closed⟩
  · exact fun closed => before.reopens (link.socketOpen.symm.trans closed)
  · intro closed
    rcases before.trying (link.isConnected.symm.trans closed) with pending | live
    · exact .inl pending
    · exact .inr (armed live)

theorem Turns.retrying (turn : Turns w h w') (before : w.Retrying host port) :
    w'.Retrying host port := by
  cases turn with
  | expired =>
    have waits := Timer.purposes_expire before.waits
    refine still_retrying before (.refl _) (List.Subset.refl _) waits ?_ Timer.Armed.expire
    intro none
    rw [none]
    rfl
  | still link => exact still_retrying before link (List.Subset.refl _) before.waits id id
  | @ignored _ s wait client =>
    refine still_retrying before (client ▸ .refl _) (List.Subset.refl _)
      (waits_erase before.waits) ?_ ?_
    · intro none
      rw [none]
      rfl
    · exact fun armed => armed.erase fun _ => rfl
  | pinged link =>
    apply still_retrying before link (List.Subset.refl _) (waits_erase before.waits)
    · intro none
      rw [none]
      rfl
    · exact fun armed => armed.erase fun connecting => connecting.elim
  | @timedOut endpoints s opened expired client =>
    obtain ⟨sameHost, samePort⟩ := before.waited expired
    have still : w.client.moved host port true = w.client := by
      rw [← sameHost, ← samePort, ← opened]
      rfl
    have named : Named host port endpoints := before.waits _ expired
    exact dialled_retrying before (List.Subset.refl _) (List.Subset.refl _) List.erase_subset named
      (client.trans still.symm)
  | @resolved endpoint rest s member same client =>
    have query := before.resolves _ member
    obtain ⟨sameHost, samePort⟩ := Prod.mk.inj query
    rw [sameHost, samePort] at client
    refine dialled_retrying before List.erase_subset (List.Subset.refl _) (List.Subset.refl _)
      ⟨by simp, ?_⟩ client
    intro other inside
    rcases List.mem_cons.mp inside with rfl | later
    · exact query
    · exact (same other later).trans query
  -- Connected: the time limit has been cancelled, and is not needed.
  | @up endpoints s member link =>
    have names := before.attempted member
    have connected : s.client.isConnected = true := link.isConnected
    refine ⟨link.timeoutConnect ▸ before.positive, before.resolves, ?_, ?_,
      .inl ⟨link.host.trans names.1, link.port.trans names.2⟩, ?_, ?_⟩
    · exact fun attempt inside => before.attempts attempt (List.mem_of_mem_erase inside)
    · apply timed_timeoutNoPing (P := fun handlers => ∀ h ∈ handlers, h.purpose.Named host port)
      · exact fun _ => Timer.purposes_cancel
      · exact fun _ => Timer.purposes_wait trivial
      · exact before.waits
    · exact fun closed => before.reopens (link.socketOpen.symm.trans closed)
    · intro closed
      exact absurd (connected.symm.trans closed) (by simp)
  | failed member client =>
    -- The time limit of this attempt, or of a later one, is still there.
    exact still_retrying before (client ▸ .refl _) List.erase_subset before.waits id id
  | @following endpoint next rest s member client =>
    obtain ⟨sameHost, samePort⟩ := before.attempted member
    rw [sameHost, samePort] at client
    refine dialled_retrying before (List.Subset.refl _) List.erase_subset (List.Subset.refl _)
      ⟨by simp, ?_⟩ client
    exact fun other inside => (before.attempts _ member).2 other (.tail _ inside)
  | @answered bytes front s connected link =>
    have names := before.connected connected
    have online : s.client.isConnected = true := link.isConnected.trans connected
    refine ⟨link.timeoutConnect ▸ before.positive, before.resolves, before.attempts,
      waits_pong w.client before.waits, .inl ⟨link.host.trans names.1, link.port.trans names.2⟩,
      ?_, ?_⟩
    · exact fun closed => before.reopens (link.socketOpen.symm.trans closed)
    · intro closed
      exact absurd (online.symm.trans closed) (by simp)
  -- The name is remembered from the endpoints of the lost connection.
  | @down e front s connected link =>
    have names := before.connected connected
    refine ⟨link.timeoutConnect ▸ before.positive, ?_, before.attempts,
      Timer.purposes_cancel (waits_pong w.client before.waits),
      .inl ⟨link.host.trans names.1, link.port.trans names.2⟩, by simp, fun _ => .inl (by simp)⟩
    intro query member
    rcases List.mem_append.mp member with old | new
    · exact before.resolves query old
    · rw [List.mem_singleton.mp new, names.1, names.2]

end Kept

theorem retrying_of_reachable {host port : Bytes} {s : System} (fresh : s.Fresh)
    (positive : 0 < s.client.timeoutConnect) {w : World} (reached : (world host port s).Reachable w) :
    w.Retrying host port := by
  apply reached.invariant (World.Retrying host port)
  · rintro _ rfl
    have pending : (World.start host port s).resolves ≠ [] := List.cons_ne_nil _ _
    refine ⟨positive, ?_, ?_, ?_, .inr ⟨rfl, rfl, fresh.client.isConnected⟩, fun _ => pending,
      fun _ => .inl pending⟩
    · exact fun query member => List.mem_singleton.mp member
    · exact fun _ member => by cases member
    · exact fun _ member => by cases member
  · intro w h w' out before retrying step
    have orderly := orderly_of_reachable (system_of_world fresh before)
    exact (turns_of_step orderly retrying.positive step).retrying retrying

/-! ### The end iterator -/

theorem Named.returns {host port : Bytes} {endpoints : List Endpoint} {c : Client}
    (named : Named host port endpoints) : (connect endpoints c).fault = none := by
  cases endpoints with
  | nil => exact absurd rfl named.1
  | cons endpoint rest => rfl

private theorem handleConnect_fault {host port : Bytes} {ok : Bool} {endpoints : List Endpoint}
    {c : Client} (named : Named host port endpoints) : (handleConnect ok endpoints c).fault = none := by
  cases ok with
  | true =>
    have later (c : Client) : (if c.outBuf.callbacks.isEmpty then .ok c else write false c).fault =
        none := by
      split
      · rfl
      · exact (write_aside false c).returned
    exact later { c with isConnected := true }
  | false =>
    match endpoints with
    | [] => exact absurd rfl named.1
    | [_] => rfl
    | _ :: _ :: _ => rfl

private theorem handleRead_fault (ok : Bool) (c : Client) :
    (handleRead ok c).fault ≠ some .endIterator := by
  cases ok with
  | false =>
    have returned : (handleRead false c).fault = none := congrArg Outcome.fault (reconnect_emits c)
    simp [returned]
  | true =>
    obtain ⟨inBuf, front, rest, next, -, goesOn, shape⟩ := handleRead_goesOn c
    rw [shape, Outcome.emit_andThen]
    cases goesOn with
    | read => simp [read]
    | settle => simp
    | write => simp [(write_aside true _).returned]
    | reconnect => simp [reconnect_emits]
    | fail => simp

/-- Of all handlers that can be run only that of a failed resolve reads the end iterator. -/
theorem endIterator_iff {host port : Bytes} {w : World} (before : w.Retrying host port) {e : Event}
    (queued : w.Queued e) : (w.system.handler e).fault = some .endIterator ↔
      ∃ endpoints, e = .handleResolve false endpoints := by
  constructor
  · intro reads
    have returned : (w.system.handler e).fault ≠ none := by simp [reads]
    cases e with
    | publish channel message =>
      exact absurd (submit_aside (by simp [Effect.Apart, Effect.Dials, Effect.Times]) _ _ _).returned
        returned
    | ping => exact absurd (submit_aside (by simp) _ _ _).returned returned
    | timeoutPing aborted =>
      cases aborted with
      | true => exact absurd rfl returned
      | false => exact absurd (submit_aside (by simp) _ _ _).returned returned
    | timeoutConnect aborted endpoints =>
      cases aborted with
      | true => exact absurd rfl returned
      | false =>
        have named : Named host port endpoints := before.waits _ queued
        have positive := Nat.ne_of_gt before.positive
        refine absurd ?_ returned
        simp only [World.client] at positive
        simp [System.handler, timeoutConnect, positive, named.returns]
    -- The one handler that reads the iterator before it looks at the error.
    | handleResolve ok endpoints =>
      cases ok with
      | false => exact ⟨endpoints, rfl⟩
      | true =>
        cases endpoints with
        | nil => exact absurd rfl queued.1
        | cons endpoint rest => exact absurd rfl returned
    | handleConnect ok endpoints =>
      exact absurd (handleConnect_fault (before.attempts _ queued)) returned
    | writeDone => exact absurd rfl returned
    | writeFailed bytes =>
      refine absurd ?_ returned
      simp [System.handler, handleWrite, reconnect_emits]
    | readDone bytes => exact absurd reads (handleRead_fault true _)
    | readFailed => exact absurd reads (handleRead_fault false _)
  · rintro ⟨endpoints, rfl⟩
    obtain ⟨rfl, -⟩ := queued
    rfl

/-- In every run a handler reads the end iterator if and only if it is told that a name has
not been resolved, and while the client is not connected something is pending that leads
to another attempt. -/
theorem tries_until_unresolved {host port : Bytes} {s : System} (fresh : s.Fresh)
    (positive : 0 < s.client.timeoutConnect) {w : World} (reached : (world host port s).Reachable w) :
    (∀ e, w.Queued e → ((w.system.handler e).fault = some .endIterator ↔
      ∃ endpoints, e = .handleResolve false endpoints)) ∧
    (w.client.isConnected = false → w.Trying host port) := by
  have retrying := retrying_of_reachable fresh positive reached
  refine ⟨fun e queued => endIterator_iff retrying queued, ?_⟩
  intro closed
  -- An attempt alone would not do, and is never needed.
  rcases retrying.trying closed with pending | armed
  · obtain ⟨query, member⟩ := List.exists_mem_of_ne_nil _ pending
    exact .inl (retrying.resolves query member ▸ member)
  · exact .inr (.inr armed)

/-- Where the dispatcher connects to when it is not told otherwise. -/
def localhost : Endpoint := ⟨"localhost".toList, "6379".toList⟩

/-- Two endpoints that refuse the connection, and the time limit of the second. -/
def refused : List Happening :=
  [.handled (.handleResolve true [localhost, localhost]),
    .handled (.handleConnect false [localhost, localhost]),
    .handled (.handleConnect false [localhost]), .expire]

theorem tries_until_unresolved_refused :
    let redis := world localhost.host localhost.service .initial
    let last := redis.after (.start localhost.host localhost.service .initial) refused
    last.attempts = [] ∧ last.Trying localhost.host localhost.service := by
  intro redis last
  have none : last.attempts = [] := by decide +kernel
  have closed : last.client.isConnected = false := by decide +kernel
  have reached : redis.Reachable last := .after rfl refused
  exact ⟨none, (tries_until_unresolved System.initial_fresh (by decide) reached).2 closed⟩

/-- The very first resolve may fail. -/
theorem end_iterator_read : ¬ ∀ host port s, s.Fresh → 0 < s.client.timeoutConnect →
    ∀ w, (world host port s).Reachable w →
      (∀ e, w.Queued e → (w.system.handler e).fault ≠ some .endIterator) ∧
      (w.client.isConnected = false → w.Trying host port) := by
  intro claimed
  have start : (world localhost.host localhost.service .initial).Reachable
      (.start localhost.host localhost.service .initial) := .init rfl
  have queued : (World.start localhost.host localhost.service .initial).Queued
      (.handleResolve false []) := by decide
  exact (claimed _ _ _ System.initial_fresh (by decide) _ start).1 _ queued rfl

end Eiptnd.Redis
