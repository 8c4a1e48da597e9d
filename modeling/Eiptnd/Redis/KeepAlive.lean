import Eiptnd.Redis.Retrying

/-! What a connection needs to stay alive.

A ping is due, or on its way, for as long as nobody else takes the timer. Whoever makes
another attempt takes it, and what is left over of earlier attempts when one of them
succeeds may do so: a resolve, an attempt with an endpoint to follow, or a time limit
that has been exceeded already and is not called back. -/
namespace Eiptnd.Redis

open Reactive

def Wait.Pings : Wait → Prop
  | .connect _ => False
  | .ping => True

/-- While the client is connected, a ping is due or on its way. -/
def World.KeptAlive (w : World) : Prop :=
  w.client.isConnected = true → Timer.Armed Wait.Pings w.timer ∨ w.client.Pinging

/-- While the client is connected, `timeout_connect` neither cancels the socket nor makes
another attempt. -/
def World.LeftAlone (w : World) : Prop :=
  w.client.isConnected = true → ∀ aborted endpoints w' out,
    w.step (.handled (.timeoutConnect aborted endpoints)) = some (w', out) →
      .cancelSocket ∉ out ∧ dialling out = []

/-- Nothing is left over that leads to another attempt while the client is connected. -/
structure World.Spent (w : World) : Prop where
  resolves : w.resolves = []
  attempts : ∀ attempt ∈ w.attempts, attempt.length ≤ 1
  timer : ∀ h ∈ w.timer, h.purpose.Connecting → h.status ≠ .expired

/-- An attempt succeeds only when nothing is left over of any other. -/
def Unrivalled (w : World) (h : Happening) (_ : World) : Prop :=
  match h with
  | .handled (.handleConnect true endpoints) => (w.without (.handleConnect true endpoints)).Spent
  | _ => True

instance : DecidablePred Wait.Connecting
  | .connect _ => inferInstanceAs (Decidable True)
  | .ping => inferInstanceAs (Decidable False)

instance (w : World) : Decidable w.Spent :=
  decidable_of_iff (w.resolves = [] ∧ (∀ attempt ∈ w.attempts, attempt.length ≤ 1) ∧
    ∀ h ∈ w.timer, h.purpose.Connecting → h.status ≠ .expired)
    ⟨fun ⟨resolves, attempts, timer⟩ => ⟨resolves, attempts, timer⟩,
      fun spent => ⟨spent.resolves, spent.attempts, spent.timer⟩⟩

instance (w : World) (h : Happening) (w' : World) : Decidable (Unrivalled w h w') := by
  unfold Unrivalled
  split <;> infer_instance

/-- What holds while the client is connected. -/
structure World.AtRest (w : World) : Prop where
  resolves : w.resolves = []
  attempts : ∀ attempt ∈ w.attempts, attempt.length ≤ 1
  timer : ¬ Timer.Armed Wait.Connecting w.timer
  alive : Timer.Armed Wait.Pings w.timer ∨ w.client.Pinging

section Kept

variable {w w' : World} {h : Happening}

theorem timed_pong {c : Client} (positive : 0 < c.timeoutPing)
    (handlers : List (Timer.Handler Wait)) : timed handlers (timeoutNoPing true c) =
      Timer.wait .ping (Timer.cancel (Timer.cancel handlers)) := by
  rw [timeoutNoPing, if_pos rfl, if_neg (Nat.ne_of_gt positive)]
  rfl

private theorem disarmed_again {handlers : List (Timer.Handler Wait)}
    (disarmed : ¬ Timer.Armed Wait.Connecting handlers) :
    ¬ Timer.Armed Wait.Connecting (Timer.cancel handlers) :=
  Timer.disarmed_cancel (Timer.not_expired_of_disarmed disarmed)

/-- The callbacks of a batch keep a ping due, or make the next one due. -/
theorem armed_matchOutput {c : Client} (positive : 0 < c.timeoutPing)
    (front : List (Entry × List InByte)) {handlers : List (Timer.Handler Wait)}
    (due : Timer.Armed Wait.Pings handlers ∨ ∃ x ∈ front, x.1.callback.keepAlive = true) :
    Timer.Armed Wait.Pings (timed handlers (matchOutput c front)) := by
  induction front generalizing handlers with
  | nil =>
    rcases due with armed | ⟨x, none, -⟩
    · exact armed
    · cases none
  | cons x front ih =>
    rw [matchOutput, List.flatMap_cons, timed_append]
    apply ih
    change Timer.Armed Wait.Pings
      (timed handlers (if x.1.callback.keepAlive then timeoutNoPing true c else [])) ∨ _
    split
    -- A pong: the timer starts again.
    · rw [timed_pong positive]
      exact .inl (Timer.armed_wait trivial)
    next other =>
      rcases due with armed | ⟨y, member, own⟩
      · exact .inl armed
      rcases List.mem_cons.mp member with rfl | later
      · exact absurd own other
      · exact .inr ⟨y, later, own⟩

theorem Turns.atRest (turn : Turns w h w') (positive : 0 < w.client.timeoutPing)
    (unrivalled : Unrivalled w h w') (before : w.client.isConnected = true → w.AtRest)
    (connected : w'.client.isConnected = true) : w'.AtRest := by
  cases turn with
  | expired =>
    have rest := before connected
    exact ⟨rest.resolves, rest.attempts, Timer.disarmed_expire rest.timer,
      rest.alive.imp Timer.Armed.expire id⟩
  | still link pinging =>
    have rest := before (link.isConnected.symm.trans connected)
    exact ⟨rest.resolves, rest.attempts, rest.timer, rest.alive.imp id pinging⟩
  | @ignored _ s wait client =>
    have rest := before (client ▸ connected)
    refine ⟨rest.resolves, rest.attempts, Timer.disarmed_erase rest.timer, rest.alive.imp ?_ ?_⟩
    · exact fun armed => armed.erase fun _ => rfl
    · intro pinging
      change s.client.Pinging
      rw [client]
      exact pinging
  | pinged link pinging own =>
    -- The ping that was due goes out.
    have online := link.isConnected.symm.trans connected
    have rest := before online
    exact ⟨rest.resolves, rest.attempts, Timer.disarmed_erase rest.timer, .inr (own online)⟩
  | timedOut opened expired client =>
    have rest := before (client ▸ connected)
    -- No time limit has been exceeded.
    exact absurd ⟨_, expired, trivial, by simp⟩ rest.timer
  | @resolved endpoint rest s member same client =>
    change s.client.isConnected = true at connected
    rw [client] at connected
    have rest := before connected
    simp [rest.resolves] at member
  -- This is where the condition comes in.
  | up member link =>
    refine ⟨unrivalled.resolves, unrivalled.attempts, ?_, ?_⟩ <;> rw [timed_pong positive]
    · exact Timer.disarmed_wait id (disarmed_again (Timer.disarmed_cancel unrivalled.timer))
    · exact .inl (Timer.armed_wait trivial)
  | @failed endpoint s member client =>
    have rest := before (client ▸ connected)
    refine ⟨rest.resolves, ?_, rest.timer, rest.alive.imp id ?_⟩
    · exact fun attempt inside => rest.attempts attempt (List.mem_of_mem_erase inside)
    · intro pinging
      change s.client.Pinging
      rw [client]
      exact pinging
  | @following endpoint next rest s member client =>
    change s.client.isConnected = true at connected
    rw [client] at connected
    -- An attempt that has failed had no endpoint to follow.
    have short := (before connected).attempts _ member
    simp at short
  | @answered bytes front s online link pinging =>
    have rest := before online
    refine ⟨rest.resolves, rest.attempts, ?_, ?_⟩
    · apply timed_matchOutput (P := fun handlers => ¬ Timer.Armed Wait.Connecting handlers)
      · exact fun _ => disarmed_again
      · exact fun _ => Timer.disarmed_wait id
      · exact rest.timer
    · rcases rest.alive with armed | due
      · exact .inl (armed_matchOutput positive front (.inl armed))
      rcases pinging due with later | pong
      · exact .inr later
      · exact .inl (armed_matchOutput positive front (.inr pong))
  | down online link =>
    have closed := link.isConnected.symm.trans connected
    simp at closed

end Kept

/-- A time limit that has not been exceeded so far does nothing any more. -/
theorem World.AtRest.leftAlone {w w' : World} (rest : w.AtRest) {aborted : Bool}
    {endpoints : List Endpoint} {out : List Effect}
    (step : w.step (.handled (.timeoutConnect aborted endpoints)) = some (w', out)) :
    .cancelSocket ∉ out ∧ dialling out = [] := by
  -- An aborted handler does nothing, and no other is there.
  obtain ⟨s', ⟨queued, -⟩, stepped, -⟩ := World.step_handled step
  cases aborted with
  | true =>
    obtain ⟨-, -, rfl⟩ := System.step_handler stepped
    exact ⟨List.not_mem_nil, rfl⟩
  | false => exact absurd ⟨_, queued, trivial, by simp [settled]⟩ rest.timer

private theorem rest_of_reachable {host port : Bytes} {s : System} (fresh : s.Fresh)
    (connect : 0 < s.client.timeoutConnect) (ping : 0 < s.client.timeoutPing) {w : World}
    (reached : (world host port s).ReachableWhere Unrivalled w) :
    0 < w.client.timeoutPing ∧ (w.client.isConnected = true → w.AtRest) := by
  refine reached.invariant
    (fun w => 0 < w.client.timeoutPing ∧ (w.client.isConnected = true → w.AtRest)) ?_ ?_
  · rintro _ rfl
    refine ⟨ping, fun connected => ?_⟩
    exact absurd (fresh.client.isConnected.symm.trans connected) (by simp)
  · intro w h w' out before kept step unrivalled
    have orderly := orderly_of_reachable (system_of_world fresh before)
    have retrying := retrying_of_reachable fresh connect before
    have turn := turns_of_step orderly retrying.positive step
    exact ⟨turn.timeoutPing.symm ▸ kept.1, turn.atRest kept.1 unrivalled kept.2⟩

/-! ### What rivals do -/

section Rivals

variable {host port : Bytes} {s : System} {w w' : World} {e : Event} {out : List Effect}

/-- A time limit that has been exceeded cuts off the connection. -/
private theorem cut_off {endpoints : List Endpoint} (named : Named host port endpoints)
    (connected : w.client.isConnected = true) (opened : w.client.socketOpen = true)
    (expired : ⟨.connect endpoints, .expired⟩ ∈ w.timer) : ¬ w.LeftAlone := by
  intro alone
  have returned : (timeoutConnect false endpoints w.client).fault = none := by
    simp only [timeoutConnect, Bool.false_eq_true, if_false, Outcome.emit_andThen]
    split
    · rfl
    · exact named.returns
  have returns : w.throws (.timeoutConnect false endpoints) = false := by
    simp [World.throws, opened]
  have step := World.step_of_queued (e := .timeoutConnect false endpoints) expired returns rfl returned
  apply (alone connected false endpoints _ _ step).1
  simp [System.handler, timeoutConnect]

/-- So the time limit of any attempt made while the client is connected may do so. -/
private theorem dialled_cut_off {v : World} {s' : System} {endpoints : List Endpoint}
    (named : Named host port endpoints) (connected : s'.client.isConnected = true)
    (opened : s'.client.socketOpen = true) : ∃ last,
      (v.dialled s' endpoints).step .expire = some (last, []) ∧ ¬ last.LeftAlone := by
  let w := v.dialled s' endpoints
  have waiting : ⟨.connect endpoints, .waiting⟩ ∈ w.timer := by
    simp [w, World.dialled, Timer.wait]
  have due : w.timer.any (·.status == .waiting) = true := List.any_eq_true.mpr ⟨_, waiting, rfl⟩
  refine ⟨{ w with timer := Timer.expire w.timer }, ?_, ?_⟩
  · rw [World.step, if_pos due]
  · exact cut_off named connected opened (Timer.mem_expire waiting)

/-- Whatever is left over may cut off the connection. -/
private theorem rival_cuts_off (retrying : w.Retrying host port)
    (connected : w.client.isConnected = true)
    (rival : w.resolves ≠ [] ∨ (∃ attempt ∈ w.attempts, 1 < attempt.length) ∨
      ∃ h ∈ w.timer, h.purpose.Connecting ∧ h.status = .expired) :
    ∃ events last out, (world host port s).run w events = some (last, out) ∧ ¬ last.LeftAlone := by
  -- A handler that makes an attempt, and its time limit after it.
  have dials {e : Event} {v : World} {s' : System} {endpoints : List Endpoint} {seconds : Nat}
      {out : List Effect} (step : w.step (.handled e) = some (v.after s' [.expiresFromNow seconds,
        .asyncWait (.connect endpoints), .asyncConnect endpoints], out))
      (named : Named host port endpoints) (connected : s'.client.isConnected = true)
      (opened : s'.client.socketOpen = true) : ∃ events last out,
        (world host port s).run w events = some (last, out) ∧ ¬ last.LeftAlone := by
    rw [World.after_connect] at step
    obtain ⟨last, expires, cut⟩ := dialled_cut_off (v := v) named connected opened
    refine ⟨[.handled e, .expire], last, out, ?_, cut⟩
    simp [Machine.run, world, step, expires]
  have resolves (pending : w.resolves ≠ []) : ∃ events last out,
      (world host port s).run w events = some (last, out) ∧ ¬ last.LeftAlone := by
    obtain ⟨query, member⟩ := List.exists_mem_of_ne_nil _ pending
    have same := retrying.resolves query member
    subst same
    have queued : w.Queued (.handleResolve true [⟨host, port⟩]) :=
      ⟨by simp, _, member, by simp [Endpoint.query]⟩
    have step := World.step_of_queued queued rfl rfl rfl
    exact dials step ⟨by simp, by simp [Endpoint.query]⟩ connected rfl
  rcases rival with pending | ⟨attempt, member, further⟩ | ⟨run, member, connecting, expired⟩
  · exact resolves pending
  · obtain _ | ⟨endpoint, _ | ⟨next, rest⟩⟩ := attempt
    · simp at further
    · simp at further
    have named := retrying.attempts _ member
    have step := World.step_of_queued (e := .handleConnect false (endpoint :: next :: rest))
      member rfl rfl rfl
    refine dials step ⟨by simp, ?_⟩ connected rfl
    exact fun other inside => named.2 other (.tail _ inside)
  · obtain ⟨purpose, status⟩ := run
    cases purpose with
    | ping => exact connecting.elim
    | connect endpoints =>
      cases opened : w.client.socketOpen with
      -- Here the handler would throw, but the client is about to resolve the name again.
      | false => exact resolves (retrying.reopens opened)
      | true =>
        have named : Named host port endpoints := retrying.waits _ member
        cases expired
        exact ⟨[], w, [], rfl, cut_off named connected opened member⟩

end Rivals

/-- In every run in which no attempt succeeds while something is left over of another, the
client stays alive and is left alone for as long as it is connected. And when one does,
there is a way to go on in which a time limit cuts the connection off. -/
theorem kept_alive_unrivalled {host port : Bytes} {s : System} (fresh : s.Fresh)
    (connect : 0 < s.client.timeoutConnect) (ping : 0 < s.client.timeoutPing) :
    (∀ w, (world host port s).ReachableWhere Unrivalled w → w.KeptAlive ∧ w.LeftAlone) ∧
    ∀ w endpoints w' out, (world host port s).Reachable w →
      w.step (.handled (.handleConnect true endpoints)) = some (w', out) →
      ¬ Unrivalled w (.handled (.handleConnect true endpoints)) w' →
      ∃ events last out', (world host port s).run w' events = some (last, out') ∧
        ¬ last.LeftAlone := by
  refine ⟨?_, ?_⟩
  · intro w reached
    have rest := (rest_of_reachable fresh connect ping reached).2
    exact ⟨fun connected => (rest connected).alive,
      fun connected _ _ _ _ step => (rest connected).leftAlone step⟩
  · intro w endpoints w' out reached step rivalled
    have taken : (world host port s).step w (.handled (.handleConnect true endpoints)) =
      some (w', out) := step
    have retrying := retrying_of_reachable fresh connect (reached.step taken)
    obtain ⟨s', -, stepped, rfl⟩ := World.step_handled step
    obtain ⟨link, asked⟩ := World.after_connected stepped
    rw [asked] at retrying ⊢
    apply rival_cuts_off retrying link.isConnected
    by_contra none
    simp only [not_or, not_not, not_exists, not_and, not_lt] at none
    obtain ⟨resolves, attempts, timer⟩ := none
    refine rivalled ⟨resolves, attempts, ?_⟩
    -- What was queued before is still queued.
    intro h member connecting expired
    refine timer h ?_ connecting expired
    apply timed_timeoutNoPing (P := fun handlers => h ∈ handlers)
    · exact fun _ inside => Timer.mem_cancel inside expired
    · exact fun _ inside => List.mem_append_left _ inside
    · exact member

/-- A connection at the first try, a ping and its pong. -/
def pinged : List Happening :=
  [.handled (.handleResolve true [localhost]), .handled (.handleConnect true [localhost]), .expire,
    .handled (.timeoutConnect true [localhost]), .handled (.timeoutPing false), .handled .writeDone,
    .handled (.readDone "+PONG\r\n".toList)]

theorem kept_alive_unrivalled_pinged :
    let redis := world localhost.host localhost.service .initial
    let last := redis.after (.start localhost.host localhost.service .initial) pinged
    last.client.isConnected = true ∧ last.KeptAlive ∧ last.LeftAlone := by
  intro redis last
  have connected : last.client.isConnected = true := by decide +kernel
  have kept : redis.along Unrivalled (.start localhost.host localhost.service .initial) pinged =
      true := by decide +kernel
  have reached : redis.ReachableWhere Unrivalled last := .along (.init rfl) pinged kept
  have sound := @kept_alive_unrivalled localhost.host localhost.service _ System.initial_fresh
    (by decide) (by decide)
  exact ⟨connected, sound.1 last reached⟩

/-- The time limit is exceeded just before the attempt succeeds. -/
def tooLate : List Happening :=
  [.handled (.handleResolve true [localhost]), .expire, .handled (.handleConnect true [localhost])]

theorem established_cut_off : ¬ ∀ host port s, s.Fresh → 0 < s.client.timeoutConnect →
    0 < s.client.timeoutPing → ∀ w, (world host port s).Reachable w → w.KeptAlive ∧ w.LeftAlone := by
  intro claimed
  let redis := world localhost.host localhost.service .initial
  let last := redis.after (.start localhost.host localhost.service .initial) tooLate
  have reached : redis.Reachable last := .after rfl tooLate
  have alone := (claimed _ _ _ System.initial_fresh (by decide) (by decide) last reached).2
  have cut : (last.step (.handled (.timeoutConnect false [localhost]))).any
      (fun next => decide (.cancelSocket ∈ next.2)) = true := by decide +kernel
  obtain ⟨⟨w', out⟩, step, cancels⟩ := (Option.any_eq_true _ _).mp cut
  exact (alone (by decide +kernel) _ _ _ _ step).1 (of_decide_eq_true cancels)

end Eiptnd.Redis
