import Eiptnd.Redis.Connecting

/-! What a step of the Redis client can do to its connection. -/
namespace Eiptnd.Redis

open Reactive

/-! ### What an output asks for -/

def Effect.Dials : Effect → Prop
  | .asyncResolve _ _ | .asyncConnect _ => True
  | _ => False

def Effect.Times : Effect → Prop
  | .asyncWait _ | .expiresFromNow _ | .cancelTimer => True
  | _ => False

/-- Effects that have nothing to do with connecting. -/
def Effect.Apart (effect : Effect) : Prop := ¬ effect.Dials ∧ ¬ effect.Times

theorem timed_append (handlers : List (Timer.Handler Wait)) (first second : List Effect) :
    timed handlers (first ++ second) = timed (timed handlers first) second := List.foldl_append

theorem World.after_append (w : World) (s : System) (first second : List Effect) :
    w.after s (first ++ second) = (w.after s first).after s second := by
  simp [World.after, resolving, dialling, timed_append]

theorem World.after_undialled {w : World} {s : System} {out : List Effect}
    (undialled : ∀ effect ∈ out, ¬ effect.Dials) :
    w.after s out = { w with system := s, timer := timed w.timer out } := by
  have names : resolving out = [] := by
    rw [resolving, List.filterMap_eq_nil_iff]
    intro effect member
    cases effect <;> first | rfl | exact absurd trivial (undialled _ member)
  have attempts : dialling out = [] := by
    rw [dialling, List.filterMap_eq_nil_iff]
    intro effect member
    cases effect <;> first | rfl | exact absurd trivial (undialled _ member)
  simp [World.after, names, attempts]

theorem timed_untimed {handlers : List (Timer.Handler Wait)} {out : List Effect}
    (untimed : ∀ effect ∈ out, ¬ effect.Times) : timed handlers out = handlers := by
  induction out with
  | nil => rfl
  | cons effect out ih =>
    have first : effect.onTimer handlers = handlers := by
      cases effect <;> first | rfl | exact absurd trivial (untimed _ (.head _))
    rw [timed, List.foldl_cons, first]
    exact ih fun effect member => untimed effect (.tail _ member)

theorem World.after_apart {w : World} {s : System} {out : List Effect}
    (apart : ∀ effect ∈ out, effect.Apart) : w.after s out = { w with system := s } := by
  rw [World.after_undialled fun effect member => (apart effect member).1,
    timed_untimed fun effect member => (apart effect member).2]

theorem invoke_undialled (callback : Callback) (ok : Bool) (line : List InByte) (c : Client) :
    ∀ effect ∈ invoke callback ok line c, ¬ effect.Dials := by
  intro effect member
  unfold invoke timeoutNoPing at member
  rcases List.mem_cons.mp member with rfl | later
  · simp [Effect.Dials]
  -- Whatever is done to the timer, no name is resolved and no attempt made.
  split at later
  · split at later
    · split at later <;> simp only [List.mem_cons, List.not_mem_nil, or_false] at later
      · subst later
        simp [Effect.Dials]
      · rcases later with rfl | rfl | rfl <;> simp [Effect.Dials]
    · cases later
  · cases later

theorem invoke_false_apart (callback : Callback) (line : List InByte) (c : Client) :
    ∀ effect ∈ invoke callback false line c, effect.Apart := by
  intro effect member
  have only : effect = .invoke callback false line := by
    simpa [invoke, timeoutNoPing] using member
  subst only
  exact ⟨by simp [Effect.Dials], by simp [Effect.Times]⟩

theorem matchOutput_undialled (c : Client) (front : List (Entry × List InByte)) :
    ∀ effect ∈ matchOutput c front, ¬ effect.Dials := by
  intro effect member
  obtain ⟨x, -, inside⟩ := List.mem_flatMap.mp member
  exact invoke_undialled _ _ _ _ effect inside

theorem dropOutput_apart (c : Client) (entries : List Entry) :
    ∀ effect ∈ dropOutput c entries, effect.Apart := by
  intro effect member
  obtain ⟨entry, -, inside⟩ := List.mem_flatMap.mp member
  exact invoke_false_apart _ _ _ effect inside

theorem launchOutput_apart (queue : RequestQueue) : ∀ effect ∈ launchOutput queue, effect.Apart := by
  intro effect member
  simp only [launchOutput, List.mem_cons, List.not_mem_nil, or_false] at member
  rcases member with rfl | rfl | rfl <;> exact ⟨by simp [Effect.Dials], by simp [Effect.Times]⟩

/-- A pong keeps what cancelling the timer and waiting for the next ping keep. -/
theorem timed_timeoutNoPing {P : List (Timer.Handler Wait) → Prop}
    (cancel : ∀ handlers, P handlers → P (Timer.cancel handlers))
    (wait : ∀ handlers, P handlers → P (Timer.wait .ping handlers)) (ok : Bool) (c : Client)
    {handlers : List (Timer.Handler Wait)} (before : P handlers) :
    P (timed handlers (timeoutNoPing ok c)) := by
  rw [timeoutNoPing]
  split
  · split
    · exact cancel _ before
    · exact wait _ (cancel _ (cancel _ before))
  · exact before

/-- And so do the callbacks of any number of replies. -/
theorem timed_matchOutput {P : List (Timer.Handler Wait) → Prop}
    (cancel : ∀ handlers, P handlers → P (Timer.cancel handlers))
    (wait : ∀ handlers, P handlers → P (Timer.wait .ping handlers)) (c : Client)
    (front : List (Entry × List InByte)) {handlers : List (Timer.Handler Wait)}
    (before : P handlers) : P (timed handlers (matchOutput c front)) := by
  induction front generalizing handlers with
  | nil => exact before
  | cons x front ih =>
    rw [matchOutput, List.flatMap_cons, timed_append]
    apply ih
    change P (timed handlers (if x.1.callback.keepAlive then timeoutNoPing true c else []))
    split
    · exact timed_timeoutNoPing cancel wait true c before
    · exact before

/-! ### What a handler leaves of the connection -/

/-- The clients differ in their queues and buffers only. -/
structure Client.SameLink (c c' : Client) : Prop where
  timeoutConnect : c'.timeoutConnect = c.timeoutConnect
  timeoutPing : c'.timeoutPing = c.timeoutPing
  host : c'.host = c.host
  port : c'.port = c.port
  socketOpen : c'.socketOpen = c.socketOpen
  isConnected : c'.isConnected = c.isConnected

/-- Whatever is done to the queues and the buffer. -/
theorem Client.SameLink.queues (c : Client) (inBuf : Streambuf InByte) (outBuf outTmpBuf : RequestQueue)
    (busy : Bool) : c.SameLink
      { c with inBuf := inBuf, outBuf := outBuf, outTmpBuf := outTmpBuf, busy := busy } :=
  ⟨rfl, rfl, rfl, rfl, rfl, rfl⟩

theorem Client.SameLink.refl (c : Client) : c.SameLink c := .queues c _ _ _ _

theorem Client.SameLink.trans {c d r : Client} (first : c.SameLink d) (second : d.SameLink r) :
    c.SameLink r where
  timeoutConnect := second.timeoutConnect.trans first.timeoutConnect
  timeoutPing := second.timeoutPing.trans first.timeoutPing
  host := second.host.trans first.host
  port := second.port.trans first.port
  socketOpen := second.socketOpen.trans first.socketOpen
  isConnected := second.isConnected.trans first.isConnected

/-- The callback of a ping of the client's own is in one of the queues. -/
def Client.Pinging (c : Client) : Prop :=
  ∃ entry ∈ c.outBuf.callbacks ++ c.outTmpBuf.callbacks, entry.callback.keepAlive = true

theorem Client.Pinging.launched {c : Client} (pinging : c.Pinging) : c.launched.Pinging := by
  obtain ⟨entry, member, own⟩ := pinging
  have swapped := List.mem_append.mp member
  exact ⟨entry, List.mem_append.mpr swapped.symm, own⟩

/-- The handler has nothing to do with connecting. -/
structure Aside (c : Client) (r : Result) : Prop where
  returned : r.fault = none
  output : ∀ effect ∈ r.output, effect.Apart
  link : c.SameLink r.state
  pinging : c.Pinging → r.state.Pinging

theorem Aside.after {c d : Client} {r : Result} (aside : Aside d r) (link : c.SameLink d)
    (pinging : c.Pinging → d.Pinging) : Aside c r :=
  ⟨aside.returned, aside.output, link.trans aside.link, aside.pinging ∘ pinging⟩

theorem write_aside (alreadyLocked : Bool) (c : Client) : Aside c (write alreadyLocked c) := by
  have launched : Aside c (.emit c.launched (launchOutput c.outBuf)) :=
    ⟨rfl, launchOutput_apart _, .queues c _ _ _ _, Client.Pinging.launched⟩
  cases alreadyLocked with
  | true =>
    rw [write_locked]
    exact launched
  | false =>
    cases busy : c.busy with
    | true =>
      rw [write_held busy]
      exact ⟨rfl, by simp, .refl c, id⟩
    | false =>
      rw [write_free busy]
      exact launched

theorem read_aside (c : Client) : Aside c (read c) :=
  ⟨rfl, by simp [read, Effect.Apart, Effect.Dials, Effect.Times], .refl c, id⟩

theorem filled_pinging {c : Client} {request : Request} {callback : Callback}
    (pinging : c.Pinging) : (c.filled request callback).Pinging := by
  obtain ⟨entry, member, own⟩ := pinging
  refine ⟨entry, ?_, own⟩
  simp only [Client.filled, RequestQueue.push, List.mem_append] at member ⊢
  rcases member with waiting | sending
  · exact .inl (.inl waiting)
  · exact .inr sending

theorem submit_aside {checks : List Effect} (apart : ∀ effect ∈ checks, effect.Apart)
    (request : Request) (callback : Callback) (c : Client) :
    Aside c (submit request checks callback c) := by
  cases connected : c.isConnected with
  | false =>
    rw [submit_refused connected]
    exact ⟨rfl, invoke_false_apart _ _ _, .refl c, id⟩
  | true =>
    have written := (write_aside false (c.filled request callback)).after
      (.queues c _ _ _ _) filled_pinging
    rw [submit_accepted connected, Outcome.emit_andThen]
    refine ⟨written.returned, ?_, written.link, written.pinging⟩
    intro effect member
    rcases List.mem_append.mp member with check | later
    · exact apart effect check
    · exact written.output effect later

theorem ping_pinging {callback : Callback} {c : Client} (connected : c.isConnected = true)
    (own : callback.keepAlive = true) : (ping callback c).state.Pinging := by
  rw [ping, submit_accepted connected, Outcome.emit_andThen]
  apply (write_aside false (c.filled .ping callback)).pinging
  exact ⟨⟨callback, .ping⟩, by simp [Client.filled, RequestQueue.push], own⟩

/-! ### All that a step can do -/

/-- With an attempt on the endpoints, and its time limit. -/
def World.dialled (w : World) (s : System) (endpoints : List Endpoint) : World where
  system := s
  resolves := w.resolves
  attempts := w.attempts ++ [endpoints]
  timer := Timer.wait (.connect endpoints) (Timer.cancel w.timer)

/-- All that a step can do to the connection. -/
inductive Turns (w : World) : Happening → World → Prop
  | expired : Turns w .expire { w with timer := Timer.expire w.timer }
  -- A request, a completed write.
  | still {e : Event} {s : System} : w.client.SameLink s.client →
      (w.client.Pinging → s.client.Pinging) → Turns w (.handled e) { w with system := s }
  -- A wait that was aborted.
  | ignored {e : Event} {s : System} {wait : Wait} : s.client = w.client →
      Turns w (.handled e) { w with system := s, timer := w.timer.erase ⟨wait, .aborted⟩ }
  | pinged {s : System} : w.client.SameLink s.client → (w.client.Pinging → s.client.Pinging) →
      (w.client.isConnected = true → s.client.Pinging) →
      Turns w (.handled (.timeoutPing false))
        { w with system := s, timer := w.timer.erase ⟨.ping, .expired⟩ }
  | timedOut {endpoints : List Endpoint} {s : System} : w.client.socketOpen = true →
      ⟨.connect endpoints, .expired⟩ ∈ w.timer → s.client = w.client →
      Turns w (.handled (.timeoutConnect false endpoints))
        (World.dialled { w with timer := w.timer.erase ⟨.connect endpoints, .expired⟩ } s endpoints)
  | resolved {endpoint : Endpoint} {rest : List Endpoint} {s : System} :
      endpoint.query ∈ w.resolves → (∀ other ∈ rest, other.query = endpoint.query) →
      s.client = w.client.moved endpoint.host endpoint.service true →
      Turns w (.handled (.handleResolve true (endpoint :: rest)))
        (World.dialled { w with resolves := w.resolves.erase endpoint.query } s (endpoint :: rest))
  | up {endpoints : List Endpoint} {s : System} : endpoints ∈ w.attempts →
      ({ w.client with isConnected := true } : Client).SameLink s.client →
      Turns w (.handled (.handleConnect true endpoints))
        { w with
          system := s
          attempts := w.attempts.erase endpoints
          timer := timed w.timer (timeoutNoPing true w.client) }
  -- The last endpoint has failed: nothing is asked for.
  | failed {endpoint : Endpoint} {s : System} : [endpoint] ∈ w.attempts → s.client = w.client →
      Turns w (.handled (.handleConnect false [endpoint]))
        { w with system := s, attempts := w.attempts.erase [endpoint] }
  | following {endpoint next : Endpoint} {rest : List Endpoint} {s : System} :
      endpoint :: next :: rest ∈ w.attempts →
      s.client = w.client.moved w.client.host w.client.port true →
      Turns w (.handled (.handleConnect false (endpoint :: next :: rest)))
        (World.dialled { w with attempts := w.attempts.erase (endpoint :: next :: rest) } s
          (next :: rest))
  | answered {bytes : Bytes} {front : List (Entry × List InByte)} {s : System} :
      w.client.isConnected = true → w.client.SameLink s.client →
      (w.client.Pinging → s.client.Pinging ∨ ∃ x ∈ front, x.1.callback.keepAlive = true) →
      Turns w (.handled (.readDone bytes))
        { w with system := s, timer := timed w.timer (matchOutput w.client front) }
  | down {e : Event} {front : List (Entry × List InByte)} {s : System} :
      w.client.isConnected = true →
      ({ w.client with isConnected := false, socketOpen := false } : Client).SameLink s.client →
      Turns w (.handled e)
        { w with
          system := s
          resolves := w.resolves ++ [(w.client.host, w.client.port)]
          timer := Timer.cancel (timed w.timer (matchOutput w.client front)) }

section Cases

variable {w w' : World} {s' : System} {e : Event} {out : List Effect}

/-- What a step leaves is what the handler leaves. -/
theorem System.step_handler {s : System} (step : s.step e = some (s', out)) :
    (s.handler e).fault = none ∧ s'.client = (s.handler e).state ∧ out = (s.handler e).output := by
  -- A request is counted or not, but the client is what its handler leaves.
  have requested (r : Result) : (s.request r).client = r.state := by
    rw [System.request]
    split <;> rfl
  have accepted {r : Result} (step : taken s.request r = some (s', out)) :
      r.fault = none ∧ s'.client = r.state ∧ out = r.output := by
    obtain ⟨fine, rfl, rfl⟩ := taken_some step
    exact ⟨fine, requested r, rfl⟩
  have ended {ops : List Op} {r : Result} (step : taken (s.after ops) r = some (s', out)) :
      r.fault = none ∧ s'.client = r.state ∧ out = r.output := by
    obtain ⟨fine, rfl, rfl⟩ := taken_some step
    exact ⟨fine, rfl, rfl⟩
  cases e with
  | publish channel message => exact accepted step
  | ping => exact accepted step
  | timeoutPing aborted =>
    cases aborted with
    | false => exact accepted step
    | true => exact ended step
  | timeoutConnect aborted endpoints => exact ended step
  | handleResolve ok endpoints => exact ended step
  | handleConnect ok endpoints => exact ended step
  | writeDone | writeFailed bytes | readDone bytes | readFailed =>
    simp only [System.step] at step
    split at step
    · exact ended step
    · cases step

theorem World.step_handled (step : w.step (.handled e) = some (w', out)) :
    ∃ s', (w.Queued e ∧ w.throws e = false) ∧ w.system.step e = some (s', out) ∧
      w' = (w.without e).after s' out := by
  simp only [World.step] at step
  split at step
  next runs =>
    split at step
    · cases step
    next s' out' stepped =>
      cases step
      exact ⟨s', runs, stepped, rfl⟩
  next => cases step

/-- A handler that is there to be run, and returns, can be run. -/
theorem World.step_of_queued (queued : w.Queued e) (returns : w.throws e = false)
    (runs : w.system.step e = taken (w.system.after w.system.ops) (w.system.handler e))
    (fine : (w.system.handler e).fault = none) : w.step (.handled e) =
      some ((w.without e).after (w.system.after w.system.ops (w.system.handler e))
        (w.system.handler e).output, (w.system.handler e).output) := by
  rw [World.step, if_pos ⟨queued, returns⟩, runs, taken_of_returned fine]

private theorem aside_turns (aside : Aside w.client (w.system.handler e))
    (step : w.system.step e = some (s', out)) :
    Turns w (.handled e) (w.after s' out) := by
  obtain ⟨-, client, rfl⟩ := System.step_handler step
  rw [World.after_apart aside.output]
  refine .still ?_ ?_
  · rw [client]
    exact aside.link
  · rw [client]
    exact aside.pinging

/-- The system takes each of its steps as it did without what it has asked for. -/
theorem system_of_world {host port : Bytes} {s : System} (fresh : s.Fresh)
    (reached : (world host port s).Reachable w) : system.Reachable w.system := by
  apply reached.invariant (fun w => system.Reachable w.system)
  · rintro _ rfl
    exact .init fresh
  · intro w h w' out _ before step
    cases h with
    | expire =>
      simp only [world, World.step] at step
      split at step
      · cases step
        exact before
      · cases step
    | handled e =>
      obtain ⟨s', -, stepped, rfl⟩ := World.step_handled step
      exact before.step stepped

/-- What `reconnect` asks for, behind what the reply loop has put out. -/
private theorem after_reconnect (w : World) (s : System) (c : Client)
    (front : List (Entry × List InByte)) (entries : List Entry) (held : Bool) :
    w.after s (matchOutput w.client front ++ (closeOutput c ++ dropOutput c entries ++
      [.unlock held, .asyncResolve c.host c.port])) =
      { w with
        system := s
        resolves := w.resolves ++ [(c.host, c.port)]
        timer := Timer.cancel (timed w.timer (matchOutput w.client front)) } := by
  -- The socket is closed and the timer cancelled; then the callbacks are told, and the name
  -- is resolved again.
  have closing : ∀ effect ∈ closeOutput c, ¬ effect.Dials := by
    intro effect member
    rw [closeOutput] at member
    cases opened : c.socketOpen <;> simp [opened] at member
    · simp [member, Effect.Dials]
    · rcases member with rfl | rfl <;> simp [Effect.Dials]
  have cancelled (handlers : List (Timer.Handler Wait)) :
      timed handlers (closeOutput c) = Timer.cancel handlers := by
    rw [closeOutput]
    cases c.socketOpen <;> rfl
  rw [World.after_append, World.after_append, World.after_append,
    World.after_undialled (matchOutput_undialled _ front), World.after_undialled closing,
    World.after_apart (dropOutput_apart c entries), cancelled]
  simp [World.after, resolving, dialling, timed, Effect.onTimer]

private theorem reconnect_turns {c : Client} {front : List (Entry × List InByte)}
    (connected : w.client.isConnected = true) (link : w.client.SameLink c)
    (shape : w.system.handler e = (Outcome.emit c (matchOutput w.client front)).andThen reconnect)
    (step : w.system.step e = some (s', out)) : Turns w (.handled e) (w.after s' out) := by
  obtain ⟨-, client, rfl⟩ := System.step_handler step
  rw [shape, Outcome.emit_andThen, reconnect_emits] at client ⊢
  have asked := after_reconnect w s' c front c.outTmpBuf.callbacks c.busy
  rw [link.host, link.port] at asked
  dsimp only [Outcome.emit]
  rw [link.host, link.port, asked]
  refine .down connected ?_
  rw [client]
  exact ⟨link.timeoutConnect, link.timeoutPing, link.host, link.port, rfl, rfl⟩

private theorem matched_pinging {c : Client} {inBuf : Streambuf InByte}
    {front : List (Entry × List InByte)} {rest : List Entry} (answered : Answered c inBuf front rest)
    (pinging : c.Pinging) :
    (c.matched inBuf rest).Pinging ∨ ∃ x ∈ front, x.1.callback.keepAlive = true := by
  obtain ⟨entry, member, own⟩ := pinging
  rcases List.mem_append.mp member with waiting | sending
  · exact .inl ⟨entry, List.mem_append_left _ waiting, own⟩
  rw [answered.callbacks] at sending
  rcases List.mem_append.mp sending with done | left
  · obtain ⟨x, inside, rfl⟩ := List.mem_map.mp done
    exact .inr ⟨x, inside, own⟩
  · exact .inl ⟨entry, List.mem_append_right _ left, own⟩

private theorem readDone_turns {bytes : Bytes} (connected : w.client.isConnected = true)
    (step : w.system.step (.readDone bytes) = some (s', out)) :
    Turns w (.handled (.readDone bytes)) (w.after s' out) := by
  obtain ⟨fine, client, same⟩ := System.step_handler step
  obtain ⟨inBuf, front, rest, next, answered, goesOn, shape⟩ :=
    handleRead_goesOn (received w.system.conn bytes w.client)
  let c := (received w.system.conn bytes w.client).matched inBuf rest
  have link : w.client.SameLink c := .queues w.client _ _ _ _
  -- The reply loop has the timer start again, and nothing else.
  have going (aside : Aside c (next c)) :
      Turns w (.handled (.readDone bytes)) (w.after s' out) := by
    have whole : w.system.handler (.readDone bytes) =
        ⟨(next c).state, matchOutput w.client front ++ (next c).output, (next c).fault⟩ := shape
    rw [whole] at client same
    rw [same, World.after_append, World.after_apart aside.output,
      World.after_undialled (matchOutput_undialled _ front)]
    refine .answered connected ?_ ?_
    · rw [client]
      have later := aside.link
      exact ⟨later.timeoutConnect, later.timeoutPing, later.host, later.port, later.socketOpen,
        later.isConnected⟩
    · intro pinging
      rw [client]
      rcases matched_pinging answered pinging with still | pong
      · exact .inl (aside.pinging still)
      · exact .inr pong
  cases goesOn with
  | read => exact going (read_aside c)
  | settle =>
    refine going ⟨rfl, ?_, .queues c _ _ _ _, id⟩
    simp [Effect.Apart, Effect.Dials, Effect.Times]
  | write => exact going (write_aside true c)
  | reconnect => exact @reconnect_turns w s' (.readDone bytes) out c front connected link shape step
  | fail =>
    have failed : (w.system.handler (.readDone bytes)).fault = some .outOfRange := by
      rw [show w.system.handler (.readDone bytes) = _ from shape]
      rfl
    simp [failed] at fine

theorem World.after_connect (w : World) (s : System) (seconds : Nat) (endpoints : List Endpoint) :
    w.after s [.expiresFromNow seconds, .asyncWait (.connect endpoints), .asyncConnect endpoints] =
      w.dialled s endpoints := by
  simp [World.after, World.dialled, resolving, dialling, timed, Effect.onTimer]

private theorem timeoutConnect_turns {endpoints : List Endpoint} (opened : w.client.socketOpen = true)
    (positive : 0 < w.client.timeoutConnect) (queued : w.Queued (.timeoutConnect false endpoints))
    (step : w.system.step (.timeoutConnect false endpoints) = some (s', out)) :
    Turns w (.handled (.timeoutConnect false endpoints))
      ((w.without (.timeoutConnect false endpoints)).after s' out) := by
  obtain ⟨fine, client, same⟩ := System.step_handler step
  -- There is a time limit, so there is a second attempt.
  have retried : timeoutConnect false endpoints w.client =
      (Outcome.emit w.client [.cancelSocket]).andThen (connect endpoints) := by
    simp [timeoutConnect, Nat.ne_of_gt positive]
  change (timeoutConnect false endpoints w.client).fault = none at fine
  change s'.client = (timeoutConnect false endpoints w.client).state at client
  change out = (timeoutConnect false endpoints w.client).output at same
  rw [retried, Outcome.emit_andThen] at fine client same
  cases endpoints with
  | nil => cases fine
  | cons endpoint rest =>
    have cancelled : ∀ effect ∈ [Effect.cancelSocket], effect.Apart := by
      simp [Effect.Apart, Effect.Dials, Effect.Times]
    have asked : (w.without (.timeoutConnect false (endpoint :: rest))).after s' out =
        World.dialled { w with timer := w.timer.erase ⟨.connect (endpoint :: rest), .expired⟩ } s'
          (endpoint :: rest) := by
      rw [same, World.after_append, World.after_apart cancelled]
      exact World.after_connect _ s' _ (endpoint :: rest)
    have still : w.client.moved w.client.host w.client.port true = w.client := by
      rw [← opened]
      rfl
    rw [asked]
    exact .timedOut opened queued (client.trans still)

private theorem handleResolve_turns {ok : Bool} {endpoints : List Endpoint}
    (queued : w.Queued (.handleResolve ok endpoints))
    (step : w.system.step (.handleResolve ok endpoints) = some (s', out)) :
    Turns w (.handled (.handleResolve ok endpoints))
      ((w.without (.handleResolve ok endpoints)).after s' out) := by
  obtain ⟨fine, client, same⟩ := System.step_handler step
  cases ok with
  | false =>
    -- The end iterator has been read.
    obtain ⟨rfl, -⟩ := queued
    cases fine
  | true =>
    cases endpoints with
    | nil => cases fine
    | cons endpoint rest =>
      obtain ⟨-, query, member, named⟩ := queued
      -- All endpoints bear the names of the query.
      have first := named endpoint (.head _)
      have asked : (w.without (.handleResolve true (endpoint :: rest))).after s' out =
          World.dialled { w with resolves := w.resolves.erase endpoint.query } s'
            (endpoint :: rest) := by
        rw [same]
        exact World.after_connect _ s' _ (endpoint :: rest)
      rw [asked]
      refine .resolved (first ▸ member) ?_ client
      intro other inside
      exact (named other (.tail _ inside)).trans first.symm

/-- What `handle_connect` leaves when the attempt has succeeded. -/
theorem World.after_connected {endpoints : List Endpoint}
    (step : w.system.step (.handleConnect true endpoints) = some (s', out)) :
    ({ w.client with isConnected := true } : Client).SameLink s'.client ∧
      (w.without (.handleConnect true endpoints)).after s' out =
        { w with
          system := s'
          attempts := w.attempts.erase endpoints
          timer := timed w.timer (timeoutNoPing true w.client) } := by
  obtain ⟨-, client, same⟩ := System.step_handler step
  let c : Client := { w.client with isConnected := true }
  have later : Aside c (if c.outBuf.callbacks.isEmpty then .ok c else write false c) := by
    split
    · exact ⟨rfl, by simp, .refl c, id⟩
    · exact write_aside false c
  have shape : w.system.handler (.handleConnect true endpoints) =
      (Outcome.emit c (timeoutNoPing true w.client)).andThen
        fun c => if c.outBuf.callbacks.isEmpty then .ok c else write false c := rfl
  -- The ping timer starts before requests left over from the connection before are written.
  have undialled : ∀ effect ∈ timeoutNoPing true w.client, ¬ effect.Dials := by
    intro effect inside
    apply invoke_undialled ⟨0, true⟩ true [] w.client
    exact .tail _ inside
  rw [shape, Outcome.emit_andThen] at client same
  refine ⟨?_, ?_⟩
  · rw [client]
    exact later.link
  · rw [same, World.after_append, World.after_apart later.output, World.after_undialled undialled]
    rfl

private theorem handleConnect_turns {ok : Bool} {endpoints : List Endpoint}
    (queued : w.Queued (.handleConnect ok endpoints))
    (step : w.system.step (.handleConnect ok endpoints) = some (s', out)) :
    Turns w (.handled (.handleConnect ok endpoints))
      ((w.without (.handleConnect ok endpoints)).after s' out) := by
  obtain ⟨fine, client, same⟩ := System.step_handler step
  have member : endpoints ∈ w.attempts := queued
  cases ok with
  | false =>
    match endpoints with
    | [] => cases fine
    | [endpoint] =>
      have asked : (w.without (.handleConnect false [endpoint])).after s' out =
          { w with system := s', attempts := w.attempts.erase [endpoint] } := by
        rw [same]
        exact World.after_apart (by simp [System.handler, handleConnect])
      rw [asked]
      exact .failed member client
    | endpoint :: next :: rest =>
      have asked : (w.without (.handleConnect false (endpoint :: next :: rest))).after s' out =
          World.dialled { w with attempts := w.attempts.erase (endpoint :: next :: rest) } s'
            (next :: rest) := by
        rw [same]
        exact World.after_connect _ s' _ (next :: rest)
      rw [asked]
      exact .following member client
  | true =>
    obtain ⟨link, asked⟩ := World.after_connected step
    rw [asked]
    exact .up member link

private theorem timeoutPing_turns {aborted : Bool}
    (step : w.system.step (.timeoutPing aborted) = some (s', out)) :
    Turns w (.handled (.timeoutPing aborted)) ((w.without (.timeoutPing aborted)).after s' out) := by
  obtain ⟨-, client, rfl⟩ := System.step_handler step
  cases aborted with
  | true =>
    rw [World.after_apart (by simp [System.handler, timeoutPing])]
    exact .ignored client
  | false =>
    have aside : Aside w.client (w.system.handler (.timeoutPing false)) :=
      submit_aside (by simp) .ping ⟨w.system.accepted, true⟩ w.client
    rw [World.after_apart aside.output]
    refine .pinged ?_ ?_ ?_ <;> rw [client]
    · exact aside.link
    · exact aside.pinging
    · exact fun connected => ping_pinging connected rfl

theorem turns_of_step {h : Happening} (orderly : w.system.Orderly)
    (positive : 0 < w.client.timeoutConnect) (step : w.step h = some (w', out)) : Turns w h w' := by
  cases h with
  | expire =>
    simp only [World.step] at step
    split at step
    · cases step
      exact .expired
    · cases step
  | handled e =>
    obtain ⟨s', ⟨queued, returns⟩, stepped, rfl⟩ := World.step_handled step
    -- A write or a read is only outstanding while the client is connected.
    have online {op : Op} (outstanding : op ∈ w.system.ops) : w.client.isConnected = true :=
      (orderly.only outstanding).2.2
    cases e with
    | publish channel message =>
      refine aside_turns (submit_aside ?_ _ _ _) stepped
      simp [Effect.Apart, Effect.Dials, Effect.Times]
    | ping => exact aside_turns (submit_aside (by simp) _ _ _) stepped
    | timeoutPing aborted => exact timeoutPing_turns stepped
    | timeoutConnect aborted endpoints =>
      cases aborted with
      | true =>
        obtain ⟨-, client, rfl⟩ := System.step_handler stepped
        rw [World.after_apart (by simp [System.handler, timeoutConnect])]
        exact .ignored client
      | false =>
        have opened : w.client.socketOpen = true := by simpa [World.throws] using returns
        exact timeoutConnect_turns opened positive queued stepped
    | handleResolve ok endpoints => exact handleResolve_turns queued stepped
    | handleConnect ok endpoints => exact handleConnect_turns queued stepped
    | writeDone =>
      have written := (read_aside (sent w.client.outTmpBuf.data.length w.client)).after
        (.queues w.client _ _ _ _) id
      exact aside_turns written stepped
    | writeFailed bytes =>
      have outstanding : .write ∈ w.system.ops := by
        by_contra none
        simp [System.step, none] at stepped
      exact @reconnect_turns w s' _ out (sent bytes w.client) [] (online outstanding)
        (.queues w.client _ _ _ _) rfl stepped
    | readDone bytes =>
      have outstanding : .read ∈ w.system.ops := by
        by_contra none
        simp [System.step, none] at stepped
      exact readDone_turns (online outstanding) stepped
    | readFailed =>
      have outstanding : .read ∈ w.system.ops := by
        by_contra none
        simp [System.step, none] at stepped
      exact @reconnect_turns w s' _ out w.client [] (online outstanding) (.refl _) rfl stepped

theorem Turns.timeoutPing {h : Happening} (turn : Turns w h w') :
    w'.client.timeoutPing = w.client.timeoutPing := by
  cases turn with
  | expired => rfl
  | still link => exact link.timeoutPing
  | pinged link => exact link.timeoutPing
  | up _ link => exact link.timeoutPing
  | answered _ link => exact link.timeoutPing
  | down _ link => exact link.timeoutPing
  | ignored client => exact congrArg Client.timeoutPing client
  | timedOut _ _ client => exact congrArg Client.timeoutPing client
  | resolved _ _ client => exact (congrArg Client.timeoutPing client).trans rfl
  | failed _ client => exact congrArg Client.timeoutPing client
  | following _ client => exact (congrArg Client.timeoutPing client).trans rfl

end Cases

end Eiptnd.Redis
