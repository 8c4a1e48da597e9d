import Eiptnd.Router.Factory

/-! `tcp_server`: a connection is accepted as long as an accept is pending.

The handler of a completed accept starts the connection and then the next accept. Nothing
else does. -/
namespace Eiptnd.Router

open Reactive

/-- How an accept can fail. -/
inductive ErrorCode
  | operationAborted | other (value : Int)
  deriving DecidableEq, Repr

/-- A server: whether an accept is pending, whether it was cancelled, and the exception that
has left a handler. -/
structure TcpServer where
  pending : Bool
  cancelled : Bool
  escaped : Option Fault
  deriving DecidableEq, Repr

/-- The completion of an accept. A socket comes with what its endpoints are by then, and with
whether the plugin's `setup_api` and `handle_start` return. -/
inductive Completion
  | accepted (socket : Socket) (starts : Bool)
  | failed (ec : ErrorCode)
  deriving DecidableEq, Repr

inductive ServerEvent
  | completed (completion : Completion)
  | cancel
  deriving DecidableEq, Repr

inductive ServerEffect
  | asyncAccept
  deriving DecidableEq, Repr

namespace TcpServer

/-- A server for which `start_accept` has been called. -/
def listening : TcpServer := ⟨true, false, none⟩

def startAccept (s : TcpServer) : Outcome TcpServer ServerEffect Fault :=
  .emit { s with pending := true } [.asyncAccept]

def handleAccept (f : PluginFactory) (completion : Completion) (s : TcpServer) :
    Outcome TcpServer ServerEffect Fault :=
  match completion with
  | .accepted socket starts =>
    match onConnection (fun _ => starts) f socket with
    | .ok _ => startAccept s
    | .error e => .fail s e
  -- Also a transient error is only logged.
  | .failed _ => .ok s

/-- A pending accept completes, as aborted only after `cancel`; an exception that leaves the
handler ends the thread that ran it. -/
def step (f : PluginFactory) (s : TcpServer) : ServerEvent → Option (TcpServer × List ServerEffect)
  | .completed completion =>
    if s.pending ∧ (completion = .failed .operationAborted → s.cancelled) then
      let o := handleAccept f completion { s with pending := false }
      some ({ o.state with escaped := o.fault }, o.output)
    else none
  | .cancel => some ({ s with cancelled := true }, [])

end TcpServer

def accepting (f : PluginFactory) : Machine TcpServer ServerEvent ServerEffect :=
  ⟨fun s => s = TcpServer.listening, TcpServer.step f⟩

/-- After an event an accept is pending, and no exception has left the handler. -/
def StillAccepting (f : PluginFactory) (s : TcpServer) (e : ServerEvent) : Prop :=
  ∀ s' out, s.step f e = some (s', out) → s'.pending = true ∧ s'.escaped = none

/-- The connection can be asked for its endpoints, the last uid of its port (without any, the
empty one) is that of a loaded plugin which makes translators, and the translator starts. -/
def Completion.Served (f : PluginFactory) : Completion → Prop
  | .accepted ⟨some port, some _⟩ starts => starts = true ∧
    ∃ info, f.translatorManager.loadedTranslators.lookup
      (((f.translatorManager.listPort port).getLast?.map (·.2)).getD []) = some info ∧
      info.creator.derives = .translator
  | _ => False

/-! ### One completion -/

theorem onConnection_ok_iff {f : PluginFactory} {socket : Socket} {starts : Bool} :
    (∃ connection, onConnection (fun _ => starts) f socket = .ok connection) ↔
      (Completion.accepted socket starts).Served f := by
  obtain ⟨localPort, remoteAddress⟩ := socket
  cases localPort with
  | none => simp [onConnection, Completion.Served]
  | some port =>
    cases remoteAddress with
    | none => simp [onConnection, Completion.Served]
    | some address =>
      rw [Completion.Served, ← foldl_last, ← PluginFactory.selectUid]
      by_cases creates : ∃ handler, f.translatorManager.create (f.selectUid port) = .ok (some handler)
      · obtain ⟨handler, created⟩ := creates
        rw [onConnection_created created]
        obtain ⟨info, found, derives, -⟩ := TranslatorManager.create_iff.mp created
        cases starts
        · simp
        · simp [found, derives]
      · constructor
        · rintro ⟨connection, done⟩
          rw [onConnection] at done
          dsimp only at done
          split at done
          next => cases done
          next => cases done
          next handler created => exact absurd ⟨handler, created⟩ creates
        · rintro ⟨-, info, found, derives⟩
          exact absurd ⟨_, TranslatorManager.create_iff.mpr ⟨info, found, derives, rfl⟩⟩ creates

namespace TcpServer

theorem step_served {f : PluginFactory} {c : Completion} (served : c.Served f) :
    listening.step f (.completed c) = some (listening, [.asyncAccept]) := by
  cases c with
  | accepted socket starts =>
    obtain ⟨connection, done⟩ := onConnection_ok_iff.mpr served
    simp [step, handleAccept, listening, done, startAccept]
  | failed ec => exact absurd served (by simp [Completion.Served])

/-- Otherwise no accept is started any more. -/
theorem step_unserved {f : PluginFactory} {c : Completion} (unserved : ¬ c.Served f) {s : TcpServer}
    {out : List ServerEffect} (taken : listening.step f (.completed c) = some (s, out)) :
    s.pending = false := by
  rw [step] at taken
  dsimp only at taken
  split at taken
  next =>
    cases taken
    cases c with
    | accepted socket starts =>
      rw [handleAccept]
      dsimp only
      split
      next connection done => exact absurd (onConnection_ok_iff.mp ⟨connection, done⟩) unserved
      next => rfl
    | failed ec => rfl
  next => cases taken

end TcpServer

/-! ### Runs -/

/-- In every run without a call of `cancel`, an accept is pending after each completion and no
exception leaves the handler, exactly when every completion is a connection that is served. -/
theorem stillAccepting_iff {f : PluginFactory} {s last : TcpServer} {completions : List Completion}
    {out : List ServerEffect} (start : (accepting f).init s)
    (ran : (accepting f).run s (completions.map .completed) = some (last, out)) :
    (accepting f).EachStep (StillAccepting f) s (completions.map .completed) ↔
      ∀ c ∈ completions, c.Served f := by
  obtain rfl : s = TcpServer.listening := start
  induction completions generalizing out with
  | nil => simp [Machine.EachStep]
  | cons c completions ih =>
    rw [List.map_cons] at ran ⊢
    obtain ⟨s', first, rest, taken, later, -⟩ := Machine.run_cons.mp ran
    rw [Machine.eachStep_cons taken, List.forall_mem_cons]
    by_cases served : c.Served f
    · -- The server is again as it was at the start.
      have back : (accepting f).step TcpServer.listening (.completed c) =
          some (TcpServer.listening, [.asyncAccept]) := TcpServer.step_served served
      rw [back] at taken
      cases taken
      refine and_congr (iff_of_true ?_ served) (ih later)
      intro s' out taken'
      have same : s' = TcpServer.listening := by
        have both := back.symm.trans taken'
        cases both
        rfl
      rw [same]
      exact ⟨rfl, rfl⟩
    · refine iff_of_false ?_ fun both => served both.1
      rintro ⟨still, -⟩
      have stopped := TcpServer.step_unserved served taken
      rw [(still _ _ taken).1] at stopped
      cases stopped

/-- A daemon with one translator on one port. -/
def wialonDaemon : PluginFactory :=
  { PluginFactory.empty with
    translatorManager := (echoWialon.mapPort wialonPort "wialon".toList).1 }

/-- Two clients, one after the other. -/
def twoClients : List Completion :=
  [.accepted ⟨some wialonPort, some "::1".toList⟩ true,
    .accepted ⟨some wialonPort, some "::2".toList⟩ true]

theorem stillAccepting_iff_clients : ∃ last out,
    (accepting wialonDaemon).run TcpServer.listening (twoClients.map .completed) =
      some (last, out) ∧
    (accepting wialonDaemon).EachStep (StillAccepting wialonDaemon) TcpServer.listening
      (twoClients.map .completed) := by
  have served (address : Str) :
      (Completion.accepted ⟨some wialonPort, some address⟩ true).Served wialonDaemon :=
    ⟨rfl, plain "wialon".toList .translator, rfl, rfl⟩
  have start : (accepting wialonDaemon).init TcpServer.listening := rfl
  have ran : (accepting wialonDaemon).run TcpServer.listening (twoClients.map .completed) =
      some (TcpServer.listening, [.asyncAccept, .asyncAccept]) := by decide +kernel
  exact ⟨_, _, ran, (stillAccepting_iff start ran).mpr (by simp [twoClients, served])⟩

/-- A client is gone again before it is asked for its address: the exception leaves the
handler, and no accept is pending any more. -/
theorem accept_stopped : ¬ ∀ f s, (accepting f).init s →
    ∀ (completions : List Completion) (last : TcpServer) (out : List ServerEffect),
    (accepting f).run s (completions.map .completed) = some (last, out) →
      (accepting f).EachStep (StillAccepting f) s (completions.map .completed) := by
  intro claimed
  have taken : (accepting wialonDaemon).step TcpServer.listening
      (.completed (.accepted ⟨some wialonPort, none⟩ true)) =
        some (⟨false, false, some .systemError⟩, []) := by decide +kernel
  have ran : (accepting wialonDaemon).run TcpServer.listening
      ([Completion.accepted ⟨some wialonPort, none⟩ true].map .completed) =
        some (⟨false, false, some .systemError⟩, []) := by
    simp [Machine.run, taken]
  have each := claimed wialonDaemon TcpServer.listening rfl _ _ _ ran
  exact absurd (each.1 _ _ taken).1 (by decide)

/-- On a port that the daemon listens on, other than 0, all that matters is the peer and what
the plugin does. -/
theorem served_iff {files : Files} {portNum : Str → Option Port} {settings : Ptree}
    {f : PluginFactory} (serving : Serving files portNum settings f) {port : Port}
    (listened : port ∈ f.tcpPorts) (notPicked : port ≠ 0) (remoteAddress : Option Str)
    (starts : Bool) : (Completion.accepted ⟨some port, remoteAddress⟩ starts).Served f ↔
      remoteAddress.isSome = true ∧ starts = true := by
  obtain ⟨uid, handler, -, -, -, connects⟩ := serving.serves port listened notPicked
  cases remoteAddress with
  | none => simp [Completion.Served]
  | some address =>
    have connected := connects (fun _ => starts) port address
    rw [boundPort_of_ne notPicked] at connected
    rw [← onConnection_ok_iff, connected]
    cases starts <;> simp

end Eiptnd.Router
