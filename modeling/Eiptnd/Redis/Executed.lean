import Eiptnd.Library.Replace
import Eiptnd.Redis.Servers
import Mathlib.Data.List.Flatten

/-! What the servers execute.

Of the requests that were launched on a connection, a server has executed the first, in their
order, and has the bytes of the others still before it. The callbacks that are left of a batch
belong to the last of them. -/
namespace Eiptnd.Redis

open Reactive

/-! ### A server and its connection -/

/-- The server has executed the first of the requests launched on its connection, and the bytes
of the others are what it has and `rest`, which is still to come. -/
def Server.InTouch (asked : List Request) (rest : Bytes) (server : Server) : Prop :=
  ∃ done later : List Request,
    server.launched.map (fun id => asked[id]?) = (done ++ later).map some ∧
    server.commands = done.map Request.command ∧
    server.input ++ rest = later.flatMap fun request => Resp.ofCommand request.command

section Server

variable {asked : List Request} {rest : Bytes} {server server' : Server}

theorem Server.InTouch.start : Server.start.InTouch asked [] := ⟨[], [], rfl, rfl, rfl⟩

/-- What was asked before does not change. -/
theorem Server.InTouch.append (inTouch : server.InTouch asked rest) (more : List Request) :
    server.InTouch (asked ++ more) rest := by
  obtain ⟨done, later, launched, commands, bytes⟩ := inTouch
  refine ⟨done, later, ?_, commands, bytes⟩
  rw [← launched]
  apply List.map_congr_left
  intro id member
  have known : asked[id]? ∈ (done ++ later).map some := by
    rw [← launched]
    exact List.mem_map_of_mem member
  obtain ⟨request, -, found⟩ := List.mem_map.mp known
  rw [← found]
  exact List.getElem?_append_left (List.getElem?_eq_some_iff.mp found.symm).1 |>.trans found.symm

/-- Bytes that the socket takes are bytes that were to come. -/
theorem Server.InTouch.sends {bytes : Bytes} (inTouch : server.InTouch asked (bytes ++ rest)) :
    { server with input := server.input ++ bytes : Server }.InTouch asked rest := by
  obtain ⟨done, later, launched, commands, all⟩ := inTouch
  exact ⟨done, later, launched, commands, by rw [← all, List.append_assoc]⟩

/-- More requests are launched when all that was launched has been sent. -/
theorem Server.InTouch.launch {entries : List Entry} (inTouch : server.InTouch asked [])
    (known : ∀ entry ∈ entries, asked[entry.callback.id]? = some entry.request) :
    { server with launched := server.launched ++ ids entries : Server }.InTouch asked
      (wire entries) := by
  obtain ⟨done, later, launched, commands, all⟩ := inTouch
  refine ⟨done, later ++ entries.map Entry.request, ?_, commands, ?_⟩
  · have new : (ids entries).map (fun id => asked[id]?) = (entries.map Entry.request).map some := by
      rw [ids, List.map_map, List.map_map]
      exact List.map_congr_left known
    dsimp only
    rw [List.map_append, launched, new, ← List.map_append, List.append_assoc]
  · rw [List.append_nil] at all
    dsimp only
    rw [all, wire, List.flatMap_append, List.flatMap_map]

theorem Server.execute_some {reply : Reply} (executed : server.execute reply = some server') :
    ∃ read, Resp.command server.input = some read ∧ server' = { server with
      input := read.2
      output := server.output ++ reply.bytes
      log := server.log ++ [(read.1, reply)] } := by
  obtain ⟨read, found, same⟩ := Option.map_eq_some_iff.mp executed
  exact ⟨read, found, same.symm⟩

theorem Server.execute_grows {reply : Reply} (executed : server.execute reply = some server') :
    server'.launched = server.launched ∧ server.log.length ≤ server'.log.length := by
  obtain ⟨read, -, rfl⟩ := Server.execute_some executed
  exact ⟨rfl, by simp⟩

/-- A command that is executed is the next of those launched. -/
theorem Server.InTouch.execute {reply : Reply}
    (inTouch : server.InTouch asked rest) (executed : server.execute reply = some server') :
    server'.InTouch asked rest := by
  obtain ⟨⟨command, behind⟩, read, rfl⟩ := Server.execute_some executed
  obtain ⟨done, later, launched, commands, all⟩ := inTouch
  have whole := @Resp.command_append _ _ rest _ read
  rw [all] at whole
  cases later with
  | nil => cases whole
  | cons request later =>
    rw [List.flatMap_cons, Resp.command_ofCommand, Option.some.injEq, Prod.mk.injEq] at whole
    obtain ⟨rfl, behind⟩ := whole
    refine ⟨done ++ [request], later, ?_, ?_, behind.symm⟩
    · rw [launched]
      simp
    · simpa [Server.commands] using commands

/-- No more is executed than was launched. -/
theorem Server.InTouch.log_le (inTouch : server.InTouch asked rest) :
    server.log.length ≤ server.launched.length := by
  obtain ⟨done, later, launched, commands, -⟩ := inTouch
  have first := congrArg List.length launched
  have second := congrArg List.length commands
  simp only [Server.commands, List.length_map, List.length_append] at first second
  omega

end Server

/-- The request of a callback is among those that were executed on the connection it was
written on. -/
def Executed (servers : List Server) (answer : Answer) : Prop :=
  ∃ server i, servers[answer.sentOn]? = some server ∧
    server.launched[i]? = some answer.callback.id ∧ i < server.log.length

/-- What has been executed stays so. -/
theorem Executed.mono {servers servers' : List Server} {answer : Answer}
    (grown : ∀ (connection : Nat) (server : Server), servers[connection]? = some server →
      ∃ server', servers'[connection]? = some server' ∧ server.launched <+: server'.launched ∧
        server.log.length ≤ server'.log.length)
    (executed : Executed servers answer) : Executed servers' answer := by
  obtain ⟨server, i, found, number, done⟩ := executed
  obtain ⟨server', found', ⟨more, launched⟩, longer⟩ := grown _ _ found
  refine ⟨server', i, found', ?_, by omega⟩
  rw [← launched, List.getElem?_append_left (List.getElem?_eq_some_iff.mp number).1]
  exact number

/-- The server at the end of the list does something. -/
theorem grown_last {lost : List Server} {server server' : Server}
    (launched : server.launched <+: server'.launched)
    (log : server.log.length ≤ server'.log.length) (connection : Nat) (other : Server)
    (found : (lost ++ [server])[connection]? = some other) :
    ∃ other', (lost ++ [server'])[connection]? = some other' ∧
      other.launched <+: other'.launched ∧ other.log.length ≤ other'.log.length := by
  by_cases old : connection < lost.length
  · rw [List.getElem?_append_left old] at found ⊢
    exact ⟨other, found, List.prefix_refl _, Nat.le_refl _⟩
  · rw [List.getElem?_append_right (by omega), List.getElem?_singleton] at found ⊢
    split at found
    next last =>
      cases found
      exact ⟨server', if_pos last, launched, log⟩
    next => cases found

/-! ### The client and its servers -/

/-- What the socket has not taken yet of the batch on its way. -/
def Exchange.unsent (x : Exchange) : Bytes :=
  if .write ∈ x.system.ops then x.system.client.outTmpBuf.data.drop x.sent else []

structure Exchange.Sound (x : Exchange) : Prop where
  inStep : x.system.InStep
  asked : x.asked.length = x.system.accepted
  entries : ∀ entry ∈ x.system.client.outTmpBuf.callbacks ++ x.system.client.outBuf.callbacks,
    x.asked[entry.callback.id]? = some entry.request
  launched : x.servers.flatMap Server.launched ++ ids x.system.client.outBuf.callbacks =
    List.range x.system.accepted
  lost : ∀ server ∈ x.lost, ∃ rest, server.InTouch x.asked rest
  server : x.server.InTouch x.asked x.unsent
  /-- The replies to the requests before those of the batch have been taken in. -/
  batch : ∃ front, x.server.launched = front ++ ids x.system.client.outTmpBuf.callbacks ∧
    front.length ≤ x.server.log.length ∧
    stream ((x.server.log.drop front.length).map Prod.snd) =
      text x.system.client.inBuf.unread ++ x.server.output
  reading : x.system.ops ≠ [.read] → text x.system.client.inBuf.unread = []
  conn : x.lost.length = x.system.conn
  sentOn : x.system.ops ≠ [] → x.system.sentOn = x.system.conn
  answered : ∀ answer ∈ x.system.answered, answer.ok = true → Executed x.servers answer

section Steps

variable {x : Exchange} {e : Event} {s' : System}

theorem Exchange.Fresh.sound (fresh : x.Fresh) : x.Sound := by
  obtain ⟨⟨client, ops, conn, sentOn, accepted, answered⟩, server, lost, asked⟩ := fresh
  have out := client.outBuf
  have tmp := client.outTmpBuf
  have inBuf := client.inBuf
  constructor
  · exact ⟨by rw [out]; rfl, by simp [ops], fun _ => by rw [tmp]; rfl⟩
  · rw [asked, accepted]
    rfl
  · simp [out, tmp, RequestQueue.empty]
  · simp [Exchange.servers, lost, server, Server.start, out, RequestQueue.empty, ids, accepted]
  · simp [lost]
  · rw [server, Exchange.unsent, if_neg (by simp [ops])]
    exact .start
  · refine ⟨[], ?_⟩
    simp [server, Server.start, tmp, RequestQueue.empty, ids, stream, inBuf, text]
  · simp [inBuf, text]
  · rw [lost, conn]
    rfl
  · exact fun some => absurd ops some
  · simp [answered]

/-! ### What a step of the client makes of the rest -/

variable {asked : List Request}

theorem follow_plain (still : launches x.system s' = false) (conn : s'.conn = x.system.conn)
    (known : (x.asked ++ e.request.toList).take s'.accepted = asked) :
    x.follow e s' = { x with system := s', asked := asked } := by
  simp [Exchange.follow, still, conn, known]

theorem follow_launched (launched : launches x.system s' = true) (conn : s'.conn = x.system.conn)
    (known : (x.asked ++ e.request.toList).take s'.accepted = asked) :
    x.follow e s' = { x with
      system := s'
      sent := 0
      server := { x.server with launched := x.server.launched ++ ids s'.client.outTmpBuf.callbacks }
      asked := asked } := by
  simp [Exchange.follow, launched, conn, known]

theorem follow_lost (still : launches x.system s' = false) (conn : s'.conn ≠ x.system.conn)
    (known : (x.asked ++ e.request.toList).take s'.accepted = asked) :
    x.follow e s' = { x with
      system := s'
      server := .start
      lost := x.lost ++ [x.server]
      asked := asked } := by
  simp [Exchange.follow, still, conn, known]

/-- Where no request is accepted, none is known that was not before. -/
theorem Exchange.Sound.known (sound : x.Sound) (accepted : s'.accepted = x.system.accepted) :
    (x.asked ++ e.request.toList).take s'.accepted = x.asked := by
  rw [accepted, ← sound.asked, List.take_left' rfl]

/-! ### Handlers that read and write nothing -/

/-- Nothing but the connection data changes. -/
theorem Exchange.Sound.quiet {c : Client} (sound : x.Sound) (outBuf : c.outBuf = x.system.client.outBuf)
    (outTmpBuf : c.outTmpBuf = x.system.client.outTmpBuf) (inBuf : c.inBuf = x.system.client.inBuf) :
    ({ x with system := { x.system with client := c } } : Exchange).Sound := by
  obtain ⟨inStep, asked, entries, launched, lost, server, batch, reading, conn, sentOn,
    answered⟩ := sound
  refine ⟨?_, asked, ?_, ?_, lost, ?_, ?_, ?_, conn, sentOn, answered⟩
  · obtain ⟨waiting, sending, sent⟩ := inStep
    refine ⟨?_, ?_, ?_⟩
    · dsimp only
      rw [outBuf]
      exact waiting
    · dsimp only
      rw [outTmpBuf]
      exact sending
    · dsimp only
      rw [outTmpBuf]
      exact sent
  · dsimp only
    rw [outTmpBuf, outBuf]
    exact entries
  · dsimp only
    rw [outBuf]
    exact launched
  · rw [Exchange.unsent]
    dsimp only
    rw [outTmpBuf]
    exact server
  · dsimp only
    rw [outTmpBuf, inBuf]
    exact batch
  · dsimp only
    rw [inBuf]
    exact reading

/-- A request is handed in and waits. -/
theorem Exchange.Sound.queued {request : Request} {callback : Callback} (sound : x.Sound)
    (fits : request.Fits) (id : callback.id = x.system.accepted) :
    ({ x with
      system := { x.system with
        client := x.system.client.filled request callback
        accepted := x.system.accepted + 1 }
      asked := x.asked ++ [request] } : Exchange).Sound := by
  have before {entry : Entry} (known : x.asked[entry.callback.id]? = some entry.request) :
      (x.asked ++ [request])[entry.callback.id]? = some entry.request :=
    (List.getElem?_append_left (List.getElem?_eq_some_iff.mp known).1).trans known
  constructor
  · exact ⟨push_wire fits _ sound.inStep.waiting, sound.inStep.sending, sound.inStep.sent⟩
  · dsimp only
    rw [List.length_append, sound.asked, List.length_singleton]
  · intro entry member
    dsimp only [Client.filled, RequestQueue.push] at member ⊢
    rw [← List.append_assoc] at member
    rcases List.mem_append.mp member with old | new
    · exact before (sound.entries entry old)
    · rw [List.mem_singleton.mp new]
      dsimp only
      rw [id, ← sound.asked, List.getElem?_concat_length]
  · dsimp only [Client.filled, RequestQueue.push]
    rw [ids, List.map_append, ← ids, ← List.append_assoc, List.map_singleton]
    dsimp only
    rw [id, List.range_succ, ← sound.launched]
    rfl
  · intro server member
    obtain ⟨rest, inTouch⟩ := sound.lost server member
    exact ⟨rest, inTouch.append [request]⟩
  · exact sound.server.append [request]
  · exact sound.batch
  · exact sound.reading
  · exact sound.conn
  · exact sound.sentOn
  · exact sound.answered

/-- The requests that wait are handed to the socket, nothing else being on its way. -/
theorem Exchange.Sound.flushed (sound : x.Sound) (idle : x.system.ops = [])
    (spent : x.system.client.outTmpBuf.callbacks = []) :
    ({ x with
      system := { x.system with
        client := x.system.client.launched
        ops := [.write]
        sentOn := x.system.conn }
      sent := 0
      server := { x.server with
        launched := x.server.launched ++ ids x.system.client.outBuf.callbacks } } : Exchange).Sound := by
  have empty : x.system.client.outTmpBuf.data = [] := sound.inStep.sent (by simp [idle])
  have quiet : text x.system.client.inBuf.unread = [] := sound.reading (by simp [idle])
  have all : x.unsent = [] := by rw [Exchange.unsent, if_neg (by simp [idle])]
  have inTouch := sound.server
  rw [all] at inTouch
  obtain ⟨front, launched, enough, replies⟩ := sound.batch
  rw [spent] at launched
  have whole : x.server.launched = front := by rw [launched]; exact List.append_nil _
  constructor
  · refine ⟨?_, fun _ => sound.inStep.waiting, by simp⟩
    dsimp only [Client.launched]
    rw [empty, spent]
    rfl
  · exact sound.asked
  · intro entry member
    apply sound.entries
    dsimp only [Client.launched] at member
    exact List.mem_append.mpr (List.mem_append.mp member).symm
  · dsimp only [Exchange.servers, Client.launched]
    rw [spent, ← sound.launched]
    simp [Exchange.servers, ids]
  · exact sound.lost
  · rw [Exchange.unsent]
    dsimp only [Client.launched]
    rw [if_pos (List.mem_singleton_self _), List.drop_zero, sound.inStep.waiting]
    apply inTouch.launch
    intro entry member
    exact sound.entries entry (List.mem_append_right _ member)
  · refine ⟨front, ?_, enough, replies⟩
    dsimp only [Client.launched]
    rw [whole]
  · exact fun _ => quiet
  · exact sound.conn
  · exact fun _ => rfl
  · intro answer member ok
    exact (sound.answered answer member ok).mono
      (grown_last (List.prefix_append _ _) (Nat.le_refl _))

/-- The whole batch has been written. -/
theorem Exchange.Sound.wrote {n : Nat} (sound : x.Sound) (single : x.system.ops = [.write])
    (sent : x.sent = x.system.client.outTmpBuf.data.length)
    (all : n = x.system.client.outTmpBuf.data.length) :
    ({ x with system := { x.system with
      client := Redis.sent n x.system.client
      ops := [.read] } } : Exchange).Sound := by
  have quiet : text x.system.client.inBuf.unread = [] := sound.reading (by simp [single])
  have none : x.unsent = [] := by
    rw [Exchange.unsent, if_pos (by simp [single]), sent, List.drop_length]
  obtain ⟨inStep, asked, entries, launched, lost, server, batch, reading, conn, sentOn,
    answered⟩ := sound
  refine ⟨⟨inStep.waiting, by simp, fun _ => ?_⟩, asked, entries, launched, lost, ?_, batch,
    by simp, conn, ?_, answered⟩
  · dsimp only [Redis.sent]
    rw [all, List.drop_length]
  · rw [Exchange.unsent, if_neg (by simp), ← none]
    exact server
  · exact fun _ => sentOn (by simp [single])

/-- The connection is lost, with no bytes left on either side. -/
theorem Exchange.Sound.losing {c : Client} (sound : x.Sound) (outBuf : c.outBuf = x.system.client.outBuf)
    (unsent : c.outTmpBuf.data = []) (unread : text c.inBuf.unread = []) :
    ({ x with
      system := x.system.lost c []
      server := .start
      lost := x.lost ++ [x.server] } : Exchange).Sound := by
  constructor
  · refine ⟨?_, by simp [System.lost], fun _ => unsent⟩
    dsimp only [System.lost, Client.lost]
    rw [outBuf]
    exact sound.inStep.waiting
  · exact sound.asked
  · intro entry member
    apply sound.entries
    dsimp only [System.lost, Client.lost] at member
    rw [List.nil_append, outBuf] at member
    exact List.mem_append_right _ member
  · dsimp only [System.lost, Client.lost]
    rw [outBuf, ← sound.launched]
    simp [Exchange.servers, Server.start]
  · intro server member
    rcases List.mem_append.mp member with old | new
    · exact sound.lost server old
    · rw [List.mem_singleton.mp new]
      exact ⟨_, sound.server⟩
  · rw [Exchange.unsent, if_neg (by simp [System.lost])]
    exact .start
  · refine ⟨[], by simp [Server.start, System.lost, Client.lost, ids], Nat.zero_le _, ?_⟩
    dsimp only [System.lost, Client.lost]
    rw [unread]
    rfl
  · exact fun _ => unread
  · dsimp only [System.lost]
    rw [List.length_append, sound.conn, List.length_singleton]
  · simp [System.lost]
  · intro answer member ok
    dsimp only [System.lost] at member
    rw [List.nil_append] at member
    rcases List.mem_append.mp member with old | dropped
    · apply (sound.answered answer old ok).mono
      intro connection server found
      refine ⟨server, ?_, List.prefix_refl _, Nat.le_refl _⟩
      rw [Exchange.servers] at found ⊢
      exact (List.getElem?_append_left (List.getElem?_eq_some_iff.mp found).1).trans found
    · obtain ⟨entry, -, rfl⟩ := List.mem_map.mp dropped
      cases ok

/-- Replies arrive, and the callbacks of as many requests are invoked. -/
theorem Exchange.Sound.matched {bytes : Nat} {inBuf : Streambuf InByte} {ops : List Op} {busy : Bool}
    {front : List (Entry × List InByte)} {rest : List Entry} {replies : List Reply} (sound : x.Sound)
    (single : x.system.ops = [.read])
    (callbacks : x.system.client.outTmpBuf.callbacks = front.map Prod.fst ++ rest)
    (come : replies.length = front.length)
    (starts : replies <+: (x.server.log.drop
      (x.server.launched.length - x.system.client.outTmpBuf.callbacks.length)).map Prod.snd)
    (arrived : text x.system.client.inBuf.unread ++ x.server.output.take bytes =
      stream replies ++ text inBuf.unread)
    (still : .write ∉ ops) (reading : ops ≠ [.read] → text inBuf.unread = []) :
    ({ x with
      system := { x.system with
        client := { x.system.client.matched inBuf rest with busy := busy }
        ops := ops
        answered := x.system.answered ++ replied x.system.sentOn front }
      server := { x.server with output := x.server.output.drop bytes } } : Exchange).Sound := by
  obtain ⟨before, launched, enough, output⟩ := sound.batch
  have own : .write ∉ x.system.ops := by simp [single]
  have size : x.server.launched.length - x.system.client.outTmpBuf.callbacks.length =
      before.length := by
    rw [launched, List.length_append, ids, List.length_map]
    omega
  rw [size] at starts
  obtain ⟨later, whole⟩ := starts
  have longer : before.length + front.length ≤ x.server.log.length := by
    have lengths := congrArg List.length whole
    rw [List.length_append, List.length_map, List.length_drop] at lengths
    omega
  have numbers : ids x.system.client.outTmpBuf.callbacks =
      ids (front.map Prod.fst) ++ ids rest := by
    rw [callbacks, ids, List.map_append, ids, ids]
  constructor
  · refine ⟨sound.inStep.waiting, fun writes => absurd writes still, fun _ => ?_⟩
    exact sound.inStep.sent own
  · exact sound.asked
  · intro entry member
    apply sound.entries
    rw [callbacks, List.append_assoc]
    exact List.mem_append_right _ member
  · have same := sound.launched
    simp only [Exchange.servers, List.flatMap_append, List.flatMap_singleton] at same ⊢
    exact same
  · exact sound.lost
  · have inTouch := sound.server
    rw [Exchange.unsent, if_neg own] at inTouch
    rw [Exchange.unsent, if_neg still]
    exact inTouch
  · refine ⟨before ++ ids (front.map Prod.fst), ?_, ?_, ?_⟩
    · dsimp only [Client.matched]
      rw [launched, numbers, List.append_assoc]
    · rw [List.length_append, ids, List.length_map, List.length_map]
      exact longer
    · have rest : (x.server.log.drop (before ++ ids (front.map Prod.fst)).length).map Prod.snd =
          later := by
        rw [List.length_append, ids, List.length_map, List.length_map, ← List.drop_drop,
          List.map_drop, ← whole, ← come, List.drop_left]
      dsimp only [Client.matched]
      rw [rest]
      -- What has arrived is the replies matched and the part that is left of it.
      apply @List.append_cancel_left _ (stream replies)
      rw [← List.append_assoc, ← arrived, List.append_assoc, List.take_append_drop, ← output,
        ← whole, stream, stream, ← List.flatMap_append]
      rfl
  · exact reading
  · exact sound.conn
  · exact fun _ => sound.sentOn (by simp [single])
  · intro answer member ok
    let server : Server := { x.server with output := x.server.output.drop bytes }
    have kept {other : Answer} (done : Executed x.servers other) :
        Executed (x.lost ++ [server]) other :=
      done.mono (@grown_last x.lost x.server server (List.prefix_refl _) (Nat.le_refl _))
    rcases List.mem_append.mp member with old | new
    · exact kept (sound.answered answer old ok)
    · obtain ⟨matched, inside, rfl⟩ := List.mem_map.mp new
      obtain ⟨place, bound, rfl⟩ := List.mem_iff_getElem.mp inside
      apply kept
      refine ⟨x.server, before.length + place, ?_, ?_, by omega⟩
      · dsimp only
        rw [sound.sentOn (by simp [single]), ← sound.conn]
        exact List.getElem?_concat_length
      · rw [launched, numbers, List.getElem?_append_right (Nat.le_add_right _ _),
          Nat.add_sub_cancel_left, List.getElem?_append_left (by simpa [ids] using bound)]
        simp [ids, bound]

/-- A stream of replies, and the part of one, is taken in reply by reply. -/
theorem handleRead_stream {replies : List Reply} {c : Client} {part : Bytes}
    (arrived : text c.inBuf.unread = stream replies ++ part) (clear : '\n' ∉ part)
    (waits : ¬ EarlyCut part) (fits : c.inBuf.data.length < Streambuf.sizes)
    (enough : replies.length ≤ c.outTmpBuf.callbacks.length) :
    ∃ inBuf front, text inBuf.unread = part ∧
      front.map Prod.fst = c.outTmpBuf.callbacks.take replies.length ∧
      handleRead true c = (Outcome.emit
        (c.matched inBuf (c.outTmpBuf.callbacks.drop replies.length)) (matchOutput c front)).andThen
          fun c' =>
            if 0 < c.outTmpBuf.callbacks.length - replies.length then read c'
            else if c'.outBuf.callbacks.isEmpty then .emit { c' with busy := false } [.unlock c'.busy]
            else write true c' := by
  have size : c.inBuf.size < Streambuf.sizes := (Nat.sub_le _ _).trans_lt fits
  obtain ⟨inBuf, front, last, remains, data, callbacks, loop⟩ := replyLoop_replies replies (s := [])
    arrived (Streambuf.length_unread _).symm size rfl enough
  obtain ⟨inBuf', data', stops⟩ := replyLoop_part (s := last)
    (c := c.matched inBuf (c.outTmpBuf.callbacks.drop replies.length))
    (i := c.outTmpBuf.callbacks.length - replies.length) remains clear waits
  refine ⟨inBuf'.consume (Streambuf.sizeSub inBuf'.size part.length), front, ?_, callbacks, ?_⟩
  · have suffix : inBuf.unread <:+ inBuf'.data := by
      rw [data']
      exact inBuf.unread_suffix
    have same : inBuf.unread.length = part.length := by rw [← text_length, remains]
    have consumed := Streambuf.consume_to suffix (by rw [data', Client.matched_inBuf, data]; exact fits)
    rw [← same, consumed, remains]
  · rw [handleRead]
    rw [if_neg (by simp), loop, stops]
    simp only [Outcome.emit_andThen, List.append_nil]
    rfl

/-- What `handle_read` makes of replies that arrive. -/
inductive Taken (s : System) (front : List (Entry × List InByte)) (inBuf : Streambuf InByte)
    (rest : List Entry) : System → Prop
  | more : rest ≠ [] → Taken s front inBuf rest { s with
      client := { s.client.matched inBuf rest with busy := true }
      ops := [.read]
      answered := s.answered ++ replied s.sentOn front }
  | settled : rest = [] → Taken s front inBuf rest { s with
      client := { s.client.matched inBuf rest with busy := false }
      ops := []
      answered := s.answered ++ replied s.sentOn front }
  | relaunched : rest = [] → Taken s front inBuf rest { s with
      client := (s.client.matched inBuf rest).launched
      ops := [.write]
      sentOn := s.conn
      answered := s.answered ++ replied s.sentOn front }

theorem step_readDone {s : System} {chunk part : Bytes} {replies : List Reply} {out : List Effect}
    (orderly : s.Orderly) (step : s.step (.readDone chunk) = some (s', out))
    (arrived : text s.client.inBuf.unread ++ chunk = stream replies ++ part) (clear : '\n' ∉ part)
    (waits : ¬ EarlyCut part)
    (fits : (text s.client.inBuf.unread).length + chunk.length < Streambuf.sizes)
    (enough : replies.length ≤ s.client.outTmpBuf.callbacks.length) :
    s.ops = [.read] ∧ ∃ inBuf front, text inBuf.unread = part ∧
      front.map Prod.fst = s.client.outTmpBuf.callbacks.take replies.length ∧
      Taken s front inBuf (s.client.outTmpBuf.callbacks.drop replies.length) s' := by
  rw [System.step] at step
  split at step
  next outstanding =>
    obtain ⟨single, held, connected⟩ := orderly.only outstanding.1
    rw [single, List.erase_cons_head] at step
    obtain ⟨-, rfl, -⟩ := taken_some step
    obtain ⟨inBuf, front, unread, callbacks, shape⟩ := @handleRead_stream replies
      (received s.conn chunk s.client) part (by rw [text_received]; exact arrived) clear waits
      (by rw [data_received]; exact fits) enough
    refine ⟨single, inBuf, front, unread, callbacks, ?_⟩
    have reads : started [.asyncRead] = [.read] := rfl
    have none : answers s.sentOn [.asyncRead] = [] := rfl
    rw [shape, Outcome.emit_andThen]
    split
    next left =>
      have some : s.client.outTmpBuf.callbacks.drop replies.length ≠ [] := by
        rw [ne_eq, List.drop_eq_nil_iff]
        dsimp only [received] at left
        omega
      have taken := @Taken.more s front inBuf _ some
      convert taken using 1
      simp [System.after, read, reads, none, held, connected, Client.matched, received]
    next left =>
      have all : s.client.outTmpBuf.callbacks.drop replies.length = [] := by
        rw [List.drop_eq_nil_iff]
        dsimp only [received] at left
        omega
      split
      · have unlocks : started [.unlock s.client.busy] = [] := rfl
        have nothing : answers s.sentOn [.unlock s.client.busy] = [] := rfl
        have taken := @Taken.settled s front inBuf _ all
        convert taken using 1
        simp [System.after, unlocks, nothing, connected, Client.matched, received]
      · rw [write_locked]
        have taken := @Taken.relaunched s front inBuf _ all
        convert taken using 1
        have launched := @after_launch s (s.client.matched inBuf
          (s.client.outTmpBuf.callbacks.drop replies.length)).launched [] (matchOutput s.client front)
          s.client.outBuf (fun _ => connected) rfl (started_matchOutput _ front)
        rw [answers_matchOutput] at launched
        exact launched
  next => cases step

/-- Replies arrive. -/
theorem Exchange.Sound.arrives {bytes : Nat} {out : List Effect} (sound : x.Sound)
    (orderly : x.system.Orderly)
    (fits : (text x.system.client.inBuf.unread).length + bytes < Streambuf.sizes)
    (waits : ¬ EarlyCut (unfinished (text x.system.client.inBuf.unread ++ x.server.output.take bytes)))
    (step : x.system.step (.readDone (x.server.output.take bytes)) = some (s', out)) :
    (Exchange.follow (.readDone (x.server.output.take bytes)) s'
      { x with server := { x.server with output := x.server.output.drop bytes } }).Sound := by
  obtain ⟨before, launched, -, output⟩ := sound.batch
  have size : x.server.launched.length - x.system.client.outTmpBuf.callbacks.length =
      before.length := by
    rw [launched, List.length_append, ids, List.length_map]
    omega
  have starts : text x.system.client.inBuf.unread ++ x.server.output.take bytes <+:
      stream ((x.server.log.drop before.length).map Prod.snd) := by
    rw [output, List.prefix_append_right_inj]
    exact List.take_prefix _ _
  have cut := stream_cutOff starts
  have short : (x.server.output.take bytes).length ≤ bytes := List.length_take_le _ _
  have most := cut.most
  have logged := sound.server.log_le
  have enough : (((x.server.log.drop before.length).map Prod.snd).take
      ((text x.system.client.inBuf.unread ++ x.server.output.take bytes).count '\n')).length ≤
      x.system.client.outTmpBuf.callbacks.length := by
    rw [List.length_map, List.length_drop] at most
    rw [List.length_take_of_le cut.most]
    omega
  obtain ⟨single, inBuf, front, unread, callbacks, taken⟩ :=
    step_readDone orderly step cut.arrived cut.clear waits (by omega) enough
  have own : .write ∉ x.system.ops := by simp [single]
  have come : front.length = (((x.server.log.drop before.length).map Prod.snd).take
      ((text x.system.client.inBuf.unread ++ x.server.output.take bytes).count '\n')).length := by
    rw [← List.length_map (f := Prod.fst), callbacks, List.length_take_of_le enough]
  have joined : x.system.client.outTmpBuf.callbacks = front.map Prod.fst ++
      x.system.client.outTmpBuf.callbacks.drop front.length := by
    rw [callbacks, come, List.take_append_drop]
  have matched (ops : List Op) (busy : Bool) (still : .write ∉ ops)
      (reading : ops ≠ [.read] → text inBuf.unread = []) :=
    @Exchange.Sound.matched x bytes inBuf ops busy front _ _ sound single joined come.symm
      (by rw [size]; exact List.take_prefix _ _) (by rw [unread]; exact cut.arrived) still reading
  rw [← come] at taken
  -- When the batch has been answered, no reply can be left.
  have drained (all : x.system.client.outTmpBuf.callbacks.drop front.length = []) :
      text inBuf.unread = [] := by
    rw [unread]
    rcases cut.next with none | ⟨reply, there, -⟩
    · exact none
    · have bound := (List.getElem?_eq_some_iff.mp there).1
      rw [List.length_map, List.length_drop] at bound
      rw [come, List.length_take_of_le cut.most, List.drop_eq_nil_iff] at all
      omega
  have known : (x.asked ++ (Event.readDone (x.server.output.take bytes)).request.toList).take
      x.system.accepted = x.asked := @Exchange.Sound.known x _ x.system sound rfl
  cases taken with
  | more left =>
    rw [@follow_plain _ _ _ x.asked]
    · exact matched [.read] true (by simp) (by simp)
    · simp [launches]
    · rfl
    · exact known
  | settled all =>
    rw [@follow_plain _ _ _ x.asked]
    · exact matched [] false (by simp) fun _ => drained all
    · simp [launches]
    · rfl
    · exact known
  | relaunched all =>
    rw [@follow_launched _ _ _ x.asked]
    · exact (matched [] true (by simp) fun _ => drained all).flushed rfl all
    · simp [launches, single]
    · rfl
    · exact known

/-! ### Every step -/

/-- A request that is handed in is refused, waits, or goes out alone. -/
inductive Requested (s : System) (request : Request) : System → Prop
  | refused : Requested s request s
  | queued (callback : Callback) : s.client.busy = true → callback.id = s.accepted →
      Requested s request { s with
        client := s.client.filled request callback
        accepted := s.accepted + 1 }
  | launched (callback : Callback) : s.client.busy = false → callback.id = s.accepted →
      Requested s request { s with
        client := (s.client.filled request callback).launched
        ops := [.write]
        sentOn := s.conn
        accepted := s.accepted + 1 }

private theorem submit_requested {s : System} {request : Request} {checks : List Effect}
    {callback : Callback} {out : List Effect} (orderly : s.Orderly) (starts : started checks = [])
    (none : answers s.sentOn checks = []) (id : callback.id = s.accepted)
    (step : taken s.request (submit request checks callback s.client) = some (s', out)) :
    Requested s request s' := by
  obtain ⟨-, rfl, -⟩ := taken_some step
  cases connected : s.client.isConnected with
  | false =>
    rw [submit_refused connected]
    have same : s.request (.emit s.client (invoke callback false [] s.client)) = s := by
      simp [System.request, System.after, connected, started_invoke]
    rw [same]
    exact .refused
  | true =>
    cases busy : s.client.busy with
    | true =>
      rw [submit_queued connected busy, System.request, if_pos connected,
        @after_quiet s (s.client.filled request callback) _ (fun _ => connected) starts none]
      exact .queued callback busy id
    | false =>
      rw [submit_launched connected busy, System.request, if_pos connected,
        @after_launch s (s.client.filled request callback).launched _ _ _ (fun _ => connected)
          (orderly.free busy).1 starts, none, List.append_nil]
      exact .launched callback busy id

theorem step_requested {s : System} {request : Request} {out : List Effect} (orderly : s.Orderly)
    (asks : e.request = some request) (step : s.step e = some (s', out)) :
    Requested s request s' := by
  cases e with
  | publish channel message =>
    cases asks
    exact submit_requested orderly rfl rfl rfl step
  | ping =>
    cases asks
    exact submit_requested orderly rfl rfl rfl step
  | timeoutPing aborted =>
    cases aborted with
    | true => cases asks
    | false =>
      cases asks
      exact submit_requested orderly rfl rfl rfl step
  | _ => cases asks

/-- Nothing is accepted but requests. -/
theorem step_accepted {s : System} {out : List Effect} (asks : e.request = none)
    (step : s.step e = some (s', out)) : s'.accepted = s.accepted := by
  have kept {ops : List Op} {r : Result} (done : taken (s.after ops) r = some (s', out)) :
      s'.accepted = s.accepted := by
    obtain ⟨-, rfl, -⟩ := taken_some done
    rfl
  cases e with
  | publish | ping => cases asks
  | timeoutPing aborted =>
    cases aborted with
    | true =>
      rw [System.step, if_pos rfl] at step
      exact kept step
    | false => cases asks
  | timeoutConnect | handleResolve | handleConnect => exact kept step
  | _ =>
    rw [System.step] at step
    split at step
    · exact kept step
    · cases step

theorem Exchange.Sound.requested {request : Request} (sound : x.Sound) (orderly : x.system.Orderly)
    (fits : request.Fits) (asks : e.request = some request)
    (requested : Requested x.system request s') : (x.follow e s').Sound := by
  have accepted : (x.asked ++ e.request.toList).take (x.system.accepted + 1) =
      x.asked ++ [request] := by
    rw [asks, Option.toList_some, ← sound.asked]
    exact List.take_of_length_le (by simp)
  cases requested with
  | refused =>
    rw [follow_plain (by simp [launches]) rfl (sound.known rfl)]
    exact sound
  | queued callback busy id =>
    rw [@follow_plain _ _ _ (x.asked ++ [request])]
    · exact sound.queued fits id
    · simp [launches]
    · rfl
    · exact accepted
  | launched callback free id =>
    obtain ⟨idle, spent⟩ := orderly.free free
    rw [@follow_launched _ _ _ (x.asked ++ [request])]
    · exact (sound.queued fits id).flushed idle spent
    · simp [launches, idle]
    · rfl
    · exact accepted

/-- A handler that hands in no request and takes in no replies. -/
theorem Exchange.Sound.handled (sound : x.Sound) (orderly : x.system.Orderly)
    (accepted : s'.accepted = x.system.accepted) (reads : ∀ bytes, e ≠ .readDone bytes)
    (written : e = .writeDone → x.sent = x.system.client.outTmpBuf.data.length)
    (failed : ∀ n, e = .writeFailed n → n = x.system.client.outTmpBuf.data.length)
    (lost : e = .readFailed → text x.system.client.inBuf.unread = [])
    (step : Steps x.system e s') : (x.follow e s').Sound := by
  have known : (x.asked ++ e.request.toList).take s'.accepted = x.asked := sound.known accepted
  cases step with
  | refused =>
    rw [follow_plain (by simp [launches]) rfl known]
    exact sound
  | queued => exact absurd accepted (Nat.succ_ne_self _)
  | launched => exact absurd accepted (Nat.succ_ne_self _)
  | moved =>
    rw [@follow_plain _ _ _ x.asked]
    · exact sound.quiet rfl rfl rfl
    · simp [launches]
    · rfl
    · exact known
  | connected =>
    rw [@follow_plain _ _ _ x.asked]
    · exact sound.quiet rfl rfl rfl
    · simp [launches]
    · rfl
    · exact known
  | flushed waiting free =>
    obtain ⟨idle, spent⟩ := orderly.free free
    rw [@follow_launched _ _ _ x.asked]
    · have connected : ({ x with system := { x.system with
        client := { x.system.client with isConnected := true } } } : Exchange).Sound :=
        sound.quiet rfl rfl rfl
      exact connected.flushed idle spent
    · simp [launches, idle]
    · rfl
    · exact known
  | wrote single =>
    rw [@follow_plain _ _ _ x.asked]
    · exact sound.wrote single (written rfl) rfl
    · simp [launches]
    · rfl
    · exact known
  | writeLost single =>
    rw [@follow_lost _ _ _ x.asked]
    · apply sound.losing
      · rfl
      · dsimp only [Redis.sent]
        rw [failed _ rfl, List.drop_length]
      · exact sound.reading (by simp [single])
    · simp [launches, System.lost]
    · exact Nat.succ_ne_self _
    · exact known
  | readLost single =>
    rw [@follow_lost _ _ _ x.asked]
    · exact sound.losing rfl (sound.inStep.sent (by simp [single])) (lost rfl)
    · simp [launches, System.lost]
    · exact Nat.succ_ne_self _
    · exact known
  | more => exact absurd rfl (reads _)
  | settled => exact absurd rfl (reads _)
  | relaunched => exact absurd rfl (reads _)
  | gaveUp => exact absurd rfl (reads _)

/-- A server executes a command. -/
theorem Exchange.Sound.executes {server : Server} {reply : Reply} (sound : x.Sound)
    (executed : x.server.execute reply = some server) :
    ({ x with server := server } : Exchange).Sound := by
  have inTouch := sound.server.execute executed
  obtain ⟨same, longer⟩ := Server.execute_grows executed
  obtain ⟨read, -, shape⟩ := Server.execute_some executed
  obtain ⟨inStep, asked, entries, launched, lost, -, batch, reading, conn, sentOn, answered⟩ :=
    sound
  refine ⟨inStep, asked, entries, ?_, lost, inTouch, ?_, reading, conn, sentOn, ?_⟩
  · simpa [Exchange.servers, same] using launched
  · obtain ⟨front, last, enough, replies⟩ := batch
    refine ⟨front, same.trans last, enough.trans longer, ?_⟩
    dsimp only
    rw [shape]
    dsimp only
    rw [List.drop_append_of_le_length enough, List.map_append, stream, List.flatMap_append,
      ← stream, replies, List.append_assoc]
    simp
  · intro answer member ok
    have grown := @grown_last x.lost x.server server (by rw [same]) longer
    exact (answered answer member ok).mono grown

theorem Exchange.Sound.executesLate {connection : Nat} {server server' : Server} {reply : Reply}
    (sound : x.Sound) (found : x.lost[connection]? = some server)
    (executed : server.execute reply = some server') :
    ({ x with lost := x.lost.set connection server' } : Exchange).Sound := by
  obtain ⟨rest, inTouch⟩ := sound.lost server (List.mem_of_getElem? found)
  have inTouch' := inTouch.execute executed
  obtain ⟨same, longer⟩ := Server.execute_grows executed
  obtain ⟨inStep, asked, entries, launched, lost, own, batch, reading, conn, sentOn, answered⟩ :=
    sound
  refine ⟨inStep, asked, entries, ?_, ?_, own, batch, reading, ?_, sentOn, ?_⟩
  · rw [← launched, Exchange.servers, Exchange.servers, List.flatMap_append, List.flatMap_append]
    dsimp only
    rw [Replace.flatMap_set found same]
  · intro other member
    rcases List.mem_or_eq_of_mem_set member with old | rfl
    · exact lost other old
    · exact ⟨rest, inTouch'⟩
  · rw [← conn]
    exact List.length_set ..
  · intro answer member ok
    apply (answered answer member ok).mono
    intro place other there
    rw [Exchange.servers] at there ⊢
    by_cases old : place < x.lost.length
    · rw [List.getElem?_append_left old] at there
      dsimp only
      rw [List.getElem?_append_left (by rw [List.length_set]; exact old)]
      by_cases mine : place = connection
      · subst mine
        obtain rfl : server = other := Option.some.inj (found.symm.trans there)
        rw [List.getElem?_set_self old]
        exact ⟨server', rfl, by rw [same], longer⟩
      · rw [List.getElem?_set_ne (Ne.symm mine)]
        exact ⟨other, there, List.prefix_refl _, Nat.le_refl _⟩
    · dsimp only
      rw [List.getElem?_append_right (by omega)] at there
      rw [List.getElem?_append_right (by rw [List.length_set]; omega), List.length_set]
      exact ⟨other, there, List.prefix_refl _, Nat.le_refl _⟩

/-- What a handler of the client does to the rest. -/
theorem Exchange.handle_some {x' : Exchange} {out : List Effect}
    (handled : x.handle e = some (x', out)) :
    ∃ s', x.system.step e = some (s', out) ∧ x' = x.follow e s' := by
  rw [Exchange.handle] at handled
  split at handled
  · cases handled
  next s' out stepped =>
    cases handled
    exact ⟨s', stepped, rfl⟩

/-- Every step keeps the client and its servers in touch. -/
theorem Exchange.Sound.step {x' : Exchange} {t : Traffic} {out : List Effect} (sound : x.Sound)
    (orderly : x.system.Orderly) (stepped : x.step t = some (x', out)) (proper : Proper x t x') :
    x'.Sound := by
  cases t with
  | handled e =>
    rw [Exchange.step] at stepped
    split at stepped
    · cases stepped
    next own =>
      obtain ⟨s', step, rfl⟩ := Exchange.handle_some stepped
      cases asks : e.request with
      | some request =>
        have fits : request.Fits := by
          cases e with
          | publish =>
            cases asks
            exact proper
          | ping =>
            cases asks
            exact trivial
          | timeoutPing aborted =>
            cases aborted with
            | true => cases asks
            | false =>
              cases asks
              exact trivial
          | _ => cases asks
        exact sound.requested orderly fits asks (step_requested orderly asks step)
      | none =>
        apply sound.handled orderly (step_accepted asks step)
        · rintro bytes rfl
          exact own rfl
        · rintro rfl
          exact absurd rfl own
        · rintro n rfl
          exact absurd rfl own
        · rintro rfl
          exact proper
        · exact (step_cases orderly step).1
  | sends bytes =>
    rw [Exchange.step] at stepped
    split at stepped
    next outstanding =>
      cases stepped
      obtain ⟨inStep, asked, entries, launched, lost, server, batch, reading, conn, sentOn,
        answered⟩ := sound
      rw [Exchange.unsent, if_pos outstanding.1] at server
      refine ⟨inStep, asked, entries, ?_, lost, ?_, batch, reading, conn, sentOn, ?_⟩
      · simpa [Exchange.servers] using launched
      · rw [Exchange.unsent]
        dsimp only
        rw [if_pos outstanding.1]
        apply Server.InTouch.sends
        rw [← List.drop_drop, List.take_append_drop]
        exact server
      · intro answer member ok
        apply (answered answer member ok).mono (@grown_last x.lost x.server _ _ _)
        · exact List.prefix_refl _
        · exact Nat.le_refl _
    next => cases stepped
  | written =>
    rw [Exchange.step] at stepped
    split at stepped
    next all =>
      obtain ⟨s', step, rfl⟩ := Exchange.handle_some stepped
      exact sound.handled orderly (step_accepted rfl step) (by simp) (fun _ => all) (by simp) (by simp)
        (step_cases orderly step).1
    next => cases stepped
  | writeFailed =>
    obtain ⟨s', step, rfl⟩ := Exchange.handle_some stepped
    apply sound.handled orderly (step_accepted rfl step) (by simp) (by simp) _ (by simp)
      (step_cases orderly step).1
    rintro n same
    cases same
    exact proper
  | arrives bytes =>
    obtain ⟨s', step, rfl⟩ := Exchange.handle_some stepped
    exact sound.arrives orderly proper.1 proper.2 step
  | executes reply =>
    obtain ⟨server, executed, same⟩ := Option.map_eq_some_iff.mp stepped
    cases same
    exact sound.executes executed
  | executesLate connection reply =>
    rw [Exchange.step] at stepped
    split at stepped
    · cases stepped
    next server found =>
      obtain ⟨server', executed, same⟩ := Option.map_eq_some_iff.mp stepped
      cases same
      exact sound.executesLate found executed

end Steps

/-! ### Every run -/

/-- The client goes through states of its own. -/
theorem system_of_exchange {x : Exchange} (reached : exchange.Reachable x) :
    system.Reachable x.system := by
  apply reached.invariant fun x => system.Reachable x.system
  · exact fun x fresh => .init fresh.system
  intro x t x' out _ before stepped
  have handled {y : Exchange} {e : Event} (same : y.system = x.system)
      (done : y.handle e = some (x', out)) : system.Reachable x'.system := by
    obtain ⟨s', step, rfl⟩ := Exchange.handle_some done
    rw [same] at step
    exact before.step step
  change x.step t = _ at stepped
  cases t with
  | handled e =>
    rw [Exchange.step] at stepped
    split at stepped
    · cases stepped
    · exact handled rfl stepped
  | sends bytes =>
    rw [Exchange.step] at stepped
    split at stepped
    · cases stepped
      exact before
    · cases stepped
  | written =>
    rw [Exchange.step] at stepped
    split at stepped
    · exact handled rfl stepped
    · cases stepped
  | writeFailed => exact handled rfl stepped
  | arrives bytes =>
    exact @handled { x with
      server := { x.server with output := x.server.output.drop bytes } } _ rfl stepped
  | executes reply =>
    obtain ⟨server, -, same⟩ := Option.map_eq_some_iff.mp stepped
    cases same
    exact before
  | executesLate connection reply =>
    rw [Exchange.step] at stepped
    split at stepped
    · cases stepped
    · obtain ⟨server', -, same⟩ := Option.map_eq_some_iff.mp stepped
      cases same
      exact before

theorem sound_of_reachable {x : Exchange} (reached : exchange.ReachableWhere Proper x) : x.Sound := by
  apply reached.invariant Exchange.Sound
  · exact fun x fresh => fresh.sound
  · intro x t x' out before sound stepped proper
    exact sound.step (orderly_of_reachable (system_of_exchange before)) stepped proper

/-- The requests behind the numbers of a list. -/
private def requestsOf (asked : List Request) (launched : List Nat) : List Request :=
  launched.filterMap fun id => asked[id]?

private theorem requestsOf_range (asked : List Request) :
    requestsOf asked (List.range asked.length) = asked := by
  induction asked using List.reverseRecOn with
  | nil => rfl
  | append_singleton asked request ih =>
    have old : requestsOf (asked ++ [request]) (List.range asked.length) =
        requestsOf asked (List.range asked.length) := by
      apply List.filterMap_congr
      intro id member
      exact List.getElem?_append_left (List.mem_range.mp member)
    have last : requestsOf (asked ++ [request]) [asked.length] = [request] := by
      simp [requestsOf]
    rw [List.length_append, List.length_singleton, List.range_succ, requestsOf, List.filterMap_append,
      ← requestsOf, ← requestsOf, old, ih, last]

private theorem Server.InTouch.commands {asked : List Request} {rest : Bytes} {server : Server}
    (inTouch : server.InTouch asked rest) :
    server.commands <+: (requestsOf asked server.launched).map Request.command := by
  obtain ⟨done, later, launched, commands, -⟩ := inTouch
  have all : requestsOf asked server.launched = done ++ later := by
    have known := congrArg (List.filterMap id) launched
    simpa [List.filterMap_map, requestsOf, Function.comp_def] using known
  rw [all, commands, List.map_append]
  exact List.prefix_append _ _

private theorem Exchange.Sound.inTouch {x : Exchange} (sound : x.Sound) :
    ∀ server ∈ x.servers, ∃ rest, server.InTouch x.asked rest := by
  intro server member
  rcases List.mem_append.mp member with lost | own
  · exact sound.lost server lost
  · rw [List.mem_singleton.mp own]
    exact ⟨_, sound.server⟩

/-- What the servers have executed, one after the other, are requests in their order. -/
theorem Exchange.Sound.once {x : Exchange} (sound : x.Sound) :
    (x.servers.flatMap Server.commands).Sublist (x.asked.map Request.command) := by
  have all : (x.servers.flatMap Server.commands).Sublist
      ((requestsOf x.asked (x.servers.flatMap Server.launched)).map Request.command) := by
    rw [requestsOf, List.filterMap_flatMap, List.map_flatMap]
    apply List.Sublist.flatMap_right
    intro server member
    obtain ⟨rest, known⟩ := sound.inTouch server member
    exact known.commands.sublist
  apply all.trans
  apply List.Sublist.map
  -- What waits has not been launched yet.
  have whole : requestsOf x.asked (x.servers.flatMap Server.launched) ++
      requestsOf x.asked (ids x.system.client.outBuf.callbacks) = x.asked := by
    rw [requestsOf, requestsOf, ← List.filterMap_append, sound.launched, ← sound.asked]
    exact requestsOf_range x.asked
  have front := List.sublist_append_left (requestsOf x.asked (x.servers.flatMap Server.launched))
    (requestsOf x.asked (ids x.system.client.outBuf.callbacks))
  rwa [whole] at front

/-- A request whose callback has been invoked with true has been executed. -/
theorem Exchange.Sound.executed {x : Exchange} (sound : x.Sound) {answer : Answer}
    (member : answer ∈ x.system.answered) (ok : answer.ok = true) :
    ∃ (server : Server) (request : Request) (place : Nat), x.servers[answer.sentOn]? = some server ∧
      x.asked[answer.callback.id]? = some request ∧
      server.launched[place]? = some answer.callback.id ∧
      server.commands[place]? = some request.command := by
  obtain ⟨server, place, found, number, done⟩ := sound.answered answer member ok
  obtain ⟨rest, done', later, launched, commands, -⟩ :=
    sound.inTouch server (List.mem_of_getElem? found)
  have bound : place < done'.length := by
    have lengths := congrArg List.length commands
    rw [Server.commands, List.length_map, List.length_map] at lengths
    omega
  have here := congrArg (fun l : List (Option Request) => l[place]?) launched
  rw [List.getElem?_map, number, List.getElem?_map, List.getElem?_append_left bound,
    List.getElem?_eq_getElem bound] at here
  refine ⟨server, done'[place], place, found, ?_, number, ?_⟩
  · exact Option.some.inj here
  · rw [commands, List.getElem?_map, List.getElem?_eq_getElem bound]
    rfl

/-- However often connections are lost, as long as none leaves bytes behind in the buffers: the
commands executed on the connections, one connection after the other, are some of the requests in
their order, each at most once, and a request whose callback has been invoked with true has been
executed on the connection it was written on. What is left in the socket of a lost connection may
be executed later in time than requests of the next one. -/
theorem executed_once {x : Exchange} (reached : exchange.ReachableWhere Proper x) :
    (x.servers.flatMap Server.commands).Sublist (x.asked.map Request.command) ∧
    ∀ answer ∈ x.system.answered, answer.ok = true →
      ∃ (server : Server) (request : Request) (place : Nat), x.servers[answer.sentOn]? = some server ∧
        x.asked[answer.callback.id]? = some request ∧
        server.launched[place]? = some answer.callback.id ∧
        server.commands[place]? = some request.command := by
  have sound := sound_of_reachable reached
  exact ⟨sound.once, fun answer member ok => sound.executed member ok⟩

def Exchange.initial : Exchange := ⟨.initial, 0, .start, [], []⟩

theorem Exchange.initial_fresh : Exchange.initial.Fresh :=
  ⟨System.initial_fresh, rfl, rfl, rfl⟩

/-- The second request is executed when its connection has been lost. -/
def lostAndFound : List Traffic :=
  [.handled (.handleConnect true []), .handled (.publish ['a'] ['b']), .sends 20, .sends 11,
    .written, .executes twelve, .arrives 5, .handled .ping, .sends 14, .writeFailed,
    .handled (.handleConnect true []), .handled (.publish ['c'] ['d']), .executesLate 0 .pong,
    .sends 31, .executes twelve, .written, .arrives 2, .arrives 3]

theorem executed_once_lostAndFound :
    (exchange.after .initial lostAndFound).system.answered.map (fun answer =>
      (answer.callback.id, answer.ok, answer.sentOn)) = [(0, true, 0), (1, false, 0), (2, true, 1)] ∧
    (exchange.after .initial lostAndFound).servers.map (fun server => server.commands.length) =
      [2, 1] ∧
    ((exchange.after .initial lostAndFound).servers.flatMap Server.commands).Sublist
      ((exchange.after .initial lostAndFound).asked.map Request.command) := by
  have kept : exchange.along Proper .initial lostAndFound = true := by decide +kernel
  have once := executed_once (.along (.init Exchange.initial_fresh) lostAndFound kept)
  exact ⟨by decide +kernel, by decide +kernel, once.1⟩

end Eiptnd.Redis
