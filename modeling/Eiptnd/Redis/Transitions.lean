import Eiptnd.Redis.Client

/-! What the handlers of the Redis client can do. -/
namespace Eiptnd.Redis

open Reactive

/-- Effects that concern neither the queues nor the operations on them. -/
def Effect.Idle : Effect → Prop
  | .asyncWrite | .asyncRead | .invoke _ _ _ | .unlock _ | .assert _ _ => False
  | _ => True

/-- What the locking and the assertions of the client promise. -/
def Effect.Sound : Effect → Prop
  | .unlock held => held = true
  | .assert _ holds => holds = true
  | _ => True

theorem Effect.Idle.sound {effect : Effect} (idle : effect.Idle) : effect.Sound := by
  cases effect <;> simp_all [Effect.Idle, Effect.Sound]

theorem append_sound {first second : List Effect}
    (left : ∀ effect ∈ first, effect.Sound) (right : ∀ effect ∈ second, effect.Sound) :
    ∀ effect ∈ first ++ second, effect.Sound := by
  intro effect member
  rcases List.mem_append.mp member with member | member
  · exact left effect member
  · exact right effect member

theorem timeoutNoPing_idle (ok : Bool) (c : Client) : ∀ effect ∈ timeoutNoPing ok c, effect.Idle := by
  intro effect member
  rw [timeoutNoPing] at member
  split at member
  · split at member <;> simp only [List.mem_cons, List.not_mem_nil, or_false] at member
    · subst member
      exact trivial
    · rcases member with rfl | rfl | rfl <;> exact trivial
  · cases member

theorem invoke_sound (callback : Callback) (ok : Bool) (line : List InByte) (c : Client) :
    ∀ effect ∈ invoke callback ok line c, effect.Sound := by
  intro effect member
  rw [invoke] at member
  rcases List.mem_cons.mp member with rfl | later
  · exact trivial
  · split at later
    · exact (timeoutNoPing_idle ok c effect later).sound
    · cases later

/-! ### Connecting -/

/-- The client with other connection data. -/
def Client.moved (c : Client) (host port : Bytes) (socketOpen : Bool) : Client :=
  { c with host := host, port := port, socketOpen := socketOpen }

/-- A handler that ends normally, and has to do with connecting only. -/
def Moves (c : Client) (r : Result) : Prop :=
  ∃ host port socketOpen out, r = .emit (c.moved host port socketOpen) out ∧
    ∀ effect ∈ out, effect.Idle

private theorem connect_moves {endpoints : List Endpoint} {c : Client}
    (fine : (connect endpoints c).fault = none) : Moves c (connect endpoints c) := by
  cases endpoints with
  | nil => cases fine
  | cons endpoint rest =>
    refine ⟨c.host, c.port, true, _, rfl, ?_⟩
    simp [Effect.Idle]

theorem handleResolve_moves {ok : Bool} {endpoints : List Endpoint} {c : Client}
    (fine : (handleResolve ok endpoints c).fault = none) : Moves c (handleResolve ok endpoints c) := by
  cases endpoints with
  | nil => cases fine
  | cons endpoint rest =>
    cases ok with
    | false => exact ⟨c.host, c.port, c.socketOpen, _, rfl, by simp [Effect.Idle]⟩
    | true =>
      refine ⟨endpoint.host, endpoint.service, true, _, rfl, ?_⟩
      simp [connect, Effect.Idle]

theorem timeoutConnect_moves {aborted : Bool} {endpoints : List Endpoint} {c : Client}
    (fine : (timeoutConnect aborted endpoints c).fault = none) :
    Moves c (timeoutConnect aborted endpoints c) := by
  have still (out : List Effect) (idle : ∀ effect ∈ out, effect.Idle) : Moves c (.emit c out) :=
    ⟨c.host, c.port, c.socketOpen, out, rfl, idle⟩
  unfold timeoutConnect at fine ⊢
  split
  · exact still [] (by simp)
  next again =>
    rw [if_neg again] at fine
    simp only [Outcome.emit_andThen] at fine ⊢
    split at fine
    next never =>
      rw [if_pos never]
      exact still [.cancelSocket] (by simp [Effect.Idle])
    next retry =>
      rw [if_neg retry]
      obtain ⟨host, port, socketOpen, out, same, idle⟩ := connect_moves fine
      refine ⟨host, port, socketOpen, .cancelSocket :: out, ?_, ?_⟩
      · rw [same]
        rfl
      · intro effect member
        rcases List.mem_cons.mp member with rfl | later
        · exact trivial
        · exact idle effect later

/-! ### Handing a batch to the socket -/

/-- The client after `write` has swapped its queues. -/
def Client.launched (c : Client) : Client :=
  { c with busy := true, outBuf := c.outTmpBuf, outTmpBuf := c.outBuf }

def launchOutput (queue : RequestQueue) : List Effect :=
  [.assert .callbacks (decide (0 < queue.callbacks.length)),
    .assert .data (decide (0 < queue.data.length)), .asyncWrite]

theorem write_held {c : Client} (held : c.busy = true) : write false c = .ok c := by
  simp [write, held]

theorem write_free {c : Client} (free : c.busy = false) :
    write false c = .emit c.launched (launchOutput c.outBuf) := by
  simp [write, free, Client.launched, launchOutput]

theorem write_locked (c : Client) :
    write true c = .emit c.launched (launchOutput c.outBuf) := by
  simp [write, Client.launched, launchOutput]

theorem launchOutput_sound {queue : RequestQueue} (callbacks : queue.callbacks ≠ [])
    (data : queue.data ≠ []) : ∀ effect ∈ launchOutput queue, effect.Sound := by
  intro effect member
  simp only [launchOutput, List.mem_cons, List.not_mem_nil, or_false] at member
  rcases member with rfl | rfl | rfl
  · simpa [Effect.Sound] using List.length_pos_of_ne_nil callbacks
  · simpa [Effect.Sound] using List.length_pos_of_ne_nil data
  · exact trivial

theorem publishHeader_length : publishHeader.length = 18 := rfl

theorem pingBytes_length : pingBytes.length = 14 := rfl

theorem crlf_length : crlf.length = 2 := rfl

theorem encode_length_pos (request : Request) : 0 < (encode request).length := by
  cases request with
  | publish channel message =>
    simp only [encode, List.length_append, publishHeader_length]
    omega
  | ping =>
    simp only [encode, pingBytes_length]
    omega

theorem push_data_ne_nil (queue : RequestQueue) (request : Request) (callback : Callback) :
    (queue.push request callback).data ≠ [] := by
  apply List.ne_nil_of_length_pos
  have positive := encode_length_pos request
  simp only [RequestQueue.push, List.length_append]
  omega

theorem push_callbacks_ne_nil (queue : RequestQueue) (request : Request) (callback : Callback) :
    (queue.push request callback).callbacks ≠ [] := by
  simp [RequestQueue.push]

/-- The client with one more request in the queue that is being filled. -/
def Client.filled (c : Client) (request : Request) (callback : Callback) : Client :=
  { c with outBuf := c.outBuf.push request callback }

theorem submit_accepted {c : Client} (connected : c.isConnected = true) (request : Request)
    (checks : List Effect) (callback : Callback) : submit request checks callback c =
      (Outcome.emit (c.filled request callback) checks).andThen (write false) := by
  rw [submit]
  rw [if_neg (by simp [connected])]
  rfl

theorem submit_refused {c : Client} (closed : c.isConnected = false) (request : Request)
    (checks : List Effect) (callback : Callback) :
    submit request checks callback c = .emit c (invoke callback false [] c) := by
  simp [submit, closed]

theorem submit_queued {c : Client} (connected : c.isConnected = true) (held : c.busy = true)
    (request : Request) (checks : List Effect) (callback : Callback) :
    submit request checks callback c = .emit (c.filled request callback) checks := by
  have later : (c.filled request callback).busy = true := held
  rw [submit_accepted connected, Outcome.emit_andThen, write_held later, Outcome.ok_output,
    List.append_nil]
  rfl

theorem submit_launched {c : Client} (connected : c.isConnected = true) (free : c.busy = false)
    (request : Request) (checks : List Effect) (callback : Callback) :
    submit request checks callback c = .emit (c.filled request callback).launched
      (checks ++ launchOutput (c.outBuf.push request callback)) := by
  have later : (c.filled request callback).busy = false := free
  rw [submit_accepted connected, Outcome.emit_andThen, write_free later]
  rfl

/-- Ten digits are enough for a length. -/
theorem uint_length (n : Nat) : (uint n).length ≤ 10 := by
  have small : n % 2 ^ 32 < 10 ^ 10 := (Nat.mod_lt n (by decide)).trans (by decide)
  exact (Nat.length_toDigits_le_iff (by decide) (by decide)).mpr small

/-- The request never outgrows the bytes reserved for it. -/
theorem publish_reserved (channel message : Bytes) :
    (encode (.publish channel message)).length ≤ publishSize channel message := by
  have first := uint_length channel.length
  have second := uint_length message.length
  simp only [encode, publishSize, List.length_append, List.length_cons, publishHeader_length,
    crlf_length]
  omega

/-- What `handle_connect` does when it ends normally. -/
theorem handleConnect_cases {ok : Bool} {endpoints : List Endpoint} {c : Client}
    (fine : (handleConnect ok endpoints c).fault = none) :
    Moves c (handleConnect ok endpoints c) ∨
      (ok = true ∧ (c.outBuf.callbacks = [] ∨ c.busy = true) ∧
        handleConnect ok endpoints c = .emit { c with isConnected := true } (timeoutNoPing true c)) ∨
      (ok = true ∧ c.outBuf.callbacks ≠ [] ∧ c.busy = false ∧
        handleConnect ok endpoints c = .emit ({ c with isConnected := true } : Client).launched
          (timeoutNoPing true c ++ launchOutput c.outBuf)) := by
  cases ok with
  | false =>
    apply Or.inl
    match endpoints with
    | [] => cases fine
    | [_] => exact ⟨c.host, c.port, c.socketOpen, [], rfl, by simp⟩
    | _ :: next :: rest => exact @connect_moves (next :: rest) c fine
  | true =>
    apply Or.inr
    let d : Client := { c with isConnected := true }
    have shape : handleConnect true endpoints c = (Outcome.emit d (timeoutNoPing true c)).andThen
        fun d => if d.outBuf.callbacks.isEmpty then .ok d else write false d := rfl
    rw [shape, Outcome.emit_andThen]
    cases waiting : c.outBuf.callbacks with
    | nil =>
      refine .inl ⟨rfl, .inl rfl, ?_⟩
      simp [Outcome.emit, d]
    | cons entry rest =>
      rw [if_neg (by simp)]
      cases busy : c.busy with
      | true =>
        refine .inl ⟨rfl, .inr rfl, ?_⟩
        rw [@write_held d busy]
        simp [Outcome.emit, d, busy]
      | false =>
        refine .inr ⟨rfl, by simp, rfl, ?_⟩
        rw [@write_free d busy]
        rfl

/-! ### Failing -/

/-- The client after `reconnect`. -/
def Client.lost (c : Client) : Client :=
  { c with
    isConnected := false
    socketOpen := false
    outTmpBuf := { c.outTmpBuf with callbacks := [] }
    busy := false }

def dropOutput (c : Client) (entries : List Entry) : List Effect :=
  entries.flatMap fun entry => invoke entry.callback false [] c

def closeOutput (c : Client) : List Effect :=
  .cancelTimer :: if c.socketOpen then [.closeSocket] else []

theorem reconnect_emits (c : Client) : reconnect c = .emit c.lost
    (closeOutput c ++ dropOutput c c.outTmpBuf.callbacks ++
      [.unlock c.busy, .asyncResolve c.host c.port]) := by
  simp only [reconnect, close, drop, connectTo, Outcome.emit_state,
    Outcome.emit_output, Outcome.emit_fault, Outcome.andThen]
  simp only [List.append_assoc]
  rfl

theorem reconnect_eq (c : Client) : ∃ closing, (∀ effect ∈ closing, effect.Idle) ∧
    reconnect c = .emit c.lost (closing ++ dropOutput c c.outTmpBuf.callbacks ++
      [.unlock c.busy, .asyncResolve c.host c.port]) := by
  refine ⟨closeOutput c, ?_, reconnect_emits c⟩
  intro effect member
  rw [closeOutput] at member
  cases opened : c.socketOpen <;> simp [opened] at member
  · subst member
    exact trivial
  · rcases member with rfl | rfl <;> exact trivial

/-! ### Matching replies -/

/-- The client after the callbacks before `rest` have been answered. -/
def Client.matched (c : Client) (inBuf : Streambuf InByte) (rest : List Entry) : Client :=
  { c with inBuf := inBuf, outTmpBuf := { c.outTmpBuf with callbacks := rest } }

@[simp] theorem Client.matched_inBuf (c : Client) (inBuf : Streambuf InByte) (rest : List Entry) :
    (c.matched inBuf rest).inBuf = inBuf := rfl

@[simp] theorem Client.matched_callbacks (c : Client) (inBuf : Streambuf InByte)
    (rest : List Entry) : (c.matched inBuf rest).outTmpBuf.callbacks = rest := rfl

theorem text_length (line : List InByte) : (text line).length = line.length :=
  List.length_map _

theorem isLf_of_text {bytes : List InByte} (clear : '\n' ∉ text bytes) :
    ∀ b ∈ bytes, isLf b = false := by
  intro b member
  rw [isLf, beq_eq_false_iff_ne]
  intro same
  apply clear
  rw [← same]
  exact List.mem_map_of_mem member

theorem text_of_isLf {bytes : List InByte} (clear : ∀ b ∈ bytes, isLf b = false) :
    '\n' ∉ text bytes := by
  intro member
  obtain ⟨b, inside, same⟩ := List.mem_map.mp member
  have other := clear b inside
  simp [isLf, same] at other

/-- A line the client takes for a reply: an integer or a pong, up to its CR. -/
def Supported (line : List InByte) : Prop :=
  line.getLast?.map InByte.char = some '\r' ∧
    (line.head?.map InByte.char = some ':' ∨ text line = pong)

instance (line : List InByte) : Decidable (Supported line) := inferInstanceAs (Decidable (_ ∧ _))

/-- What stands behind the first reply of an unsupported type, looking at `n` lines. -/
def behindUnsupported : Nat → List InByte → List InByte
  | 0, _ => []
  | n + 1, stream =>
    let (line, rest) := Lines.getline isLf stream
    if stream.length < 4 ∨ line.getLast?.map InByte.char ≠ some '\r' then []
    else if Supported line then behindUnsupported n rest
    else rest

private theorem behindUnsupported_unended {n : Nat} {stream : List InByte}
    (clear : ∀ b ∈ stream, isLf b = false) : behindUnsupported n stream = [] := by
  have none (n : Nat) : behindUnsupported n [] = [] := by cases n <;> rfl
  cases n with
  | zero => rfl
  | succ n =>
    rw [behindUnsupported, Lines.getline_unended clear]
    dsimp only
    split
    · rfl
    split
    · exact none n
    · rfl

/-- The outcome of the reply loop: the first callbacks are answered, each on account of
a line, and the rest stay. -/
structure Matched (c : Client) (s : List InByte) (l : Looped) (front : List (Entry × List InByte))
    (rest : List Entry) : Prop where
  callbacks : c.outTmpBuf.callbacks = front.map Prod.fst ++ rest
  client : l.client =
    { c with inBuf := l.client.inBuf, outTmpBuf := { c.outTmpBuf with callbacks := rest } }
  output : l.output = front.flatMap fun x => invoke x.1.callback true x.2 c
  data : l.client.inBuf.data = c.inBuf.data
  lines : ∀ x ∈ front, ∀ b ∈ x.2, b ∈ c.inBuf.data ∨ b ∈ s
  queued : l.exit ≠ .emptyQueue
  left : ∀ i left, l.exit = .leave i left → i = rest.length

theorem nextLine_data (eof : Bool) (s : List InByte) (b : Streambuf InByte) :
    (nextLine eof s b).2.2.data = b.data := by
  rw [nextLine]
  split <;> rfl

theorem nextLine_line (eof : Bool) (s : List InByte) (b : Streambuf InByte) :
    ∀ x ∈ (nextLine eof s b).1, x ∈ b.data ∨ x ∈ s := by
  intro x member
  rw [nextLine] at member
  split at member
  · exact .inr member
  · apply Or.inl
    apply b.unread_suffix.subset
    exact (List.takeWhile_sublist _).subset member

private theorem Matched.stay {c d : Client} {s : List InByte} {exit : LoopExit}
    (same : d = { c with inBuf := d.inBuf }) (data : d.inBuf.data = c.inBuf.data)
    (queued : exit ≠ .emptyQueue)
    (left : ∀ i left, exit = .leave i left → i = c.outTmpBuf.callbacks.length) :
    Matched c s ⟨d, [], exit⟩ [] c.outTmpBuf.callbacks where
  callbacks := rfl
  client := same
  output := rfl
  data := data
  lines := fun _ member => by cases member
  queued := queued
  left := left

private theorem replyLoop_matched_aux (i left : Nat) (eof : Bool) (s : List InByte) (c : Client)
    (count : c.outTmpBuf.callbacks.length = i) :
    ∃ front rest, Matched c s (replyLoop i left eof s c) front rest := by
  induction i generalizing left eof s c with
  | zero =>
    refine ⟨[], _, .stay rfl rfl (by simp) ?_⟩
    intro j _ same
    cases same
    exact count.symm
  | succ i ih =>
    have leaves (left : Nat) : ∀ j k, LoopExit.leave (i + 1) left = .leave j k →
        j = c.outTmpBuf.callbacks.length := by
      intro j k same
      cases same
      exact count.symm
    rw [replyLoop]
    split
    -- Too few bytes for a reply.
    · exact ⟨[], _, .stay rfl rfl (by simp) (leaves left)⟩
    have data := nextLine_data eof s c.inBuf
    have line := nextLine_line eof s c.inBuf
    generalize nextLine eof s c.inBuf = next at data line
    obtain ⟨s', eof', inBuf⟩ := next
    dsimp only at data line ⊢
    split
    next first last _ _ =>
      split
      -- The line has not ended yet.
      · exact ⟨[], _, .stay rfl data (by simp) (leaves left)⟩
      split
      -- A reply of an unsupported type.
      · exact ⟨[], _, .stay rfl data (by simp) (by simp)⟩
      -- The first callback is answered, and the loop goes on with the others.
      split
      next none => simp [none] at count
      next entry others queue =>
        obtain ⟨front, rest, matched⟩ := ih (Streambuf.sizeSub left (s'.length + 1)) eof' s'
          { c with inBuf := inBuf, outTmpBuf := { c.outTmpBuf with callbacks := others } }
          (by simpa [queue] using count)
        refine ⟨(entry, s') :: front, rest, ?_, matched.client, ?_, matched.data.trans data, ?_,
          matched.queued, matched.left⟩
        · simpa [queue] using matched.callbacks
        · rw [List.flatMap_cons, matched.output]
          rfl
        · intro x member b inside
          rcases List.mem_cons.mp member with rfl | later
          · exact line b inside
          · rcases matched.lines x later b inside with old | old
            · exact .inl (data ▸ old)
            · exact line b old
    -- An empty line has no last character.
    next => exact ⟨[], _, .stay rfl data (by simp) (by simp)⟩

/-- The loop as `handle_read` enters it. -/
theorem replyLoop_matched (left : Nat) (c : Client) : ∃ front rest,
    Matched c [] (replyLoop c.outTmpBuf.callbacks.length left false [] c) front rest :=
  replyLoop_matched_aux _ left false [] c rfl

/-- A stream that has met the end of the buffer stays there. -/
private theorem replyLoop_ended (i left : Nat) (s : List InByte) (c : Client) :
    (replyLoop i left true s c).client.inBuf = c.inBuf := by
  induction i generalizing left s c with
  | zero => rfl
  | succ i ih =>
    rw [replyLoop]
    split
    · rfl
    simp only [nextLine, if_true]
    split
    · split
      · rfl
      split
      · rfl
      split
      · rfl
      · exact ih _ _ _
    · rfl

theorem sizeSub_counts {left n k : Nat} (counts : left % Streambuf.sizes = n % Streambuf.sizes)
    (le : k ≤ n) : Streambuf.sizeSub left k = (n - k) % Streambuf.sizes := by
  unfold Streambuf.sizeSub Streambuf.sizes at *
  omega

/-- Without a line end in the buffer the loop reads all of it. -/
private theorem replyLoop_unended {i left : Nat} {s : List InByte} {c : Client} (enough : 4 ≤ left)
    (clear : ∀ b ∈ c.inBuf.unread, isLf b = false) :
    (replyLoop (i + 1) left false s c).client.inBuf.unread = [] := by
  obtain ⟨-, ended, read⟩ := Streambuf.getline_unended clear
  rw [replyLoop]
  rw [if_neg (by omega)]
  simp only [nextLine, Bool.false_eq_true, if_false]
  split
  · split
    · exact read
    split
    · exact read
    split
    · exact read
    · rw [ended, replyLoop_ended]
      exact read
  · exact read

theorem nextLine_ended {s line rest : List InByte} {lf : InByte} {b : Streambuf InByte}
    (found : b.unread = line ++ lf :: rest) (clear : ∀ x ∈ line, isLf x = false)
    (ends : isLf lf = true) : nextLine false s b = (line, false, (b.getline isLf).2.2) := by
  obtain ⟨cut, fed, -⟩ := Streambuf.getline_ended found clear ends
  simp [nextLine, Prod.ext_iff, cut, fed]

theorem nextLine_unended {s : List InByte} {b : Streambuf InByte}
    (clear : ∀ x ∈ b.unread, isLf x = false) :
    nextLine false s b = (b.unread, true, (b.getline isLf).2.2) := by
  obtain ⟨whole, ended, -⟩ := Streambuf.getline_unended clear
  simp [nextLine, Prod.ext_iff, whole, ended]

/-- The loop answers a reply and goes on behind it. -/
theorem replyLoop_reply {i left : Nat} {eof ended : Bool} {s line : List InByte} {c : Client}
    {inBuf : Streambuf InByte} {entry : Entry} {others : List Entry} (enough : 4 ≤ left)
    (next : nextLine eof s c.inBuf = (line, ended, inBuf)) (supported : Supported line)
    (queue : c.outTmpBuf.callbacks = entry :: others) :
    replyLoop (i + 1) left eof s c =
      let later := replyLoop i (Streambuf.sizeSub left (line.length + 1)) ended line
        (c.matched inBuf others)
      { later with output := invoke entry.callback true line c ++ later.output } := by
  obtain ⟨closed, kind⟩ := supported
  obtain ⟨last, final, cr⟩ := Option.map_eq_some_iff.mp closed
  obtain ⟨first, start⟩ : ∃ first, line.head? = some first := by
    cases line with
    | nil => cases final
    | cons first _ => exact ⟨first, rfl⟩
  rw [replyLoop, if_neg (by omega), next]
  simp only [start, final, cr, queue]
  rw [if_neg (by simp), if_neg]
  · rfl
  · rintro ⟨colon, notPong⟩
    rcases kind with kind | kind
    · simp [start, colon] at kind
    · exact notPong kind

/-- The loop reads a line of another kind, and gives up if it is a whole reply. -/
private theorem replyLoop_other {i left : Nat} {s line rest : List InByte} {lf : InByte} {c : Client}
    (enough : 4 ≤ left) (found : c.inBuf.unread = line ++ lf :: rest)
    (clear : ∀ b ∈ line, isLf b = false) (ends : isLf lf = true) (other : ¬ Supported line)
    (gaveUp : (replyLoop (i + 1) left false s c).exit = .badReply) :
    line.getLast?.map InByte.char = some '\r' ∧
      (replyLoop (i + 1) left false s c).client.inBuf.unread = rest := by
  obtain ⟨-, -, behind⟩ := Streambuf.getline_ended found clear ends
  rw [replyLoop, if_neg (by omega), nextLine_ended found clear ends] at gaveUp ⊢
  dsimp only at gaveUp ⊢
  split at gaveUp
  next first last start final =>
    split at gaveUp
    · cases gaveUp
    next cr =>
      have closed : line.getLast?.map InByte.char = some '\r' := by simpa [final] using cr
      rw [if_neg cr]
      split at gaveUp
      next kind =>
        rw [if_pos kind]
        exact ⟨closed, behind⟩
      next kind =>
        refine absurd ⟨closed, ?_⟩ other
        by_cases colon : first.char = ':'
        · exact .inl (by simp [start, colon])
        · exact .inr (not_not.mp fun notPong => kind ⟨colon, notPong⟩)
  next => cases gaveUp

/-- Where the loop gives up on a reply, it stands behind it. -/
theorem replyLoop_gaveUp (i left : Nat) (s : List InByte) (c : Client)
    (count : c.outTmpBuf.callbacks.length = i)
    (counts : left % Streambuf.sizes = c.inBuf.unread.length % Streambuf.sizes)
    (bound : left ≤ c.inBuf.unread.length) (gaveUp : (replyLoop i left false s c).exit = .badReply) :
    (replyLoop i left false s c).client.inBuf.unread = behindUnsupported i c.inBuf.unread := by
  induction i generalizing left s c with
  | zero => simp [replyLoop] at gaveUp
  | succ i ih =>
    by_cases few : left < 4
    · simp [replyLoop, few] at gaveUp
    have enough : 4 ≤ left := by omega
    rcases @Lines.ended_or_unended _ isLf c.inBuf.unread with
      clear | ⟨line, lf, rest, found, clear, ends⟩
    · rw [replyLoop_unended enough clear, behindUnsupported_unended clear]
    have long : ¬ (line ++ lf :: rest).length < 4 := by
      rw [← found]
      omega
    by_cases supported : Supported line
    · cases queue : c.outTmpBuf.callbacks with
      | nil => simp [queue] at count
      | cons entry others =>
        obtain ⟨-, -, behind⟩ := Streambuf.getline_ended found clear ends
        have less := sizeSub_counts counts (k := line.length + 1) (by simp [found])
        rw [found, List.length_append, List.length_cons,
          show line.length + (rest.length + 1) - (line.length + 1) = rest.length by omega] at less
        rw [replyLoop_reply enough (nextLine_ended found clear ends) supported queue] at gaveUp ⊢
        have later := ih (Streambuf.sizeSub left (line.length + 1)) line
          (c.matched (c.inBuf.getline isLf).2.2 others)
          (by simpa [queue] using count) (by rw [less, Client.matched_inBuf, behind, Nat.mod_mod])
          (by rw [less, Client.matched_inBuf, behind]; exact Nat.mod_le _ _) gaveUp
        rw [Client.matched_inBuf, behind] at later
        simp only [found, behindUnsupported, Lines.getline_ended clear ends]
        rw [if_neg (not_or.mpr ⟨long, not_not.mpr supported.1⟩), if_pos supported]
        exact later
    · obtain ⟨closed, behind⟩ := replyLoop_other enough found clear ends supported gaveUp
      simp only [found, behindUnsupported, Lines.getline_ended clear ends]
      rw [behind, if_neg (not_or.mpr ⟨long, not_not.mpr closed⟩), if_neg supported]

/-! ### Reading -/

def matchOutput (c : Client) (front : List (Entry × List InByte)) : List Effect :=
  front.flatMap fun x => invoke x.1.callback true x.2 c

/-- What is answered by a call of `handle_read`, and from which bytes. -/
structure Answered (c : Client) (inBuf : Streambuf InByte) (front : List (Entry × List InByte))
    (rest : List Entry) : Prop where
  callbacks : c.outTmpBuf.callbacks = front.map Prod.fst ++ rest
  data : inBuf.data = c.inBuf.data
  lines : ∀ x ∈ front, ∀ b ∈ x.2, b ∈ c.inBuf.data

/-- How `handle_read` ends, when it has read something and ends normally. -/
inductive Handled (c : Client) : Result → Prop
  | more {inBuf : Streambuf InByte} {front : List (Entry × List InByte)} {rest : List Entry} :
      Answered c inBuf front rest → rest ≠ [] →
      Handled c (.emit (c.matched inBuf rest) (matchOutput c front ++ [.asyncRead]))
  | settled {inBuf : Streambuf InByte} {front : List (Entry × List InByte)} :
      Answered c inBuf front [] → c.outBuf.callbacks = [] →
      Handled c (.emit { c.matched inBuf [] with busy := false }
        (matchOutput c front ++ [.unlock c.busy]))
  | relaunched {inBuf : Streambuf InByte} {front : List (Entry × List InByte)} :
      Answered c inBuf front [] → c.outBuf.callbacks ≠ [] →
      Handled c (.emit (c.matched inBuf []).launched (matchOutput c front ++ launchOutput c.outBuf))
  | gaveUp {inBuf : Streambuf InByte} {front : List (Entry × List InByte)} {rest : List Entry}
      {closing : List Effect} : Answered c inBuf front rest →
      inBuf.unread = behindUnsupported c.outTmpBuf.callbacks.length c.inBuf.unread →
      (∀ effect ∈ closing, effect.Idle) →
      Handled c (.emit (c.matched inBuf rest).lost (matchOutput c front ++
        (closing ++ dropOutput c rest ++ [.unlock c.busy, .asyncResolve c.host c.port])))

/-- How `handle_read` goes on with the queue that is left, once it has left its loop. -/
inductive GoesOn (c : Client) (inBuf : Streambuf InByte) : List Entry → (Client → Result) → Prop
  | read {rest : List Entry} : rest ≠ [] → GoesOn c inBuf rest read
  | settle : c.outBuf.callbacks = [] →
      GoesOn c inBuf [] fun c => .emit { c with busy := false } [.unlock c.busy]
  | write : c.outBuf.callbacks ≠ [] → GoesOn c inBuf [] (write true)
  | reconnect {rest : List Entry} :
      inBuf.unread = behindUnsupported c.outTmpBuf.callbacks.length c.inBuf.unread →
      GoesOn c inBuf rest reconnect
  | fail {rest : List Entry} : GoesOn c inBuf rest fun c => .fail c .outOfRange

theorem handleRead_goesOn (c : Client) : ∃ inBuf front rest next,
    Answered c inBuf front rest ∧ GoesOn c inBuf rest next ∧ handleRead true c =
      (Outcome.emit (c.matched inBuf rest) (matchOutput c front)).andThen next := by
  obtain ⟨front, rest, matched⟩ := replyLoop_matched c.inBuf.size c
  have behind := replyLoop_gaveUp c.outTmpBuf.callbacks.length c.inBuf.size [] c rfl
    (by rw [Streambuf.length_unread]) (by rw [Streambuf.length_unread])
  rw [handleRead]
  rw [if_neg (by simp)]
  generalize replyLoop c.outTmpBuf.callbacks.length c.inBuf.size false [] c = loop at *
  obtain ⟨after, out, exit⟩ := loop
  obtain ⟨callbacks, client, output, data, lines, queued, left⟩ := matched
  dsimp only at client output data queued left behind ⊢
  have answered (inBuf : Streambuf InByte) (same : inBuf.data = after.inBuf.data) :
      Answered c inBuf front rest :=
    ⟨callbacks, same.trans data, fun x member b inside => by simpa using lines x member b inside⟩
  rw [client, output]
  cases exit with
  | outOfRange => exact ⟨after.inBuf, front, rest, _, answered _ rfl, .fail, rfl⟩
  | emptyQueue => exact absurd rfl queued
  | badReply => exact ⟨after.inBuf, front, rest, _, answered _ rfl, .reconnect (behind rfl), rfl⟩
  | leave i bytes =>
    have count := left i bytes rfl
    subst count
    dsimp only
    -- What the loop has not counted off is given back.
    refine ⟨after.inBuf.consume (Streambuf.sizeSub after.inBuf.size bytes), front, rest, ?_⟩
    have inside := answered (after.inBuf.consume (Streambuf.sizeSub after.inBuf.size bytes)) rfl
    by_cases more : 0 < rest.length
    · refine ⟨_, inside, .read (List.ne_nil_of_length_pos more), ?_⟩
      simp only [Outcome.emit_andThen, if_pos more]
      rfl
    · have done : rest = [] := List.eq_nil_of_length_eq_zero (by omega)
      subst done
      cases waiting : c.outBuf.callbacks with
      | nil =>
        refine ⟨_, inside, .settle waiting, ?_⟩
        simp only [Outcome.emit_andThen, if_neg more, waiting, List.isEmpty_nil, if_true]
        rfl
      | cons _ _ =>
        refine ⟨_, inside, .write (by simp [waiting]), ?_⟩
        simp only [Outcome.emit_andThen, if_neg more, waiting, List.isEmpty_cons,
          Bool.false_eq_true, if_false]
        rfl

theorem handleRead_cases (c : Client) (fine : (handleRead true c).fault = none) :
    Handled c (handleRead true c) := by
  obtain ⟨inBuf, front, rest, next, answered, goesOn, shape⟩ := handleRead_goesOn c
  rw [shape] at fine ⊢
  cases goesOn with
  | read more => exact .more answered more
  | settle waiting => exact .settled answered waiting
  | write waiting =>
    rw [Outcome.emit_andThen, write_locked]
    exact .relaunched answered waiting
  | reconnect behind =>
    obtain ⟨closing, idle, lost⟩ := reconnect_eq (c.matched inBuf rest)
    rw [Outcome.emit_andThen, lost]
    exact .gaveUp answered behind idle
  | fail => simp at fine

end Eiptnd.Redis
