import Mathlib.Data.Nat.Bitwise
import Exocore.LibRun
import Exocore.TransportWire

/-! The messages and the stream that are read from a substream are those that were sent on it. -/
namespace Exocore.Transport

open Chunks

theorem decodeMsgLen_encodeMsgLen {len : ℕ} (h : len ≤ maxMessageSize) (hasStream : Bool) :
    decodeMsgLen (encodeMsgLen len hasStream) = some (len, hasStream) := by
  have hmax : maxMessageSize < streamMask := by decide
  have hlen : len < 2 ^ 31 := lt_of_le_of_lt h hmax
  have hmod : len % 2 ^ 31 = len := Nat.mod_eq_of_lt hlen
  have hread (n : ℕ) (hn : n < 2 ^ 32) : Core.readLe32 (Core.le32 n) = some n := by
    have happend := Core.readLe32_le32_append n hn []
    rwa [List.append_nil] at happend
  cases hasStream with
  | false =>
    have hbit : len &&& streamMask = 0 := by
      rw [streamMask, Nat.and_two_pow, Nat.testBit_lt_two_pow hlen]
      rfl
    rw [decodeMsgLen, encodeMsgLen, if_neg Bool.false_ne_true, hread len (by omega), Option.map_some,
      hbit, if_neg (by decide)]
  | true =>
    have hsum : len ||| streamMask = streamMask + len := by
      have hor := Nat.two_pow_add_eq_or_of_lt hlen 1
      rw [mul_one] at hor
      rw [Nat.or_comm, streamMask]
      exact hor.symm
    have hbit : (streamMask + len) &&& streamMask = streamMask := by
      rw [streamMask, Nat.and_two_pow, Nat.testBit_two_pow_add_eq, Nat.testBit_lt_two_pow hlen]
      rfl
    have hrest : (streamMask + len) &&& (streamMask - 1) = len := by
      rw [streamMask, Nat.and_two_pow_sub_one_eq_mod, Nat.add_mod_left, hmod]
    rw [decodeMsgLen, encodeMsgLen, if_pos rfl, hsum, hread _ (by rw [streamMask]; omega),
      Option.map_some, if_pos hbit, hrest]

namespace MessageData

/-- A message as it stands on the wire, without its stream. -/
def framed (m : MessageData) : List UInt8 :=
  encodeMsgLen m.message.length m.stream.isSome ++ m.message

def received (m : MessageData) : ReceivedMessage := ⟨m.message, m.stream.isSome⟩

/-- The stream behind these messages. -/
def lastStream (sent : List MessageData) : Option (List UInt8) := sent.getLast?.bind stream

theorem stream_of_more {m next : MessageData} {rest : List MessageData}
    (h : ∀ m' ∈ (m :: next :: rest).dropLast, m'.stream = none) : m.stream = none := by
  apply h
  rw [List.dropLast_cons_cons]
  exact List.mem_cons_self

theorem streams_of_more {m next : MessageData} {rest : List MessageData}
    (h : ∀ m' ∈ (m :: next :: rest).dropLast, m'.stream = none) :
    ∀ m' ∈ (next :: rest).dropLast, m'.stream = none := by
  intro m' hm'
  apply h
  rw [List.dropLast_cons_cons]
  exact List.mem_cons_of_mem m hm'

theorem lastStream_more (m next : MessageData) (rest : List MessageData) :
    lastStream (m :: next :: rest) = lastStream (next :: rest) := by
  rw [lastStream, lastStream, List.getLast?_cons_cons]

end MessageData

open MessageData

namespace Socket

theorem sendMessage_plain (socket : Socket) {m : MessageData} (h : m.stream = none) :
    socket.sendMessage m = (true, socket.write m.framed) := by
  rw [sendMessage, h, framed, h, write, write, write]
  dsimp only
  rw [List.append_assoc]

theorem sendMessage_stream (socket : Socket) {m : MessageData} {stream : List UInt8}
    (h : m.stream = some stream) :
    socket.sendMessage m = (false, { (socket.write m.framed).write stream with closed := true }) := by
  rw [sendMessage, h, framed, h]
  simp only [write, List.append_assoc]

/-- The messages one after the other, and the stream behind them. -/
theorem sendMessages_eq (socket : Socket) (sent : List MessageData)
    (h : ∀ m ∈ sent.dropLast, m.stream = none) :
    socket.sendMessages sent =
      ⟨socket.written ++ (sent.flatMap framed ++ (lastStream sent).getD []),
        socket.closed || (lastStream sent).isSome⟩ := by
  induction sent generalizing socket with
  | nil =>
    have hwritten : socket.written ++ ([].flatMap framed ++ (lastStream []).getD []) =
        socket.written := List.append_nil _
    rw [hwritten, sendMessages]
    exact congrArg (Socket.mk socket.written) (Bool.or_false _).symm
  | cons m rest ih =>
    cases rest with
    | nil =>
      have hframed : [m].flatMap framed = m.framed := List.append_nil _
      have hlast : lastStream [m] = m.stream := rfl
      rw [hframed, hlast, sendMessages]
      cases hstream : m.stream with
      | none =>
        rw [sendMessage_plain socket hstream]
        dsimp only
        rw [sendMessages, write, Option.getD_none, List.append_nil, Option.isSome_none,
          Bool.or_false]
      | some stream =>
        rw [sendMessage_stream socket hstream]
        dsimp only
        rw [write, write, Option.getD_some, List.append_assoc, Option.isSome_some, Bool.or_true]
    | cons next rest =>
      have hflat : (m :: next :: rest).flatMap framed =
          m.framed ++ (next :: rest).flatMap framed := List.flatMap_cons
      rw [sendMessages, sendMessage_plain socket (stream_of_more h)]
      dsimp only
      rw [ih _ (streams_of_more h), lastStream_more, hflat, write, List.append_assoc,
        List.append_assoc]

end Socket

namespace WrappedStream

theorem readNext_message {m : MessageData} (hsize : m.message.length ≤ maxMessageSize)
    (chunks : List (Chunk UInt8)) (closed : Bool) (behind : List UInt8)
    (hitems : Chunks.items chunks = m.framed ++ behind) :
    ∃ rest, readNext ⟨chunks, closed, false⟩ =
        .message m.received ⟨rest, closed, m.stream.isSome⟩ ∧ Chunks.items rest = behind := by
  rw [framed, List.append_assoc] at hitems
  obtain ⟨afterSize, hreadSize, hafterSize⟩ := readExact_append _ _ chunks hitems
  obtain ⟨rest, hreadMessage, hrest⟩ := readExact_append _ _ afterSize hafterSize
  refine ⟨rest, ?_, hrest⟩
  have hfour : (encodeMsgLen m.message.length m.stream.isSome).length = 4 := Core.le32_length _
  rw [hfour] at hreadSize
  have hnew : readNewMessage ⟨chunks, closed, false⟩ =
      .ok (m.received, ⟨rest, closed, m.stream.isSome⟩) := by
    have hfirst : readExact ⟨chunks, closed, false⟩ 4 =
        .ok (encodeMsgLen m.message.length m.stream.isSome, ⟨afterSize, closed, false⟩) := by
      rw [readExact, hreadSize]
    have hsecond : readExact ⟨afterSize, closed, false⟩ m.message.length =
        .ok (m.message, ⟨rest, closed, false⟩) := by
      rw [readExact, hreadMessage]
    have hdecode := decodeMsgLen_encodeMsgLen hsize m.stream.isSome
    have hfits : ¬ maxMessageSize < m.message.length := Nat.not_lt.mpr hsize
    rw [readNewMessage, hfirst]
    simp only [bind, Except.bind, pure, Except.pure, hdecode, if_neg hfits, hsecond]
    rw [received]
    cases m.stream with
    | none => rfl
    | some stream => rfl
  rw [readNext, if_neg Bool.false_ne_true, hnew]

/-- The messages are read one after the other, and the stream behind them is left. -/
theorem readMessages_sent (sent : List MessageData)
    (hsizes : ∀ m ∈ sent, m.message.length ≤ maxMessageSize)
    (hstreams : ∀ m ∈ sent.dropLast, m.stream = none) (chunks : List (Chunk UInt8)) (closed : Bool)
    (behind : List UInt8) (hitems : Chunks.items chunks = sent.flatMap framed ++ behind) :
    ∃ rest, readMessages sent.length (.new chunks closed) =
        some (sent.map received, ⟨rest, closed, (lastStream sent).isSome⟩) ∧
      Chunks.items rest = behind := by
  induction sent generalizing chunks with
  | nil => exact ⟨chunks, rfl, hitems⟩
  | cons m rest ih =>
    have hsize := hsizes m List.mem_cons_self
    rw [List.flatMap_cons, List.append_assoc] at hitems
    obtain ⟨chunks', hread, hitems'⟩ := readNext_message hsize chunks closed _ hitems
    rw [List.length_cons, readMessages, new, hread]
    dsimp only
    cases rest with
    | nil => exact ⟨chunks', rfl, hitems'⟩
    | cons next rest =>
      have hnone : m.stream.isSome = false := by
        rw [stream_of_more hstreams]
        rfl
      obtain ⟨chunks'', hmore, hbehind⟩ := ih (fun m' hm' => hsizes m' (List.mem_cons_of_mem m hm'))
        (streams_of_more hstreams) chunks' hitems'
      refine ⟨chunks'', ?_, hbehind⟩
      rw [hnone, lastStream_more]
      rw [new] at hmore
      rw [hmore]
      rfl

end WrappedStream

namespace BytesChannel
variable {c : BytesChannel}

/-- What a receiver has still to read. -/
def waiting (c : BytesChannel) : List UInt8 := c.reserve.getD [] ++ c.queue.flatten

/-- An empty chunk would be read as the end. -/
structure Filled (c : BytesChannel) : Prop where
  reserve : c.reserve ≠ some []
  queue : ∀ bytes ∈ c.queue, bytes ≠ []

/-- What a read that gives bytes leaves. -/
structure Gives (c : BytesChannel) (bytes : List UInt8) (c' : BytesChannel) : Prop where
  some : bytes ≠ []
  rest : bytes ++ c'.waiting = c.waiting
  filled : c'.Filled
  sender : c'.senderDropped = c.senderDropped
  receiver : c'.receiverDropped = c.receiverDropped

theorem giveOut_gives {size : ℕ} (hsize : 0 < size) {bytes : List UInt8} (hbytes : bytes ≠ [])
    (hqueue : ∀ bytes ∈ c.queue, bytes ≠ []) : ∃ first c', c.giveOut size bytes = (some first, c') ∧
      first ≠ [] ∧ first ++ c'.waiting = bytes ++ c.queue.flatten ∧ c'.Filled ∧
      c'.senderDropped = c.senderDropped ∧ c'.receiverDropped = c.receiverDropped := by
  rw [giveOut]
  split_ifs with hsplit
  · refine ⟨_, _, rfl, ?_, ?_, ⟨?_, hqueue⟩, rfl, rfl⟩
    · intro hnil
      rcases List.take_eq_nil_iff.mp hnil with hzero | hnone
      · omega
      · exact hbytes hnone
    · rw [waiting, Option.getD_some, ← List.append_assoc, List.take_append_drop]
    · intro hnil
      have hshort := List.drop_eq_nil_iff.mp (Option.some.inj hnil)
      omega
  · exact ⟨bytes, _, rfl, hbytes, rfl, ⟨(fun h => by cases h), hqueue⟩, rfl, rfl⟩

/-- A read waits, is at the end, or gives bytes. -/
theorem pollRead_cases (h : c.Filled) {size : ℕ} (hsize : 0 < size) :
    (c.waiting = [] ∧ c.senderDropped = false ∧ c.pollRead size = (none, c)) ∨
      (c.waiting = [] ∧ c.senderDropped = true ∧ c.pollRead size = (some [], c)) ∨
      ∃ bytes c', c.pollRead size = (some bytes, c') ∧ c.Gives bytes c' := by
  rw [pollRead]
  cases hreserve : c.reserve with
  | some reserve =>
    have hsome : reserve ≠ [] := by
      rintro rfl
      exact h.reserve hreserve
    obtain ⟨first, c', hgive, hfirst, hrest, hfilled, hsender, hreceiver⟩ :=
      giveOut_gives hsize hsome h.queue
    refine Or.inr (Or.inr ⟨first, c', hgive, hfirst, ?_, hfilled, hsender, hreceiver⟩)
    rw [hrest, waiting, hreserve, Option.getD_some]
  | none =>
    cases hqueue : c.queue with
    | nil =>
      have hwaiting : c.waiting = [] := by
        rw [waiting, hreserve, hqueue]
        rfl
      cases hsender : c.senderDropped with
      | false => exact Or.inl ⟨hwaiting, rfl, rfl⟩
      | true => exact Or.inr (Or.inl ⟨hwaiting, rfl, rfl⟩)
    | cons bytes queue =>
      have hsome : bytes ≠ [] := h.queue bytes (hqueue ▸ List.mem_cons_self)
      have hothers : ∀ bytes ∈ queue, bytes ≠ [] := by
        intro other hmem
        exact h.queue other (hqueue ▸ List.mem_cons_of_mem bytes hmem)
      obtain ⟨first, c', hgive, hfirst, hrest, hfilled, hsender, hreceiver⟩ :=
        giveOut_gives (c := { c with queue := queue }) hsize hsome hothers
      refine Or.inr (Or.inr ⟨first, c', hgive, hfirst, ?_, hfilled, hsender, hreceiver⟩)
      rw [hrest, waiting, hreserve, hqueue]
      rfl

end BytesChannel

namespace Streaming
variable {s : Streaming} {streamed : List UInt8}

/-- What the copying has not yet written. -/
def unwritten (s : Streaming) : List UInt8 := s.buffer ++ Chunks.items s.chunks

structure Sound (streamed : List UInt8) (s : Streaming) : Prop where
  part : s.received <+: streamed
  whole : s.channel.receiverDropped = false →
    s.received ++ (s.channel.waiting ++ s.unwritten) = streamed
  ended : s.ended = true → s.received = streamed
  filled : s.channel.Filled
  closed : s.closed = true
  sender : s.channel.senderDropped = s.copied.isSome
  copied : s.copied.isSome = true → s.channel.receiverDropped = false → s.unwritten = []

/-- What is still to be done. -/
def weight (s : Streaming) : ℕ :=
  3 * (Chunks.items s.chunks).length + 2 * s.buffer.length + s.channel.waiting.length +
    (!s.copied.isSome).toNat + (!s.ended).toNat + (!s.channel.receiverDropped).toNat

theorem sound_start (chunks : List (Chunk UInt8)) : Sound (Chunks.items chunks) (start chunks true) :=
  ⟨List.nil_prefix, fun _ => rfl, (fun h => by cases h),
    ⟨(fun h => by cases h), fun _ hmem => absurd hmem List.not_mem_nil⟩, rfl, rfl,
    (fun h => by cases h)⟩

/-- A round of the copying ends it, fills the buffer, waits or writes the buffer. -/
theorem copy_cases (s : Streaming) (hclosed : s.closed = true) :
    (∃ result, (s.channel.receiverDropped = false → s.unwritten = []) ∧ s.copy = s.finish result) ∨
      (∃ buffer chunks, s.buffer = [] ∧ buffer ≠ [] ∧
        buffer ++ Chunks.items chunks = Chunks.items s.chunks ∧
        s.copy = { s with buffer := buffer, chunks := chunks }) ∨
      (s.channel.queue ≠ [] ∧ s.channel.receiverDropped = false ∧ s.copy = s) ∨
      (s.buffer ≠ [] ∧ s.copy = { s with
        buffer := []
        channel := { s.channel with queue := s.channel.queue ++ [s.buffer] } }) := by
  rcases s with ⟨chunks, closed, buffer, channel, copied, received, ended⟩
  cases buffer with
  | nil =>
    cases chunks with
    | nil => exact Or.inl ⟨.ok (), fun _ => rfl, if_pos hclosed⟩
    | cons c rest =>
      exact Or.inr (Or.inl ⟨_, _, rfl, Chunks.read_ne_nil (by decide) c rest,
        Chunks.read_items copyBufferSize (c :: rest), rfl⟩)
  | cons b bytes =>
    unfold copy BytesChannel.pollWrite
    dsimp only
    cases hdropped : channel.receiverDropped with
    | true => exact Or.inl ⟨_, (fun hfalse => by cases hfalse), rfl⟩
    | false =>
      rw [if_neg Bool.false_ne_true]
      by_cases hfull : channel.bufSize < channel.queue.length
      · rw [if_pos hfull]
        have hqueue := List.ne_nil_of_length_pos (Nat.zero_lt_of_lt hfull)
        exact Or.inr (Or.inr (Or.inl ⟨hqueue, rfl, rfl⟩))
      · rw [if_neg hfull]
        dsimp only
        rw [List.drop_length]
        exact Or.inr (Or.inr (Or.inr ⟨List.cons_ne_nil b bytes, rfl⟩))

theorem Sound.copy (h : Sound streamed s) (hrunning : s.copied.isSome = false) :
    Sound streamed s.copy := by
  have hsender : s.channel.senderDropped = false := h.sender.trans hrunning
  rcases s.copy_cases h.closed with ⟨result, hrest, hcopy⟩ |
    ⟨buffer, chunks, hempty, -, hitems, hcopy⟩ | ⟨-, -, hcopy⟩ | ⟨hbuffer, hcopy⟩
  · rw [hcopy]
    exact ⟨h.part, h.whole, h.ended, ⟨h.filled.reserve, h.filled.queue⟩, h.closed, rfl,
      fun _ => hrest⟩
  · rw [hcopy]
    refine ⟨h.part, ?_, h.ended, h.filled, h.closed, h.sender, ?_⟩
    · intro hdropped
      have hwhole := h.whole hdropped
      rw [unwritten, hempty, List.nil_append, ← hitems] at hwhole
      exact hwhole
    · intro hsome
      exact absurd hsome (by rw [hrunning]; exact Bool.false_ne_true)
  · rw [hcopy]
    exact h
  · rw [hcopy]
    refine ⟨h.part, ?_, h.ended, ⟨h.filled.reserve, ?_⟩, h.closed, h.sender, ?_⟩
    · intro hdropped
      rw [← h.whole hdropped, BytesChannel.waiting, BytesChannel.waiting, unwritten, unwritten]
      simp only [List.flatten_append, List.flatten_singleton, List.nil_append, List.append_assoc]
    · intro bytes hmem
      rcases List.mem_append.mp hmem with hold | hlast
      · exact h.filled.queue bytes hold
      · rw [List.mem_singleton.mp hlast]
        exact hbuffer
    · intro hsome
      exact absurd hsome (by rw [hrunning]; exact Bool.false_ne_true)

theorem Sound.read (h : Sound streamed s) (hdropped : s.channel.receiverDropped = false) {size : ℕ}
    (hsize : 0 < size) : Sound streamed (s.read size) := by
  have hwhole := h.whole hdropped
  rw [Streaming.read]
  rcases BytesChannel.pollRead_cases h.filled hsize with ⟨-, -, hread⟩ | ⟨hnone, hsender, hread⟩ |
    ⟨bytes, channel, hread, hgives⟩
  · rw [hread]
    exact h
  · rw [hread]
    have hcopied : s.copied.isSome = true := h.sender.symm.trans hsender
    have hall : s.received = streamed := by
      rw [hnone, h.copied hcopied hdropped, List.append_nil, List.append_nil] at hwhole
      exact hwhole
    dsimp only
    rw [List.append_nil]
    exact ⟨h.part, h.whole, fun _ => hall, h.filled, h.closed, h.sender, h.copied⟩
  · rw [hread]
    have hmoved : s.received ++ bytes ++ (channel.waiting ++ s.unwritten) = streamed := by
      rw [← hwhole, ← hgives.rest]
      simp only [List.append_assoc]
    refine ⟨⟨_, hmoved⟩, fun _ => hmoved, ?_, hgives.filled, h.closed,
      hgives.sender.trans h.sender, fun hsome _ => h.copied hsome hdropped⟩
    intro hended
    have hempty : bytes.isEmpty = false := by
      rw [List.isEmpty_eq_false_iff]
      exact hgives.some
    change (s.ended || bytes.isEmpty) = true at hended
    rw [hempty, Bool.or_false] at hended
    -- behind the end nothing is left to read
    have hover := h.ended hended
    rw [← hover, List.append_assoc, List.append_right_eq_self] at hmoved
    exact absurd (List.append_eq_nil_iff.mp hmoved).1 hgives.some

theorem Sound.step (h : Sound streamed s) (event : StreamingEvent) :
    Sound streamed (s.step event) := by
  cases event with
  | copy =>
    rw [Streaming.step]
    split_ifs with hcopied
    · exact h
    · exact h.copy (Bool.eq_false_iff.mpr hcopied)
  | read size =>
    rw [Streaming.step]
    split_ifs with hdropped
    · exact h
    · exact h.read (Bool.eq_false_iff.mpr hdropped) size.pos
  | dropReceiver =>
    rw [Streaming.step]
    split_ifs with hdropped
    · exact h
    · exact ⟨h.part, (fun hfalse => by cases hfalse), h.ended,
        ⟨(fun hfalse => by cases hfalse), fun _ hmem => absurd hmem List.not_mem_nil⟩, h.closed,
        h.sender, fun _ hfalse => by cases hfalse⟩

theorem Sound.run (h : Sound streamed s) (events : List StreamingEvent) :
    Sound streamed (Run.exec Streaming.step s events) := by
  induction events generalizing s with
  | nil => exact h
  | cons event rest ih => exact ih (h.step event)

/-- Each step does nothing or leaves less to do. -/
theorem Sound.halts (h : Sound streamed s) (event : StreamingEvent) :
    s.step event = s ∨ (s.step event).weight < s.weight := by
  cases event with
  | copy =>
    rw [Streaming.step]
    split_ifs with hcopied
    · exact Or.inl rfl
    · rcases s.copy_cases h.closed with ⟨result, -, hcopy⟩ |
        ⟨buffer, chunks, hempty, hsome, hitems, hcopy⟩ | ⟨-, -, hcopy⟩ | ⟨hbuffer, hcopy⟩
      · right
        have hnone : s.copied.isSome = false := Bool.eq_false_iff.mpr hcopied
        rw [hcopy, weight, weight, hnone]
        simp only [finish, Option.isSome_some, BytesChannel.dropSender, BytesChannel.waiting,
          Bool.not_true, Bool.not_false, Bool.toNat_true, Bool.toNat_false]
        omega
      · right
        have hlength := congrArg List.length hitems
        have hpos := List.length_pos_of_ne_nil hsome
        rw [List.length_append] at hlength
        rw [hcopy, weight, weight, hempty]
        simp only [List.length_nil]
        omega
      · exact Or.inl hcopy
      · right
        have hpos := List.length_pos_of_ne_nil hbuffer
        rw [hcopy, weight, weight]
        simp only [BytesChannel.waiting, List.flatten_append, List.flatten_singleton,
          List.length_append, List.length_nil]
        omega
  | read size =>
    rw [Streaming.step]
    split_ifs with hdropped
    · exact Or.inl rfl
    · rw [Streaming.read]
      rcases BytesChannel.pollRead_cases h.filled size.pos with ⟨-, -, hread⟩ |
        ⟨-, -, hread⟩ | ⟨bytes, channel, hread, hgives⟩
      · rw [hread]
        exact Or.inl rfl
      · rw [hread]
        dsimp only
        rw [List.append_nil, List.isEmpty_nil, Bool.or_true]
        cases hended : s.ended with
        | true =>
          left
          rw [← hended]
        | false =>
          right
          rw [weight, weight, hended, Bool.not_true, Bool.not_false, Bool.toNat_true,
            Bool.toNat_false]
          dsimp only
          omega
      · right
        have hlength := congrArg List.length hgives.rest
        have hpos := List.length_pos_of_ne_nil hgives.some
        rw [List.length_append] at hlength
        have hempty : bytes.isEmpty = false := by
          rw [List.isEmpty_eq_false_iff]
          exact hgives.some
        rw [hread]
        dsimp only
        rw [weight, weight]
        dsimp only
        rw [hgives.receiver, hempty, Bool.or_false]
        omega
  | dropReceiver =>
    rw [Streaming.step]
    split_ifs with hdropped
    · exact Or.inl rfl
    · right
      have hopen : s.channel.receiverDropped = false := Bool.eq_false_iff.mpr hdropped
      rw [weight, weight, hopen]
      simp only [BytesChannel.dropReceiver, BytesChannel.waiting, Option.getD_none,
        List.flatten_nil, List.append_nil, List.length_nil, Bool.not_true, Bool.not_false,
        Bool.toNat_true, Bool.toNat_false]
      omega

/-- While its reader has not read its end and is not dropped, a read or the copying gets on. -/
theorem Sound.goesOn (h : Sound streamed s) (hended : s.ended = false)
    (hdropped : s.channel.receiverDropped = false) (size : ℕ+) :
    s.step .copy ≠ s ∨ s.step (.read size) ≠ s := by
  have hread : s.step (.read size) = s.read size := if_neg (by rw [hdropped]; exact Bool.false_ne_true)
  rcases BytesChannel.pollRead_cases h.filled size.pos with ⟨hnone, hsender, hpoll⟩ |
    ⟨-, -, hpoll⟩ | ⟨bytes, channel, hpoll, hgives⟩
  · left
    have hrunning : s.copied.isSome = false := h.sender.symm.trans hsender
    have hcopy : s.step .copy = s.copy := if_neg (by rw [hrunning]; exact Bool.false_ne_true)
    rw [hcopy]
    rcases s.copy_cases h.closed with ⟨result, -, hcase⟩ | ⟨buffer, chunks, hempty, hsome, -, hcase⟩ |
      ⟨hqueue, -, -⟩ | ⟨hbuffer, hcase⟩
    · intro hsame
      rw [hcase] at hsame
      have hcopied := congrArg (fun t => t.copied.isSome) hsame
      rw [hrunning] at hcopied
      cases hcopied
    · intro hsame
      rw [hcase] at hsame
      have hbuffers := congrArg Streaming.buffer hsame
      exact hsome (hbuffers.trans hempty)
    · have hflat := (List.append_eq_nil_iff.mp hnone).2
      obtain ⟨bytes, hmem⟩ := List.exists_mem_of_ne_nil _ hqueue
      exact absurd (List.flatten_eq_nil_iff.mp hflat bytes hmem) (h.filled.queue bytes hmem)
    · intro hsame
      rw [hcase] at hsame
      exact hbuffer (congrArg Streaming.buffer hsame).symm
  · right
    rw [hread, Streaming.read, hpoll]
    intro hsame
    have hends := congrArg Streaming.ended hsame
    dsimp only at hends
    rw [hended] at hends
    cases hends
  · right
    rw [hread, Streaming.read, hpoll]
    intro hsame
    have hmore := congrArg Streaming.received hsame
    exact hgives.some (List.append_right_eq_self.mp hmore)

end Streaming

/-- What the reader of a stream has at any time: a first part of the stream, and all of it once it
has read the end. It gets there, since each step that does something leaves less to do, and there
is one until then. -/
structure Delivers (streamed : List UInt8) (s : Streaming) : Prop where
  part : s.received <+: streamed
  whole : s.ended = true → s.received = streamed
  goesOn : s.ended = false → s.channel.receiverDropped = false → ∀ size,
    s.step .copy ≠ s ∨ s.step (.read size) ≠ s
  halts : ∀ event, s.step event = s ∨ (s.step event).weight < s.weight

/-- However what was sent is cut into chunks, the same messages are read, and behind them the bytes
of the stream, or nothing more. -/
theorem messages_survive (sent : List MessageData) (chunks : List (Chunk UInt8))
    (hsizes : ∀ m ∈ sent, m.message.length ≤ maxMessageSize)
    (hstreams : ∀ m ∈ sent.dropLast, m.stream = none)
    (hwire : Chunks.items chunks = (Socket.new.sendMessages sent).written) :
    ∃ s, WrappedStream.readMessages sent.length
        (.new chunks (Socket.new.sendMessages sent).closed) = some (sent.map received, s) ∧
      match lastStream sent with
      | none => s.readNext = .stopped .pending
      | some streamed => ∃ streaming, s.readNext = .copying streaming ∧
        ∀ events, Delivers streamed (Run.exec Streaming.step streaming events) := by
  have hsent := Socket.sendMessages_eq .new sent hstreams
  have hclosed : (Socket.new.sendMessages sent).closed = (lastStream sent).isSome := by
    rw [hsent]
    rfl
  have hitems : Chunks.items chunks = sent.flatMap framed ++ (lastStream sent).getD [] := by
    rw [hwire, hsent]
    rfl
  obtain ⟨rest, hread, hrest⟩ := WrappedStream.readMessages_sent sent hsizes hstreams chunks
    (Socket.new.sendMessages sent).closed _ hitems
  refine ⟨_, hread, ?_⟩
  rw [hclosed]
  cases hlast : lastStream sent with
  | none =>
    rw [hlast] at hrest
    obtain rfl := (Chunks.items_eq_nil_iff rest).mp hrest
    rfl
  | some streamed =>
    rw [hlast] at hrest
    obtain rfl : Chunks.items rest = streamed := hrest
    refine ⟨.start rest true, rfl, ?_⟩
    intro events
    have hsound := (Streaming.sound_start rest).run events
    exact ⟨hsound.part, hsound.ended, hsound.goesOn, hsound.halts⟩

def twoMessages : List MessageData := [⟨[1, 2], none⟩, ⟨[3], some [4, 5, 6]⟩]

def twoMessagesChunks : List (Chunk UInt8) :=
  [⟨[2, 0, 0], List.cons_ne_nil _ _⟩, ⟨[0, 1, 2, 1, 0, 0, 128, 3, 4], List.cons_ne_nil _ _⟩,
    ⟨[5, 6], List.cons_ne_nil _ _⟩]

theorem twoMessages_survive : ∃ s, WrappedStream.readMessages 2 (.new twoMessagesChunks true) =
      some ([⟨[1, 2], false⟩, ⟨[3], true⟩], s) ∧
    ∃ streaming, s.readNext = .copying streaming ∧
      ∀ events, Delivers [4, 5, 6] (Run.exec Streaming.step streaming events) :=
  messages_survive twoMessages twoMessagesChunks (by decide) (by decide) (by decide)

end Exocore.Transport
