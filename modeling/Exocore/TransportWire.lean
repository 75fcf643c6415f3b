import Exocore.CoreFraming
import Exocore.LibChunks
import Exocore.TransportHandler

/-! Messages on a substream: how they are written and read, and the channel through which the bytes
of a stream get to their reader. A poll that is pending gives none. -/
namespace Exocore.Transport

open Chunks

def maxMessageSize : ℕ := 20 * 1024 * 1024

def streamBufferSize : ℕ := 1024

def streamMask : ℕ := 2 ^ 31

/-- The high bit says that a stream follows the message. -/
def encodeMsgLen (len : ℕ) (hasStream : Bool) : List UInt8 :=
  Core.le32 (if hasStream then len ||| streamMask else len)

/-- None where there are less than four bytes, which panics. -/
def decodeMsgLen (bytes : List UInt8) : Option (ℕ × Bool) :=
  (Core.readLe32 bytes).map fun msgLen =>
    if msgLen &&& streamMask = streamMask then (msgLen &&& (streamMask - 1), true)
    else (msgLen, false)

/-- What was written to a substream. -/
structure Socket where
  written : List UInt8
  closed : Bool

namespace Socket

def new : Socket := ⟨[], false⟩

def write (socket : Socket) (bytes : List UInt8) : Socket :=
  { socket with written := socket.written ++ bytes }

/-- True where the substream is given back for the next message: the end of a stream is the end of
its substream. -/
def sendMessage (socket : Socket) (message : MessageData) : Bool × Socket :=
  let sizeBuf := encodeMsgLen message.message.length message.stream.isSome
  let socket := (socket.write sizeBuf).write message.message
  match message.stream with
  | some stream => (false, { socket.write stream with closed := true })
  | none => (true, socket)

def sendMessages (socket : Socket) : List MessageData → Socket
  | [] => socket
  | message :: rest => match socket.sendMessage message with
    | (true, socket) => socket.sendMessages rest
    | (false, socket) => socket

end Socket

/-- The two ends of a channel of bytes: what was sent and not yet taken, and what was taken and did
not fit in the buffer of the reader. -/
structure BytesChannel where
  bufSize : ℕ
  queue : List (List UInt8)
  reserve : Option (List UInt8)
  senderDropped : Bool
  receiverDropped : Bool

namespace BytesChannel

def new (bufSize : ℕ) : BytesChannel := ⟨bufSize, [], none, false, false⟩

/-- The sender is ready while no more than the size of the buffer waits: it has a place of its
own. -/
def pollWrite (c : BytesChannel) (buf : List UInt8) : Option (Except IoError ℕ) × BytesChannel :=
  if c.receiverDropped then (some (.error "send failed because receiver is gone"), c)
  else if c.bufSize < c.queue.length then (none, c)
  else (some (.ok buf.length), { c with queue := c.queue ++ [buf] })

/-- Gives out as much as the buffer takes. -/
def giveOut (c : BytesChannel) (size : ℕ) (bytes : List UInt8) :
    Option (List UInt8) × BytesChannel :=
  if size < bytes.length then
    (some (bytes.take size), { c with reserve := some (bytes.drop size) })
  else (some bytes, { c with reserve := none })

/-- A read that gives no bytes is the end. -/
def pollRead (c : BytesChannel) (size : ℕ) : Option (List UInt8) × BytesChannel :=
  match c.reserve with
  | some reserve => c.giveOut size reserve
  | none => match c.queue with
    | bytes :: queue => { c with queue := queue }.giveOut size bytes
    | [] => if c.senderDropped then (some [], c) else (none, c)

def dropSender (c : BytesChannel) : BytesChannel := { c with senderDropped := true }

/-- What waits is dropped with the receiver. -/
def dropReceiver (c : BytesChannel) : BytesChannel :=
  { c with queue := [], reserve := none, receiverDropped := true }

end BytesChannel

/-- A substream of which a stream is copied to its channel: what the substream has still to give,
the bytes that were read and not yet written, how the copying ended, and what the reader of the
channel has read, up to its end or not. -/
structure Streaming where
  chunks : List (Chunk UInt8)
  closed : Bool
  buffer : List UInt8
  channel : BytesChannel
  copied : Option (Except IoError Unit)
  received : List UInt8
  ended : Bool

inductive StreamingEvent where
  | copy
  | read (size : ℕ+)
  | dropReceiver

/-- The buffer of the reader that `copy` reads through. -/
def copyBufferSize : ℕ := 8192

namespace Streaming

def start (chunks : List (Chunk UInt8)) (closed : Bool) : Streaming :=
  ⟨chunks, closed, [], .new streamBufferSize, none, [], false⟩

/-- The sender is dropped where the copying ends. -/
def finish (s : Streaming) (result : Except IoError Unit) : Streaming :=
  { s with copied := some result, channel := s.channel.dropSender }

/-- One round of the copying: the buffer is filled if it is empty, else written. -/
def copy (s : Streaming) : Streaming :=
  match s.buffer with
  | [] => match s.chunks with
    | [] => if s.closed then s.finish (.ok ()) else s
    | c :: rest =>
      let next := Chunks.read copyBufferSize (c :: rest)
      { s with buffer := next.1, chunks := next.2 }
  | b :: bytes => match s.channel.pollWrite (b :: bytes) with
    | (none, _) => s
    | (some (.ok written), channel) =>
      { s with buffer := (b :: bytes).drop written, channel := channel }
    | (some (.error e), channel) => { s with channel := channel }.finish (.error e)

def read (s : Streaming) (size : ℕ) : Streaming :=
  match s.channel.pollRead size with
  | (none, _) => s
  | (some bytes, channel) =>
    { s with
      channel := channel
      received := s.received ++ bytes
      ended := s.ended || bytes.isEmpty }

/-- A copying that has ended and a receiver that was dropped do nothing more. -/
def step (s : Streaming) : StreamingEvent → Streaming
  | .copy => if s.copied.isSome then s else s.copy
  | .read size => if s.channel.receiverDropped then s else s.read size
  | .dropReceiver =>
    if s.channel.receiverDropped then s else { s with channel := s.channel.dropReceiver }

end Streaming

/-- Why a read does not give a message. It waits for more while the substream is open. -/
inductive ReadStop where
  | pending
  | unexpectedEof
  | invalidData
  | panic
deriving DecidableEq

/-- A message that was read, and whether it has a receiver for a stream. -/
structure ReceivedMessage where
  message : List UInt8
  hasStream : Bool
deriving DecidableEq

/-- A substream that is read from: what it has still to give, whether it ends there, and whether a
stream is to be copied next. -/
structure WrappedStream where
  chunks : List (Chunk UInt8)
  closed : Bool
  outStream : Bool

/-- What a read comes to. -/
inductive ReadNext where
  | stopped (stop : ReadStop)
  | message (message : ReceivedMessage) (stream : WrappedStream)
  | copying (streaming : Streaming)

namespace WrappedStream

def new (chunks : List (Chunk UInt8)) (closed : Bool) : WrappedStream := ⟨chunks, closed, false⟩

def readExact (s : WrappedStream) (size : ℕ) : Except ReadStop (List UInt8 × WrappedStream) :=
  match Chunks.readExact size s.chunks with
  | some (bytes, chunks) => .ok (bytes, { s with chunks := chunks })
  | none => .error (if s.closed then .unexpectedEof else .pending)

def readNewMessage (s : WrappedStream) : Except ReadStop (ReceivedMessage × WrappedStream) := do
  let (sizeBuf, s) ← s.readExact 4
  match decodeMsgLen sizeBuf with
  | none => throw .panic
  | some (msgLen, hasStream) =>
    if maxMessageSize < msgLen then throw .invalidData
    let (messageData, s) ← s.readExact msgLen
    if hasStream then return (⟨messageData, true⟩, { s with outStream := true })
    else return (⟨messageData, false⟩, s)

def readNext (s : WrappedStream) : ReadNext :=
  if s.outStream then .copying (.start s.chunks s.closed)
  else match s.readNewMessage with
    | .ok (message, s) => .message message s
    | .error stop => .stopped stop

/-- Repeated reads, none where one of them gives no message. -/
def readMessages : ℕ → WrappedStream → Option (List ReceivedMessage × WrappedStream)
  | 0, s => some ([], s)
  | n + 1, s => match s.readNext with
    | .message message s => (readMessages n s).map fun r => (message :: r.1, r.2)
    | _ => none

end WrappedStream

end Exocore.Transport
