import Exocore.LibLoop
import Exocore.LibRun

/-! The handler of a connection: the substreams that messages are read from and written to. A
substream is owned by the future that reads from it or writes to it. -/
namespace Exocore.Transport

abbrev Substream := ℕ

/-- An error of a substream, by its text. -/
abbrev IoError := String

/-- A message, with the bytes of its stream if it has one. -/
structure MessageData where
  message : List UInt8
  stream : Option (List UInt8)
deriving DecidableEq

/-- A future that reads from its substream. It is registered once a call has polled it and found
it pending: the substream then wakes the task up. -/
structure InboundStreamFuture where
  substream : Substream
  registered : Bool
deriving DecidableEq

/-- A future that writes its message to its substream. -/
structure OutboundStreamFuture where
  substream : Substream
  message : MessageData
  registered : Bool
deriving DecidableEq

/-- What a future that writes comes to: the message is written, and the substream is given back or
was consumed by the stream of the message, or the write failed. -/
inductive WritePoll where
  | pending
  | sent
  | consumed
  | failed (e : IoError)
deriving DecidableEq

/-- What a future that reads comes to: a message, or no message when it has copied a stream. -/
inductive ReadPoll where
  | pending
  | message (message : MessageData)
  | copied
  | failed (e : IoError)
deriving DecidableEq

/-- The readiness of the futures while they are polled, by their substreams. -/
structure Readiness where
  write : Substream → WritePoll
  read : Substream → ReadPoll

namespace Readiness

/-- The future ends the call: it failed to write. -/
def stopsWrite (env : Readiness) (fut : OutboundStreamFuture) : Bool :=
  match env.write fut.substream with
  | .failed _ => true
  | .sent | .consumed | .pending => false

/-- The future ends the call: it has a message or failed to read. -/
def stopsRead (env : Readiness) (fut : InboundStreamFuture) : Bool :=
  match env.read fut.substream with
  | .message _ | .failed _ => true
  | .copied | .pending => false

end Readiness

inductive HandlerEvent where
  | outboundSubstreamRequest
  | notifyBehaviour (result : Except IoError MessageData)
deriving DecidableEq

structure ExocoreProtoHandler where
  inboundStreamFutures : List InboundStreamFuture
  outboundDialing : Bool
  outboundStreamFutures : List OutboundStreamFuture
  idleOutboundStream : Option Substream
  sendQueue : List MessageData

/-- A call of `poll`: the handler as it changes, and what the futures came to that were polled. -/
structure PollTurn where
  handler : ExocoreProtoHandler
  written : List MessageData
  writeFailures : List (MessageData × IoError)
  read : List MessageData
  readFailures : List (Substream × IoError)

namespace ExocoreProtoHandler

def default : ExocoreProtoHandler := ⟨[], false, [], none, []⟩

def handleDialUpgradeError (h : ExocoreProtoHandler) : ExocoreProtoHandler :=
  { h with outboundDialing := false }

def handleFullNegotiatedInbound (h : ExocoreProtoHandler) (protocol : Substream) :
    ExocoreProtoHandler :=
  { h with inboundStreamFutures := h.inboundStreamFutures ++ [⟨protocol, false⟩] }

def handleFullNegotiatedOutbound (h : ExocoreProtoHandler) (protocol : Substream) :
    ExocoreProtoHandler :=
  { h with outboundDialing := false, idleOutboundStream := some protocol }

def onBehaviourEvent (h : ExocoreProtoHandler) (event : MessageData) : ExocoreProtoHandler :=
  { h with sendQueue := h.sendQueue ++ [event] }

/-- There is a message to send, and no outgoing stream to send it on nor one on its way. -/
def AsksToDial (h : ExocoreProtoHandler) : Prop :=
  h.sendQueue ≠ [] ∧ h.idleOutboundStream = none ∧ h.outboundStreamFutures = [] ∧
    h.outboundDialing = false

instance (h : ExocoreProtoHandler) : Decidable h.AsksToDial :=
  inferInstanceAs (Decidable (_ ∧ _ ∧ _ ∧ _))

/-- The first message is written to the idle stream. -/
def sendToIdle (h : ExocoreProtoHandler) : ExocoreProtoHandler :=
  match h.idleOutboundStream, h.sendQueue with
  | some stream, message :: queue =>
    { h with
      sendQueue := queue
      idleOutboundStream := none
      outboundStreamFutures := h.outboundStreamFutures ++ [⟨stream, message, false⟩] }
  | _, _ => h

end ExocoreProtoHandler

namespace PollTurn

def start (h : ExocoreProtoHandler) : PollTurn := ⟨h, [], [], [], []⟩

/-- The message was written and the substream is given back. -/
def sent (t : PollTurn) (fut : OutboundStreamFuture) : PollTurn :=
  let t := { t with written := t.written ++ [fut.message] }
  if t.handler.idleOutboundStream.isSome then t
  else match t.handler.sendQueue with
    | message :: queue =>
      { t with handler := { t.handler with
          sendQueue := queue
          outboundStreamFutures :=
            t.handler.outboundStreamFutures ++ [⟨fut.substream, message, false⟩] } }
    | [] => { t with handler := { t.handler with idleOutboundStream := some fut.substream } }

/-- A round of the loop over the futures that write. -/
def pollOutbound (env : Readiness) (t : PollTurn) (fut : OutboundStreamFuture) :
    Option IoError × PollTurn :=
  match env.write fut.substream with
  | .sent => (none, t.sent fut)
  | .consumed => (none, { t with written := t.written ++ [fut.message] })
  | .failed e => (some e, { t with writeFailures := t.writeFailures ++ [(fut.message, e)] })
  | .pending => (none, { t with handler := { t.handler with
      outboundStreamFutures :=
        t.handler.outboundStreamFutures ++ [{ fut with registered := true }] } })

def pushInbound (t : PollTurn) (fut : InboundStreamFuture) : PollTurn :=
  { t with handler := { t.handler with
      inboundStreamFutures := t.handler.inboundStreamFutures ++ [fut] } }

/-- A round of the loop over the futures that read. -/
def pollInbound (env : Readiness) (t : PollTurn) (fut : InboundStreamFuture) :
    Option (Except IoError MessageData) × PollTurn :=
  match env.read fut.substream with
  | .message message =>
    (some (.ok message),
      { t.pushInbound ⟨fut.substream, false⟩ with read := t.read ++ [message] })
  | .copied => (none, t.pushInbound ⟨fut.substream, false⟩)
  | .failed e =>
    (some (.error e), { t with readFailures := t.readFailures ++ [(fut.substream, e)] })
  | .pending => (none, t.pushInbound { fut with registered := true })

/-- The futures that write are taken out of the handler and polled. -/
def pollAllOutbound (env : Readiness) (t : PollTurn) : Option IoError × PollTurn :=
  Loop.untilReturn (pollOutbound env) t.handler.outboundStreamFutures
    { t with handler := { t.handler with outboundStreamFutures := [] } }

def pollAllInbound (env : Readiness) (t : PollTurn) :
    Option (Except IoError MessageData) × PollTurn :=
  Loop.untilReturn (pollInbound env) t.handler.inboundStreamFutures
    { t with handler := { t.handler with inboundStreamFutures := [] } }

end PollTurn

namespace ExocoreProtoHandler

/-- None where the call returns `Pending`. -/
def poll (env : Readiness) (h : ExocoreProtoHandler) : Option HandlerEvent × PollTurn :=
  if h.AsksToDial then
    (some .outboundSubstreamRequest, .start { h with outboundDialing := true })
  else match (PollTurn.start h.sendToIdle).pollAllOutbound env with
    | (some e, t) => (some (.notifyBehaviour (.error e)), t)
    | (none, t) => match t.pollAllInbound env with
      | (some result, t) => (some (.notifyBehaviour result), t)
      | (none, t) => (none, t)

end ExocoreProtoHandler

/-- A connection with its handler, and the number of substreams that were ever opened on it. -/
structure Connection where
  handler : ExocoreProtoHandler
  opened : ℕ

inductive ConnectionEvent where
  | behaviourEvent (message : MessageData)
  | fullyNegotiatedInbound
  | fullyNegotiatedOutbound
  | dialUpgradeError
  | poll (env : Readiness)

namespace Connection

def new : Connection := ⟨.default, 0⟩

def step (c : Connection) : ConnectionEvent → Connection
  | .behaviourEvent message => { c with handler := c.handler.onBehaviourEvent message }
  | .fullyNegotiatedInbound => ⟨c.handler.handleFullNegotiatedInbound c.opened, c.opened + 1⟩
  | .fullyNegotiatedOutbound => ⟨c.handler.handleFullNegotiatedOutbound c.opened, c.opened + 1⟩
  | .dialUpgradeError => { c with handler := c.handler.handleDialUpgradeError }
  | .poll env => { c with handler := (c.handler.poll env).2.handler }

end Connection

namespace ExocoreProtoHandler

/-- The substreams that the handler reads from. -/
def inboundSubstreams (h : ExocoreProtoHandler) : List Substream :=
  h.inboundStreamFutures.map InboundStreamFuture.substream

/-- The messages that are to be written or are being written. -/
def outboundMessages (h : ExocoreProtoHandler) : List MessageData :=
  h.sendQueue ++ h.outboundStreamFutures.map OutboundStreamFuture.message

/-- The message that the behaviour is told of. -/
def reported : Option HandlerEvent → List MessageData
  | some (.notifyBehaviour (.ok message)) => [message]
  | _ => []

/-- What is promised of a call: each substream that the handler reads from is still held unless its
future failed, the messages that were read are the one that is reported, each message to write is
still held, was written or failed, and a failure is reported. -/
structure PollKeeps (env : Readiness) (h : ExocoreProtoHandler) : Prop where
  inbound : ∀ substream ∈ h.inboundSubstreams,
    substream ∉ (h.poll env).2.readFailures.map Prod.fst →
      substream ∈ (h.poll env).2.handler.inboundSubstreams
  readOnce : (h.poll env).2.read = reported (h.poll env).1
  outbound : h.outboundMessages.Perm ((h.poll env).2.handler.outboundMessages ++
    (h.poll env).2.written ++ (h.poll env).2.writeFailures.map Prod.fst)
  failures : ∀ failure ∈ (h.poll env).2.writeFailures,
    (h.poll env).1 = some (.notifyBehaviour (.error failure.2))

/-- No future but the last one that writes ends the call, and if none does, no future but the last
one that reads. -/
def Careful (env : Readiness) (h : ExocoreProtoHandler) : Prop :=
  h.AsksToDial ∨
    (∀ fut ∈ h.sendToIdle.outboundStreamFutures.dropLast, env.stopsWrite fut = false) ∧
      ((∀ fut ∈ h.sendToIdle.outboundStreamFutures, env.stopsWrite fut = false) →
        ∀ fut ∈ h.inboundStreamFutures.dropLast, env.stopsRead fut = false)

end ExocoreProtoHandler

end Exocore.Transport
