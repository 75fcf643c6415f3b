import Exocore.ChainSync
import Exocore.CommitManager
import Exocore.LibRun

/-! The handlers of the engine: what the messages of other nodes and the ticks do to its
stores, and which events they dispatch to the streams of its handles. -/
namespace Exocore.Engine

open Exocore.Core Exocore.Chain Exocore.Pending

/-- What a stream is sent. -/
inductive StreamItem where
  | event (e : Event)
  | streamDiscontinuity
deriving DecidableEq

/-- The sending side of a stream of events: the items that went through, and the places that
its channel has left. -/
structure EventStream where
  handleId : ℕ
  discontinued : Bool
  sent : List StreamItem
  room : ℕ
  closed : Bool
deriving DecidableEq

inductive SendError where
  | full
  | disconnected

namespace EventStream

def trySend (s : EventStream) (item : StreamItem) : Except SendError EventStream :=
  if s.closed then .error .disconnected
  else if s.room = 0 then .error .full
  else .ok { s with sent := s.sent ++ [item], room := s.room - 1 }

/-- An event that finds the buffer full is lost, and the stream is marked. -/
def sendEvent (s : EventStream) (event : Event) : EventStream :=
  match s.trySend (.event event) with
  | .ok s' => s'
  | .error .full => { s with discontinued := true }
  | .error .disconnected => s

/-- A marked stream is told of the discontinuity first. -/
def dispatchEvent (s : EventStream) (event : Event) : EventStream :=
  if s.discontinued then
    match s.trySend .streamDiscontinuity with
    | .ok s' => { s' with discontinued := false }.sendEvent event
    | .error _ => s
  else s.sendEvent event

def dispatchEvents (s : EventStream) (events : List Event) : EventStream :=
  events.foldl dispatchEvent s

end EventStream

variable [Crates]

structure EngineState (CS : Type) where
  syncState : SyncState
  pendingStore : MemoryPendingStore
  chainStore : CS
  chainSynchronizer : ChainSynchronizer
  streams : List EventStream

/-- The parts of the engine that do not change, for one cell. -/
structure EngineInner where
  cell : Cell
  pendingSynchronizer : PendingSynchronizer
  commitManager : CommitManager
  pendingCell : pendingSynchronizer.cell = cell
  commitCell : commitManager.cell = cell

/-- The state during a handler: that of the engine, and the context of the call. -/
structure HandlerState (CS : Type) where
  engine : EngineState CS
  syncContext : SyncContext

section Lenses
variable {CS A : Type}

def onPendingSync (x : Action PendingState EngineError A) :
    Action (HandlerState CS) EngineError A := fun s =>
  match x ⟨s.syncContext, s.engine.pendingStore⟩ with
  | (r, ps) => (r, ⟨{ s.engine with pendingStore := ps.store }, ps.syncContext⟩)

def onChainSync (x : Action (ChainSyncState CS) EngineError A) :
    Action (HandlerState CS) EngineError A := fun s =>
  match x ⟨s.engine.chainSynchronizer, s.syncContext, s.engine.chainStore⟩ with
  | (r, cs) => (r, ⟨{ s.engine with
      chainSynchronizer := cs.synchronizer
      chainStore := cs.store }, cs.syncContext⟩)

def onCommitManager (x : Action (CommitState CS) EngineError A) :
    Action (HandlerState CS) EngineError A := fun s =>
  match x ⟨s.syncContext, s.engine.pendingStore, s.engine.chainStore⟩ with
  | (r, cs) => (r, ⟨{ s.engine with
      pendingStore := cs.pendingStore
      chainStore := cs.chainStore }, cs.syncContext⟩)

/-- An error that is kept for the caller to look at. -/
def attempt (x : Action (HandlerState CS) EngineError A) :
    Action (HandlerState CS) EngineError (Res EngineError A) := fun s =>
  match x s with
  | (r, s') => (.ok r, s')

end Lenses

namespace SyncContextMessage

def destNode : SyncContextMessage → NodeId
  | .pendingSyncRequest nodeId _ => nodeId
  | .chainSyncRequest nodeId _ => nodeId
  | .chainSyncResponse nodeId _ => nodeId

end SyncContextMessage

/-- The messages go out one by one; one to a node that is not in the cell is an error. -/
def sendMessages (cell : Cell) : List SyncContextMessage → Res EngineError Unit
  | [] => .ok ()
  | message :: rest =>
    if (cell.get message.destNode).isSome then sendMessages cell rest
    else .error (.error (.nodeNotFound message.destNode))

section Handlers
variable {CS : Type}

def chainIsSynchronized (n : EngineState CS) : Bool := n.chainSynchronizer.status = .synchronized

def takeSyncState : Action (HandlerState CS) EngineError Unit := fun s =>
  (.ok (), { s with engine := { s.engine with syncState := s.syncContext.syncState } })

def sendMessagesFromSyncContext (cell : Cell) : Action (HandlerState CS) EngineError Unit :=
  fun s => (sendMessages cell s.syncContext.messages,
    { s with syncContext := { s.syncContext with messages := [] } })

def dispatchEventsFromSyncContext : Action (HandlerState CS) EngineError Unit := fun s =>
  (.ok (), { s with engine := { s.engine with
    streams := s.engine.streams.map fun stream => stream.dispatchEvents s.syncContext.events } })

def resetChainSynchronizer : Action (HandlerState CS) EngineError Unit := fun s =>
  (.ok (), { s with engine := { s.engine with
    chainSynchronizer := s.engine.chainSynchronizer.resetState } })

namespace EngineInner

def handleNewOperation (e : EngineInner) (operation : NewOperation) :
    Action (HandlerState CS) EngineError Unit := do
  onPendingSync (e.pendingSynchronizer.handleNewOperation operation)
  takeSyncState
  let s ← Action.get
  if chainIsSynchronized s.engine then sendMessagesFromSyncContext e.cell
  dispatchEventsFromSyncContext

def handleIncomingPendingSyncRequest (e : EngineInner) (fromNode : NodeId)
    (request : Option PendingSyncRequest) : Action (HandlerState CS) EngineError Unit := do
  let s ← Action.get
  if !chainIsSynchronized s.engine then pure ()
  else
    onPendingSync (e.pendingSynchronizer.handleIncomingSyncRequest fromNode request)
    takeSyncState
    sendMessagesFromSyncContext e.cell
    dispatchEventsFromSyncContext

variable [ChainRangeStore CS]

def handleIncomingChainSyncRequest (e : EngineInner) (overflowChecks : Bool) (fromNode : NodeId)
    (request : Option ChainSyncRequest) : Action (HandlerState CS) EngineError Unit := do
  onChainSync (ChainSynchronizer.handleSyncRequest overflowChecks fromNode request)
  takeSyncState
  sendMessagesFromSyncContext e.cell
  dispatchEventsFromSyncContext

def handleIncomingChainSyncResponse (e : EngineInner) (overflowChecks : Bool) (fromNode : NodeId)
    (response : Option ChainSyncResponse) : Action (HandlerState CS) EngineError Unit := do
  onChainSync (ChainSynchronizer.handleSyncResponse overflowChecks fromNode response)
  takeSyncState
  sendMessagesFromSyncContext e.cell
  dispatchEventsFromSyncContext

/-- The part of a tick that is only taken once the chain is synchronized. -/
def tickCommitManager (e : EngineInner) (i : TickInput) :
    Action (HandlerState CS) EngineError Unit := do
  let s ← Action.get
  if chainIsSynchronized s.engine then
    match ← attempt (onCommitManager (e.commitManager.tick e.pendingSynchronizer i)) with
    | .ok _ => pure ()
    | .error (.error .outOfSync) => resetChainSynchronizer
    | .error err => Action.lift (.error err)

def tickPendingSynchronizer (e : EngineInner) (canSendRequest : NodeId → Bool) :
    Action (HandlerState CS) EngineError Unit := do
  let s ← Action.get
  if chainIsSynchronized s.engine then
    onPendingSync (e.pendingSynchronizer.tick canSendRequest)

def tickSynchronizers (e : EngineInner) (chainInput : ChainSyncInput) (commitInput : TickInput)
    (canSendRequest : NodeId → Bool) : Action (HandlerState CS) EngineError Unit := do
  onChainSync (ChainSynchronizer.tick chainInput)
  e.tickCommitManager commitInput
  e.tickPendingSynchronizer canSendRequest
  takeSyncState
  sendMessagesFromSyncContext e.cell
  dispatchEventsFromSyncContext

end EngineInner

inductive EngineStep where
  | newOperation (operation : NewOperation)
  | pendingSyncRequest (fromNode : NodeId) (request : Option PendingSyncRequest)
  | chainSyncRequest (overflowChecks : Bool) (fromNode : NodeId)
    (request : Option ChainSyncRequest)
  | chainSyncResponse (overflowChecks : Bool) (fromNode : NodeId)
    (response : Option ChainSyncResponse)
  | tick (chainInput : ChainSyncInput) (commitInput : TickInput)
    (canSendRequest : NodeId → Bool)
  | newEventsStream (handleId room : ℕ)
  | readEvents (handleId count : ℕ)

variable [ChainRangeStore CS]

/-- A handler starts with an empty context. -/
def EngineInner.handler (e : EngineInner) : EngineStep → Action (HandlerState CS) EngineError Unit
  | .newOperation operation => e.handleNewOperation operation
  | .pendingSyncRequest fromNode request => e.handleIncomingPendingSyncRequest fromNode request
  | .chainSyncRequest overflowChecks fromNode request =>
    e.handleIncomingChainSyncRequest overflowChecks fromNode request
  | .chainSyncResponse overflowChecks fromNode response =>
    e.handleIncomingChainSyncResponse overflowChecks fromNode response
  | .tick chainInput commitInput canSendRequest =>
    e.tickSynchronizers chainInput commitInput canSendRequest
  -- a new stream, and a receiver that reads: the places it read are free again
  | .newEventsStream handleId room => fun s => (.ok (), { s with engine := { s.engine with
      streams := s.engine.streams ++ [⟨handleId, false, [], room, false⟩] } })
  | .readEvents handleId count => fun s => (.ok (), { s with engine := { s.engine with
      streams := s.engine.streams.map fun stream =>
        if stream.handleId = handleId then { stream with room := stream.room + count }
        else stream } })

def EngineInner.step (e : EngineInner) (n : EngineState CS) (a : EngineStep) : EngineState CS :=
  (e.handler a ⟨n, .new n.syncState⟩).2.engine

end Handlers

end Exocore.Engine
