import Exocore.CoreAction
import Exocore.LibMerge
import Exocore.PendingSyncRange

/-! The pending synchronizer: the requests it builds and how it answers those of the others. -/
namespace Exocore.Engine

open Exocore.Core Exocore.Chain Exocore.Pending Merge

structure PendingSynchronizer where
  config : PendingSyncConfig
  cell : Cell

variable [Crates]

/-- What the calls of the synchronizer borrow mutably. -/
structure PendingState where
  syncContext : SyncContext
  store : MemoryPendingStore

def pushEvent (event : Event) : Action PendingState EngineError Unit := fun s =>
  (.ok (), { s with syncContext := s.syncContext.pushEvent event })

def pushPendingSyncRequest (nodeId : NodeId) (request : PendingSyncRequest) :
    Action PendingState EngineError Unit := fun s =>
  (.ok (), { s with syncContext := s.syncContext.pushPendingSyncRequest nodeId request })

/-- Whether the operation existed. -/
def putOperation (operation : NewOperation) : Action PendingState EngineError Bool := fun s =>
  match s.store.putOperation operation with
  | .ok (existed, store) => (.ok existed, { s with store := store })
  | .error e => (.error (e.map .pendingStore), s)

/-- Not committed, or committed at the height or after. -/
def fromHeightAllows (fromBlockHeight : Option ℕ) (op : StoredOperation) : Bool :=
  match op.commitStatus, fromBlockHeight with
  | _, none => true
  | .unknown, _ => true
  | .committed _ opHeight, some fromHeight => opHeight ≥ fromHeight

def operationsIterFromHeight (store : MemoryPendingStore) (range : Bound × Bound)
    (fromBlockHeight : Option ℕ) : Res EngineError (List StoredOperation) := do
  let operations ← liftError .pendingStore (store.operationsIter range.1 range.2)
  pure (operations.filter (fromHeightAllows fromBlockHeight))

/-- What the hasher is fed for these operations. -/
def hashInput (operations : List StoredOperation) : Bytes :=
  operations.flatMap fun op => op.frame.multihashBytes

def localStoreRangeInfo (store : MemoryPendingStore) (range : Bound × Bound)
    (operationsFromHeight : Option ℕ) : Res EngineError (Multihash × ℕ) := do
  let operations ← operationsIterFromHeight store range operationsFromHeight
  pure (toMultihash (hashInput operations), operations.length)

/-- The operations that come with their data are stored first. Returns their ids. -/
def storeIncludedOperations : List (Option Bytes) → List ℕ →
    Action PendingState EngineError (List ℕ)
  | [], included => pure included
  | frameRes :: rest, included => do
    let data ← Action.lift (orError .serialization frameRes)
    let frame ← Action.lift (liftError .operation (readOperationFrame data))
    let reader ← Action.lift (orError .serialization frame.frame.reader)
    let existed ← putOperation ⟨reader.operationId, frame⟩
    if existed then
      storeIncludedOperations rest (reader.operationId :: included)
    else do
      pushEvent (.newPendingOperation reader.operationId)
      storeIncludedOperations rest (reader.operationId :: included)

/-- The loop over the joined headers and operations, with whether a difference was seen. -/
def diffLoop (included : List ℕ) :
    List (EitherOrBoth OperationHeaderMessage StoredOperation) → Bool → SyncRangesBuilder →
      Res EngineError (Bool × SyncRangesBuilder)
  | [], difference, out => pure (difference, out)
  -- not including the header makes the other side send the operation
  | .left _ :: rest, _, out => diffLoop included rest true out
  | .right localOp :: rest, difference, out =>
    if localOp.operationId ∉ included then do
      let out' ← out.pushOperation localOp .full
      diffLoop included rest true out'
    else do
      let out' ← out.pushOperation localOp .header
      diffLoop included rest difference out'
  | .both _ localOp :: rest, difference, out => do
    let out' ← out.pushOperation localOp .header
    diffLoop included rest difference out'

def noChangesMessage : String :=
  "Got into diff branch, but didn't result in any changes, which shouldn't have happened"

def diffLocalRemoteRange (out : SyncRangesBuilder) (included : List ℕ)
    (remote : List OperationHeaderMessage) (localOps : List StoredOperation) :
    Res EngineError SyncRangesBuilder := do
  let merged := mergeJoinBy OperationHeaderMessage.operationId StoredOperation.operationId remote
    localOps
  let (difference, out') ← diffLoop included merged false out
  if difference then pure out'
  else .error (.error (.pendingSync (.invalidSyncState noChangesMessage)))

/-- What a range that differs is answered with. -/
def answerRange (out : SyncRangesBuilder) (range : PendingSyncRange) (included : List ℕ)
    (operations : List StoredOperation) : Res EngineError SyncRangesBuilder :=
  if range.operationsCount = 0 then
    -- remote has no data, we send everything
    out.pushOperations (operations.map fun op => (op, .full))
  else if !range.operationsHeaders.has && !range.operationsFrames.has then
    -- remote has only sent us a hash, we reply with headers
    out.pushOperations (operations.map fun op => (op, .header))
  else do
    let remote ← range.operationsHeaders.get
    diffLocalRemoteRange out included remote operations

/-- The comparison of a range with the store, after its operations were stored. Returns
whether there are changes. -/
def compareRange (store : MemoryPendingStore) (operationsFromHeight : Option ℕ)
    (range : PendingSyncRange) (included : List ℕ) (out : SyncRangesBuilder) :
    Res EngineError (Bool × SyncRangesBuilder) := do
  let bounds := (extractSyncBounds range).1
  let (localHash, localCount) ← localStoreRangeInfo store bounds operationsFromHeight
  let remoteHashBytes ← orError .serialization range.operationsHash
  let remoteHash ← orError (.pendingSync (.invalidSyncRequest "Invalid hash in header"))
    (Crates.multihashFromBytes remoteHashBytes)
  if remoteHash = localHash ∧ localCount = range.operationsCount then
    pure (false, out.pushRange (.newHashed bounds localHash localCount))
  else do
    let operations ← operationsIterFromHeight store bounds operationsFromHeight
    let answered ← answerRange (out.pushNewRange bounds.1) range included operations
    pure (true, answered.setLastRangeToBound bounds.2)

def handleIncomingSyncRange (operationsFromHeight : Option ℕ) (range : PendingSyncRange)
    (out : SyncRangesBuilder) : Action PendingState EngineError (Bool × SyncRangesBuilder) := do
  let fromNumeric := range.fromOperation
  let toNumeric := range.toOperation
  if toNumeric ≠ 0 ∧ toNumeric < fromNumeric then
    Action.lift (.error (.error (.pendingSync (.invalidSyncRequest
      s!"Request from={fromNumeric} > to={toNumeric}"))))
  else do
    let frames ← Action.lift range.operationsFrames.get
    let included ← storeIncludedOperations frames []
    let state ← Action.get
    Action.lift (compareRange state.store operationsFromHeight range included out)

def handleIncomingSyncRangesLoop (operationsFromHeight : Option ℕ) :
    List PendingSyncRange → Bool → SyncRangesBuilder →
      Action PendingState EngineError (Option SyncRangesBuilder)
  | [], changes, out => pure (if changes then some out else none)
  | range :: rest, changes, out => do
    let (changed, out') ← handleIncomingSyncRange operationsFromHeight range out
    handleIncomingSyncRangesLoop operationsFromHeight rest (changes || changed) out'

def writeRequest (ranges : List SyncRangeBuilder) (operationsFromHeight : Option ℕ) :
    PendingSyncRequest :=
  ⟨.list (ranges.map SyncRangeBuilder.writeIntoSyncRangeBuilder), operationsFromHeight.getD 0⟩

namespace PendingSynchronizer

def handleIncomingSyncRanges (p : PendingSynchronizer) (ranges : List PendingSyncRange)
    (operationsFromHeight : Option ℕ) :
    Action PendingState EngineError (Option SyncRangesBuilder) :=
  handleIncomingSyncRangesLoop operationsFromHeight ranges false (.new p.config)

/-- The height of the request has priority over the one of the last cleanup. -/
def getFromBlockHeight (p : PendingSynchronizer) (syncContext : SyncContext)
    (incomingRequest : Option PendingSyncRequest) : Option ℕ :=
  let fromRequest := incomingRequest.bind fun request =>
    if request.fromBlockHeight ≠ 0 then some request.fromBlockHeight else none
  fromRequest.orElse fun _ => syncContext.syncState.pendingLastCleanupBlock.map fun (_, height) =>
    height + p.config.operationsDepthAfterCleanup

/-- The request is none where its root does not read. -/
def handleIncomingSyncRequest (p : PendingSynchronizer) (fromNode : NodeId)
    (request : Option PendingSyncRequest) : Action PendingState EngineError Unit := do
  let inReader ← Action.lift (orError .serialization request)
  let state ← Action.get
  let operationsFromHeight := p.getFromBlockHeight state.syncContext (some inReader)
  let inRanges ← Action.lift inReader.ranges.get
  match ← p.handleIncomingSyncRanges inRanges operationsFromHeight with
  | some outRanges =>
    pushPendingSyncRequest fromNode (writeRequest outRanges.ranges operationsFromHeight)
  | none => pure ()

def createSyncRequestForRange (p : PendingSynchronizer) (syncContext : SyncContext)
    (store : MemoryPendingStore) (range : Bound × Bound)
    (operationDetails : StoredOperation → OperationDetailsLevel) :
    Res EngineError PendingSyncRequest := do
  let syncRanges := (SyncRangesBuilder.new p.config).pushNewRange range.1
  let operationsFromHeight := p.getFromBlockHeight syncContext none
  let operations ← operationsIterFromHeight store range operationsFromHeight
  let pushed ← syncRanges.pushOperations (operations.map fun op => (op, operationDetails op))
  let closed := match range.2 with
    | .unbounded => pushed.setLastRangeToBound .unbounded
    | _ => pushed
  pure (writeRequest closed.ranges operationsFromHeight)

/-- The other nodes that have the chain role. -/
def otherChainNodes (p : PendingSynchronizer) : List NodeId :=
  ((p.cell.nodes.filter fun n => n.id ≠ p.cell.localNode).filter fun n => n.hasRole .chain).map
    CellNode.id

/-- `canSendRequest` is what the request tracker of each node tells at this time. -/
def tickLoop (p : PendingSynchronizer) (canSendRequest : NodeId → Bool) :
    List NodeId → Action PendingState EngineError Unit
  | [] => pure ()
  | nodeId :: rest =>
    if canSendRequest nodeId then do
      let state ← Action.get
      let request ← Action.lift (p.createSyncRequestForRange state.syncContext state.store
        (.unbounded, .unbounded) fun _ => .none)
      pushPendingSyncRequest nodeId request
      p.tickLoop canSendRequest rest
    else p.tickLoop canSendRequest rest

def tick (p : PendingSynchronizer) (canSendRequest : NodeId → Bool) :
    Action PendingState EngineError Unit :=
  p.tickLoop canSendRequest p.otherChainNodes

/-- Full detail for the new operation, none for the others. -/
def newOperationDetails (operationId : ℕ) (op : StoredOperation) : OperationDetailsLevel :=
  if op.operationId = operationId then .full else .none

def sendNewOperation (p : PendingSynchronizer) (operationId : ℕ) :
    List NodeId → Action PendingState EngineError Unit
  | [] => pure ()
  | nodeId :: rest => do
    let state ← Action.get
    let request ← Action.lift (p.createSyncRequestForRange state.syncContext state.store
      (.included operationId, .unbounded) (newOperationDetails operationId))
    pushPendingSyncRequest nodeId request
    p.sendNewOperation operationId rest

def handleNewOperation (p : PendingSynchronizer) (operation : NewOperation) :
    Action PendingState EngineError Unit := do
  let reader ← Action.lift (liftError .operation operation.frame.getReader)
  let _ ← putOperation operation
  pushEvent (.newPendingOperation reader.operationId)
  p.sendNewOperation reader.operationId p.otherChainNodes

end PendingSynchronizer

end Exocore.Engine
