import Exocore.CommitBlock
import Exocore.PendingSync

/-! The commit manager: signing or refusing the proposals, proposing, committing, and the
cleanup of the pending store. -/
namespace Exocore.Engine

open Exocore.Core Exocore.Chain Exocore.Pending SortedMap

structure CommitManager where
  config : CommitManagerConfig
  cell : Cell

variable [Crates]

/-- What a tick gets from outside: the clock each time it is read, the order of the hash
maps, the sort of the standard library, the division of floats, and how an integer overflow
is compiled. -/
structure TickInput where
  now : ℕ
  signatureTime : ℕ
  turnTime : ℕ
  proposalTime : ℕ
  blocksOrder : Sorting.HashOrder
  operationBlocksOrder : ℕ → Sorting.HashOrder
  sorter : Sorting.Sorter PendingBlock bestFirst
  floorDiv : ℕ → ℕ → ℕ
  overflowChecks : Bool

/-- What the calls of the commit manager borrow mutably. -/
structure CommitState (CS : Type) where
  syncContext : SyncContext
  pendingStore : MemoryPendingStore
  chainStore : CS

section Manager
variable {CS : Type}

/-- A call of the synchronizer, on its part of the state. -/
def onPending {A : Type} (x : Action PendingState EngineError A) :
    Action (CommitState CS) EngineError A := fun s =>
  match x ⟨s.syncContext, s.pendingStore⟩ with
  | (r, ps) => (r, { s with syncContext := ps.syncContext, pendingStore := ps.store })

def deleteOperation (operationId : ℕ) : Action (CommitState CS) EngineError Unit := fun s =>
  (.ok (), { s with pendingStore := s.pendingStore.deleteOperation operationId })

def deleteOperations : List ℕ → Action (CommitState CS) EngineError Unit
  | [] => pure ()
  | operationId :: rest => do
    deleteOperation operationId
    deleteOperations rest

def updateOperationCommitStatus (operationId : ℕ) (status : CommitStatus) :
    Action (CommitState CS) EngineError Unit := fun s =>
  match s.pendingStore.updateOperationCommitStatus operationId status with
  | .ok store => (.ok (), { s with pendingStore := store })
  | .error e => (.error (e.map .pendingStore), s)

def updateCommitStatuses (status : CommitStatus) :
    List ℕ → Action (CommitState CS) EngineError Unit
  | [] => pure ()
  | operationId :: rest => do
    updateOperationCommitStatus operationId status
    updateCommitStatuses status rest

def setPendingLastCleanupBlock (offset height : ℕ) : Action (CommitState CS) EngineError Unit :=
  fun s => (.ok (), { s with
    syncContext := { s.syncContext with syncState := ⟨some (offset, height)⟩ } })

def pushNewChainBlock (offset : ℕ) : Action (CommitState CS) EngineError Unit := fun s =>
  (.ok (), { s with syncContext := s.syncContext.pushEvent (.newChainBlock offset) })

end Manager

/-- The operations of the block from the pending store, in the order of their ids. -/
def getBlockOperations (nextBlock : PendingBlock) (pendingStore : MemoryPendingStore) :
    Res EngineError (List StoredOperation) := do
  let operations ← nextBlock.operations.mapM fun operationId =>
    orError (.commitManager (.missingOperation operationId)) (pendingStore.getOperation operationId)
  pure (operations.insertionSort fun a b => a.operationId ≤ b.operationId)

/-- Turns go around the chain nodes in the order of their printed ids. -/
def isNodeCommitTurn (cell : Cell) (now : ℕ) (config : CommitManagerConfig)
    (floorDiv : ℕ → ℕ → ℕ) : Res EngineError Bool := do
  let sortedNodes := (cell.withRole .chain).insertionSort fun a b => a.id.str ≤ b.id.str
  match sortedNodes.findIdx? fun n => n.id = cell.localNode with
  | none => .error (.error .myNodeNotFound)
  | some myNodePosition =>
    let epoch := floorDiv now config.commitMaximumInterval
    pure (epoch % sortedNodes.length = myNodePosition)

/-- The signature, and the block with it. -/
def createBlockSignature (localNode : NodeId) (time : ℕ) (block : PendingBlock) :
    Res EngineError (NewOperation × PendingBlock) := do
  let _ ← block.proposal.getBlock
  let signatureOperation ← liftError .operation
    (OperationBuilder.newSignatureForBlock block.groupId time localNode).signAndBuild
  let reader ← liftError .operation signatureOperation.frame.getReader
  let pendingSignature ← PendingBlockSignature.fromOperation reader
  pure (signatureOperation, block.addMySignature pendingSignature)

def createBlockRefusal (localNode : NodeId) (time : ℕ) (block : PendingBlock) :
    Res EngineError (NewOperation × PendingBlock) := do
  let refusalOperation ← liftError .operation
    (OperationBuilder.newRefusal block.groupId time localNode).signAndBuild
  let reader ← liftError .operation refusalOperation.frame.getReader
  let pendingRefusal ← PendingBlockRefusal.fromOperation reader
  pure (refusalOperation, block.addMyRefusal pendingRefusal)

section Checks
variable {CS : Type} [ChainStore CS]

/-- The first block of a chain has no previous one to compare with. -/
def validateBlockPreviousHash (header : BlockHeader) (chainStore : CS) : Res EngineError Unit :=
  if header.height > 0 then
    match ChainStore.getBlock chainStore header.previousOffset with
    | .error .panic => .error .panic
    | .error (.error _) => .error (.error .outOfSync)
    | .ok previousBlock => do
      let previousHash ← orError .serialization header.previousHash
      if previousBlock.header.multihashBytes ≠ previousHash then .error (.error .outOfSync)
      else pure ()
  else pure ()

/-- Whether one operation stays clear of the committed blocks, as far as the groups go. -/
def checkOperationBlocks (pendingBlocks : PendingBlocks) (chainStore : CS) (operationId : ℕ) :
    List ℕ → Res EngineError Bool
  | [] => pure true
  | blockId :: rest => do
    let status ← orPanic (pendingBlocks.blocksStatus.get blockId)
    if status = .pastCommitted then pure false
    else do
      let operationBlock ← liftError .chainStore
        (ChainStore.getBlockByOperationId chainStore operationId)
      if operationBlock.isSome then pure false
      else checkOperationBlocks pendingBlocks chainStore operationId rest

def checkOperations (pendingBlocks : PendingBlocks) (chainStore : CS)
    (order : ℕ → Sorting.HashOrder) : List ℕ → Res EngineError Bool
  | [] => pure true
  | operationId :: rest => do
    let groups ← orPanic (pendingBlocks.operationsBlocks.get operationId)
    let isClear ← checkOperationBlocks pendingBlocks chainStore operationId
      ((order operationId).order groups)
    if isClear then checkOperations pendingBlocks chainStore order rest
    else pure false

def checkShouldSignBlock (pendingBlocks : PendingBlocks) (chainStore : CS)
    (pendingStore : MemoryPendingStore) (order : ℕ → Sorting.HashOrder) (blockId : ℕ) :
    Res EngineError Bool := do
  let block ← pendingBlocks.getBlock blockId
  let blockFrame ← block.proposal.getBlock
  let header ← orError .serialization blockFrame.reader
  let isClear ← checkOperations pendingBlocks chainStore order block.operations
  if isClear then do
    validateBlockPreviousHash header chainStore
    let blockOperations ← getBlockOperations block pendingStore
    let operationsHash :=
      BlockOperations.hashOperations (blockOperations.map StoredOperation.frame)
    let hashBytes ← orError .serialization header.operationsHash
    match Crates.multihashFromBytes hashBytes with
    | none => pure false
    | some headerMultihash => pure (operationsHash = headerMultihash)
  else pure false

/-- The operations that no committed block has. A lookup that fails counts as not found. -/
def operationsToPropose (pendingBlocks : PendingBlocks) (chainStore : CS) :
    List StoredOperation → Res EngineError (List StoredOperation)
  | [] => pure []
  | operation :: rest =>
    let groups := (pendingBlocks.operationsBlocks.get operation.operationId).getD []
    let isCommitted := groups.any fun block =>
      pendingBlocks.blocksStatus.get block = some .pastCommitted
    match ChainStore.getBlockByOperationId chainStore operation.operationId with
    | .error .panic => .error .panic
    | found => do
      let others ← operationsToPropose pendingBlocks chainStore rest
      let inChain := match found with
        | .ok (some _) => true
        | _ => false
      if !isCommitted && !inChain then pure (operation :: others) else pure others

/-- The block that is to be written for a proposal that has its signatures. -/
def buildChainBlock (cell : Cell) (block : PendingBlock) (pendingStore : MemoryPendingStore)
    (chainStore : CS) : Res EngineError (DataBlock × BlockHeader × BlockOperations) := do
  let blockFrame ← block.proposal.getBlock
  let header ← orError .serialization blockFrame.reader
  let operations ← getBlockOperations block pendingStore
  let hashBytes ← orError .serialization header.operationsHash
  let headerMultihash ← orError (.fatal "Couldn't decode hash from block header")
    (Crates.multihashFromBytes hashBytes)
  let blockOperations ← liftError .block
    (BlockOperations.fromOperations (operations.map StoredOperation.frame))
  if blockOperations.hash ≠ headerMultihash then
    .error (.error (.fatal
      "Block hash for local entries didn't match block hash, but was previously signed"))
  else do
    validateBlockPreviousHash header chainStore
    let signatures := (block.signatures.filter (block.validateSignature cell)).map fun s =>
      (⟨s.nodeId, s.signature⟩ : BlockSignature)
    let signaturesFrame ← liftError .block (toFrameForExistingBlock signatures header)
    pure (⟨block.proposal.offset, blockFrame, blockOperations.data, signaturesFrame⟩, header,
      blockOperations)

/-- Depth below the last block: a plain subtraction of `u64`. -/
def blockDepth (overflowChecks : Bool) (lastHeight height : ℕ) : Res EngineError ℕ :=
  if height ≤ lastHeight then pure (lastHeight - height)
  else if overflowChecks then .error .panic
  else pure ((lastHeight + (2^64 - height % 2^64)) % 2^64)

/-- The operations of the chain that no proposal has, and that are deep enough. -/
def danglingOperations (config : CommitManagerConfig) (overflowChecks : Bool)
    (pendingBlocks : PendingBlocks) (chainStore : CS) (lastHeight : ℕ) :
    List StoredOperation → Res EngineError (List ℕ)
  | [] => pure []
  | operation :: rest =>
    if (pendingBlocks.operationsBlocks.get operation.operationId).isSome then
      danglingOperations config overflowChecks pendingBlocks chainStore lastHeight rest
    else do
      let found ← liftError .chainStore
        (ChainStore.getBlockByOperationId chainStore operation.operationId)
      match found with
      | none => danglingOperations config overflowChecks pendingBlocks chainStore lastHeight rest
      | some block => do
        let height ← liftError .block block.getHeight
        let depth ← blockDepth overflowChecks lastHeight height
        let others ←
          danglingOperations config overflowChecks pendingBlocks chainStore lastHeight rest
        if depth ≥ config.operationsCleanupAfterBlockDepth then
          pure (operation.operationId :: others)
        else pure others

end Checks

namespace CommitManager
variable {CS : Type} [ChainStore CS]

def signBlock (m : CommitManager) (p : PendingSynchronizer) (i : TickInput)
    (block : PendingBlock) : Action (CommitState CS) EngineError PendingBlock := do
  let (operation, signed) ← Action.lift (createBlockSignature m.cell.localNode i.signatureTime block)
  onPending (p.handleNewOperation operation)
  pure signed

def refuseBlock (m : CommitManager) (p : PendingSynchronizer) (i : TickInput)
    (block : PendingBlock) : Action (CommitState CS) EngineError PendingBlock := do
  let (operation, refused) ← Action.lift (createBlockRefusal m.cell.localNode i.signatureTime block)
  onPending (p.handleNewOperation operation)
  pure refused

/-- An error that is not fatal leaves the block as it is, it may just be invalid. -/
def signOrRefuseBlock (m : CommitManager) (p : PendingSynchronizer) (i : TickInput)
    (pendingBlocks : PendingBlocks) (block : PendingBlock) :
    Action (CommitState CS) EngineError PendingBlock := do
  let s ← Action.get
  match checkShouldSignBlock pendingBlocks s.chainStore s.pendingStore i.operationBlocksOrder
      block.groupId with
  | .ok true => m.signBlock p i block
  | .ok false => m.refuseBlock p i block
  | .error .panic => Action.lift (.error .panic)
  | .error (.error e) =>
    if e = .outOfSync ∨ e.isFatal then Action.lift (.error (.error e)) else pure block

def commitBlock (m : CommitManager) (block : PendingBlock) :
    Action (CommitState CS) EngineError Unit := do
  let s ← Action.get
  let (chainBlock, header, blockOperations) ←
    Action.lift (buildChainBlock m.cell block s.pendingStore s.chainStore)
  match ChainStore.writeBlock s.chainStore chainBlock with
  | (.error .panic, chainStore) => do
    Action.set { s with chainStore := chainStore }
    Action.lift (.error .panic)
  | (.error (.error e), chainStore) => do
    Action.set { s with chainStore := chainStore }
    match e with
    | .invalidNextBlock _ _ => Action.lift (.error (.error .outOfSync))
    | e => Action.lift (.error (.error (.chainStore e)))
  | (.ok _, chainStore) => do
    Action.set { s with chainStore := chainStore }
    updateCommitStatuses (.committed block.proposal.offset header.height)
      (blockOperations.headers.map BlockOperationHeader.operationId)
    pushNewChainBlock block.proposal.offset

def maybeCommitBlock (m : CommitManager) (block : PendingBlock) :
    Action (CommitState CS) EngineError Unit :=
  let validSignatures := block.signatures.filter (block.validateSignature m.cell)
  if block.hasMySignature && m.cell.hasQuorum validSignatures.length (some .chain) then
    m.commitBlock block
  else pure ()

def shouldProposeBlock (m : CommitManager) (i : TickInput) (chainStore : CS)
    (pendingBlocks : PendingBlocks) : Res EngineError Bool := do
  if !m.cell.localNodeHasRole .chain then pure false
  else if !(← isNodeCommitTurn m.cell i.turnTime m.config i.floorDiv) then pure false
  else
    let approxNonCommitted :=
      pendingBlocks.entriesOperationsCount - pendingBlocks.operationsBlocks.size
    if approxNonCommitted ≥ m.config.commitMaximumPendingStoreCount then pure true
    else do
      let lastBlock ← liftError .chainStore (ChainStore.getLastBlock chainStore)
      let previousBlock ← orError .uninitializedChain lastBlock
      let previousTime ← liftError .block previousBlock.getProposedOperationId
      if i.turnTime < previousTime then pure false
      else pure (i.turnTime - previousTime ≥ m.config.commitMaximumInterval)

/-- The proposal, none where there is nothing to commit. -/
def buildProposal (m : CommitManager) (i : TickInput) (pendingBlocks : PendingBlocks)
    (pendingStore : MemoryPendingStore) (chainStore : CS) :
    Res EngineError (Option NewOperation) := do
  let lastBlock ← liftError .chainStore (ChainStore.getLastBlock chainStore)
  let previousBlock ← orError .uninitializedChain lastBlock
  let operations ← liftError .pendingStore (pendingStore.operationsIter .unbounded .unbounded)
  let proposed ← operationsToPropose pendingBlocks chainStore
    (operations.filter fun op => op.operationType = .entry)
  let sorted := proposed.insertionSort fun a b => a.operationId ≤ b.operationId
  let blockOperations ← liftError .block
    (BlockOperations.fromOperations (sorted.map StoredOperation.frame))
  let block ← liftError .block
    (BlockBuilder.buildWithPrevBlock m.cell previousBlock i.proposalTime blockOperations)
  let headers ← liftError .block block.operationsHeader
  -- only the first operation of the block is looked at
  let first ← liftError .block (DataBlock.iterOperations block.operationsData (headers.take 1))
  if first.isEmpty then pure none
  else do
    let operation ← liftError .operation (OperationBuilder.newBlockProposalFromData i.proposalTime
      m.cell.localNode block.asDataVec).signAndBuild
    pure (some operation)

def proposeBlock (m : CommitManager) (p : PendingSynchronizer) (i : TickInput)
    (pendingBlocks : PendingBlocks) : Action (CommitState CS) EngineError Unit := do
  let s ← Action.get
  match ← Action.lift (m.buildProposal i pendingBlocks s.pendingStore s.chainStore) with
  | none => pure ()
  | some operation => onPending (p.handleNewOperation operation)

def maybeProposeBlock (m : CommitManager) (p : PendingSynchronizer) (i : TickInput)
    (pendingBlocks : PendingBlocks) : Action (CommitState CS) EngineError Unit := do
  let s ← Action.get
  let shouldPropose ← Action.lift (m.shouldProposeBlock i s.chainStore pendingBlocks)
  if shouldPropose then m.proposeBlock p i pendingBlocks else pure ()

/-- The block with our signature or refusal, once it was looked at. -/
def signNextBlock (m : CommitManager) (p : PendingSynchronizer) (i : TickInput)
    (pendingBlocks : PendingBlocks) (nextBlock : PendingBlock) :
    Action (CommitState CS) EngineError PendingBlock :=
  if !nextBlock.hasMySignature && !nextBlock.hasMyRefusal then
    m.signOrRefuseBlock p i pendingBlocks nextBlock
  else pure nextBlock

def cleanupBlock (m : CommitManager) (lastHeight : ℕ) (block : PendingBlock) :
    Action (CommitState CS) EngineError Unit :=
  if block.status = .pastCommitted ∨ block.status = .pastRefused then do
    let blockFrame ← Action.lift block.proposal.getBlock
    let header ← Action.lift (orError .serialization blockFrame.reader)
    if lastHeight - header.height ≥ m.config.operationsCleanupAfterBlockDepth then do
      deleteOperation block.groupId
      -- the operations of a refused block are still to be committed
      if block.status = .pastCommitted then deleteOperations block.operations else pure ()
      setPendingLastCleanupBlock header.offset header.height
    else pure ()
  else pure ()

def cleanupBlocks (m : CommitManager) (lastHeight : ℕ) :
    List PendingBlock → Action (CommitState CS) EngineError Unit
  | [] => pure ()
  | block :: rest => do
    m.cleanupBlock lastHeight block
    m.cleanupBlocks lastHeight rest

def cleanupDangling (m : CommitManager) (i : TickInput) (pendingBlocks : PendingBlocks)
    (lastHeight : ℕ) : Action (CommitState CS) EngineError Unit := do
  let approxNonCommitted :=
    pendingBlocks.entriesOperationsCount - pendingBlocks.operationsBlocks.size
  if approxNonCommitted > 0 then do
    let s ← Action.get
    let operations ← Action.lift
      (liftError .pendingStore (s.pendingStore.operationsIter .unbounded .unbounded))
    let toDelete ← Action.lift
      (danglingOperations m.config i.overflowChecks pendingBlocks s.chainStore lastHeight operations)
    deleteOperations toDelete
  else pure ()

def maybeCleanupPendingStore (m : CommitManager) (i : TickInput) (pendingBlocks : PendingBlocks) :
    Action (CommitState CS) EngineError Unit := do
  let s ← Action.get
  let lastBlock ← Action.lift (liftError .chainStore (ChainStore.getLastBlock s.chainStore))
  let lastStoredBlock ← Action.lift (orError .uninitializedChain lastBlock)
  let lastHeight ← Action.lift (liftError .block lastStoredBlock.getHeight)
  m.cleanupBlocks lastHeight (pendingBlocks.inOrder i.blocksOrder)
  m.cleanupDangling i pendingBlocks lastHeight

def tick (m : CommitManager) (p : PendingSynchronizer) (i : TickInput) :
    Action (CommitState CS) EngineError Unit := do
  let s ← Action.get
  let pendingBlocks ← Action.lift
    (PendingBlocks.new m.config i.now m.cell s.pendingStore s.chainStore)
  let potential ← Action.lift (pendingBlocks.potentialNextBlocks i.blocksOrder i.sorter)
  match potential.head? with
  | some nextBlock => do
    let nextBlock ← m.signNextBlock p i pendingBlocks nextBlock
    m.maybeCommitBlock nextBlock
    m.maybeCleanupPendingStore i (pendingBlocks.setBlock nextBlock)
  | none => do
    m.maybeProposeBlock p i pendingBlocks
    m.maybeCleanupPendingStore i pendingBlocks

end CommitManager

end Exocore.Engine
