import Exocore.LibSort
import Exocore.ChainDirectory
import Exocore.EngineContext
import Exocore.PendingRange

/-! The proposals of the pending store with their signatures and refusals, as the commit
manager finds them at a tick. -/
namespace Exocore.Engine

open Exocore.Core Exocore.Chain Exocore.Pending SortedMap

/-- Durations are in nanoseconds. -/
structure CommitManagerConfig where
  operationsCleanupAfterBlockDepth : ℕ
  commitMaximumPendingStoreCount : ℕ
  commitMaximumInterval : ℕ
  blockProposalTimeout : ℕ

def CommitManagerConfig.default : CommitManagerConfig := ⟨6, 10, 3000000000, 7000000000⟩

/-- What the commit manager uses of a chain store. -/
class ChainStore (CS : Type) where
  getLastBlock : CS → Res ChainError (Option DataBlock)
  getBlock : CS → ℕ → Res ChainError DataBlock
  getBlockByOperationId : CS → ℕ → Res ChainError (Option DataBlock)
  writeBlock : CS → DataBlock → Res ChainError ℕ × CS

instance [Crates] : ChainStore DirectoryChainStore where
  getLastBlock := DirectoryChainStore.getLastBlock
  getBlock := DirectoryChainStore.getBlock
  getBlockByOperationId := DirectoryChainStore.getBlockByOperationId
  writeBlock := DirectoryChainStore.writeBlock

inductive BlockStatus where
  | pastRefused
  | pastCommitted
  | pastDiverged
  | nextExpired
  | nextPotential
  | nextRefused
deriving DecidableEq

structure PendingBlockRefusal where
  nodeId : NodeId
deriving DecidableEq

structure PendingBlockSignature where
  nodeId : NodeId
  signature : Bytes
deriving DecidableEq

variable [Crates]

/-- The node of an operation, which must be a peer id. -/
def readNodeId (reader : ChainOperation) : Res EngineError NodeId := do
  let nodeIdStr ← orError .serialization reader.nodeId
  orError (.other s!"Couldn't convert to NodeID: {nodeIdStr}") (Crates.nodeIdFromStr nodeIdStr)

def PendingBlockSignature.fromOperation (reader : ChainOperation) :
    Res EngineError PendingBlockSignature :=
  match reader.operation with
  | .blockSign sig => do
    let signatureReader ← orError .serialization sig
    let nodeId ← readNodeId reader
    let signature ← orError .serialization signatureReader.nodeSignature
    pure ⟨nodeId, signature⟩
  | .notInSchema code => .error (.error (.serializationNotInSchema code))
  | _ => .error (.error (.other
      "Expected block sign pending op to create block signature, but got something else"))

def PendingBlockRefusal.fromOperation (reader : ChainOperation) :
    Res EngineError PendingBlockRefusal :=
  match reader.operation with
  | .blockRefuse => do
    let nodeId ← readNodeId reader
    pure ⟨nodeId⟩
  | .notInSchema code => .error (.error (.serializationNotInSchema code))
  | _ => .error (.error (.other
      "Expected block refuse pending op to create block refusal, but got something else"))

structure PendingBlockProposal where
  node : Option NodeId
  offset : ℕ
  operation : StoredOperation
deriving DecidableEq

namespace PendingBlockProposal

def getBlock (p : PendingBlockProposal) : Res EngineError BlockHeaderFrame := do
  let reader ← orError .serialization p.operation.frame.frame.reader
  match reader.operation with
  | .blockPropose block => do
    let data ← orError .serialization block
    liftError .block (readHeaderFrame data)
  | .notInSchema code => .error (.error (.serializationNotInSchema code))
  | _ => .error (.error (.other
      "Expected block sign pending op to create block signature, but got something else"))

/-- A proposal of the future has not expired. -/
def hasExpired (p : PendingBlockProposal) (config : CommitManagerConfig) (now : ℕ) : Bool :=
  if now < p.operation.operationId then false
  else now - p.operation.operationId ≥ config.blockProposalTimeout

end PendingBlockProposal

structure PendingBlock where
  groupId : ℕ
  status : BlockStatus
  proposal : PendingBlockProposal
  refusals : List PendingBlockRefusal
  signatures : List PendingBlockSignature
  hasMyRefusal : Bool
  hasMySignature : Bool
  operations : List ℕ
deriving DecidableEq

namespace PendingBlock

def addMySignature (b : PendingBlock) (signature : PendingBlockSignature) : PendingBlock :=
  { b with signatures := b.signatures ++ [signature], hasMySignature := true }

def addMyRefusal (b : PendingBlock) (refusal : PendingBlockRefusal) : PendingBlock :=
  { b with refusals := b.refusals ++ [refusal], hasMyRefusal := true }

/-- The node has to be in the cell; the signature itself is not verified yet. -/
def validateSignature (b : PendingBlock) (cell : Cell) (signature : PendingBlockSignature) :
    Bool :=
  match cell.get signature.nodeId with
  | none => false
  | some _ => match b.proposal.getBlock with
    | .error _ => false
    | .ok _ => true

def comparePotentialNextBlock (a b : PendingBlock) : Ordering :=
  if a.hasMySignature then .gt
  else if b.hasMySignature then .lt
  else match compare a.signatures.length b.signatures.length with
    | .gt => .gt
    | .lt => .lt
    | .eq => if a.groupId < b.groupId then .gt else .lt

end PendingBlock

/-- The order in which the next blocks are sorted, best first. -/
def bestFirst (a b : PendingBlock) : Ordering := (PendingBlock.comparePotentialNextBlock a b).swap

/-- What was found in the group of a proposal. -/
structure GroupParts where
  operations : List ℕ
  proposal : Option PendingBlockProposal
  signatures : List PendingBlockSignature
  refusals : List PendingBlockRefusal

/-- One operation of the group. Several proposals add up their operations, the last stays. -/
def GroupParts.add (cell : Cell) (parts : GroupParts) (operation : StoredOperation) :
    Res EngineError GroupParts := do
  let reader ← orError .serialization operation.frame.frame.reader
  match reader.operation with
  | .blockPropose block => do
    let data ← orError .serialization block
    let blockFrame ← liftError .block (readHeaderFrame data)
    let header ← orError .serialization blockFrame.reader
    let operationsHeader ← orError .serialization header.operationsHeader
    let nodeId ← readNodeId reader
    pure { parts with
      operations := parts.operations ++ operationsHeader.map BlockOperationHeader.operationId
      proposal := some ⟨(cell.get nodeId).map CellNode.id, header.offset, operation⟩ }
  | .blockSign _ => do
    let signature ← PendingBlockSignature.fromOperation reader
    pure { parts with signatures := parts.signatures ++ [signature] }
  | .blockRefuse => do
    let refusal ← PendingBlockRefusal.fromOperation reader
    pure { parts with refusals := parts.refusals ++ [refusal] }
  | .entry _ => pure parts
  | .notInSchema code => .error (.error (.serializationNotInSchema code))

def GroupParts.collect (cell : Cell) : List StoredOperation → GroupParts → Res EngineError GroupParts
  | [], parts => pure parts
  | operation :: rest, parts => do
    let parts' ← parts.add cell operation
    GroupParts.collect cell rest parts'

structure PendingBlocks where
  blocks : Map ℕ PendingBlock
  blocksStatus : Map ℕ BlockStatus
  operationsBlocks : Map ℕ (List ℕ)
  entriesOperationsCount : ℕ

/-- One more group for the operation, in a set of groups. -/
def addOperationBlock (groupId : ℕ) (m : Map ℕ (List ℕ)) (operationId : ℕ) : Map ℕ (List ℕ) :=
  let groups := (m.get operationId).getD []
  m.insert operationId (if groupId ∈ groups then groups else groups ++ [groupId])

def mapOperationsBlocks (blocks : Map ℕ PendingBlock) : Map ℕ (List ℕ) :=
  blocks.values.foldl
    (fun m block => block.operations.foldl (addOperationBlock block.groupId) m) .empty

def mapBlocksStatus (blocks : Map ℕ PendingBlock) : Map ℕ BlockStatus :=
  blocks.entries.foldl (fun m e => m.insert e.1 e.2.status) .empty

section Status
variable {CS : Type} [ChainStore CS]

/-- Status of a proposal for which the chain has no block. -/
def nextStatus (offset expectedNextOffset : ℕ) (refused expired : Bool) : BlockStatus :=
  if refused then .nextRefused
  else if expired then .nextExpired
  else if offset < expectedNextOffset then .pastRefused
  else .nextPotential

def blockStatus (chainStore : CS) (groupId offset expectedNextOffset : ℕ)
    (hasSigsQuorum refused expired : Bool) : Res EngineError BlockStatus :=
  match ChainStore.getBlock chainStore offset with
  | .ok block => do
    let proposedId ← liftError .block block.getProposedOperationId
    if proposedId = groupId then pure .pastCommitted
    else if hasSigsQuorum then pure .pastDiverged
    else pure .pastRefused
  | .error .panic => .error .panic
  | .error (.error e) =>
    if e.isFatal then .error (.error (.chainStore e))
    else pure (nextStatus offset expectedNextOffset refused expired)

/-- The pending block of a group, once its operations were read. -/
def GroupParts.pendingBlock (parts : GroupParts) (config : CommitManagerConfig) (now : ℕ)
    (cell : Cell) (chainStore : CS) (expectedNextOffset groupId : ℕ) :
    Res EngineError PendingBlock := do
  let proposal ← orPanic parts.proposal
  let hasMyRefusal := parts.refusals.any fun r => r.nodeId = cell.localNode
  let hasMySignature := parts.signatures.any fun s => s.nodeId = cell.localNode
  let hasSigsQuorum := cell.hasQuorum parts.signatures.length (some .chain)
  let hasRefusalQuorum := cell.hasQuorum parts.refusals.length (some .chain)
  let hasExpired := proposal.hasExpired config now
  let status ← blockStatus chainStore groupId proposal.offset expectedNextOffset hasSigsQuorum
    (hasRefusalQuorum || hasMyRefusal) hasExpired
  pure ⟨groupId, status, proposal, parts.refusals, parts.signatures, hasMyRefusal,
    hasMySignature, parts.operations⟩

/-- The blocks of the groups, in the order of the proposals. -/
def readBlocks (config : CommitManagerConfig) (now : ℕ) (cell : Cell)
    (pendingStore : MemoryPendingStore) (chainStore : CS) (expectedNextOffset : ℕ) :
    List ℕ → Map ℕ PendingBlock → Res EngineError (Map ℕ PendingBlock)
  | [], blocks => pure blocks
  | groupId :: rest, blocks => match pendingStore.getGroupOperations groupId with
    | none => readBlocks config now cell pendingStore chainStore expectedNextOffset rest blocks
    | some groupOperations => do
      let parts ← GroupParts.collect cell groupOperations ⟨[], none, [], []⟩
      let block ← parts.pendingBlock config now cell chainStore expectedNextOffset groupId
      readBlocks config now cell pendingStore chainStore expectedNextOffset rest
        (blocks.insert groupId block)

namespace PendingBlocks

def new (config : CommitManagerConfig) (now : ℕ) (cell : Cell)
    (pendingStore : MemoryPendingStore) (chainStore : CS) : Res EngineError PendingBlocks := do
  let lastBlock ← liftError .chainStore (ChainStore.getLastBlock chainStore)
  let lastStoredBlock ← orError .uninitializedChain lastBlock
  let operations ← liftError .pendingStore (pendingStore.operationsIter .unbounded .unbounded)
  let proposals := operations.filter fun op => op.operationType = .blockPropose
  let entries := operations.filter fun op => op.operationType = .entry
  let blocks ← readBlocks config now cell pendingStore chainStore lastStoredBlock.nextOffset
    (proposals.map StoredOperation.operationId) .empty
  pure ⟨blocks, mapBlocksStatus blocks, mapOperationsBlocks blocks, entries.length⟩

end PendingBlocks

end Status

namespace PendingBlocks

def getBlock (b : PendingBlocks) (groupId : ℕ) : Res EngineError PendingBlock :=
  orPanic (b.blocks.get groupId)

/-- The block is changed in place. -/
def setBlock (b : PendingBlocks) (block : PendingBlock) : PendingBlocks :=
  { b with blocks := b.blocks.insert block.groupId block }

/-- The blocks in the order of the hash map. -/
def inOrder (b : PendingBlocks) (hash : Sorting.HashOrder) : List PendingBlock :=
  (hash.order b.blocks.keys).filterMap b.blocks.get

def potentialNextBlocks (b : PendingBlocks) (hash : Sorting.HashOrder)
    (sorter : Sorting.Sorter PendingBlock bestFirst) : Res EngineError (List PendingBlock) :=
  orPanic (sorter.sort ((b.inOrder hash).filter fun block => block.status = .nextPotential))

end PendingBlocks

end Exocore.Engine
