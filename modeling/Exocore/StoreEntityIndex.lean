import Exocore.CoreAction
import Exocore.EngineContext
import Exocore.StoreAggregator

/-! The entity index. The mutations of the chain layer are held by two mutation indices: one for
the blocks that are deep enough in the chain, one for what is above them and in the pending
store. -/
namespace Exocore.Store

open Exocore.Core

/-- What the index reads of the message of a trait. -/
structure TraitMessage where
  fullName : String
  hasReference : Bool
deriving DecidableEq

structure Trait where
  id : TraitId
  message : Option TraitMessage
  creationDate : Option DateTime
  modificationDate : Option DateTime
deriving DecidableEq

inductive Mutation where
  | putTrait (trt : Option Trait)
  | deleteTrait (traitId : TraitId)
  | deleteEntity
  | deleteOperations (operationIds : List OperationId)
  | test
deriving DecidableEq

structure EntityMutation where
  entityId : String
  mutation : Option Mutation
deriving DecidableEq

inductive StoreError where
  | protoFieldExpected (field : String)
  | noBlocks
  | divergedBefore (diverged lastIndexed : BlockOffset)
  | chainEngine (e : Engine.EngineError)
deriving DecidableEq

inductive EngineOperationStatus where
  | committed (offset : BlockOffset) (height : ℕ)
  | pending
deriving DecidableEq

/-- An operation of the chain layer, with the entity mutation that its entry decodes to. -/
structure EngineOperation where
  operationId : OperationId
  status : EngineOperationStatus
  entityMutation : Option EntityMutation
deriving DecidableEq

structure ChainBlock where
  offset : BlockOffset
  nextOffset : BlockOffset
  height : ℕ
  operations : List (OperationId × Option EntityMutation)
deriving DecidableEq

inductive EngineEvent where
  | started
  | streamDiscontinuity
  | newPendingOperation (operationId : OperationId)
  | newChainBlock (offset : BlockOffset)
  | chainDiverged (offset : BlockOffset)
deriving DecidableEq

/-- What the handle of the engine reads: the blocks of the chain in their order and the
operations of the pending store in theirs. -/
structure EngineHandle where
  blocks : List ChainBlock
  pending : List EngineOperation

namespace ChainBlock

def engineOperations (block : ChainBlock) : List EngineOperation :=
  block.operations.map fun op => ⟨op.1, .committed block.offset block.height, op.2⟩

end ChainBlock

namespace EngineHandle

def getChainBlock (engine : EngineHandle) (offset : BlockOffset) : Option ChainBlock :=
  engine.blocks.find? fun block => block.offset = offset

def getChainBlockInfo (engine : EngineHandle) (offset : BlockOffset) :
    Option (BlockOffset × ℕ) :=
  (engine.getChainBlock offset).map fun block => (block.offset, block.height)

def getChainLastBlockInfo (engine : EngineHandle) : Option (BlockOffset × ℕ) :=
  engine.blocks.getLast?.map fun block => (block.offset, block.height)

/-- The iterator goes from block to block by their next offsets, and ends where it finds none.
The first argument bounds the number of blocks. -/
def operationsFrom (engine : EngineHandle) : ℕ → BlockOffset → List EngineOperation
  | 0, _ => []
  | fuel + 1, offset => match engine.getChainBlock offset with
    | some block => block.engineOperations ++ operationsFrom engine fuel block.nextOffset
    | none => []

def getChainOperations (engine : EngineHandle) (fromOffset : Option BlockOffset) :
    List EngineOperation :=
  engine.operationsFrom engine.blocks.length (fromOffset.getD 0)

def getPendingOperation (engine : EngineHandle) (operationId : OperationId) :
    Option EngineOperation :=
  engine.pending.find? fun op => op.operationId = operationId

end EngineHandle

inductive IndexOperation where
  | putTrait (blockOffset : Option BlockOffset) (operationId : OperationId) (entityId : String)
      (trt : Trait)
  | putTraitTombstone (blockOffset : Option BlockOffset) (operationId : OperationId)
      (entityId : String) (traitId : TraitId)
  | putEntityTombstone (blockOffset : Option BlockOffset) (operationId : OperationId)
      (entityId : String)
  | deleteEntityOperation (entityId : String) (operationId : OperationId)
  | pendingDeletionMarker (entityId : String) (operationId : OperationId)
deriving DecidableEq

namespace IndexOperation

def fromPendingEngineOperation (op : EngineOperation) : List IndexOperation :=
  match op.entityMutation with
  | none => []
  | some entityMutation => match entityMutation.mutation with
    | some (.putTrait (some trt)) => [.putTrait none op.operationId entityMutation.entityId trt]
    | some (.deleteTrait traitId) =>
      [.putTraitTombstone none op.operationId entityMutation.entityId traitId]
    | some .deleteEntity => [.putEntityTombstone none op.operationId entityMutation.entityId]
    | some (.deleteOperations _) =>
      [.pendingDeletionMarker entityMutation.entityId op.operationId]
    | some (.putTrait none) | some .test | none => []

def fromChainEntityMutation (entityMutation : EntityMutation) (operationId : OperationId)
    (blockOffset : BlockOffset) : List IndexOperation :=
  match entityMutation.mutation with
  | some (.putTrait (some trt)) =>
    [.putTrait (some blockOffset) operationId entityMutation.entityId trt]
  | some (.deleteTrait traitId) =>
    [.putTraitTombstone (some blockOffset) operationId entityMutation.entityId traitId]
  | some .deleteEntity => [.putEntityTombstone (some blockOffset) operationId
      entityMutation.entityId]
  | some (.deleteOperations operationIds) =>
    operationIds.map (.deleteEntityOperation entityMutation.entityId)
  | some (.putTrait none) | some .test | none => []

/-- The operations on the chain index, with the entity they are of. -/
def fromChainEngineOperation (op : EngineOperation) (blockOffset : BlockOffset) :
    List IndexOperation × String :=
  match op.entityMutation with
  | none => ([], "")
  | some entityMutation =>
    (fromChainEntityMutation entityMutation op.operationId blockOffset, entityMutation.entityId)

end IndexOperation

/-- A full-text index. Its writer holds what was written since the last commit as well; the
searches see the documents of the last commit only. -/
structure MutationIndex where
  written : List MutationMetadata
  committed : List MutationMetadata
deriving DecidableEq

namespace MutationIndex

def create : MutationIndex := ⟨[], []⟩

def traitPutToDocument (blockOffset : Option BlockOffset) (operationId : OperationId)
    (entityId : String) (trt : Trait) : Res StoreError MutationMetadata :=
  match trt.message with
  | some message => .ok ⟨operationId, blockOffset, entityId, .traitPut
      ⟨trt.id, some message.fullName, trt.creationDate, trt.modificationDate,
        message.hasReference⟩⟩
  | none => .error (.error (.protoFieldExpected "Trait message"))

/-- One operation on the documents of the writer. A deletion is by the operation's id alone. -/
def write : IndexOperation → Action (List MutationMetadata) StoreError Unit
  | .putTrait blockOffset operationId entityId trt => do
    let doc ← Action.lift (traitPutToDocument blockOffset operationId entityId trt)
    let docs ← Action.get
    Action.set (docs ++ [doc])
  | .putTraitTombstone blockOffset operationId entityId traitId => do
    let docs ← Action.get
    Action.set (docs ++ [⟨operationId, blockOffset, entityId, .traitTombstone traitId⟩])
  | .putEntityTombstone blockOffset operationId entityId => do
    let docs ← Action.get
    Action.set (docs ++ [⟨operationId, blockOffset, entityId, .entityTombstone⟩])
  | .pendingDeletionMarker entityId operationId => do
    let docs ← Action.get
    Action.set (docs ++ [⟨operationId, none, entityId, .pendingDeletion⟩])
  | .deleteEntityOperation _ operationId => do
    let docs ← Action.get
    Action.set (docs.filter fun doc => doc.operationId ≠ operationId)

def writeAll : List IndexOperation → Action (List MutationMetadata) StoreError Unit
  | [] => pure ()
  | op :: ops => do
    write op
    writeAll ops

/-- A failure leaves what was written before it in the writer, to be committed with the next
operations. -/
def applyOperations (ops : List IndexOperation) : Action MutationIndex StoreError ℕ := fun index =>
  match writeAll ops index.written with
  | (.ok (), docs) => (.ok ops.length, if ops = [] then index else ⟨docs, docs⟩)
  | (.error e, docs) => (.error e, ⟨docs, index.committed⟩)

/-- The field reads as zero in a document without it. -/
def highestIndexedBlock (index : MutationIndex) : Option BlockOffset :=
  (index.committed.map fun doc => doc.blockOffset.getD 0).max?

end MutationIndex

structure EntityIndexConfig where
  chainIndexMinDepth : ℕ
  chainIndexDepthLeeway : ℕ
  chainIndexInMemory : Bool

structure EntityIndex where
  config : EntityIndexConfig
  pendingIndex : MutationIndex
  chainIndex : MutationIndex
  chainIndexLastBlock : Option BlockOffset

namespace EntityIndex

def onPendingIndex {A : Type} (x : Action MutationIndex StoreError A) :
    Action EntityIndex StoreError A := fun index =>
  let (result, pendingIndex) := x index.pendingIndex
  (result, { index with pendingIndex })

def onChainIndex {A : Type} (x : Action MutationIndex StoreError A) :
    Action EntityIndex StoreError A := fun index =>
  let (result, chainIndex) := x index.chainIndex
  (result, { index with chainIndex })

def modify (f : EntityIndex → EntityIndex) : Action EntityIndex StoreError Unit := fun index =>
  (.ok (), f index)

def lastChainIndexedBlock (index : EntityIndex) (engine : EngineHandle) :
    Option (BlockOffset × ℕ) :=
  (index.chainIndexLastBlock.or index.chainIndex.highestIndexedBlock).bind
    engine.getChainBlockInfo

/-- The subtraction of heights panics or wraps, as the overflow checks are compiled. -/
def indexedDepth (overflowChecks : Bool) (lastHeight indexedHeight : ℕ) : Res StoreError ℕ :=
  if indexedHeight ≤ lastHeight then .ok (lastHeight - indexedHeight)
  else if overflowChecks then .error .panic
  else .ok (lastHeight + 2^64 - indexedHeight)

/-- Whether the last indexed block is not deep enough for new blocks to be indexed. -/
def isShallow (overflowChecks : Bool) (config : EntityIndexConfig) (lastHeight : ℕ) :
    Option (BlockOffset × ℕ) → Res StoreError Bool
  | some (_, indexedHeight) => do
    let depth ← indexedDepth overflowChecks lastHeight indexedHeight
    pure (decide (depth < config.chainIndexMinDepth) ||
      decide (depth < config.chainIndexDepthLeeway))
  | none => .ok false

/-- Whether an operation of the chain is deep enough and after the offset, with its offset. -/
def indexable (config : EntityIndexConfig) (lastHeight : ℕ) (offsetFrom : BlockOffset)
    (op : EngineOperation) : Option (BlockOffset × EngineOperation) :=
  match op.status with
  | .committed offset height =>
    if offsetFrom < offset ∧ config.chainIndexMinDepth ≤ lastHeight - height then
      some (offset, op)
    else none
  | .pending => none

/-- The deletion of an operation from the pending index once it is in the chain index. -/
def pendingDeletion (entry : BlockOffset × EngineOperation) : IndexOperation :=
  .deleteEntityOperation (IndexOperation.fromChainEngineOperation entry.2 entry.1).2
    entry.2.operationId

/-- The operations it went through and the number of operations it deleted from the pending
index. -/
def indexChainNewBlocks (overflowChecks : Bool) (engine : EngineHandle) :
    Action EntityIndex StoreError (List OperationId × ℕ) := do
  let (_, lastHeight) ← Action.lift (orError .noBlocks engine.getChainLastBlockInfo)
  let index ← Action.get
  let lastIndexedBlock := index.lastChainIndexedBlock engine
  let offsetFrom := lastIndexedBlock.map Prod.fst
  let shallow ← Action.lift (isShallow overflowChecks index.config lastHeight lastIndexedBlock)
  if shallow then pure ([], 0)
  else do
    let operations := engine.getChainOperations offsetFrom
    let indexed := operations.filterMap (indexable index.config lastHeight (offsetFrom.getD 0))
    let _ ← onChainIndex (MutationIndex.applyOperations
      (indexed.flatMap fun entry => (IndexOperation.fromChainEngineOperation entry.2 entry.1).1))
    -- an empty pending index has nothing to delete, and the last block is then not noted
    let pendingMutations :=
      if index.pendingIndex.highestIndexedBlock.isNone then [] else indexed.map pendingDeletion
    if pendingMutations.length > 0 then do
      let _ ← onPendingIndex (MutationIndex.applyOperations pendingMutations)
      modify fun index => { index with
        chainIndexLastBlock := (indexed.map Prod.fst).max?.or index.chainIndexLastBlock }
    pure (operations.map EngineOperation.operationId, pendingMutations.length)

/-- The operations that are indexed again: those of the blocks after the last indexed one, and
those of the pending store that are not committed. -/
def unindexedOperations (engine : EngineHandle) (lastOffset : BlockOffset) :
    List EngineOperation :=
  ((engine.getChainOperations (some lastOffset)).filter fun op => match op.status with
    | .committed offset _ => decide (lastOffset < offset)
    | .pending => false) ++
  engine.pending.filter fun op => op.status = .pending

def reindexPending (engine : EngineHandle) : Action EntityIndex StoreError Unit := do
  modify fun index => { index with pendingIndex := .create }
  let index ← Action.get
  let lastOffset := ((index.lastChainIndexedBlock engine).map Prod.fst).getD 0
  let _ ← onPendingIndex (MutationIndex.applyOperations
    ((unindexedOperations engine lastOffset).flatMap IndexOperation.fromPendingEngineOperation))
  pure ()

/-- The note of the last block is kept. -/
def reindexChain (overflowChecks : Bool) (engine : EngineHandle) :
    Action EntityIndex StoreError Unit := do
  modify fun index => { index with chainIndex := .create }
  let _ ← indexChainNewBlocks overflowChecks engine
  reindexPending engine

/-- Opens the chain index with the documents that were committed to it. -/
def openOrCreate (overflowChecks : Bool) (config : EntityIndexConfig)
    (stored : List MutationMetadata) (engine : EngineHandle) :
    Res StoreError Unit × EntityIndex :=
  let docs := if config.chainIndexInMemory then [] else stored
  let opened : Action EntityIndex StoreError Unit := do
    let index ← Action.get
    if index.chainIndex.highestIndexedBlock.isNone && engine.getChainLastBlockInfo.isSome then
      reindexChain overflowChecks engine
    reindexPending engine
  opened ⟨config, .create, ⟨docs, docs⟩, none⟩

def handleChainPendingOperations (engine : EngineHandle) (operationIds : List OperationId) :
    Action EntityIndex StoreError ℕ :=
  onPendingIndex (MutationIndex.applyOperations (operationIds.flatMap fun id =>
    match engine.getPendingOperation id with
    | some op => IndexOperation.fromPendingEngineOperation op
    | none => []))

/-- The collected operations are applied before an event of another kind. -/
def applyBatch (engine : EngineHandle) (batched : List OperationId) :
    Action EntityIndex StoreError ℕ :=
  if batched = [] then pure 0 else handleChainPendingOperations engine batched

/-- An event that is not of a pending operation: the operations it affects and the number of
index operations that is counted for it. -/
def handleEvent (overflowChecks : Bool) (engine : EngineHandle) :
    EngineEvent → Action EntityIndex StoreError (List OperationId × ℕ)
  | .started => do
    let (affected, _) ← indexChainNewBlocks overflowChecks engine
    reindexPending engine
    pure (affected, 0)
  | .streamDiscontinuity => do
    reindexPending engine
    pure ([], 0)
  | .newChainBlock _ => indexChainNewBlocks overflowChecks engine
  | .chainDiverged diverged => do
    let index ← Action.get
    match index.chainIndex.highestIndexedBlock with
    | some lastIndexed =>
      if lastIndexed < diverged then reindexPending engine
      else Action.lift (.error (.error (.divergedBefore diverged lastIndexed)))
    | none => reindexChain overflowChecks engine
    pure ([], 0)
  | .newPendingOperation _ => Action.lift (.error .panic)

/-- The loop over the events, with the pending operations collected so far. -/
def handleEvents (overflowChecks : Bool) (engine : EngineHandle) :
    List OperationId → List EngineEvent →
      Action EntityIndex StoreError (List OperationId × ℕ)
  | batched, [] => do
    let count ← applyBatch engine batched
    pure ([], count)
  | batched, .newPendingOperation id :: events => do
    let (affected, count) ← handleEvents overflowChecks engine (batched ++ [id]) events
    pure (id :: affected, count)
  | batched, event :: events => do
    let batchCount ← applyBatch engine batched
    let (affected, count) ← handleEvent overflowChecks engine event
    let (affected', count') ← handleEvents overflowChecks engine [] events
    pure (affected ++ affected', batchCount + count + count')

def handleChainEngineEvents (overflowChecks : Bool) (engine : EngineHandle)
    (events : List EngineEvent) : Action EntityIndex StoreError (List OperationId × ℕ) :=
  handleEvents overflowChecks engine [] events

def maybeIndexChainBlocks (overflowChecks : Bool) (engine : EngineHandle) :
    Action EntityIndex StoreError (List OperationId) := do
  let (affected, _) ← indexChainNewBlocks overflowChecks engine
  pure affected

end EntityIndex

end Exocore.Store
