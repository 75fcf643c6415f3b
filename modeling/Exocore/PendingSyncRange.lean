import Exocore.EngineContext
import Exocore.PendingRange

/-! The builders of the ranges of a sync request. -/
namespace Exocore.Engine

open Exocore.Core Exocore.Chain Exocore.Pending

inductive OperationDetailsLevel where
  | header
  | full
  | none
deriving DecidableEq

structure PendingSyncConfig where
  maxOperationsPerRange : ℕ
  operationsDepthAfterCleanup : ℕ

variable [Crates]

/-- Either the bytes the hasher was fed, or a hash that was known from the start. -/
inductive RangeHash where
  | hasher (input : Bytes)
  | hash (value : Multihash)
deriving DecidableEq

structure SyncRangeBuilder where
  fromOperation : Bound
  toOperation : Bound
  operations : List StoredOperation
  operationsHeaders : List StoredOperation
  operationsCount : ℕ
  hash : RangeHash
deriving DecidableEq

namespace SyncRangeBuilder

def new (fromOperation toOperation : Bound) : SyncRangeBuilder :=
  ⟨fromOperation, toOperation, [], [], 0, .hasher []⟩

def newHashed (operationsRange : Bound × Bound) (operationsHash : Multihash)
    (operationsCount : ℕ) : SyncRangeBuilder :=
  ⟨operationsRange.1, operationsRange.2, [], [], operationsCount, .hash operationsHash⟩

def pushOperation (b : SyncRangeBuilder) (operation : StoredOperation)
    (details : OperationDetailsLevel) : SyncRangeBuilder where
  fromOperation := b.fromOperation
  toOperation := .included operation.operationId
  operations := match details with
    | .full => b.operations ++ [operation]
    | _ => b.operations
  operationsHeaders := match details with
    | .header => b.operationsHeaders ++ [operation]
    | _ => b.operationsHeaders
  operationsCount := b.operationsCount + 1
  hash := match b.hash with
    | .hasher input => .hasher (input ++ operation.frame.multihashBytes)
    | .hash value => .hash value

/-- The bound as the number and the flag of the message; no bound is an excluded 0. -/
def writeBound : Bound → ℕ × Bool
  | .included bound => (bound, true)
  | .excluded bound => (bound, false)
  | .unbounded => (0, false)

def headerMessage (operation : StoredOperation) : OperationHeaderMessage :=
  ⟨operation.groupId, operation.operationId, operation.frame.multihashBytes⟩

def writeIntoSyncRangeBuilder (b : SyncRangeBuilder) : PendingSyncRange where
  fromOperation := (writeBound b.fromOperation).1
  fromIncluded := (writeBound b.fromOperation).2
  toOperation := (writeBound b.toOperation).1
  toIncluded := (writeBound b.toOperation).2
  operationsHash := some (Crates.multihashToBytes (match b.hash with
    | .hash value => value
    | .hasher input => toMultihash input))
  operationsCount := b.operationsCount
  operationsFrames := .ofList (b.operations.map fun op => some op.frame.wholeData)
  operationsHeaders := .ofList (b.operationsHeaders.map headerMessage)

end SyncRangeBuilder

structure SyncRangesBuilder where
  config : PendingSyncConfig
  ranges : List SyncRangeBuilder

namespace SyncRangesBuilder

def new (config : PendingSyncConfig) : SyncRangesBuilder := ⟨config, []⟩

def pushRange (b : SyncRangesBuilder) (range : SyncRangeBuilder) : SyncRangesBuilder :=
  { b with ranges := b.ranges ++ [range] }

def pushNewRange (b : SyncRangesBuilder) (fromBound : Bound) : SyncRangesBuilder :=
  b.pushRange (.new fromBound .unbounded)

/-- The last range, replaced. -/
def updateLast (b : SyncRangesBuilder) (f : SyncRangeBuilder → SyncRangeBuilder) :
    SyncRangesBuilder :=
  { b with ranges := match b.ranges.getLast? with
      | none => b.ranges
      | some last => b.ranges.dropLast ++ [f last] }

def setLastRangeToBound (b : SyncRangesBuilder) (toBound : Bound) : SyncRangesBuilder :=
  b.updateLast fun range => { range with toOperation := toBound }

/-- A full range makes place for a new one, that starts after its last operation. -/
def pushOperation (b : SyncRangesBuilder) (operation : StoredOperation)
    (details : OperationDetailsLevel) : Res EngineError SyncRangesBuilder := do
  let ready ← match b.ranges.getLast? with
    | none => pure (b.pushNewRange .unbounded)
    | some last =>
      if last.operationsCount > b.config.maxOperationsPerRange then
        match last.toOperation with
        | .included bound => pure (b.pushNewRange (.excluded bound))
        | _ => .error .panic
      else pure b
  pure (ready.updateLast fun range => range.pushOperation operation details)

/-- The loops of the source that push operations, each with its details. -/
def pushOperations (b : SyncRangesBuilder) :
    List (StoredOperation × OperationDetailsLevel) → Res EngineError SyncRangesBuilder
  | [] => pure b
  | (operation, details) :: rest => do
    let b' ← b.pushOperation operation details
    b'.pushOperations rest

end SyncRangesBuilder

abbrev SyncBounds := (Bound × Bound) × ℕ × ℕ

def readBound : ℕ → Bool → Bound
  | 0, false => .unbounded
  | bound, true => .included bound
  | bound, false => .excluded bound

def extractSyncBounds (range : PendingSyncRange) : SyncBounds :=
  ((readBound range.fromOperation range.fromIncluded, readBound range.toOperation range.toIncluded),
    range.fromOperation, range.toOperation)

end Exocore.Engine
