import Exocore.LibSortedMap
import Exocore.ChainSegment

/-! The operation index: operation id to block offset, in memory up to a number of items and
then in immutable files that each cover a range of offsets. -/
namespace Exocore.Chain

open Exocore.Core

/-- An immutable index file, a sorted map for the range of blocks `start..stop`. -/
structure StoredIndex where
  start : ℕ
  stop : ℕ
  entries : SortedMap.Map ℕ ℕ

structure OperationIndex where
  memoryOffsetFrom : ℕ
  memoryIndex : SortedMap.Map ℕ ℕ
  nextExpectedOffset : ℕ
  storedIndices : List StoredIndex

namespace OperationIndex

def create : OperationIndex := ⟨0, .empty, 0, []⟩

def putOperationBlock (i : OperationIndex) (operationId blockOffset : ℕ) : OperationIndex :=
  { i with memoryIndex := i.memoryIndex.insert operationId blockOffset }

/-- The first map that has the operation wins, the one in memory before the files. -/
def getOperationBlock (i : OperationIndex) (operationId : ℕ) : Option ℕ :=
  match i.memoryIndex.get operationId with
  | some blockOffset => some blockOffset
  | none => i.storedIndices.findSome? fun index => index.entries.get operationId

def maybeFlushToDisk (config : DirectoryChainStoreConfig) (i : OperationIndex) : OperationIndex :=
  if i.memoryIndex.size > config.operationIndexMaxMemoryItems then
    { i with
      storedIndices := i.storedIndices ++
        [⟨i.memoryOffsetFrom, i.nextExpectedOffset, i.memoryIndex⟩]
      memoryOffsetFrom := i.nextExpectedOffset
      memoryIndex := .empty }
  else i

/-- Below the part in memory, every file that reaches the offset is dropped. The map in
memory is only cleared in the other branch. -/
def truncateFromOffset (i : OperationIndex) (fromOffset : ℕ) : OperationIndex :=
  if fromOffset ≥ i.memoryOffsetFrom then
    { i with
      memoryIndex := .empty
      nextExpectedOffset := i.memoryOffsetFrom }
  else
    let kept := i.storedIndices.filter fun index => !decide (index.stop ≥ fromOffset)
    let nextExpected := (kept.getLast?.map StoredIndex.stop).getD 0
    { i with
      storedIndices := kept
      nextExpectedOffset := nextExpected
      memoryOffsetFrom := nextExpected }

variable [Crates]

/-- The loop of `index_block` over the iterator of operations. -/
def indexOperations (operationsData : Bytes) (blockOffset : ℕ) :
    List BlockOperationHeader → OperationIndex → Res ChainError Unit × OperationIndex
  | [], i => (.ok (), i)
  | h :: rest, i => match h.readFrame operationsData with
    | .error .panic => (.error .panic, i)
    | .error (.error _) => (.ok (), i)
    | .ok frame => match frame.frame.reader with
      | none => (.error (.error .serialization), i)
      | some reader =>
        indexOperations operationsData blockOffset rest
          (i.putOperationBlock reader.operationId blockOffset)

def indexBlock (config : DirectoryChainStoreConfig) (i : OperationIndex) (block : DataBlock) :
    Res ChainError Unit × OperationIndex :=
  if i.nextExpectedOffset ≠ block.offset then
    (.error (.error (.integrity ("Tried to index operations from a block with unexpected " ++
      s!"offset: block={block.offset} != expected={i.nextExpectedOffset}"))), i)
  else match block.header.reader with
    | none => (.error (.error (.block .serialization)), i)
    | some header =>
      -- the operation that lead to the block proposal goes first
      let i := i.putOperationBlock header.proposedOperationId block.offset
      match header.operationsHeader with
      | none => (.error (.error (.block .serialization)), i)
      | some headers =>
        match indexOperations block.operationsData block.offset headers i with
        | (.error e, i) => (.error e, i)
        | (.ok (), i) =>
          (.ok (), maybeFlushToDisk config { i with nextExpectedOffset := block.nextOffset })

/-- A block that is already covered by the files is skipped. -/
def indexBlocks (config : DirectoryChainStoreConfig) :
    List (Res ChainError DataBlock) → OperationIndex → Res ChainError Unit × OperationIndex
  | [], i => (.ok (), i)
  | .error e :: _, i => (.error e, i)
  | .ok block :: rest, i =>
    if block.offset ≥ i.memoryOffsetFrom then
      match indexBlock config i block with
      | (.error e, i) => (.error e, i)
      | (.ok (), i) => indexBlocks config rest i
    else indexBlocks config rest i

end OperationIndex

end Exocore.Chain
