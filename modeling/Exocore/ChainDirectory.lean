import Exocore.ChainOperationIndex

/-! The directory chain store: segments, the operation index, and the operations on both.
An operation returns the store as it leaves it, also when it fails. -/
namespace Exocore.Chain

open Exocore.Core

structure DirectoryChainStore where
  config : DirectoryChainStoreConfig
  segments : List DirectorySegment
  operationIndex : Option OperationIndex

/-- `Segment` of the store's interface, the range `start..stop` of offsets. -/
structure Segment where
  start : ℕ
  stop : ℕ
deriving DecidableEq

namespace DirectoryChainStore

def create (config : DirectoryChainStoreConfig) : DirectoryChainStore :=
  ⟨config, [], some OperationIndex.create⟩

/-- The method of the store's interface. -/
def segmentRanges (s : DirectoryChainStore) : List Segment :=
  s.segments.map fun seg => ⟨seg.firstBlockOffset, seg.nextBlockOffset⟩

def closeWriteLast : List DirectorySegment → List DirectorySegment
  | [] => []
  | [seg] => [{ seg with segmentFile := seg.segmentFile.closeWrite }]
  | seg :: rest => seg :: closeWriteLast rest

def needNewSegment (s : DirectoryChainStore) (block : DataBlock) : Bool :=
  match s.segments.getLast? with
  | none => true
  | some seg => seg.nextFileOffset + block.totalSize > s.config.segmentMaxSize

/-- The part of `write_block` before the index: the segments with the block in the last. -/
def writeSegment (s : DirectoryChainStore) (block : DataBlock) :
    Res ChainError Unit × List DirectorySegment :=
  if s.needNewSegment block then
    let segments := closeWriteLast s.segments
    match DirectorySegment.create s.config (segments.map (·.firstBlockOffset)) block with
    | .error e => (.error e, segments)
    | .ok seg => (.ok (), segments ++ [{ seg with segmentFile := seg.segmentFile.openWrite }])
  else match s.segments.getLast? with
    | none => (.error .panic, s.segments)
    | some seg => match seg.writeBlock s.config block with
      | .error e => (.error e, s.segments)
      | .ok seg => (.ok (), s.segments.dropLast ++ [seg])

def compareSegment (blockOffset : ℕ) (seg : DirectorySegment) : Ordering :=
  if blockOffset ≥ seg.firstBlockOffset ∧ blockOffset < seg.nextBlockOffset then .eq
  else if blockOffset < seg.firstBlockOffset then .gt
  else .lt

variable [Crates]

def getSegmentIndexForBlockOffset (s : DirectoryChainStore) (blockOffset : ℕ) : Option ℕ :=
  Search.binarySearchBy (compareSegment blockOffset) s.segments

def getSegmentForBlockOffset (s : DirectoryChainStore) (blockOffset : ℕ) :
    Option DirectorySegment := do
  let index ← s.getSegmentIndexForBlockOffset blockOffset
  s.segments[index]?

def getSegmentForNextBlockOffset (s : DirectoryChainStore) (nextBlockOffset : ℕ) :
    Option DirectorySegment :=
  if nextBlockOffset > 0 then s.getSegmentForBlockOffset (nextBlockOffset - 1) else none

def writeBlock (s : DirectoryChainStore) (block : DataBlock) :
    Res ChainError ℕ × DirectoryChainStore :=
  match s.writeSegment block with
  | (.error e, segments) => (.error e, { s with segments := segments })
  | (.ok (), segments) =>
    let s := { s with segments := segments }
    match s.operationIndex, segments.getLast? with
    | some index, some seg => match index.indexBlock s.config block with
      | (.error e, index) => (.error e, { s with operationIndex := some index })
      | (.ok (), index) => (.ok seg.nextBlockOffset, { s with operationIndex := some index })
    | _, _ => (.error .panic, s)

def getBlock (s : DirectoryChainStore) (offset : ℕ) : Res ChainError DataBlock :=
  match s.getSegmentForBlockOffset offset with
  | none => .error (.error (.outOfBound s!"No segment has block with offset {offset}"))
  | some seg => seg.getBlock offset

def getBlockFromNextOffset (s : DirectoryChainStore) (nextOffset : ℕ) :
    Res ChainError DataBlock :=
  match s.getSegmentForNextBlockOffset nextOffset with
  | none => .error (.error (.outOfBound s!"No segment has block with next offset {nextOffset}"))
  | some seg => seg.getBlockFromNextOffset nextOffset

def getLastBlock (s : DirectoryChainStore) : Res ChainError (Option DataBlock) :=
  match s.segments.getLast? with
  | none => .ok none
  | some seg => do
    let block ← seg.getBlockFromNextOffset seg.nextBlockOffset
    pure (some block)

def getBlockByOperationId (s : DirectoryChainStore) (operationId : ℕ) :
    Res ChainError (Option DataBlock) := do
  let index ← orPanic s.operationIndex
  match index.getOperationBlock operationId with
  | none => pure none
  | some blockOffset =>
    let block ← s.getBlock blockOffset
    pure (some block)

/-- `DirectoryBlockIterator`. -/
structure BlockIterator where
  currentOffset : ℕ
  currentSegment : Option DirectorySegment
  done : Bool

/-- The segment is kept from one block to the next and looked up at the end of it. -/
def BlockIterator.segment (s : DirectoryChainStore) (it : BlockIterator) :
    Option DirectorySegment :=
  match it.currentSegment with
  | some seg => some seg
  | none => s.getSegmentForBlockOffset it.currentOffset

def BlockIterator.next (s : DirectoryChainStore) (it : BlockIterator) :
    Option (Res ChainError DataBlock) × BlockIterator :=
  if it.done then (none, it)
  else match it.segment s with
    | none => (none, it)
    | some seg =>
      let it := { it with currentSegment := some seg }
      match seg.getBlock it.currentOffset with
      | .error e => (some (.error e), it)
      | .ok block =>
        let dataSize := block.totalSize
        let endOfSegment := it.currentOffset + dataSize ≥ seg.nextBlockOffset
        let it := if endOfSegment then { it with currentSegment := none } else it
        (some (.ok block), { it with currentOffset := it.currentOffset + dataSize })

/-- What the iterator yields, up to its end or its first error. -/
def BlockIterator.collect (s : DirectoryChainStore) :
    ℕ → BlockIterator → List (Res ChainError DataBlock)
  | 0, _ => []
  | fuel + 1, it => match it.next s with
    | (none, _) => []
    | (some (.error e), _) => [.error e]
    | (some (.ok block), it) => .ok block :: BlockIterator.collect s fuel it

/-- Each block moves the iterator by at least one byte, the end of the chain bounds it. -/
def blocksIter (s : DirectoryChainStore) (fromOffset : ℕ) : List (Res ChainError DataBlock) :=
  let fuel := ((s.segments.map (·.nextBlockOffset)).foldl max 0) + 1
  BlockIterator.collect s fuel ⟨fromOffset, none, false⟩

/-- The segment of the reverse iterator, which starts at the end of a block. -/
def BlockIterator.segmentReverse (s : DirectoryChainStore) (it : BlockIterator) :
    Option DirectorySegment :=
  match it.currentSegment with
  | some seg => some seg
  | none => s.getSegmentForNextBlockOffset it.currentOffset

/-- `next` of `DirectoryBlockReverseIterator`. -/
def BlockIterator.nextReverse (s : DirectoryChainStore) (it : BlockIterator) :
    Option (Res ChainError DataBlock) × BlockIterator :=
  if it.done then (none, it)
  else match it.segmentReverse s with
    | none => (none, it)
    | some seg =>
      let it := { it with currentSegment := some seg }
      match seg.getBlockFromNextOffset it.currentOffset with
      | .error e => (some (.error e), it)
      | .ok block =>
        let dataSize := block.totalSize
        let endOfSegment := dataSize + 1 > it.currentOffset ∨
          it.currentOffset - dataSize - 1 < seg.firstBlockOffset
        let it := if endOfSegment then { it with currentSegment := none } else it
        if dataSize > it.currentOffset then (some (.ok block), { it with done := true })
        else (some (.ok block), { it with currentOffset := it.currentOffset - dataSize })

def BlockIterator.collectReverse (s : DirectoryChainStore) :
    ℕ → BlockIterator → List (Res ChainError DataBlock)
  | 0, _ => []
  | fuel + 1, it => match it.nextReverse s with
    | (none, _) => []
    | (some (.error e), _) => [.error e]
    | (some (.ok block), it) => .ok block :: BlockIterator.collectReverse s fuel it

def blocksIterReverse (s : DirectoryChainStore) (fromNextOffset : ℕ) :
    List (Res ChainError DataBlock) :=
  BlockIterator.collectReverse s (fromNextOffset + 1) ⟨fromNextOffset, none, false⟩

/-- The segments of `truncate_from_offset`: one is cut, those after it are deleted. -/
def truncateSegments (s : DirectoryChainStore) (offset : ℕ) :
    Res ChainError (List DirectorySegment) := do
  let segmentIndex ← orError (.outOfBound s!"No segment has offset {offset}")
    (s.getSegmentIndexForBlockOffset offset)
  let segment ← orPanic s.segments[segmentIndex]?
  if offset > segment.firstBlockOffset then
    let segment ← segment.truncateFromBlockOffset offset
    pure (s.segments.take segmentIndex ++ [segment])
  else pure (s.segments.take segmentIndex)

/-- The index is taken out of the store and only put back once it was rebuilt. -/
def truncateFromOffset (s : DirectoryChainStore) (offset : ℕ) :
    Res ChainError Unit × DirectoryChainStore :=
  match s.truncateSegments offset with
  | .error e => (.error e, s)
  | .ok segments => match s.operationIndex with
    | none => (.error .panic, { s with segments := segments })
    | some index =>
      let s := { s with segments := segments, operationIndex := none }
      let index := index.truncateFromOffset offset
      match index.indexBlocks s.config (s.blocksIter index.nextExpectedOffset) with
      | (.error e, _) => (.error e, s)
      | (.ok (), index) => (.ok (), { s with operationIndex := some index })

end DirectoryChainStore

end Exocore.Chain
