import Exocore.ChainBlockRead

/-! A segment of the chain: one file that is mapped, over-allocated and re-mapped, and the
two cursors kept beside it. -/
namespace Exocore.Chain

open Exocore.Core

inductive ChainError where
  | block (e : BlockError)
  | unexpectedState (msg : String)
  | integrity (msg : String)
  | invalidNextBlock (offset expectedOffset : ℕ)
  | serialization
  | outOfBound (msg : String)
  | io (msg : String)
  | directoryError
  | poisoned
  | other (msg : String)
deriving DecidableEq

def ChainError.isFatal : ChainError → Bool
  | .unexpectedState _ => true
  | .integrity _ => true
  | .io _ => true
  | _ => false

structure DirectoryChainStoreConfig where
  segmentOverAllocateSize : ℕ
  segmentMaxSize : ℕ
  operationIndexMaxMemoryItems : ℕ

/-- A file that is not mapped for writing is mapped for reading on the next access. -/
inductive SegmentMmap where
  | write
  | read
deriving DecidableEq

/-- The size that is kept beside the file is that of the file. -/
structure SegmentFile where
  data : Bytes
  currentSize : ℕ
  mmap : SegmentMmap
  sized : currentSize = data.length

structure DirectorySegment where
  segmentFile : SegmentFile
  firstBlockOffset : ℕ
  nextBlockOffset : ℕ
  nextFileOffset : ℕ

namespace SegmentFile

/-- The file after `set_len`: cut, or grown with zeros. -/
def resize (data : Bytes) (size : ℕ) : Bytes :=
  data.take size ++ List.replicate (size - data.length) 0

theorem resize_length (data : Bytes) (size : ℕ) : (resize data size).length = size := by
  simp only [resize, List.length_append, List.length_take, List.length_replicate]
  omega

/-- `open` on a path that may hold a file already. -/
def openFile (existing : Bytes) (minimumSize : ℕ) : SegmentFile :=
  if existing.length < minimumSize then
    ⟨resize existing minimumSize, minimumSize, .read, (resize_length existing minimumSize).symm⟩
  else ⟨existing, existing.length, .read, rfl⟩

def closeWrite (f : SegmentFile) : SegmentFile := { f with mmap := .read }

def openWrite (f : SegmentFile) : SegmentFile := { f with mmap := .write }

def setLen (f : SegmentFile) (newSize : ℕ) : SegmentFile :=
  ⟨resize f.data newSize, newSize, .write, (resize_length f.data newSize).symm⟩

theorem copied_sized (f : SegmentFile) (offset : ℕ) (block : DataBlock) (into written : Bytes)
    (hinto : slice f.data offset f.data.length = some into)
    (hwritten : block.copyDataInto into = some written) :
    f.currentSize = (f.data.take offset ++ written).length := by
  rw [slice] at hinto
  split_ifs at hinto with hbound
  rw [DataBlock.copyDataInto] at hwritten
  split_ifs at hwritten with hroom
  rw [← Option.some.inj hwritten, f.sized]
  rw [← Option.some.inj hinto] at hroom ⊢
  simp only [List.length_append, List.length_take, List.length_drop,
    DataBlock.asDataVec_length] at hroom ⊢
  omega

/-- The copy panics where the mapped file has no room for the block. -/
def writeBlock (f : SegmentFile) (offset : ℕ) (block : DataBlock) : Res ChainError SegmentFile :=
  match hinto : slice f.data offset f.data.length with
  | none => .error .panic
  | some into => match hwritten : block.copyDataInto into with
    | none => .error .panic
    | some written => .ok ⟨f.data.take offset ++ written, f.currentSize, .write,
        f.copied_sized offset block into written hinto hwritten⟩

/-- A write with room for the block replaces as many bytes at the offset. -/
theorem writeBlock_eq_ok (f : SegmentFile) (offset : ℕ) (block : DataBlock)
    (h : offset + block.totalSize ≤ f.data.length) :
    ∃ f', f.writeBlock offset block = .ok f' ∧
      f'.data = f.data.take offset ++ block.asDataVec ++ f.data.drop (offset + block.totalSize) ∧
      f'.mmap = .write := by
  have hslice : slice f.data offset f.data.length = some (f.data.drop offset) := by
    rw [slice, if_pos (by omega), List.take_length]
  have hcopy : block.copyDataInto (f.data.drop offset) =
      some (block.asDataVec ++ f.data.drop (offset + block.totalSize)) := by
    rw [DataBlock.copyDataInto, if_pos (by rw [List.length_drop]; omega), List.drop_drop]
  unfold writeBlock
  split
  · rename_i hnone
    rw [hslice] at hnone
    contradiction
  · rename_i into hinto
    rw [hslice] at hinto
    obtain rfl := Option.some.inj hinto
    split
    · rename_i hnone
      rw [hcopy] at hnone
      contradiction
    · rename_i written hwritten
      rw [hcopy] at hwritten
      obtain rfl := Option.some.inj hwritten
      exact ⟨_, rfl, (List.append_assoc _ _ _).symm, rfl⟩

/-- A write without room panics. -/
theorem room_of_writeBlock (f f' : SegmentFile) (offset : ℕ) (block : DataBlock)
    (h : f.writeBlock offset block = .ok f') : offset + block.totalSize ≤ f.data.length := by
  unfold writeBlock at h
  split at h
  · contradiction
  · rename_i into hinto
    split at h
    · contradiction
    · rename_i written hwritten
      rw [slice] at hinto
      split_ifs at hinto with hbound
      rw [DataBlock.copyDataInto] at hwritten
      split_ifs at hwritten with hroom
      rw [← Option.some.inj hinto, List.length_drop, List.take_length] at hroom
      omega

variable [Crates]

def getBlock (f : SegmentFile) (offset : ℕ) : Res ChainError DataBlock :=
  match f.mmap with
  | .write => do
    let data ← orPanic (slice f.data offset f.data.length)
    let block ← liftError ChainError.block (DataBlock.new .ref data)
    liftError ChainError.block (DataBlock.new .bytes block.asDataVec)
  | .read => do
    let data ← orPanic (slice f.data offset f.currentSize)
    liftError ChainError.block (DataBlock.new .ref data)

def getBlockFromNext (f : SegmentFile) (nextOffset : ℕ) : Res ChainError DataBlock :=
  match f.mmap with
  | .write => do
    let block ← liftError ChainError.block (DataBlock.newFromNextOffset .ref f.data nextOffset)
    liftError ChainError.block (DataBlock.new .bytes block.asDataVec)
  | .read => do
    let data ← orPanic (slice f.data 0 f.currentSize)
    liftError ChainError.block (DataBlock.newFromNextOffset .ref data nextOffset)

end SegmentFile

namespace DirectorySegment

/-- The file of a segment is named after its first offset, `existing` are the offsets that
have a file already. -/
def create (config : DirectoryChainStoreConfig) (existing : List ℕ) (block : DataBlock) :
    Res ChainError DirectorySegment := do
  let header ← orPanic block.header.reader
  let firstBlockOffset := header.offset
  if firstBlockOffset ∈ existing then
    .error (.error (.unexpectedState (s!"Tried to create a new segment at path " ++
      s!"seg_{firstBlockOffset}.bin, but already existed")))
  else
    let blockSize := block.totalSize
    let segmentAllocSize := max config.segmentOverAllocateSize blockSize
    let segmentFile ← (SegmentFile.openFile [] segmentAllocSize).writeBlock 0 block
    pure ⟨segmentFile, firstBlockOffset, firstBlockOffset + blockSize, blockSize⟩

def ensureFileSize (config : DirectoryChainStoreConfig) (s : DirectorySegment) (writeSize : ℕ) :
    DirectorySegment :=
  if s.segmentFile.currentSize < s.nextFileOffset + writeSize then
    let targetSize := s.nextFileOffset + writeSize + config.segmentOverAllocateSize
    { s with segmentFile := s.segmentFile.setLen targetSize }
  else s

def writeBlock (config : DirectoryChainStoreConfig) (s : DirectorySegment) (block : DataBlock) :
    Res ChainError DirectorySegment := do
  let nextFileOffset := s.nextFileOffset
  let blockSize := block.totalSize
  if s.nextBlockOffset ≠ block.offset then
    .error (.error (.invalidNextBlock block.offset s.nextBlockOffset))
  else
    let s := s.ensureFileSize config blockSize
    let segmentFile ← s.segmentFile.writeBlock nextFileOffset block
    pure { s with
      segmentFile := segmentFile
      nextFileOffset := s.nextFileOffset + blockSize
      nextBlockOffset := s.nextBlockOffset + blockSize }

/-- Only the block cursor moves, the file cursor is left where it was. -/
def truncateFromBlockOffset (s : DirectorySegment) (blockOffset : ℕ) :
    Res ChainError DirectorySegment :=
  if blockOffset < s.firstBlockOffset then
    .error (.error (.outOfBound (s!"Offset {blockOffset} is before first block offset of " ++
      s!"segment {s.firstBlockOffset}")))
  else
    let keepLen := blockOffset - s.firstBlockOffset
    .ok { s with
      nextBlockOffset := blockOffset
      segmentFile := s.segmentFile.setLen keepLen }

variable [Crates]

def getBlock (s : DirectorySegment) (offset : ℕ) : Res ChainError DataBlock :=
  if offset < s.firstBlockOffset then
    .error (.error (.outOfBound (s!"Tried to read block at {offset}, but first offset was " ++
      s!"at {s.firstBlockOffset}")))
  else if offset ≥ s.nextBlockOffset then
    .error (.error (.outOfBound (s!"Tried to read block at {offset}, but next offset was " ++
      s!"at {s.nextBlockOffset}")))
  else s.segmentFile.getBlock (offset - s.firstBlockOffset)

def getBlockFromNextOffset (s : DirectorySegment) (nextOffset : ℕ) :
    Res ChainError DataBlock :=
  if nextOffset < s.firstBlockOffset then
    .error (.error (.outOfBound (s!"Tried to read block from next offset {nextOffset}, but " ++
      s!"first offset was at {s.firstBlockOffset}")))
  else if nextOffset > s.nextBlockOffset then
    .error (.error (.outOfBound (s!"Tried to read block from next offset {nextOffset}, but " ++
      s!"next offset was at {s.nextBlockOffset}")))
  else s.segmentFile.getBlockFromNext (nextOffset - s.firstBlockOffset)

end DirectorySegment

end Exocore.Chain
