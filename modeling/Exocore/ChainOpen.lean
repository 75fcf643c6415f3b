import Exocore.ChainHolds

/-! Opening a chain from its directory: the segment files, the offsets saved beside them, and
the scan of a file whose offsets were not saved. -/
namespace Exocore.Chain

open Exocore.Core

/-- The entries of `metadata.json`. -/
structure SegmentMetadata where
  filename : String
  firstBlockOffset : ℕ
  nextBlockOffset : ℕ
deriving DecidableEq

/-- What is on disk: the entries in the order they are listed, the saved offsets when they
could be read, and the files of the operation index. -/
structure ChainDirectory where
  files : List (String × Bytes)
  metadata : Option (List SegmentMetadata)
  operationIndex : Option (List StoredIndex)

namespace DirectorySegment

def segmentPath (firstOffset : ℕ) : String := s!"seg_{firstOffset}.bin"

def isSegmentFile (filename : String) : Bool := filename.startsWith "seg_"

def metadata (s : DirectorySegment) : SegmentMetadata :=
  ⟨segmentPath s.firstBlockOffset, s.firstBlockOffset, s.nextBlockOffset⟩

def openWithMetadata (data : Bytes) (m : SegmentMetadata) : DirectorySegment :=
  ⟨SegmentFile.openFile data 0, m.firstBlockOffset, m.nextBlockOffset,
    m.nextBlockOffset - m.firstBlockOffset⟩

end DirectorySegment

section Scan
variable [Crates]

/-- `last` of `SegmentBlockIterator`, which ends at the first block that does not read. Each
block moves it by at least the size of its header frame. -/
def SegmentFile.lastBlock (f : SegmentFile) :
    ℕ → ℕ → Option DataBlock → Res ChainError (Option DataBlock)
  | 0, _, last => .ok last
  | fuel + 1, currentOffset, last =>
    if currentOffset ≥ f.currentSize then .ok last
    else match f.getBlock currentOffset with
      | .ok block => f.lastBlock fuel (currentOffset + block.totalSize) (some block)
      | .error (.error _) => .ok last
      | .error .panic => .error .panic

def SegmentMetadata.fromSegmentFile (filename : String) (segment : SegmentFile) :
    Res ChainError SegmentMetadata := do
  let firstBlock ← segment.getBlock 0
  let last ← segment.lastBlock (segment.currentSize + 1) 0 none
  let lastBlock ← orError (.integrity
    "Couldn't find last block of segment: no blocks returned by iterator") last
  pure ⟨filename, firstBlock.offset, lastBlock.offset + lastBlock.totalSize⟩

/-- `open` of a segment whose offsets were not saved. -/
def DirectorySegment.openScan (filename : String) (data : Bytes) :
    Res ChainError DirectorySegment := do
  let metadata ← SegmentMetadata.fromSegmentFile filename (SegmentFile.openFile data 0)
  pure (openWithMetadata data metadata)

end Scan

/-- `open` of the index: the files it listed, and nothing in memory. -/
def OperationIndex.openStored (stored : List StoredIndex) : OperationIndex :=
  let nextExpectedOffset := (stored.getLast?.map StoredIndex.stop).getD 0
  ⟨nextExpectedOffset, .empty, nextExpectedOffset, stored⟩

/-- A store and the offsets it last saved. The last segment is still written to and is never
saved. -/
structure StoreOnDisk where
  store : DirectoryChainStore
  metadata : Option (List SegmentMetadata)

namespace StoreOnDisk

def create (config : DirectoryChainStoreConfig) : StoreOnDisk :=
  ⟨DirectoryChainStore.create config, none⟩

def saveMetadata (segments : List DirectorySegment) : List SegmentMetadata :=
  (segments.map DirectorySegment.metadata).dropLast

/-- The offsets are saved right after a segment was added, before the block is indexed. -/
def savedByWrite (d : StoreOnDisk) (block : DataBlock) : Option (List SegmentMetadata) :=
  if d.store.needNewSegment block then
    match d.store.writeSegment block with
    | (.ok (), segments) => some (saveMetadata segments)
    | (.error _, _) => d.metadata
  else d.metadata

def segmentFile (s : DirectorySegment) : String × Bytes :=
  (DirectorySegment.segmentPath s.firstBlockOffset, s.segmentFile.data)

/-- A directory as the store leaves it: its segment files among other entries, in any order. -/
structure LeftIn (d : StoreOnDisk) (dir : ChainDirectory) : Prop where
  files : ∃ others : List (String × Bytes),
    (∀ f ∈ others, DirectorySegment.isSegmentFile f.1 = false) ∧
      dir.files.Perm (d.store.segments.map segmentFile ++ others)
  metadata : dir.metadata = d.metadata
  operationIndex : dir.operationIndex = d.store.operationIndex.map OperationIndex.storedIndices

variable [Crates]

def writeBlock (d : StoreOnDisk) (block : DataBlock) : Res ChainError ℕ × StoreOnDisk :=
  let (res, store) := d.store.writeBlock block
  (res, ⟨store, d.savedByWrite block⟩)

end StoreOnDisk

namespace DirectoryChainStore

/-- The last segment is the one that is written to. -/
def openWriteLast (segments : List DirectorySegment) : List DirectorySegment :=
  match segments.getLast? with
  | none => []
  | some seg => segments.dropLast ++ [{ seg with segmentFile := seg.segmentFile.openWrite }]

def sortByFirstOffset (segments : List DirectorySegment) : List DirectorySegment :=
  segments.insertionSort fun a b => a.firstBlockOffset ≤ b.firstBlockOffset

variable [Crates]

/-- The saved offsets of a file are trusted, a file without is scanned. -/
def openSegment (segmentsMetadata : List SegmentMetadata) (file : String × Bytes) :
    Res ChainError DirectorySegment :=
  -- of two entries for one file the hash map keeps the last
  match segmentsMetadata.reverse.find? fun m => m.filename = file.1 with
  | some metadata => .ok (DirectorySegment.openWithMetadata file.2 metadata)
  | none => DirectorySegment.openScan file.1 file.2

def openSegments (segmentsMetadata : List SegmentMetadata) :
    List (String × Bytes) → Res ChainError (List DirectorySegment)
  | [] => .ok []
  | file :: rest =>
    if DirectorySegment.isSegmentFile file.1 then do
      let segment ← openSegment segmentsMetadata file
      let segments ← openSegments segmentsMetadata rest
      pure (segment :: segments)
    else openSegments segmentsMetadata rest

/-- The part of `open` after the segments: what the index has not stored is indexed again. -/
def openIndex (config : DirectoryChainStoreConfig) (segments : List DirectorySegment)
    (stored : Option (List StoredIndex)) : Res ChainError DirectoryChainStore := do
  let stored ← orError (.unexpectedState "Operation index metadata file didn't exist") stored
  let store : DirectoryChainStore := ⟨config, segments, none⟩
  let index := OperationIndex.openStored stored
  match index.indexBlocks config (store.blocksIter index.nextExpectedOffset) with
  | (.error e, _) => .error e
  | (.ok (), index) => pure { store with operationIndex := some index }

/-- `open`; the offsets it saves again at its end are those it just read or found. -/
def openDirectory (config : DirectoryChainStoreConfig) (dir : ChainDirectory) :
    Res ChainError DirectoryChainStore := do
  let segments ← openSegments (dir.metadata.getD []) dir.files
  openIndex config (openWriteLast (sortByFirstOffset segments)) dir.operationIndex

end DirectoryChainStore

end Exocore.Chain
