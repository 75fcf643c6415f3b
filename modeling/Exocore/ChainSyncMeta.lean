import Exocore.CommitBlock

/-! Metadata of blocks: what two chains are compared by, and the part of a chain that a node
answers a request for headers with. -/
namespace Exocore.Engine

open Exocore.Core Exocore.Chain

/-- The settings of the request tracker are left out with the tracker. -/
structure ChainSyncConfig where
  metaSyncMaxFailures : ℕ
  metadataSyncBeginCount : ℕ
  metadataSyncEndCount : ℕ
  metadataSyncSampledCount : ℕ
  metadataSyncSegmentsBoundariesThreshold : ℕ
  blocksMaxSendSize : ℕ
  maxLeaderCommonBlockHeightDelta : ℕ

def ChainSyncConfig.default : ChainSyncConfig := ⟨2, 5, 5, 10, 5, 2 * 1024 * 1024, 5⟩

/-- What the chain synchronizer uses of a chain store. -/
class ChainRangeStore (CS : Type) extends ChainStore CS where
  segments : CS → List Segment
  blocksIter : CS → ℕ → List (Res ChainError DataBlock)
  blocksIterReverse : CS → ℕ → List (Res ChainError DataBlock)
  getBlockFromNextOffset : CS → ℕ → Res ChainError DataBlock

instance [Crates] : ChainRangeStore DirectoryChainStore where
  segments := DirectoryChainStore.segmentRanges
  blocksIter := DirectoryChainStore.blocksIter
  blocksIterReverse := DirectoryChainStore.blocksIterReverse
  getBlockFromNextOffset := DirectoryChainStore.getBlockFromNextOffset

/-- A subtraction of 64-bit words panics or wraps, as the overflow checks are compiled. -/
def wordSub (overflowChecks : Bool) (a b : ℕ) : Res EngineError ℕ :=
  if b ≤ a then .ok (a - b)
  else if overflowChecks then .error .panic
  else .ok (a + 2^64 - b)

def wordSucc (overflowChecks : Bool) (a : ℕ) : Res EngineError ℕ :=
  if a + 1 < 2^64 then .ok (a + 1)
  else if overflowChecks then .error .panic
  else .ok ((a + 1) % 2^64)

def filterInRange (segments : List Segment) (fromOffset toOffset : Option ℕ) : List Segment :=
  segments.filter fun segment =>
    fromOffset.getD 0 ≤ segment.stop ∧ segment.start ≤ toOffset.getD (2^64 - 1)

structure BlockMetadata where
  offset : ℕ
  height : ℕ
  hash : Bytes
  previousOffset : ℕ
  previousHash : Bytes
  blockSize : ℕ
  operationsSize : ℕ
  signaturesSize : ℕ
deriving DecidableEq

namespace BlockMetadata

def fromStoredBlock (block : DataBlock) : Res EngineError BlockMetadata := do
  let reader ← orError .serialization block.header.reader
  let previousHash ← orError .serialization reader.previousHash
  pure
    { offset := block.offset
      height := reader.height
      hash := block.header.multihashBytes
      previousOffset := reader.previousOffset
      previousHash := previousHash
      blockSize := block.header.wholeData.length % 2^32
      operationsSize := reader.operationsSize
      signaturesSize := reader.signaturesSize }

def fromBlockPartialMetadataReader (reader : BlockPartialHeader) :
    Res EngineError BlockMetadata := do
  let hash ← orError .serialization reader.blockHash
  let previousHash ← orError .serialization reader.previousHash
  pure
    { offset := reader.offset
      height := reader.height
      hash := hash
      previousOffset := reader.previousOffset
      previousHash := previousHash
      blockSize := reader.blockSize
      operationsSize := reader.operationsSize
      signaturesSize := reader.signaturesSize }

def nextOffset (m : BlockMetadata) : ℕ :=
  m.offset + m.blockSize + m.operationsSize + m.signaturesSize

def copyIntoBuilder (m : BlockMetadata) : BlockPartialHeader :=
  { offset := m.offset
    height := m.height
    previousOffset := m.previousOffset
    previousHash := some m.previousHash
    blockSize := m.blockSize
    blockHash := some m.hash
    operationsSize := m.operationsSize
    signaturesSize := m.signaturesSize }

/-- What is written into a message is read back. -/
@[simp] theorem fromBlockPartialMetadataReader_copyIntoBuilder (m : BlockMetadata) :
    fromBlockPartialMetadataReader m.copyIntoBuilder = .ok m := rfl

end BlockMetadata

/-- The metadata of a stored block, where the block could be read. -/
def storedMetadata (block : Res ChainError DataBlock) : Res EngineError BlockMetadata := do
  let block ← liftError .chainStore block
  BlockMetadata.fromStoredBlock block

/-- The loop over the blocks of a range, by their position in it. -/
def sampleBlocks (isIncluded : ℕ → Bool) :
    ℕ → List (Res ChainError DataBlock) → Res EngineError (List BlockMetadata)
  | _, [] => .ok []
  | blocksCount, block :: rest => do
    let block ← liftError .chainStore block
    if isIncluded blocksCount then
      let blockMeta ← BlockMetadata.fromStoredBlock block
      let blocksMeta ← sampleBlocks isIncluded (blocksCount + 1) rest
      pure (blockMeta :: blocksMeta)
    else sampleBlocks isIncluded (blocksCount + 1) rest

/-- A block is added behind the last one added. -/
def isAfterLast (blocksMeta : List BlockMetadata) (offset : ℕ) : Bool :=
  match blocksMeta.getLast? with
  | some last => last.offset < offset
  | none => true

section Store
variable {CS : Type} [ChainRangeStore CS]

def addSegmentBlocks (store : CS) :
    List Segment → List BlockMetadata → Res EngineError (List BlockMetadata)
  | [], blocksMeta => .ok blocksMeta
  | segment :: rest, blocksMeta =>
    if isAfterLast blocksMeta segment.start then do
      let blockMeta ← storedMetadata (ChainStore.getBlock store segment.start)
      addSegmentBlocks store rest (blocksMeta ++ [blockMeta])
    else addSegmentBlocks store rest blocksMeta

def addEndBlocks :
    List (Res ChainError DataBlock) → List BlockMetadata → Res EngineError (List BlockMetadata)
  | [], blocksMeta => .ok blocksMeta
  | block :: rest, blocksMeta => do
    let blockMeta ← storedMetadata block
    if isAfterLast blocksMeta blockMeta.offset then addEndBlocks rest (blocksMeta ++ [blockMeta])
    else addEndBlocks rest blocksMeta

def fromSegmentBoundaries (store : CS) (rangeSegments : List Segment)
    (fromOffset toOffset : Option ℕ) (config : ChainSyncConfig) :
    Res EngineError (List BlockMetadata) := do
  let blocksMeta ← ((ChainRangeStore.blocksIter store (fromOffset.getD 0)).take
    config.metadataSyncBeginCount).mapM storedMetadata
  let blocksMeta ← addSegmentBlocks store rangeSegments blocksMeta
  let lastChainBlock ← liftError .chainStore (ChainStore.getLastBlock store)
  let toOffset ← orError
    (.chainSync (.invalidSyncRequest "Couldn't find last to offset block None"))
    (toOffset.or (lastChainBlock.map DataBlock.nextOffset))
  match ChainRangeStore.getBlockFromNextOffset store toOffset with
  | .error .panic => .error .panic
  | .error (.error _) => pure blocksMeta
  | .ok _ =>
    let blocks := (ChainRangeStore.blocksIterReverse store toOffset).take
      config.metadataSyncEndCount
    addEndBlocks blocks.reverse blocksMeta

/-- The block at the end of the range; a block that does not exist falls back to the last. -/
def sliceLastBlock (store : CS) : Option ℕ → Res ChainError (Option DataBlock)
  | none => ChainStore.getLastBlock store
  | some offset => match ChainStore.getBlock store offset with
    | .ok block => .ok (some block)
    | .error .panic => .error .panic
    | .error (.error _) => ChainStore.getLastBlock store

/-- Where the range starts; an offset that does not exist falls back to the first block. -/
def sliceStart (store : CS) (fromOffset : ℕ) : Res EngineError ℕ :=
  match ChainStore.getBlock store fromOffset with
  | .ok _ => .ok fromOffset
  | .error .panic => .error .panic
  | .error (.error e) => if e.isFatal then .error (.error (.chainStore e)) else .ok 0

def sliceFirstBlock : List (Res ChainError DataBlock) → Res EngineError DataBlock
  | [] => .error (.error (.other "Expected a first block since ranges were not empty"))
  | block :: _ => liftError .chainStore block

/-- The positions that are included among a number of blocks: the first, the last, and those
in between at an interval. -/
def isSampled (config : ChainSyncConfig) (rangeBlocksCount blocksCount : ℕ) : Bool :=
  let rangeBlocksSkip := max (rangeBlocksCount / config.metadataSyncSampledCount) 1
  let rangeBlocksLasts := if config.metadataSyncEndCount ≤ rangeBlocksCount
    then rangeBlocksCount - config.metadataSyncEndCount else rangeBlocksCount
  blocksCount < config.metadataSyncBeginCount ∨ blocksCount > rangeBlocksLasts ∨
    blocksCount % rangeBlocksSkip = 0

def fromSampledChainSlice (overflowChecks : Bool) (store : CS) (fromOffset toOffset : Option ℕ)
    (config : ChainSyncConfig) : Res EngineError (List BlockMetadata) := do
  let lastBlock ← liftError .chainStore (sliceLastBlock store toOffset)
  let lastBlock ← orError
    (.chainSync (.other "Expected a last block since ranges were not empty")) lastBlock
  let lastReader ← orError .serialization lastBlock.header.reader
  let start ← sliceStart store (fromOffset.getD 0)
  let blocks := ChainRangeStore.blocksIter store start
  let firstBlock ← sliceFirstBlock blocks
  let firstReader ← orError .serialization firstBlock.header.reader
  let rangeBlocksCount ← wordSub overflowChecks lastReader.height firstReader.height
  -- the division by the sampled count
  if config.metadataSyncSampledCount = 0 then .error .panic
  else
    let blocksCount ← wordSucc overflowChecks rangeBlocksCount
    sampleBlocks (isSampled config rangeBlocksCount) 0 (blocks.take blocksCount)

def BlockMetadata.fromStore (overflowChecks : Bool) (store : CS)
    (fromOffset toOffset : Option ℕ) (config : ChainSyncConfig) :
    Res EngineError (List BlockMetadata) :=
  let rangeSegments := filterInRange (ChainRangeStore.segments store) fromOffset toOffset
  if rangeSegments.isEmpty then .ok []
  else if rangeSegments.length > config.metadataSyncSegmentsBoundariesThreshold then
    fromSegmentBoundaries store rangeSegments fromOffset toOffset config
  else fromSampledChainSlice overflowChecks store fromOffset toOffset config

end Store

end Exocore.Engine
