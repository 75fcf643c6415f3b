import Exocore.ChainOperation

/-! Blocks: how they are read from the bytes of a segment, in both directions, and how
they are built from operations and signatures. -/
namespace Exocore.Chain

open Exocore.Core

inductive BlockError where
  | integrity (msg : String)
  | outOfBound (msg : String)
  | operation (e : OperationError)
  | framing (e : FramingError)
  | serialization
  | serializationNotInSchema (code : ℕ)
  | other (msg : String)
deriving DecidableEq

def BlockError.ofFraming : FramingError → BlockError
  | .capnp => .serialization
  | e => .framing e

abbrev BlockHeaderFrame := HashedFrame BlockHeader
abbrev SignaturesFrame := PaddedTypedFrame SignaturesMessage

/-- The sources of bytes behind a block. Owned bytes panic on a view out of range,
referenced bytes and mapped files clip its end. -/
inductive DataKind where
  | bytes
  | ref
deriving DecidableEq

def DataKind.view : DataKind → Bytes → ℕ → ℕ → Option Bytes
  | .bytes, data, start, stop => slice data start stop
  | .ref, data, start, stop => slice data start (min stop data.length)

theorem view_append (kind : DataKind) (a b c : Bytes) :
    kind.view (a ++ b ++ c) a.length (a.length + b.length) = some b := by
  cases kind with
  | bytes => exact slice_append a b c
  | ref =>
    have hmin : min (a.length + b.length) (a ++ b ++ c).length = a.length + b.length := by
      simp only [List.length_append]
      omega
    rw [DataKind.view, hmin]
    exact slice_append a b c

structure DataBlock where
  offset : ℕ
  header : BlockHeaderFrame
  operationsData : Bytes
  signatures : SignaturesFrame
deriving DecidableEq

namespace DataBlock

def totalSize (b : DataBlock) : ℕ :=
  b.header.wholeData.length + b.operationsData.length + b.signatures.wholeData.length

def nextOffset (b : DataBlock) : ℕ := b.offset + b.totalSize

def asDataVec (b : DataBlock) : Bytes :=
  b.header.wholeData ++ b.operationsData ++ b.signatures.wholeData

/-- The buffer after the copy, none where it is too small. -/
def copyDataInto (b : DataBlock) (data : Bytes) : Option Bytes :=
  if b.totalSize ≤ data.length then some (b.asDataVec ++ data.drop b.totalSize) else none

def headerReader (b : DataBlock) : Res BlockError BlockHeader :=
  orError .serialization b.header.reader

def getHeight (b : DataBlock) : Res BlockError ℕ := do
  let reader ← b.headerReader
  pure reader.height

def getProposedOperationId (b : DataBlock) : Res BlockError ℕ := do
  let reader ← b.headerReader
  pure reader.proposedOperationId

def operationsHeader (b : DataBlock) : Res BlockError (List BlockOperationHeader) := do
  let reader ← b.headerReader
  orError .serialization reader.operationsHeader

@[simp] theorem asDataVec_length (b : DataBlock) : b.asDataVec.length = b.totalSize := by
  simp only [asDataVec, totalSize, List.length_append]

end DataBlock

section Reading
variable [Crates]

def readHeaderFrame (data : Bytes) : Res BlockError BlockHeaderFrame :=
  liftError BlockError.ofFraming (HashedFrame.read Crates.readBlockHeader data)

def readHeaderFrameFromNextOffset (data : Bytes) (nextOffset : ℕ) :
    Res BlockError BlockHeaderFrame :=
  liftError BlockError.ofFraming
    (HashedFrame.readFromNextOffset Crates.readBlockHeader data nextOffset)

def readSignaturesFrame (data : Bytes) : Res BlockError SignaturesFrame :=
  liftError BlockError.ofFraming (PaddedTypedFrame.read Crates.readBlockSignatures data)

def readSignaturesFrameFromNextOffset (data : Bytes) (nextOffset : ℕ) :
    Res BlockError SignaturesFrame :=
  liftError BlockError.ofFraming
    (PaddedTypedFrame.readFromNextOffset Crates.readBlockSignatures data nextOffset)

def BlockOperationHeader.readFrame (h : BlockOperationHeader) (operationsData : Bytes) :
    Res BlockError OperationFrame := do
  let data ← orPanic (slice operationsData h.dataOffset (h.dataOffset + h.dataSize))
  liftError BlockError.operation (readOperationFrame data)

namespace DataBlock

def new (kind : DataKind) (data : Bytes) : Res BlockError DataBlock := do
  let header ← readHeaderFrame data
  let headerReader ← orError BlockError.serialization header.reader
  let operationsOffset := header.wholeData.length
  let signaturesOffset := operationsOffset + headerReader.operationsSize
  if signaturesOffset ≥ data.length then
    .error (.error (.outOfBound
      s!"Signature offset {signaturesOffset} is after data len {data.length}"))
  else
    let signaturesData ← orPanic (kind.view data signaturesOffset
      (signaturesOffset + headerReader.signaturesSize))
    let signatures ← readSignaturesFrame signaturesData
    let operationsData ← orPanic (kind.view data operationsOffset signaturesOffset)
    pure ⟨headerReader.offset, header, operationsData, signatures⟩

def newFromNextOffset (kind : DataKind) (data : Bytes) (nextOffset : ℕ) :
    Res BlockError DataBlock := do
  let signatures ← readSignaturesFrameFromNextOffset data nextOffset
  let signaturesReader ← orError BlockError.serialization signatures.reader
  let signaturesOffset := nextOffset - signatures.wholeData.length
  let operationsSize := signaturesReader.operationsSize
  if operationsSize > signaturesOffset then
    .error (.error (.outOfBound
      (s!"Tried to read block from next offset {nextOffset}, but its operations size would " ++
        s!"exceed beginning of file (operations_size={operationsSize} " ++
        s!"signatures_offset={signaturesOffset})")))
  else
    let operationsOffset := signaturesOffset - operationsSize
    let operationsData ← orPanic (kind.view data operationsOffset signaturesOffset)
    let header ← readHeaderFrameFromNextOffset data operationsOffset
    let headerReader ← orError BlockError.serialization header.reader
    pure ⟨headerReader.offset, header, operationsData, signatures⟩

/-- The iterator ends at the first frame that does not read, and keeps its error. -/
def iterOperations (operationsData : Bytes) :
    List BlockOperationHeader → Res BlockError (List OperationFrame)
  | [] => .ok []
  | h :: rest => match h.readFrame operationsData with
    | .ok frame => do
      let frames ← iterOperations operationsData rest
      pure (frame :: frames)
    | .error (.error _) => .ok []
    | .error .panic => .error .panic

def operations (b : DataBlock) : Res BlockError (List OperationFrame) := do
  iterOperations b.operationsData (← b.operationsHeader)

def getOperation (b : DataBlock) (operationId : ℕ) :
    Res BlockError (Option OperationFrame) := do
  let headers ← b.operationsHeader
  match Search.binarySearchBy (fun h => compare h.operationId operationId) headers with
  | none => pure none
  | some index =>
    if index > headers.length then
      .error (.error (.outOfBound
        (s!"Operation id={operationId} of block={b.offset} had an invalid index {index} " ++
          s!"out of {headers.length} operations")))
    else
      let header ← orPanic headers[index]?
      let frame ← header.readFrame b.operationsData
      pure (some frame)

end DataBlock

end Reading

/-- Operations of a block: their hash, their positions and their bytes. -/
structure BlockOperations where
  hash : Multihash
  headers : List BlockOperationHeader
  data : Bytes

section Building
variable [Crates]

def BlockOperations.empty : BlockOperations := ⟨⟨0, []⟩, [], []⟩

/-- The loop of `from_operations`; the hasher is the bytes it was fed. -/
def fromOperationsLoop : List OperationFrame → ℕ → Bytes → List BlockOperationHeader →
    Bytes → Res BlockError BlockOperations
  | [], _, hasher, headers, data => .ok ⟨toMultihash hasher, headers, data⟩
  | operation :: rest, lastOperationId, hasher, headers, data => do
    let reader ← orError BlockError.serialization operation.frame.reader
    let offset := data.length
    let entryData := operation.wholeData
    if reader.operationId < lastOperationId then .error .panic
    else
      let header := ⟨reader.operationId, offset % 2^32, entryData.length % 2^32⟩
      fromOperationsLoop rest reader.operationId (hasher ++ operation.multihashBytes)
        (headers ++ [header]) (data ++ entryData)

def BlockOperations.fromOperations (sortedOperations : List OperationFrame) :
    Res BlockError BlockOperations := fromOperationsLoop sortedOperations 0 [] [] []

def BlockOperations.hashOperations (sortedOperations : List OperationFrame) : Multihash :=
  toMultihash (sortedOperations.map OperationFrame.multihashBytes).flatten

/-- Signature of a block by one node, as it goes into the signatures frame. -/
structure BlockSignature where
  nodeId : NodeId
  signature : Bytes

def BlockSignature.message (s : BlockSignature) : SignatureMessage :=
  ⟨some s.nodeId.str, some s.signature⟩

/-- `to_frame_builder` with the operations size set. -/
def signaturesMessageBytes (signatures : List BlockSignature) (operationsSize : ℕ) : Bytes :=
  Crates.writeBlockSignatures ⟨operationsSize, some (signatures.map BlockSignature.message)⟩

def emptySignaturesForNodes (cell : Cell) : List BlockSignature :=
  (cell.withRole .chain).map fun n => ⟨n.id, emptySignature⟩

def toFrameForNewBlock (signatures : List BlockSignature) (operationsSize : ℕ) :
    Res BlockError SignaturesFrame :=
  readSignaturesFrame (sizedBytes (paddedBytes (signaturesMessageBytes signatures operationsSize) 0))

def toFrameForExistingBlock (signatures : List BlockSignature) (header : BlockHeader) :
    Res BlockError SignaturesFrame := do
  let expectedSignaturesSize := header.signaturesSize
  let message := signaturesMessageBytes signatures header.operationsSize
  let frameExpectedSize := message.length + 4 + 8
  -- pad up to the size of the signatures in the header
  let minimumSize := if frameExpectedSize < expectedSignaturesSize then
    message.length + (expectedSignaturesSize - frameExpectedSize) else 0
  let frame ← readSignaturesFrame (sizedBytes (paddedBytes message minimumSize))
  if frame.wholeData.length ≠ expectedSignaturesSize then
    .error (.error (.integrity
      ("Block local signatures isn't the same size as expected " ++
        s!"(this={frame.wholeData.length} expected={expectedSignaturesSize})")))
  else pure frame

def BlockBuilder.buildWithPrevInfo (cell : Cell) (offset : ℕ) (height : ℕ)
    (previousOffset : ℕ) (previousHash : Bytes) (proposedOperationId : ℕ)
    (operations : BlockOperations) : Res BlockError DataBlock := do
  let operationsDataSize := operations.data.length % 2^32
  let signatures ← toFrameForNewBlock (emptySignaturesForNodes cell) operationsDataSize
  let header : BlockHeader :=
    { offset := offset
      height := height + 1
      previousOffset := previousOffset
      previousHash := some previousHash
      proposedOperationId := proposedOperationId
      proposedNodeId := some cell.localNode.str
      operationsSize := operationsDataSize
      operationsHeader := some operations.headers
      operationsHash := some (Crates.multihashToBytes operations.hash)
      signaturesSize := signatures.wholeData.length % 2^16 }
  let frame ← readHeaderFrame (sizedBytes (hashedBytes (Crates.writeBlockHeader header)))
  pure ⟨offset, frame, operations.data, signatures⟩

def BlockBuilder.buildGenesis (cell : Cell) : Res BlockError DataBlock :=
  buildWithPrevInfo cell 0 0 0 [] 0 BlockOperations.empty

def BlockBuilder.buildWithPrevBlock (cell : Cell) (previousBlock : DataBlock)
    (proposedOperationId : ℕ) (operations : BlockOperations) :
    Res BlockError DataBlock := do
  let reader ← previousBlock.headerReader
  buildWithPrevInfo cell previousBlock.nextOffset reader.height previousBlock.offset
    previousBlock.header.multihashBytes proposedOperationId operations

end Building

end Exocore.Chain
