import Exocore.ChainTables

/-! The layout of the messages, in words of eight bytes: the segment table, the root pointer,
the fields, and after them the texts and the lists in the order in which they were set. -/
namespace Exocore.Chain

open Exocore.Core

def le64 (n : ℕ) : Bytes := le32 n ++ le32 (n / 2^32)

/-- The bytes up to the end of their last word. -/
def padWords (data : Bytes) : Bytes := data ++ List.replicate ((8 - data.length % 8) % 8) 0

def segmentMessage (words : Bytes) : Bytes := le32 0 ++ le32 (words.length / 8) ++ words

/-- A pointer to bytes that start some words after it. -/
def bytesPointer (words length : ℕ) : Bytes := le32 (4 * words + 1) ++ le32 (8 * length + 2)

/-- `chain_operation`, for a node id of 52 characters. -/
def operationMessage (groupId operationId which : ℕ) (nodeText content : Bytes) : Bytes :=
  segmentMessage (ofNats [0, 0, 0, 0, 3, 0, 2, 0] ++ le64 groupId ++ le64 operationId ++
    le64 which ++ bytesPointer 1 53 ++ ofNats [28, 0, 0, 0, 0, 0, 1, 0] ++ padWords nodeText ++
    content)

/-- Content of an entry or of a proposal. -/
def dataContent (data : Bytes) : Bytes := bytesPointer 0 data.length ++ padWords data

def signatureContent (nodeText : Bytes) : Bytes :=
  ofNats [0, 0, 0, 0, 0, 0, 2, 0] ++ bytesPointer 1 53 ++ bytesPointer 7 64 ++
    padWords nodeText ++ emptySignature

def blockHeaderMessage (offset height previousOffset proposedOperationId operationsSize
    signaturesSize : ℕ) (previousHash nodeText operationsHash : Bytes)
    (operations : List BlockOperationHeader) : Bytes :=
  segmentMessage (ofNats [0, 0, 0, 0, 5, 0, 4, 0] ++ le64 offset ++ le64 height ++
    le64 previousOffset ++ le64 proposedOperationId ++ le32 operationsSize ++
    le32 signaturesSize ++ bytesPointer 3 34 ++ bytesPointer 7 53 ++
    le32 73 ++ le32 (16 * operations.length + 7) ++ bytesPointer 12 34 ++
    padWords previousHash ++ padWords nodeText ++ padWords operationsHash ++
    le32 (4 * operations.length) ++ le32 2 ++
    operations.flatMap fun h => le64 h.operationId ++ le32 h.dataOffset ++ le32 h.dataSize)

/-- `block_signatures` with an empty signature of each node. -/
def signaturesMessage (operationsSize : ℕ) (nodeTexts : List Bytes) : Bytes :=
  let count := nodeTexts.length
  segmentMessage (ofNats [0, 0, 0, 0, 1, 0, 1, 0] ++ le64 operationsSize ++
    le32 1 ++ le32 (16 * count + 7) ++ le32 (4 * count) ++ ofNats [0, 0, 2, 0] ++
    (List.range count).flatMap (fun i => bytesPointer (2 * count + 13 * i - 1) 53 ++
      bytesPointer (2 * count + 13 * i + 5) 64) ++
    nodeTexts.flatMap fun text => padWords text ++ emptySignature)

end Exocore.Chain
