import Exocore.LibSearch
import Exocore.CoreCell
import Exocore.CoreTypedFrame

/-! Operations: the messages of the chain, the crates that encode them, and the frames
that carry them between the pending stores and the blocks. -/
namespace Exocore.Chain

open Exocore.Core

structure Multihash where
  code : ℕ
  digest : Bytes
deriving DecidableEq

/-- `BlockSignature` of the schema. An accessor that can fail on its own is an option. -/
structure SignatureMessage where
  nodeId : Option String
  nodeSignature : Option Bytes
deriving DecidableEq

inductive OperationBody where
  | entry (data : Option Bytes)
  | blockPropose (block : Option Bytes)
  | blockSign (signature : Option SignatureMessage)
  | blockRefuse
  | notInSchema (code : ℕ)
deriving DecidableEq

structure ChainOperation where
  groupId : ℕ
  operationId : ℕ
  nodeId : Option String
  operation : OperationBody
deriving DecidableEq

structure BlockOperationHeader where
  operationId : ℕ
  dataOffset : ℕ
  dataSize : ℕ
deriving DecidableEq

structure BlockHeader where
  offset : ℕ
  height : ℕ
  previousOffset : ℕ
  previousHash : Option Bytes
  proposedOperationId : ℕ
  proposedNodeId : Option String
  operationsSize : ℕ
  operationsHeader : Option (List BlockOperationHeader)
  operationsHash : Option Bytes
  signaturesSize : ℕ
deriving DecidableEq

structure SignaturesMessage where
  operationsSize : ℕ
  signatures : Option (List SignatureMessage)
deriving DecidableEq

/-- The crates the chain is built on: message encoding, hashing and peer ids, and the search of a
sorted slice. -/
class Crates extends Search.BinarySearcher where
  readChainOperation : MessageReader ChainOperation
  readBlockHeader : MessageReader BlockHeader
  readBlockSignatures : MessageReader SignaturesMessage
  writeChainOperation : ChainOperation → Bytes
  writeBlockHeader : BlockHeader → Bytes
  writeBlockSignatures : SignaturesMessage → Bytes
  sha3 : Bytes → Bytes
  multihashToBytes : Multihash → Bytes
  multihashFromBytes : Bytes → Option Multihash
  nodeIdFromStr : String → Option NodeId

section Hashing
variable [Crates]

/-- `to_multihash` of a hasher that was fed these bytes. -/
def toMultihash (input : Bytes) : Multihash := ⟨0x16, Crates.sha3 input⟩

/-- `MultihashFrameBuilder`: the message and the multihash of its bytes. -/
def hashedBytes (message : Bytes) : Bytes :=
  message ++ Crates.multihashToBytes (toMultihash message)

end Hashing

inductive OperationError where
  | notAnEntry
  | framing (e : FramingError)
  | serialization
  | serializationNotInSchema (code : ℕ)
  | other (msg : String)
deriving DecidableEq

/-- The message readers fail with an error of their own, outside of the framing. -/
def OperationError.ofFraming : FramingError → OperationError
  | .capnp => .serialization
  | e => .framing e

inductive OperationType where
  | entry
  | blockPropose
  | blockSign
  | blockRefuse
deriving DecidableEq

/-- A frame that reads back from its own bytes, as all frames of operations do. -/
structure OperationFrame [Crates] where
  frame : HashedFrame ChainOperation
  reads : HashedFrame.read Crates.readChainOperation frame.wholeData = .ok frame

section Frames
variable [Crates]

def OperationFrame.wholeData (f : OperationFrame) : Bytes := f.frame.wholeData

def OperationFrame.multihashBytes (f : OperationFrame) : Bytes := f.frame.multihashBytes

def OperationFrame.getReader (f : OperationFrame) : Res OperationError ChainOperation :=
  orError .serialization f.frame.reader

/-- A frame is the bytes it was read from. -/
theorem operationFrame_ext (f g : OperationFrame) (hw : f.wholeData = g.wholeData) : f = g := by
  have hframe : f.frame = g.frame := by
    have hf := f.reads
    rw [show f.frame.wholeData = g.frame.wholeData from hw, g.reads] at hf
    exact (Except.ok.inj hf).symm
  cases f
  cases g
  simp only at hframe
  subst hframe
  rfl

instance : DecidableEq OperationFrame := fun f g =>
  decidable_of_iff (f.wholeData = g.wholeData) ⟨operationFrame_ext f g, fun h => h ▸ rfl⟩

def readOperationFrame (data : Bytes) : Res OperationError OperationFrame :=
  match h : HashedFrame.read Crates.readChainOperation data with
  | .ok frame =>
    .ok ⟨frame, (hashedFrame_read_eq_ok _ data frame h).choose_spec.choose_spec.2.2.2⟩
  | .error e => .error (e.map OperationError.ofFraming)

theorem readOperationFrame_eq_ok_iff (data : Bytes) (f : OperationFrame) :
    readOperationFrame data = .ok f ↔
      HashedFrame.read Crates.readChainOperation data = .ok f.frame := by
  unfold readOperationFrame
  split
  · rename_i frame hr
    constructor
    · intro h
      rw [← Except.ok.inj h]
      exact hr
    · intro h
      have hframe : frame = f.frame := Except.ok.inj (hr.symm.trans h)
      cases f
      simp only at hframe
      subst hframe
      rfl
  · rename_i e hr
    rw [hr]
    constructor <;> intro h <;> contradiction

/-- The frame that was sent is the frame that is read on the other side. -/
theorem readOperationFrame_wholeData (f : OperationFrame) :
    readOperationFrame f.wholeData = .ok f :=
  (readOperationFrame_eq_ok_iff _ f).mpr f.reads

/-- `which` on the union of the message. -/
def OperationBody.operationType : OperationBody → Except ℕ OperationType
  | .entry _ => .ok .entry
  | .blockPropose _ => .ok .blockPropose
  | .blockSign _ => .ok .blockSign
  | .blockRefuse => .ok .blockRefuse
  | .notInSchema code => .error code

def OperationFrame.getType (f : OperationFrame) : Res OperationError OperationType := do
  let reader ← f.getReader
  match reader.operation.operationType with
  | .ok type => pure type
  | .error code => .error (.error (.serializationNotInSchema code))

/-- Operation to be added or replaced in the store. -/
structure NewOperation where
  operationId : ℕ
  frame : OperationFrame

/-- `Signature::empty`. The signatures are not computed nor verified yet. -/
def emptySignature : Bytes := List.replicate 64 0

structure OperationBuilder where
  operationId : ℕ
  message : ChainOperation

def OperationBuilder.newEntry (operationId : ℕ) (nodeId : NodeId) (data : Bytes) :
    OperationBuilder :=
  ⟨operationId, ⟨operationId, operationId, some nodeId.str, .entry (some data)⟩⟩

def OperationBuilder.newBlockProposalFromData (operationId : ℕ) (nodeId : NodeId)
    (data : Bytes) : OperationBuilder :=
  ⟨operationId, ⟨operationId, operationId, some nodeId.str, .blockPropose (some data)⟩⟩

def OperationBuilder.newSignatureForBlock (groupId operationId : ℕ) (nodeId : NodeId) :
    OperationBuilder :=
  ⟨operationId, ⟨groupId, operationId, some nodeId.str,
    .blockSign (some ⟨some nodeId.str, some emptySignature⟩)⟩⟩

def OperationBuilder.newRefusal (groupId operationId : ℕ) (nodeId : NodeId) :
    OperationBuilder :=
  ⟨operationId, ⟨groupId, operationId, some nodeId.str, .blockRefuse⟩⟩

def OperationBuilder.signAndBuild (b : OperationBuilder) : Res OperationError NewOperation := do
  let message := Crates.writeChainOperation b.message
  let finalFrame ← readOperationFrame (sizedBytes (hashedBytes message))
  pure ⟨b.operationId, finalFrame⟩

end Frames

end Exocore.Chain
