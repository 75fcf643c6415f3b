import Exocore.ChainSegment
import Exocore.PendingMemory

/-! What the synchronizers and the commit manager share: the errors of the engine, the
messages to the other nodes and the context that collects them. -/
namespace Exocore.Engine

open Exocore.Core Exocore.Chain Exocore.Pending

inductive PendingSyncError where
  | invalidSyncState (msg : String)
  | invalidSyncRequest (msg : String)
deriving DecidableEq

inductive CommitManagerError where
  | missingOperation (operationId : ℕ)
deriving DecidableEq

inductive ChainSyncError where
  | invalidSyncRequest (msg : String)
  | invalidSyncResponse (msg : String)
  | diverged (msg : String)
  | other (msg : String)
deriving DecidableEq

def ChainSyncError.isFatal : ChainSyncError → Bool
  | .diverged _ => true
  | _ => false

inductive EngineError where
  | pendingStore (e : PendingError)
  | chainStore (e : ChainError)
  | pendingSync (e : PendingSyncError)
  | chainSync (e : ChainSyncError)
  | commitManager (e : CommitManagerError)
  | block (e : BlockError)
  | operation (e : OperationError)
  | outOfSync
  | uninitializedChain
  | serialization
  | serializationNotInSchema (code : ℕ)
  | myNodeNotFound
  | nodeNotFound (nodeId : NodeId)
  | fatal (msg : String)
  | other (msg : String)
deriving DecidableEq

def EngineError.isFatal : EngineError → Bool
  | .chainStore inner => inner.isFatal
  | .chainSync inner => inner.isFatal
  | .myNodeNotFound => true
  | .fatal _ => true
  | _ => false

inductive Event where
  | started
  | newPendingOperation (operationId : ℕ)
  | newChainBlock (offset : ℕ)
  | chainDiverged (offset : ℕ)
deriving DecidableEq

/-- `ChainOperationHeader` of the schema. -/
structure OperationHeaderMessage where
  groupId : ℕ
  operationId : ℕ
  operationSignature : Bytes
deriving DecidableEq

/-- A list of a message: its pointer may be null, or not readable. -/
inductive ListPointer (A : Type) where
  | null
  | malformed
  | list (items : List A)
deriving DecidableEq

namespace ListPointer
variable {A : Type}

def has : ListPointer A → Bool
  | null => false
  | _ => true

/-- A null pointer reads as the empty list. -/
def get : ListPointer A → Res EngineError (List A)
  | null => .ok []
  | malformed => .error (.error .serialization)
  | list items => .ok items

/-- The builders leave the pointer null where there is nothing to write. -/
def ofList : List A → ListPointer A
  | [] => null
  | items => list items

@[simp] theorem get_ofList (items : List A) : (ofList items).get = .ok items := by
  cases items <;> rfl

@[simp] theorem has_ofList (items : List A) : (ofList items).has = !items.isEmpty := by
  cases items <;> rfl

end ListPointer

/-- `PendingSyncRange` of the schema. A frame that is not readable is none. -/
structure PendingSyncRange where
  fromOperation : ℕ
  fromIncluded : Bool
  toOperation : ℕ
  toIncluded : Bool
  operationsHash : Option Bytes
  operationsCount : ℕ
  operationsFrames : ListPointer (Option Bytes)
  operationsHeaders : ListPointer OperationHeaderMessage
deriving DecidableEq

/-- `PendingSyncRequest` of the schema. -/
structure PendingSyncRequest where
  ranges : ListPointer PendingSyncRange
  fromBlockHeight : ℕ
deriving DecidableEq

/-- An enumerant of a newer schema is kept as its code. -/
inductive RequestedDetails where
  | headers
  | blocks
  | notInSchema (code : ℕ)
deriving DecidableEq

/-- `ChainSyncRequest` of the schema. -/
structure ChainSyncRequest where
  fromOffset : ℕ
  toOffset : ℕ
  requestedDetails : RequestedDetails
deriving DecidableEq

/-- `BlockPartialHeader` of the schema, without the proposal, which is not read. Bytes that
are not readable are none. -/
structure BlockPartialHeader where
  offset : ℕ
  height : ℕ
  previousOffset : ℕ
  previousHash : Option Bytes
  blockSize : ℕ
  blockHash : Option Bytes
  operationsSize : ℕ
  signaturesSize : ℕ
deriving DecidableEq

/-- `ChainSyncResponse` of the schema. A block that is not readable is none. -/
structure ChainSyncResponse where
  fromOffset : ℕ
  toOffset : ℕ
  headers : ListPointer BlockPartialHeader
  blocks : ListPointer (Option Bytes)
deriving DecidableEq

inductive SyncContextMessage where
  | pendingSyncRequest (nodeId : NodeId) (request : PendingSyncRequest)
  | chainSyncRequest (nodeId : NodeId) (request : ChainSyncRequest)
  | chainSyncResponse (nodeId : NodeId) (response : ChainSyncResponse)
deriving DecidableEq

structure SyncState where
  pendingLastCleanupBlock : Option (ℕ × ℕ)
deriving DecidableEq

structure SyncContext where
  events : List Event
  messages : List SyncContextMessage
  syncState : SyncState
deriving DecidableEq

namespace SyncContext

def new (syncState : SyncState) : SyncContext := ⟨[], [], syncState⟩

def pushPendingSyncRequest (c : SyncContext) (nodeId : NodeId) (request : PendingSyncRequest) :
    SyncContext :=
  { c with messages := c.messages ++ [.pendingSyncRequest nodeId request] }

def pushChainSyncRequest (c : SyncContext) (nodeId : NodeId) (request : ChainSyncRequest) :
    SyncContext :=
  { c with messages := c.messages ++ [.chainSyncRequest nodeId request] }

def pushChainSyncResponse (c : SyncContext) (nodeId : NodeId) (response : ChainSyncResponse) :
    SyncContext :=
  { c with messages := c.messages ++ [.chainSyncResponse nodeId response] }

def pushEvent (c : SyncContext) (event : Event) : SyncContext :=
  { c with events := c.events ++ [event] }

end SyncContext

end Exocore.Engine
