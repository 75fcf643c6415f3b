import Exocore.LibRun
import Exocore.CommitManager

/-! A node of the engine: its two stores, and the calls through which they change once the
chain is synchronized. -/
namespace Exocore.Engine

open Exocore.Core Exocore.Chain Exocore.Pending

variable [Crates]

structure Node (CS : Type) where
  syncState : SyncState
  pendingStore : MemoryPendingStore
  chainStore : CS

/-- The parts of the engine's `Inner` that work on the stores. -/
structure Inner where
  pendingSynchronizer : PendingSynchronizer
  commitManager : CommitManager

inductive NodeStep where
  | pendingSyncRequest (fromNode : NodeId) (request : Option PendingSyncRequest)
  | newOperation (operation : NewOperation)
  | pendingTick (canSendRequest : NodeId → Bool)
  | commitTick (input : TickInput)

section Calls
variable {CS : Type}

def Node.state (n : Node CS) : CommitState CS :=
  ⟨.new n.syncState, n.pendingStore, n.chainStore⟩

@[simp] theorem node_state_pendingStore (n : Node CS) : n.state.pendingStore = n.pendingStore := rfl

@[simp] theorem node_state_chainStore (n : Node CS) : n.state.chainStore = n.chainStore := rfl

/-- A call in a context of its own. The state of the synchronization is only taken back from
a call that ends well, or out of sync. -/
def Node.call (n : Node CS) (x : Action (CommitState CS) EngineError Unit) : Node CS :=
  match x n.state with
  | (r, s) =>
    let syncState := match r with
      | .ok _ => s.syncContext.syncState
      | .error (.error .outOfSync) => s.syncContext.syncState
      | .error _ => n.syncState
    ⟨syncState, s.pendingStore, s.chainStore⟩

theorem node_call_chainStore (n : Node CS) (x : Action (CommitState CS) EngineError Unit) :
    (n.call x).chainStore = (x n.state).2.chainStore := rfl

theorem node_call_pendingStore (n : Node CS) (x : Action (CommitState CS) EngineError Unit) :
    (n.call x).pendingStore = (x n.state).2.pendingStore := rfl

end Calls

section Steps
variable {CS : Type} [ChainStore CS]

def Inner.action (e : Inner) : NodeStep → Action (CommitState CS) EngineError Unit
  | .pendingSyncRequest fromNode request =>
    onPending (e.pendingSynchronizer.handleIncomingSyncRequest fromNode request)
  | .newOperation operation => onPending (e.pendingSynchronizer.handleNewOperation operation)
  | .pendingTick canSendRequest => onPending (e.pendingSynchronizer.tick canSendRequest)
  | .commitTick input => e.commitManager.tick e.pendingSynchronizer input

def Inner.step (e : Inner) (n : Node CS) (a : NodeStep) : Node CS := n.call (e.action a)

end Steps

end Exocore.Engine
