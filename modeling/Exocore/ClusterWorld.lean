import Exocore.LibBallots
import Exocore.ChainSyncWorld
import Exocore.CommitHeight
import Exocore.CommitOperations
import Exocore.EngineRuns

/-! The nodes of a cell that commit blocks together. What one of them creates may arrive at the
others in any order, any number of times, or never. -/
namespace Exocore.Engine

open Exocore.Core Exocore.Chain Exocore.Pending SortedMap

section Frames
variable [Crates]

/-- The frames of all the operations in the store. -/
def storeFrames (store : MemoryPendingStore) : List OperationFrame :=
  store.groupsOperations.values.flatMap fun ops => ops.values.map GroupOperation.frame

theorem mem_storeFrames_iff (store : MemoryPendingStore) (f : OperationFrame) :
    f ∈ storeFrames store ↔ ∃ g id, store.groupFrame g id = some f := by
  simp only [storeFrames, List.mem_flatMap, List.mem_map, MemoryPendingStore.groupFrame_eq_some_iff,
    Map.mem_values_iff]
  constructor
  · rintro ⟨ops, ⟨g, hg⟩, op, ⟨id, hid⟩, rfl⟩
    exact ⟨g, id, ops, op, hg, hid, rfl⟩
  · rintro ⟨g, id, ops, op, hg, hid, rfl⟩
    exact ⟨ops, ⟨g, hg⟩, op, ⟨id, hid⟩, rfl⟩

/-- The frame is an entry, as a node builds it. -/
def Enters (f : OperationFrame) (id : ℕ) : Prop :=
  ∃ n data, f.frame.reader = some (OperationBuilder.newEntry id n data).message

def Signs (f : OperationFrame) (n : NodeId) (p : ℕ) : Prop :=
  ∃ id, f.frame.reader = some (OperationBuilder.newSignatureForBlock p id n).message

def Refuses (f : OperationFrame) (n : NodeId) (p : ℕ) : Prop :=
  ∃ id, f.frame.reader = some (OperationBuilder.newRefusal p id n).message

/-- The frame is a proposal of a block with this header. -/
def Proposes (f : OperationFrame) (p : ℕ) (frame : BlockHeaderFrame) (header : BlockHeader) :
    Prop :=
  ∃ n data, f.frame.reader = some (OperationBuilder.newBlockProposalFromData p n data).message ∧
    readHeaderFrame data = .ok frame ∧ frame.reader = some header

end Frames

section World
variable [Crates]

/-- The nodes of a cell, their configurations, and the chain that they all start with. -/
structure Cluster where
  nodes : List CellNode
  nodup : (nodes.map CellNode.id).Nodup
  commitConfig : NodeId → CommitManagerConfig
  syncConfig : NodeId → PendingSyncConfig
  initial : List DataBlock

/-- The cell as the node sees it. -/
def Cluster.cell (c : Cluster) (id : NodeId) : Cell := ⟨id, c.nodes, c.nodup⟩

def Cluster.engine (c : Cluster) (id : NodeId) : Inner :=
  ⟨⟨c.syncConfig id, c.cell id⟩, ⟨c.commitConfig id, c.cell id⟩⟩

/-- The nodes, and every operation that was in a pending store so far. -/
structure ClusterState where
  node : NodeId → Node DirectoryChainStore
  created : List OperationFrame

structure ClusterStep where
  node : NodeId
  step : NodeStep

/-- The pending store with what the step puts into it: the cleanup of a tick comes after that. -/
def Inner.storeBeforeCleanup (e : Inner) (n : Node DirectoryChainStore) :
    NodeStep → MemoryPendingStore
  | .commitTick i =>
    (e.commitManager.beforeCleanup e.pendingSynchronizer i n.state).2.pendingStore
  | a => (e.step n a).pendingStore

def Cluster.step (c : Cluster) (s : ClusterState) (a : ClusterStep) : ClusterState where
  node := Function.update s.node a.node ((c.engine a.node).step (s.node a.node) a.step)
  created := s.created ++
    storeFrames ((c.engine a.node).storeBeforeCleanup (s.node a.node) a.step)

/-- No operation has the id, nor has the chain that the nodes started with. -/
def Cluster.New (c : Cluster) (s : ClusterState) (id : ℕ) : Prop :=
  (∀ f ∈ s.created, frameId f ≠ id) ∧ ∀ b ∈ c.initial, ¬ HasOperation b id

/-- The operations that the request brings were created by the nodes. -/
def ClusterState.Sent (s : ClusterState) (request : Option PendingSyncRequest) : Prop :=
  ∀ r, request = some r → ∀ ranges, r.ranges.get = .ok ranges → ∀ range ∈ ranges,
    ∀ frames, range.operationsFrames.get = .ok frames →
      ∀ frame reader, FrameBrings frames frame reader → frame ∈ s.created

/-- The node has signed a proposal that its chain has not passed, and does not have refusals of it
from most chain nodes. -/
structure Cluster.Bound (c : Cluster) (s : ClusterState) (id : NodeId) (p : ℕ)
    (header : BlockHeader) : Prop where
  signed : ∃ f ∈ s.created, Signs f id p
  ahead : endOf (chainOf (s.node id).chainStore) ≤ header.offset
  notRefused : ¬ ChainQuorum (c.cell id) fun n =>
    ∃ k f, (s.node id).pendingStore.groupFrame p k = some f ∧ Refuses f n p

/-- The clock gives ids that are new, no proposal that binds the node has expired for it, and its
operations fit in a block. -/
structure Cluster.TickAllowed (c : Cluster) (s : ClusterState) (id : NodeId) (i : TickInput) :
    Prop where
  signatureTime : c.New s i.signatureTime
  proposalTime : c.New s i.proposalTime
  lives : ∀ f ∈ s.created, ∀ p frame header, Proposes f p frame header → c.Bound s id p header →
    i.now < p + (c.commitConfig id).blockProposalTimeout
  small : (framesData ((s.node id).pendingStore.operations.map StoredOperation.frame)).length < 2^32

/-- What may happen at a chain node: it receives what another one has created, an entry with a
new id is added, or it ticks. -/
def Cluster.Allows (c : Cluster) (s : ClusterState) (a : ClusterStep) : Prop :=
  IsChainNode (c.cell a.node) a.node ∧ NodeIdReadsBack a.node ∧
    match a.step with
    | .pendingSyncRequest _ request => s.Sent request
    | .newOperation operation => ∃ id, Enters operation.frame id ∧ c.New s id
    | .pendingTick _ => True
    | .commitTick i => c.TickAllowed s a.node i

/-- No node has an operation yet, and all have the same chain. -/
structure Cluster.Starts (c : Cluster) (s : ClusterState) : Prop where
  empty : ∀ id, (s.node id).pendingStore = .new
  created : s.created = []
  holds : ∀ id, StoreHolds True (s.node id).chainStore c.initial
  inStep : ∀ id, CursorsInStep (s.node id).chainStore

/-- What two blocks of one proposal have in common: each node has its own signatures. -/
structure BlockContent where
  offset : ℕ
  header : BlockHeaderFrame
  operationsData : Bytes

def contentOf (b : DataBlock) : BlockContent := ⟨b.offset, b.header, b.operationsData⟩

end World

end Exocore.Engine
