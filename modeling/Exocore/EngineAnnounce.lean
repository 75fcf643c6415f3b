import Exocore.EngineInner
import Exocore.PendingGroups
import Exocore.PendingSyncHandle
import Exocore.CommitSteps
import Exocore.ChainSyncStatus

/-! What the calls of a handler put in its context: an event for each operation and each block
that they store, and messages to nodes that are known. -/
namespace Exocore.Engine

open Exocore.Core Exocore.Chain Exocore.Pending

/-- A chain store that notes the blocks it has written. -/
structure Recorded (CS : Type) where
  store : CS
  written : List DataBlock

def Recorded.writeBlock [Crates] {CS : Type} [ChainStore CS] (r : Recorded CS) (b : DataBlock) :
    Res ChainError ℕ × Recorded CS :=
  match ChainStore.writeBlock r.store b with
  | (.ok next, store) => (.ok next, ⟨store, r.written ++ [b]⟩)
  | (.error e, store) => (.error e, ⟨store, r.written⟩)

instance [Crates] {CS : Type} [ChainRangeStore CS] : ChainRangeStore (Recorded CS) where
  getLastBlock r := ChainStore.getLastBlock r.store
  getBlock r := ChainStore.getBlock r.store
  getBlockByOperationId r := ChainStore.getBlockByOperationId r.store
  writeBlock := Recorded.writeBlock
  segments r := ChainRangeStore.segments r.store
  blocksIter r := ChainRangeStore.blocksIter r.store
  blocksIterReverse r := ChainRangeStore.blocksIterReverse r.store
  getBlockFromNextOffset r := ChainRangeStore.getBlockFromNextOffset r.store

variable [Crates]

/-- What the announcements are about. -/
structure View where
  syncContext : SyncContext
  pendingStore : MemoryPendingStore
  written : List DataBlock

/-- Each operation that came into the store and each block that was written has its event, and
the new messages are to nodes that are known. -/
structure Announces (known : NodeId → Prop) (v v' : View) : Prop where
  events : v.syncContext.events <+: v'.syncContext.events
  operations : ∀ id, v.pendingStore.getOperation id = none →
    (v'.pendingStore.getOperation id).isSome = true →
    Event.newPendingOperation id ∈ v'.syncContext.events
  blocks : ∃ bs, v'.written = v.written ++ bs ∧
    ∀ b ∈ bs, Event.newChainBlock b.offset ∈ v'.syncContext.events
  messages : ∀ m ∈ v'.syncContext.messages, m ∈ v.syncContext.messages ∨ known m.destNode

section Views
variable {known : NodeId → Prop}

theorem Announces.refl (v : View) : Announces known v v := by
  refine ⟨List.prefix_rfl, ?_, ⟨[], by simp⟩, fun m hm => Or.inl hm⟩
  intro id hnone hsome
  rw [hnone] at hsome
  contradiction

theorem Announces.trans {a b c : View} (h : Announces known a b) (h' : Announces known b c) :
    Announces known a c := by
  obtain ⟨bs, hbs, hevents⟩ := h.blocks
  obtain ⟨bs', hbs', hevents'⟩ := h'.blocks
  refine ⟨h.events.trans h'.events, ?_, ⟨bs ++ bs', by rw [hbs', hbs, List.append_assoc], ?_⟩, ?_⟩
  · intro id hnone hsome
    cases hmid : b.pendingStore.getOperation id with
    | none => exact h'.operations id hmid hsome
    | some op => exact h'.events.subset (h.operations id hnone (by rw [hmid]; rfl))
  · intro x hx
    rcases List.mem_append.mp hx with hx | hx
    · exact h'.events.subset (hevents x hx)
    · exact hevents' x hx
  · intro m hm
    rcases h'.messages m hm with hold | hnew
    · exact h.messages m hold
    · exact Or.inr hnew

/-- A call that stores nothing new and dispatches nothing. -/
theorem announces_of_same {v v' : View} (hevents : v'.syncContext.events = v.syncContext.events)
    (hstore : ∀ id, (v'.pendingStore.getOperation id).isSome = true →
      (v.pendingStore.getOperation id).isSome = true) (hwritten : v'.written = v.written)
    (hmessages : ∀ m ∈ v'.syncContext.messages, m ∈ v.syncContext.messages ∨ known m.destNode) :
    Announces known v v' := by
  refine ⟨by rw [hevents], ?_, ⟨[], by rw [hwritten, List.append_nil], by simp⟩, hmessages⟩
  intro id hnone hsome
  have hold := hstore id hsome
  rw [hnone] at hold
  contradiction

end Views

/-- A call ends well where the handler goes on behind it. -/
def EndsWell {A : Type} (r : Res EngineError A) : Prop :=
  (∃ a, r = .ok a) ∨ r = .error (.error .outOfSync)

/-- A call that, where it ends well, has announced what it did. -/
def Announcing {S A : Type} (known : NodeId → Prop) (view : S → View)
    (x : Action S EngineError A) : Prop :=
  ∀ s, EndsWell (x s).1 → Announces known (view s) (view (x s).2)

section Calls
variable {S A B : Type} {known : NodeId → Prop} {view : S → View}

theorem announcing_pure (a : A) : Announcing known view (pure a : Action S EngineError A) :=
  fun s _ => Announces.refl (view s)

theorem announcing_lift (r : Res EngineError A) :
    Announcing known view (Action.lift r : Action S EngineError A) :=
  fun s _ => Announces.refl (view s)

theorem announcing_get : Announcing known view (Action.get : Action S EngineError S) :=
  fun s _ => Announces.refl (view s)

theorem announcing_bind (x : Action S EngineError A) (f : A → Action S EngineError B)
    (hx : Announcing known view x) (hf : ∀ a, Announcing known view (f a)) :
    Announcing known view (x >>= f) := by
  intro s hend
  rcases Action.bind_cases x f s with ⟨e, s', hs, h⟩ | ⟨a, s', hs, h⟩
  · have hstep := hx s
    rw [hs] at hstep
    rw [h] at hend ⊢
    refine hstep ?_
    rcases hend with ⟨b, hb⟩ | hout
    · contradiction
    · exact Or.inr (by rw [Except.error.inj hout])
  · have hstep := hx s
    rw [hs] at hstep
    rw [h] at hend ⊢
    exact (hstep (Or.inl ⟨a, rfl⟩)).trans (hf a s' hend)

end Calls

def PendingState.view (written : List DataBlock) (s : PendingState) : View :=
  ⟨s.syncContext, s.store, written⟩

section Pending
variable {known : NodeId → Prop} {written : List DataBlock}

theorem announcing_pushPendingSyncRequest (nodeId : NodeId) (hknown : known nodeId)
    (request : PendingSyncRequest) :
    Announcing known (PendingState.view written) (pushPendingSyncRequest nodeId request) := by
  intro s _
  refine announces_of_same rfl (fun _ h => h) rfl ?_
  intro m hm
  rcases List.mem_append.mp hm with hm | hm
  · exact Or.inl hm
  · rw [List.mem_singleton.mp hm]
    exact Or.inr hknown

/-- A put that is followed by its event, unless the operation was there. -/
theorem putOperation_announces (known : NodeId → Prop) (written : List DataBlock)
    (s : PendingState) (operation : NewOperation) (existed : Bool) (store : MemoryPendingStore)
    (hput : s.store.putOperation operation = .ok (existed, store))
    (reader : ChainOperation) (hreader : operation.frame.frame.reader = some reader)
    (context : SyncContext)
    (hcontext : context = s.syncContext ∧ existed = true ∨
      context = s.syncContext.pushEvent (.newPendingOperation reader.operationId)) :
    Announces known (PendingState.view written s) (PendingState.view written ⟨context, store⟩) := by
  obtain ⟨r, type, hr, htype⟩ := s.store.putOperation_eq_ok operation _ hput
  rw [hreader] at hr
  obtain rfl := Option.some.inj hr
  rw [s.store.putOperation_eq operation reader type hreader htype] at hput
  obtain ⟨hexisted, hstore⟩ := Prod.ext_iff.mp (Except.ok.inj hput)
  simp only at hexisted hstore
  have hget : ∀ id, id ≠ reader.operationId → store.getOperation id = s.store.getOperation id := by
    intro id hne
    rw [← hstore, s.store.getOperation_insertOperation, if_neg hne]
  have hevents : s.syncContext.events <+: context.events := by
    rcases hcontext with ⟨rfl, -⟩ | rfl
    · exact List.prefix_rfl
    · exact List.prefix_append _ _
  refine ⟨hevents, ?_, ⟨[], (List.append_nil _).symm, by simp⟩, ?_⟩
  · intro id hnone hsome
    by_cases hid : id = reader.operationId
    · rcases hcontext with ⟨-, htrue⟩ | rfl
      · -- the operation is in the timeline, so the store gives it
        have htime : (s.store.operationsTimeline.get reader.operationId).isSome = true :=
          hexisted.trans htrue
        obtain ⟨g, hg⟩ := Option.isSome_iff_exists.mp htime
        obtain ⟨ops, op, hops, hop⟩ := s.store.grouped _ _ hg
        have hsome' : s.store.getOperation reader.operationId =
            some (MemoryPendingStore.storedOperation g op) := by
          simp [MemoryPendingStore.getOperation, hg, hops, hop]
        have hnone' : s.store.getOperation id = none := hnone
        rw [hid, hsome'] at hnone'
        contradiction
      · rw [hid]
        exact List.mem_append_right _ (List.mem_singleton_self _)
    · have hnone' : s.store.getOperation id = none := hnone
      have hsome' : (store.getOperation id).isSome = true := hsome
      rw [hget id hid, hnone'] at hsome'
      contradiction
  · intro m hm
    rcases hcontext with ⟨rfl, -⟩ | rfl <;> exact Or.inl hm

theorem announcing_storeIncludedOperations (frames : List (Option Bytes)) (included : List ℕ) :
    Announcing known (PendingState.view written) (storeIncludedOperations frames included) := by
  induction frames generalizing included with
  | nil => exact announcing_pure _
  | cons frame rest ih =>
    rw [storeIncludedOperations]
    apply announcing_bind _ _ (announcing_lift _)
    intro data
    apply announcing_bind _ _ (announcing_lift _)
    intro frame s hend
    cases hreader : frame.frame.reader with
    | none => exact Announces.refl _
    | some reader =>
      simp only [hreader, orError_some, Action.lift_ok_bind] at hend ⊢
      rw [Action.bind_apply, putOperation] at hend ⊢
      cases hput : s.store.putOperation ⟨reader.operationId, frame⟩ with
      | error e =>
        simp only [hput] at hend ⊢
        exact Announces.refl _
      | ok r =>
        obtain ⟨existed, store⟩ := r
        simp only [hput] at hend ⊢
        cases existed with
        | true =>
          have hstep := putOperation_announces known written s
            ⟨reader.operationId, frame⟩ true store hput reader hreader s.syncContext
            (Or.inl ⟨rfl, rfl⟩)
          exact hstep.trans (ih _ ⟨s.syncContext, store⟩ hend)
        | false =>
          have hstep := putOperation_announces known written s
            ⟨reader.operationId, frame⟩ false store hput reader hreader _ (Or.inr rfl)
          exact hstep.trans (ih _ ⟨_, store⟩ hend)

theorem announcing_handleIncomingSyncRangesLoop (height : Option ℕ)
    (ranges : List PendingSyncRange) (changes : Bool) (out : SyncRangesBuilder) :
    Announcing known (PendingState.view written)
      (handleIncomingSyncRangesLoop height ranges changes out) := by
  induction ranges generalizing changes out with
  | nil => exact announcing_pure _
  | cons range rest ih =>
    rw [handleIncomingSyncRangesLoop]
    refine announcing_bind _ _ ?_ fun r => ih _ _
    rw [handleIncomingSyncRange]
    split_ifs
    · exact announcing_lift _
    · apply announcing_bind _ _ (announcing_lift _)
      intro frames
      apply announcing_bind _ _ (announcing_storeIncludedOperations frames [])
      intro included
      exact announcing_bind _ _ announcing_get fun state => announcing_lift _

theorem announcing_handleIncomingSyncRequest (p : PendingSynchronizer) (fromNode : NodeId)
    (hknown : known fromNode) (request : Option PendingSyncRequest) :
    Announcing known (PendingState.view written)
      (p.handleIncomingSyncRequest fromNode request) := by
  rw [PendingSynchronizer.handleIncomingSyncRequest]
  apply announcing_bind _ _ (announcing_lift _)
  intro reader
  apply announcing_bind _ _ announcing_get
  intro state
  apply announcing_bind _ _ (announcing_lift _)
  intro ranges
  apply announcing_bind _ _ (announcing_handleIncomingSyncRangesLoop _ ranges false _)
  intro out
  cases out with
  | none => exact announcing_pure _
  | some out => exact announcing_pushPendingSyncRequest fromNode hknown _

theorem announcing_sendNewOperation (p : PendingSynchronizer) (operationId : ℕ)
    (nodes : List NodeId) (hnodes : ∀ node ∈ nodes, known node) :
    Announcing known (PendingState.view written) (p.sendNewOperation operationId nodes) := by
  induction nodes with
  | nil => exact announcing_pure _
  | cons node rest ih =>
    rw [PendingSynchronizer.sendNewOperation]
    apply announcing_bind _ _ announcing_get
    intro state
    apply announcing_bind _ _ (announcing_lift _)
    intro request
    apply announcing_bind _ _
      (announcing_pushPendingSyncRequest node (hnodes node List.mem_cons_self) request)
    intro _
    exact ih fun x hx => hnodes x (List.mem_cons_of_mem node hx)

theorem announcing_handleNewOperation (p : PendingSynchronizer) (operation : NewOperation)
    (hnodes : ∀ node ∈ p.otherChainNodes, known node) :
    Announcing known (PendingState.view written) (p.handleNewOperation operation) := by
  intro s hend
  rw [PendingSynchronizer.handleNewOperation] at hend ⊢
  cases hread : liftError EngineError.operation operation.frame.getReader with
  | error e => exact Announces.refl _
  | ok reader =>
    have hreader : operation.frame.frame.reader = some reader := by
      cases hr : operation.frame.frame.reader with
      | none => simp [OperationFrame.getReader, hr, orError, liftError] at hread
      | some r =>
        simp only [OperationFrame.getReader, hr, orError_some, liftError_ok] at hread
        rw [Except.ok.inj hread]
    simp only [hread, Action.lift_ok_bind] at hend ⊢
    rw [Action.bind_apply, putOperation] at hend ⊢
    cases hput : s.store.putOperation operation with
    | error e =>
      simp only [hput] at hend ⊢
      exact Announces.refl _
    | ok r =>
      obtain ⟨existed, store⟩ := r
      simp only [hput] at hend ⊢
      have hstep := putOperation_announces known written s operation
        existed store hput reader hreader _ (Or.inr rfl)
      exact hstep.trans (announcing_sendNewOperation p reader.operationId p.otherChainNodes hnodes
        ⟨_, store⟩ hend)

theorem announcing_pendingTick (p : PendingSynchronizer) (canSendRequest : NodeId → Bool)
    (hnodes : ∀ node ∈ p.otherChainNodes, known node) :
    Announcing known (PendingState.view written) (p.tick canSendRequest) := by
  rw [PendingSynchronizer.tick]
  generalize p.otherChainNodes = nodes at hnodes
  induction nodes with
  | nil => exact announcing_pure _
  | cons node rest ih =>
    have hrest := ih fun x hx => hnodes x (List.mem_cons_of_mem node hx)
    rw [PendingSynchronizer.tickLoop]
    split_ifs
    · apply announcing_bind _ _ announcing_get
      intro state
      apply announcing_bind _ _ (announcing_lift _)
      intro request
      exact announcing_bind _ _
        (announcing_pushPendingSyncRequest node (hnodes node List.mem_cons_self) request)
        fun _ => hrest
    · exact hrest

end Pending

section ChainSync
variable {CS A B : Type} {known : NodeId → Prop} {pendingStore : MemoryPendingStore}

def ChainSyncState.view (pendingStore : MemoryPendingStore) (s : ChainSyncState (Recorded CS)) :
    View := ⟨s.syncContext, pendingStore, s.store.written⟩

/-- The nodes of the cell are known, and the call announces what it does. -/
def SyncAnnouncing (known : NodeId → Prop) (pendingStore : MemoryPendingStore)
    (x : Action (ChainSyncState (Recorded CS)) EngineError A) : Prop :=
  ∀ s, (∀ id, (s.synchronizer.cell.get id).isSome = true → known id) →
    (x s).2.synchronizer.cell = s.synchronizer.cell ∧
      Announces known (s.view pendingStore) ((x s).2.view pendingStore)

theorem syncAnnouncing_bind (x : Action (ChainSyncState (Recorded CS)) EngineError A)
    (f : A → Action (ChainSyncState (Recorded CS)) EngineError B)
    (hx : SyncAnnouncing known pendingStore x) (hf : ∀ a, SyncAnnouncing known pendingStore (f a)) :
    SyncAnnouncing known pendingStore (x >>= f) := by
  intro s hs
  obtain ⟨hcell, hstep⟩ := hx s hs
  rcases Action.bind_cases x f s with ⟨e, s', hs', h⟩ | ⟨a, s', hs', h⟩
  · rw [hs'] at hcell hstep
    rw [h]
    exact ⟨hcell, hstep⟩
  · rw [hs'] at hcell hstep
    rw [h]
    obtain ⟨hcell', hstep'⟩ := hf a s' (by rw [hcell]; exact hs)
    exact ⟨hcell'.trans hcell, hstep.trans hstep'⟩

theorem syncAnnouncing_lift (r : Res EngineError A) :
    SyncAnnouncing known pendingStore (Action.lift r : Action (ChainSyncState (Recorded CS)) _ _) :=
  fun _ _ => ⟨rfl, Announces.refl _⟩

theorem syncAnnouncing_pure (a : A) :
    SyncAnnouncing known pendingStore (pure a : Action (ChainSyncState (Recorded CS)) _ _) :=
  fun _ _ => ⟨rfl, Announces.refl _⟩

theorem syncAnnouncing_get :
    SyncAnnouncing known pendingStore (Action.get : Action (ChainSyncState (Recorded CS)) _ _) :=
  fun _ _ => ⟨rfl, Announces.refl _⟩

theorem syncAnnouncing_update (f : ChainSynchronizer → ChainSynchronizer)
    (hf : ∀ s, (f s).cell = s.cell) :
    SyncAnnouncing known pendingStore
      (ChainSynchronizer.update f : Action (ChainSyncState (Recorded CS)) _ _) :=
  fun s _ => ⟨hf s.synchronizer, Announces.refl _⟩

theorem syncAnnouncing_getOrCreateNodeInfo (nodeId : NodeId) :
    SyncAnnouncing known pendingStore (ChainSynchronizer.getOrCreateNodeInfo nodeId :
      Action (ChainSyncState (Recorded CS)) _ _) :=
  fun s _ => ⟨(s.synchronizer.createNodeInfo_eq nodeId).2.1, Announces.refl _⟩

theorem announces_pushRequest (s : ChainSyncState (Recorded CS)) (nodeId : NodeId)
    (hknown : known nodeId) (request : ChainSyncRequest) :
    Announces known (s.view pendingStore)
      ((ChainSynchronizer.pushRequest nodeId request s).2.view pendingStore) := by
  refine announces_of_same rfl (fun _ h => h) rfl ?_
  intro m hm
  rcases List.mem_append.mp hm with hm | hm
  · exact Or.inl hm
  · rw [List.mem_singleton.mp hm]
    exact Or.inr hknown

theorem syncAnnouncing_pushRequest (nodeId : NodeId) (hknown : known nodeId)
    (request : ChainSyncRequest) :
    SyncAnnouncing known pendingStore (ChainSynchronizer.pushRequest nodeId request :
      Action (ChainSyncState (Recorded CS)) _ _) :=
  fun s _ => ⟨rfl, announces_pushRequest s nodeId hknown request⟩

omit [Crates] in
theorem cell_get_of_mem (c : Cell) (node : CellNode) (h : node ∈ c.nodes) :
    (c.get node.id).isSome = true := by
  rw [Cell.get, List.find?_isSome]
  exact ⟨node, h, by simp⟩

omit [Crates] in
theorem otherChainNodes_known (s : ChainSynchronizer)
    (hs : ∀ id, (s.cell.get id).isSome = true → known id) (node : NodeId)
    (hnode : node ∈ s.otherChainNodes) : known node := by
  rw [ChainSynchronizer.otherChainNodes, List.mem_map] at hnode
  obtain ⟨n, hn, rfl⟩ := hnode
  apply hs
  apply cell_get_of_mem
  exact List.mem_of_mem_filter (List.mem_of_mem_filter hn)

theorem syncAnnouncing_synchronizeNodesMetadata (i : ChainSyncInput) (nodes : List NodeId)
    (hnodes : ∀ node ∈ nodes, known node) :
    SyncAnnouncing known pendingStore (ChainSynchronizer.synchronizeNodesMetadata i nodes :
      Action (ChainSyncState (Recorded CS)) _ _) := by
  induction nodes with
  | nil => exact syncAnnouncing_pure _
  | cons node rest ih =>
    have hrest := ih fun x hx => hnodes x (List.mem_cons_of_mem node hx)
    rw [ChainSynchronizer.synchronizeNodesMetadata]
    apply syncAnnouncing_bind _ _ (syncAnnouncing_getOrCreateNodeInfo node)
    intro info
    split_ifs
    · exact syncAnnouncing_bind _ _
        (syncAnnouncing_pushRequest node (hnodes node List.mem_cons_self) _) fun _ => hrest
    · exact hrest

theorem syncAnnouncing_setNodeInfo (info : NodeSyncInfo) :
    SyncAnnouncing known pendingStore
      (ChainSynchronizer.update (fun s => s.setNodeInfo info) :
        Action (ChainSyncState (Recorded CS)) _ _) :=
  syncAnnouncing_update _ fun _ => rfl

theorem syncAnnouncing_continueDownload (info : NodeSyncInfo) (hknown : known info.nodeId) :
    SyncAnnouncing known pendingStore (ChainSynchronizer.continueDownload info :
      Action (ChainSyncState (Recorded CS)) _ _) := by
  rw [ChainSynchronizer.continueDownload]
  apply syncAnnouncing_bind _ _ (syncAnnouncing_setNodeInfo info)
  intro _
  split_ifs
  · exact syncAnnouncing_update _ fun _ => rfl
  · exact syncAnnouncing_pushRequest info.nodeId hknown _

theorem syncAnnouncing_initiateDownload (i : ChainSyncInput) (leaderNodeId : NodeId)
    (info : NodeSyncInfo) :
    SyncAnnouncing known pendingStore (ChainSynchronizer.initiateDownload i leaderNodeId info :
      Action (ChainSyncState (Recorded CS)) _ _) := by
  intro s hs
  rw [ChainSynchronizer.initiateDownload, Action.get_bind]
  split_ifs with hcan hnone
  · exact syncAnnouncing_pure _ s hs
  · exact syncAnnouncing_lift _ s hs
  · have hleader : known leaderNodeId := by
      apply hs
      rw [Option.isSome_iff_ne_none]
      intro heq
      rw [heq] at hnone
      exact hnone rfl
    exact syncAnnouncing_bind _ _ (syncAnnouncing_pushRequest leaderNodeId hleader _)
      (fun _ => syncAnnouncing_update _ fun _ => rfl) s hs

variable [ChainRangeStore CS]

theorem syncAnnouncing_lastLocalBlock :
    SyncAnnouncing known pendingStore (ChainSynchronizer.lastLocalBlock :
      Action (ChainSyncState (Recorded CS)) _ _) := fun _ _ => ⟨rfl, Announces.refl _⟩

theorem syncAnnouncing_startLeaderDownloading (i : ChainSyncInput) :
    SyncAnnouncing known pendingStore (ChainSynchronizer.startLeaderDownloading i :
      Action (ChainSyncState (Recorded CS)) _ _) := by
  rw [ChainSynchronizer.startLeaderDownloading]
  apply syncAnnouncing_bind _ _ syncAnnouncing_get
  intro s
  split_ifs
  · exact syncAnnouncing_update _ fun _ => rfl
  · split
    · exact syncAnnouncing_pure _
    · apply syncAnnouncing_bind _ _ (syncAnnouncing_getOrCreateNodeInfo _)
      intro info
      split_ifs
      · exact syncAnnouncing_update _ fun _ => rfl
      · apply syncAnnouncing_bind _ _ (syncAnnouncing_lift _)
        intro diverged
        split_ifs
        · exact syncAnnouncing_lift _
        · exact syncAnnouncing_initiateDownload i _ info

theorem syncAnnouncing_countNonDivergent (nodes : List NodeId) (count : ℕ) :
    SyncAnnouncing known pendingStore (ChainSynchronizer.countNonDivergent nodes count :
      Action (ChainSyncState (Recorded CS)) _ _) := by
  induction nodes generalizing count with
  | nil => exact syncAnnouncing_pure _
  | cons node rest ih =>
    rw [ChainSynchronizer.countNonDivergent]
    apply syncAnnouncing_bind _ _ (syncAnnouncing_getOrCreateNodeInfo node)
    intro info
    apply syncAnnouncing_bind _ _ syncAnnouncing_get
    intro s
    exact syncAnnouncing_bind _ _ (syncAnnouncing_lift _) fun _ => ih _

theorem syncAnnouncing_electAndDownload (i : ChainSyncInput) :
    SyncAnnouncing known pendingStore (ChainSynchronizer.electAndDownload i :
      Action (ChainSyncState (Recorded CS)) _ _) := by
  have hfind : SyncAnnouncing known pendingStore (ChainSynchronizer.findLeaderNode i :
      Action (ChainSyncState (Recorded CS)) _ _) := by
    rw [ChainSynchronizer.findLeaderNode]
    apply syncAnnouncing_bind _ _ syncAnnouncing_get
    intro s
    apply syncAnnouncing_bind _ _ syncAnnouncing_lastLocalBlock
    intro lastBlock
    exact syncAnnouncing_bind _ _ (syncAnnouncing_lift _) fun _ => syncAnnouncing_update _ fun _ => rfl
  rw [ChainSynchronizer.electAndDownload]
  apply syncAnnouncing_bind _ _ syncAnnouncing_get
  intro s
  apply syncAnnouncing_bind _ _ (syncAnnouncing_countNonDivergent _ 1)
  intro count
  split_ifs
  · exact syncAnnouncing_bind _ _ hfind fun _ => syncAnnouncing_startLeaderDownloading i
  · exact syncAnnouncing_startLeaderDownloading i
  · exact syncAnnouncing_lift _

omit [ChainRangeStore CS] in
theorem syncAnnouncing_loseLeader (i : ChainSyncInput) :
    SyncAnnouncing known pendingStore (ChainSynchronizer.loseLeader i :
      Action (ChainSyncState (Recorded CS)) _ _) := by
  rw [ChainSynchronizer.loseLeader]
  apply syncAnnouncing_bind _ _ syncAnnouncing_get
  intro s
  split_ifs
  · split
    · exact syncAnnouncing_pure _
    · apply syncAnnouncing_bind _ _ (syncAnnouncing_getOrCreateNodeInfo _)
      intro info
      apply syncAnnouncing_bind _ _ (syncAnnouncing_lift _)
      intro delta
      dsimp only
      split_ifs
      · exact syncAnnouncing_update _ fun _ => rfl
      · exact syncAnnouncing_pure _
  · exact syncAnnouncing_pure _

theorem tick_syncAnnounces (known : NodeId → Prop) (pendingStore : MemoryPendingStore)
    (i : ChainSyncInput) (s : ChainSyncState (Recorded CS))
    (hs : ∀ id, (s.synchronizer.cell.get id).isSome = true → known id)
    (hkeyed : s.synchronizer.Keyed) :
    (ChainSynchronizer.tick i s).2.synchronizer.cell = s.synchronizer.cell ∧
      Announces known (s.view pendingStore)
        ((ChainSynchronizer.tick i s).2.view pendingStore) := by
  obtain ⟨hchecked, -⟩ := ChainSynchronizer.checkNodesStatus_spec i s.synchronizer hkeyed
  rw [ChainSynchronizer.tick_eq]
  generalize ChainSynchronizer.checkNodesStatus i s.synchronizer = checked at hchecked
  simp only
  cases liftError EngineError.chainStore (ChainStore.getLastBlock s.store) with
  | error e => exact ⟨hchecked.cell, Announces.refl _⟩
  | ok lastBlock =>
    simp only
    have hcell : (ChainSynchronizer.loseMajority (checked.2.cell.hasQuorum checked.1 (some .chain))
        checked.2).cell = s.synchronizer.cell := by
      rw [← hchecked.cell, ChainSynchronizer.loseMajority]
      split_ifs <;> rfl
    have hlost : SyncAnnouncing known pendingStore (ChainSynchronizer.loseLeader i :
      Action (ChainSyncState (Recorded CS)) _ _) := syncAnnouncing_loseLeader i
    obtain ⟨hcell2, hs2⟩ := hlost { s with synchronizer := _ } (by rw [hcell]; exact hs)
    cases hlose : ChainSynchronizer.loseLeader i { s with
        synchronizer := ChainSynchronizer.loseMajority
          (checked.2.cell.hasQuorum checked.1 (some .chain)) checked.2 } with
    | mk r s2 =>
      rw [hlose] at hcell2 hs2
      have hknown2 : ∀ id, (s2.synchronizer.cell.get id).isSome = true → known id := by
        rw [hcell2, hcell]
        exact hs
      have hasked : SyncAnnouncing known pendingStore
          (ChainSynchronizer.synchronizeNodesMetadata i s2.synchronizer.otherChainNodes :
            Action (ChainSyncState (Recorded CS)) _ _) :=
        syncAnnouncing_synchronizeNodesMetadata i _ (otherChainNodes_known _ hknown2)
      cases r with
      | error e => exact ⟨hcell2.trans hcell, hs2⟩
      | ok _ =>
        simp only
        split_ifs
        · have helected : SyncAnnouncing known pendingStore
              (ChainSynchronizer.electAndDownload i : Action (ChainSyncState (Recorded CS)) _ _) :=
            syncAnnouncing_electAndDownload i
          obtain ⟨hcell3, hs3⟩ := helected s2 hknown2
          cases helect : ChainSynchronizer.electAndDownload i s2 with
          | mk r3 s3 =>
            rw [helect] at hcell3 hs3
            cases r3 with
            | error e => exact ⟨hcell3.trans (hcell2.trans hcell), hs2.trans hs3⟩
            | ok _ =>
              obtain ⟨hcell4, hs4⟩ := hasked s3 (by rw [hcell3]; exact hknown2)
              exact ⟨hcell4.trans (hcell3.trans (hcell2.trans hcell)), (hs2.trans hs3).trans hs4⟩
        · obtain ⟨hcell4, hs4⟩ := hasked s2 hknown2
          exact ⟨hcell4.trans (hcell2.trans hcell), hs2.trans hs4⟩

theorem recorded_writeBlock_cases (r : Recorded CS) (b : DataBlock) :
    (∃ next store, ChainStore.writeBlock r.store b = (.ok next, store) ∧
      ChainStore.writeBlock r b = (.ok next, (⟨store, r.written ++ [b]⟩ : Recorded CS))) ∨
    (∃ e store, ChainStore.writeBlock r.store b = (.error e, store) ∧
      ChainStore.writeBlock r b = (.error e, (⟨store, r.written⟩ : Recorded CS))) := by
  have heq : ChainStore.writeBlock r b = Recorded.writeBlock r b := rfl
  rw [heq, Recorded.writeBlock]
  rcases ChainStore.writeBlock r.store b with ⟨e | next, store⟩
  · exact Or.inr ⟨e, store, rfl, rfl⟩
  · exact Or.inl ⟨next, store, rfl, rfl⟩

/-- The event of a block is there before the block is. -/
theorem announces_writeChainBlock (block : DataBlock) (s : ChainSyncState (Recorded CS)) :
    (ChainSynchronizer.writeChainBlock block
        (ChainSynchronizer.pushChainEvent block.offset s).2).2.synchronizer = s.synchronizer ∧
      Announces known (s.view pendingStore) ((ChainSynchronizer.writeChainBlock block
        (ChainSynchronizer.pushChainEvent block.offset s).2).2.view pendingStore) := by
  have hevents : s.syncContext.events <+:
      (s.syncContext.pushEvent (.newChainBlock block.offset)).events := List.prefix_append _ _
  have hstore : ∀ id, pendingStore.getOperation id = none →
      (pendingStore.getOperation id).isSome = true →
      Event.newPendingOperation id ∈
        (s.syncContext.pushEvent (.newChainBlock block.offset)).events := by
    intro id hnone hsome
    rw [hnone] at hsome
    contradiction
  rw [ChainSynchronizer.writeChainBlock, ChainSynchronizer.pushChainEvent]
  rcases recorded_writeBlock_cases s.store block with
    ⟨next, store, -, hwrite⟩ | ⟨e, store, -, hwrite⟩
  · simp only [hwrite]
    refine ⟨trivial, hevents, hstore, ⟨[block], rfl, ?_⟩, fun m hm => Or.inl hm⟩
    intro b hb
    rw [List.mem_singleton.mp hb]
    exact List.mem_append_right _ (List.mem_singleton_self _)
  · simp only [hwrite]
    exact ⟨trivial, hevents, hstore, ⟨[], (List.append_nil _).symm, by simp⟩,
      fun m hm => Or.inl hm⟩

theorem syncAnnouncing_writeIncomingBlocks (blocks : List (Option Bytes))
    (last : Option BlockMetadata) :
    SyncAnnouncing known pendingStore (ChainSynchronizer.writeIncomingBlocks blocks last :
      Action (ChainSyncState (Recorded CS)) _ _) := by
  induction blocks generalizing last with
  | nil => exact syncAnnouncing_pure _
  | cons data rest ih =>
    rw [ChainSynchronizer.writeIncomingBlocks]
    apply syncAnnouncing_bind _ _ (syncAnnouncing_lift _)
    intro data
    apply syncAnnouncing_bind _ _ (syncAnnouncing_lift _)
    intro block
    dsimp only
    split_ifs
    · intro s hs
      obtain ⟨hsync, hwritten⟩ := announces_writeChainBlock block s
      have hpush : ∀ f : Unit → Action (ChainSyncState (Recorded CS)) EngineError
          (Option BlockMetadata), (ChainSynchronizer.pushChainEvent block.offset >>= f) s =
            f () (ChainSynchronizer.pushChainEvent block.offset s).2 := fun _ => rfl
      rw [hpush]
      rcases Action.bind_cases (ChainSynchronizer.writeChainBlock block) _
          (ChainSynchronizer.pushChainEvent block.offset s).2 with
        ⟨e, s', hs', h⟩ | ⟨a, s', hs', h⟩
      · rw [hs'] at hsync hwritten
        rw [h]
        exact ⟨congrArg _ hsync, hwritten⟩
      · rw [hs'] at hsync hwritten
        rw [h]
        have hrest := syncAnnouncing_bind _ _ (syncAnnouncing_lift
          (BlockMetadata.fromStoredBlock block)) (fun newBlock => ih (some newBlock)) s'
          (by rw [hsync]; exact hs)
        exact ⟨hrest.1.trans (congrArg _ hsync), hwritten.trans hrest.2⟩
    · exact syncAnnouncing_lift _

theorem handleSyncResponseBlocks_announces (fromNode : NodeId) (hknown : known fromNode)
    (response : ChainSyncResponse) (s : ChainSyncState (Recorded CS))
    (hs : ∀ id, (s.synchronizer.cell.get id).isSome = true → known id)
    (hkeyed : s.synchronizer.Keyed) :
    (ChainSynchronizer.handleSyncResponseBlocks fromNode response s).2.synchronizer.cell =
        s.synchronizer.cell ∧
      Announces known (s.view pendingStore)
        ((ChainSynchronizer.handleSyncResponseBlocks fromNode response s).2.view pendingStore) := by
  have hcell := (s.synchronizer.createNodeInfo_eq fromNode).2.1
  rcases ChainSynchronizer.handleSyncResponseBlocks_cases fromNode response s with
    ⟨e, hres | hres⟩ | ⟨last, blocks, r, s', -, -, -, hwrite, hsync, hend⟩
  · rw [hres]
    exact ⟨rfl, Announces.refl _⟩
  · rw [hres]
    exact ⟨hcell, Announces.refl _⟩
  · have hwritten : SyncAnnouncing known pendingStore
        (ChainSynchronizer.writeIncomingBlocks blocks last :
          Action (ChainSyncState (Recorded CS)) _ _) := syncAnnouncing_writeIncomingBlocks blocks last
    obtain ⟨hcell', hann⟩ := hwritten { s with
      synchronizer := s.synchronizer.createNodeInfo fromNode } (by rw [hcell]; exact hs)
    rw [hwrite] at hcell' hann
    rcases hend with ⟨e, -, hres⟩ | ⟨last', -, hres⟩
    · rw [hres]
      exact ⟨hcell'.trans hcell, hann⟩
    · have hgo : SyncAnnouncing known pendingStore (ChainSynchronizer.continueDownload
          { s.synchronizer.nodeInfo fromNode with lastCommonBlock := last' } :
            Action (ChainSyncState (Recorded CS)) _ _) :=
        syncAnnouncing_continueDownload _ (by simpa [hkeyed fromNode] using hknown)
      obtain ⟨hcell'', hann'⟩ := hgo s' (by rw [hcell', hcell]; exact hs)
      rw [hres]
      exact ⟨hcell''.trans (hcell'.trans hcell), hann.trans hann'⟩

theorem handleSyncResponseMetadata_announces (overflowChecks : Bool) (fromNode : NodeId)
    (hknown : known fromNode) (response : ChainSyncResponse) (s : ChainSyncState (Recorded CS))
    (hs : ∀ id, (s.synchronizer.cell.get id).isSome = true → known id)
    (hkeyed : s.synchronizer.Keyed) :
    (ChainSynchronizer.handleSyncResponseMetadata overflowChecks fromNode response
        s).2.synchronizer.cell = s.synchronizer.cell ∧
      Announces known (s.view pendingStore)
        ((ChainSynchronizer.handleSyncResponseMetadata overflowChecks fromNode response s).2.view
          pendingStore) := by
  have hcell := (s.synchronizer.createNodeInfo_eq fromNode).2.1
  rw [ChainSynchronizer.handleSyncResponseMetadata, ChainSynchronizer.getOrCreateNodeInfo_bind]
  cases response.headers.get with
  | error e => exact ⟨hcell, Announces.refl _⟩
  | ok headers =>
    simp only [Action.lift_ok_bind, Action.get_bind]
    have hinfo := (MetadataScan.scanHeaders_info overflowChecks s.store headers
      ⟨s.synchronizer.nodeInfo fromNode, false, none, none, true⟩).1
    generalize MetadataScan.scanHeaders overflowChecks s.store headers
      ⟨s.synchronizer.nodeInfo fromNode, false, none, none, true⟩ = scanned at hinfo
    obtain ⟨result, scan⟩ := scanned
    have hid : scan.info.nodeId = fromNode := hinfo.trans (hkeyed fromNode)
    have hrest : SyncAnnouncing known pendingStore (do
        ChainSynchronizer.update fun s => s.setNodeInfo scan.info
        Action.lift result
        if scan.hasNewCommonBlock ∧ !scan.allContiguous then
          ChainSynchronizer.pushRequest scan.info.nodeId
            (ChainSynchronizer.createSyncRequest scan.info .headers scan.firstNonCommonBlock)
        else if !scan.info.lastCommonIsKnown then
          ChainSynchronizer.update fun s =>
            s.setNodeInfo { scan.info with lastCommonIsKnown := true } :
        Action (ChainSyncState (Recorded CS)) EngineError Unit) := by
      apply syncAnnouncing_bind _ _ (syncAnnouncing_setNodeInfo scan.info)
      intro _
      apply syncAnnouncing_bind _ _ (syncAnnouncing_lift result)
      intro _
      split_ifs
      · exact syncAnnouncing_pushRequest _ (by rw [hid]; exact hknown) _
      · exact syncAnnouncing_setNodeInfo _
      · exact syncAnnouncing_pure _
    obtain ⟨hcell', hann⟩ := hrest { s with
      synchronizer := s.synchronizer.createNodeInfo fromNode } (by rw [hcell]; exact hs)
    exact ⟨hcell'.trans hcell, hann⟩

theorem handleSyncResponse_announces (known : NodeId → Prop) (pendingStore : MemoryPendingStore)
    (overflowChecks : Bool) (fromNode : NodeId) (hknown : known fromNode)
    (response : Option ChainSyncResponse) (s : ChainSyncState (Recorded CS))
    (hs : ∀ id, (s.synchronizer.cell.get id).isSome = true → known id)
    (hkeyed : s.synchronizer.Keyed) :
    (ChainSynchronizer.handleSyncResponse overflowChecks fromNode response s).2.synchronizer.cell =
        s.synchronizer.cell ∧
      Announces known (s.view pendingStore)
        ((ChainSynchronizer.handleSyncResponse overflowChecks fromNode response s).2.view
          pendingStore) := by
  cases response with
  | none => exact ⟨rfl, Announces.refl _⟩
  | some response =>
    have hinfo : SyncAnnouncing known pendingStore (ChainSynchronizer.getOrCreateNodeInfo fromNode >>=
        fun _ => pure () : Action (ChainSyncState (Recorded CS)) EngineError Unit) :=
      syncAnnouncing_bind _ _ (syncAnnouncing_getOrCreateNodeInfo fromNode)
        fun _ => syncAnnouncing_pure _
    -- what is left to do behind the response
    have hthen : ∀ x : Action (ChainSyncState (Recorded CS)) EngineError Unit,
        ((x s).2.synchronizer.cell = s.synchronizer.cell ∧
          Announces known (s.view pendingStore) ((x s).2.view pendingStore)) →
        ((x >>= fun _ => ChainSynchronizer.getOrCreateNodeInfo fromNode >>= fun _ => pure ())
            s).2.synchronizer.cell = s.synchronizer.cell ∧
          Announces known (s.view pendingStore) (((x >>= fun _ =>
            ChainSynchronizer.getOrCreateNodeInfo fromNode >>= fun _ => pure ()) s).2.view
              pendingStore) := by
      intro x hx
      rcases Action.bind_cases x (fun _ => ChainSynchronizer.getOrCreateNodeInfo fromNode >>=
          fun _ => pure ()) s with ⟨e, s', hs', h⟩ | ⟨a, s', hs', h⟩
      · rw [hs'] at hx
        rw [h]
        exact hx
      · rw [hs'] at hx
        rw [h]
        obtain ⟨hcell, hann⟩ := hinfo s' (by rw [hx.1]; exact hs)
        exact ⟨hcell.trans hx.1, hx.2.trans hann⟩
    rw [ChainSynchronizer.handleSyncResponse, orError_some, Action.lift_ok_bind]
    split_ifs
    · exact hthen _ (handleSyncResponseBlocks_announces fromNode hknown response s hs hkeyed)
    · exact hthen _ (handleSyncResponseMetadata_announces overflowChecks fromNode hknown response s
        hs hkeyed)
    · exact hinfo s hs

end ChainSync

end Exocore.Engine
