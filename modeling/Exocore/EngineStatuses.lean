import Exocore.ChainSyncLinks
import Exocore.CommitStatuses
import Exocore.EngineRuns

/-! Runs of the engine: whether the commit statuses of the pending store keep up with the
chain. Only a commit marks operations, while operations and blocks also arrive from elsewhere. -/
namespace Exocore.Engine

open Exocore.Core Exocore.Chain Exocore.Pending

section Stores
variable [Crates] {CS : Type}

theorem newOperation_stores (e : EngineInner) (operation : NewOperation) (n : EngineState CS) :
    (e.handleNewOperation operation n.start).2.engine.pendingStore =
        (e.pendingSynchronizer.handleNewOperation operation
          ⟨.new n.syncState, n.pendingStore⟩).2.store ∧
      (e.handleNewOperation operation n.start).2.engine.chainStore = n.chainStore := by
  refine Action.bind_keeps_snd (fun st : HandlerState CS => st.engine.pendingStore =
      (e.pendingSynchronizer.handleNewOperation operation
        ⟨.new n.syncState, n.pendingStore⟩).2.store ∧ st.engine.chainStore = n.chainStore)
    (onPendingSync (e.pendingSynchronizer.handleNewOperation operation)) _ n.start ⟨rfl, rfl⟩ ?_
  intro _
  rw [Action.bind_apply, takeSyncState]
  simp only
  rw [Action.get_bind]
  split_ifs
  · rw [Action.bind_apply, sendMessagesFromSyncContext]
    simp only
    cases sendMessages e.cell (onPendingSync (e.pendingSynchronizer.handleNewOperation operation)
      n.start).2.syncContext.messages with
    | error err => exact ⟨rfl, rfl⟩
    | ok _ => exact ⟨rfl, rfl⟩
  · exact ⟨rfl, rfl⟩

/-- A new operation that is not put leaves the engine as it was, and behind the put nothing
fails. -/
theorem handleNewOperation_puts (e : EngineInner) (operation : NewOperation) (n : EngineState CS) :
    (∃ err, e.handleNewOperation operation n.start = (.error err, n.start)) ∨
      ∃ h existed, e.handleNewOperation operation n.start = (.ok (), h) ∧
        n.pendingStore.putOperation operation = .ok (existed, h.engine.pendingStore) ∧
        h.engine.chainStore = n.chainStore := by
  rcases handleNewOperation_cases e.pendingSynchronizer operation
      ⟨.new n.syncState, n.pendingStore⟩ with ⟨err, hres⟩ | ⟨s, hres⟩
  · left
    refine ⟨err, ?_⟩
    have hfail : onPendingSync (e.pendingSynchronizer.handleNewOperation operation) n.start =
        (.error err, n.start) := by
      rw [onPendingSync]
      exact congrArg (fun r => (r.1, (⟨{ n with pendingStore := r.2.store }, r.2.syncContext⟩ :
        HandlerState CS))) hres
    rw [EngineInner.handleNewOperation, Action.bind_of_error _ _ _ _ _ hfail]
  · right
    -- the requests go to nodes of the cell, so that they can be sent
    have hannounces : Announces (fun id => (e.cell.get id).isSome = true)
        (PendingState.view [] ⟨.new n.syncState, n.pendingStore⟩) (PendingState.view [] s) := by
      have hcall : Announcing (fun id => (e.cell.get id).isSome = true) (PendingState.view [])
          (e.pendingSynchronizer.handleNewOperation operation) :=
        announcing_handleNewOperation _ operation (pendingSynchronizer_nodes e)
      have h := hcall ⟨.new n.syncState, n.pendingStore⟩ (Or.inl ⟨(), congrArg Prod.fst hres⟩)
      rw [hres] at h
      exact h
    have hsend : sendMessages e.cell s.syncContext.messages = .ok () := by
      apply sendMessages_known
      intro m hm
      rcases hannounces.messages m hm with hold | hknown
      · exact absurd hold List.not_mem_nil
      · exact hknown
    have hends : ∃ h, e.handleNewOperation operation n.start = (.ok (), h) := by
      have hok : onPendingSync (e.pendingSynchronizer.handleNewOperation operation) n.start =
          (.ok (), (⟨{ n with pendingStore := s.store }, s.syncContext⟩ : HandlerState CS)) := by
        rw [onPendingSync]
        exact congrArg (fun r => (r.1, (⟨{ n with pendingStore := r.2.store }, r.2.syncContext⟩ :
          HandlerState CS))) hres
      rw [EngineInner.handleNewOperation, Action.bind_of_ok _ _ _ _ _ hok, Action.bind_apply,
        takeSyncState]
      dsimp only
      rw [Action.get_bind]
      split_ifs
      · rw [Action.bind_apply, sendMessagesFromSyncContext, hsend]
        exact ⟨_, rfl⟩
      · exact ⟨_, rfl⟩
    obtain ⟨h, hends⟩ := hends
    obtain ⟨hpending, hchain⟩ := newOperation_stores e operation n
    rw [hends] at hpending hchain
    rcases handleNewOperation_store e.pendingSynchronizer operation
        ⟨.new n.syncState, n.pendingStore⟩ with ⟨⟨err, herr⟩, -⟩ | ⟨existed, store', hput, hstore⟩
    · rw [hres] at herr
      contradiction
    · exact ⟨h, existed, hends, by rw [hpending, hstore]; exact hput, hchain⟩

end Stores

section Steps
variable [Crates]

def EngineState.Marked (n : EngineState DirectoryChainStore) : Prop :=
  Engine.Marked n.pendingStore n.chainStore

/-- The statuses of the pending store are those of the blocks that the chain iterates over. -/
def EngineState.StatusesAccurate (n : EngineState DirectoryChainStore) : Prop :=
  ∃ blocks, n.chainStore.blocksIter 0 = blocks.map .ok ∧ Accurate n.pendingStore blocks

theorem EngineState.Marked.accurate {n : EngineState DirectoryChainStore} (h : n.Marked) :
    n.StatusesAccurate := by
  obtain ⟨blocks, hmarks⟩ := h
  exact ⟨blocks, (storeHolds_readsAs _ _ _ hmarks.holds).iter, hmarks.accurate⟩

/-- The operations that a request brings are not in the chain. -/
def RequestNew (chain : DirectoryChainStore) (request : PendingSyncRequest) : Prop :=
  ∀ ranges, request.ranges.get = .ok ranges → ∀ range ∈ ranges, ∀ frames,
    range.operationsFrames.get = .ok frames → ∀ frame reader, FrameBrings frames frame reader →
      NewToChain chain reader.operationId

/-- The block reads back, is at the end of the chain, and has no operation that is pending. -/
def FitsUnknown (store : MemoryPendingStore) (own : List DataBlock) (b : DataBlock) : Prop :=
  WellFormed b ∧ b.offset = endOf own ∧ ∀ id, Contains b id → store.getOperation id = none

/-- The blocks of the lead node's response have no operation that is pending. -/
def ResponseUnknown (n : EngineState DirectoryChainStore) (fromNode : NodeId)
    (response : ChainSyncResponse) : Prop :=
  response.blocks.has = true → n.chainSynchronizer.leader = some fromNode →
    ∀ last datas, ChainSynchronizer.lastLocalMetadata n.chainStore = .ok last →
      response.blocks.get = .ok datas → ∀ own, n.chainStore.blocksIter 0 = own.map .ok →
        Accepted (FitsUnknown n.pendingStore) own last datas

/-- What a step is asked: the operations that are put are not in the chain, and those of the
blocks that arrive are not pending. -/
def EngineStep.KeepsStatuses (e : EngineInner) (n : EngineState DirectoryChainStore) :
    EngineStep → Prop
  | .newOperation operation => ∀ reader, operation.frame.frame.reader = some reader →
      NewToChain n.chainStore reader.operationId
  | .pendingSyncRequest _ request => n.chainSynchronizer.status = .synchronized →
      ∀ r, request = some r → RequestNew n.chainStore r
  | .chainSyncResponse _ fromNode response => ∀ r, response = some r → ResponseUnknown n fromNode r
  | .tick chainInput commitInput _ =>
      ∀ s, ChainSynchronizer.tick chainInput
          ⟨n.chainSynchronizer, .new n.syncState, n.chainStore⟩ = (.ok (), s) →
        s.synchronizer.status = .synchronized →
        TickMarks e.commitManager commitInput ⟨s.syncContext, n.pendingStore, s.store⟩
  | _ => True

theorem newOperation_marked (e : EngineInner) (n : EngineState DirectoryChainStore)
    (operation : NewOperation) (h : n.Marked)
    (hnew : ∀ reader, operation.frame.frame.reader = some reader →
      NewToChain n.chainStore reader.operationId) : (e.step n (.newOperation operation)).Marked := by
  obtain ⟨blocks, hmarks⟩ := h
  obtain ⟨hpending, hchain⟩ := newOperation_stores e operation n
  have haccurate := handleNewOperation_accurate e.pendingSynchronizer operation
    ⟨.new n.syncState, n.pendingStore⟩ blocks hmarks.accurate
    fun reader hreader => hmarks.notIn (hnew reader hreader)
  rw [← hpending] at haccurate
  refine ⟨blocks, ?_, ?_, haccurate⟩
  · exact hchain.symm ▸ hmarks.holds
  · exact hchain.symm ▸ hmarks.inStep

theorem pendingSyncRequest_marked (e : EngineInner) (n : EngineState DirectoryChainStore)
    (fromNode : NodeId) (request : Option PendingSyncRequest) (h : n.Marked)
    (hnew : n.chainSynchronizer.status = .synchronized →
      ∀ r, request = some r → RequestNew n.chainStore r) :
    (e.step n (.pendingSyncRequest fromNode request)).Marked := by
  change Marked (e.handleIncomingPendingSyncRequest fromNode request n.start).2.engine.pendingStore
    (e.handleIncomingPendingSyncRequest fromNode request n.start).2.engine.chainStore
  rw [EngineInner.handleIncomingPendingSyncRequest, Action.get_bind]
  cases hsync : chainIsSynchronized n.start.engine with
  | false => exact h
  | true =>
    simp only [Bool.not_true, Bool.false_eq_true, if_false]
    obtain ⟨hpending, hchain, -⟩ := then_finishHandler_stores (onPendingSync
      (e.pendingSynchronizer.handleIncomingSyncRequest fromNode request)) e.cell n.start
    change Marked ((onPendingSync (e.pendingSynchronizer.handleIncomingSyncRequest fromNode
      request) >>= fun _ => finishHandler e.cell) n.start).2.engine.pendingStore
        ((onPendingSync (e.pendingSynchronizer.handleIncomingSyncRequest fromNode
      request) >>= fun _ => finishHandler e.cell) n.start).2.engine.chainStore
    rw [hpending, hchain]
    obtain ⟨blocks, hmarks⟩ := h
    refine ⟨blocks, hmarks.holds, hmarks.inStep, ?_⟩
    change Accurate (e.pendingSynchronizer.handleIncomingSyncRequest fromNode request
      ⟨.new n.syncState, n.pendingStore⟩).2.store blocks
    cases request with
    | none => exact hmarks.accurate
    | some request =>
      have hbrings := hnew (of_decide_eq_true hsync) request rfl
      cases hranges : request.ranges.get with
      | error err =>
        rw [PendingSynchronizer.handleIncomingSyncRequest, orError_some, Action.lift_ok_bind,
          Action.get_bind, hranges]
        exact hmarks.accurate
      | ok ranges =>
        rw [handleIncomingSyncRequest_store e.pendingSynchronizer fromNode request ranges hranges]
        apply handleIncomingSyncRangesLoop_keeps (fun store => Accurate store blocks) _ _ _ _ _
          hmarks.accurate
        intro range hrange frames hframes frame reader hframe store existed store' haccurate hput
        apply haccurate.put ⟨reader.operationId, frame⟩ existed hput
        intro reader' hreader'
        have hreader := hframe.choose_spec.2.2
        obtain rfl := Option.some.inj (hreader.symm.trans hreader')
        exact hmarks.notIn (hbrings ranges hranges range hrange frames hframes frame reader hframe)

theorem chainSyncRequest_marked (e : EngineInner) (n : EngineState DirectoryChainStore)
    (overflowChecks : Bool) (fromNode : NodeId) (request : Option ChainSyncRequest)
    (h : n.Marked) : (e.step n (.chainSyncRequest overflowChecks fromNode request)).Marked := by
  obtain ⟨hpending, hchain, -⟩ := then_finishHandler_stores (onChainSync
    (ChainSynchronizer.handleSyncRequest overflowChecks fromNode request)) e.cell n.start
  have hquiet := ChainSynchronizer.handleSyncRequest_quiet overflowChecks fromNode request
    ⟨n.chainSynchronizer, .new n.syncState, n.chainStore⟩
  have hstore : (e.step n (.chainSyncRequest overflowChecks fromNode request)).chainStore =
      n.chainStore := hchain.trans hquiet.store
  have hpending' : (e.step n (.chainSyncRequest overflowChecks fromNode request)).pendingStore =
      n.pendingStore := hpending
  rw [EngineState.Marked, hstore, hpending']
  exact h

theorem Marks.writeBlock {store : MemoryPendingStore} {chain : DirectoryChainStore}
    {own : List DataBlock} (h : Marks store chain own) (b : DataBlock)
    (hb : FitsUnknown store own b) :
    (chain.writeBlock b).1 = .ok b.nextOffset ∧ Marks store (chain.writeBlock b).2 (own ++ [b]) := by
  obtain ⟨hwf, hoff, hunknown⟩ := hb
  obtain ⟨chain', hwrite, hholds⟩ := writeBlock_holds True chain own b h.holds hwf.toFramed
    hwf.indexable hoff fun seg hseg _ => h.inStep seg hseg
  have hstep := writeBlock_inStep True chain own b h.holds h.inStep
  rw [hwrite] at hstep ⊢
  exact ⟨rfl, hholds, hstep, h.accurate.append b hunknown⟩

theorem chainSyncResponse_marked (e : EngineInner) (n : EngineState DirectoryChainStore)
    (overflowChecks : Bool) (fromNode : NodeId) (response : Option ChainSyncResponse)
    (h : n.Marked) (hclear : ∀ r, response = some r → ResponseUnknown n fromNode r) :
    (e.step n (.chainSyncResponse overflowChecks fromNode response)).Marked := by
  obtain ⟨hpending, hchain, -⟩ := then_finishHandler_stores (onChainSync
    (ChainSynchronizer.handleSyncResponse overflowChecks fromNode response)) e.cell n.start
  have hstore : (e.step n (.chainSyncResponse overflowChecks fromNode response)).chainStore =
      (ChainSynchronizer.handleSyncResponse overflowChecks fromNode response
        ⟨n.chainSynchronizer, .new n.syncState, n.chainStore⟩).2.store := hchain
  have hpending' : (e.step n (.chainSyncResponse overflowChecks fromNode response)).pendingStore =
      n.pendingStore := hpending
  rw [EngineState.Marked, hstore, hpending']
  cases response with
  | none => exact h
  | some response =>
    apply handleSyncResponse_store_keeps (Marked n.pendingStore) overflowChecks fromNode response
      ⟨n.chainSynchronizer, .new n.syncState, n.chainStore⟩ h
    intro hhas hleader last datas hlast hdatas
    obtain ⟨blocks, hmarks⟩ := h
    have hreads := storeHolds_readsAs _ _ _ hmarks.holds
    have hmeta : LastMetadata blocks last :=
      lastMetadata_of_getLastBlock hreads.getLastBlock last hlast
    obtain ⟨own', -, hown'⟩ := writeIncomingBlocks_keeps (fun own chain =>
      Marks n.pendingStore chain own) (FitsUnknown n.pendingStore)
      (fun own last store b hmarks _ hfits _ => hmarks.writeBlock b hfits) datas blocks last
      ⟨n.chainSynchronizer.createNodeInfo fromNode, .new n.syncState, n.chainStore⟩ hmarks hmeta
      (hclear response rfl hhas hleader last datas hlast hdatas blocks hreads.iter)
    exact ⟨own', hown'⟩

theorem tickCommitManager_marked (hread : OperationsReadBack) (hsigs : SignaturesReadBack)
    (hsize : SignaturesSizeFits) (e : EngineInner)
    (hnode : NodeIdReadsBack e.commitManager.cell.localNode) (i : TickInput)
    (s : HandlerState DirectoryChainStore) (h : s.engine.Marked)
    (hmarks : s.engine.chainSynchronizer.status = .synchronized →
      TickMarks e.commitManager i ⟨s.syncContext, s.engine.pendingStore, s.engine.chainStore⟩) :
    (e.tickCommitManager i s).2.engine.Marked := by
  rw [EngineInner.tickCommitManager, Action.get_bind]
  cases hsync : chainIsSynchronized s.engine with
  | false => exact h
  | true =>
    have htick := tick_marked hread hsigs hsize e.commitManager e.pendingSynchronizer i hnode
      ⟨s.syncContext, s.engine.pendingStore, s.engine.chainStore⟩ h
      (hmarks (of_decide_eq_true hsync))
    simp only [if_true]
    rw [Action.bind_apply, attempt, onCommitManager]
    rcases hres : e.commitManager.tick e.pendingSynchronizer i
      ⟨s.syncContext, s.engine.pendingStore, s.engine.chainStore⟩ with ⟨r, s'⟩
    rw [hres] at htick
    cases r with
    | ok _ => exact htick
    | error err =>
      cases err with
      | panic => exact htick
      | error err => cases err <;> exact htick

theorem tick_marks_engine (hread : OperationsReadBack) (hsigs : SignaturesReadBack)
    (hsize : SignaturesSizeFits) (e : EngineInner)
    (hnode : NodeIdReadsBack e.commitManager.cell.localNode) (n : EngineState DirectoryChainStore)
    (hsync : n.chainSynchronizer.Consistent) (chainInput : ChainSyncInput)
    (commitInput : TickInput) (canSendRequest : NodeId → Bool) (h : n.Marked)
    (hmarks : ∀ s, ChainSynchronizer.tick chainInput
        ⟨n.chainSynchronizer, .new n.syncState, n.chainStore⟩ = (.ok (), s) →
      s.synchronizer.status = .synchronized →
      TickMarks e.commitManager commitInput ⟨s.syncContext, n.pendingStore, s.store⟩) :
    (e.step n (.tick chainInput commitInput canSendRequest)).Marked := by
  have hstore := (ChainSynchronizer.tick_watches chainInput
    ⟨n.chainSynchronizer, .new n.syncState, n.chainStore⟩ hsync.keyed).store
  have hfirst : (onChainSync (ChainSynchronizer.tick chainInput) n.start).2.engine.Marked := by
    change Marked n.pendingStore (ChainSynchronizer.tick chainInput
      ⟨n.chainSynchronizer, .new n.syncState, n.chainStore⟩).2.store
    rw [hstore]
    exact h
  have hend : ∀ s : HandlerState DirectoryChainStore, s.engine.Marked →
      ((e.tickPendingSynchronizer canSendRequest >>= fun _ => finishHandler e.cell)
        s).2.engine.Marked := by
    intro s hs
    obtain ⟨hpending, hchain, -⟩ := then_finishHandler_stores
      (e.tickPendingSynchronizer canSendRequest) e.cell s
    rw [EngineState.Marked, hpending, hchain, EngineInner.tickPendingSynchronizer, Action.get_bind]
    split_ifs
    · change Marked (e.pendingSynchronizer.tick canSendRequest
        ⟨s.syncContext, s.engine.pendingStore⟩).2.store s.engine.chainStore
      rw [pendingTick_store]
      exact hs
    · exact hs
  refine Action.bind_keeps (fun st : HandlerState DirectoryChainStore => st.engine.Marked)
    (onChainSync (ChainSynchronizer.tick chainInput)) (fun _ => e.tickCommitManager commitInput >>=
      fun _ => e.tickPendingSynchronizer canSendRequest >>= fun _ => finishHandler e.cell) n.start
    hfirst ?_
  intro _ s hs
  rcases hres : ChainSynchronizer.tick chainInput
    ⟨n.chainSynchronizer, .new n.syncState, n.chainStore⟩ with ⟨r, s'⟩
  have hcall : onChainSync (ChainSynchronizer.tick chainInput) n.start = (r,
      (⟨{ n with chainSynchronizer := s'.synchronizer, chainStore := s'.store }, s'.syncContext⟩ :
        HandlerState DirectoryChainStore)) := by
    rw [onChainSync]
    exact congrArg (fun r => (r.1, (⟨{ n with
      chainSynchronizer := r.2.synchronizer
      chainStore := r.2.store }, r.2.syncContext⟩ : HandlerState DirectoryChainStore))) hres
  rw [hcall] at hs hfirst
  obtain ⟨hr, rfl⟩ := Prod.ext_iff.mp hs
  simp only at hr
  subst hr
  have hcommit := tickCommitManager_marked hread hsigs hsize e hnode commitInput _ hfirst
    (hmarks s' hres)
  exact Action.bind_keeps_snd (fun st : HandlerState DirectoryChainStore => st.engine.Marked) _ _ _
    hcommit fun _ => hend _ hcommit

/-- One step: what it puts is not in the chain, what it writes is not pending, and what it
commits is marked. -/
theorem step_marked (hread : OperationsReadBack) (hsigs : SignaturesReadBack)
    (hsize : SignaturesSizeFits) (e : EngineInner)
    (hnode : NodeIdReadsBack e.commitManager.cell.localNode) (n : EngineState DirectoryChainStore)
    (a : EngineStep) (hsync : n.chainSynchronizer.Consistent) (h : n.Marked)
    (ha : a.KeepsStatuses e n) : (e.step n a).Marked := by
  cases a with
  | newOperation operation => exact newOperation_marked e n operation h ha
  | pendingSyncRequest fromNode request => exact pendingSyncRequest_marked e n fromNode request h ha
  | chainSyncRequest overflowChecks fromNode request =>
    exact chainSyncRequest_marked e n overflowChecks fromNode request h
  | chainSyncResponse overflowChecks fromNode response =>
    exact chainSyncResponse_marked e n overflowChecks fromNode response h ha
  | tick chainInput commitInput canSendRequest =>
    exact tick_marks_engine hread hsigs hsize e hnode n hsync chainInput commitInput canSendRequest h
      ha
  | newEventsStream handleId room => exact h
  | readEvents handleId count => exact h

/-- Along every run whose steps meet the condition, the statuses of the pending store are those
of the chain in every state that is reached. -/
theorem run_statusesAccurate (hread : OperationsReadBack) (hsigs : SignaturesReadBack)
    (hsize : SignaturesSizeFits) (e : EngineInner)
    (hnode : NodeIdReadsBack e.commitManager.cell.localNode)
    (start : EngineState DirectoryChainStore) (hsync : start.chainSynchronizer.Consistent)
    (hstart : start.Marked) (steps : List EngineStep)
    (hrun : Run.Allowed e.step (fun n a => a.KeepsStatuses e n) start steps)
    (before after : List EngineStep) (heq : steps = before ++ after) :
    (Run.exec e.step start before).StatusesAccurate := by
  rw [heq, Run.allowed_append_iff] at hrun
  have hend := Run.exec_invariant e.step (fun n a => a.KeepsStatuses e n)
    (fun n => n.chainSynchronizer.Consistent ∧ n.Marked)
    (fun n a h ha => ⟨engineStep_consistent e n a h.1,
      step_marked hread hsigs hsize e hnode n a h.1 h.2 ha⟩)
    start before ⟨hsync, hstart⟩ hrun.1
  exact hend.2.accurate

end Steps

/-! A block with the entry is in the chain. Another node brings the entry once more: the put
sets its status back to unknown. -/

section Samples

attribute [local instance] commitCrates

/-- The block of the proposal, with the signatures of both nodes. -/
def fiftyBlock : DataBlock :=
  ⟨254, ⟨sizedBytes (proposedMessage nextHeader ++ nextHeaderMultihash), nextHeaderMultihash,
      some nextHeader⟩, fiftyBytes,
    ⟨sizedBytes (paddedBytes (signaturesMessage 170 [firstNodeText, otherNodeText]) 0),
      some (emptySignatures 170 [(firstNode, firstNodeText), (otherNode, otherNodeText)]).2⟩⟩

/-- The engine of the one chain node, with an empty pending store. -/
def aloneOn (chain : DirectoryChainStore) : EngineState DirectoryChainStore :=
  ⟨⟨none⟩, .new, chain, .new .default storeAndChain, []⟩

def fiftyChain : DirectoryChainStore := (genesisChain.writeBlock fiftyBlock).2

theorem accurate_new (blocks : List DataBlock) : Accurate .new blocks := by
  constructor
  · intro id op hop
    exact absurd hop (by simp [MemoryPendingStore.getOperation, MemoryPendingStore.new])
  · intro id op offset height hop
    exact absurd hop (by simp [MemoryPendingStore.getOperation, MemoryPendingStore.new])

theorem genesisChain_marks (store : MemoryPendingStore) (h : Accurate store [genesisBlock]) :
    Marks store genesisChain [genesisBlock] :=
  ⟨genesisChain_holdsOnce.holds, genesisChain_holdsOnce.inStep, h⟩

theorem aloneOn_stores (chain : DirectoryChainStore) :
    (aloneOn chain).pendingStore = .new ∧ (aloneOn chain).chainStore = chain := ⟨rfl, rfl⟩

theorem aloneOn_marked (chain : DirectoryChainStore) (blocks : List DataBlock)
    (h : Marks .new chain blocks) : (aloneOn chain).Marked := ⟨blocks, h⟩

theorem fiftyChain_marks : Marks .new fiftyChain [genesisBlock, fiftyBlock] := by
  have hfits : FitsUnknown .new [genesisBlock] fiftyBlock := by
    refine ⟨wellFormedCheck_sound _ (by decide +kernel), by decide +kernel, ?_⟩
    intro id _
    simp [MemoryPendingStore.getOperation, MemoryPendingStore.new]
  rw [fiftyChain]
  exact ((genesisChain_marks .new (accurate_new _)).writeBlock fiftyBlock hfits).2

theorem fiftyChain_marked : (aloneOn fiftyChain).Marked :=
  aloneOn_marked fiftyChain _ fiftyChain_marks

/-- The entry is in the second block, and its status is not known. -/
theorem broughtBack_reads :
    ((Run.exec aloneEngine.step (aloneOn fiftyChain) [aloneTick,
        announceFifty fiftyHash 1]).chainStore.blocksIter 0).map
        (fun r => r.toOption.map containedIds) = [some [], some [50]] ∧
      ((Run.exec aloneEngine.step (aloneOn fiftyChain) [aloneTick,
        announceFifty fiftyHash 1]).pendingStore.getOperation 50).map
        StoredOperation.commitStatus = some .unknown := by
  decide +kernel

theorem broughtBack_not_accurate :
    (aloneOn fiftyChain).StatusesAccurate ∧
      ¬ (Run.exec aloneEngine.step (aloneOn fiftyChain) [aloneTick,
        announceFifty fiftyHash 1]).StatusesAccurate := by
  refine ⟨fiftyChain_marked.accurate, ?_⟩
  rintro ⟨blocks, hiter, haccurate⟩
  obtain ⟨hids, hstatus⟩ := broughtBack_reads
  rw [hiter, List.map_map] at hids
  have hmem : some [50] ∈ blocks.map ((fun r : Res ChainError DataBlock =>
      r.toOption.map containedIds) ∘ .ok) := by
    rw [hids]
    simp
  obtain ⟨b, hb, hbids⟩ := List.mem_map.mp hmem
  have hfifty : containedIds b = [50] := Option.some.inj hbids
  obtain ⟨op, hop, hunknown⟩ := Option.map_eq_some_iff.mp hstatus
  obtain ⟨height, -, hcommitted⟩ := haccurate.contained 50 op hop b hb
    (contains_of_mem b 50 (by rw [hfifty]; exact List.mem_cons_self))
  rw [hunknown] at hcommitted
  exact absurd hcommitted (by simp)

theorem mem_of_contains (b : DataBlock) (id : ℕ) (h : Contains b id) : id ∈ containedIds b := by
  obtain ⟨frames, hframes, f, hf, r, hr, rfl⟩ := h
  rw [containedIds, hframes]
  exact List.mem_filterMap.mpr ⟨f, hf, by rw [hr]; rfl⟩

theorem newToChain_of_ids (chain : DirectoryChainStore)
    (h : (chain.blocksIter 0).all (fun r => (r.toOption.map containedIds).getD [] = []) = true)
    (id : ℕ) : NewToChain chain id := by
  intro b hb hid
  have hids : containedIds b = [] := of_decide_eq_true (List.all_eq_true.mp h _ hb)
  have hmem := mem_of_contains b id hid
  rw [hids] at hmem
  exact absurd hmem List.not_mem_nil

theorem tickMarks_of_none (m : CommitManager) (i : TickInput) (context context' : SyncContext)
    (store : MemoryPendingStore) (chain : DirectoryChainStore)
    (hnone : (bestNextBlock m i ⟨context', store, chain⟩).isNone = true)
    (hchain : ∀ id, NewToChain chain id) : TickMarks m i ⟨context, store, chain⟩ := by
  have hbest : bestNextBlock m i ⟨context, store, chain⟩ = none := Option.isNone_iff_eq_none.mp hnone
  refine ⟨⟨?_, ?_⟩, ?_, fun _ _ _ _ _ => hchain _, fun _ => hchain _⟩
  · intro pb next hsome
    rw [hbest] at hsome
    contradiction
  all_goals
    intro pb next frame header hsome
    rw [hbest] at hsome
    contradiction

theorem chainTick_store (i : ChainSyncInput) (n : EngineState DirectoryChainStore)
    (hsync : n.chainSynchronizer.Consistent) (s : ChainSyncState DirectoryChainStore)
    (hs : ChainSynchronizer.tick i ⟨n.chainSynchronizer, .new n.syncState, n.chainStore⟩ =
      (.ok (), s)) : s.store = n.chainStore := by
  have hwatch := (ChainSynchronizer.tick_watches i
    ⟨n.chainSynchronizer, .new n.syncState, n.chainStore⟩ hsync.keyed).store
  rw [hs] at hwatch
  exact hwatch

/-- No block of the chain has an operation, and there is no block to commit. -/
theorem genesisChain_reads :
    (genesisChain.blocksIter 0).all (fun r => (r.toOption.map containedIds).getD [] = []) = true ∧
      (bestNextBlock aloneEngine.commitManager (tickAt 110) ⟨.new ⟨none⟩, .new,
        genesisChain⟩).isNone = true ∧
      ((aloneEngine.step (aloneOn genesisChain) aloneTick).chainStore.blocksIter 0).all
        (fun r => (r.toOption.map containedIds).getD [] = []) = true ∧
      ((Run.exec aloneEngine.step (aloneOn genesisChain) [aloneTick,
        announceFifty fiftyHash 1]).pendingStore.getOperation 50).isSome = true := by
  decide +kernel

/-- Where the chain has no operation, the entry is taken, and its status is right. -/
theorem run_statusesAccurate_brought :
    ((Run.exec aloneEngine.step (aloneOn genesisChain) [aloneTick,
        announceFifty fiftyHash 1]).pendingStore.getOperation 50).isSome = true ∧
      (Run.exec aloneEngine.step (aloneOn genesisChain) [aloneTick,
        announceFifty fiftyHash 1]).StatusesAccurate := by
  obtain ⟨hids, hnone, hids', hsome⟩ := genesisChain_reads
  have hsync : (aloneOn genesisChain).chainSynchronizer.Consistent :=
    ChainSynchronizer.consistent_new .default storeAndChain
  refine ⟨hsome, run_statusesAccurate commitTables_readBack commitTables_signatures
    commitTables_sizes aloneEngine (by decide +kernel) (aloneOn genesisChain) hsync
    (aloneOn_marked genesisChain _ (genesisChain_marks .new (accurate_new _)))
    [aloneTick, announceFifty fiftyHash 1] ⟨?_, ?_, trivial⟩
    [aloneTick, announceFifty fiftyHash 1] [] (List.append_nil _).symm⟩
  · intro s hs _
    rw [chainTick_store _ _ hsync s hs, (aloneOn_stores genesisChain).1,
      (aloneOn_stores genesisChain).2]
    exact tickMarks_of_none _ _ _ _ _ _ hnone (newToChain_of_ids _ hids)
  · intro _ request _ ranges _ range _ frames _ frame reader _
    exact newToChain_of_ids _ hids' reader.operationId

end Samples

end Exocore.Engine
