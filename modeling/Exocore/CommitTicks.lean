import Exocore.EngineAnnounceCommit

/-! Ticks of the commit manager that store nothing, and those of which all is taken that they
store, said on the stores that they find. -/
namespace Exocore.Engine

open Exocore.Core Exocore.Chain Exocore.Pending SortedMap

section Stages
variable [Crates] {CS : Type} [ChainStore CS]

/-- The tick gets to the block, the best of those that may be next. -/
def Finds (m : CommitManager) (i : TickInput) (pending : MemoryPendingStore) (chain : CS)
    (pb : PendingBlocks) (next : PendingBlock) : Prop :=
  PendingBlocks.new m.config i.now m.cell pending chain = .ok pb ∧
    ∃ rest, pb.potentialNextBlocks i.blocksOrder i.sorter = .ok (next :: rest)

/-- The tick finds no block that may be next. -/
def FindsNone (m : CommitManager) (i : TickInput) (pending : MemoryPendingStore) (chain : CS)
    (pb : PendingBlocks) : Prop :=
  PendingBlocks.new m.config i.now m.cell pending chain = .ok pb ∧
    pb.potentialNextBlocks i.blocksOrder i.sorter = .ok []

/-- The block has our signature and the quorum of its valid ones. -/
def Quorate (m : CommitManager) (block : PendingBlock) : Prop :=
  block.hasMySignature = true ∧
    m.cell.hasQuorum (block.signatures.filter (block.validateSignature m.cell)).length
      (some .chain) = true

/-- A candidate without our answer gets a signature or a refusal, and the pending store takes
it. -/
inductive AnswersBlock (m : CommitManager) (i : TickInput) (pb : PendingBlocks)
    (next : PendingBlock) (pending : MemoryPendingStore) (chain : CS) (block : PendingBlock)
    (pending' : MemoryPendingStore) : Prop
  | mk (sign existed : Bool) (operation : NewOperation) (hsignature : next.hasMySignature = false)
      (hrefusal : next.hasMyRefusal = false)
      (hcheck : checkShouldSignBlock pb chain pending i.operationBlocksOrder next.groupId =
        .ok sign)
      (hcreate : (if sign then createBlockSignature m.cell.localNode i.signatureTime next
        else createBlockRefusal m.cell.localNode i.signatureTime next) = .ok (operation, block))
      (hput : pending.putOperation operation = .ok (existed, pending'))

/-- The candidate as the tick goes on with it, and the pending store then. -/
inductive LooksAt (m : CommitManager) (i : TickInput) (pb : PendingBlocks) (next : PendingBlock)
    (pending : MemoryPendingStore) (chain : CS) : PendingBlock → MemoryPendingStore → Prop
  | known (hknown : next.hasMySignature = true ∨ next.hasMyRefusal = true) :
      LooksAt m i pb next pending chain next pending
  | invalid (e : EngineError) (hsignature : next.hasMySignature = false)
      (hrefusal : next.hasMyRefusal = false)
      (hcheck : checkShouldSignBlock pb chain pending i.operationBlocksOrder next.groupId =
        .error (.error e))
      (hmild : ¬ (e = .outOfSync ∨ e.isFatal)) : LooksAt m i pb next pending chain next pending
  | answers (block : PendingBlock) (pending' : MemoryPendingStore)
      (h : AnswersBlock m i pb next pending chain block pending') :
      LooksAt m i pb next pending chain block pending'

/-- The operations get the status, one after the other. -/
inductive MarksAll (status : CommitStatus) :
    List ℕ → MemoryPendingStore → MemoryPendingStore → Prop
  | nil (pending : MemoryPendingStore) : MarksAll status [] pending pending
  | cons (id : ℕ) (rest : List ℕ) (pending mid pending' : MemoryPendingStore)
      (hmark : pending.updateOperationCommitStatus id status = .ok mid)
      (hrest : MarksAll status rest mid pending') : MarksAll status (id :: rest) pending pending'

/-- The block is left, or it is written and its operations are marked. -/
inductive CommitsBlock (m : CommitManager) (block : PendingBlock) (pending : MemoryPendingStore)
    (chain : CS) : MemoryPendingStore → CS → Prop
  | leaves (hlacks : ¬ Quorate m block) : CommitsBlock m block pending chain pending chain
  | writes (b : DataBlock) (header : BlockHeader) (ops : BlockOperations) (next : ℕ)
      (pending' : MemoryPendingStore) (chain' : CS) (hquorate : Quorate m block)
      (hbuilds : Builds m.cell block pending chain b header ops)
      (hwrite : ChainStore.writeBlock chain b = (.ok next, chain'))
      (hmarks : MarksAll (.committed block.proposal.offset header.height)
        (ops.headers.map BlockOperationHeader.operationId) pending pending') :
      CommitsBlock m block pending chain pending' chain'

/-- The block that would be written does not follow the chain, or the chain store finds that it
is not the next one. -/
def WriteRefused (m : CommitManager) (block : PendingBlock) (pending : MemoryPendingStore)
    (chain : CS) : Prop :=
  Quorate m block ∧ (buildChainBlock m.cell block pending chain = .error (.error .outOfSync) ∨
    ∃ b header ops offset expected chain', Builds m.cell block pending chain b header ops ∧
      ChainStore.writeBlock chain b = (.error (.error (.invalidNextBlock offset expected)), chain'))

/-- The proposal of the tick, if it makes one, is put in the pending store. -/
inductive ProposesBlock (m : CommitManager) (i : TickInput) (pb : PendingBlocks)
    (pending : MemoryPendingStore) (chain : CS) : MemoryPendingStore → Prop
  | waits (hturn : m.shouldProposeBlock i chain pb = .ok false) :
      ProposesBlock m i pb pending chain pending
  | empty (hturn : m.shouldProposeBlock i chain pb = .ok true)
      (hbuild : m.buildProposal i pb pending chain = .ok none) :
      ProposesBlock m i pb pending chain pending
  | puts (operation : NewOperation) (existed : Bool) (pending' : MemoryPendingStore)
      (hturn : m.shouldProposeBlock i chain pb = .ok true)
      (hbuild : m.buildProposal i pb pending chain = .ok (some operation))
      (hput : pending.putOperation operation = .ok (existed, pending')) :
      ProposesBlock m i pb pending chain pending'

/-- The chain store answers for the id, and the height of its block is subtracted. -/
def ReadsDepth (i : TickInput) (chain : CS) (lastHeight id : ℕ) : Prop :=
  ChainStore.getBlockByOperationId chain id = .ok none ∨
    ∃ b height depth, ChainStore.getBlockByOperationId chain id = .ok (some b) ∧
      b.getHeight = .ok height ∧ blockDepth i.overflowChecks lastHeight height = .ok depth

/-- The clean up reads the end of the chain, and the depth of the operations that no proposal
has. -/
inductive CleansUp (m : CommitManager) (i : TickInput) (pb : PendingBlocks)
    (pending : MemoryPendingStore) (chain : CS) : Prop
  | mk (last : DataBlock) (lastHeight : ℕ)
      (hlast : ChainStore.getLastBlock chain = .ok (some last))
      (hheight : last.getHeight = .ok lastHeight)
      (hdepths : pb.operationsBlocks.size < pb.entriesOperationsCount → ∀ id,
        Remains m pb pending lastHeight id → pb.operationsBlocks.get id = none →
          ReadsDepth i chain lastHeight id)

/-- All that the tick stores is taken, and the clean up reads. -/
inductive TickTakes (m : CommitManager) (i : TickInput) (pending : MemoryPendingStore)
    (chain : CS) : Prop
  | proposes (pb : PendingBlocks) (pending' : MemoryPendingStore)
      (hnone : FindsNone m i pending chain pb)
      (hproposes : ProposesBlock m i pb pending chain pending')
      (hclean : CleansUp m i pb pending' chain)
  | commits (pb : PendingBlocks) (next block : PendingBlock) (mid pending' : MemoryPendingStore)
      (chain' : CS) (hfinds : Finds m i pending chain pb next)
      (hlooks : LooksAt m i pb next pending chain block mid)
      (hcommits : CommitsBlock m block mid chain pending' chain')
      (hclean : CleansUp m i (pb.setBlock block) pending' chain')
  | behind (pb : PendingBlocks) (next block : PendingBlock) (mid : MemoryPendingStore)
      (hfinds : Finds m i pending chain pb next)
      (hlooks : LooksAt m i pb next pending chain block mid)
      (hrefuses : WriteRefused m block mid chain)

/-- The tick has nothing to answer, to write or to propose. -/
structure StoresNothing (m : CommitManager) (i : TickInput) (pending : MemoryPendingStore)
    (chain : CS) : Prop where
  answers : ∀ pb next, Finds m i pending chain pb next → ∀ block pending',
    ¬ AnswersBlock m i pb next pending chain block pending'
  writes : ∀ pb next, Finds m i pending chain pb next → Quorate m next → ∀ b header ops,
    Builds m.cell next pending chain b header ops →
    ∀ nextOffset chain', ChainStore.writeBlock chain b ≠ (.ok nextOffset, chain')
  proposes : ∀ pb, FindsNone m i pending chain pb → m.shouldProposeBlock i chain pb = .ok true →
    ∀ operation, m.buildProposal i pb pending chain = .ok (some operation) →
    ∀ existed pending', pending.putOperation operation ≠ .ok (existed, pending')

end Stages

section Takes
variable [Crates]

/-- An operation that the store takes is told to the other nodes without a failure. -/
theorem handleNewOperation_of_put (p : PendingSynchronizer) (operation : NewOperation)
    (s : PendingState) (existed : Bool) (pending' : MemoryPendingStore)
    (hput : s.store.putOperation operation = .ok (existed, pending')) :
    ∃ context, p.handleNewOperation operation s = (.ok (), ⟨context, pending'⟩) := by
  have hsend : ∀ (operationId : ℕ) (nodes : List NodeId) (s : PendingState),
      ∃ context, p.sendNewOperation operationId nodes s = (.ok (), ⟨context, s.store⟩) := by
    intro operationId nodes
    induction nodes with
    | nil => exact fun s => ⟨s.syncContext, rfl⟩
    | cons node rest ih =>
      intro s
      obtain ⟨cuts, -, -, hrequest⟩ := createSyncRequestForRange_eq p s.syncContext s.store
        (.included operationId) (PendingSynchronizer.newOperationDetails operationId)
      rw [PendingSynchronizer.sendNewOperation, Action.get_bind, hrequest, Action.lift_ok_bind]
      exact ih _
  obtain ⟨reader, type, hreader, -⟩ := s.store.putOperation_eq_ok operation _ hput
  rw [PendingSynchronizer.handleNewOperation, OperationFrame.getReader, hreader, orError_some,
    liftError_ok, Action.lift_ok_bind, Action.bind_apply, putOperation, hput]
  exact hsend reader.operationId p.otherChainNodes _

theorem handleNewOperation_put_cases (p : PendingSynchronizer) (operation : NewOperation)
    (s : PendingState) :
    ((∃ e, p.handleNewOperation operation s = (.error e, s)) ∧
        ∀ existed pending', s.store.putOperation operation ≠ .ok (existed, pending')) ∨
      ∃ existed context pending', s.store.putOperation operation = .ok (existed, pending') ∧
        p.handleNewOperation operation s = (.ok (), ⟨context, pending'⟩) := by
  cases hput : s.store.putOperation operation with
  | ok r =>
    obtain ⟨existed, pending'⟩ := r
    obtain ⟨context, hok⟩ := handleNewOperation_of_put p operation s existed pending' hput
    exact Or.inr ⟨existed, context, pending', rfl, hok⟩
  | error e =>
    left
    refine ⟨?_, fun existed pending' h => by contradiction⟩
    rw [PendingSynchronizer.handleNewOperation]
    cases liftError EngineError.operation operation.frame.getReader with
    | error e => exact ⟨e, rfl⟩
    | ok reader =>
      rw [Action.lift_ok_bind, Action.bind_apply, putOperation, hput]
      exact ⟨_, rfl⟩

/-- A new operation that the store takes is told to the other nodes without a failure. -/
theorem handleNewOperation_cases (p : PendingSynchronizer) (operation : NewOperation)
    (s : PendingState) :
    (∃ e, p.handleNewOperation operation s = (.error e, s)) ∨
      ∃ s', p.handleNewOperation operation s = (.ok (), s') := by
  rcases handleNewOperation_put_cases p operation s with ⟨hfail, -⟩ | ⟨-, context, pending', -, hok⟩
  · exact Or.inl hfail
  · exact Or.inr ⟨⟨context, pending'⟩, hok⟩

variable {CS : Type} [ChainStore CS] {m : CommitManager} (p : PendingSynchronizer)
  {i : TickInput} {pb : PendingBlocks} {next block : PendingBlock}
  {pending pending' : MemoryPendingStore} {chain chain' : CS} (context : SyncContext)

omit [ChainStore CS] in
theorem onPending_of_put (chain : CS) (operation : NewOperation) (existed : Bool)
    (hput : pending.putOperation operation = .ok (existed, pending')) :
    ∃ context', onPending (p.handleNewOperation operation) ⟨context, pending, chain⟩ =
      (.ok (), (⟨context', pending', chain⟩ : CommitState CS)) := by
  obtain ⟨context', hok⟩ := handleNewOperation_of_put p operation ⟨context, pending⟩ existed
    pending' hput
  exact ⟨context', by rw [onPending, hok]⟩

theorem LooksAt.signNextBlock (h : LooksAt m i pb next pending chain block pending') :
    ∃ context', m.signNextBlock p i pb next ⟨context, pending, chain⟩ =
      (.ok block, (⟨context', pending', chain⟩ : CommitState CS)) := by
  cases h with
  | known hknown =>
    have hnot : ¬ (!next.hasMySignature && !next.hasMyRefusal) = true := by
      rcases hknown with h | h <;> simp [h]
    rw [CommitManager.signNextBlock, if_neg hnot]
    exact ⟨context, rfl⟩
  | invalid e hsignature hrefusal hcheck hmild =>
    have hunknown : (!next.hasMySignature && !next.hasMyRefusal) = true := by
      simp [hsignature, hrefusal]
    rw [CommitManager.signNextBlock, if_pos hunknown, CommitManager.signOrRefuseBlock,
      Action.get_bind]
    simp only [hcheck, if_neg hmild]
    exact ⟨context, rfl⟩
  | answers block pending' h =>
    obtain ⟨sign, existed, operation, hsignature, hrefusal, hcheck, hcreate, hput⟩ := h
    have hunknown : (!next.hasMySignature && !next.hasMyRefusal) = true := by
      simp [hsignature, hrefusal]
    obtain ⟨context', hok⟩ := onPending_of_put p context chain operation existed hput
    rw [CommitManager.signNextBlock, if_pos hunknown, CommitManager.signOrRefuseBlock,
      Action.get_bind]
    refine ⟨context', ?_⟩
    cases sign with
    | true =>
      rw [if_pos rfl] at hcreate
      simp only [hcheck]
      rw [CommitManager.signBlock, hcreate, Action.lift_ok_bind]
      exact Action.bind_of_ok _ _ _ _ _ hok
    | false =>
      rw [if_neg Bool.false_ne_true] at hcreate
      simp only [hcheck]
      rw [CommitManager.refuseBlock, hcreate, Action.lift_ok_bind]
      exact Action.bind_of_ok _ _ _ _ _ hok

/-- The answer to a candidate leaves its proposal. -/
theorem LooksAt.proposal (h : LooksAt m i pb next pending chain block pending') :
    block.proposal = next.proposal := by
  cases h with
  | known hknown => rfl
  | invalid e hsignature hrefusal hcheck hmild => rfl
  | answers block pending' h =>
    obtain ⟨sign, existed, operation, -, -, -, hcreate, -⟩ := h
    cases sign with
    | true =>
      simp only [if_true, createBlockSignature, bind_eq_ok_iff] at hcreate
      obtain ⟨frame, -, built, -, reader, -, signature, -, hpair⟩ := hcreate
      rw [← (Prod.mk.inj (Except.ok.inj hpair)).2]
      rfl
    | false =>
      simp only [Bool.false_eq_true, if_false, createBlockRefusal, bind_eq_ok_iff] at hcreate
      obtain ⟨built, -, reader, -, refusal, -, hpair⟩ := hcreate
      rw [← (Prod.mk.inj (Except.ok.inj hpair)).2]
      rfl

/-- The answer to the candidate leaves the pending blocks with readable headers. -/
theorem LooksAt.setBlock_headers (h : LooksAt m i pb next pending chain block pending')
    (hfinds : Finds m i pending chain pb next) (g : ℕ) (b : PendingBlock)
    (hg : (pb.setBlock block).blocks.get g = some b) :
    (headerOf b.proposal.operation).isSome := by
  obtain ⟨hnew, rest, hpot⟩ := hfinds
  have hreads := pendingBlocks_headers m.config i.now m.cell pending chain pb hnew
  rw [PendingBlocks.setBlock, Map.get_insert] at hg
  split_ifs at hg
  · obtain rfl := Option.some.inj hg
    obtain ⟨⟨g', hg'⟩, -⟩ := (mem_potentialNextBlocks pb _ _ _ hpot next).mp List.mem_cons_self
    rw [h.proposal]
    exact hreads g' next hg'
  · exact hreads g b hg

omit [ChainStore CS] in
theorem MarksAll.updateCommitStatuses {status : CommitStatus} {ids : List ℕ}
    (h : MarksAll status ids pending pending') :
    Engine.updateCommitStatuses status ids ⟨context, pending, chain⟩ =
      (.ok (), (⟨context, pending', chain⟩ : CommitState CS)) := by
  induction h with
  | nil pending => rfl
  | cons id rest pending mid pending' hmark _ ih =>
    rw [Engine.updateCommitStatuses, Action.bind_apply, updateOperationCommitStatus]
    simp only [hmark]
    exact ih

theorem maybeCommitBlock_of_quorate (s : CommitState CS) (h : Quorate m block) :
    m.maybeCommitBlock block s = m.commitBlock block s := by
  rw [CommitManager.maybeCommitBlock, if_pos (by rw [Bool.and_eq_true]; exact h)]

theorem maybeCommitBlock_of_not_quorate (s : CommitState CS) (h : ¬ Quorate m block) :
    m.maybeCommitBlock block s = (.ok (), s) := by
  rw [CommitManager.maybeCommitBlock, if_neg (by rw [Bool.and_eq_true]; exact h)]
  rfl

theorem CommitsBlock.maybeCommitBlock (h : CommitsBlock m block pending chain pending' chain') :
    ∃ context', m.maybeCommitBlock block ⟨context, pending, chain⟩ =
      (.ok (), (⟨context', pending', chain'⟩ : CommitState CS)) := by
  cases h with
  | leaves hlacks => exact ⟨context, maybeCommitBlock_of_not_quorate _ hlacks⟩
  | writes b header ops nextOffset pending' chain' hquorate hbuilds hwrite hmarks =>
    have hbuild := (buildChainBlock_eq_ok_iff _ _ _ _ _ _ _).mpr hbuilds
    rw [maybeCommitBlock_of_quorate _ hquorate, CommitManager.commitBlock, Action.get_bind, hbuild]
    simp only [Action.lift_ok_bind, hwrite]
    rw [Action.bind_apply, Action.set]
    simp only
    rw [Action.bind_of_ok _ _ _ _ _ (hmarks.updateCommitStatuses context)]
    exact ⟨_, rfl⟩

theorem WriteRefused.maybeCommitBlock (h : WriteRefused m block pending chain) :
    (m.maybeCommitBlock block (⟨context, pending, chain⟩ : CommitState CS)).1 =
      .error (.error .outOfSync) := by
  obtain ⟨hquorate, hbuild | ⟨b, header, ops, offset, expected, chain', hbuilds, hwrite⟩⟩ := h
  · rw [maybeCommitBlock_of_quorate _ hquorate, CommitManager.commitBlock, Action.get_bind, hbuild]
    rfl
  · have hbuild := (buildChainBlock_eq_ok_iff _ _ _ _ _ _ _).mpr hbuilds
    rw [maybeCommitBlock_of_quorate _ hquorate, CommitManager.commitBlock, Action.get_bind, hbuild]
    simp only [Action.lift_ok_bind, hwrite]
    rfl

theorem ProposesBlock.maybeProposeBlock (h : ProposesBlock m i pb pending chain pending') :
    ∃ context', m.maybeProposeBlock p i pb ⟨context, pending, chain⟩ =
      (.ok (), (⟨context', pending', chain⟩ : CommitState CS)) := by
  rw [CommitManager.maybeProposeBlock, Action.get_bind]
  cases h with
  | waits hturn =>
    simp only [hturn]
    exact ⟨context, rfl⟩
  | empty hturn hbuild =>
    simp only [hturn, Action.lift_ok_bind, if_true]
    rw [CommitManager.proposeBlock, Action.get_bind, hbuild]
    exact ⟨context, rfl⟩
  | puts operation existed pending' hturn hbuild hput =>
    obtain ⟨context', hok⟩ := onPending_of_put p context chain operation existed hput
    simp only [hturn, Action.lift_ok_bind, if_true]
    rw [CommitManager.proposeBlock, Action.get_bind, hbuild]
    exact ⟨context', hok⟩

theorem danglingOperations_isOk (m : CommitManager) (i : TickInput) (pb : PendingBlocks)
    (chain : CS) (lastHeight : ℕ) (operations : List StoredOperation)
    (h : ∀ op ∈ operations, pb.operationsBlocks.get op.operationId = none →
      ReadsDepth i chain lastHeight op.operationId) :
    ∃ ids,
      danglingOperations m.config i.overflowChecks pb chain lastHeight operations = .ok ids := by
  induction operations with
  | nil => exact ⟨[], rfl⟩
  | cons op rest ih =>
    obtain ⟨ids, hids⟩ := ih fun x hx => h x (List.mem_cons_of_mem _ hx)
    rw [danglingOperations]
    cases hlisted : pb.operationsBlocks.get op.operationId with
    | some groups => exact ⟨ids, hids⟩
    | none =>
      rw [if_neg (by simp)]
      rcases h op List.mem_cons_self hlisted with
        hnone | ⟨b, height, depth, hfound, hheight, hdepth⟩
      · rw [hnone]
        exact ⟨ids, hids⟩
      · rw [hfound]
        simp only [liftError_ok, ok_bind, hheight, hdepth, hids]
        split_ifs
        · exact ⟨_, rfl⟩
        · exact ⟨_, rfl⟩

theorem CleansUp.maybeCleanupPendingStore (h : CleansUp m i pb pending chain)
    (hreads : ∀ g b, pb.blocks.get g = some b → (headerOf b.proposal.operation).isSome) :
    ∃ s, m.maybeCleanupPendingStore i pb (⟨context, pending, chain⟩ : CommitState CS) =
      (.ok (), s) := by
  obtain ⟨last, lastHeight, hlast, hheight, hdepths⟩ := h
  obtain ⟨heq, hchain, hstore⟩ := maybeCleanupPendingStore_eq m i pb
    (⟨context, pending, chain⟩ : CommitState CS) last lastHeight hlast hheight hreads
  rw [heq, CommitManager.cleanupDangling]
  split_ifs with happrox
  · rw [Action.get_bind, MemoryPendingStore.operationsIter_unbounded, liftError_ok,
      Action.lift_ok_bind]
    obtain ⟨ids, hids⟩ := danglingOperations_isOk m i pb chain lastHeight
      (m.cleanupBlocks lastHeight (pb.inOrder i.blocksOrder)
        (⟨context, pending, chain⟩ : CommitState CS)).2.pendingStore.operations (by
      intro op hop hnone
      refine hdepths (by omega) op.operationId ?_ hnone
      rw [← remains_iff m pb i.blocksOrder, ← hstore]
      exact (exists_operation_iff _ _).mp ⟨op, hop, rfl⟩)
    rw [hchain, hids, Action.lift_ok_bind, deleteOperations_eq]
    exact ⟨_, rfl⟩
  · exact ⟨_, rfl⟩

end Takes

section Ticks
variable [Crates] {CS : Type} {m : CommitManager} (p : PendingSynchronizer) {i : TickInput}

/-- A tick whose stores are taken ends well. -/
theorem TickTakes.endsWell [ChainStore CS] (s : CommitState CS)
    (h : TickTakes m i s.pendingStore s.chainStore) : EndsWell (m.tick p i s).1 := by
  have hreads := fun pb hnew => pendingBlocks_headers m.config i.now m.cell s.pendingStore
    s.chainStore pb hnew
  rw [CommitManager.tick, Action.get_bind]
  cases h with
  | proposes pb pending' hnone hproposes hclean =>
    obtain ⟨context, hpropose⟩ := hproposes.maybeProposeBlock p s.syncContext
    obtain ⟨s', hcleaned⟩ := hclean.maybeCleanupPendingStore context (hreads pb hnone.1)
    rw [hnone.1, Action.lift_ok_bind, hnone.2, Action.lift_ok_bind]
    simp only [List.head?_nil]
    rw [Action.bind_of_ok _ _ _ _ _ hpropose, hcleaned]
    exact Or.inl ⟨(), rfl⟩
  | commits pb next block mid pending' chain' hfinds hlooks hcommits hclean =>
    obtain ⟨context, hsign⟩ := hlooks.signNextBlock p s.syncContext
    obtain ⟨context', hcommit⟩ := hcommits.maybeCommitBlock context
    obtain ⟨s', hcleaned⟩ := hclean.maybeCleanupPendingStore context'
      (hlooks.setBlock_headers hfinds)
    obtain ⟨hnew, rest, hpot⟩ := hfinds
    rw [hnew, Action.lift_ok_bind, hpot, Action.lift_ok_bind]
    simp only [List.head?_cons]
    rw [Action.bind_of_ok _ _ _ _ _ hsign, Action.bind_of_ok _ _ _ _ _ hcommit, hcleaned]
    exact Or.inl ⟨(), rfl⟩
  | behind pb next block mid hfinds hlooks hrefuses =>
    -- a chain that is out of sync ends the tick here, without its clean up
    obtain ⟨context, hsign⟩ := hlooks.signNextBlock p s.syncContext
    have hrefused := hrefuses.maybeCommitBlock context
    obtain ⟨hnew, rest, hpot⟩ := hfinds
    rw [hnew, Action.lift_ok_bind, hpot, Action.lift_ok_bind]
    simp only [List.head?_cons]
    rw [Action.bind_of_ok _ _ _ _ _ hsign, Action.bind_apply]
    rcases hres : m.maybeCommitBlock block
      (⟨context, mid, s.chainStore⟩ : CommitState CS) with ⟨r, s'⟩
    rw [hres] at hrefused
    obtain rfl : r = .error (.error .outOfSync) := hrefused
    exact Or.inr rfl

/-- No operation came into the store and no block into the chain. -/
structure NothingNew (s s' : CommitState (Recorded CS)) : Prop where
  operations : ∀ id, (s'.pendingStore.getOperation id).isSome →
    (s.pendingStore.getOperation id).isSome
  written : s'.chainStore.written = s.chainStore.written

theorem NothingNew.refl (s : CommitState (Recorded CS)) : NothingNew s s :=
  ⟨fun _ h => h, rfl⟩

variable [ChainRangeStore CS]

/-- A candidate that gets no answer leaves the stores. -/
theorem signNextBlock_of_no_answer (pb : PendingBlocks) (next : PendingBlock)
    (s : CommitState (Recorded CS))
    (h : ∀ block pending', ¬ AnswersBlock m i pb next s.pendingStore s.chainStore block pending') :
    (m.signNextBlock p i pb next s).2 = s ∧
      ∀ block, (m.signNextBlock p i pb next s).1 = .ok block → block = next := by
  rcases signNextBlock_cases m p i pb next s with
    hsame | ⟨hsignature, hrefusal, ⟨e, -, herror⟩ | ⟨sign, hcheck, hanswer⟩⟩
  · rw [hsame]
    exact ⟨rfl, fun block hok => (Except.ok.inj hok).symm⟩
  · rw [herror]
    exact ⟨rfl, fun block hok => by contradiction⟩
  · rw [hanswer, putAnswer]
    cases hcreate : createAnswer m i sign next with
    | error e => exact ⟨rfl, fun block hok => by contradiction⟩
    | ok r =>
      obtain ⟨operation, block⟩ := r
      rw [Action.lift_ok_bind, Action.bind_apply, onPending]
      rcases handleNewOperation_put_cases p operation ⟨s.syncContext, s.pendingStore⟩ with
        ⟨⟨e, he⟩, -⟩ | ⟨existed, context, pending', hstored, -⟩
      · rw [he]
        exact ⟨rfl, fun block hok => by contradiction⟩
      -- the operation that the store would take is an answer
      · exact absurd (.mk sign existed operation hsignature hrefusal hcheck hcreate hstored)
          (h block pending')

/-- A candidate that is not written leaves the stores. -/
theorem maybeCommitBlock_of_no_write (block : PendingBlock) (s : CommitState (Recorded CS))
    (h : Quorate m block → ∀ b header ops,
      Builds m.cell block s.pendingStore s.chainStore b header ops →
      ∀ next chain', ChainStore.writeBlock s.chainStore b ≠ (.ok next, chain')) :
    NothingNew s (m.maybeCommitBlock block s).2 := by
  by_cases hquorate : Quorate m block
  · rw [maybeCommitBlock_of_quorate _ hquorate, CommitManager.commitBlock, Action.get_bind]
    cases hbuild : buildChainBlock m.cell block s.pendingStore s.chainStore with
    | error e => exact .refl s
    | ok r =>
      obtain ⟨b, header, ops⟩ := r
      have hbuilds := (buildChainBlock_eq_ok_iff _ _ _ _ _ _ _).mp hbuild
      simp only [Action.lift_ok_bind]
      rcases recorded_writeBlock_cases s.chainStore b with
        ⟨next, store, -, hwrite⟩ | ⟨e, store, -, hwrite⟩
      · exact absurd hwrite (h hquorate b header ops hbuilds next _)
      · simp only [hwrite]
        cases e with
        | panic => exact ⟨fun _ h => h, rfl⟩
        | error e => cases e <;> exact ⟨fun _ h => h, rfl⟩
  · rw [maybeCommitBlock_of_not_quorate _ hquorate]
    exact .refl s

theorem maybeProposeBlock_of_no_proposal (pb : PendingBlocks) (s : CommitState (Recorded CS))
    (h : m.shouldProposeBlock i s.chainStore pb = .ok true → ∀ operation,
      m.buildProposal i pb s.pendingStore s.chainStore = .ok (some operation) →
      ∀ existed pending', s.pendingStore.putOperation operation ≠ .ok (existed, pending')) :
    (m.maybeProposeBlock p i pb s).2 = s := by
  rw [CommitManager.maybeProposeBlock, Action.get_bind]
  cases hturn : m.shouldProposeBlock i s.chainStore pb with
  | error e => rfl
  | ok should =>
    cases should with
    | false => rfl
    | true =>
      simp only [Action.lift_ok_bind, if_true]
      rw [CommitManager.proposeBlock, Action.get_bind]
      cases hbuild : m.buildProposal i pb s.pendingStore s.chainStore with
      | error e => rfl
      | ok proposal =>
        cases proposal with
        | none => rfl
        | some operation =>
          simp only [Action.lift_ok_bind, onPending]
          rcases handleNewOperation_put_cases p operation ⟨s.syncContext, s.pendingStore⟩ with
            ⟨⟨e, he⟩, -⟩ | ⟨existed, context, pending', hstored, -⟩
          · rw [he]
          · exact absurd hstored (h hturn operation hbuild existed pending')

/-- A tick that has nothing to store brings nothing, whatever it ends with. -/
theorem StoresNothing.tick (s : CommitState (Recorded CS))
    (h : StoresNothing m i s.pendingStore s.chainStore) : NothingNew s (m.tick p i s).2 := by
  have hclean (pb : PendingBlocks) (s₁ : CommitState (Recorded CS)) (hs₁ : NothingNew s s₁) :
      NothingNew s (m.maybeCleanupPendingStore i pb s₁).2 := by
    obtain ⟨-, -, hchain, hstore⟩ := onlyRemoves_maybeCleanupPendingStore m i pb s₁
    exact ⟨fun id hid => hs₁.operations id (hstore id hid), by rw [hchain, hs₁.written]⟩
  rw [CommitManager.tick, Action.get_bind]
  cases hnew : PendingBlocks.new m.config i.now m.cell s.pendingStore s.chainStore with
  | error e => exact .refl s
  | ok pb =>
    rw [Action.lift_ok_bind]
    cases hpot : pb.potentialNextBlocks i.blocksOrder i.sorter with
    | error e => exact .refl s
    | ok potential =>
      rw [Action.lift_ok_bind]
      cases potential with
      | nil =>
        have hsame := maybeProposeBlock_of_no_proposal p pb s (h.proposes pb ⟨hnew, hpot⟩)
        simp only [List.head?_nil]
        rcases Action.bind_cases (m.maybeProposeBlock p i pb)
          (fun _ => m.maybeCleanupPendingStore i pb) s with ⟨e, s₁, hs₁, heq⟩ | ⟨_, s₁, hs₁, heq⟩
        · rw [hs₁] at hsame
          rw [heq, hsame]
          exact .refl s
        · rw [hs₁] at hsame
          rw [heq]
          exact hclean pb s₁ (hsame ▸ .refl s)
      | cons next rest =>
        have hfinds : Finds m i s.pendingStore s.chainStore pb next := ⟨hnew, rest, hpot⟩
        obtain ⟨hsame, hnext⟩ := signNextBlock_of_no_answer p pb next s (h.answers pb next hfinds)
        simp only [List.head?_cons]
        rcases Action.bind_cases (m.signNextBlock p i pb next) (fun block => do
          m.maybeCommitBlock block
          m.maybeCleanupPendingStore i (pb.setBlock block)) s with
          ⟨e, s₁, hs₁, heq⟩ | ⟨block, s₁, hs₁, heq⟩
        · rw [hs₁] at hsame
          rw [heq, hsame]
          exact .refl s
        · rw [hs₁] at hsame hnext
          obtain rfl := hnext block rfl
          obtain rfl : s = s₁ := hsame.symm
          rw [heq]
          have hkept := maybeCommitBlock_of_no_write block s (h.writes pb block hfinds)
          rcases Action.bind_cases (m.maybeCommitBlock block)
            (fun _ => m.maybeCleanupPendingStore i (pb.setBlock block)) s with
            ⟨e, s₂, hs₂, heq₂⟩ | ⟨_, s₂, hs₂, heq₂⟩
          · rw [hs₂] at hkept
            rw [heq₂]
            exact hkept
          · rw [hs₂] at hkept
            rw [heq₂]
            exact hclean _ s₂ hkept

end Ticks

section Exact
variable [Crates] {CS : Type} [ChainStore CS] {m : CommitManager} (p : PendingSynchronizer)
  {i : TickInput} {pb : PendingBlocks} {next block : PendingBlock} {s s' : CommitState CS}

omit [Crates] in
theorem endsWell_error_iff {A : Type} (e : Fault EngineError) :
    EndsWell (.error e : Res EngineError A) ↔ e = .error .outOfSync := by
  simp [EndsWell]

/-- A clean up whose scan ends well has read the depth of every operation that no proposal has. -/
theorem readsDepth_of_endsWell (chain : CS) (lastHeight : ℕ) (operations : List StoredOperation)
    (h : EndsWell (danglingOperations m.config i.overflowChecks pb chain lastHeight operations))
    (op : StoredOperation) (hop : op ∈ operations)
    (hnone : pb.operationsBlocks.get op.operationId = none) :
    ReadsDepth i chain lastHeight op.operationId := by
  induction operations with
  | nil => contradiction
  | cons first rest ih =>
    rw [danglingOperations] at h
    cases hlisted : pb.operationsBlocks.get first.operationId with
    | some groups =>
      rw [hlisted, if_pos Option.isSome_some] at h
      rcases List.mem_cons.mp hop with rfl | hrest
      · rw [hnone] at hlisted
        contradiction
      · exact ih h hrest
    | none =>
      rw [hlisted, if_neg (by simp)] at h
      cases hfound : ChainStore.getBlockByOperationId chain first.operationId with
      | error e =>
        rw [hfound] at h
        cases e <;> simp [liftError, endsWell_error_iff, Fault.map] at h
      | ok found =>
        rw [hfound, liftError_ok, ok_bind] at h
        cases found with
        | none =>
          rcases List.mem_cons.mp hop with rfl | hrest
          · exact Or.inl hfound
          · exact ih h hrest
        | some b =>
          simp only at h
          cases hheight : b.getHeight with
          | error e =>
            rw [hheight] at h
            cases e <;> simp [liftError, endsWell_error_iff, Fault.map] at h
          | ok height =>
            rw [hheight, liftError_ok, ok_bind] at h
            cases hdepth : blockDepth i.overflowChecks lastHeight height with
            | error e =>
              have hout := (endsWell_error_iff e).mp (by rwa [hdepth] at h)
              rw [blockDepth, hout] at hdepth
              split_ifs at hdepth <;> cases hdepth
            | ok depth =>
              rcases List.mem_cons.mp hop with rfl | hrest
              · exact Or.inr ⟨b, height, depth, hfound, hheight, hdepth⟩
              · refine ih ?_ hrest
                rw [hdepth, ok_bind] at h
                cases hothers : danglingOperations m.config i.overflowChecks pb chain lastHeight
                    rest with
                | ok ids => exact Or.inl ⟨ids, rfl⟩
                | error e =>
                  rw [hothers] at h
                  exact Or.inr (congrArg _ ((endsWell_error_iff e).mp h))

theorem CleansUp.of_endsWell (h : EndsWell (m.maybeCleanupPendingStore i pb s).1)
    (hreads : ∀ g b, pb.blocks.get g = some b → (headerOf b.proposal.operation).isSome) :
    CleansUp m i pb s.pendingStore s.chainStore := by
  have hblock := h
  rw [CommitManager.maybeCleanupPendingStore, Action.get_bind] at hblock
  cases hlast : ChainStore.getLastBlock s.chainStore with
  | error e =>
    rw [hlast] at hblock
    cases e <;> cases (endsWell_error_iff _).mp hblock
  | ok last => cases last with
    | none =>
      rw [hlast] at hblock
      cases (endsWell_error_iff _).mp hblock
    | some last =>
      rw [hlast, liftError_ok, Action.lift_ok_bind, orError_some, Action.lift_ok_bind] at hblock
      cases hheight : last.getHeight with
      | error e =>
        rw [hheight] at hblock
        cases e <;> cases (endsWell_error_iff _).mp hblock
      | ok lastHeight =>
        obtain ⟨heq, hchain, hstore⟩ :=
          maybeCleanupPendingStore_eq m i pb s last lastHeight hlast hheight hreads
        refine ⟨last, lastHeight, hlast, hheight, ?_⟩
        intro hmore id hremains hnone
        rw [heq, CommitManager.cleanupDangling, if_pos (by omega), Action.get_bind,
          MemoryPendingStore.operationsIter_unbounded, liftError_ok, Action.lift_ok_bind,
          hchain] at h
        rw [← remains_iff m pb i.blocksOrder, ← hstore] at hremains
        obtain ⟨op, hop, rfl⟩ := (exists_operation_iff _ _).mpr hremains
        have hends : EndsWell (danglingOperations m.config i.overflowChecks pb s.chainStore
            lastHeight (m.cleanupBlocks lastHeight
              (pb.inOrder i.blocksOrder) s).2.pendingStore.operations) := by
          cases hids : danglingOperations m.config i.overflowChecks pb s.chainStore lastHeight
              (m.cleanupBlocks lastHeight
                (pb.inOrder i.blocksOrder) s).2.pendingStore.operations with
          | ok ids => exact Or.inl ⟨ids, rfl⟩
          | error e =>
            rw [hids] at h
            exact (endsWell_error_iff e).mpr ((endsWell_error_iff e).mp h)
        exact readsDepth_of_endsWell s.chainStore lastHeight _ hends op hop hnone

omit [ChainStore CS] in
theorem marksAll_of_ok (status : CommitStatus) (ids : List ℕ) (s s' : CommitState CS)
    (h : updateCommitStatuses status ids s = (.ok (), s')) :
    MarksAll status ids s.pendingStore s'.pendingStore := by
  induction ids generalizing s with
  | nil =>
    rw [← (Prod.mk.inj h).2]
    exact .nil s.pendingStore
  | cons id rest ih =>
    obtain ⟨_, mid, hmark, hrest⟩ := Action.bind_eq_ok _ _ _ _ _ h
    rw [updateOperationCommitStatus] at hmark
    cases hstore : s.pendingStore.updateOperationCommitStatus id status with
    | error e =>
      rw [hstore] at hmark
      cases (Prod.mk.inj hmark).1
    | ok store =>
      rw [hstore] at hmark
      obtain rfl := (Prod.mk.inj hmark).2
      exact .cons id rest _ store _ hstore (ih _ hrest)

/-- A commit that ends well has written its block, or left it, or found that it is behind. -/
theorem commitsBlock_of_endsWell (h : EndsWell (m.maybeCommitBlock block s).1) :
    (∃ pending' chain', CommitsBlock m block s.pendingStore s.chainStore pending' chain') ∨
      WriteRefused m block s.pendingStore s.chainStore := by
  by_cases hquorate : Quorate m block
  · rw [maybeCommitBlock_of_quorate _ hquorate, CommitManager.commitBlock, Action.get_bind] at h
    cases hbuild : buildChainBlock m.cell block s.pendingStore s.chainStore with
    | error e =>
      rw [hbuild] at h
      exact Or.inr ⟨hquorate, Or.inl (by rw [hbuild, (endsWell_error_iff e).mp h])⟩
    | ok r =>
      obtain ⟨b, header, ops⟩ := r
      have hbuilds := (buildChainBlock_eq_ok_iff _ _ _ _ _ _ _).mp hbuild
      simp only [hbuild, Action.lift_ok_bind] at h
      cases hwrite : ChainStore.writeBlock s.chainStore b with
      | mk r chain' =>
        cases r with
        | error e =>
          cases e with
          | panic =>
            simp only [hwrite] at h
            cases (endsWell_error_iff _).mp h
          | error e =>
            simp only [hwrite] at h
            cases e with
            | invalidNextBlock offset expected =>
              exact Or.inr ⟨hquorate, Or.inr ⟨b, header, ops, offset, expected, chain', hbuilds,
                hwrite⟩⟩
            | _ => cases (endsWell_error_iff _).mp h
        | ok nextOffset =>
          simp only [hwrite] at h
          rw [Action.bind_apply, Action.set] at h
          simp only at h
          cases hmarks : updateCommitStatuses (.committed block.proposal.offset header.height)
              (ops.headers.map BlockOperationHeader.operationId)
              (⟨s.syncContext, s.pendingStore, chain'⟩ : CommitState CS) with
          | mk r s' =>
            cases r with
            | error e =>
              rw [Action.bind_of_error _ _ _ _ _ hmarks] at h
              exact absurd h (updateCommitStatuses_not_endsWell _ _ _ e s' hmarks)
            | ok _ =>
              have hall := marksAll_of_ok _ _ ⟨s.syncContext, s.pendingStore, chain'⟩ s' hmarks
              exact Or.inl ⟨s'.pendingStore, chain', .writes b header ops nextOffset _ _ hquorate
                hbuilds hwrite hall⟩
  · exact Or.inl ⟨_, _, .leaves hquorate⟩

variable {pending : MemoryPendingStore} {chain : CS} {pb' : PendingBlocks} {next' : PendingBlock}

theorem Finds.unique (h : Finds m i pending chain pb next)
    (h' : Finds m i pending chain pb' next') : pb' = pb ∧ next' = next := by
  obtain ⟨hnew, rest, hpot⟩ := h
  obtain ⟨hnew', rest', hpot'⟩ := h'
  obtain rfl : pb = pb' := Except.ok.inj (hnew.symm.trans hnew')
  have hlists : next :: rest = next' :: rest' := Except.ok.inj (hpot.symm.trans hpot')
  exact ⟨rfl, (List.cons.inj hlists).1.symm⟩

theorem FindsNone.unique (h : FindsNone m i pending chain pb)
    (h' : FindsNone m i pending chain pb') : pb' = pb :=
  Except.ok.inj (h'.1.symm.trans h.1)

theorem Finds.not_findsNone (h : Finds m i pending chain pb next) :
    ¬ FindsNone m i pending chain pb' := by
  rintro ⟨hnew', hpot'⟩
  obtain ⟨hnew, rest, hpot⟩ := h
  obtain rfl : pb = pb' := Except.ok.inj (hnew.symm.trans hnew')
  cases Except.ok.inj (hpot.symm.trans hpot')

/-- A tick that does not get through its scan has nothing to store. -/
theorem StoresNothing.of_not_found (hfinds : ∀ pb next, ¬ Finds m i pending chain pb next)
    (hnone : ∀ pb, ¬ FindsNone m i pending chain pb) : StoresNothing m i pending chain :=
  ⟨fun pb next h => absurd h (hfinds pb next), fun pb next h => absurd h (hfinds pb next),
    fun pb h => absurd h (hnone pb)⟩

/-- Without a candidate the tick proposes, or has nothing to propose. -/
theorem storesNothing_or_takes_of_none (s : CommitState CS)
    (hnone : FindsNone m i s.pendingStore s.chainStore pb)
    (h : EndsWell ((m.maybeProposeBlock p i pb >>= fun _ => m.maybeCleanupPendingStore i pb) s).1) :
    StoresNothing m i s.pendingStore s.chainStore ∨
      TickTakes m i s.pendingStore s.chainStore := by
  by_cases hproposes : ∃ pending', ProposesBlock m i pb s.pendingStore s.chainStore pending'
  · obtain ⟨pending', hproposes⟩ := hproposes
    obtain ⟨context, hpropose⟩ := hproposes.maybeProposeBlock p s.syncContext
    have hreads := pendingBlocks_headers m.config i.now m.cell s.pendingStore s.chainStore pb hnone.1
    rw [Action.bind_of_ok _ _ _ _ _ hpropose] at h
    exact Or.inr (.proposes pb pending' hnone hproposes (.of_endsWell h hreads))
  · refine Or.inl ⟨fun pb next hf => absurd hnone hf.not_findsNone,
      fun pb next hf => absurd hnone hf.not_findsNone, ?_⟩
    intro pb' hnone' hturn operation hbuild existed pending' hput
    obtain rfl := hnone.unique hnone'
    exact hproposes ⟨pending', .puts operation existed pending' hturn hbuild hput⟩

/-- A candidate is answered and committed where it has its quorum, or there is nothing to do. -/
theorem storesNothing_or_takes_of_candidate (s : CommitState CS)
    (hfinds : Finds m i s.pendingStore s.chainStore pb next)
    (h : EndsWell ((m.signNextBlock p i pb next >>= fun block => do
      m.maybeCommitBlock block
      m.maybeCleanupPendingStore i (pb.setBlock block)) s).1) :
    StoresNothing m i s.pendingStore s.chainStore ∨
      TickTakes m i s.pendingStore s.chainStore := by
  by_cases hlooks : ∃ block mid, LooksAt m i pb next s.pendingStore s.chainStore block mid
  · obtain ⟨block, mid, hlooks⟩ := hlooks
    obtain ⟨context, hsign⟩ := hlooks.signNextBlock p s.syncContext
    rw [Action.bind_of_ok _ _ _ _ _ hsign] at h
    have hcommit : EndsWell (m.maybeCommitBlock block
        (⟨context, mid, s.chainStore⟩ : CommitState CS)).1 := by
      rcases Action.bind_cases (m.maybeCommitBlock block)
        (fun _ => m.maybeCleanupPendingStore i (pb.setBlock block))
        ⟨context, mid, s.chainStore⟩ with ⟨e, s', hs', heq⟩ | ⟨_, s', hs', -⟩
      · rw [heq] at h
        rw [hs']
        exact h
      · rw [hs']
        exact Or.inl ⟨_, rfl⟩
    rcases commitsBlock_of_endsWell hcommit with ⟨pending', chain', hcommits⟩ | hrefused
    · obtain ⟨context', hcommitted⟩ := hcommits.maybeCommitBlock context
      rw [Action.bind_of_ok _ _ _ _ _ hcommitted] at h
      exact Or.inr (.commits pb next block mid pending' chain' hfinds hlooks hcommits
        (.of_endsWell h (hlooks.setBlock_headers hfinds)))
    · exact Or.inr (.behind pb next block mid hfinds hlooks hrefused)
  · refine Or.inl ⟨?_, ?_, fun pb hnone => absurd hnone hfinds.not_findsNone⟩
    · intro pb' next' hfinds' block pending' hanswers
      obtain ⟨rfl, rfl⟩ := hfinds.unique hfinds'
      exact hlooks ⟨block, pending', .answers block pending' hanswers⟩
    -- a candidate with its quorum has our signature, so that it is looked at as it is
    · intro pb' next' hfinds' hquorate
      obtain ⟨rfl, rfl⟩ := hfinds.unique hfinds'
      exact absurd ⟨next', s.pendingStore, .known (Or.inl hquorate.1)⟩ hlooks

/-- A tick that ends well has nothing to store, or all of it is taken. -/
theorem storesNothing_or_takes (s : CommitState CS) (h : EndsWell (m.tick p i s).1) :
    StoresNothing m i s.pendingStore s.chainStore ∨
      TickTakes m i s.pendingStore s.chainStore := by
  rw [CommitManager.tick, Action.get_bind] at h
  cases hnew : PendingBlocks.new m.config i.now m.cell s.pendingStore s.chainStore with
  | error e =>
    refine Or.inl (.of_not_found ?_ ?_)
    · rintro pb next ⟨hnew', -⟩
      cases hnew.symm.trans hnew'
    · rintro pb ⟨hnew', -⟩
      cases hnew.symm.trans hnew'
  | ok pb =>
    rw [hnew, Action.lift_ok_bind] at h
    cases hpot : pb.potentialNextBlocks i.blocksOrder i.sorter with
    | error e =>
      refine Or.inl (.of_not_found ?_ ?_)
      · rintro pb' next ⟨hnew', rest, hpot'⟩
        obtain rfl : pb = pb' := Except.ok.inj (hnew.symm.trans hnew')
        cases hpot.symm.trans hpot'
      · rintro pb' ⟨hnew', hpot'⟩
        obtain rfl : pb = pb' := Except.ok.inj (hnew.symm.trans hnew')
        cases hpot.symm.trans hpot'
    | ok potential =>
      rw [hpot, Action.lift_ok_bind] at h
      cases potential with
      | nil => exact storesNothing_or_takes_of_none p s ⟨hnew, hpot⟩ h
      | cons next rest => exact storesNothing_or_takes_of_candidate p s ⟨hnew, rest, hpot⟩ h

end Exact

end Exocore.Engine
