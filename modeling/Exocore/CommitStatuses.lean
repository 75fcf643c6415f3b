import Exocore.CommitOnce

/-! The commit statuses of the pending store against the blocks of the chain, along a tick of
the commit manager. -/
namespace Exocore.Engine

open Exocore.Core Exocore.Chain Exocore.Pending SortedMap

section Statuses
variable [Crates] {store store' : MemoryPendingStore} {blocks : List DataBlock}

/-- No block of the chain has the operation. -/
def NotIn (blocks : List DataBlock) (id : ℕ) : Prop := ∀ b ∈ blocks, ¬ Contains b id

/-- An operation that a block has is marked with the offset and the height of that block, and
one that is marked with an offset is in the block there. -/
structure Accurate (store : MemoryPendingStore) (blocks : List DataBlock) : Prop where
  contained : ∀ id op, store.getOperation id = some op → ∀ b ∈ blocks, Contains b id →
    ∃ height, b.getHeight = .ok height ∧ op.commitStatus = .committed b.offset height
  committed : ∀ id op offset height, store.getOperation id = some op →
    op.commitStatus = .committed offset height → ∃ b ∈ blocks, b.offset = offset ∧ Contains b id

theorem Accurate.of_removed (h : Accurate store blocks)
    (hsome : ∀ id op, store'.getOperation id = some op → store.getOperation id = some op) :
    Accurate store' blocks := by
  constructor
  · intro id op hop
    exact h.contained id op (hsome id op hop)
  · intro id op offset height hop
    exact h.committed id op offset height (hsome id op hop)

theorem Accurate.delete (h : Accurate store blocks) (t : ℕ) :
    Accurate (store.deleteOperation t) blocks := by
  apply h.of_removed
  intro id op hop
  rw [getOperation_delete] at hop
  split_ifs at hop
  exact hop

/-- A put sets the status back, so the operation must not be in the chain. -/
theorem Accurate.put (h : Accurate store blocks) (operation : NewOperation) (existed : Bool)
    (hput : store.putOperation operation = .ok (existed, store'))
    (hnew : ∀ reader, operation.frame.frame.reader = some reader →
      NotIn blocks reader.operationId) : Accurate store' blocks := by
  obtain ⟨reader, -, hreader, -⟩ := store.putOperation_eq_ok operation _ hput
  obtain ⟨type, -, hget⟩ := store.putOperation_getOperation store' operation existed reader hreader
    hput
  constructor
  · intro id op hop b hb hid
    rw [hget] at hop
    split_ifs at hop with heq
    · rw [heq] at hid
      exact absurd hid (hnew reader hreader b hb)
    · exact h.contained id op hop b hb hid
  · intro id op offset height hop hstatus
    rw [hget] at hop
    split_ifs at hop with heq
    · rw [← Option.some.inj hop] at hstatus
      contradiction
    · exact h.committed id op offset height hop hstatus

/-- A block that comes from elsewhere leaves the statuses as they are. -/
theorem Accurate.append (h : Accurate store blocks) (b : DataBlock)
    (hb : ∀ id, Contains b id → store.getOperation id = none) : Accurate store (blocks ++ [b]) := by
  constructor
  · intro id op hop c hc hid
    rcases List.mem_append.mp hc with hc | hc
    · exact h.contained id op hop c hc hid
    · obtain rfl := List.mem_singleton.mp hc
      rw [hb id hid] at hop
      contradiction
  · intro id op offset height hop hstatus
    obtain ⟨c, hc, hoff, hid⟩ := h.committed id op offset height hop hstatus
    exact ⟨c, List.mem_append_left _ hc, hoff, hid⟩

/-- A commit marks what its block has. -/
theorem Accurate.commit (h : Accurate store blocks) (b : DataBlock) (height : ℕ)
    (hheight : b.getHeight = .ok height) (ids : List ℕ)
    (hget : ∀ id, store'.getOperation id = (store.getOperation id).map fun op =>
      if id ∈ ids then { op with commitStatus := .committed b.offset height } else op)
    (hids : ∀ id, id ∈ ids ↔ Contains b id) (hnew : ∀ id ∈ ids, NotIn blocks id) :
    Accurate store' (blocks ++ [b]) := by
  constructor
  · intro id op hop c hc hid
    rw [hget] at hop
    obtain ⟨old, hold, hop⟩ := Option.map_eq_some_iff.mp hop
    rcases List.mem_append.mp hc with hc | hc
    · have hnot : id ∉ ids := fun hmem => hnew id hmem c hc hid
      rw [if_neg hnot] at hop
      rw [← hop]
      exact h.contained id old hold c hc hid
    · obtain rfl := List.mem_singleton.mp hc
      rw [if_pos ((hids id).mpr hid)] at hop
      rw [← hop]
      exact ⟨height, hheight, rfl⟩
  · intro id op offset height' hop hstatus
    rw [hget] at hop
    obtain ⟨old, hold, hop⟩ := Option.map_eq_some_iff.mp hop
    by_cases hmem : id ∈ ids
    · rw [if_pos hmem] at hop
      rw [← hop] at hstatus
      obtain ⟨hoff, -⟩ := CommitStatus.committed.inj hstatus
      exact ⟨b, List.mem_append_right _ List.mem_cons_self, hoff, (hids id).mp hmem⟩
    · rw [if_neg hmem] at hop
      rw [← hop] at hstatus
      obtain ⟨c, hc, hoff, hid⟩ := h.committed id old offset height' hold hstatus
      exact ⟨c, List.mem_append_left _ hc, hoff, hid⟩

end Statuses

section Marking
variable [Crates] {CS : Type}

theorem updateOperationCommitStatus_getOperation (s : MemoryPendingStore) (id : ℕ)
    (status : CommitStatus) (h : (s.getOperation id).isSome) :
    ∃ s', s.updateOperationCommitStatus id status = .ok s' ∧ ∀ t, s'.getOperation t =
      (s.getOperation t).map fun op =>
        if t = id then { op with commitStatus := status } else op := by
  obtain ⟨op, hop⟩ := Option.isSome_iff_exists.mp h
  simp only [MemoryPendingStore.getOperation, Option.bind_eq_bind, Option.bind_eq_some_iff] at hop
  obtain ⟨groupId, htime, ops, hops, g, hg, -⟩ := hop
  refine ⟨s.setCommitStatus groupId id ops g status hops hg, ?_, ?_⟩
  · unfold MemoryPendingStore.updateOperationCommitStatus
    simp only [htime]
    split
    · rename_i hnone
      rw [hops] at hnone
      contradiction
    · rename_i ops' hops'
      obtain rfl := Option.some.inj (hops.symm.trans hops')
      split
      · rename_i hnone
        rw [hg] at hnone
        contradiction
      · rename_i g' hg'
        obtain rfl := Option.some.inj (hg.symm.trans hg')
        rfl
  · intro t
    simp only [MemoryPendingStore.getOperation, MemoryPendingStore.setCommitStatus, Map.get_insert]
    cases htime' : s.operationsTimeline.get t with
    | none => rfl
    | some u =>
      simp only [Option.bind_eq_bind, Option.bind_some]
      by_cases hu : u = groupId
      · rw [if_pos hu, hu, hops, Option.bind_some, Option.bind_some, Map.get_insert]
        by_cases ht : t = id
        · rw [if_pos ht, ht, hg]
          simp [MemoryPendingStore.storedOperation]
        · simp [if_neg ht]
      · rw [if_neg hu]
        have ht : t ≠ id := by
          rintro rfl
          exact hu (Option.some.inj (htime'.symm.trans htime))
        simp [if_neg ht]

/-- Where all the operations are there, each of them is marked. -/
theorem updateCommitStatuses_eq (status : CommitStatus) (ids : List ℕ) (s : CommitState CS)
    (hids : ∀ id ∈ ids, (s.pendingStore.getOperation id).isSome) :
    ∃ store', updateCommitStatuses status ids s = (.ok (), { s with pendingStore := store' }) ∧
      ∀ t, store'.getOperation t = (s.pendingStore.getOperation t).map fun op =>
        if t ∈ ids then { op with commitStatus := status } else op := by
  induction ids generalizing s with
  | nil =>
    refine ⟨s.pendingStore, rfl, ?_⟩
    intro t
    simp
  | cons id rest ih =>
    obtain ⟨mid, hmid, hget⟩ := updateOperationCommitStatus_getOperation s.pendingStore id status
      (hids id List.mem_cons_self)
    obtain ⟨store', hrest, hget'⟩ := ih { s with pendingStore := mid } (by
      intro t ht
      rw [hget, Option.isSome_map]
      exact hids t (List.mem_cons_of_mem _ ht))
    refine ⟨store', ?_, ?_⟩
    · rw [updateCommitStatuses, Action.bind_apply, updateOperationCommitStatus]
      simp only [hmid]
      exact hrest
    · intro t
      rw [hget', hget, Option.map_map]
      congr 1
      funext op
      by_cases hid : t = id
      · simp [hid]
      · simp [hid]

/-- The ids that are marked are those of the block. -/
theorem mem_headers_iff (store : MemoryPendingStore) (ids : List ℕ) (ops : BlockOperations)
    (hpresent : ∀ id ∈ ids, (store.getOperation id).isSome)
    (hops : BlockOperations.fromOperations (storedFrames store ids) = .ok ops) (t : ℕ) :
    t ∈ ops.headers.map BlockOperationHeader.operationId ↔ t ∈ ids := by
  have hread : ∀ id op, store.getOperation id = some op →
      (op.frame.frame.reader.map ChainOperation.operationId).getD 0 = id := by
    intro id op hop
    obtain ⟨r, hr, hid, -⟩ := store.getOperation_reads id op hop
    rw [hr, Option.map_some, Option.getD_some, hid]
  rw [(fromOperations_eq_ok _ _ hops).2.1, positions_ids, storedFrames, List.map_map,
    List.mem_map]
  constructor
  · rintro ⟨op, hop, rfl⟩
    rw [List.mem_insertionSort] at hop
    obtain ⟨id, hid, hget⟩ := List.mem_filterMap.mp hop
    rw [Function.comp_apply, hread id op hget]
    exact hid
  · intro ht
    obtain ⟨op, hop⟩ := Option.isSome_iff_exists.mp (hpresent t ht)
    refine ⟨op, ?_, hread t op hop⟩
    rw [List.mem_insertionSort]
    exact List.mem_filterMap.mpr ⟨t, ht, hop⟩

end Marking

section Ticks
variable [Crates]

/-- The chain store holds the blocks, and the pending store is marked with them. -/
structure Marks (store : MemoryPendingStore) (chain : DirectoryChainStore)
    (blocks : List DataBlock) : Prop where
  holds : StoreHolds True chain blocks
  inStep : CursorsInStep chain
  accurate : Accurate store blocks

def Marked (store : MemoryPendingStore) (chain : DirectoryChainStore) : Prop :=
  ∃ blocks, Marks store chain blocks

def CommitState.Marked (s : CommitState DirectoryChainStore) : Prop :=
  Engine.Marked s.pendingStore s.chainStore

/-- A new operation whose id is not in the chain keeps the statuses, stored or not. -/
theorem handleNewOperation_accurate (p : PendingSynchronizer) (operation : NewOperation)
    (st : PendingState) (blocks : List DataBlock) (h : Accurate st.store blocks)
    (hnew : ∀ reader, operation.frame.frame.reader = some reader →
      NotIn blocks reader.operationId) :
    Accurate (p.handleNewOperation operation st).2.store blocks := by
  rcases handleNewOperation_store p operation st with ⟨-, hsame⟩ | ⟨existed, store', hput, hafter⟩
  · rw [hsame]
    exact h
  · rw [hafter]
    exact h.put operation existed hput hnew

theorem signNextBlock_accurate (hread : OperationsReadBack) (m : CommitManager)
    (p : PendingSynchronizer) (hnode : NodeIdReadsBack m.cell.localNode) (i : TickInput)
    (pb : PendingBlocks) (next : PendingBlock) (s : CommitState DirectoryChainStore)
    (blocks : List DataBlock) (h : Accurate s.pendingStore blocks)
    (htime : next.hasMySignature = false → next.hasMyRefusal = false →
      NotIn blocks i.signatureTime) :
    Accurate (m.signNextBlock p i pb next s).2.pendingStore blocks := by
  have hput (hnew : NotIn blocks i.signatureTime) (op : NewOperation) (block : PendingBlock) (message : ChainOperation)
      (hreader : op.frame.frame.reader = some message)
      (hid : message.operationId = i.signatureTime) :
      Accurate ((onPending (p.handleNewOperation op) >>= fun _ => pure block :
        Action (CommitState DirectoryChainStore) EngineError PendingBlock) s).2.pendingStore
          blocks := by
    have hstored : Accurate (onPending (p.handleNewOperation op) s).2.pendingStore blocks := by
      rw [onPending_pendingStore]
      apply handleNewOperation_accurate p op _ blocks h
      intro reader hr
      rw [hreader] at hr
      rw [← Option.some.inj hr, hid]
      exact hnew
    refine Action.bind_keeps_snd (fun st => Accurate st.pendingStore blocks)
      (onPending (p.handleNewOperation op)) (fun _ => pure block) s hstored ?_
    intro _
    exact hstored
  rcases signNextBlock_cases m p i pb next s with
    hsame | ⟨hsignature, hrefusal, ⟨e, -, herror⟩ | ⟨sign, -, hanswer⟩⟩
  · rw [hsame]
    exact h
  · rw [herror]
    exact h
  · rw [hanswer, putAnswer]
    have hnew := htime hsignature hrefusal
    rcases Action.lift_bind_cases (createAnswer m i sign next)
      (fun r => onPending (p.handleNewOperation r.1) >>= fun _ => pure r.2) s with
        ⟨e, -, hres⟩ | ⟨⟨op, block⟩, hcreate, hres⟩
    · rw [hres]
      exact h
    · rw [hres]
      cases sign with
      | true =>
        obtain ⟨hreader, -⟩ := createBlockSignature_eq_ok hread _ hnode _ _ _ _ hcreate
        exact hput hnew op block _ hreader rfl
      | false =>
        obtain ⟨hreader, -⟩ := createBlockRefusal_eq_ok hread _ hnode _ _ _ _ hcreate
        exact hput hnew op block _ hreader rfl

theorem maybeProposeBlock_accurate (hread : OperationsReadBack) (m : CommitManager)
    (p : PendingSynchronizer) (i : TickInput) (pb : PendingBlocks)
    (s : CommitState DirectoryChainStore) (blocks : List DataBlock)
    (h : Accurate s.pendingStore blocks) (htime : NotIn blocks i.proposalTime) :
    Accurate (m.maybeProposeBlock p i pb s).2.pendingStore blocks := by
  rw [CommitManager.maybeProposeBlock, Action.get_bind]
  rcases Action.lift_bind_cases (m.shouldProposeBlock i s.chainStore pb)
    (fun should => if should then m.proposeBlock p i pb else pure ()) s with
      ⟨e, -, hres⟩ | ⟨should, -, hres⟩
  · rw [hres]
    exact h
  rw [hres]
  split_ifs
  · rw [CommitManager.proposeBlock, Action.get_bind]
    cases hbuild : m.buildProposal i pb s.pendingStore s.chainStore with
    | error e => exact h
    | ok operation =>
      rw [Action.lift_ok_bind]
      cases operation with
      | none => exact h
      | some operation =>
        simp only
        rw [onPending_pendingStore]
        apply handleNewOperation_accurate p operation _ blocks h
        intro reader hreader
        obtain ⟨message, hmessage, htime'⟩ := buildProposal_reader hread m i pb _ _ _ hbuild
        rw [hmessage] at hreader
        rw [← Option.some.inj hreader, htime']
        exact htime
  · exact h

/-- The cleanup only deletes. -/
theorem maybeCleanupPendingStore_accurate (m : CommitManager) (i : TickInput) (pb : PendingBlocks)
    (s : CommitState DirectoryChainStore) (blocks : List DataBlock)
    (h : Accurate s.pendingStore blocks) :
    Accurate (m.maybeCleanupPendingStore i pb s).2.pendingStore blocks := by
  obtain ⟨ids, hids⟩ := (maybeCleanupPendingStore_onlyDeletes m i pb s).pendingStore
  rw [hids]
  clear hids
  generalize s.pendingStore = store at h
  induction ids generalizing store with
  | nil => exact h
  | cons id rest ih => exact ih _ (h.delete id)

/-- A block that is written at the end of the chain has these operations, and they are new. -/
structure WritesMarked (blocks : List DataBlock) (ids : List ℕ) (b : DataBlock) : Prop where
  wellFormed : WellFormed b
  atEnd : b.offset = endOf blocks
  contains : ∀ id, id ∈ ids ↔ Contains b id
  new : ∀ id ∈ ids, NotIn blocks id

/-- A commit adds a block and marks its operations, or fails and leaves both as they are. -/
theorem commitBlock_marked (m : CommitManager) (block : PendingBlock)
    (s : CommitState DirectoryChainStore) (blocks : List DataBlock)
    (hs : Marks s.pendingStore s.chainStore blocks)
    (hbuilt : ∀ b header ops, Builds m.cell block s.pendingStore s.chainStore b header ops →
      b.offset = header.offset ∧
      (AcceptsOffset s.chainStore b.totalSize b.offset (endOf blocks) →
        WritesMarked blocks block.operations b)) :
    (m.commitBlock block s).2.Marked := by
  rw [CommitManager.commitBlock, Action.get_bind]
  cases hbuild : buildChainBlock m.cell block s.pendingStore s.chainStore with
  | error e => exact ⟨blocks, hs⟩
  | ok r =>
    obtain ⟨b, header, ops⟩ := r
    have hbuilds := (buildChainBlock_eq_ok_iff _ _ _ _ _ _ _).mp hbuild
    obtain ⟨hoff, hmarked⟩ := hbuilt b header ops hbuilds
    simp only [Action.lift_ok_bind]
    by_cases haccepts : AcceptsOffset s.chainStore b.totalSize b.offset (endOf blocks)
    · obtain ⟨hwf, hat, hids, hnew⟩ := hmarked haccepts
      obtain ⟨chain', hwrite, hholds⟩ := writeBlock_holds True s.chainStore blocks b hs.holds
        hwf.toFramed hwf.indexable hat fun seg hseg _ => hs.inStep seg hseg
      have hstep := writeBlock_inStep True s.chainStore blocks b hs.holds hs.inStep
      have hstore : ChainStore.writeBlock s.chainStore b = (.ok b.nextOffset, chain') := hwrite
      rw [hwrite] at hstep
      have hheight : b.getHeight = .ok header.height := by
        simp only [DataBlock.getHeight, DataBlock.headerReader, hbuilds.reader, orError_some,
          ok_bind, pure, Except.pure]
      have hheaders := mem_headers_iff s.pendingStore block.operations ops hbuilds.present
        hbuilds.operations
      obtain ⟨store', hupdate, hget⟩ := updateCommitStatuses_eq
        (.committed block.proposal.offset header.height)
        (ops.headers.map BlockOperationHeader.operationId) { s with chainStore := chain' } (by
          intro id hid
          exact hbuilds.present id ((hheaders id).mp hid))
      rw [hstore]
      simp only
      rw [Action.bind_apply, Action.set_apply]
      simp only
      rw [Action.bind_of_ok _ _ _ _ _ hupdate]
      refine ⟨blocks ++ [b], hholds, hstep, ?_⟩
      rw [← hbuilds.offset] at hget
      apply hs.accurate.commit b header.height hheight _ hget
      · intro id
        rw [hheaders, hids]
      · intro id hid
        exact hnew id ((hheaders id).mp hid)
    · obtain ⟨⟨e, hfails⟩, hholds⟩ := writeBlock_rejects True s.chainStore blocks b header hs.holds
        hbuilds.reader hoff haccepts
      have hstep := writeBlock_inStep True s.chainStore blocks b hs.holds hs.inStep
      have hstore : ChainStore.writeBlock s.chainStore b =
          (.error e, (s.chainStore.writeBlock b).2) := Prod.ext hfails rfl
      have hmarks : Marked s.pendingStore (s.chainStore.writeBlock b).2 :=
        ⟨blocks, hholds, hstep, hs.accurate⟩
      rw [hstore]
      cases e with
      | panic => exact hmarks
      | error e => cases e <;> exact hmarks

/-- No block that the chain iterates over has the operation. -/
def NewToChain (chain : DirectoryChainStore) (id : ℕ) : Prop :=
  ∀ b, .ok b ∈ chain.blocksIter 0 → ¬ Contains b id

theorem Marks.notIn {store : MemoryPendingStore} {chain : DirectoryChainStore}
    {blocks : List DataBlock} (h : Marks store chain blocks) {id : ℕ} (hid : NewToChain chain id) :
    NotIn blocks id := by
  intro b hb
  apply hid b
  rw [(storeHolds_readsAs _ _ _ h.holds).iter]
  exact List.mem_map.mpr ⟨b, hb, rfl⟩

/-- What a tick relies on to mark the operations of the block that it commits, and no other. -/
structure TickMarks (m : CommitManager) (i : TickInput) (s : CommitState DirectoryChainStore) :
    Prop where
  fits : TickFits m i s
  /-- The header of a candidate that is written lists all of its operations: its group has one
  proposal. -/
  lists : ∀ pb next frame header, bestNextBlock m i s = some (pb, next) →
    next.proposal.getBlock = .ok frame → frame.reader = some header →
    MayWrite m i s pb next frame header → ∀ id ∈ next.operations,
      ∃ hs, header.operationsHeader = some hs ∧ ∃ x ∈ hs, x.operationId = id
  /-- A signature or a refusal is made for a candidate without either, and a proposal where there is
  no candidate. -/
  signatureTime : ∀ pb next, bestNextBlock m i s = some (pb, next) → next.hasMySignature = false →
    next.hasMyRefusal = false → NewToChain s.chainStore i.signatureTime
  proposalTime : bestNextBlock m i s = none → NewToChain s.chainStore i.proposalTime

/-- One tick: the operations of the block that it commits are marked, the operations that it
makes are not in the chain, and the cleanup only deletes. -/
theorem tick_marked (hread : OperationsReadBack) (hsigs : SignaturesReadBack)
    (hsize : SignaturesSizeFits) (m : CommitManager) (p : PendingSynchronizer) (i : TickInput)
    (hnode : NodeIdReadsBack m.cell.localNode) (s : CommitState DirectoryChainStore)
    (hs : s.Marked) (hfits : TickMarks m i s) : (m.tick p i s).2.Marked := by
  obtain ⟨blocks, hs⟩ := hs
  have hclean : ∀ (pb : PendingBlocks) (st : CommitState DirectoryChainStore), st.Marked →
      (m.maybeCleanupPendingStore i pb st).2.Marked := by
    rintro pb st ⟨blocks, hst⟩
    have hchain := maybeCleanupPendingStore_keepsChain m i pb st
    refine ⟨blocks, ?_, ?_, maybeCleanupPendingStore_accurate m i pb st blocks hst.accurate⟩
    · rw [hchain]
      exact hst.holds
    · rw [hchain]
      exact hst.inStep
  rw [CommitManager.tick, Action.get_bind]
  cases hnew : PendingBlocks.new m.config i.now m.cell s.pendingStore s.chainStore with
  | error e => exact ⟨blocks, hs⟩
  | ok pb =>
    simp only [Action.lift_ok_bind]
    cases hpot : pb.potentialNextBlocks i.blocksOrder i.sorter with
    | error e => exact ⟨blocks, hs⟩
    | ok potential =>
      simp only [Action.lift_ok_bind]
      cases potential with
      | nil =>
        have hnone : bestNextBlock m i s = none := by
          simp only [bestNextBlock, hnew, hpot, List.head?_nil, Option.map_none]
        have hpropose : (m.maybeProposeBlock p i pb s).2.Marked := by
          have hchain := maybeProposeBlock_keepsChain m p i pb s
          refine ⟨blocks, ?_, ?_, maybeProposeBlock_accurate hread m p i pb s blocks hs.accurate
            (hs.notIn (hfits.proposalTime hnone))⟩
          · rw [hchain]
            exact hs.holds
          · rw [hchain]
            exact hs.inStep
        exact Action.bind_keeps_snd CommitState.Marked _ _ s hpropose
          fun _ => hclean pb _ hpropose
      | cons next rest =>
        simp only [List.head?_cons]
        obtain ⟨hbest, -⟩ := bestNextBlock_eq m i s pb next rest hnew hpot
        have hsigned : Marks (m.signNextBlock p i pb next s).2.pendingStore
            (m.signNextBlock p i pb next s).2.chainStore blocks := by
          rw [signNextBlock_keepsChain m p i pb next s]
          exact ⟨hs.holds, hs.inStep, signNextBlock_accurate hread m p hnode i pb next s blocks
            hs.accurate fun hunsigned hunrefused =>
              hs.notIn (hfits.signatureTime pb next hbest hunsigned hunrefused)⟩
        apply Action.bind_keeps CommitState.Marked _ _ s ⟨blocks, hsigned⟩
        intro signed s₁ hsign
        have hkeep := signNextBlock_keepsChain m p i pb next s
        rw [hsign] at hsigned hkeep
        have hkeep' : s₁.chainStore = s.chainStore := hkeep
        have hcommit : (m.maybeCommitBlock signed s₁).2.Marked := by
          rw [CommitManager.maybeCommitBlock]
          split_ifs with hcommits
          · rw [Bool.and_eq_true] at hcommits
            apply commitBlock_marked m signed s₁ blocks hsigned
            intro b header ops hbuilds
            rw [hkeep'] at hbuilds ⊢
            obtain ⟨-, hproposal, hoperations⟩ :=
              signNextBlock_same hread m p hnode i pb next signed s s₁ hsign
            obtain ⟨hbuilt, hwrites⟩ := tick_writesNew hread hsigs hsize m p hnode i pb next signed
              rest s s₁ b header ops hnew hpot hsign hcommits.1 hcommits.2 hbuilds blocks hs.holds
              hfits.fits
            refine ⟨hbuilt.offset, fun haccepts => ?_⟩
            obtain ⟨hmay, hwell, hat, hheader, hids⟩ := hwrites haccepts
            rw [hoperations]
            refine ⟨hwell, hat, ?_, fun id hid =>
              not_contains_of_none s.chainStore blocks hs.holds id (hids id hid)⟩
            intro id
            rw [builds_contains_iff _ _ _ _ _ _ _ hbuilds (by rw [hoperations]; exact hheader) id]
            constructor
            · exact hfits.lists pb next b.header header hbest
                (by rw [← hproposal]; exact hbuilds.frame) hbuilds.reader hmay id
            · rintro ⟨hs, hhs, x, hx, rfl⟩
              exact hbuilt.listed hs hhs x hx
          · exact ⟨blocks, hsigned⟩
        exact Action.bind_keeps_snd CommitState.Marked _ _ s₁ hcommit
          fun _ => hclean _ _ hcommit

end Ticks

end Exocore.Engine
