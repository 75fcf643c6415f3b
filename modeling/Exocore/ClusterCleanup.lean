import Exocore.ClusterTick

/-! The cleanup at the end of a tick of a node of a cluster: it deletes entries, and proposals that
the chain has passed. -/
namespace Exocore.Engine

open Exocore.Core Exocore.Chain Exocore.Pending Ballots SortedMap

section Deleted
variable [Crates] {c : Cluster} {n : NodeId} {created : Set OperationFrame}
  {store : MemoryPendingStore} {chain : DirectoryChainStore} {blocks : List DataBlock}

/-- What was created and is in the chain is an entry, or the proposal of a block of it. -/
theorem disposable_of_found (hl : Ledger c created) (h : NodeSound c created n store chain blocks)
    (f : OperationFrame) (hf : f ∈ created) (b : DataBlock) (hb : b ∈ blocks)
    (hid : HasOperation b (frameId f)) : Disposable created blocks (frameId f) := by
  have hlinked := h.toHoldsFramed.linked
  have hpos := (h.toHoldsFramed.framed b hb).totalSize_pos
  obtain ⟨own, rfl, hown⟩ := h.composed
  rcases List.mem_append.mp hb with hinitial | hmine
  · exact absurd hid (hl.notInitial f hf b hinitial)
  obtain ⟨P, p, header, entries, hcertified⟩ := hown b hmine
  rcases hcertified.operations _ hid with hp | ⟨e, he, heid⟩
  · obtain rfl := hl.unique f hf P hcertified.mem (by rw [hp, hcertified.proposes.frameId_eq])
    have hlt := (linked_offset_lt _ b 0 _ hlinked hb hpos).2.1
    refine ⟨f, hf, rfl, Or.inr ⟨p, b.header, header, hcertified.proposes, ?_⟩⟩
    rw [← hcertified.offset]
    exact hlt
  · obtain ⟨hcreated, hentry⟩ := hcertified.built.created e he
    exact ⟨e, hcreated, heid, Or.inl hentry⟩

/-- What goes with a proposal that the chain has passed: the proposal, and its entries. -/
theorem disposable_cleanupIds (hl : Ledger c created) {pb : PendingBlocks}
    (hpast : PastBelow created blocks pb) (m : CommitManager) (lastHeight g : ℕ)
    (block : PendingBlock) (hg : pb.blocks.get g = some block) (id : ℕ)
    (hid : id ∈ cleanupIds m lastHeight block) : Disposable created blocks id := by
  obtain ⟨hclean, hkind⟩ := (mem_cleanupIds_iff m lastHeight block id).mp hid
  obtain ⟨f, frame, header, hreads, hgroup, hlt⟩ := hpast g block hg hclean.past
  rcases hkind with rfl | ⟨-, hlisted⟩
  · rw [hgroup]
    exact ⟨f, hreads.mem, hreads.proposes.frameId_eq, Or.inr ⟨g, frame, header, hreads.proposes, hlt⟩⟩
  · obtain ⟨entries, hbuilt⟩ := hl.built f hreads.mem g frame header hreads.proposes
    rw [hreads.operations, hbuilt.listed, Option.getD_some, positions_ids] at hlisted
    obtain ⟨e, he, rfl⟩ := List.mem_map.mp hlisted
    obtain ⟨hcreated, hentry⟩ := hbuilt.created e he
    exact ⟨e, hcreated, rfl, Or.inl hentry⟩

/-- The second pass deletes operations of the store that blocks of the chain have. -/
theorem cleanupDangling_store (m : CommitManager) (i : TickInput) (pb : PendingBlocks)
    (s : CommitState DirectoryChainStore) (lastHeight : ℕ)
    (hchain : StoreHolds True s.chainStore blocks) :
    ∃ ids : List ℕ, (∀ t ∈ ids, (s.pendingStore.getOperation t).isSome ∧
        ∃ b ∈ blocks, HasOperation b t) ∧
      (m.cleanupDangling i pb lastHeight s).2.pendingStore =
        ids.foldl MemoryPendingStore.deleteOperation s.pendingStore := by
  rw [CommitManager.cleanupDangling]
  by_cases happrox : 0 < pb.entriesOperationsCount - pb.operationsBlocks.size
  · rw [if_pos happrox, Action.get_bind, s.pendingStore.operationsIter_unbounded]
    simp only [liftError_ok, Action.lift_ok_bind]
    obtain ⟨hpanic, hok⟩ := danglingOperations_eq m i pb s.chainStore blocks hchain lastHeight
      s.pendingStore.operations
    by_cases hpanics : ∃ op ∈ s.pendingStore.operations,
        DepthPanics i pb s.chainStore lastHeight op.operationId
    · rw [hpanic hpanics]
      exact ⟨[], by simp, rfl⟩
    · obtain ⟨ids, hids, hmem⟩ := hok (by simpa using hpanics)
      rw [hids]
      simp only [Action.lift_ok_bind, deleteOperations_eq]
      refine ⟨ids, ?_, rfl⟩
      intro t ht
      obtain ⟨⟨-, b, height, depth, hfound, -⟩, hthere⟩ := (hmem t).mp ht
      refine ⟨(exists_operation_iff s.pendingStore t).mp hthere, ?_⟩
      rcases found_cases s.chainStore blocks hchain t with hnone | ⟨b', -, hb', hid, -⟩
      · rw [hfound.1] at hnone
        exact absurd (Except.ok.inj hnone) (by simp)
      · exact ⟨b', hb', hid⟩
  · rw [if_neg happrox]
    exact ⟨[], by simp, rfl⟩

/-- The cleanup keeps the groups of the proposals that the chain has not passed. -/
theorem cleanup_keepsLive (hl : Ledger c created) (m : CommitManager) (i : TickInput)
    {pb : PendingBlocks} (s : CommitState DirectoryChainStore)
    (h : NodeSound c created n s.pendingStore s.chainStore blocks)
    (hpast : PastBelow created blocks pb)
    (hreads : ∀ g block, pb.blocks.get g = some block →
      (headerOf block.proposal.operation).isSome) :
    KeepsLive created blocks s.pendingStore (m.maybeCleanupPendingStore i pb s).2.pendingStore ∧
      StoredIn (m.maybeCleanupPendingStore i pb s).2.pendingStore created := by
  have hgetLast := h.toHoldsFramed.getLastBlock
  cases hlast : blocks.getLast? with
  | none =>
    rw [hlast] at hgetLast
    have hnone : ChainStore.getLastBlock s.chainStore = .ok none := hgetLast
    rw [CommitManager.maybeCleanupPendingStore, Action.get_bind, hnone]
    exact ⟨.refl _, h.stored⟩
  | some tip =>
    rw [hlast] at hgetLast
    obtain ⟨height, hheight⟩ :=
      framed_getHeight tip (h.toHoldsFramed.framed tip (List.mem_of_getLast? hlast))
    obtain ⟨heq, hchain, hstore⟩ :=
      maybeCleanupPendingStore_eq m i pb s tip height hgetLast hheight hreads
    have hfirst := deleteAll_keepsLive hl
      ((pb.inOrder i.blocksOrder).flatMap (cleanupIds m height)) (by
        intro id hid
        obtain ⟨g, block, hg, ht⟩ := (mem_targets_iff m pb i.blocksOrder height id).mp hid
        exact disposable_cleanupIds hl hpast m height g block hg id ht) s.pendingStore h.stored
    rw [← hstore] at hfirst
    have hholds : StoreHolds True
        (m.cleanupBlocks height (pb.inOrder i.blocksOrder) s).2.chainStore blocks := by
      rw [hchain]
      exact h.holds
    obtain ⟨ids, hids, hdangling⟩ := cleanupDangling_store m i pb _ height hholds
    have hsecond := deleteAll_keepsLive hl ids (by
      intro id hid
      obtain ⟨hsome, b, hb, hin⟩ := hids id hid
      obtain ⟨op, hop⟩ := Option.isSome_iff_exists.mp hsome
      obtain ⟨hframe, rfl⟩ := getOperation_frame _ id op hop
      exact disposable_of_found hl h op.frame (hfirst.2 _ _ _ hframe) b hb hin) _ hfirst.2
    rw [heq, hdangling]
    exact ⟨hfirst.1.trans hsecond.1, hsecond.2⟩

end Deleted

section Ticks
variable [Crates] {c : Cluster} {n : NodeId} {cs : ClusterState} {blocks : List DataBlock}
  {i : TickInput}

/-- A tick creates what it has put before its cleanup, and keeps what holds of the cluster. -/
theorem tick_advances (hread : OperationsReadBack) (hh : HeadersReadBack)
    (hsigs : SignaturesReadBack) (hsize : SignaturesSizeFits) (hl : Ledger c cs.made)
    (h : NodeSound c cs.made n (cs.node n).pendingStore (cs.node n).chainStore blocks)
    (hn : n ∈ c.members) (hnode : NodeIdReadsBack n)
    (hfollows : ∀ f ∈ cs.made, ∀ p frame header, Proposes f p frame header →
      ∃ m store chain bs, NodeSound c cs.made m store chain bs ∧ FollowsIn bs header)
    (hallowed : c.TickAllowed cs n i) :
    ∃ created' blocks' chain', Advances c n cs.made blocks created'
        ((c.engine n).storeBeforeCleanup (cs.node n) (.commitTick i)) chain' blocks' ∧
      NodeSound c created' n ((c.engine n).step (cs.node n) (.commitTick i)).pendingStore
        ((c.engine n).step (cs.node n) (.commitTick i)).chainStore blocks' := by
  obtain ⟨created', blocks', hadvances, hpast⟩ :=
    beforeCleanup_advances hread hh hsigs hsize hl h hn hnode hfollows hallowed
  refine ⟨created', blocks', _, hadvances, ?_⟩
  rw [Inner.step, node_call_pendingStore, node_call_chainStore, Inner.action, tick_eq_cleanup]
  rcases Action.bind_cases ((c.engine n).commitManager.beforeCleanup
    (c.engine n).pendingSynchronizer i) ((c.engine n).commitManager.maybeCleanupPendingStore i)
    (cs.node n).state with ⟨e, s', hx, hres⟩ | ⟨pb, s', hx, hres⟩
  · rw [hres]
    rw [hx] at hadvances
    exact hadvances.sound
  · rw [hx] at hadvances hpast
    obtain ⟨hkeeps, hstored⟩ := cleanup_keepsLive hadvances.ledger (c.engine n).commitManager i s'
      hadvances.sound (hpast pb rfl) fun g block hg => beforeCleanup_reads _ _ _ _ _ _ hx g block hg
    rw [hres, maybeCleanupPendingStore_keepsChain]
    exact hadvances.sound.restore hkeeps hstored

end Ticks

end Exocore.Engine
