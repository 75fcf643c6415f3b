import Exocore.CommitPanic

/-! Operations and groups of the pending store that stop a tick of the commit manager, and the
ticks that none stops. -/
namespace Exocore.Engine

open Exocore.Core Exocore.Chain Exocore.Pending SortedMap

section Stops
variable [Crates] {CS : Type} [ChainStore CS] (m : CommitManager) (p : PendingSynchronizer)
  (i : TickInput)

/-- Whether the scan gets through the group. -/
def scansGroup (s : CommitState CS) (expectedNextOffset groupId : ℕ) : Bool :=
  match readBlocks m.config i.now m.cell s.pendingStore s.chainStore expectedNextOffset [groupId]
      .empty with
  | .ok _ => true
  | .error _ => false

/-- The pending blocks of the groups that read: a scan that would skip the others. -/
def readableBlocks (s : CommitState CS) : Res EngineError PendingBlocks := do
  let lastBlock ← liftError .chainStore (ChainStore.getLastBlock s.chainStore)
  let last ← orError .uninitializedChain lastBlock
  let operations ← liftError .pendingStore (s.pendingStore.operationsIter .unbounded .unbounded)
  let proposals := operations.filter fun op => op.operationType = .blockPropose
  let entries := operations.filter fun op => op.operationType = .entry
  let blocks ← readBlocks m.config i.now m.cell s.pendingStore s.chainStore last.nextOffset
    ((proposals.map StoredOperation.operationId).filter (scansGroup m i s last.nextOffset)) .empty
  pure ⟨blocks, mapBlocksStatus blocks, mapOperationsBlocks blocks, entries.length⟩

/-- What a tick does with the best of the next blocks. -/
def handleNext (pb : PendingBlocks) (next : PendingBlock) :
    Action (CommitState CS) EngineError PendingBlock := do
  let signed ← m.signNextBlock p i pb next
  m.maybeCommitBlock signed
  pure signed

/-- The best of the next blocks that the readable groups hold, signed or refused, and committed
where it has its quorum. -/
structure Handled (s : CommitState CS) (pb : PendingBlocks) (signed : PendingBlock)
    (s₁ : CommitState CS) : Prop where
  readable : readableBlocks m i s = .ok pb
  handled : ∃ next rest, pb.potentialNextBlocks i.blocksOrder i.sorter = .ok (next :: rest) ∧
    handleNext m p i pb next s = (.ok signed, s₁)

/-- The tick does not panic, and a candidate of a readable group that is to be signed or committed
is: the tick goes on to its clean up from there. -/
structure NotStopped (s : CommitState CS) : Prop where
  noPanic : NoPanic (m.tick p i s).1
  candidate : ∀ pb signed s₁, Handled m p i s pb signed s₁ →
    s₁.syncContext.events ≠ s.syncContext.events →
    m.tick p i s = m.maybeCleanupPendingStore i (pb.setBlock signed) s₁

/-- A scan that ends with an error ends the tick with it. -/
theorem tick_of_scan_error (s : CommitState CS) (e : Fault EngineError)
    (h : PendingBlocks.new m.config i.now m.cell s.pendingStore s.chainStore = .error e) :
    m.tick p i s = (.error e, s) := by
  rw [CommitManager.tick, Action.get_bind, h]
  rfl

/-- A tick that stops at the scan leaves a candidate of a readable group as it was. -/
theorem scan_error_stops (s : CommitState CS) (e : Fault EngineError)
    (h : PendingBlocks.new m.config i.now m.cell s.pendingStore s.chainStore = .error e)
    (pb : PendingBlocks) (signed : PendingBlock) (s₁ : CommitState CS)
    (hhandled : Handled m p i s pb signed s₁)
    (hevents : s₁.syncContext.events ≠ s.syncContext.events) : ¬ NotStopped m p i s := by
  intro hnot
  have htick := hnot.candidate pb signed s₁ hhandled hevents
  rw [tick_of_scan_error m p i s e h] at htick
  have hkeep := (maybeCleanupPendingStore_onlyDeletes m i (pb.setBlock signed) s₁).events
  rw [← htick] at hkeep
  exact hevents hkeep.symm

/-- Where the scan ends well and there is a candidate, the tick goes on with it. -/
theorem tick_of_candidate (s : CommitState CS) (pb : PendingBlocks) (next : PendingBlock)
    (rest : List PendingBlock)
    (hnew : PendingBlocks.new m.config i.now m.cell s.pendingStore s.chainStore = .ok pb)
    (hpot : pb.potentialNextBlocks i.blocksOrder i.sorter = .ok (next :: rest)) :
    m.tick p i s = (handleNext m p i pb next >>= fun signed =>
      m.maybeCleanupPendingStore i (pb.setBlock signed)) s := by
  rw [CommitManager.tick, Action.get_bind, hnew]
  simp only [Action.lift_ok_bind, hpot, List.head?_cons, handleNext]
  have hrest (signed : PendingBlock) : ((do
      m.maybeCommitBlock signed
      pure signed : Action (CommitState CS) EngineError PendingBlock) >>= fun signed =>
        m.maybeCleanupPendingStore i (pb.setBlock signed)) = (do
      m.maybeCommitBlock signed
      m.maybeCleanupPendingStore i (pb.setBlock signed)) := Action.bind_assoc _ _ _
  rw [Action.bind_assoc]
  simp only [hrest]

end Stops

section Fits
variable [Crates]

/-- The tick looks at the block before its candidate: to sign it, or to commit it. -/
inductive LooksBack (m : CommitManager) (i : TickInput) (s : CommitState DirectoryChainStore)
    (pb : PendingBlocks) (next : PendingBlock) (header : BlockHeader) : Prop where
  | signs (unsigned : next.hasMySignature = false) (unrefused : next.hasMyRefusal = false)
      (clear : checkOperations pb s.chainStore i.operationBlocksOrder next.operations = .ok true)
  | commits (gets : GetsQuorum m i s pb next)
      (hash : HashFits s.pendingStore next.operations header)

/-- What a tick relies on in the best of the next blocks, not to panic on it. -/
structure CandidateReads (m : CommitManager) (i : TickInput) (s : CommitState DirectoryChainStore)
    (pb : PendingBlocks) (next : PendingBlock) (frame : BlockHeaderFrame) (header : BlockHeader) :
    Prop where
  previous : LooksBack m i s pb next header → PreviousAnswers s.chainStore header
  /-- The clock gives an id that a block which is signed now does not list. -/
  clock : GetsQuorum m i s pb next → next.hasMySignature = false →
    i.signatureTime ∉ next.operations
  /-- A block that is built for the end of the chain is as long as its header says, and lists
  ranges inside of its data. -/
  written : GetsQuorum m i s pb next →
    PassesChecks m.cell (withMySignature m next) s.pendingStore s.chainStore header →
    (∀ tip, s.chainStore.getLastBlock = .ok (some tip) → header.offset = tip.nextOffset) →
    (∃ n, SizedBy frame.wholeData n) ∧
      header.operationsSize = (framesData (storedFrames s.pendingStore next.operations)).length ∧
      ∀ hs, header.operationsHeader = some hs →
        IterInside (framesData (storedFrames s.pendingStore next.operations)) hs

/-- Heights at which the chain may end when the tick cleans up: that of its last block, or that of
the candidate that is written. -/
inductive EndsAt (m : CommitManager) (i : TickInput) (s : CommitState DirectoryChainStore) : ℕ → Prop
  | stays (tip : DataBlock) (height : ℕ) (last : s.chainStore.getLastBlock = .ok (some tip))
      (reads : tip.getHeight = .ok height)
      (leaves : ∀ pb next, bestNextBlock m i s = some (pb, next) → ¬ GetsQuorum m i s pb next) :
      EndsAt m i s height
  | grows (pb : PendingBlocks) (next : PendingBlock) (frame : BlockHeaderFrame)
      (header : BlockHeader) (best : bestNextBlock m i s = some (pb, next))
      (block : next.proposal.getBlock = .ok frame) (reads : frame.reader = some header)
      (gets : GetsQuorum m i s pb next)
      (passes : PassesChecks m.cell (withMySignature m next) s.pendingStore s.chainStore header) :
      EndsAt m i s header.height

/-- The operations that the pending store may have when the tick cleans up: those it had, and the
signature, the refusal or the proposal of the tick. -/
def MayStore (m : CommitManager) (i : TickInput) (s : CommitState DirectoryChainStore) (id : ℕ) :
    Prop :=
  (s.pendingStore.getOperation id).isSome ∨
    (∃ pb next, bestNextBlock m i s = some (pb, next) ∧ next.hasMySignature = false ∧
      next.hasMyRefusal = false ∧ id = i.signatureTime) ∨
    (bestNextBlock m i s = none ∧ id = i.proposalTime)

/-- A pending store that does not stop the tick. -/
structure PendingFits (m : CommitManager) (i : TickInput) (s : CommitState DirectoryChainStore)
    (blocks : List DataBlock) : Prop where
  groups : GroupsRead s.pendingStore s.chainStore
  /-- Not two candidates with our signature, of which each is to come before the other. -/
  oneSigned : ∀ pb, PendingBlocks.new m.config i.now m.cell s.pendingStore s.chainStore = .ok pb →
    ∀ b ∈ pb.blocks.values, ∀ c ∈ pb.blocks.values, b.status = .nextPotential →
      c.status = .nextPotential → b.hasMySignature = true → c.hasMySignature = true → b = c
  candidate : ∀ pb next frame header, bestNextBlock m i s = some (pb, next) →
    next.proposal.getBlock = .ok frame → frame.reader = some header →
    CandidateReads m i s pb next frame header
  /-- Heights are subtracted, where there are more entries than listed operations, for what is in
  the chain and in no proposal. -/
  heights : i.overflowChecks = true → ∀ pb,
    PendingBlocks.new m.config i.now m.cell s.pendingStore s.chainStore = .ok pb →
    pb.operationsBlocks.size < pb.entriesOperationsCount → ∀ id,
    pb.operationsBlocks.get id = none → MayStore m i s id → ∀ b ∈ blocks, HasOperation b id →
    ∀ height, b.getHeight = .ok height → ∀ last, EndsAt m i s last → height ≤ last
  /-- The operations of a proposal fit in a header. -/
  few : bestNextBlock m i s = none → ∀ pb,
    PendingBlocks.new m.config i.now m.cell s.pendingStore s.chainStore = .ok pb →
    m.shouldProposeBlock i s.chainStore pb = .ok true →
    (s.pendingStore.operations.filter fun op => op.operationType = .entry).length < 2^27

variable (m : CommitManager) (p : PendingSynchronizer) (i : TickInput)
  {s : CommitState DirectoryChainStore} {blocks : List DataBlock} {pb : PendingBlocks}

theorem proposal_headerOf (hblocks : BlocksOf m.config i.now m.cell s.pendingStore s.chainStore pb)
    (g : ℕ) (block : PendingBlock) (hg : pb.blocks.get g = some block) :
    (headerOf block.proposal.operation).isSome := by
  obtain ⟨last, -, hof⟩ := hblocks.last
  obtain ⟨ops, -, -, -, -, op, -, hop, header, hheader, -⟩ := (hof g block hg).group
  rw [hop, hheader]
  rfl

/-- The scan that skips unreadable groups skips none where they all read. -/
theorem readableBlocks_eq (last : DataBlock) (hlast : s.chainStore.getLastBlock = .ok (some last))
    (hnew : PendingBlocks.new m.config i.now m.cell s.pendingStore s.chainStore = .ok pb) :
    readableBlocks m i s = .ok pb := by
  have hgroups := (pendingBlocks_new_isOk_iff m.config i.now m.cell s.chainStore s.pendingStore last
    hlast).mp ⟨pb, hnew⟩
  have hlast' : ChainStore.getLastBlock s.chainStore = .ok (some last) := hlast
  have hall : ((s.pendingStore.operations.filter fun op => op.operationType = .blockPropose).map
      StoredOperation.operationId).filter (scansGroup m i s last.nextOffset) =
      (s.pendingStore.operations.filter fun op => op.operationType = .blockPropose).map
        StoredOperation.operationId := by
    rw [List.filter_eq_self]
    intro g hg
    obtain ⟨op, hop, rfl⟩ := List.mem_map.mp hg
    obtain ⟨hmem, htype⟩ := List.mem_filter.mp hop
    obtain ⟨blocks', hread⟩ := (readBlocks_isOk_iff m.config i.now m.cell s.chainStore
      last.nextOffset s.pendingStore [op.operationId] .empty).mpr (by
        intro g hg ops hops
        obtain rfl := List.mem_singleton.mp hg
        exact hgroups _ op ops ((s.pendingStore.mem_operations_iff op).mp hmem)
          (of_decide_eq_true htype) hops)
    rw [scansGroup, hread]
  simp only [PendingBlocks.new, readableBlocks, s.pendingStore.operationsIter_unbounded, hlast',
    liftError_ok, orError_some, ok_bind,
    hall] at hnew ⊢
  exact hnew

omit m p in
theorem not_depthPanics (chain : DirectoryChainStore) (hholds : StoreHolds True chain blocks)
    (lastHeight id : ℕ) (h : i.overflowChecks = true → pb.operationsBlocks.get id = none →
      ∀ b ∈ blocks, HasOperation b id → ∀ height, b.getHeight = .ok height → height ≤ lastHeight) :
    ¬ DepthPanics i pb chain lastHeight id := by
  rintro ⟨hnone, b, height, hfound, hpanic⟩
  have hlow : ¬ height ≤ lastHeight := by
    intro hle
    rw [blockDepth, if_pos hle] at hpanic
    contradiction
  have hchecks : i.overflowChecks = true := by
    by_contra hoff
    rw [blockDepth, if_neg hlow, if_neg hoff] at hpanic
    contradiction
  rcases getBlockByOperationId_eq chain blocks hholds id with ⟨b', hb', hid, hget⟩ | ⟨-, hget⟩
  · have hsame := hget.symm.trans hfound.1
    obtain rfl := Option.some.inj (Except.ok.inj hsame)
    exact hlow (h hchecks hnone b' hb' hid height hfound.2)
  · have hsame := hget.symm.trans hfound.1
    exact absurd (Except.ok.inj hsame) (by simp)

/-- The clean up, where the chain ends at a height that the tick may leave it at, and its blocks are
those from before the tick and the one that was written. -/
theorem noPanic_cleanup (hfits : PendingFits m i s blocks)
    (hnew : PendingBlocks.new m.config i.now m.cell s.pendingStore s.chainStore = .ok pb)
    (pb' : PendingBlocks) (hsame : pb'.operationsBlocks = pb.operationsBlocks)
    (hcount : pb'.entriesOperationsCount = pb.entriesOperationsCount)
    (hreads : ∀ g block, pb'.blocks.get g = some block →
      (headerOf block.proposal.operation).isSome)
    (s₁ : CommitState DirectoryChainStore) (written : List DataBlock)
    (hholds : StoreHolds True s₁.chainStore (blocks ++ written)) (tip : DataBlock) (last : ℕ)
    (hlast : s₁.chainStore.getLastBlock = .ok (some tip)) (hheight : tip.getHeight = .ok last)
    (hends : EndsAt m i s last) (hwritten : ∀ b ∈ written, b = tip)
    (hids : ∀ id, (s₁.pendingStore.getOperation id).isSome → MayStore m i s id) :
    NoPanic (m.maybeCleanupPendingStore i pb' s₁).1 := by
  apply noPanic_maybeCleanupPendingStore m i pb' s₁ (blocks ++ written) tip last hholds hlast
    hheight hreads
  intro hmore id hsome
  apply not_depthPanics i s₁.chainStore hholds
  intro hchecks hnone b hb hid height hbheight
  rcases List.mem_append.mp hb with hb | hb
  · rw [hsame, hcount] at hmore
    rw [hsame] at hnone
    exact hfits.heights hchecks pb hnew hmore id hnone (hids id hsome) b hb hid height hbheight last
      hends
  · rw [hwritten b hb, hheight] at hbheight
    exact (Except.ok.inj hbheight).ge

theorem exists_lastHeight (hholds : StoreHolds True s.chainStore blocks) (tip : DataBlock)
    (hlast : s.chainStore.getLastBlock = .ok (some tip)) : ∃ height, tip.getHeight = .ok height := by
  have hget := (storeHolds_readsAs _ _ _ hholds).getLastBlock
  rw [hlast] at hget
  exact framed_getHeight tip
    (storeHolds_framed _ _ _ hholds tip (List.mem_of_getLast? (Except.ok.inj hget).symm))

/-- A block that is built from a candidate for the end of the chain is as its header says. -/
theorem candidate_framed (hsigs : SignaturesReadBack) (hsize : SignaturesSizeFits)
    (next signed : PendingBlock)
    (s₁ : CommitState DirectoryChainStore) (b : DataBlock) (header : BlockHeader)
    (ops : BlockOperations) (hgets : GetsQuorum m i s pb next)
    (hcandidate : CandidateReads m i s pb next b.header header)
    (hholds : StoreHolds True s.chainStore blocks)
    (hbuilds : Builds m.cell signed s₁.pendingStore s.chainStore b header ops)
    (hoperations : signed.operations = next.operations)
    (hbuilt : BuiltFrom m s s₁ next b header) (hend : b.offset = endOf blocks) :
    Framed b ∧ ∀ headers, b.operationsHeader = .ok headers → IterInside b.operationsData headers := by
  have hframes : storedFrames s₁.pendingStore signed.operations =
      storedFrames s.pendingStore next.operations := by
    rw [hoperations]
    exact storedFrames_congr _ _ _ hbuilt.stored
  have hdata := builds_data _ _ _ _ _ _ _ hbuilds
  obtain ⟨hsized, hopsSize, hinside⟩ := hcandidate.written hgets hbuilt.passes (by
    intro tip htip
    rw [(storeHolds_readsAs _ _ _ hholds).getLastBlock] at htip
    rw [← hbuilt.offset, hend, endOf, Except.ok.inj htip]
    rfl)
  rw [← hframes] at hopsSize hinside
  refine ⟨builds_framed_of_sized hsigs hsize _ _ _ _ _ _ _ hbuilds hbuilt.offset hsized hopsSize,
    ?_⟩
  intro headers hheaders
  rw [hdata]
  apply hinside headers
  simpa only [DataBlock.operationsHeader, DataBlock.headerReader, hbuilds.reader, orError_some,
    ok_bind, orError_eq_ok_iff] using hheaders

theorem noPanic_tick_propose (hread : OperationsReadBack) (hheaders : HeadersReadBack)
    (hholds : StoreHolds True s.chainStore blocks) (hfits : PendingFits m i s blocks)
    (hnew : PendingBlocks.new m.config i.now m.cell s.pendingStore s.chainStore = .ok pb)
    (hpot : pb.potentialNextBlocks i.blocksOrder i.sorter = .ok []) : NoPanic (m.tick p i s).1 := by
  have hblocks := pendingBlocks_new_eq_ok _ _ _ _ _ _ hnew
  obtain ⟨tip, hlast, -⟩ := hblocks.last
  have hnone : bestNextBlock m i s = none := by
    simp only [bestNextBlock, hnew, hpot, List.head?_nil, Option.map_none]
  obtain ⟨last, hheight⟩ := exists_lastHeight hholds tip hlast
  rw [CommitManager.tick, Action.get_bind, hnew]
  simp only [Action.lift_ok_bind, hpot, List.head?_nil]
  apply noPanic_action_bind _ _ _
    (noPanic_maybeProposeBlock m p i hheaders pb s hholds (hfits.few hnone pb hnew) tip hlast)
  intro _ s₁ hpropose
  have hkeep := maybeProposeBlock_keepsChain m p i pb s
  rw [hpropose] at hkeep
  have hkeep' : s₁.chainStore = s.chainStore := hkeep
  apply noPanic_cleanup m i hfits hnew pb rfl rfl (proposal_headerOf m i hblocks) s₁ []
    (by rw [hkeep', List.append_nil]; exact hholds) tip last (by rw [hkeep']; exact hlast) hheight
    (.stays tip last hlast hheight ?_) (fun b hb => by contradiction)
  · intro id hsome
    by_cases hid : id = i.proposalTime
    · exact Or.inr (Or.inr ⟨hnone, hid⟩)
    · have hget := maybeProposeBlock_getOperation m p i hread pb s id hid
      rw [hpropose] at hget
      rw [hget] at hsome
      exact Or.inl hsome
  · intro pb' next hbest
    rw [hnone] at hbest
    contradiction

/-- What signing a candidate leaves in the pending store. -/
theorem signNextBlock_mayStore (hread : OperationsReadBack) (hnode : NodeIdReadsBack m.cell.localNode)
    (next signed : PendingBlock) (hbest : bestNextBlock m i s = some (pb, next))
    (s₁ : CommitState DirectoryChainStore)
    (hsign : m.signNextBlock p i pb next s = (.ok signed, s₁)) (id : ℕ)
    (h : (s₁.pendingStore.getOperation id).isSome) : MayStore m i s id := by
  by_cases hid : id = i.signatureTime
  · cases signNextBlock_eq_ok m p i pb next signed s s₁ hsign with
    | same => exact Or.inl h
    | signed op block s₁ hmine hcheck hcreate hput =>
      exact Or.inr (Or.inl ⟨pb, next, hbest, hmine.1, hmine.2, hid⟩)
    | refused op block s₁ hmine hcreate hput =>
      exact Or.inr (Or.inl ⟨pb, next, hbest, hmine.1, hmine.2, hid⟩)
  · rw [signNextBlock_getOperation hread m p hnode i pb next signed s s₁ hsign id hid] at h
    exact Or.inl h

/-- A candidate that is committed was looked at for the block before it. -/
theorem looksBack_of_commit (hread : OperationsReadBack) (hnode : NodeIdReadsBack m.cell.localNode)
    (next signed : PendingBlock) (hnext : pb.blocks.get next.groupId = some next)
    (s₁ : CommitState DirectoryChainStore)
    (hsign : m.signNextBlock p i pb next s = (.ok signed, s₁)) (header : BlockHeader)
    (hcommits : Commits m signed)
    (hhash : HashFits s₁.pendingStore signed.operations header) :
    LooksBack m i s pb next header := by
  obtain ⟨-, hgets⟩ := signed_getsQuorum hread m p i hnode pb next signed s s₁ hsign hcommits.1
    hcommits.2
  cases signNextBlock_eq_ok m p i pb next signed s s₁ hsign with
  | same => exact .commits hgets hhash
  | signed op block s₁ hmine hcheck hcreate hput =>
    refine .signs hmine.1 hmine.2 ?_
    simp only [checkShouldSignBlock, PendingBlocks.getBlock, hnext, orPanic_some, ok_bind,
      bind_eq_ok_iff] at hcheck
    obtain ⟨frame, -, header, -, isClear, hclear, hrest⟩ := hcheck
    cases isClear with
    | false => exact absurd (Except.ok.inj hrest) (by simp)
    | true => exact hclear
  | refused op block s₁ hmine hcreate hput =>
    obtain ⟨-, rfl⟩ := createBlockRefusal_eq_ok hread _ hnode _ _ _ _ hcreate
    have hfalse : next.hasMySignature = true := hcommits.1
    rw [hmine.1] at hfalse
    contradiction

/-- A candidate that gets its quorum comes out of the signing to be committed. -/
theorem commits_of_getsQuorum (hread : OperationsReadBack) (hnode : NodeIdReadsBack m.cell.localNode)
    (next signed : PendingBlock) (s₁ : CommitState DirectoryChainStore)
    (hsign : m.signNextBlock p i pb next s = (.ok signed, s₁)) (hgets : GetsQuorum m i s pb next) :
    Commits m signed := by
  have hquorum := hgets.quorum
  cases hmine : next.hasMySignature with
  | true =>
    rw [CommitManager.signNextBlock, hmine] at hsign
    rw [← Except.ok.inj (Prod.mk.inj hsign).1]
    rw [withMySignature, if_pos hmine] at hquorum
    exact ⟨hmine, hquorum⟩
  | false =>
    have hunsigned : ¬ next.hasMySignature = true := by
      rw [hmine]
      exact Bool.false_ne_true
    obtain ⟨hunrefused, hcheck⟩ := hgets.signs.resolve_left hunsigned
    rw [CommitManager.signNextBlock, hmine, hunrefused] at hsign
    simp only [Bool.not_false, Bool.and_self, if_true, CommitManager.signOrRefuseBlock,
      Action.get_bind, hcheck] at hsign
    obtain ⟨⟨op, block⟩, s', hcreate, hrest⟩ := Action.bind_eq_ok _ _ _ _ _ hsign
    obtain ⟨hop, rfl⟩ := Prod.mk.inj hcreate
    obtain ⟨u, s'', -, hpure⟩ := Action.bind_eq_ok _ _ _ _ _ hrest
    obtain ⟨-, hblock⟩ := createBlockSignature_eq_ok hread _ hnode _ _ _ _ hop
    rw [withMySignature, if_neg hunsigned] at hquorum
    rw [← Except.ok.inj (Prod.mk.inj hpure).1, hblock]
    exact ⟨rfl, hquorum⟩

/-- What a commit of the candidate leaves, once it was signed or refused: the chain where it gets no
quorum, and else the chain with its block. -/
theorem maybeCommitBlock_candidate (hread : OperationsReadBack) (hsigs : SignaturesReadBack)
    (hsize : SignaturesSizeFits) (hnode : NodeIdReadsBack m.cell.localNode)
    (hholds : StoreHolds True s.chainStore blocks) (hstep : CursorsInStep s.chainStore)
    (hfits : PendingFits m i s blocks)
    (hblocks : BlocksOf m.config i.now m.cell s.pendingStore s.chainStore pb)
    (next signed : PendingBlock) (hbest : bestNextBlock m i s = some (pb, next))
    (hnext : pb.blocks.get next.groupId = some next) (s₁ : CommitState DirectoryChainStore)
    (hsign : m.signNextBlock p i pb next s = (.ok signed, s₁)) :
    NoPanic (m.maybeCommitBlock signed s₁).1 ∧
      ∀ s₂, m.maybeCommitBlock signed s₁ = (.ok (), s₂) →
        (∀ id, (s₂.pendingStore.getOperation id).isSome → MayStore m i s id) ∧
        (s₂.chainStore = s.chainStore ∧ ¬ GetsQuorum m i s pb next ∨
          ∃ b header, b.header.reader = some header ∧ EndsAt m i s header.height ∧
            StoreHolds True s₂.chainStore (blocks ++ [b])) := by
  obtain ⟨-, hproposal, hoperations⟩ := signNextBlock_same hread m p hnode i pb next signed s s₁ hsign
  have hcandidate := fun frame header => hfits.candidate pb next frame header hbest
  have hkeep : s₁.chainStore = s.chainStore := by
    have hsame := signNextBlock_keepsChain m p i pb next s
    rw [hsign] at hsame
    exact hsame
  have hgets := fun hcommits : Commits m signed =>
    signed_getsQuorum hread m p i hnode pb next signed s s₁ hsign hcommits.1 hcommits.2
  have hbuilt (hcommits : Commits m signed) (b : DataBlock) (header : BlockHeader)
      (ops : BlockOperations)
      (hbuilds : Builds m.cell signed s₁.pendingStore s.chainStore b header ops) :
      next.proposal.getBlock = .ok b.header ∧ BuiltFrom m s s₁ next b header := by
    obtain ⟨hsigned, hquorum⟩ := hgets hcommits
    have hframe := hbuilds.frame
    rw [hproposal] at hframe
    exact ⟨hframe, signed_builtFrom hread m p hnode i pb next signed s s₁ b header ops hblocks hnext
      hsign hsigned hbuilds ((hcandidate b.header header hframe hbuilds.reader).clock hquorum)⟩
  obtain ⟨hno, hleaves⟩ := maybeCommitBlock_cases m signed s₁ blocks (by rw [hkeep]; exact hholds)
    (by rw [hkeep]; exact hstep)
    (by
      intro hcommits frame header hframe hheader hhash
      rw [hproposal] at hframe
      rw [hkeep]
      exact (hcandidate frame header hframe hheader).previous (looksBack_of_commit m p i hread hnode
        next signed hnext s₁ hsign header hcommits hhash))
    (by
      intro hcommits b header ops hbuilds hend
      rw [hkeep] at hbuilds
      obtain ⟨hframe, hfrom⟩ := hbuilt hcommits b header ops hbuilds
      exact candidate_framed m i hsigs hsize next signed s₁ b header ops (hgets hcommits).2
        (hcandidate b.header header hframe hbuilds.reader) hholds hbuilds hoperations hfrom hend)
  refine ⟨hno, ?_⟩
  intro s₂ hcommit
  obtain ⟨hsome, hchain⟩ := hleaves s₂ hcommit
  refine ⟨?_, ?_⟩
  · intro id hid
    rw [hsome id] at hid
    exact signNextBlock_mayStore m p i hread hnode next signed hbest s₁ hsign id hid
  · rcases hchain with ⟨hsame, hnot⟩ | ⟨hcommits, b, header, ops, hbuilds, hholds'⟩
    · left
      exact ⟨hsame.trans hkeep, fun hquorum => hnot (commits_of_getsQuorum m p i hread hnode next signed s₁
        hsign hquorum)⟩
    · right
      rw [hkeep] at hbuilds
      obtain ⟨hframe, hfrom⟩ := hbuilt hcommits b header ops hbuilds
      exact ⟨b, header, hbuilds.reader, .grows pb next b.header header hbest hframe hbuilds.reader
        (hgets hcommits).2 hfrom.passes, hholds'⟩

theorem noPanic_tick_candidate (hread : OperationsReadBack) (hsigs : SignaturesReadBack)
    (hsize : SignaturesSizeFits) (hnode : NodeIdReadsBack m.cell.localNode)
    (hholds : StoreHolds True s.chainStore blocks) (hstep : CursorsInStep s.chainStore)
    (hfits : PendingFits m i s blocks)
    (hnew : PendingBlocks.new m.config i.now m.cell s.pendingStore s.chainStore = .ok pb)
    (next : PendingBlock) (rest : List PendingBlock)
    (hpot : pb.potentialNextBlocks i.blocksOrder i.sorter = .ok (next :: rest)) :
    NoPanic (m.tick p i s).1 := by
  have hblocks := pendingBlocks_new_eq_ok _ _ _ _ _ _ hnew
  obtain ⟨hbest, hnext⟩ := bestNextBlock_eq m i s pb next rest hnew hpot
  have hcommit := fun signed s₁ => maybeCommitBlock_candidate m p i hread hsigs hsize hnode hholds
    hstep hfits hblocks next signed hbest hnext s₁
  rw [tick_of_candidate m p i s pb next rest hnew hpot]
  apply noPanic_action_bind
  · apply noPanic_action_bind
    · apply noPanic_signNextBlock m p i pb next s blocks hholds hblocks hnext
      intro frame header hframe hheader hunsigned hunrefused hclear
      exact (hfits.candidate pb next frame header hbest hframe hheader).previous
        (.signs hunsigned hunrefused hclear)
    · intro signed s₁ hsign
      exact noPanic_action_bind _ _ _ (hcommit signed s₁ hsign).1 fun _ _ _ => noPanic_ok _
  · intro signed s₂ hhandled
    obtain ⟨signed', s₁, hsign, h⟩ := Action.bind_eq_ok _ _ _ _ _ hhandled
    obtain ⟨_, s₂', hwritten, h⟩ := Action.bind_eq_ok _ _ _ _ _ h
    obtain ⟨hsigned, rfl⟩ := Prod.mk.inj h
    obtain rfl := Except.ok.inj hsigned
    obtain ⟨-, hproposal, -⟩ := signNextBlock_same hread m p hnode i pb next signed' s s₁ hsign
    obtain ⟨hids, hchain⟩ := (hcommit signed' s₁ hsign).2 _ hwritten
    have hreads (g : ℕ) (block : PendingBlock)
        (hg : (pb.setBlock signed').blocks.get g = some block) :
        (headerOf block.proposal.operation).isSome := by
      rw [PendingBlocks.setBlock, Map.get_insert] at hg
      split_ifs at hg
      · obtain rfl := Option.some.inj hg
        rw [hproposal]
        exact proposal_headerOf m i hblocks next.groupId next hnext
      · exact proposal_headerOf m i hblocks g block hg
    have hclean := fun written => noPanic_cleanup m i hfits hnew (pb.setBlock signed') rfl rfl hreads
      s₂' written
    rcases hchain with ⟨hsame, hnot⟩ | ⟨b, header, hheader, hends, hholds'⟩
    · obtain ⟨tip, hlast, -⟩ := hblocks.last
      obtain ⟨last, hheight⟩ := exists_lastHeight hholds tip hlast
      refine hclean [] (by rw [hsame, List.append_nil]; exact hholds) tip last
        (by rw [hsame]; exact hlast) hheight (.stays tip last hlast hheight ?_)
        (fun b hb => by contradiction) hids
      intro pb' next' hbest'
      obtain ⟨rfl, rfl⟩ := Prod.mk.inj (Option.some.inj (hbest.symm.trans hbest'))
      exact hnot
    · have hlast : s₂'.chainStore.getLastBlock = .ok (some b) := by
        rw [(storeHolds_readsAs _ _ _ hholds').getLastBlock, List.getLast?_concat]
      have hheight : b.getHeight = .ok header.height := by
        simp [DataBlock.getHeight, DataBlock.headerReader, hheader, pure, Except.pure]
      exact hclean [b] hholds' b header.height hlast hheight hends
        (fun c hc => List.mem_singleton.mp hc) hids

theorem pendingSyncRequest_chainStore (e : Inner) (n : Node DirectoryChainStore)
    (fromNode : NodeId) (request : Option PendingSyncRequest) :
    (e.step n (.pendingSyncRequest fromNode request)).chainStore = n.chainStore := rfl

end Fits

section Samples

/-- A text as long as that of a node id, that is none. -/
def unknownNode : String := "12D3KooWDzwCfugwoor3LkCipVDjLhD22bJaQ1ontrVydY2eii00"

def unknownNodeText : Bytes := otherNodeText.take 50 ++ ofNats [48, 48, 0]

/-- A proposal that is not in the group with its id. -/
def misplacedOperation : ChainOperation :=
  ⟨70, 60, some otherNode, .blockPropose (some (proposedBytes highHeader highHeaderMultihash))⟩

def misplacedMessage : Bytes :=
  operationMessage 70 60 1 otherNodeText
    (dataContent (proposedBytes highHeader highHeaderMultihash))

def misplacedMultihash : Bytes := ofNats
    [22, 32, 116, 175, 180, 79, 78, 214, 1, 68, 249, 18, 215, 43, 70, 87, 88, 89, 85, 220, 139,
    221, 217, 27, 85, 17, 104, 60, 19, 2, 115, 107, 111, 245]

def sign61Multihash : Bytes := ofNats
    [22, 32, 157, 126, 178, 214, 94, 152, 24, 194, 22, 12, 126, 183, 192, 161, 95, 145, 38, 75,
    71, 126, 215, 239, 111, 45, 97, 220, 35, 112, 76, 66, 148, 7]

def sign301Multihash : Bytes := ofNats
    [22, 32, 77, 37, 211, 78, 91, 143, 22, 45, 255, 159, 155, 79, 231, 156, 56, 97, 123, 238, 197,
    2, 104, 108, 83, 18, 251, 142, 47, 114, 217, 90, 135, 35]

def misplacedHash : Bytes := ofNats
    [22, 32, 65, 87, 218, 8, 190, 203, 183, 129, 50, 224, 129, 142, 225, 180, 108, 209, 116, 10,
    47, 114, 103, 111, 58, 10, 41, 137, 18, 129, 7, 178, 71, 247]

def unknownHash : Bytes := ofNats
    [22, 32, 60, 93, 154, 231, 95, 221, 103, 89, 229, 14, 100, 152, 199, 140, 163, 205, 190, 241,
    87, 121, 244, 2, 129, 239, 232, 65, 190, 80, 144, 37, 68, 175]

def stopTables : Tables :=
  { commitTables with
    operations := (misplacedMessage, misplacedOperation) ::
      (signMessage 60 61 otherNodeText, signOperation 60 61 otherNode) ::
      (signMessage 300 301 unknownNodeText, signOperation 300 301 unknownNode) ::
      commitTables.operations
    digests := (fiftyMultihash ++ misplacedMultihash ++ sign61Multihash ++ proposalMultihash ++
        sign103Multihash, misplacedHash.drop 2) ::
      (fiftyMultihash ++ proposalMultihash ++ sign103Multihash ++ highMultihash ++
        sign301Multihash, unknownHash.drop 2) :: commitTables.digests }

@[reducible] def stopCrates : Crates := stopTables.crates

attribute [local instance] stopCrates

/-- The proposal and the signature of `receiveSigned`, and other operations, as a peer sends
them. -/
def receivedState (hash : Bytes) (frames : List Bytes) : CommitState DirectoryChainStore :=
  (firstEngine.step ⟨⟨none⟩, .new, genesisChain⟩ (.pendingSyncRequest ⟨otherNode⟩ (some
    ⟨.list [⟨0, false, 0, false, some hash, frames.length, .list (frames.map some), .null⟩],
      0⟩))).state

def misplacedState : CommitState DirectoryChainStore := receivedState misplacedHash
  [fiftyBytes, sizedBytes (misplacedMessage ++ misplacedMultihash),
    signBytes 60 61 otherNodeText sign61Multihash,
    proposeBytes nextHeader nextHeaderMultihash proposalMultihash,
    signBytes 100 103 otherNodeText sign103Multihash]

def unknownState : CommitState DirectoryChainStore := receivedState unknownHash
  [fiftyBytes, proposeBytes nextHeader nextHeaderMultihash proposalMultihash,
    signBytes 100 103 otherNodeText sign103Multihash,
    proposeBytes highHeader highHeaderMultihash highMultihash,
    signBytes 300 301 unknownNodeText sign301Multihash]

def tickInput : TickInput :=
  ⟨110, 110, 110, 110, .same, fun _ => .same, Sorting.searchSorter bestFirst, fun a b => a / b,
    false⟩

/-- Whether a candidate of a readable group is handled, so that there is something to announce. -/
def handles (m : CommitManager) (p : PendingSynchronizer) (i : TickInput)
    (s : CommitState DirectoryChainStore) : Bool :=
  match readableBlocks m i s with
  | .error _ => false
  | .ok pb => match pb.potentialNextBlocks i.blocksOrder i.sorter with
    | .ok (next :: _) => match handleNext m p i pb next s with
      | (.ok _, s₁) => s₁.syncContext.events ≠ s.syncContext.events
      | (.error _, _) => false
    | _ => false

theorem handled_of_handles (m : CommitManager) (p : PendingSynchronizer) (i : TickInput)
    (s : CommitState DirectoryChainStore) (h : handles m p i s = true) :
    ∃ pb signed s₁, Handled m p i s pb signed s₁ ∧
      s₁.syncContext.events ≠ s.syncContext.events := by
  rw [handles] at h
  split at h
  · contradiction
  · rename_i pb hreadable
    split at h
    · rename_i next rest hpot
      split at h
      · rename_i signed s₁ hhandle
        exact ⟨pb, signed, s₁, ⟨hreadable, next, rest, hpot, hhandle⟩, of_decide_eq_true h⟩
      · contradiction
    · contradiction

end Samples

section Samples

attribute [local instance] commitCrates

theorem commitTables_headers : HeadersReadBack :=
  headersReadBack_tables commitTables (by decide +kernel) (by decide +kernel) (by decide +kernel)

/-- The scan of the state with the signed proposal finds one block, that the first node has not
signed. -/
theorem signedNode_scan :
    (PendingBlocks.new firstEngine.commitManager.config 110 firstEngine.commitManager.cell
      signedNode.state.pendingStore signedNode.state.chainStore).toOption.map (fun pb =>
        pb.blocks.values.map PendingBlock.hasMySignature) = some [false] := by
  decide +kernel

theorem signedNode_chainStore : signedNode.state.chainStore = genesisChain := by
  rw [node_state_chainStore, signedNode, receiveSigned, receive, pendingSyncRequest_chainStore,
    genesisNode_chainStore]

theorem signedNode_pendingFits :
    PendingFits firstEngine.commitManager (tickAt 110) signedNode.state [genesisBlock] := by
  obtain ⟨hknown, -, hdata, hlast⟩ := signedNode_reads
  have hscan := signedNode_scan
  refine ⟨?_, ?_, ?_, ?_, ?_⟩
  · cases hnew : PendingBlocks.new firstEngine.commitManager.config 110
      firstEngine.commitManager.cell signedNode.state.pendingStore signedNode.state.chainStore with
    | error e =>
      rw [hnew] at hscan
      exact absurd hscan.symm (Option.some_ne_none _)
    | ok pb => exact (pendingBlocks_new_isOk_iff _ _ _ _ _ _ hlast).mp ⟨pb, hnew⟩
  · intro pb hnew b hb c hc _ _ hmine
    have hnew' : PendingBlocks.new firstEngine.commitManager.config 110
        firstEngine.commitManager.cell signedNode.state.pendingStore
        signedNode.state.chainStore = .ok pb := hnew
    rw [hnew'] at hscan
    have hsigned : pb.blocks.values.map PendingBlock.hasMySignature = [false] :=
      Option.some.inj hscan
    have hmem : b.hasMySignature ∈ pb.blocks.values.map PendingBlock.hasMySignature :=
      List.mem_map_of_mem hb
    rw [hsigned, hmine] at hmem
    exact absurd (List.mem_singleton.mp hmem).symm Bool.false_ne_true
  · intro pb next frame header hbest hframe hreader
    have hclock := signedNode_tickFits.clock pb next hbest
    rw [hbest] at hknown
    simp only [Option.map_some, Option.some.injEq, Prod.mk.injEq] at hknown
    obtain ⟨-, hids, hblock⟩ := hknown
    rw [hblock] at hframe
    obtain rfl := Except.ok.inj hframe
    obtain rfl := Option.some.inj hreader
    refine ⟨fun _ _ => ?_, hclock, fun _ _ _ => ⟨sizedCheck_sound _ (by decide +kernel), ?_, ?_⟩⟩
    · have hprevious : nextHeader.previousOffset = 0 := rfl
      rw [hprevious, signedNode_chainStore]
      decide +kernel
    · rw [hids, hdata]
      decide +kernel
    · intro hs hlisted
      rw [hids, hdata, ← Option.some.inj hlisted]
      exact ⟨by decide +kernel, fun _ => trivial⟩
  · intro hchecks
    exact absurd hchecks Bool.false_ne_true
  · intro hnone
    rw [hnone] at hknown
    exact absurd hknown.symm (Option.some_ne_none _)

end Samples

end Exocore.Engine
