import Exocore.CommitCleanup

/-! How often an entry is committed: the chain of a node along its ticks. -/
namespace Exocore.Engine

open Exocore.Core Exocore.Chain Exocore.Pending SortedMap

section Checks
variable [Crates] {CS : Type} [ChainStore CS]

theorem checkOperationBlocks_clear (pb : PendingBlocks) (chain : CS) (id : ℕ) (groups : List ℕ)
    (hne : groups ≠ []) (h : checkOperationBlocks pb chain id groups = .ok true) :
    ChainStore.getBlockByOperationId chain id = .ok none := by
  cases groups with
  | nil => contradiction
  | cons g rest =>
    rw [checkOperationBlocks] at h
    obtain ⟨status, -, h⟩ := (bind_eq_ok_iff _ _ _).mp h
    by_cases hcommitted : status = .pastCommitted
    · rw [if_pos hcommitted] at h
      exact absurd (Except.ok.inj h) (by simp)
    rw [if_neg hcommitted] at h
    obtain ⟨found, hfound, h⟩ := (bind_eq_ok_iff _ _ _).mp h
    rw [liftError_eq_ok_iff] at hfound
    cases found with
    | none => exact hfound
    | some b =>
      rw [if_pos (by rfl)] at h
      exact absurd (Except.ok.inj h) (by simp)

theorem checkOperations_clear (pb : PendingBlocks) (chain : CS) (order : ℕ → Sorting.HashOrder)
    (ids : List ℕ) (hgroups : ∀ id ∈ ids, ∀ groups, pb.operationsBlocks.get id = some groups →
      groups ≠ []) (h : checkOperations pb chain order ids = .ok true) :
    ∀ id ∈ ids, ChainStore.getBlockByOperationId chain id = .ok none := by
  induction ids with
  | nil => simp
  | cons id rest ih =>
    rw [checkOperations] at h
    obtain ⟨groups, hget, h⟩ := (bind_eq_ok_iff _ _ _).mp h
    rw [orPanic_eq_ok_iff] at hget
    obtain ⟨isClear, hclear, h⟩ := (bind_eq_ok_iff _ _ _).mp h
    cases isClear with
    | false => exact absurd (Except.ok.inj h) (by simp)
    | true =>
      rw [if_pos rfl] at h
      have hne : (order id).order groups ≠ [] := by
        intro hnil
        have hperm := (order id).perm groups
        rw [hnil] at hperm
        exact hgroups id List.mem_cons_self groups hget hperm.nil_eq.symm
      intro x hx
      rcases List.mem_cons.mp hx with rfl | hx
      · exact checkOperationBlocks_clear pb chain x _ hne hclear
      · exact ih (fun y hy => hgroups y (List.mem_cons_of_mem _ hy)) h x hx

/-- A block that is signed has no operation of the chain. -/
theorem checkShouldSignBlock_clear (config : CommitManagerConfig) (now : ℕ) (cell : Cell)
    (pb : PendingBlocks) (chain : CS) (store : MemoryPendingStore)
    (hblocks : BlocksOf config now cell store chain pb) (order : ℕ → Sorting.HashOrder)
    (next : PendingBlock) (hnext : pb.blocks.get next.groupId = some next)
    (h : checkShouldSignBlock pb chain store order next.groupId = .ok true) :
    ∀ id ∈ next.operations, ChainStore.getBlockByOperationId chain id = .ok none := by
  simp only [checkShouldSignBlock, PendingBlocks.getBlock, hnext, orPanic_some, ok_bind,
    bind_eq_ok_iff] at h
  obtain ⟨frame, -, header, -, isClear, hclear, h⟩ := h
  cases isClear with
  | false => exact absurd (Except.ok.inj h) (by simp)
  | true =>
    refine checkOperations_clear pb chain order next.operations ?_ hclear
    intro id hid groups hget hnil
    -- the block itself is one of the groups of the operation
    have hmem := (mem_mapOperationsBlocks pb.blocks id next.groupId).mpr
      ⟨next, (mem_values_iff _ _).mpr ⟨next.groupId, hnext⟩, hid, rfl⟩
    rw [← hblocks.operations, hget, hnil] at hmem
    contradiction

end Checks

section WellFormed
variable [Crates] {CS : Type} [ChainStore CS]

theorem getBlock_reads (proposal : PendingBlockProposal) (frame : BlockHeaderFrame)
    (h : proposal.getBlock = .ok frame) : readHeaderFrame frame.wholeData = .ok frame := by
  rw [getBlock_eq_ok_iff] at h
  simp only [headerFrameOf, Option.bind_eq_bind, Option.bind_eq_some_iff] at h
  obtain ⟨reader, -, h⟩ := h
  split at h
  · split at h
    · rename_i data f hread
      obtain rfl := Option.some.inj h
      rw [readHeaderFrame, liftError_eq_ok_iff] at hread
      obtain ⟨n, rest, -, -, -, hself⟩ := hashedFrame_read_eq_ok _ _ _ hread
      rw [readHeaderFrame, hself]
      rfl
    · contradiction
  · contradiction

/-- A frame that reads gives the message that its bytes hold. -/
theorem readHeaderFrame_decodes (data : Bytes) (f : BlockHeaderFrame) (header : BlockHeader)
    (h : readHeaderFrame data = .ok f) (hreader : f.reader = some header) :
    ∃ message, Crates.readBlockHeader message = some (some header) := by
  rw [readHeaderFrame, liftError_eq_ok_iff, HashedFrame.read] at h
  obtain ⟨sized, -, h⟩ := (bind_eq_ok_iff _ _ _).mp h
  simp only [HashedFrame.ofSized, bind_eq_ok_iff, orPanic_eq_ok_iff, orError_eq_ok_iff, pure,
    Except.pure, Except.ok.injEq] at h
  obtain ⟨hashed, -, message, -, r, hr, whole, -, multihash, -, rfl⟩ := h
  exact ⟨message, by rw [hr, ← hreader]⟩

/-- Where the header gives the size of its operations, the parts of the block that is built are
as its header says. -/
theorem builds_framed_of_sized (hsigs : SignaturesReadBack) (hsize : SignaturesSizeFits)
    (cell : Cell) (block : PendingBlock) (store : MemoryPendingStore) (chain : CS) (b : DataBlock)
    (header : BlockHeader) (ops : BlockOperations)
    (h : Builds cell block store chain b header ops) (hoffset : b.offset = header.offset)
    (hsized : ∃ n, SizedBy b.header.wholeData n)
    (hopsSize : header.operationsSize = (framesData (storedFrames store block.operations)).length) :
    Framed b := by
  have hreads := getBlock_reads _ _ h.frame
  obtain ⟨message, hmessage⟩ := readHeaderFrame_decodes _ _ header hreads h.reader
  obtain ⟨⟨sm, hsm, hsmSize⟩, hsigSized, hsigReads⟩ := toFrameForExistingBlock_reads hsigs _ header
    (hsize message header hmessage) _ h.signatures
  have hlen := toFrameForExistingBlock_length _ _ _ h.signatures
  have hdata := builds_data cell block store chain b header ops h
  rw [← hdata] at hopsSize
  exact ⟨hsized, hreads, hsigSized, hsigReads, ⟨header, h.reader, hoffset.symm, hopsSize,
    hlen.symm⟩, ⟨sm, hsm, by rw [hsmSize, hopsSize]⟩⟩

/-- Where the header fits its operations, the block that is built reads back. -/
theorem builds_wellFormed (hsigs : SignaturesReadBack) (hsize : SignaturesSizeFits) (cell : Cell)
    (block : PendingBlock) (store : MemoryPendingStore) (chain : CS) (b : DataBlock)
    (header : BlockHeader) (ops : BlockOperations)
    (h : Builds cell block store chain b header ops) (hoffset : b.offset = header.offset)
    (hsized : ∃ n, SizedBy b.header.wholeData n)
    (hfits : HeaderFits store block.operations header) : WellFormed b := by
  have hdata := builds_data cell block store chain b header ops h
  obtain ⟨hs, hhs, hopsSize, hall⟩ := hfits
  have hframed := builds_framed_of_sized hsigs hsize cell block store chain b header ops h hoffset
    hsized hopsSize
  rw [← hdata] at hall
  refine ⟨hframed, hs, ?_, ?_⟩
  · simp only [DataBlock.operationsHeader, DataBlock.headerReader, h.reader, orError_some, ok_bind,
      hhs]
  · intro x hx
    obtain ⟨⟨op, hop, hslice⟩, -⟩ := hall x hx
    obtain ⟨r, hr, -⟩ := store.getOperation_reads _ _ hop
    exact ⟨op.frame, r, readFrame_of_slice x _ _ hslice, hr⟩

/-- It contains the operations that the header lists, and no other. -/
theorem builds_contains_iff (cell : Cell) (block : PendingBlock) (store : MemoryPendingStore)
    (chain : CS) (b : DataBlock) (header : BlockHeader) (ops : BlockOperations)
    (h : Builds cell block store chain b header ops)
    (hfits : HeaderFits store block.operations header) (id : ℕ) :
    Contains b id ↔ ∃ hs, header.operationsHeader = some hs ∧ ∃ x ∈ hs, x.operationId = id := by
  obtain ⟨header', hs, hreader, hhs, -, hall, hops⟩ :=
    (selfConsistent_iff_headerFits cell block store chain b header ops h).mpr hfits
  rw [h.reader] at hreader
  obtain rfl := Option.some.inj hreader
  constructor
  · rintro ⟨frames, hframes, f, hf, r, hr, hrid⟩
    rw [hops] at hframes
    obtain rfl := Except.ok.inj hframes
    obtain ⟨x, hx, hget⟩ := List.mem_filterMap.mp hf
    obtain ⟨op, hop, rfl⟩ := Option.map_eq_some_iff.mp hget
    obtain ⟨r', hr', hid', -⟩ := store.getOperation_reads _ _ hop
    rw [hr] at hr'
    obtain rfl := Option.some.inj hr'
    exact ⟨hs, hhs, x, hx, hid'.symm.trans hrid⟩
  · rintro ⟨hs', hhs', x, hx, rfl⟩
    obtain rfl := Option.some.inj (hhs.symm.trans hhs')
    obtain ⟨op, hop, -⟩ := hall x hx
    obtain ⟨r, hr, hid, -⟩ := store.getOperation_reads _ _ hop
    refine ⟨_, hops, op.frame, List.mem_filterMap.mpr ⟨x, hx, ?_⟩, r, hr, hid⟩
    rw [hop]
    rfl

end WellFormed

section Ticks
variable [Crates]

/-- No operation is in two blocks of the chain. -/
def CommittedOnce (blocks : List DataBlock) : Prop :=
  blocks.Pairwise fun b c => ∀ id, Contains b id → ¬ Contains c id

/-- The store holds a chain in which no operation is committed twice. -/
structure HoldsOnce (s : DirectoryChainStore) (blocks : List DataBlock) : Prop where
  holds : StoreHolds True s blocks
  inStep : CursorsInStep s
  once : CommittedOnce blocks

/-- What lets a tick write its candidate: our signature and its quorum, the checks of the block
that is built, and a position that the store accepts. -/
structure MayWrite (m : CommitManager) (i : TickInput) (s : CommitState DirectoryChainStore)
    (pb : PendingBlocks) (next : PendingBlock) (frame : BlockHeaderFrame) (header : BlockHeader) :
    Prop extends GetsQuorum m i s pb next where
  passes : PassesChecks m.cell (withMySignature m next) s.pendingStore s.chainStore header
  accepted : ∀ tip, s.chainStore.getLastBlock = .ok (some tip) →
    AcceptsOffset s.chainStore (committedSize frame header s.pendingStore next.operations)
      header.offset tip.nextOffset

/-- What a tick relies on in a candidate that it writes. -/
structure CandidateFits (s : CommitState DirectoryChainStore) (next : PendingBlock)
    (frame : BlockHeaderFrame) (header : BlockHeader) : Prop where
  /-- A block that was signed before is not checked again: its operations are still new. -/
  signedNew : next.hasMySignature = true → ∀ id ∈ next.operations,
    s.chainStore.getBlockByOperationId id = .ok none
  sized : ∃ n, SizedBy frame.wholeData n
  fits : HeaderFits s.pendingStore next.operations header
  /-- A new segment is not opened for another offset than the end of the chain. -/
  offset : ∀ tip, s.chainStore.getLastBlock = .ok (some tip) → header.offset = tip.nextOffset

structure TickFits (m : CommitManager) (i : TickInput) (s : CommitState DirectoryChainStore) :
    Prop where
  /-- The clock gives an id that a block which is signed now does not list. -/
  clock : ∀ pb next, bestNextBlock m i s = some (pb, next) → GetsQuorum m i s pb next →
    next.hasMySignature = false → i.signatureTime ∉ next.operations
  written : ∀ pb next frame header, bestNextBlock m i s = some (pb, next) →
    next.proposal.getBlock = .ok frame → frame.reader = some header →
    MayWrite m i s pb next frame header → CandidateFits s next frame header

theorem storedFrames_congr (store store' : MemoryPendingStore) (ids : List ℕ)
    (h : ∀ id ∈ ids, store'.getOperation id = store.getOperation id) :
    storedFrames store' ids = storedFrames store ids := by
  have hmap : ids.filterMap store'.getOperation = ids.filterMap store.getOperation :=
    List.filterMap_congr h
  rw [storedFrames, storedFrames, hmap]

theorem headerFits_congr (store store' : MemoryPendingStore) (ids : List ℕ)
    (header : BlockHeader) (h : ∀ id ∈ ids, store'.getOperation id = store.getOperation id)
    (hlisted : ∀ hs, header.operationsHeader = some hs → ∀ x ∈ hs, x.operationId ∈ ids)
    (hfits : HeaderFits store ids header) : HeaderFits store' ids header := by
  obtain ⟨hs, hhs, hsize, hall⟩ := hfits
  refine ⟨hs, hhs, by rw [storedFrames_congr store store' ids h, hsize], ?_⟩
  intro x hx
  obtain ⟨⟨op, hop, hslice⟩, hfound⟩ := hall x hx
  refine ⟨⟨op, ?_, ?_⟩, hfound⟩
  · rw [h _ (hlisted hs hhs x hx), hop]
  · rw [storedFrames_congr store store' ids h, hslice]

/-- Signing changes the pending store at the id of the signature only. -/
theorem signNextBlock_getOperation (hread : OperationsReadBack) (m : CommitManager)
    (p : PendingSynchronizer) (hnode : NodeIdReadsBack m.cell.localNode) (i : TickInput)
    (pb : PendingBlocks) (next signed : PendingBlock) (s s₁ : CommitState DirectoryChainStore)
    (h : m.signNextBlock p i pb next s = (.ok signed, s₁)) (id : ℕ) (hid : id ≠ i.signatureTime) :
    s₁.pendingStore.getOperation id = s.pendingStore.getOperation id := by
  have hput (op : NewOperation) (reader : ChainOperation)
      (hreader : op.frame.frame.reader = some reader) (htime : reader.operationId = i.signatureTime)
      (hok : onPending (p.handleNewOperation op) s = (.ok (), s₁)) :
      s₁.pendingStore.getOperation id = s.pendingStore.getOperation id := by
    have hstore : s₁.pendingStore =
        (p.handleNewOperation op ⟨s.syncContext, s.pendingStore⟩).2.store := by
      rw [← onPending_pendingStore, hok]
    rcases handleNewOperation_store p op ⟨s.syncContext, s.pendingStore⟩ with
      ⟨-, hsame⟩ | ⟨existed, store', hstored, hafter⟩
    · rw [hstore, hsame]
    · obtain ⟨type, -, hget⟩ := MemoryPendingStore.putOperation_getOperation _ _ op existed reader
        hreader hstored
      rw [hstore, hafter, hget, htime, if_neg hid]
  cases signNextBlock_eq_ok m p i pb next signed s s₁ h with
  | same => rfl
  | signed op block s₁ hmine hcheck hcreate hok =>
    obtain ⟨hreader, -⟩ := createBlockSignature_eq_ok hread _ hnode _ _ _ _ hcreate
    exact hput op _ hreader rfl hok
  | refused op block s₁ hmine hcreate hok =>
    obtain ⟨hreader, -⟩ := createBlockRefusal_eq_ok hread _ hnode _ _ _ _ hcreate
    exact hput op _ hreader rfl hok

/-- Signing changes a block in its signatures and refusals only. -/
theorem signNextBlock_same (hread : OperationsReadBack) (m : CommitManager)
    (p : PendingSynchronizer) (hnode : NodeIdReadsBack m.cell.localNode) (i : TickInput)
    (pb : PendingBlocks) (next signed : PendingBlock) (s s₁ : CommitState DirectoryChainStore)
    (h : m.signNextBlock p i pb next s = (.ok signed, s₁)) :
    signed.groupId = next.groupId ∧ signed.proposal = next.proposal ∧
      signed.operations = next.operations := by
  cases signNextBlock_eq_ok m p i pb next signed s s₁ h with
  | same => exact ⟨rfl, rfl, rfl⟩
  | signed op block s₁ hmine hcheck hcreate hok =>
    obtain ⟨-, rfl⟩ := createBlockSignature_eq_ok hread _ hnode _ _ _ _ hcreate
    exact ⟨rfl, rfl, rfl⟩
  | refused op block s₁ hmine hcreate hok =>
    obtain ⟨-, rfl⟩ := createBlockRefusal_eq_ok hread _ hnode _ _ _ _ hcreate
    exact ⟨rfl, rfl, rfl⟩

/-- The operations of a block that the tick commits are not in the chain yet. -/
theorem tick_operations_new (m : CommitManager) (p : PendingSynchronizer) (i : TickInput)
    (pb : PendingBlocks) (next signed : PendingBlock) (s s₁ : CommitState DirectoryChainStore)
    (hread : OperationsReadBack) (hnode : NodeIdReadsBack m.cell.localNode)
    (hblocks : BlocksOf m.config i.now m.cell s.pendingStore s.chainStore pb)
    (hnext : pb.blocks.get next.groupId = some next)
    (hsign : m.signNextBlock p i pb next s = (.ok signed, s₁)) (hmine : signed.hasMySignature = true)
    (hnew : next.hasMySignature = true → ∀ id ∈ next.operations,
      s.chainStore.getBlockByOperationId id = .ok none) :
    ∀ id ∈ next.operations, s.chainStore.getBlockByOperationId id = .ok none := by
  cases signNextBlock_eq_ok m p i pb next signed s s₁ hsign with
  | same => exact hnew hmine
  | signed op block s₁ hnone hcheck hcreate hok =>
    exact checkShouldSignBlock_clear m.config i.now m.cell pb s.chainStore s.pendingStore hblocks
      i.operationBlocksOrder next hnext hcheck
  | refused op block s₁ hnone hcreate hok =>
    obtain ⟨-, rfl⟩ := createBlockRefusal_eq_ok hread _ hnode _ _ _ _ hcreate
    have hfalse : next.hasMySignature = true := hmine
    rw [hnone.1] at hfalse
    contradiction

/-- A block that is built from the best candidate, once this node has looked at it. -/
structure BuiltFrom (m : CommitManager) (s s₁ : CommitState DirectoryChainStore)
    (next : PendingBlock) (b : DataBlock) (header : BlockHeader) : Prop where
  offset : b.offset = header.offset
  listed : ∀ hs, header.operationsHeader = some hs → ∀ x ∈ hs, x.operationId ∈ next.operations
  stored : ∀ id ∈ next.operations,
    s₁.pendingStore.getOperation id = s.pendingStore.getOperation id
  size : b.totalSize = committedSize b.header header s.pendingStore next.operations
  passes : PassesChecks m.cell (withMySignature m next) s.pendingStore s.chainStore header

/-- Signing leaves the operations that the block lists. -/
theorem signNextBlock_stored (hread : OperationsReadBack) (m : CommitManager)
    (p : PendingSynchronizer) (hnode : NodeIdReadsBack m.cell.localNode) (i : TickInput)
    (pb : PendingBlocks) (next signed : PendingBlock) (s s₁ : CommitState DirectoryChainStore)
    (h : m.signNextBlock p i pb next s = (.ok signed, s₁))
    (hclock : next.hasMySignature = false → i.signatureTime ∉ next.operations) :
    ∀ id ∈ next.operations, s₁.pendingStore.getOperation id = s.pendingStore.getOperation id := by
  intro id hid
  cases hmine : next.hasMySignature with
  | true =>
    rw [CommitManager.signNextBlock, hmine] at h
    obtain ⟨-, rfl⟩ := Prod.mk.inj h
    rfl
  | false =>
    apply signNextBlock_getOperation hread m p hnode i pb next signed s s₁ h id
    rintro rfl
    exact hclock hmine hid

theorem signed_builtFrom (hread : OperationsReadBack) (m : CommitManager)
    (p : PendingSynchronizer) (hnode : NodeIdReadsBack m.cell.localNode) (i : TickInput)
    (pb : PendingBlocks) (next signed : PendingBlock) (s s₁ : CommitState DirectoryChainStore)
    (b : DataBlock) (header : BlockHeader) (ops : BlockOperations)
    (hblocks : BlocksOf m.config i.now m.cell s.pendingStore s.chainStore pb)
    (hnext : pb.blocks.get next.groupId = some next)
    (hsign : m.signNextBlock p i pb next s = (.ok signed, s₁))
    (hsigned : signed = withMySignature m next)
    (hbuilds : Builds m.cell signed s₁.pendingStore s.chainStore b header ops)
    (hclock : next.hasMySignature = false → i.signatureTime ∉ next.operations) :
    BuiltFrom m s s₁ next b header := by
  obtain ⟨-, hproposal, hoperations⟩ := signNextBlock_same hread m p hnode i pb next signed s s₁ hsign
  have hframe : next.proposal.getBlock = .ok b.header := by
    rw [← hproposal]
    exact hbuilds.frame
  obtain ⟨last, -, hof⟩ := hblocks.last
  obtain ⟨groupOps, -, -, -, hlist, op, hop, hopEq, header', hheader', -, hoffset⟩ :=
    (hof next.groupId next hnext).group
  have hheader : header' = header := by
    have hof := (getBlock_eq_ok_iff _ _).mp hframe
    rw [hopEq] at hof
    simp only [headerOf, hof, Option.bind_eq_bind, Option.bind_some, hbuilds.reader] at hheader'
    exact (Option.some.inj hheader').symm
  subst hheader
  -- the header of the proposal lists operations of the block
  have hlisted : ∀ hs, header'.operationsHeader = some hs → ∀ x ∈ hs,
      x.operationId ∈ next.operations := by
    intro hs hhs x hx
    rw [hlist]
    refine List.mem_flatMap.mpr ⟨op, hop, ?_⟩
    simp only [proposedBy, hheader', hhs, Option.getD_some]
    exact List.mem_map.mpr ⟨x, hx, rfl⟩
  have hstored := signNextBlock_stored hread m p hnode i pb next signed s s₁ hsign hclock
  have hframes : storedFrames s₁.pendingStore signed.operations =
      storedFrames s.pendingStore signed.operations := by
    rw [hoperations]
    exact storedFrames_congr _ _ _ hstored
  refine ⟨by rw [hbuilds.offset, hproposal, hoffset], hlisted, hstored, ?_, ?_⟩
  · rw [builds_totalSize _ _ _ _ _ _ _ hbuilds, committedSize, committedSize, hframes, hoperations]
  · obtain ⟨hpresent, hreadable, hhash, hprevious, hsigs⟩ :=
      passesChecks_of_builds _ _ _ _ _ _ _ hbuilds
    rw [hframes] at hreadable hhash
    rw [← hsigned]
    refine ⟨?_, hreadable, hhash, hprevious, hsigs⟩
    intro id hid
    rw [← hstored id (by rw [← hoperations]; exact hid)]
    exact hpresent id hid

/-- Best of the potential next blocks, as the map of blocks has it. -/
theorem bestNextBlock_eq (m : CommitManager) (i : TickInput) (s : CommitState DirectoryChainStore)
    (pb : PendingBlocks) (next : PendingBlock) (rest : List PendingBlock)
    (hnew : PendingBlocks.new m.config i.now m.cell s.pendingStore s.chainStore = .ok pb)
    (hpot : pb.potentialNextBlocks i.blocksOrder i.sorter = .ok (next :: rest)) :
    bestNextBlock m i s = some (pb, next) ∧ pb.blocks.get next.groupId = some next := by
  refine ⟨by simp only [bestNextBlock, hnew, hpot, List.head?_cons, Option.map_some], ?_⟩
  obtain ⟨⟨g, hg⟩, -⟩ := (mem_potentialNextBlocks pb _ _ _ hpot next).mp List.mem_cons_self
  obtain ⟨last, -, hof⟩ := (pendingBlocks_new_eq_ok _ _ _ _ _ _ hnew).last
  rw [(hof g next hg).groupId_eq]
  exact hg

/-- What the index does not find is in no block. -/
theorem not_contains_of_none (s : DirectoryChainStore) (blocks : List DataBlock)
    (h : StoreHolds True s blocks) (id : ℕ) (hnone : s.getBlockByOperationId id = .ok none)
    (b : DataBlock) (hb : b ∈ blocks) : ¬ Contains b id := by
  rcases getBlockByOperationId_eq s blocks h id with ⟨d, -, -, hget⟩ | ⟨hall, -⟩
  · rw [hnone] at hget
    exact absurd (Except.ok.inj hget) (by simp)
  · exact fun hid => hall b hb (Or.inr hid)

/-- Where the store accepts the block that was built, its candidate may be written. -/
theorem BuiltFrom.mayWrite {m : CommitManager} {i : TickInput}
    {s s₁ : CommitState DirectoryChainStore} {pb : PendingBlocks} {next : PendingBlock}
    {b : DataBlock} {header : BlockHeader} (h : BuiltFrom m s s₁ next b header)
    (hgets : GetsQuorum m i s pb next) (blocks : List DataBlock)
    (hholds : StoreHolds True s.chainStore blocks)
    (haccepts : AcceptsOffset s.chainStore b.totalSize b.offset (endOf blocks)) :
    MayWrite m i s pb next b.header header := by
  refine ⟨hgets, h.passes, ?_⟩
  intro tip htip
  rw [(storeHolds_readsAs _ _ _ hholds).getLastBlock] at htip
  rw [h.size, h.offset, endOf, Except.ok.inj htip] at haccepts
  exact haccepts

/-- The block that a tick writes: it reads back, stands at the end of the chain, and its
operations are new. -/
structure WritesNew (s s₁ : CommitState DirectoryChainStore) (blocks : List DataBlock)
    (next : PendingBlock) (b : DataBlock) (header : BlockHeader) : Prop where
  wellFormed : WellFormed b
  atEnd : b.offset = endOf blocks
  fits : HeaderFits s₁.pendingStore next.operations header
  new : ∀ id ∈ next.operations, s.chainStore.getBlockByOperationId id = .ok none

/-- What the store accepts of a tick that fits. -/
theorem tick_writesNew (hread : OperationsReadBack) (hsigs : SignaturesReadBack)
    (hsize : SignaturesSizeFits) (m : CommitManager) (p : PendingSynchronizer)
    (hnode : NodeIdReadsBack m.cell.localNode) (i : TickInput) (pb : PendingBlocks)
    (next signed : PendingBlock) (rest : List PendingBlock)
    (s s₁ : CommitState DirectoryChainStore) (b : DataBlock) (header : BlockHeader)
    (ops : BlockOperations)
    (hnew : PendingBlocks.new m.config i.now m.cell s.pendingStore s.chainStore = .ok pb)
    (hpot : pb.potentialNextBlocks i.blocksOrder i.sorter = .ok (next :: rest))
    (hsign : m.signNextBlock p i pb next s = (.ok signed, s₁))
    (hmine : signed.hasMySignature = true)
    (hquorum : m.cell.hasQuorum (signed.signatures.filter (signed.validateSignature m.cell)).length
      (some .chain) = true)
    (hbuilds : Builds m.cell signed s₁.pendingStore s.chainStore b header ops)
    (blocks : List DataBlock) (hholds : StoreHolds True s.chainStore blocks)
    (hfits : TickFits m i s) :
    BuiltFrom m s s₁ next b header ∧
      (AcceptsOffset s.chainStore b.totalSize b.offset (endOf blocks) →
        MayWrite m i s pb next b.header header ∧ WritesNew s s₁ blocks next b header) := by
  have hblocks := pendingBlocks_new_eq_ok _ _ _ _ _ _ hnew
  obtain ⟨hbest, hnext⟩ := bestNextBlock_eq m i s pb next rest hnew hpot
  obtain ⟨-, hproposal, hoperations⟩ := signNextBlock_same hread m p hnode i pb next signed s s₁ hsign
  obtain ⟨hsigned, hgets⟩ := signed_getsQuorum hread m p i hnode pb next signed s s₁ hsign hmine
    hquorum
  have hbuilt := signed_builtFrom hread m p hnode i pb next signed s s₁ b header ops hblocks hnext
    hsign hsigned hbuilds (hfits.clock pb next hbest hgets)
  refine ⟨hbuilt, fun haccepts => ?_⟩
  have hmay := hbuilt.mayWrite hgets blocks hholds haccepts
  have hcandidate := hfits.written pb next b.header header hbest
    (by rw [← hproposal]; exact hbuilds.frame) hbuilds.reader hmay
  have hheader : HeaderFits s₁.pendingStore next.operations header :=
    headerFits_congr _ _ _ _ hbuilt.stored hbuilt.listed hcandidate.fits
  obtain ⟨last, hlast, -⟩ := hblocks.last
  refine ⟨hmay, ?_, ?_, hheader, ?_⟩
  · apply builds_wellFormed hsigs hsize _ _ _ _ _ _ _ hbuilds hbuilt.offset hcandidate.sized
    rw [hoperations]
    exact hheader
  · have hlast' : s.chainStore.getLastBlock = .ok (some last) := hlast
    rw [hbuilt.offset, hcandidate.offset last hlast']
    rw [(storeHolds_readsAs _ _ _ hholds).getLastBlock] at hlast'
    rw [endOf, Except.ok.inj hlast']
    rfl
  · exact tick_operations_new m p i pb next signed s s₁ hread hnode hblocks hnext hsign hmine
      hcandidate.signedNew

/-- One tick: the chain is as it was, or has one more block with operations that are new. -/
theorem tick_holdsOnce (hread : OperationsReadBack) (hsigs : SignaturesReadBack)
    (hsize : SignaturesSizeFits) (m : CommitManager) (p : PendingSynchronizer) (i : TickInput)
    (hnode : NodeIdReadsBack m.cell.localNode) (s : CommitState DirectoryChainStore)
    (blocks : List DataBlock) (hs : HoldsOnce s.chainStore blocks) (hfits : TickFits m i s) :
    ∃ blocks', HoldsOnce (m.tick p i s).2.chainStore blocks' := by
  rcases tick_chainStore m p i s with hsame |
    ⟨pb, next, rest, signed, s₁, b, header, ops, hnew, hpot, hsign, -, hmine, hquorum, hbuild,
      hwrite⟩
  · exact ⟨blocks, by rw [hsame]; exact hs⟩
  have hbuilds := (buildChainBlock_eq_ok_iff _ _ _ _ _ _ _).mp hbuild
  obtain ⟨-, -, hoperations⟩ := signNextBlock_same hread m p hnode i pb next signed s s₁ hsign
  obtain ⟨hbuilt, hnewly⟩ := tick_writesNew hread hsigs hsize m p hnode i pb next signed rest s s₁ b
    header ops hnew hpot hsign hmine hquorum hbuilds blocks hs.holds hfits
  have hwrite' : (m.tick p i s).2.chainStore = (s.chainStore.writeBlock b).2 := hwrite
  by_cases haccepts : AcceptsOffset s.chainStore b.totalSize b.offset (endOf blocks)
  · obtain ⟨-, hwell, hat, hheader, hids⟩ := hnewly haccepts
    have haligned : WriteAligned s.chainStore b := fun seg hseg _ => hs.inStep seg hseg
    obtain ⟨s', hstore, hholds⟩ := writeBlock_holds True s.chainStore blocks b hs.holds
      hwell.toFramed hwell.indexable hat haligned
    refine ⟨blocks ++ [b], ?_, ?_, ?_⟩
    · rw [hwrite', hstore]
      exact hholds
    · rw [hwrite']
      exact writeBlock_inStep True s.chainStore blocks b hs.holds hs.inStep
    · rw [CommittedOnce, List.pairwise_append]
      refine ⟨hs.once, List.pairwise_singleton _ _, ?_⟩
      intro c hc b' hb' id hcid hbid
      obtain rfl := List.mem_singleton.mp hb'
      obtain ⟨hs', hhs', x, hx, rfl⟩ := (builds_contains_iff _ _ _ _ _ _ _ hbuilds
        (by rw [hoperations]; exact hheader) id).mp hbid
      exact not_contains_of_none s.chainStore blocks hs.holds x.operationId
        (hids x.operationId (hbuilt.listed hs' hhs' x hx)) c hc hcid
  · refine ⟨blocks, ?_, ?_, hs.once⟩
    · rw [hwrite']
      exact (writeBlock_rejects True s.chainStore blocks b header hs.holds hbuilds.reader
        hbuilt.offset haccepts).2
    · rw [hwrite']
      exact writeBlock_inStep True s.chainStore blocks b hs.holds hs.inStep

/-- The condition on a step of a run. -/
def StepFits (e : Inner) (n : Node DirectoryChainStore) : NodeStep → Prop
  | .commitTick i => TickFits e.commitManager i n.state
  | _ => True

/-- The other calls do not touch the chain. -/
theorem step_holdsOnce (hread : OperationsReadBack) (hsigs : SignaturesReadBack)
    (hsize : SignaturesSizeFits) (e : Inner)
    (hnode : NodeIdReadsBack e.commitManager.cell.localNode) (n : Node DirectoryChainStore)
    (a : NodeStep) (h : ∃ blocks, HoldsOnce n.chainStore blocks) (ha : StepFits e n a) :
    ∃ blocks, HoldsOnce (e.step n a).chainStore blocks := by
  cases a with
  | pendingSyncRequest fromNode request => exact h
  | newOperation operation => exact h
  | pendingTick canSendRequest => exact h
  | commitTick i =>
    obtain ⟨blocks, hblocks⟩ := h
    exact tick_holdsOnce hread hsigs hsize e.commitManager e.pendingSynchronizer i hnode n.state
      blocks hblocks ha

/-- Along a run, the blocks that the chain iterates over have no operation in common. -/
theorem run_committedOnce (hread : OperationsReadBack) (hsigs : SignaturesReadBack)
    (hsize : SignaturesSizeFits) (e : Inner)
    (hnode : NodeIdReadsBack e.commitManager.cell.localNode) (start : Node DirectoryChainStore)
    (blocks : List DataBlock) (hstart : HoldsOnce start.chainStore blocks) (steps : List NodeStep)
    (hrun : Run.Allowed e.step (StepFits e) start steps) :
    ∃ blocks', (Run.exec e.step start steps).chainStore.blocksIter 0 = blocks'.map .ok ∧
      CommittedOnce blocks' := by
  obtain ⟨blocks', hblocks'⟩ := Run.exec_invariant e.step (StepFits e)
    (fun n => ∃ blocks, HoldsOnce n.chainStore blocks)
    (step_holdsOnce hread hsigs hsize e hnode) start steps ⟨blocks, hstart⟩ hrun
  exact ⟨blocks', (storeHolds_readsAs _ _ _ hblocks'.holds).iter, hblocks'.once⟩

end Ticks

section Samples

attribute [local instance] commitCrates

theorem commitTables_signatures : SignaturesReadBack :=
  signaturesReadBack_tables commitTables (by decide +kernel) (by decide +kernel)

theorem commitTables_sizes : SignaturesSizeFits :=
  signaturesSizeFits_tables commitTables (by decide +kernel)

theorem genesisChain_holdsOnce : HoldsOnce genesisChain [genesisBlock] := by
  refine ⟨genesisChain_holds, ?_, List.pairwise_singleton _ _⟩
  have hlast : genesisChain.segments.getLast?.all (fun seg =>
      decide (seg.nextFileOffset = seg.nextBlockOffset - seg.firstBlockOffset)) = true := by
    decide +kernel
  intro seg hseg
  rw [hseg, Option.all_some, decide_eq_true_eq] at hlast
  exact hlast

theorem genesisNode_chainStore : genesisNode.chainStore = genesisChain := by
  simp only [genesisNode]

/-- Ids of the operations in a block. -/
def containedIds (b : DataBlock) : List ℕ :=
  (b.operations.toOption.getD []).filterMap fun f => f.frame.reader.map ChainOperation.operationId

theorem contains_of_mem (b : DataBlock) (id : ℕ) (h : id ∈ containedIds b) : Contains b id := by
  obtain ⟨f, hf, hid⟩ := List.mem_filterMap.mp h
  obtain ⟨r, hr, rfl⟩ := Option.map_eq_some_iff.mp hid
  cases hops : b.operations with
  | error e => simp [hops, Except.toOption] at hf
  | ok frames =>
    simp only [hops, Except.toOption, Option.getD_some] at hf
    exact ⟨frames, hops, f, hf, r, hr, rfl⟩

example : containedIds genesisBlock = [] := by decide +kernel

def signedNode : Node DirectoryChainStore := firstEngine.step genesisNode receiveSigned

/-- What the tick reads in the state: the best block and its header, the entry and the range
that stands for it, and the last block. -/
theorem signedNode_reads :
    (bestNextBlock firstEngine.commitManager (tickAt 110) signedNode.state).map (fun best =>
      (best.2.hasMySignature, best.2.operations, best.2.proposal.getBlock)) =
        some (false, [50], .ok ⟨sizedBytes (proposedMessage nextHeader ++ nextHeaderMultihash),
          nextHeaderMultihash, some nextHeader⟩) ∧
      signedNode.state.pendingStore.getOperation 50 =
        some ⟨50, 50, .entry, .unknown, fiftyFrame⟩ ∧
      framesData (storedFrames signedNode.state.pendingStore [50]) = fiftyFrame.wholeData ∧
      signedNode.state.chainStore.getLastBlock = .ok (some genesisBlock) := by
  decide +kernel

theorem signedNode_fits : HeaderFits signedNode.state.pendingStore [50] nextHeader := by
  obtain ⟨-, hentry, hdata, -⟩ := signedNode_reads
  refine ⟨[⟨50, 0, 170⟩], rfl, ?_, ?_⟩
  · rw [hdata]
    decide +kernel
  · intro x hx
    obtain rfl := List.mem_singleton.mp hx
    refine ⟨⟨_, hentry, ?_⟩, by decide⟩
    rw [hdata]
    decide +kernel

theorem signedNode_tickFits :
    TickFits firstEngine.commitManager (tickAt 110) signedNode.state := by
  obtain ⟨hknown, -, -, hlast⟩ := signedNode_reads
  constructor
  · intro pb next hbest _ _
    rw [hbest] at hknown
    simp only [Option.map_some, Option.some.injEq, Prod.mk.injEq] at hknown
    obtain ⟨-, hids, -⟩ := hknown
    rw [hids]
    decide
  · intro pb next frame header hbest hframe hreader _
    rw [hbest] at hknown
    simp only [Option.map_some, Option.some.injEq, Prod.mk.injEq] at hknown
    obtain ⟨hmine, hids, hblock⟩ := hknown
    rw [hblock] at hframe
    obtain rfl := Except.ok.inj hframe
    obtain rfl := Option.some.inj hreader
    refine ⟨?_, ?_, ?_, ?_⟩
    · intro htrue
      rw [hmine] at htrue
      exact absurd htrue Bool.false_ne_true
    · exact sizedCheck_sound _ (by decide +kernel)
    · rw [hids]
      exact signedNode_fits
    · intro tip htip
      rw [hlast] at htip
      rw [← Option.some.inj (Except.ok.inj htip)]
      decide +kernel

/-- A proposal that was not signed before is checked, and committed once. -/
theorem run_committedOnce_signed :
    ∃ blocks, (Run.exec firstEngine.step genesisNode
        [receiveSigned, .commitTick (tickAt 110)]).chainStore.blocksIter 0 = blocks.map .ok ∧
      CommittedOnce blocks := by
  have hstart : HoldsOnce genesisNode.chainStore [genesisBlock] := by
    rw [genesisNode_chainStore]
    exact genesisChain_holdsOnce
  apply run_committedOnce commitTables_readBack commitTables_signatures commitTables_sizes
    firstEngine (by decide +kernel) genesisNode [genesisBlock] hstart
  have hfits := signedNode_tickFits
  rw [signedNode] at hfits
  exact ⟨trivial, hfits, trivial⟩

/-- Another proposal with the same entry, which both nodes have signed already. -/
def receiveRepeated : NodeStep :=
  receive repeatedHash [proposeBytes repeatHeader repeatHeaderMultihash repeatMultihash,
    signBytes 200 201 firstNodeText sign201Multihash,
    signBytes 200 203 otherNodeText sign203Multihash]

def repeatedSteps : List NodeStep :=
  [receiveSigned, .commitTick (tickAt 110), receiveRepeated, .commitTick (tickAt 210)]

theorem repeatedSteps_blocks :
    ((Run.exec firstEngine.step genesisNode repeatedSteps).chainStore.blocksIter 0).map
      (fun r => r.toOption.map containedIds) = [some [], some [50], some [50]] := by
  decide +kernel

/-- The entry is in the second and in the third block. -/
theorem repeatedEntry_not_committedOnce :
    ¬ ∃ blocks, (Run.exec firstEngine.step genesisNode repeatedSteps).chainStore.blocksIter 0 =
      blocks.map .ok ∧ CommittedOnce blocks := by
  rintro ⟨blocks, hiter, honce⟩
  have hids := repeatedSteps_blocks
  rw [hiter, List.map_map] at hids
  have hids' : blocks.map containedIds = [[], [50], [50]] := by
    have hsome : blocks.map (fun b => some (containedIds b)) = [some [], some [50], some [50]] :=
      hids
    have hmap : (blocks.map containedIds).map some = [[], [50], [50]].map some := by
      rw [List.map_map]
      exact hsome
    exact (List.map_injective_iff.mpr (Option.some_injective _)) hmap
  have hpair : (blocks.map containedIds).Pairwise fun l r => ∀ id, id ∈ l → id ∉ r := by
    rw [List.pairwise_map]
    refine honce.imp ?_
    intro b c hbc id hb hc
    exact hbc id (contains_of_mem b id hb) (contains_of_mem c id hc)
  rw [hids'] at hpair
  revert hpair
  decide

end Samples

end Exocore.Engine
