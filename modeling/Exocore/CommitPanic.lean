import Exocore.CommitBuilt
import Exocore.CommitOnce
import Exocore.CommitOrder
import Exocore.CommitScan
import Exocore.PendingSyncPanic

/-! Ticks of the commit manager that do not panic, and that are not stopped by an operation or a
group of the pending store before they got to the best of the next blocks. -/
namespace Exocore.Engine

open Exocore.Core Exocore.Chain Exocore.Pending SortedMap

section Checks
variable [Crates]

theorem noPanic_proposal_getBlock (proposal : PendingBlockProposal) : NoPanic proposal.getBlock := by
  apply noPanic_bind _ _ (noPanic_orError _ _)
  intro reader _
  split
  · apply noPanic_bind _ _ (noPanic_orError _ _)
    intro data _
    rw [noPanic_liftError]
    exact noPanic_readHeaderFrame data
  · exact noPanic_error _
  · exact noPanic_error _

theorem noPanic_signAndBuild (b : OperationBuilder) : NoPanic b.signAndBuild :=
  noPanic_bind _ _ (noPanic_readOperationFrame _) fun _ _ => noPanic_pure _

theorem noPanic_createBlockSignature (localNode : NodeId) (time : ℕ) (block : PendingBlock) :
    NoPanic (createBlockSignature localNode time block) := by
  apply noPanic_bind _ _ (noPanic_proposal_getBlock _)
  intro _ _
  apply noPanic_bind
  · rw [noPanic_liftError]
    exact noPanic_signAndBuild _
  intro operation _
  apply noPanic_bind
  · rw [noPanic_liftError]
    exact noPanic_orError _ _
  intro reader _
  exact noPanic_bind _ _ (noPanic_signature_fromOperation reader) fun _ _ => noPanic_pure _

theorem noPanic_createBlockRefusal (localNode : NodeId) (time : ℕ) (block : PendingBlock) :
    NoPanic (createBlockRefusal localNode time block) := by
  apply noPanic_bind
  · rw [noPanic_liftError]
    exact noPanic_signAndBuild _
  intro operation _
  apply noPanic_bind
  · rw [noPanic_liftError]
    exact noPanic_orError _ _
  intro reader _
  exact noPanic_bind _ _ (noPanic_refusal_fromOperation reader) fun _ _ => noPanic_pure _

theorem noPanic_getBlockOperations (block : PendingBlock) (store : MemoryPendingStore) :
    NoPanic (getBlockOperations block store) := by
  apply noPanic_bind
  · exact noPanic_mapM _ _ fun _ _ => noPanic_orError _ _
  · exact fun _ _ => noPanic_pure _

/-- What the checks of a candidate ask from the chain store: it answers at the offset that the
header gives for the block before. -/
def PreviousAnswers (chain : DirectoryChainStore) (header : BlockHeader) : Prop :=
  0 < header.height → NoPanic (chain.getBlock header.previousOffset)

theorem noPanic_validateBlockPreviousHash (header : BlockHeader) (chain : DirectoryChainStore)
    (h : PreviousAnswers chain header) : NoPanic (validateBlockPreviousHash header chain) := by
  rw [validateBlockPreviousHash]
  split_ifs with hheight
  · have hanswers := h hheight
    have hget : ChainStore.getBlock chain header.previousOffset =
        chain.getBlock header.previousOffset := rfl
    rw [hget]
    split
    · rename_i hpanic
      exact absurd hpanic hanswers
    · exact noPanic_error _
    · apply noPanic_bind _ _ (noPanic_orError _ _)
      intro previousHash _
      split_ifs
      · exact noPanic_error _
      · exact noPanic_pure _
  · exact noPanic_pure _

variable {chain : DirectoryChainStore} {blocks : List DataBlock}
  (hholds : StoreHolds True chain blocks)
include hholds

theorem getBlockByOperationId_isOk (id : ℕ) : ∃ found, chain.getBlockByOperationId id = .ok found := by
  rcases found_cases chain blocks hholds id with hnone | ⟨b, height, -, -, hfound⟩
  · exact ⟨none, hnone⟩
  · exact ⟨some b, hfound.1⟩

theorem noPanic_checkOperationBlocks (pb : PendingBlocks) (id : ℕ) (groups : List ℕ)
    (hgroups : ∀ g ∈ groups, (pb.blocksStatus.get g).isSome) :
    NoPanic (checkOperationBlocks pb chain id groups) := by
  induction groups with
  | nil => exact noPanic_pure _
  | cons g rest ih =>
    rw [checkOperationBlocks]
    apply noPanic_bind _ _ ((noPanic_orPanic _).mpr (hgroups g List.mem_cons_self))
    intro status _
    split_ifs
    · exact noPanic_pure _
    · obtain ⟨found, hfound⟩ := getBlockByOperationId_isOk hholds id
      have hlookup : ChainStore.getBlockByOperationId chain id = .ok found := hfound
      rw [hlookup, liftError_ok, ok_bind]
      split_ifs
      · exact noPanic_pure _
      · exact ih fun x hx => hgroups x (List.mem_cons_of_mem _ hx)

/-- Each operation of a pending block is in the map, with groups that have a status. -/
theorem noPanic_checkOperations (config : CommitManagerConfig) (now : ℕ) (cell : Cell)
    (store : MemoryPendingStore) (pb : PendingBlocks)
    (hblocks : BlocksOf config now cell store chain pb) (order : ℕ → Sorting.HashOrder)
    (ids : List ℕ) (hids : ∀ id ∈ ids, ∃ block ∈ pb.blocks.values, id ∈ block.operations) :
    NoPanic (checkOperations pb chain order ids) := by
  induction ids with
  | nil => exact noPanic_pure _
  | cons id rest ih =>
    have hlisted := (get_mapOperationsBlocks pb.blocks id).mpr (hids id List.mem_cons_self)
    rw [← hblocks.operations] at hlisted
    obtain ⟨groups, hgroups⟩ := hlisted
    rw [checkOperations, hgroups, orPanic_some, ok_bind]
    apply noPanic_bind
    · apply noPanic_checkOperationBlocks hholds
      intro g hg
      rw [Sorting.HashOrder.mem_order] at hg
      have hmem : g ∈ ((mapOperationsBlocks pb.blocks).get id).getD [] := by
        rw [← hblocks.operations, hgroups]
        exact hg
      obtain ⟨block, hblock, -, rfl⟩ := (mem_mapOperationsBlocks pb.blocks id g).mp hmem
      obtain ⟨g', hg'⟩ := (mem_values_iff pb.blocks block).mp hblock
      obtain ⟨last, -, hof⟩ := hblocks.last
      rw [hblocks.status, (hof g' block hg').groupId_eq, hg']
      rfl
    · intro isClear _
      split_ifs
      · exact ih fun x hx => hids x (List.mem_cons_of_mem _ hx)
      · exact noPanic_pure _

end Checks

section Writes
variable [Crates]

/-- Frames with readable ids in their order are put together without an assertion to fail. -/
theorem noPanic_fromOperationsLoop (frames : List OperationFrame) (last : ℕ) (hasher : Bytes)
    (headers : List BlockOperationHeader) (data : Bytes)
    (hsorted : frames.Pairwise fun f g => ∀ r r', f.frame.reader = some r →
      g.frame.reader = some r' → r.operationId ≤ r'.operationId)
    (hlast : ∀ f ∈ frames, ∀ r, f.frame.reader = some r → last ≤ r.operationId) :
    NoPanic (fromOperationsLoop frames last hasher headers data) := by
  induction frames generalizing last hasher headers data with
  | nil => exact noPanic_ok _
  | cons f rest ih =>
    obtain ⟨hfirst, hrest⟩ := List.pairwise_cons.mp hsorted
    apply noPanic_bind _ _ (noPanic_orError _ _)
    intro reader hreader
    rw [orError_eq_ok_iff] at hreader
    have hle := hlast f List.mem_cons_self reader hreader
    simp only
    rw [if_neg (by omega)]
    exact ih _ _ _ _ hrest fun g hg r hr => hfirst g hg reader r hreader hr

theorem noPanic_fromOperations_stored (store : MemoryPendingStore) (ops : List StoredOperation)
    (hops : ∀ op ∈ ops, store.getOperation op.operationId = some op) :
    NoPanic (BlockOperations.fromOperations
      ((ops.insertionSort fun a b => a.operationId ≤ b.operationId).map StoredOperation.frame)) := by
  apply noPanic_fromOperationsLoop
  · rw [List.pairwise_map]
    have hsorted : (ops.insertionSort fun a b => a.operationId ≤ b.operationId).Pairwise
        fun a b => a.operationId ≤ b.operationId := by
      have htotal : Std.Total fun a b : StoredOperation => a.operationId ≤ b.operationId :=
        ⟨fun a b => Nat.le_total _ _⟩
      have htrans : IsTrans StoredOperation fun a b => a.operationId ≤ b.operationId :=
        ⟨fun a b c hab hbc => le_trans hab hbc⟩
      exact List.pairwise_insertionSort _ _
    refine hsorted.imp_of_mem ?_
    intro a b ha hb hle r r' hr hr'
    rw [List.mem_insertionSort] at ha hb
    obtain ⟨ra, hra, hida, -⟩ := store.getOperation_reads _ a (hops a ha)
    obtain ⟨rb, hrb, hidb, -⟩ := store.getOperation_reads _ b (hops b hb)
    rw [hr] at hra
    rw [hr'] at hrb
    rw [Option.some.inj hra, Option.some.inj hrb, hida, hidb]
    exact hle
  · exact fun _ _ _ _ => Nat.zero_le _

/-- The operations of a block are there, and hash to what its header says. -/
structure HashFits (store : MemoryPendingStore) (ids : List ℕ) (header : BlockHeader) : Prop where
  present : ∀ id ∈ ids, (store.getOperation id).isSome
  hash : ∃ bytes, header.operationsHash = some bytes ∧ Crates.multihashFromBytes bytes =
    some (BlockOperations.hashOperations (storedFrames store ids))

theorem noPanic_buildChainBlock (cell : Cell) (block : PendingBlock) (store : MemoryPendingStore)
    (chain : DirectoryChainStore)
    (hprev : ∀ frame header, block.proposal.getBlock = .ok frame → frame.reader = some header →
      HashFits store block.operations header → PreviousAnswers chain header) :
    NoPanic (buildChainBlock cell block store chain) := by
  apply noPanic_bind _ _ (noPanic_proposal_getBlock _)
  intro frame hframe
  apply noPanic_bind _ _ (noPanic_orError _ _)
  intro header hheader
  rw [orError_eq_ok_iff] at hheader
  apply noPanic_bind _ _ (noPanic_getBlockOperations block store)
  intro operations hoperations
  apply noPanic_bind _ _ (noPanic_orError _ _)
  intro hashBytes hbytes
  apply noPanic_bind _ _ (noPanic_orError _ _)
  intro headerMultihash hmultihash
  rw [orError_eq_ok_iff] at hbytes hmultihash
  obtain ⟨hpresent, rfl⟩ := (getBlockOperations_eq_ok_iff block store operations).mp hoperations
  apply noPanic_bind
  · rw [noPanic_liftError]
    apply noPanic_fromOperations_stored store
    intro op hop
    obtain ⟨id, -, hget⟩ := List.mem_filterMap.mp hop
    rw [store.getOperation_id id op hget]
    exact hget
  intro blockOperations hops
  rw [liftError_eq_ok_iff] at hops
  split_ifs with hother
  · exact noPanic_error _
  · have hhash : HashFits store block.operations header := by
      refine ⟨hpresent, hashBytes, hbytes, ?_⟩
      rw [hmultihash, ← not_not.mp hother, (fromOperations_eq_ok _ _ hops).2.2]
      rfl
    apply noPanic_bind _ _ (noPanic_validateBlockPreviousHash header chain
      (hprev frame header hframe hheader hhash))
    intro _ _
    apply noPanic_bind
    · rw [noPanic_liftError]
      apply noPanic_bind _ _ (noPanic_readSignaturesFrame _)
      intro signatures _
      split_ifs
      · exact noPanic_error _
      · exact noPanic_pure _
    exact fun _ _ => noPanic_pure _

/-- Where the index gets through the operations of a block, it has read what the iterator yields. -/
theorem indexOperations_cases (operationsData : Bytes) (blockOffset : ℕ)
    (headers : List BlockOperationHeader) (i : OperationIndex)
    (hinside : IterInside operationsData headers) :
    NoPanic (OperationIndex.indexOperations operationsData blockOffset headers i).1 ∧
      ((OperationIndex.indexOperations operationsData blockOffset headers i).1 = .ok () →
        ∃ frames, DataBlock.iterOperations operationsData headers = .ok frames ∧
          ∀ f ∈ frames, ∃ r, f.frame.reader = some r) := by
  induction headers generalizing i with
  | nil => exact ⟨noPanic_ok _, fun _ => ⟨[], rfl, fun f hf => by contradiction⟩⟩
  | cons h rest ih =>
    obtain ⟨hfirst, hrest⟩ := hinside
    have hread := (noPanic_readFrame_iff h operationsData).mpr hfirst
    rw [OperationIndex.indexOperations, DataBlock.iterOperations]
    cases hframe : h.readFrame operationsData with
    | error e =>
      rw [hframe] at hread
      cases e with
      | panic => exact absurd rfl hread
      | error e => exact ⟨noPanic_ok _, fun _ => ⟨[], rfl, fun f hf => by contradiction⟩⟩
    | ok frame =>
      simp only
      cases hreader : frame.frame.reader with
      | none => exact ⟨noPanic_error _, fun hok => absurd hok (by simp)⟩
      | some r =>
        obtain ⟨hno, hindexed⟩ := ih (i.putOperationBlock r.operationId blockOffset)
          (hrest ⟨frame, hframe⟩)
        refine ⟨hno, fun hok => ?_⟩
        obtain ⟨frames, hiter, hall⟩ := hindexed hok
        refine ⟨frame :: frames, by rw [hiter]; rfl, ?_⟩
        intro f hf
        rcases List.mem_cons.mp hf with rfl | hf
        · exact ⟨r, hreader⟩
        · exact hall f hf

theorem indexBlock_cases (config : DirectoryChainStoreConfig) (i : OperationIndex) (b : DataBlock)
    (hinside : ∀ headers, b.operationsHeader = .ok headers → IterInside b.operationsData headers) :
    NoPanic (i.indexBlock config b).1 ∧ ((i.indexBlock config b).1 = .ok () → Indexable b) := by
  unfold OperationIndex.indexBlock
  split_ifs
  · exact ⟨noPanic_error _, fun hok => absurd hok (by simp)⟩
  · split
    · exact ⟨noPanic_error _, fun hok => absurd hok (by simp)⟩
    · rename_i header hheader
      simp only
      split
      · exact ⟨noPanic_error _, fun hok => absurd hok (by simp)⟩
      · rename_i headers hlisted
        have hheaders : b.operationsHeader = .ok headers := by
          simp only [DataBlock.operationsHeader, DataBlock.headerReader, hheader, hlisted,
            orError_some, ok_bind]
        obtain ⟨hno, hindexed⟩ := indexOperations_cases b.operationsData b.offset headers
          (i.putOperationBlock header.proposedOperationId b.offset) (hinside headers hheaders)
        split
        · rename_i e i' he
          rw [he] at hno
          exact ⟨noPanic_error_of e hno, fun hok => absurd hok (by simp)⟩
        · rename_i i' hok
          rw [hok] at hindexed
          obtain ⟨frames, hiter, hall⟩ := hindexed rfl
          exact ⟨noPanic_ok _, fun _ => ⟨frames, by rw [DataBlock.operations, hheaders]; exact hiter,
            hall⟩⟩

theorem noPanic_writeSegment (s : DirectoryChainStore) (blocks : List DataBlock) (stop : ℕ)
    (b : DataBlock) (header : BlockHeader) (hsegs : SegmentsHold 0 s.segments blocks stop)
    (hreader : b.header.reader = some header) :
    NoPanic (s.writeSegment b).1 ∧
      ∀ segments, s.writeSegment b = (.ok (), segments) → segments.getLast?.isSome := by
  rw [DirectoryChainStore.writeSegment]
  by_cases hnew : s.needNewSegment b = true
  · rw [if_pos hnew]
    by_cases hexists : header.offset ∈
        (DirectoryChainStore.closeWriteLast s.segments).map (·.firstBlockOffset)
    · simp only [DirectorySegment.create, hreader, orPanic_some, ok_bind, if_pos hexists]
      exact ⟨noPanic_error _, fun segments h => absurd (Prod.mk.inj h).1 (by simp)⟩
    · obtain ⟨seg, hcreate, -⟩ := segment_create_eq s.config _ b header hreader hexists
      simp only [hcreate]
      refine ⟨noPanic_ok _, ?_⟩
      intro segments h
      rw [← (Prod.mk.inj h).2, List.getLast?_concat]
      rfl
  · rw [if_neg hnew]
    rcases List.eq_nil_or_concat s.segments with hnil | ⟨l, seg, hconcat⟩
    · rw [DirectoryChainStore.needNewSegment, hnil] at hnew
      exact absurd rfl hnew
    · rw [List.concat_eq_append] at hconcat
      rw [hconcat] at hsegs ⊢
      obtain ⟨before, bs, -, -, hseg, -⟩ := segmentsHold_snoc _ _ _ _ _ hsegs
      rw [List.getLast?_concat]
      by_cases hoff : b.offset = seg.nextBlockOffset
      · obtain ⟨seg', hwrite, -⟩ := segment_writeBlock_eq s.config seg b hoff
        simp only [hwrite]
        refine ⟨noPanic_ok _, ?_⟩
        intro segments h
        rw [← (Prod.mk.inj h).2, List.getLast?_concat]
        rfl
      · have hother : seg.nextBlockOffset ≠ b.offset := fun heq => hoff heq.symm
        simp [DirectorySegment.writeBlock, hother]

/-- A block is written behind the chain, or the write fails with an error: where it is at the end
its parts are as its header says, and its ranges stand inside of its data. -/
theorem writeBlock_cases (s : DirectoryChainStore) (blocks : List DataBlock) (b : DataBlock)
    (header : BlockHeader) (hholds : StoreHolds True s blocks) (hstep : CursorsInStep s)
    (hheader : b.header.reader = some header)
    (hfits : b.offset = endOf blocks → Framed b ∧
      ∀ headers, b.operationsHeader = .ok headers → IterInside b.operationsData headers) :
    NoPanic (s.writeBlock b).1 ∧
      ∀ next, (s.writeBlock b).1 = .ok next → StoreHolds True (s.writeBlock b).2 (blocks ++ [b]) := by
  by_cases hgood : b.offset = endOf blocks ∧ Indexable b
  · obtain ⟨hend, hread⟩ := hgood
    have haligned : WriteAligned s b := fun seg hseg _ => hstep seg hseg
    obtain ⟨s', hwrite, hholds'⟩ := writeBlock_holds True s blocks b hholds (hfits hend).1 hread hend
      haligned
    rw [hwrite]
    exact ⟨noPanic_ok _, fun _ _ => hholds'⟩
  · obtain ⟨stop, i, hsegs, hindex, hi⟩ := hholds
    obtain ⟨hno, hlast⟩ := noPanic_writeSegment s blocks stop b header hsegs hheader
    -- the index refuses a block that is not at the end of the chain, or that it cannot read
    have hrefuses : NoPanic (i.indexBlock s.config b).1 ∧ (i.indexBlock s.config b).1 ≠ .ok () := by
      by_cases hend : b.offset = endOf blocks
      · obtain ⟨hnoIndex, hindexed⟩ := indexBlock_cases s.config i b (hfits hend).2
        exact ⟨hnoIndex, fun hok => hgood ⟨hend, hindexed hok⟩⟩
      · have hnext : i.nextExpectedOffset ≠ b.offset := by
          rw [hi.next, ← linked_endOf blocks stop (segmentsHold_linked _ _ _ _ hsegs)]
          exact fun heq => hend heq.symm
        rw [OperationIndex.indexBlock, if_pos hnext]
        exact ⟨noPanic_error _, fun hok => absurd hok (by simp)⟩
    rw [DirectoryChainStore.writeBlock]
    rcases hseg : s.writeSegment b with ⟨r, segments⟩
    rw [hseg] at hno hlast
    cases r with
    | error e => exact ⟨noPanic_error_of e hno, fun next h => absurd h (by simp)⟩
    | ok u =>
      obtain ⟨seg, hseg'⟩ := Option.isSome_iff_exists.mp (hlast segments rfl)
      obtain ⟨hnoIndex, hnot⟩ := hrefuses
      simp only [hindex, hseg']
      rcases hblock : i.indexBlock s.config b with ⟨r', i'⟩
      rw [hblock] at hnoIndex hnot
      cases r' with
      | error e => exact ⟨noPanic_error_of e hnoIndex, fun next h => absurd h (by simp)⟩
      | ok u => exact absurd rfl hnot

end Writes

section Stages
variable [Crates] (m : CommitManager) (p : PendingSynchronizer) (i : TickInput)

theorem noPanic_onPending_handleNewOperation (operation : NewOperation)
    (s : CommitState DirectoryChainStore) :
    NoPanic (onPending (p.handleNewOperation operation) s).1 :=
  noPanic_handleNewOperation p operation ⟨s.syncContext, s.pendingStore⟩

theorem noPanic_signNextBlock (pb : PendingBlocks) (next : PendingBlock)
    (s : CommitState DirectoryChainStore) (blocks : List DataBlock)
    (hholds : StoreHolds True s.chainStore blocks)
    (hblocks : BlocksOf m.config i.now m.cell s.pendingStore s.chainStore pb)
    (hnext : pb.blocks.get next.groupId = some next)
    (hprev : ∀ frame header, next.proposal.getBlock = .ok frame → frame.reader = some header →
      next.hasMySignature = false → next.hasMyRefusal = false →
      checkOperations pb s.chainStore i.operationBlocksOrder next.operations = .ok true →
      PreviousAnswers s.chainStore header) : NoPanic (m.signNextBlock p i pb next s).1 := by
  have hcheck (hmine : next.hasMySignature = false ∧ next.hasMyRefusal = false) :
      NoPanic (checkShouldSignBlock pb s.chainStore s.pendingStore
        i.operationBlocksOrder next.groupId) := by
    simp only [checkShouldSignBlock, PendingBlocks.getBlock, hnext, orPanic_some, ok_bind]
    apply noPanic_bind _ _ (noPanic_proposal_getBlock _)
    intro frame hframe
    apply noPanic_bind _ _ (noPanic_orError _ _)
    intro header hheader
    rw [orError_eq_ok_iff] at hheader
    apply noPanic_bind
    · apply noPanic_checkOperations hholds _ _ _ _ pb hblocks
      intro id hid
      exact ⟨next, (mem_values_iff _ _).mpr ⟨next.groupId, hnext⟩, hid⟩
    intro isClear hclear
    split_ifs with htrue
    · rw [htrue] at hclear
      apply noPanic_bind _ _ (noPanic_validateBlockPreviousHash header _
        (hprev frame header hframe hheader hmine.1 hmine.2 hclear))
      intro _ _
      apply noPanic_bind _ _ (noPanic_getBlockOperations next s.pendingStore)
      intro operations _
      apply noPanic_bind _ _ (noPanic_orError _ _)
      intro hashBytes _
      split <;> exact noPanic_pure _
    · exact noPanic_pure _
  rcases signNextBlock_cases m p i pb next s with
    hsame | ⟨hsignature, hrefusal, ⟨e, hshould, herror⟩ | ⟨sign, -, hanswer⟩⟩
  · rw [hsame]
    exact noPanic_ok _
  · have hno := hcheck ⟨hsignature, hrefusal⟩
    rw [hshould] at hno
    rw [herror]
    exact noPanic_error_of e hno
  · rw [hanswer]
    have hcreate : NoPanic (createAnswer m i sign next) := by
      cases sign with
      | true => exact noPanic_createBlockSignature _ _ _
      | false => exact noPanic_createBlockRefusal _ _ _
    apply noPanic_lift_bind _ _ _ hcreate
    intro created _
    exact noPanic_action_bind _ _ _ (noPanic_onPending_handleNewOperation p _ s)
      fun _ _ _ => noPanic_ok _

theorem noPanic_updateCommitStatuses (status : CommitStatus) (ids : List ℕ)
    (s : CommitState DirectoryChainStore) : NoPanic (updateCommitStatuses status ids s).1 := by
  induction ids generalizing s with
  | nil => exact noPanic_ok _
  | cons id rest ih =>
    apply noPanic_action_bind
    · have hno : NoPanic (s.pendingStore.updateOperationCommitStatus id status) := by
        unfold MemoryPendingStore.updateOperationCommitStatus
        split
        · exact noPanic_error _
        · split
          · exact noPanic_error _
          · split
            · exact noPanic_error _
            · exact noPanic_ok _
      rw [updateOperationCommitStatus]
      split
      · exact noPanic_ok _
      · rename_i e he
        rw [he] at hno
        cases e with
        | error e => exact noPanic_error _
        | panic => exact absurd rfl hno
    · exact fun _ s' _ => ih s'

theorem updateCommitStatuses_isSome (status : CommitStatus) (ids : List ℕ)
    (s s' : CommitState DirectoryChainStore) (h : updateCommitStatuses status ids s = (.ok (), s'))
    (id : ℕ) : (s'.pendingStore.getOperation id).isSome = (s.pendingStore.getOperation id).isSome := by
  induction ids generalizing s with
  | nil => rw [(Prod.mk.inj h).2]
  | cons t rest ih =>
    obtain ⟨_, mid, hmid, hrest⟩ := Action.bind_eq_ok _ _ _ _ _ h
    rw [ih mid hrest]
    rw [updateOperationCommitStatus] at hmid
    split at hmid
    · rename_i store hstore
      obtain ⟨-, -, hget⟩ := s.pendingStore.updateOperationCommitStatus_eq_ok store t status hstore
      have hsame := congrArg Option.isSome (hget id)
      rw [Option.isSome_map, Option.isSome_map] at hsame
      rw [← (Prod.mk.inj hmid).2]
      exact hsame
    · exact absurd (Prod.mk.inj hmid).1 (by simp)

/-- What lets a block be committed. -/
def Commits (block : PendingBlock) : Prop :=
  block.hasMySignature = true ∧ m.cell.hasQuorum
    (block.signatures.filter (block.validateSignature m.cell)).length (some .chain) = true

/-- A commit that ends well: it is not made, or the chain has the block that was built behind it,
and the pending store has the same operations. -/
theorem maybeCommitBlock_cases (block : PendingBlock) (s : CommitState DirectoryChainStore)
    (blocks : List DataBlock) (hholds : StoreHolds True s.chainStore blocks)
    (hstep : CursorsInStep s.chainStore)
    (hprev : Commits m block → ∀ frame header, block.proposal.getBlock = .ok frame →
      frame.reader = some header → HashFits s.pendingStore block.operations header →
      PreviousAnswers s.chainStore header)
    (hfits : Commits m block → ∀ b header ops,
      Builds m.cell block s.pendingStore s.chainStore b header ops → b.offset = endOf blocks →
      Framed b ∧ ∀ headers, b.operationsHeader = .ok headers → IterInside b.operationsData headers) :
    NoPanic (m.maybeCommitBlock block s).1 ∧
      ∀ s', m.maybeCommitBlock block s = (.ok (), s') →
        (∀ id, (s'.pendingStore.getOperation id).isSome = (s.pendingStore.getOperation id).isSome) ∧
        (s'.chainStore = s.chainStore ∧ ¬ Commits m block ∨ Commits m block ∧ ∃ b header ops,
          Builds m.cell block s.pendingStore s.chainStore b header ops ∧
            StoreHolds True s'.chainStore (blocks ++ [b])) := by
  rw [CommitManager.maybeCommitBlock]
  split_ifs with hcommits
  · rw [Bool.and_eq_true] at hcommits
    rw [CommitManager.commitBlock, Action.get_bind]
    have hbuildNo := noPanic_buildChainBlock m.cell block s.pendingStore s.chainStore
      (hprev hcommits)
    cases hbuild : buildChainBlock m.cell block s.pendingStore s.chainStore with
    | error e =>
      rw [hbuild] at hbuildNo
      refine ⟨?_, fun s' h => absurd (Prod.mk.inj h).1 (by simp)⟩
      exact noPanic_error_of e hbuildNo
    | ok r =>
      obtain ⟨b, header, ops⟩ := r
      have hbuilds := (buildChainBlock_eq_ok_iff _ _ _ _ _ _ _).mp hbuild
      obtain ⟨hno, hwritten⟩ := writeBlock_cases s.chainStore blocks b header hholds hstep
        hbuilds.reader (hfits hcommits b header ops hbuilds)
      have hsame : ChainStore.writeBlock s.chainStore b = s.chainStore.writeBlock b := rfl
      simp only [Action.lift_ok_bind, hsame]
      rcases hwrite : s.chainStore.writeBlock b with ⟨result, chainStore⟩
      rw [hwrite] at hno hwritten
      cases result with
      | error e =>
        cases e with
        | panic => exact absurd rfl hno
        | error e =>
          refine ⟨?_, fun s' h => ?_⟩
          · cases e <;> exact noPanic_error _
          · cases e <;> exact absurd (Prod.mk.inj h).1 (by simp)
      | ok next =>
        constructor
        · apply noPanic_action_bind _ _ _ (noPanic_ok _)
          intro _ s₁ _
          apply noPanic_action_bind _ _ _ (noPanic_updateCommitStatuses _ _ s₁)
          exact fun _ _ _ => noPanic_ok _
        · intro s' h
          have hmarked : (updateCommitStatuses (.committed block.proposal.offset header.height)
              (ops.headers.map BlockOperationHeader.operationId) >>=
                fun _ => pushNewChainBlock block.proposal.offset)
              { s with chainStore := chainStore } = (.ok (), s') := h
          obtain ⟨_, s₁, hupdate, hpush⟩ := Action.bind_eq_ok _ _ _ _ _ hmarked
          obtain ⟨-, rfl⟩ := Prod.mk.inj hpush
          refine ⟨fun id => updateCommitStatuses_isSome _ _ _ s₁ hupdate id, Or.inr ⟨hcommits, ?_⟩⟩
          have hkeep := updateCommitStatuses_chainStore (.committed block.proposal.offset header.height)
            (ops.headers.map BlockOperationHeader.operationId)
            { s with chainStore := chainStore }
          rw [hupdate] at hkeep
          refine ⟨b, header, ops, hbuilds, ?_⟩
          show StoreHolds True s₁.chainStore (blocks ++ [b])
          rw [hkeep]
          exact hwritten next rfl
  · refine ⟨noPanic_ok _, ?_⟩
    intro s' h
    rw [← (Prod.mk.inj h).2]
    rw [Bool.and_eq_true] at hcommits
    exact ⟨fun _ => rfl, Or.inl ⟨rfl, hcommits⟩⟩

end Stages

section Proposals
variable [Crates] (m : CommitManager) (p : PendingSynchronizer) (i : TickInput)
  {chain : DirectoryChainStore} {blocks : List DataBlock}

theorem operationsToPropose_sublist (hholds : StoreHolds True chain blocks) (pb : PendingBlocks)
    (operations : List StoredOperation) :
    ∃ proposed, operationsToPropose pb chain operations = .ok proposed ∧
      proposed.Sublist operations := by
  induction operations with
  | nil => exact ⟨[], rfl, .slnil⟩
  | cons op rest ih =>
    obtain ⟨others, hothers, hsub⟩ := ih
    obtain ⟨found, hfound⟩ := getBlockByOperationId_isOk hholds op.operationId
    have hlookup : ChainStore.getBlockByOperationId chain op.operationId = .ok found := hfound
    simp only [operationsToPropose, hlookup, hothers, ok_bind]
    split_ifs
    · exact ⟨op :: others, rfl, hsub.cons_cons op⟩
    · exact ⟨others, rfl, hsub.cons op⟩

theorem noPanic_buildWithPrevBlock (previousBlock : DataBlock) (id : ℕ)
    (operations : BlockOperations) :
    NoPanic (BlockBuilder.buildWithPrevBlock m.cell previousBlock id operations) := by
  apply noPanic_bind _ _ (noPanic_orError _ _)
  intro reader _
  apply noPanic_bind _ _ (noPanic_readSignaturesFrame _)
  intro signatures _
  exact noPanic_bind _ _ (noPanic_readHeaderFrame _) fun _ _ => noPanic_pure _

/-- The first operation stands at the start of the data of a block that was just built. -/
theorem firstOperation_inside (hheaders : HeadersReadBack) (previousBlock block : DataBlock) (id : ℕ)
    (frames : List OperationFrame) (operations : BlockOperations) (hfew : frames.length < 2^27)
    (hoperations : BlockOperations.fromOperations frames = .ok operations)
    (hbuild : BlockBuilder.buildWithPrevBlock m.cell previousBlock id operations = .ok block)
    (headers : List BlockOperationHeader) (hread : block.operationsHeader = .ok headers) :
    NoPanic (DataBlock.iterOperations block.operationsData (headers.take 1)) := by
  obtain ⟨hdata, hpositions, -⟩ := fromOperations_eq_ok frames operations hoperations
  obtain ⟨reader, -, hbuild⟩ := (bind_eq_ok_iff _ _ _).mp hbuild
  obtain ⟨-, hblockData, -, hframe⟩ := (buildWithPrevInfo_eq_ok_iff _ _ _ _ _ _ _ block).mp hbuild
  have hlen : operations.headers.length < 2^27 := by rw [hpositions, positions_length]; exact hfew
  have hheader := (hheaders _ operations.headers rfl hlen).2 _ hframe
  have hlisted : headers = operations.headers := by
    simp only [DataBlock.operationsHeader, DataBlock.headerReader, hheader, builtHeader, orError_some,
      ok_bind, Except.ok.injEq] at hread
    exact hread.symm
  rw [noPanic_iterOperations_iff, hlisted, hpositions, hblockData, hdata]
  cases frames with
  | nil => exact trivial
  | cons f rest =>
    refine ⟨?_, fun _ => trivial⟩
    rw [BlockOperationHeader.Inside, framesData_cons, List.length_append]
    have hmod := Nat.mod_le f.wholeData.length (2^32)
    simp only [Nat.zero_mod]
    omega

theorem noPanic_shouldProposeBlock (pb : PendingBlocks) (tip : DataBlock)
    (hlast : chain.getLastBlock = .ok (some tip)) : NoPanic (m.shouldProposeBlock i chain pb) := by
  have hlast' : ChainStore.getLastBlock chain = .ok (some tip) := hlast
  rw [CommitManager.shouldProposeBlock]
  split_ifs
  · exact noPanic_pure _
  · apply noPanic_bind
    · rw [isNodeCommitTurn]
      split
      · exact noPanic_error _
      · exact noPanic_pure _
    intro isTurn _
    split_ifs
    · exact noPanic_pure _
    · simp only [hlast', liftError_ok, ok_bind, orError_some]
      apply noPanic_ite _ _ _ (fun _ => noPanic_pure _)
      intro _
      apply noPanic_bind
      · rw [noPanic_liftError]
        exact noPanic_bind _ _ (noPanic_orError _ _) fun _ _ => noPanic_pure _
      intro previousTime _
      split_ifs <;> exact noPanic_pure _

theorem noPanic_buildProposal (hheaders : HeadersReadBack) (hholds : StoreHolds True chain blocks)
    (pb : PendingBlocks) (store : MemoryPendingStore)
    (hfew : (store.operations.filter fun op => op.operationType = .entry).length < 2^27)
    (tip : DataBlock) (hlast : chain.getLastBlock = .ok (some tip)) :
    NoPanic (m.buildProposal i pb store chain) := by
  have hlast' : ChainStore.getLastBlock chain = .ok (some tip) := hlast
  obtain ⟨proposed, hproposed, hsub⟩ := operationsToPropose_sublist hholds pb
    (store.operations.filter fun op => op.operationType = .entry)
  have hall := hsub.trans List.filter_sublist
  simp only [CommitManager.buildProposal, hlast', liftError_ok, orError_some, ok_bind,
    store.operationsIter_unbounded,
    hproposed]
  apply noPanic_bind
  · rw [noPanic_liftError]
    apply noPanic_fromOperations_stored store
    intro op hop
    exact (store.mem_operations_iff op).mp (hall.subset hop)
  intro operations hoperations
  rw [liftError_eq_ok_iff] at hoperations
  apply noPanic_bind
  · rw [noPanic_liftError]
    exact noPanic_buildWithPrevBlock m tip i.proposalTime operations
  intro block hblock
  rw [liftError_eq_ok_iff] at hblock
  apply noPanic_bind
  · rw [noPanic_liftError]
    exact noPanic_operationsHeader block
  intro headers hread
  rw [liftError_eq_ok_iff] at hread
  have hlen : ((proposed.insertionSort fun a b => a.operationId ≤ b.operationId).map
      StoredOperation.frame).length < 2^27 := by
    rw [List.length_map, List.length_insertionSort]
    exact lt_of_le_of_lt hsub.length_le hfew
  apply noPanic_bind
  · rw [noPanic_liftError]
    exact firstOperation_inside m hheaders tip block i.proposalTime _ operations hlen hoperations
      hblock headers hread
  intro first _
  split_ifs
  · exact noPanic_pure _
  · apply noPanic_bind
    · rw [noPanic_liftError]
      exact noPanic_signAndBuild _
    exact fun _ _ => noPanic_pure _

theorem noPanic_maybeProposeBlock (hheaders : HeadersReadBack) (pb : PendingBlocks)
    (s : CommitState DirectoryChainStore) (hholds : StoreHolds True s.chainStore blocks)
    (hfew : m.shouldProposeBlock i s.chainStore pb = .ok true →
      (s.pendingStore.operations.filter fun op => op.operationType = .entry).length < 2^27)
    (tip : DataBlock) (hlast : s.chainStore.getLastBlock = .ok (some tip)) :
    NoPanic (m.maybeProposeBlock p i pb s).1 := by
  rw [CommitManager.maybeProposeBlock, Action.get_bind]
  apply noPanic_lift_bind _ _ _ (noPanic_shouldProposeBlock m i pb tip hlast)
  intro shouldPropose hshould
  split_ifs with htrue
  · rw [htrue] at hshould
    rw [CommitManager.proposeBlock, Action.get_bind]
    apply noPanic_lift_bind _ _ _
      (noPanic_buildProposal m i hheaders hholds pb s.pendingStore (hfew hshould) tip hlast)
    intro proposal _
    cases proposal with
    | none => exact noPanic_ok _
    | some operation => exact noPanic_onPending_handleNewOperation p operation s
  · exact noPanic_ok _

/-- A proposal puts one operation in the pending store, under the time it was made at. -/
theorem maybeProposeBlock_getOperation (hread : OperationsReadBack) (pb : PendingBlocks)
    (s : CommitState DirectoryChainStore) (id : ℕ) (hid : id ≠ i.proposalTime) :
    (m.maybeProposeBlock p i pb s).2.pendingStore.getOperation id =
      s.pendingStore.getOperation id := by
  rw [CommitManager.maybeProposeBlock, Action.get_bind]
  rcases Action.lift_bind_cases (m.shouldProposeBlock i s.chainStore pb)
    (fun should => if should then m.proposeBlock p i pb else pure ()) s with
      ⟨e, -, hres⟩ | ⟨should, -, hres⟩
  · rw [hres]
  rw [hres]
  split_ifs
  · rw [CommitManager.proposeBlock, Action.get_bind]
    cases hbuild : m.buildProposal i pb s.pendingStore s.chainStore with
    | error e => rfl
    | ok operation =>
      rw [Action.lift_ok_bind]
      cases operation with
      | none => rfl
      | some operation =>
        simp only
        rw [onPending_pendingStore]
        rcases handleNewOperation_store p operation ⟨s.syncContext, s.pendingStore⟩ with
          ⟨-, hsame⟩ | ⟨existed, store', hstored, hafter⟩
        · rw [hsame]
        · obtain ⟨reader, hreader, htime⟩ := buildProposal_reader hread m i pb _ _ _ hbuild
          obtain ⟨type, -, hget⟩ := MemoryPendingStore.putOperation_getOperation _ _ operation
            existed reader hreader hstored
          rw [hafter, hget, htime, if_neg hid]
  · rfl

end Proposals

section Cleanup
variable [Crates] (m : CommitManager) (i : TickInput)

theorem noPanic_maybeCleanupPendingStore (pb : PendingBlocks) (s : CommitState DirectoryChainStore)
    (blocks : List DataBlock) (tip : DataBlock) (lastHeight : ℕ)
    (hholds : StoreHolds True s.chainStore blocks)
    (hlast : s.chainStore.getLastBlock = .ok (some tip)) (hheight : tip.getHeight = .ok lastHeight)
    (hreads : ∀ g block, pb.blocks.get g = some block →
      (headerOf block.proposal.operation).isSome)
    (hdepth : pb.operationsBlocks.size < pb.entriesOperationsCount → ∀ id,
      (s.pendingStore.getOperation id).isSome → ¬ DepthPanics i pb s.chainStore lastHeight id) :
    NoPanic (m.maybeCleanupPendingStore i pb s).1 := by
  obtain ⟨hsecond, hkeep, hstore⟩ :=
    maybeCleanupPendingStore_eq m i pb s tip lastHeight hlast hheight hreads
  rw [hsecond, CommitManager.cleanupDangling]
  generalize (m.cleanupBlocks lastHeight (pb.inOrder i.blocksOrder) s).2 = s₁ at hkeep hstore ⊢
  split_ifs with hmore
  · have hsize : pb.operationsBlocks.size < pb.entriesOperationsCount := by omega
    rw [← hkeep] at hholds
    obtain ⟨ids, hids, -⟩ := (danglingOperations_eq m i pb s₁.chainStore blocks hholds lastHeight
      s₁.pendingStore.operations).2 (by
        intro op hop hpanics
        have hsome := (exists_operation_iff s₁.pendingStore op.operationId).mp ⟨op, hop, rfl⟩
        rw [hstore] at hsome
        obtain ⟨hgone, hkept⟩ := getOperation_foldl_delete
          ((pb.inOrder i.blocksOrder).flatMap (cleanupIds m lastHeight)) s.pendingStore op.operationId
        by_cases htaken : ∃ t ∈ (pb.inOrder i.blocksOrder).flatMap (cleanupIds m lastHeight),
            Takes s.pendingStore t op.operationId
        · rw [hgone htaken] at hsome
          contradiction
        · rw [(hkept (by simpa using htaken)).1] at hsome
          rw [hkeep] at hpanics
          exact hdepth hsize op.operationId hsome hpanics)
    rw [Action.get_bind, s₁.pendingStore.operationsIter_unbounded, liftError_ok,
      Action.lift_ok_bind, hids, Action.lift_ok_bind,
      deleteOperations_eq]
    exact noPanic_ok _
  · exact noPanic_ok _

end Cleanup

end Exocore.Engine
