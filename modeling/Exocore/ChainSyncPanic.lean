import Exocore.ChainReceived
import Exocore.ChainSyncDiverge
import Exocore.ChainSyncPositions
import Exocore.PendingSyncPanic

/-! Ticks and messages that the chain synchronizer gets through without a panic, as it is compiled
with overflow checks. -/
namespace Exocore.Engine

open Exocore.Core Exocore.Chain

section Checks

theorem noPanic_wordSub (a b : ℕ) (h : b ≤ a) : NoPanic (wordSub true a b) := by
  rw [wordSub, if_pos h]
  exact noPanic_ok _

theorem noPanic_wordSucc (a : ℕ) (h : a + 1 < 2^64) : NoPanic (wordSucc true a) := by
  rw [wordSucc, if_pos h]
  exact noPanic_ok _

theorem noPanic_commonBlocksHeightDelta (info : NodeSyncInfo)
    (h : ∀ common ∈ info.lastCommonBlock, ∀ known ∈ info.lastKnownBlock,
      common.height ≤ known.height) : NoPanic (info.commonBlocksHeightDelta true) := by
  rw [NodeSyncInfo.commonBlocksHeightDelta]
  cases hcommon : info.lastCommonBlock with
  | none => exact noPanic_ok _
  | some common =>
    cases hknown : info.lastKnownBlock with
    | none => exact noPanic_ok _
    | some known =>
      apply noPanic_bind
      · apply noPanic_wordSub
        exact h common hcommon known hknown
      · exact fun _ _ => noPanic_pure _

theorem noPanic_fromStoredBlock (b : DataBlock) : NoPanic (BlockMetadata.fromStoredBlock b) := by
  apply noPanic_bind _ _ (noPanic_orError _ _)
  intro reader _
  exact noPanic_bind _ _ (noPanic_orError _ _) fun _ _ => noPanic_pure _

theorem noPanic_fromBlockPartialMetadataReader (header : BlockPartialHeader) :
    NoPanic (BlockMetadata.fromBlockPartialMetadataReader header) := by
  apply noPanic_bind _ _ (noPanic_orError _ _)
  intro hash _
  exact noPanic_bind _ _ (noPanic_orError _ _) fun _ _ => noPanic_pure _

theorem noPanic_storedMetadata (block : Res ChainError DataBlock) (h : NoPanic block) :
    NoPanic (storedMetadata block) := by
  apply noPanic_bind _ _ ((noPanic_liftError _ _).mpr h)
  intro b _
  exact noPanic_fromStoredBlock b

theorem noPanic_getHeight (b : DataBlock) : NoPanic b.getHeight :=
  noPanic_bind _ _ (noPanic_orError _ _) fun _ _ => noPanic_pure _

end Checks

section Tick
variable {CS : Type} [ChainRangeStore CS]

namespace ChainSynchronizer

/-- The last block that is known of the lead node is no lower than the last one in common. -/
def LeadFits (i : ChainSyncInput) (s : ChainSynchronizer) : Prop :=
  s.status = .synchronized → reachesMajority i s = true → s.imLeader = false →
    ∀ lead ∈ s.leader, ∀ common ∈ (s.nodeInfo lead).lastCommonBlock,
      ∀ known ∈ (s.nodeInfo lead).lastKnownBlock, common.height ≤ known.height

instance (i : ChainSyncInput) (s : ChainSynchronizer) : Decidable (LeadFits i s) := by
  unfold LeadFits
  infer_instance

theorem noPanic_lastLocalBlock (s : ChainSyncState CS) (h : NoPanic (ChainStore.getLastBlock s.store)) :
    NoPanic (lastLocalBlock s).1 := (noPanic_liftError _ _).mpr h

theorem noPanic_isDivergent (info : NodeSyncInfo) (store : CS)
    (h : NoPanic (ChainStore.getLastBlock store)) : NoPanic (info.isDivergent store) := by
  have hlast := (noPanic_liftError EngineError.chainStore _).mpr h
  rw [NodeSyncInfo.isDivergent]
  cases info.lastCommonBlock with
  | none => exact noPanic_bind _ _ hlast fun _ _ => noPanic_pure _
  | some common =>
    cases info.lastKnownBlock with
    | none => exact noPanic_ok _
    | some known =>
      apply noPanic_bind _ _ hlast
      intro last _
      apply noPanic_bind _ _ (noPanic_orError _ _)
      intro b _
      apply noPanic_bind _ _ ((noPanic_liftError _ _).mpr (noPanic_getHeight b))
      exact fun _ _ => noPanic_pure _

theorem noPanic_divergedBlock (info : NodeSyncInfo) (store : CS)
    (h : NoPanic (ChainStore.getLastBlock store)) : NoPanic (divergedBlock info store) := by
  apply noPanic_bind _ _ (noPanic_isDivergent info store h)
  intro isDivergent _
  apply noPanic_ite
  · exact fun _ => (noPanic_liftError _ _).mpr h
  · exact fun _ => noPanic_pure _

theorem noPanic_electLeader (localNode : NodeId) (lastBlock : Option DataBlock)
    (maybeLeader : Option (NodeSyncInfo × ℕ)) :
    NoPanic (electLeader localNode lastBlock maybeLeader) := by
  cases maybeLeader with
  | none => exact noPanic_ok _
  | some candidate =>
    cases lastBlock with
    | none => exact noPanic_ok _
    | some b =>
      apply noPanic_bind _ _ ((noPanic_liftError _ _).mpr (noPanic_getHeight b))
      exact fun _ _ => noPanic_pure _

theorem noPanic_countNonDivergent (nodes : List NodeId) (count : ℕ) (s : ChainSyncState CS)
    (h : NoPanic (ChainStore.getLastBlock s.store)) :
    NoPanic (countNonDivergent nodes count s).1 := by
  induction nodes generalizing count s with
  | nil => exact noPanic_ok _
  | cons nodeId rest ih =>
    rw [countNonDivergent, getOrCreateNodeInfo_bind, Action.get_bind]
    apply noPanic_lift_bind _ _ _ (noPanic_isDivergent _ _ h)
    intro isDivergent _
    exact ih _ _ h

theorem noPanic_findLeaderNode (i : ChainSyncInput) (s : ChainSyncState CS)
    (h : NoPanic (ChainStore.getLastBlock s.store)) : NoPanic (findLeaderNode i s).1 := by
  rw [findLeaderNode, Action.get_bind]
  apply noPanic_action_bind _ _ _ (noPanic_lastLocalBlock s h)
  intro lastBlock s' _
  apply noPanic_lift_bind _ _ _ (noPanic_electLeader _ _ _)
  exact fun _ _ => noPanic_ok _

omit [ChainRangeStore CS] in
theorem noPanic_initiateDownload (i : ChainSyncInput) (lead : NodeId) (info : NodeSyncInfo)
    (s : ChainSyncState CS) : NoPanic (initiateDownload i lead info s).1 := by
  rw [initiateDownload, Action.get_bind]
  split_ifs
  · exact noPanic_ok _
  · exact noPanic_error _
  · exact noPanic_ok _

theorem noPanic_startLeaderDownloading (i : ChainSyncInput) (s : ChainSyncState CS)
    (h : NoPanic (ChainStore.getLastBlock s.store)) :
    NoPanic (startLeaderDownloading i s).1 := by
  rw [startLeaderDownloading, Action.get_bind]
  split_ifs with him
  · exact noPanic_ok _
  · cases s.synchronizer.leader with
    | none => exact noPanic_ok _
    | some lead =>
      simp only [getOrCreateNodeInfo_bind]
      split_ifs with hfull
      · exact noPanic_ok _
      · apply noPanic_lift_bind _ _ _ (noPanic_divergedBlock _ _ h)
        intro diverged _
        split_ifs
        · exact noPanic_error _
        · exact noPanic_initiateDownload i lead _ _

theorem noPanic_electAndDownload (i : ChainSyncInput) (s : ChainSyncState CS)
    (h : NoPanic (ChainStore.getLastBlock s.store)) : NoPanic (electAndDownload i s).1 := by
  rw [electAndDownload_eq]
  have hcount := noPanic_countNonDivergent s.synchronizer.otherChainNodes 1 s h
  have hquiet := countNonDivergent_quiet s.synchronizer.otherChainNodes 1 s
  generalize countNonDivergent s.synchronizer.otherChainNodes 1 s = counted at hcount hquiet
  obtain ⟨r, s1⟩ := counted
  have h1 : NoPanic (ChainStore.getLastBlock s1.store) := by
    rw [show s1.store = s.store from hquiet.store]
    exact h
  cases r with
  | error e => exact noPanic_error_of e hcount
  | ok nbNonDivergent =>
    simp only
    split_ifs with hquorum hnone
    · apply noPanic_action_bind _ _ _ (noPanic_findLeaderNode i s1 h1)
      intro _ s2 hfind
      apply noPanic_startLeaderDownloading
      rw [show s2.store = s1.store from ?_]
      · exact h1
      · have hwatch := findLeaderNode_watches i s1
        rw [hfind] at hwatch
        exact hwatch.store
    · exact noPanic_startLeaderDownloading i s1 h1
    · exact noPanic_error _

omit [ChainRangeStore CS] in
theorem noPanic_loseLeader (i : ChainSyncInput) (s : ChainSyncState CS)
    (hchecks : i.overflowChecks = true)
    (h : s.synchronizer.status = .synchronized → s.synchronizer.imLeader = false →
      ∀ lead ∈ s.synchronizer.leader,
        ∀ common ∈ (s.synchronizer.nodeInfo lead).lastCommonBlock,
        ∀ known ∈ (s.synchronizer.nodeInfo lead).lastKnownBlock, common.height ≤ known.height) :
    NoPanic (loseLeader i s).1 := by
  rw [loseLeader, Action.get_bind]
  split_ifs with hsync
  · cases hlead : s.synchronizer.leader with
    | none => exact noPanic_ok _
    | some lead =>
      simp only [getOrCreateNodeInfo_bind, hchecks]
      apply noPanic_lift_bind
      · apply noPanic_commonBlocksHeightDelta
        exact h hsync.1 (by simpa using hsync.2) lead hlead
      · intro delta _
        split_ifs <;> exact noPanic_ok _
  · exact noPanic_ok _

/-- A tick reads the last block and subtracts two heights that are known of the lead node. -/
theorem noPanic_tick (i : ChainSyncInput) (s : ChainSyncState CS) (hkeyed : s.synchronizer.Keyed)
    (hchecks : i.overflowChecks = true) (hlast : NoPanic (ChainStore.getLastBlock s.store))
    (hlead : LeadFits i s.synchronizer) : NoPanic (tick i s).1 := by
  obtain ⟨hchecked, -⟩ := checkNodesStatus_spec i s.synchronizer hkeyed
  have hmajority := checkNodesStatus_majority i s.synchronizer hkeyed
  rw [tick_eq]
  generalize checkNodesStatus i s.synchronizer = checked at hchecked hmajority
  simp only [hmajority]
  have hread := (noPanic_liftError EngineError.chainStore _).mpr hlast
  cases hget : liftError EngineError.chainStore (ChainStore.getLastBlock s.store) with
  | error e =>
    rw [hget] at hread
    exact noPanic_error_of e hread
  | ok lastBlock =>
    simp only
    have hlose : NoPanic (loseLeader i
        { s with synchronizer := loseMajority (reachesMajority i s.synchronizer) checked.2 }).1 := by
      apply noPanic_loseLeader i _ hchecks
      intro hsync him lead hmem
      -- the status is only kept with a majority, and the checks leave the blocks of an info
      rw [loseMajority] at hsync him hmem ⊢
      by_cases hlost : checked.2.status = .synchronized ∧ !reachesMajority i s.synchronizer
      · rw [if_pos hlost] at hsync
        simp at hsync
      · rw [if_neg hlost] at hsync him hmem ⊢
        have hreach : reachesMajority i s.synchronizer = true := by
          by_contra hnone
          exact hlost ⟨hsync, by simpa using hnone⟩
        simp only [imLeader, isLeader, hchecked.leader, hchecked.cell] at him hmem
        have hfits := hlead (hchecked.status ▸ hsync) hreach him lead hmem
        rcases hchecked.infos lead with hsame | hsame
        · rw [hsame]
          exact hfits
        · rw [hsame]
          exact hfits
    have hstore := (loseLeader_watches i
      { s with synchronizer := loseMajority (reachesMajority i s.synchronizer) checked.2 }).store
    generalize loseLeader i _ = lost at hlose hstore
    obtain ⟨r, s1⟩ := lost
    have h1 : NoPanic (ChainStore.getLastBlock s1.store) := by
      rw [show s1.store = s.store from hstore]
      exact hlast
    cases r with
    | error e => exact noPanic_error_of e hlose
    | ok _ =>
      have hend : ∀ s' : ChainSyncState CS, NoPanic (synchronizeNodesMetadata i
          s1.synchronizer.otherChainNodes s').1 := by
        intro s'
        rw [(synchronizeNodesMetadata_quiet i _ s').1]
        exact noPanic_ok _
      simp only
      split_ifs
      · have helect := noPanic_electAndDownload i s1 h1
        generalize electAndDownload i s1 = elected at helect
        obtain ⟨r, s2⟩ := elected
        cases r with
        | error e => exact noPanic_error_of e helect
        | ok _ => exact hend s2
      · exact hend s1

end ChainSynchronizer

end Tick

section Requests
variable {CS : Type} [ChainRangeStore CS]

/-- The heights of the first block of a slice and of its last one, where the slice can be read. -/
def sliceHeights (store : CS) (fromOffset toOffset : Option ℕ) : Option (ℕ × ℕ) := do
  let lastBlock ← (sliceLastBlock store toOffset).toOption
  let lastReader ← (← lastBlock).header.reader
  let start ← (sliceStart store (fromOffset.getD 0)).toOption
  let firstBlock ← (sliceFirstBlock (ChainRangeStore.blocksIter store start)).toOption
  let firstReader ← firstBlock.header.reader
  pure (firstReader.height, lastReader.height)

/-- The slice does not end before it starts, and the store reads the blocks of it. -/
@[mk_iff]
structure SliceFits (store : CS) (fromOffset toOffset : Option ℕ) (config : ChainSyncConfig) :
    Prop where
  lastBlock : NoPanic (sliceLastBlock store toOffset)
  start : NoPanic (sliceStart store (fromOffset.getD 0))
  blocks : OnOk (sliceStart store (fromOffset.getD 0)) fun start =>
    ∀ block ∈ ChainRangeStore.blocksIter store start, NoPanic block
  heights : ∀ h ∈ sliceHeights store fromOffset toOffset, h.1 ≤ h.2 ∧ h.2 - h.1 + 1 < 2^64
  sampledCount : config.metadataSyncSampledCount ≠ 0

instance (store : CS) (fromOffset toOffset : Option ℕ) (config : ChainSyncConfig) :
    Decidable (SliceFits store fromOffset toOffset config) := decidable_of_iff' _ (sliceFits_iff ..)

/-- The store reads the first blocks of the range, of its segments, and its last blocks. -/
@[mk_iff]
structure BoundariesFit (store : CS) (rangeSegments : List Segment)
    (fromOffset toOffset : Option ℕ) (config : ChainSyncConfig) : Prop where
  begins : ∀ block ∈ (ChainRangeStore.blocksIter store (fromOffset.getD 0)).take
    config.metadataSyncBeginCount, NoPanic block
  segments : ∀ segment ∈ rangeSegments, NoPanic (ChainStore.getBlock store segment.start)
  lastBlock : NoPanic (ChainStore.getLastBlock store)
  ends : OnOk (ChainStore.getLastBlock store) fun lastBlock =>
    ∀ stop ∈ toOffset.or (lastBlock.map DataBlock.nextOffset),
      NoPanic (ChainRangeStore.getBlockFromNextOffset store stop) ∧
        ∀ block ∈ (ChainRangeStore.blocksIterReverse store stop).take
          config.metadataSyncEndCount, NoPanic block

instance (store : CS) (rangeSegments : List Segment) (fromOffset toOffset : Option ℕ)
    (config : ChainSyncConfig) :
    Decidable (BoundariesFit store rangeSegments fromOffset toOffset config) :=
  decidable_of_iff' _ (boundariesFit_iff ..)

/-- The headers of the range can be gathered. -/
def HeadersFit (store : CS) (fromOffset toOffset : Option ℕ) (config : ChainSyncConfig) : Prop :=
  let rangeSegments := filterInRange (ChainRangeStore.segments store) fromOffset toOffset
  if rangeSegments.length > config.metadataSyncSegmentsBoundariesThreshold then
    BoundariesFit store rangeSegments fromOffset toOffset config
  else rangeSegments ≠ [] → SliceFits store fromOffset toOffset config

instance (store : CS) (fromOffset toOffset : Option ℕ) (config : ChainSyncConfig) :
    Decidable (HeadersFit store fromOffset toOffset config) :=
  inferInstanceAs (Decidable (ite _ _ _))

/-- A request for a range that the local chain answers without a panic. -/
def SyncRequestFits (store : CS) (config : ChainSyncConfig) (request : ChainSyncRequest) : Prop :=
  match request.requestedDetails with
  | .notInSchema _ => True
  | .headers => HeadersFit store (ChainSynchronizer.offsetOpt request.fromOffset)
      (ChainSynchronizer.offsetOpt request.toOffset) config
  | .blocks => ∀ block ∈ ChainRangeStore.blocksIter store request.fromOffset, NoPanic block

instance (store : CS) (config : ChainSyncConfig) (request : ChainSyncRequest) :
    Decidable (SyncRequestFits store config request) := by
  unfold SyncRequestFits
  split <;> infer_instance

theorem noPanic_sampleBlocks (isIncluded : ℕ → Bool) (blocksCount : ℕ)
    (blocks : List (Res ChainError DataBlock)) (h : ∀ block ∈ blocks, NoPanic block) :
    NoPanic (sampleBlocks isIncluded blocksCount blocks) := by
  induction blocks generalizing blocksCount with
  | nil => exact noPanic_ok _
  | cons block rest ih =>
    have hrest := fun count => ih count fun b hb => h b (List.mem_cons_of_mem _ hb)
    apply noPanic_bind _ _ ((noPanic_liftError _ _).mpr (h block List.mem_cons_self))
    intro b _
    apply noPanic_ite
    · intro _
      apply noPanic_bind _ _ (noPanic_fromStoredBlock b)
      intro blockMeta _
      exact noPanic_bind _ _ (hrest _) fun _ _ => noPanic_pure _
    · exact fun _ => hrest _

theorem sliceHeights_eq (store : CS) (fromOffset toOffset : Option ℕ) (lastBlock : DataBlock)
    (start : ℕ) (firstBlock : DataBlock) (lastReader firstReader : BlockHeader)
    (hlast : sliceLastBlock store toOffset = .ok (some lastBlock))
    (hlastReader : lastBlock.header.reader = some lastReader)
    (hstart : sliceStart store (fromOffset.getD 0) = .ok start)
    (hfirst : sliceFirstBlock (ChainRangeStore.blocksIter store start) = .ok firstBlock)
    (hfirstReader : firstBlock.header.reader = some firstReader) :
    sliceHeights store fromOffset toOffset = some (firstReader.height, lastReader.height) := by
  simp only [sliceHeights, hlast, hstart, hfirst, hlastReader, hfirstReader, Except.toOption,
    Option.bind_eq_bind, Option.bind_some]
  rfl

theorem noPanic_sliceFirstBlock (blocks : List (Res ChainError DataBlock))
    (h : ∀ block ∈ blocks, NoPanic block) : NoPanic (sliceFirstBlock blocks) := by
  cases blocks with
  | nil => exact noPanic_error _
  | cons block rest => exact (noPanic_liftError _ _).mpr (h block List.mem_cons_self)

theorem noPanic_fromSampledChainSlice (store : CS) (fromOffset toOffset : Option ℕ)
    (config : ChainSyncConfig) (h : SliceFits store fromOffset toOffset config) :
    NoPanic (fromSampledChainSlice true store fromOffset toOffset config) := by
  apply noPanic_bind _ _ ((noPanic_liftError _ _).mpr h.lastBlock)
  intro last hlast
  rw [liftError_eq_ok_iff] at hlast
  apply noPanic_bind _ _ (noPanic_orError _ _)
  intro lastBlock hlastBlock
  rw [orError_eq_ok_iff] at hlastBlock
  rw [hlastBlock] at hlast
  apply noPanic_bind _ _ (noPanic_orError _ _)
  intro lastReader hlastReader
  rw [orError_eq_ok_iff] at hlastReader
  apply noPanic_bind _ _ h.start
  intro start hstart
  have hblocks := h.blocks start hstart
  apply noPanic_bind _ _ (noPanic_sliceFirstBlock _ hblocks)
  intro firstBlock hfirst
  apply noPanic_bind _ _ (noPanic_orError _ _)
  intro firstReader hfirstReader
  rw [orError_eq_ok_iff] at hfirstReader
  obtain ⟨hle, hcount⟩ := h.heights _ (sliceHeights_eq store fromOffset toOffset lastBlock start
    firstBlock lastReader firstReader hlast hlastReader hstart hfirst hfirstReader)
  rw [wordSub, if_pos hle, ok_bind, if_neg h.sampledCount]
  apply noPanic_bind _ _ (noPanic_wordSucc _ hcount)
  intro blocksCount _
  apply noPanic_sampleBlocks
  intro block hblock
  exact hblocks block (List.mem_of_mem_take hblock)

theorem noPanic_addSegmentBlocks (store : CS) (segments : List Segment)
    (blocksMeta : List BlockMetadata)
    (h : ∀ segment ∈ segments, NoPanic (ChainStore.getBlock store segment.start)) :
    NoPanic (addSegmentBlocks store segments blocksMeta) := by
  induction segments generalizing blocksMeta with
  | nil => exact noPanic_ok _
  | cons segment rest ih =>
    have hrest := fun metas => ih metas fun s hs => h s (List.mem_cons_of_mem _ hs)
    rw [addSegmentBlocks]
    apply noPanic_ite
    · intro _
      apply noPanic_bind _ _ (noPanic_storedMetadata _ (h segment List.mem_cons_self))
      exact fun _ _ => hrest _
    · exact fun _ => hrest _

omit [ChainRangeStore CS] in
theorem noPanic_addEndBlocks (blocks : List (Res ChainError DataBlock))
    (blocksMeta : List BlockMetadata) (h : ∀ block ∈ blocks, NoPanic block) :
    NoPanic (addEndBlocks blocks blocksMeta) := by
  induction blocks generalizing blocksMeta with
  | nil => exact noPanic_ok _
  | cons block rest ih =>
    have hrest := fun metas => ih metas fun b hb => h b (List.mem_cons_of_mem _ hb)
    rw [addEndBlocks]
    apply noPanic_bind _ _ (noPanic_storedMetadata _ (h block List.mem_cons_self))
    intro blockMeta _
    split_ifs <;> exact hrest _

theorem noPanic_fromSegmentBoundaries (store : CS) (rangeSegments : List Segment)
    (fromOffset toOffset : Option ℕ) (config : ChainSyncConfig)
    (h : BoundariesFit store rangeSegments fromOffset toOffset config) :
    NoPanic (fromSegmentBoundaries store rangeSegments fromOffset toOffset config) := by
  apply noPanic_bind _ _ (noPanic_mapM _ _ fun block hblock =>
    noPanic_storedMetadata block (h.begins block hblock))
  intro begins _
  apply noPanic_bind _ _ (noPanic_addSegmentBlocks store rangeSegments begins h.segments)
  intro blocksMeta _
  apply noPanic_bind _ _ ((noPanic_liftError _ _).mpr h.lastBlock)
  intro lastBlock hlastBlock
  rw [liftError_eq_ok_iff] at hlastBlock
  apply noPanic_bind _ _ (noPanic_orError _ _)
  intro stop hstop
  rw [orError_eq_ok_iff] at hstop
  obtain ⟨hread, hends⟩ := h.ends lastBlock hlastBlock stop hstop
  cases hfound : ChainRangeStore.getBlockFromNextOffset store stop with
  | ok block =>
    apply noPanic_addEndBlocks
    intro b hb
    exact hends b (List.mem_reverse.mp hb)
  | error e =>
    cases e with
    | error e => exact noPanic_pure _
    | panic =>
      rw [hfound] at hread
      exact absurd hread not_noPanic_panic

theorem noPanic_fromStore (store : CS) (fromOffset toOffset : Option ℕ) (config : ChainSyncConfig)
    (h : HeadersFit store fromOffset toOffset config) :
    NoPanic (BlockMetadata.fromStore true store fromOffset toOffset config) := by
  simp only [HeadersFit] at h
  simp only [BlockMetadata.fromStore]
  split_ifs at h ⊢ with hempty hmany
  · exact noPanic_ok _
  · exact noPanic_ok _
  · exact noPanic_fromSegmentBoundaries store _ fromOffset toOffset config h
  · apply noPanic_fromSampledChainSlice store fromOffset toOffset config
    exact h (by simpa using hempty)

namespace ChainSynchronizer

omit [ChainRangeStore CS] in
theorem noPanic_takeBlocks (maxSize dataSize : ℕ) (blocks : List (Res ChainError DataBlock))
    (h : ∀ block ∈ blocks, NoPanic block) : NoPanic (takeBlocks maxSize dataSize blocks) := by
  induction blocks generalizing dataSize with
  | nil => exact noPanic_ok _
  | cons block rest ih =>
    cases block with
    | error e => exact noPanic_error_of e (h (.error e) List.mem_cons_self)
    | ok b =>
      rw [takeBlocks]
      split_ifs
      · apply noPanic_bind _ _ (ih _ fun c hc => h c (List.mem_cons_of_mem _ hc))
        exact fun _ _ => noPanic_pure _
      · exact noPanic_ok _

theorem noPanic_handleSyncRequest (fromNode : NodeId) (request : Option ChainSyncRequest)
    (s : ChainSyncState CS)
    (h : ∀ r ∈ request, SyncRequestFits s.store s.synchronizer.config r) :
    NoPanic (handleSyncRequest true fromNode request s).1 := by
  rw [handleSyncRequest]
  cases request with
  | none => exact noPanic_error _
  | some request =>
    have hfits := h request rfl
    have hconfig := (s.synchronizer.createNodeInfo_eq fromNode).1
    rw [SyncRequestFits] at hfits
    simp only [orError_some, Action.lift_ok_bind]
    cases hdetails : request.requestedDetails with
    | notInSchema code => exact noPanic_error _
    | headers =>
      rw [hdetails] at hfits
      simp only [getOrCreateNodeInfo_bind, Action.get_bind, hconfig]
      apply noPanic_lift_bind _ _ _ (noPanic_fromStore _ _ _ _ hfits)
      exact fun _ _ => noPanic_ok _
    | blocks =>
      rw [hdetails] at hfits
      simp only [getOrCreateNodeInfo_bind, Action.get_bind]
      apply noPanic_lift_bind
      · apply noPanic_bind
        · rw [noPanic_liftError]
          apply noPanic_takeBlocks
          intro block hblock
          exact hfits block (List.mem_of_mem_filter hblock)
        · exact fun _ _ => noPanic_pure _
      · exact fun _ _ => noPanic_ok _

end ChainSynchronizer

end Requests

section Responses
variable {CS : Type} [ChainRangeStore CS]

/-- The local blocks at the offsets of the headers can be read, the heights count on, and the
header of a local block does not end behind the last offset. -/
@[mk_iff]
structure HeadersRead (store : CS) (headers : List BlockPartialHeader) : Prop where
  heights : ∀ header ∈ headers.dropLast, header.height + 1 < 2^64
  blocks : ∀ header ∈ headers, NoPanic (ChainStore.getBlock store header.offset)
  ends : ∀ header ∈ headers, OnOk (ChainStore.getBlock store header.offset) fun b =>
    header.blockHash = some b.header.multihashBytes →
      header.offset + header.blockSize + header.operationsSize + header.signaturesSize < 2^64

instance (store : CS) (headers : List BlockPartialHeader) :
    Decidable (HeadersRead store headers) := decidable_of_iff' _ (headersRead_iff ..)

/-- The last block that is known to be in common ends at an offset. -/
def CommonEnds (info : NodeSyncInfo) : Prop := ∀ b ∈ info.lastCommonBlock, b.nextOffset < 2^64

namespace MetadataScan

theorem noPanic_checkContiguous (height : ℕ) (scan : MetadataScan)
    (h : ∀ last ∈ scan.lastBlockHeight, last + 1 < 2^64) :
    NoPanic (checkContiguous true height scan).1 := by
  rw [checkContiguous]
  cases hlast : scan.lastBlockHeight with
  | none => exact noPanic_ok _
  | some last =>
    simp only [wordSucc, if_pos (h last hlast)]
    exact noPanic_ok _

theorem checkContiguous_lastBlockHeight (height : ℕ) (scan scan' : MetadataScan)
    (h : checkContiguous true height scan = (.ok (), scan')) :
    scan'.lastBlockHeight = some height := by
  rw [checkContiguous] at h
  cases hlast : scan.lastBlockHeight with
  | none =>
    rw [hlast] at h
    rw [← (Prod.mk.inj h).2]
  | some last =>
    simp only [hlast] at h
    cases hsucc : wordSucc true last with
    | error e => exact absurd (congrArg Prod.fst h) (by simp [hsucc])
    | ok expected =>
      rw [hsucc] at h
      rw [← (Prod.mk.inj h).2]

theorem noPanic_checkCommon (store : CS) (header : BlockPartialHeader) (scan : MetadataScan)
    (h : NoPanic (ChainStore.getBlock store header.offset)) :
    NoPanic (checkCommon store header scan).1 := by
  rw [checkCommon]
  by_cases hfirst : scan.firstNonCommonBlock.isSome = true
  · rw [if_pos hfirst]
    exact noPanic_ok _
  · rw [if_neg hfirst]
    cases hblock : ChainStore.getBlock store header.offset with
    | error e =>
      cases e with
      | panic =>
        rw [hblock] at h
        exact absurd h not_noPanic_panic
      | error e =>
        simp only
        split_ifs <;> simp
    | ok localBlock =>
      cases header.blockHash with
      | none => exact noPanic_error _
      | some blockHash =>
        simp only
        split_ifs
        · have hread := noPanic_fromBlockPartialMetadataReader header
          cases hmeta : BlockMetadata.fromBlockPartialMetadataReader header with
          | error e =>
            rw [hmeta] at hread
            exact noPanic_error_of e hread
          | ok block => exact noPanic_ok _
        · exact noPanic_ok _
        · exact noPanic_ok _

omit [ChainRangeStore CS] in
theorem noPanic_checkKnown (header : BlockPartialHeader) (scan : MetadataScan) :
    NoPanic (checkKnown header scan).1 := by
  rw [checkKnown]
  split_ifs
  · have hread := noPanic_fromBlockPartialMetadataReader header
    cases hmeta : BlockMetadata.fromBlockPartialMetadataReader header with
    | error e =>
      rw [hmeta] at hread
      exact noPanic_error_of e hread
    | ok block => exact noPanic_ok _
  · exact noPanic_ok _

theorem checkCommon_lastBlockHeight (store : CS) (header : BlockPartialHeader)
    (scan : MetadataScan) :
    (checkCommon store header scan).2.lastBlockHeight = scan.lastBlockHeight := by
  rcases checkCommon_eq store header scan with hsame | hfirst | ⟨_, _, -, -, -, -, -, hset⟩
  · rw [hsame]
  · rw [hfirst]
  · rw [hset]

theorem checkKnown_lastBlockHeight (header : BlockPartialHeader) (scan : MetadataScan) :
    (checkKnown header scan).2.lastBlockHeight = scan.lastBlockHeight := by
  rcases checkKnown_cases header scan with hsame | ⟨_, -, -, hset⟩
  · rw [hsame]
  · rw [hset]

theorem noPanic_scanHeaders (store : CS) (headers : List BlockPartialHeader) (scan : MetadataScan)
    (hheights : ∀ header ∈ headers.dropLast, header.height + 1 < 2^64)
    (hblocks : ∀ header ∈ headers, NoPanic (ChainStore.getBlock store header.offset))
    (hlast : headers ≠ [] → ∀ last ∈ scan.lastBlockHeight, last + 1 < 2^64) :
    NoPanic (scanHeaders true store headers scan).1 := by
  induction headers generalizing scan with
  | nil => exact noPanic_ok _
  | cons header rest ih =>
    rw [scanHeaders]
    apply noPanic_action_bind _ _ _ (noPanic_checkContiguous _ _ (hlast (by simp)))
    intro _ scan1 h1
    apply noPanic_action_bind _ _ _ (noPanic_checkCommon _ _ _ (hblocks header List.mem_cons_self))
    intro _ scan2 h2
    apply noPanic_action_bind _ _ _ (noPanic_checkKnown _ _)
    intro _ scan3 h3
    -- the next header is compared with the height of this one
    have hheight : scan3.lastBlockHeight = some header.height := by
      calc scan3.lastBlockHeight = (checkKnown header scan2).2.lastBlockHeight := by rw [h3]
        _ = (checkCommon store header scan1).2.lastBlockHeight := by
          rw [checkKnown_lastBlockHeight, h2]
        _ = scan1.lastBlockHeight := checkCommon_lastBlockHeight store header scan1
        _ = some header.height := checkContiguous_lastBlockHeight header.height scan scan1 h1
    apply ih
    · intro x hx
      apply hheights x
      rw [List.dropLast_cons_of_ne_nil (List.ne_nil_of_mem (List.mem_of_mem_dropLast hx))]
      exact List.mem_cons_of_mem _ hx
    · exact fun x hx => hblocks x (List.mem_cons_of_mem _ hx)
    · intro hrest last hmem
      rw [hheight, Option.mem_some_iff] at hmem
      rw [← hmem]
      apply hheights header
      rw [List.dropLast_cons_of_ne_nil hrest]
      exact List.mem_cons_self

theorem scanHeaders_commonEnds (overflowChecks : Bool) (store : CS)
    (headers : List BlockPartialHeader) (scan : MetadataScan) (h : HeadersRead store headers)
    (hscan : CommonEnds scan.info) :
    CommonEnds (scanHeaders overflowChecks store headers scan).2.info := by
  apply scanHeaders_keeps (fun scan' => CommonEnds scan'.info) overflowChecks store headers
  · intro header _ scan' hends
    rw [checkContiguous_info]
    exact hends
  · intro header hmem scan' hends
    rcases checkCommon_cases store header scan' with
      hsame | ⟨localBlock, block, -, hblock, hhash, -, hread, hset⟩
    · rw [hsame]
      exact hends
    · rw [hset]
      intro b hb
      obtain rfl := Option.some.inj hb
      have hend := h.ends header hmem localBlock hblock hhash
      simp only [BlockMetadata.fromBlockPartialMetadataReader, bind_eq_ok_iff, orError_eq_ok_iff,
        pure, Except.pure, Except.ok.injEq] at hread
      obtain ⟨hash, -, previousHash, -, rfl⟩ := hread
      exact hend
  · intro header _ scan' hends
    rcases checkKnown_cases header scan' with hsame | ⟨_, -, -, hset⟩
    · rw [hsame]
      exact hends
    · rw [hset]
      exact hends
  · exact hscan

end MetadataScan

variable [Crates]

namespace ChainSynchronizer

/-- The last local block can be read, and it does not end behind the last offset. -/
def LastBlockFits (store : CS) : Prop :=
  NoPanic (ChainStore.getLastBlock store) ∧
    OnOk (lastLocalMetadata store) fun last => ∀ m ∈ last, m.nextOffset < 2^64

omit [Crates] in
instance (store : CS) : Decidable (LastBlockFits store) := inferInstanceAs (Decidable (_ ∧ _))

/-- The blocks that are accepted are written, and do not end behind the last offset. -/
def WritesFit : CS → Option BlockMetadata → List (Option Bytes) → Prop
  | _, _, [] => True
  | _, _, none :: _ => True
  | store, last, some data :: rest =>
    OnOk (DataBlock.new .ref data) fun b =>
      b.offset = (last.map BlockMetadata.nextOffset).getD 0 →
        NoPanic (ChainStore.writeBlock store b).1 ∧
          OnOk (BlockMetadata.fromStoredBlock b) fun m =>
            m.nextOffset < 2^64 ∧ WritesFit (ChainStore.writeBlock store b).2 (some m) rest

instance decidableWritesFit :
    ∀ (store : CS) (last : Option BlockMetadata) (datas : List (Option Bytes)),
      Decidable (WritesFit store last datas)
  | _, _, [] => isTrue trivial
  | _, _, none :: _ => isTrue trivial
  | _, _, some _ :: rest =>
    have := fun (store : CS) last => decidableWritesFit store last rest
    inferInstanceAs (Decidable (OnOk _ _))

/-- A response that the chain synchronizer gets through without a panic. -/
def SyncResponseFits (s : ChainSynchronizer) (store : CS) (fromNode : NodeId)
    (response : ChainSyncResponse) : Prop :=
  if response.blocks.has then
    s.isLeader fromNode = true → LastBlockFits store ∧
      OnOk (lastLocalMetadata store) fun last => OnOk response.blocks.get (WritesFit store last)
  else response.headers.has = true → OnOk response.headers.get (HeadersRead store)

instance (s : ChainSynchronizer) (store : CS) (fromNode : NodeId) (response : ChainSyncResponse) :
    Decidable (SyncResponseFits s store fromNode response) :=
  inferInstanceAs (Decidable (ite _ _ _))

omit [Crates] in
theorem noPanic_lastLocalMetadata (store : CS) (h : NoPanic (ChainStore.getLastBlock store)) :
    NoPanic (lastLocalMetadata store) := by
  apply noPanic_bind _ _ ((noPanic_liftError _ _).mpr h)
  intro last _
  cases last with
  | none => exact noPanic_ok _
  | some b => exact noPanic_bind _ _ (noPanic_fromStoredBlock b) fun _ _ => noPanic_pure _

/-- The writes go through, and what they leave as the last block ends at an offset. -/
theorem writeIncomingBlocks_fits (datas : List (Option Bytes)) (last : Option BlockMetadata)
    (s : ChainSyncState CS) (hlast : ∀ m ∈ last, m.nextOffset < 2^64)
    (h : WritesFit s.store last datas) :
    NoPanic (writeIncomingBlocks datas last s).1 ∧
      OnOk (writeIncomingBlocks datas last s).1 fun last' => ∀ m ∈ last', m.nextOffset < 2^64 := by
  induction datas generalizing last s with
  | nil =>
    refine ⟨noPanic_ok _, ?_⟩
    intro last' heq
    rw [← Except.ok.inj heq]
    exact hlast
  | cons data rest ih =>
    rw [writeIncomingBlocks]
    cases data with
    | none => exact ⟨noPanic_error _, fun _ heq => by cases heq⟩
    | some bytes =>
      rw [WritesFit] at h
      simp only [orError_some, Action.lift_ok_bind]
      have hnew := noPanic_new_ref bytes
      cases hread : DataBlock.new .ref bytes with
      | error e =>
        rw [hread] at hnew
        have hlift := (noPanic_liftError EngineError.block _).mpr hnew
        exact ⟨noPanic_error_of _ hlift, fun _ heq => by cases heq⟩
      | ok b =>
        simp only [liftError_ok, Action.lift_ok_bind]
        split_ifs with hoffset
        · obtain ⟨hwrite, hrest⟩ := h b hread hoffset
          rw [Action.bind_apply, pushChainEvent]
          simp only [Action.bind_apply, writeChainBlock]
          cases hcall : ChainStore.writeBlock s.store b with
          | mk r store =>
            rw [hcall] at hwrite hrest
            cases r with
            | error e =>
              have hlift := (noPanic_liftError EngineError.chainStore (.error e)).mpr hwrite
              exact ⟨noPanic_error_of _ hlift, fun _ heq => by cases heq⟩
            | ok next =>
              simp only
              have hmeta := noPanic_fromStoredBlock b
              cases hm : BlockMetadata.fromStoredBlock b with
              | error e =>
                rw [hm] at hmeta
                exact ⟨noPanic_error_of e hmeta, fun _ heq => by cases heq⟩
              | ok m =>
                obtain ⟨hend, hfits⟩ := hrest m hm
                apply ih (some m) _ _ hfits
                intro m' hm'
                rw [← Option.some.inj hm']
                exact hend
        · exact ⟨noPanic_error _, fun _ heq => by cases heq⟩

/-- The last common blocks of all nodes end at offsets. -/
def AllCommonEnd (s : ChainSynchronizer) : Prop := ∀ id, CommonEnds (s.nodeInfo id)

omit [Crates] in
theorem allCommonEnd_new (config : ChainSyncConfig) (cell : Cell) :
    (new config cell).AllCommonEnd := fun id b hb => by
  rw [nodeInfo_new] at hb
  cases hb

omit [Crates] [ChainRangeStore CS] in
theorem AllCommonEnd.setNodeInfo {s : ChainSynchronizer} (h : s.AllCommonEnd) (info : NodeSyncInfo)
    (hinfo : CommonEnds info) : (s.setNodeInfo info).AllCommonEnd := by
  intro id
  rw [nodeInfo_setNodeInfo]
  split_ifs
  · exact hinfo
  · exact h id

omit [Crates] [ChainRangeStore CS] in
theorem AllCommonEnd.of_sameInfos {s s' : ChainSynchronizer} (h : s.AllCommonEnd)
    (hsame : SameInfos s s') : s'.AllCommonEnd := by
  intro id
  rw [hsame.infos id]
  exact h id

theorem handleSyncResponseBlocks_fits (fromNode : NodeId) (response : ChainSyncResponse)
    (s : ChainSyncState CS) (hends : s.synchronizer.AllCommonEnd)
    (h : s.synchronizer.isLeader fromNode = true → LastBlockFits s.store ∧
      OnOk (lastLocalMetadata s.store) fun last =>
        OnOk response.blocks.get (WritesFit s.store last)) :
    NoPanic (handleSyncResponseBlocks fromNode response s).1 ∧
      (handleSyncResponseBlocks fromNode response s).2.synchronizer.AllCommonEnd := by
  have hcreated := hends.of_sameInfos (sameInfos_createNodeInfo s.synchronizer fromNode)
  rw [handleSyncResponseBlocks, Action.get_bind]
  split_ifs with hlead
  · exact ⟨noPanic_error _, hends⟩
  · obtain ⟨⟨hread, hlastEnds⟩, hwrites⟩ := h (by simpa using hlead)
    simp only [getOrCreateNodeInfo_bind]
    have hlocal := noPanic_lastLocalMetadata s.store hread
    cases hlast : lastLocalMetadata s.store with
    | error e =>
      rw [hlast] at hlocal
      exact ⟨noPanic_error_of e hlocal, hcreated⟩
    | ok last =>
      simp only [Action.lift_ok_bind]
      have hget := noPanic_listPointer_get response.blocks
      cases hblocks : response.blocks.get with
      | error e =>
        rw [hblocks] at hget
        exact ⟨noPanic_error_of e hget, hcreated⟩
      | ok datas =>
        simp only [Action.lift_ok_bind]
        obtain ⟨hno, hnext⟩ := writeIncomingBlocks_fits datas last
          { s with synchronizer := s.synchronizer.createNodeInfo fromNode }
          (hlastEnds last hlast) (hwrites last hlast datas hblocks)
        have hsync := writeIncomingBlocks_synchronizer datas last
          { s with synchronizer := s.synchronizer.createNodeInfo fromNode }
        rw [Action.bind_apply]
        generalize writeIncomingBlocks datas last
          { s with synchronizer := s.synchronizer.createNodeInfo fromNode } = written
          at hno hnext hsync ⊢
        obtain ⟨r, s'⟩ := written
        have hs' : s'.synchronizer.AllCommonEnd := by
          rw [show s'.synchronizer = _ from hsync]
          exact hcreated
        cases r with
        | error e => exact ⟨noPanic_error_of e hno, hs'⟩
        | ok last' =>
          obtain ⟨hok, -, hset⟩ := continueDownload_cases
            { s.synchronizer.nodeInfo fromNode with lastCommonBlock := last' } s'
          have hinfo := hs'.setNodeInfo
            { s.synchronizer.nodeInfo fromNode with lastCommonBlock := last' } (hnext last' rfl)
          refine ⟨?_, ?_⟩
          · simp only [hok]
            exact noPanic_ok _
          · rcases hset with ⟨heq, -⟩ | ⟨heq, -⟩
            · simp only [heq]
              exact hinfo
            · simp only [heq]
              exact hinfo

omit [Crates] in
theorem handleSyncResponseMetadata_fits (overflowChecks : Bool) (fromNode : NodeId)
    (response : ChainSyncResponse) (s : ChainSyncState CS) (hends : s.synchronizer.AllCommonEnd)
    (h : OnOk response.headers.get (HeadersRead s.store)) :
    (overflowChecks = true →
        NoPanic (handleSyncResponseMetadata overflowChecks fromNode response s).1) ∧
      (handleSyncResponseMetadata overflowChecks fromNode response s).2.synchronizer.AllCommonEnd
        := by
  have hcreated := hends.of_sameInfos (sameInfos_createNodeInfo s.synchronizer fromNode)
  rw [handleSyncResponseMetadata, getOrCreateNodeInfo_bind]
  have hget := noPanic_listPointer_get response.headers
  cases hheaders : response.headers.get with
  | error e =>
    rw [hheaders] at hget
    exact ⟨fun _ => noPanic_error_of e hget, hcreated⟩
  | ok headers =>
    have hread := h headers hheaders
    simp only [Action.lift_ok_bind, Action.get_bind]
    have hno : overflowChecks = true → NoPanic (MetadataScan.scanHeaders overflowChecks s.store
        headers ⟨s.synchronizer.nodeInfo fromNode, false, none, none, true⟩).1 := by
      rintro rfl
      apply MetadataScan.noPanic_scanHeaders s.store headers _ hread.heights hread.blocks
      intro _ _ hmem
      cases hmem
    have hscan := MetadataScan.scanHeaders_commonEnds overflowChecks s.store headers
      ⟨s.synchronizer.nodeInfo fromNode, false, none, none, true⟩ hread (hends fromNode)
    generalize MetadataScan.scanHeaders overflowChecks s.store headers
      ⟨s.synchronizer.nodeInfo fromNode, false, none, none, true⟩ = scanned at hno hscan
    obtain ⟨result, scan⟩ := scanned
    simp only at hno hscan ⊢
    have hset := hcreated.setNodeInfo scan.info hscan
    cases result with
    | error e => exact ⟨fun hchecks => noPanic_error_of e (hno hchecks), hset⟩
    | ok _ =>
      change (_ → NoPanic ((if _ then _ else _ : Action (ChainSyncState CS) EngineError Unit) _).1) ∧
        (((if _ then _ else _ : Action (ChainSyncState CS) EngineError Unit) _).2).synchronizer.AllCommonEnd
      split_ifs
      · exact ⟨fun _ => noPanic_ok _, hset⟩
      · exact ⟨fun _ => noPanic_ok _, hset.setNodeInfo _ hscan⟩
      · exact ⟨fun _ => noPanic_ok _, hset⟩

theorem handleSyncResponse_fits (overflowChecks : Bool) (fromNode : NodeId)
    (response : Option ChainSyncResponse) (s : ChainSyncState CS)
    (hends : s.synchronizer.AllCommonEnd)
    (h : ∀ r ∈ response, SyncResponseFits s.synchronizer s.store fromNode r) :
    (overflowChecks = true → NoPanic (handleSyncResponse overflowChecks fromNode response s).1) ∧
      (handleSyncResponse overflowChecks fromNode response s).2.synchronizer.AllCommonEnd := by
  rw [handleSyncResponse]
  cases response with
  | none => exact ⟨fun _ => noPanic_error _, hends⟩
  | some response =>
    have hfits := h response rfl
    rw [SyncResponseFits] at hfits
    simp only [orError_some, Action.lift_ok_bind]
    -- what is left after the response was handled only creates an info
    have hend : ∀ x : Action (ChainSyncState CS) EngineError Unit,
        (overflowChecks = true → NoPanic (x s).1) ∧ (x s).2.synchronizer.AllCommonEnd →
        (overflowChecks = true → NoPanic ((x >>= fun _ =>
          getOrCreateNodeInfo fromNode >>= fun _ => pure ()) s).1) ∧
          ((x >>= fun _ => getOrCreateNodeInfo fromNode >>= fun _ => pure ()) s).2.synchronizer.AllCommonEnd
        := by
      rintro x ⟨hno, hx⟩
      refine ⟨?_, ?_⟩
      · intro hchecks
        apply noPanic_action_bind _ _ _ (hno hchecks)
        exact fun _ _ _ => noPanic_ok _
      · apply Action.bind_keeps_snd (fun s' => s'.synchronizer.AllCommonEnd) x _ s hx
        intro _
        exact hx.of_sameInfos (sameInfos_createNodeInfo _ fromNode)
    split_ifs at hfits ⊢ with hblocks hheaders
    · obtain ⟨hno, hkeep⟩ := handleSyncResponseBlocks_fits fromNode response s hends hfits
      exact hend _ ⟨fun _ => hno, hkeep⟩
    · exact hend _
        (handleSyncResponseMetadata_fits overflowChecks fromNode response s hends (hfits hheaders))
    · exact hend (pure ()) ⟨fun _ => noPanic_ok _, hends⟩

end ChainSynchronizer

end Responses

section Runs
variable [Crates] {CS : Type} [ChainRangeStore CS]

/-- The call ends with a value or an error when the overflow checks are compiled in. -/
def ChainSyncNode.Survives (n : ChainSyncNode CS) : ChainSyncStep → Prop
  | .tick i => NoPanic (n.call (ChainSynchronizer.tick { i with overflowChecks := true })).1
  | .syncRequest _ fromNode request =>
    NoPanic (n.call (ChainSynchronizer.handleSyncRequest true fromNode request)).1
  | .syncResponse _ fromNode response =>
    NoPanic (n.call (ChainSynchronizer.handleSyncResponse true fromNode response)).1
  | .resetState => True
  | .writeBlock _ => True

/-- The steps whose subtractions, sums and reads of the local chain go well. -/
def ChainSyncNode.StepFits (n : ChainSyncNode CS) : ChainSyncStep → Prop
  | .tick i => NoPanic (ChainStore.getLastBlock n.store) ∧ n.synchronizer.LeadFits i
  | .syncRequest _ _ request =>
    ∀ r ∈ request, SyncRequestFits n.store n.synchronizer.config r
  | .syncResponse _ fromNode response =>
    ∀ r ∈ response, n.synchronizer.SyncResponseFits n.store fromNode r
  | .resetState => True
  | .writeBlock _ => True

instance (n : ChainSyncNode CS) (a : ChainSyncStep) : Decidable (n.StepFits a) := by
  cases a <;> unfold ChainSyncNode.StepFits <;> infer_instance

theorem stepFits_survives (n : ChainSyncNode CS) (a : ChainSyncStep)
    (hkeyed : n.synchronizer.Keyed) (hends : n.synchronizer.AllCommonEnd) (h : n.StepFits a) :
    n.Survives a := by
  cases a with
  | tick i =>
    exact ChainSynchronizer.noPanic_tick { i with overflowChecks := true }
      ⟨n.synchronizer, .new ⟨none⟩, n.store⟩ hkeyed rfl h.1 h.2
  | syncRequest overflowChecks fromNode request =>
    exact ChainSynchronizer.noPanic_handleSyncRequest fromNode request
      ⟨n.synchronizer, .new ⟨none⟩, n.store⟩ h
  | syncResponse overflowChecks fromNode response =>
    exact (ChainSynchronizer.handleSyncResponse_fits true fromNode response
      ⟨n.synchronizer, .new ⟨none⟩, n.store⟩ hends h).1 rfl
  | resetState => trivial
  | writeBlock b => trivial

theorem step_allCommonEnd (n : ChainSyncNode CS) (a : ChainSyncStep)
    (hkeyed : n.synchronizer.Keyed) (hends : n.synchronizer.AllCommonEnd) (h : n.StepFits a) :
    (n.step a).synchronizer.AllCommonEnd := by
  cases a with
  | tick i =>
    have hwatch := ChainSynchronizer.tick_watches i ⟨n.synchronizer, .new ⟨none⟩, n.store⟩ hkeyed
    intro id
    change CommonEnds ((ChainSynchronizer.tick i
      (⟨n.synchronizer, .new ⟨none⟩, n.store⟩ : ChainSyncState CS)).2.synchronizer.nodeInfo id)
    rcases hwatch.infos id with hsame | hsame
    · rw [hsame]
      exact hends id
    · rw [hsame]
      exact hends id
  | syncRequest overflowChecks fromNode request =>
    exact hends.of_sameInfos (ChainSynchronizer.handleSyncRequest_quiet overflowChecks fromNode
      request ⟨n.synchronizer, .new ⟨none⟩, n.store⟩).infos
  | syncResponse overflowChecks fromNode response =>
    exact (ChainSynchronizer.handleSyncResponse_fits overflowChecks fromNode response
      ⟨n.synchronizer, .new ⟨none⟩, n.store⟩ hends h).2
  | resetState => exact ChainSynchronizer.allCommonEnd_new _ _
  | writeBlock b => exact hends

/-- Along every run whose steps fit: no call panics, and the last common blocks end at offsets. -/
theorem run_survives (config : ChainSyncConfig) (cell : Cell) (store : CS)
    (steps : List ChainSyncStep)
    (hsteps : Run.Allowed ChainSyncNode.step ChainSyncNode.StepFits ⟨.new config cell, store⟩
      steps) (before after : List ChainSyncStep) (hsplit : steps = before ++ after) :
    (Run.exec ChainSyncNode.step ⟨.new config cell, store⟩ before).synchronizer.AllCommonEnd ∧
      ∀ a ∈ after.head?,
        (Run.exec ChainSyncNode.step ⟨.new config cell, store⟩ before).Survives a := by
  rw [hsplit, Run.allowed_append_iff] at hsteps
  obtain ⟨hbefore, hafter⟩ := hsteps
  obtain ⟨hconsistent, hends⟩ := Run.exec_invariant ChainSyncNode.step ChainSyncNode.StepFits
    (fun n : ChainSyncNode CS => n.synchronizer.Consistent ∧ n.synchronizer.AllCommonEnd)
    (fun n a h hfits => ⟨chainSyncNode_step_consistent n a h.1,
      step_allCommonEnd n a h.1.keyed h.2 hfits⟩) _ before
    ⟨ChainSynchronizer.consistent_new config cell,
      ChainSynchronizer.allCommonEnd_new config cell⟩ hbefore
  refine ⟨hends, ?_⟩
  cases after with
  | nil =>
    intro _ hmem
    cases hmem
  | cons a rest =>
    intro a' hmem
    obtain rfl := Option.some.inj hmem
    exact stepFits_survives _ a hconsistent.keyed hends hafter.1

end Runs

/-- A header with another height than the block. -/
def lyingHeader (block : DataBlock) (height : ℕ) : Option BlockPartialHeader :=
  (BlockMetadata.fromStoredBlock block).toOption.map fun m =>
    { m.copyIntoBuilder with height := height }

def announces (headers : List (Option BlockPartialHeader)) : ChainSyncStep :=
  .syncResponse true leadNode (some ⟨0, 0, .list headers.reduceOption, .null⟩)

/-- The common block is announced as high, and after the election a next one as low. -/
def sinks : List ChainSyncStep :=
  [.tick promptInput, announces [lyingHeader genesisBlock 5], .tick promptInput,
    announces [lyingHeader secondBlock 0]]

/-- The headers and the block are sent, then the headers are asked for. -/
def downloads : List ChainSyncStep :=
  electsLead ++ [.syncResponse true leadNode (some ⟨0, 254, .null, .list [some secondBlock.asDataVec]⟩),
    .tick promptInput, .syncRequest true leadNode (some ⟨0, 254, .headers⟩),
    .syncRequest true leadNode (some ⟨254, 0, .blocks⟩)]

section Samples

attribute [local instance] syncCrates

/-- A range whose end is before its start, a lead node whose last block is lower than the common
one, and a height that cannot be counted on. -/
theorem sync_panics :
    ¬ (⟨.new .default downloadCell, thirdStore⟩ : ChainSyncNode DirectoryChainStore).Survives
        (.syncRequest true leadNode (some ⟨548, 254, .headers⟩)) ∧
      ¬ (Run.exec ChainSyncNode.step ⟨.new .default downloadCell, firstStore⟩ sinks).Survives
        (.tick promptInput) ∧
      ¬ (⟨.new .default downloadCell, firstStore⟩ : ChainSyncNode DirectoryChainStore).Survives
        (announces [lyingHeader genesisBlock (2^64 - 1), lyingHeader secondBlock 2]) := by
  refine ⟨?_, ?_, ?_⟩
  · unfold ChainSyncNode.Survives
    decide +kernel
  · unfold ChainSyncNode.Survives
    decide +kernel
  · unfold ChainSyncNode.Survives announces
    decide +kernel

/-- Both blocks are announced and the second is written, then it is asked for. -/
theorem downloads_survive :
    (Run.exec ChainSyncNode.step ⟨.new .default downloadCell, firstStore⟩ downloads).Survives
        (.syncRequest true leadNode (some ⟨254, 0, .headers⟩)) ∧
      chainOf (Run.exec ChainSyncNode.step ⟨.new .default downloadCell, firstStore⟩ downloads).store =
        [genesisBlock, secondBlock] := by
  refine ⟨?_, by decide +kernel⟩
  have hallowed : Run.Allowed ChainSyncNode.step ChainSyncNode.StepFits
      ⟨.new .default downloadCell, firstStore⟩
      (downloads ++ [.syncRequest true leadNode (some ⟨254, 0, .headers⟩)]) := by
    decide +kernel
  exact (run_survives .default downloadCell firstStore _ hallowed downloads _ rfl).2 _ rfl

end Samples

end Exocore.Engine
