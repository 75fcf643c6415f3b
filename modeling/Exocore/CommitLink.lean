import Exocore.ChainTakes
import Exocore.CommitBuild

/-! Where a commit puts its block: what a write does to a store that holds a chain, for any
block, and when the block follows the last one. -/
namespace Exocore.Chain

open Exocore.Core

theorem segmentsCover_append (start stop : ℕ) (l r : List Segment) :
    SegmentsCover start (l ++ r) stop ↔
      ∃ mid, SegmentsCover start l mid ∧ SegmentsCover mid r stop := by
  induction l generalizing start with
  | nil => simp [SegmentsCover]
  | cons seg rest ih =>
    simp only [List.cons_append, SegmentsCover, ih]
    constructor
    · rintro ⟨hstart, mid, hrest, hr⟩
      exact ⟨mid, ⟨hstart, hrest⟩, hr⟩
    · rintro ⟨mid, ⟨hstart, hrest⟩, hr⟩
      exact ⟨hstart, mid, hrest, hr⟩

theorem segmentsCover_stop (start stop stop' : ℕ) (segs : List Segment)
    (h : SegmentsCover start segs stop) (h' : SegmentsCover start segs stop') : stop = stop' := by
  induction segs generalizing start with
  | nil => exact h.symm.trans h'
  | cons seg rest ih => exact ih _ h.2 h'.2

/-- Ranges that end further do not cover the same chain. -/
theorem segmentsCover_snoc_ne (start stop : ℕ) (l : List Segment) (seg : Segment)
    (hne : seg.stop ≠ stop) : ¬ SegmentsCover start (l ++ [seg]) stop := by
  rw [segmentsCover_append]
  rintro ⟨mid, -, -, hstop⟩
  exact hne hstop

/-- The position that a write accepts: the end of the last segment while it has room, and for
a new segment any offset that no segment starts at. -/
def AcceptsOffset (s : DirectoryChainStore) (size offset stop : ℕ) : Prop :=
  if s.segments.getLast?.all (fun seg => seg.nextFileOffset + size > s.config.segmentMaxSize) then
    offset ∉ s.segments.map DirectorySegment.firstBlockOffset
  else offset = stop

theorem needNewSegment_eq (s : DirectoryChainStore) (b : DataBlock) :
    s.needNewSegment b = s.segments.getLast?.all
      (fun seg => seg.nextFileOffset + b.totalSize > s.config.segmentMaxSize) := by
  rw [DirectoryChainStore.needNewSegment]
  cases s.segments.getLast? <;> rfl

section Positions
variable [Crates]

theorem acceptsOffset_iff_takesBlock (strict : Prop) (s : DirectoryChainStore)
    (blocks : List DataBlock) (b : DataBlock) (header : BlockHeader)
    (h : StoreHolds strict s blocks) (hreader : b.header.reader = some header)
    (hoff : b.offset = header.offset) :
    AcceptsOffset s b.totalSize b.offset (endOf blocks) ↔ TakesBlock s b := by
  rw [AcceptsOffset, ← needNewSegment_eq, TakesBlock]
  by_cases hnew : s.needNewSegment b = true
  · rw [if_pos hnew, if_pos hnew, hreader, hoff]
    simp only [Option.some.injEq, exists_eq_left']
  · rw [if_neg hnew, if_neg hnew]
    obtain ⟨stop, i, hsegs, -⟩ := h
    have hend := linked_endOf blocks stop (segmentsHold_linked _ _ _ _ hsegs)
    obtain ⟨l, seg, hconcat⟩ := exists_last_segment s b hnew
    rw [hconcat] at hsegs ⊢
    obtain ⟨-, -, -, -, -, hstop⟩ := segmentsHold_snoc _ _ _ _ _ hsegs
    rw [List.getLast?_concat, hend, ← hstop]
    simp only [Option.some.injEq, exists_eq_left']

/-- A write that does not accept the offset fails, and the store still holds its chain. -/
theorem writeBlock_rejects (strict : Prop) (s : DirectoryChainStore) (blocks : List DataBlock)
    (b : DataBlock) (header : BlockHeader) (h : StoreHolds strict s blocks)
    (hreader : b.header.reader = some header) (hoff : b.offset = header.offset)
    (hnot : ¬ AcceptsOffset s b.totalSize b.offset (endOf blocks)) :
    (∃ e, (s.writeBlock b).1 = .error e) ∧ StoreHolds strict (s.writeBlock b).2 blocks := by
  rw [acceptsOffset_iff_takesBlock strict s blocks b header h hreader hoff] at hnot
  exact h.not_taken b hnot

/-- A store that holds a chain still holds it after a write if and only if the write does not
accept the offset. -/
theorem writeBlock_keeps_iff (strict : Prop) (s : DirectoryChainStore) (blocks : List DataBlock)
    (b : DataBlock) (header : BlockHeader) (h : StoreHolds strict s blocks)
    (hreader : b.header.reader = some header) (hoff : b.offset = header.offset)
    (hpos : 0 < b.totalSize) :
    StoreHolds strict (s.writeBlock b).2 blocks ↔
      ¬ AcceptsOffset s b.totalSize b.offset (endOf blocks) := by
  refine ⟨?_, fun hnot => (writeBlock_rejects strict s blocks b header h hreader hoff hnot).2⟩
  intro hholds haccepts
  rw [acceptsOffset_iff_takesBlock strict s blocks b header h hreader hoff] at haccepts
  obtain ⟨stop, i, hsegs, -⟩ := h
  have hend := linked_endOf blocks stop (segmentsHold_linked _ _ _ _ hsegs)
  have hcover := (storeHolds_readsAs strict _ _ hholds).segments
  rw [hend, DirectoryChainStore.segmentRanges, writeBlock_segments] at hcover
  rcases writeSegment_taken s b haccepts with ⟨-, header', seg, -, hwrite, hfirst, hnext⟩ |
    ⟨-, l, last, seg, hconcat, -, hwrite, hfirst, hnext⟩
  · rw [hwrite, List.map_append, segmentsCover_append] at hcover
    obtain ⟨mid, hmid, hstart, hstop⟩ := hcover
    have hclosed := segmentsHold_closeWriteLast _ _ _ _ hsegs
    have hsame := segmentsCover_stop _ _ _ _ hmid (segmentsHold_cover _ _ _ _ hclosed)
    simp only at hstart
    have hstop' : seg.nextBlockOffset = stop := hstop
    omega
  · rw [hconcat] at hsegs
    obtain ⟨-, -, -, -, -, hstop⟩ := segmentsHold_snoc _ _ _ _ _ hsegs
    rw [hwrite, List.map_append] at hcover
    refine segmentsCover_snoc_ne _ _ _ _ ?_ hcover
    simp only
    omega

end Positions

end Exocore.Chain

namespace Exocore.Engine

open Exocore.Core Exocore.Chain Exocore.Pending

section Links
variable [Crates]

/-- The header follows the block: offset and hash of the block before it, the next height, the
next offset. -/
structure LinksTo (tip : DataBlock) (header : BlockHeader) : Prop where
  previousOffset : header.previousOffset = tip.offset
  previousHash : header.previousHash = some tip.header.multihashBytes
  height : ∃ height, tip.getHeight = .ok height ∧ header.height = height + 1
  offset : header.offset = tip.nextOffset

/-- The checks that a commit makes on a proposal before it writes. -/
structure PassesChecks {CS : Type} [ChainStore CS] (cell : Cell) (block : PendingBlock)
    (store : MemoryPendingStore) (chain : CS) (header : BlockHeader) : Prop where
  present : ∀ id ∈ block.operations, (store.getOperation id).isSome
  readable : ∃ ops, BlockOperations.fromOperations (storedFrames store block.operations) = .ok ops
  hash : ∃ bytes, header.operationsHash = some bytes ∧ Crates.multihashFromBytes bytes =
    some (BlockOperations.hashOperations (storedFrames store block.operations))
  previous : validateBlockPreviousHash header chain = .ok ()
  signatures : ∃ frame, toFrameForExistingBlock (validSignatures cell block) header = .ok frame

/-- The size that a block takes in the chain, known from its header and its operations. -/
def committedSize (frame : BlockHeaderFrame) (header : BlockHeader) (store : MemoryPendingStore)
    (ids : List ℕ) : ℕ :=
  frame.wholeData.length + (framesData (storedFrames store ids)).length + header.signaturesSize

theorem toFrameForExistingBlock_length (signatures : List BlockSignature) (header : BlockHeader)
    (frame : SignaturesFrame) (h : toFrameForExistingBlock signatures header = .ok frame) :
    frame.wholeData.length = header.signaturesSize := by
  simp only [toFrameForExistingBlock, bind_eq_ok_iff] at h
  obtain ⟨f, -, h⟩ := h
  split_ifs at h with hlen
  obtain rfl := Except.ok.inj h
  exact not_not.mp hlen

section Checks
variable {CS : Type} [ChainStore CS]

theorem builds_totalSize (cell : Cell) (block : PendingBlock) (store : MemoryPendingStore)
    (chain : CS) (b : DataBlock) (header : BlockHeader) (ops : BlockOperations)
    (h : Builds cell block store chain b header ops) :
    b.totalSize = committedSize b.header header store block.operations := by
  rw [DataBlock.totalSize, committedSize, builds_data _ _ _ _ _ _ _ h,
    toFrameForExistingBlock_length _ _ _ h.signatures]

theorem passesChecks_of_builds (cell : Cell) (block : PendingBlock) (store : MemoryPendingStore)
    (chain : CS) (b : DataBlock) (header : BlockHeader) (ops : BlockOperations)
    (h : Builds cell block store chain b header ops) :
    PassesChecks cell block store chain header := by
  obtain ⟨bytes, hbytes, hhash⟩ := h.hash
  rw [(fromOperations_eq_ok _ _ h.operations).2.2] at hhash
  exact ⟨h.present, ⟨ops, h.operations⟩, ⟨bytes, hbytes, hhash⟩, h.previous, ⟨_, h.signatures⟩⟩

theorem builds_of_passesChecks (cell : Cell) (block : PendingBlock) (store : MemoryPendingStore)
    (chain : CS) (frame : BlockHeaderFrame) (header : BlockHeader)
    (hframe : block.proposal.getBlock = .ok frame) (hreader : frame.reader = some header)
    (h : PassesChecks cell block store chain header) :
    ∃ b ops, Builds cell block store chain b header ops := by
  obtain ⟨ops, hops⟩ := h.readable
  obtain ⟨bytes, hbytes, hhash⟩ := h.hash
  obtain ⟨sigs, hsigs⟩ := h.signatures
  rw [← (fromOperations_eq_ok _ _ hops).2.2] at hhash
  exact ⟨⟨block.proposal.offset, frame, ops.data, sigs⟩, ops, rfl, hframe, hreader, h.present, hops,
    ⟨bytes, hbytes, hhash⟩, rfl, h.previous, hsigs⟩

theorem getBlock_length_pos (proposal : PendingBlockProposal) (frame : BlockHeaderFrame)
    (h : proposal.getBlock = .ok frame) : 0 < frame.wholeData.length := by
  rw [getBlock_eq_ok_iff] at h
  simp only [headerFrameOf, Option.bind_eq_bind, Option.bind_eq_some_iff] at h
  obtain ⟨reader, -, h⟩ := h
  split at h
  · split at h
    · rename_i data f hread
      obtain rfl := Option.some.inj h
      rw [readHeaderFrame, liftError_eq_ok_iff] at hread
      obtain ⟨n, rest, -, hlen, -⟩ := hashedFrame_read_eq_ok _ _ _ hread
      omega
    · contradiction
  · contradiction

end Checks

/-- A commit leaves the chain as it was, or the block it writes follows the last one, if and
only if each proposal that the checks and the position let through has the height after the
last one, and names the last block and its end. -/
theorem commitBlock_links_iff (strict : Prop) (m : CommitManager) (block : PendingBlock)
    (s : CommitState DirectoryChainStore) (blocks : List DataBlock) (tip : DataBlock)
    (frame : BlockHeaderFrame) (header : BlockHeader)
    (hchain : StoreHolds strict s.chainStore (blocks ++ [tip]))
    (hframe : block.proposal.getBlock = .ok frame) (hreader : frame.reader = some header)
    (hoffset : block.proposal.offset = header.offset) :
    (StoreHolds strict (m.commitBlock block s).2.chainStore (blocks ++ [tip]) ∨
        LinksTo tip header) ↔
      (PassesChecks m.cell block s.pendingStore s.chainStore header →
        AcceptsOffset s.chainStore (committedSize frame header s.pendingStore block.operations)
          header.offset tip.nextOffset →
        (∃ height, tip.getHeight = .ok height ∧ header.height = height + 1) ∧
          header.previousOffset = tip.offset ∧ header.offset = tip.nextOffset) := by
  have hreads := storeHolds_readsAs strict _ _ hchain
  have hend : endOf (blocks ++ [tip]) = tip.nextOffset := by
    rw [endOf, List.getLast?_concat]
    rfl
  constructor
  · rintro (hkeeps | hlinks) hpasses haccepts
    · -- a block that is built and whose offset is accepted changes the chain
      exfalso
      obtain ⟨b, ops, hbuilds⟩ := builds_of_passesChecks _ _ _ _ frame header hframe hreader hpasses
      rcases commitBlock_chainStore m block s with ⟨⟨e, he⟩, -⟩ | ⟨b', header', ops', hbuild', hwrite⟩
      · rw [(buildChainBlock_eq_ok_iff _ _ _ _ _ _ _).mpr hbuilds] at he
        contradiction
      · have hbuilds' := (buildChainBlock_eq_ok_iff _ _ _ _ _ _ _).mp hbuild'
        have hheader : b'.header = frame := by
          have h := hbuilds'.frame
          rw [hframe] at h
          exact (Except.ok.inj h).symm
        have hreader' := hbuilds'.reader
        rw [hheader, hreader] at hreader'
        obtain rfl := Option.some.inj hreader'
        have hsize := builds_totalSize _ _ _ _ _ _ _ hbuilds'
        have hpos := getBlock_length_pos _ _ hframe
        rw [hwrite] at hkeeps
        refine (writeBlock_keeps_iff strict s.chainStore _ b' header hchain hbuilds'.reader ?_ ?_).mp
          hkeeps ?_
        · rw [hbuilds'.offset, hoffset]
        · rw [DataBlock.totalSize, hheader]
          omega
        · rw [hsize, hheader, hbuilds'.offset, hoffset, hend]
          exact haccepts
    · exact ⟨hlinks.height, hlinks.previousOffset, hlinks.offset⟩
  · intro hcond
    rcases commitBlock_chainStore m block s with ⟨-, hsame⟩ | ⟨b, header', ops, hbuild, hwrite⟩
    · left
      rw [hsame]
      exact hchain
    · have hbuilds := (buildChainBlock_eq_ok_iff _ _ _ _ _ _ _).mp hbuild
      have hheader : b.header = frame := by
        have h := hbuilds.frame
        rw [hframe] at h
        exact (Except.ok.inj h).symm
      have hreader' := hbuilds.reader
      rw [hheader, hreader] at hreader'
      obtain rfl := Option.some.inj hreader'
      have hsize := builds_totalSize _ _ _ _ _ _ _ hbuilds
      have hpos := getBlock_length_pos _ _ hframe
      have hpasses := passesChecks_of_builds _ _ _ _ _ _ _ hbuilds
      have hiff := writeBlock_keeps_iff strict s.chainStore _ b header hchain hbuilds.reader
        (by rw [hbuilds.offset, hoffset]) (by rw [DataBlock.totalSize, hheader]; omega)
      rw [hsize, hheader, hbuilds.offset, hoffset, hend] at hiff
      by_cases haccepts : AcceptsOffset s.chainStore
          (committedSize frame header s.pendingStore block.operations) header.offset tip.nextOffset
      · right
        obtain ⟨⟨height, hheight, hnext⟩, hprevious, hoff⟩ := hcond hpasses haccepts
        refine ⟨hprevious, ?_, ⟨height, hheight, hnext⟩, hoff⟩
        -- the height is not zero, so that the hash was compared with the one of the last block
        have hget : ChainStore.getBlock s.chainStore header.previousOffset = .ok tip := by
          rw [hprevious]
          exact hreads.getBlock tip (by simp)
        have hvalid := hpasses.previous
        rw [validateBlockPreviousHash, if_pos (by omega), hget] at hvalid
        simp only [bind_eq_ok_iff, orError_eq_ok_iff] at hvalid
        obtain ⟨hash, hhash, hvalid⟩ := hvalid
        split_ifs at hvalid with heq
        rw [hhash, ← not_not.mp heq]
      · left
        rw [hwrite]
        exact hiff.mpr haccepts

end Links

section Samples

attribute [local instance] commitCrates

def highFrame : OperationFrame :=
  ⟨⟨proposeBytes highHeader highHeaderMultihash highMultihash, highMultihash,
    some (proposeOperation highHeader highHeaderMultihash)⟩, by decide +kernel⟩

theorem genesisChain_holds : StoreHolds True genesisChain [genesisBlock] := by
  have hgenesis : WellFormed genesisBlock := wellFormedCheck_sound _ (by decide +kernel)
  obtain ⟨s', hwrite, hholds⟩ := writeBlock_holds True (DirectoryChainStore.create ⟨0, 10000, 10⟩)
    [] genesisBlock (storeHolds_create True _) hgenesis.toFramed hgenesis.indexable rfl
    (by decide +kernel)
  rw [genesisChain, hwrite]
  exact hholds

theorem fiftyState_chainStore : fiftyState.chainStore = genesisChain := by
  simp only [fiftyState]

theorem fiftyState_holds : StoreHolds True fiftyState.chainStore ([] ++ [genesisBlock]) := by
  rw [fiftyState_chainStore, List.nil_append]
  exact genesisChain_holds

theorem segmentRanges_not_holds (s : DirectoryChainStore)
    (hranges : s.segmentRanges = [] ++ [⟨0, 1038⟩]) :
    ¬ StoreHolds True s ([] ++ [genesisBlock]) := by
  intro hholds
  have hcover := (storeHolds_readsAs True _ _ hholds).segments
  rw [hranges] at hcover
  exact segmentsCover_snoc_ne _ _ _ _ (by decide +kernel) hcover

theorem genesisBlock_getHeight : genesisBlock.getHeight = .ok 1 := by
  decide +kernel

/-- A proposal for the next offset that skips heights is written. -/
theorem skippedHeight_not_links :
    StoreHolds True fiftyState.chainStore ([] ++ [genesisBlock]) ∧
      ¬ (StoreHolds True (firstEngine.commitManager.commitBlock (signedBlock highHeader highFrame)
          fiftyState).2.chainStore ([] ++ [genesisBlock]) ∨ LinksTo genesisBlock highHeader) := by
  refine ⟨fiftyState_holds, ?_⟩
  rintro (hkeeps | hlinks)
  · exact segmentRanges_not_holds _ (by decide +kernel) hkeeps
  · obtain ⟨height, hheight, hnext⟩ := hlinks.height
    rw [genesisBlock_getHeight] at hheight
    obtain rfl := Except.ok.inj hheight
    revert hnext
    decide

/-- The proposal as the proposer builds it follows the genesis block. -/
theorem commitBlock_links_next :
    StoreHolds True (firstEngine.commitManager.commitBlock (signedBlock nextHeader nextFrame)
        fiftyState).2.chainStore ([] ++ [genesisBlock]) ∨ LinksTo genesisBlock nextHeader := by
  have hget : (signedBlock nextHeader nextFrame).proposal.getBlock =
      .ok ⟨sizedBytes (proposedMessage nextHeader ++ nextHeaderMultihash), nextHeaderMultihash,
        some nextHeader⟩ := by
    decide +kernel
  have hoffset : (signedBlock nextHeader nextFrame).proposal.offset = nextHeader.offset := by
    simp only [signedBlock]
  have hnext : (∃ height, genesisBlock.getHeight = .ok height ∧ nextHeader.height = height + 1) ∧
      nextHeader.previousOffset = genesisBlock.offset ∧
      nextHeader.offset = genesisBlock.nextOffset := by
    refine ⟨⟨1, genesisBlock_getHeight, ?_⟩, ?_, ?_⟩ <;> decide +kernel
  have hiff := commitBlock_links_iff True firstEngine.commitManager
    (signedBlock nextHeader nextFrame) fiftyState [] genesisBlock _ nextHeader fiftyState_holds hget
    (by simp only) hoffset
  apply hiff.mpr
  intro _ _
  exact hnext

end Samples

end Exocore.Engine
