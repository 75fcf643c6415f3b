import Exocore.LibRun
import Exocore.ChainIndexSteps

/-! Runs of writes and truncations on a directory store, against a plain list of blocks. -/
namespace Exocore.Chain

open Exocore.Core

/-- End of the chain, where the next block goes. -/
def endOf (blocks : List DataBlock) : ℕ := (blocks.getLast?.map DataBlock.nextOffset).getD 0

inductive ChainStep where
  | write (block : DataBlock)
  | truncate (offset : ℕ)

/-- What a step does to the list of blocks. -/
def ChainStep.onList (blocks : List DataBlock) : ChainStep → List DataBlock
  | .write block => blocks ++ [block]
  | .truncate offset => blocks.takeWhile fun b => b.offset < offset

/-- A store next to the list it should read as. -/
structure StoreAndList where
  store : DirectoryChainStore
  blocks : List DataBlock

/-- The ranges follow each other from an offset up to another. -/
def SegmentsCover : ℕ → List Segment → ℕ → Prop
  | start, [], stop => start = stop
  | start, seg :: rest, stop => seg.start = start ∧ SegmentsCover seg.stop rest stop

/-- The blocks that were written along the steps, truncated or not. -/
def written : List ChainStep → List DataBlock
  | [] => []
  | .write block :: rest => block :: written rest
  | .truncate _ :: rest => written rest

theorem linked_endOf (blocks : List DataBlock) (stop : ℕ) (h : Linked 0 blocks stop) :
    endOf blocks = stop := by
  rw [endOf]
  rcases List.eq_nil_or_concat blocks with rfl | ⟨l, b, rfl⟩
  · exact h
  · rw [List.concat_eq_append] at h ⊢
    obtain ⟨-, -, hb⟩ := linked_middle l [] b _ _ h
    rw [List.getLast?_concat]
    exact hb

theorem linked_takeWhile (l r : List DataBlock) (b : DataBlock) (stop : ℕ)
    (h : Linked 0 (l ++ b :: r) stop) (hpos : ∀ c ∈ l ++ b :: r, 0 < c.totalSize) :
    (l ++ b :: r).takeWhile (fun c => c.offset < b.offset) = l := by
  obtain ⟨-, hl, -⟩ := linked_middle l r b _ _ h
  rw [List.takeWhile_append_of_pos, List.takeWhile_cons_of_neg, List.append_nil]
  · simp
  · intro c hc
    have hlt := linked_offset_lt l c _ _ hl hc (hpos c (List.mem_append_left _ hc))
    simpa using hlt.2.1

variable [Crates]

def ChainStep.onStore (s : DirectoryChainStore) : ChainStep → Res ChainError Unit × DirectoryChainStore
  | .write block => match s.writeBlock block with
    | (.ok _, s) => (.ok (), s)
    | (.error e, s) => (.error e, s)
  | .truncate offset => s.truncateFromOffset offset

def chainStep (st : StoreAndList) (a : ChainStep) : StoreAndList :=
  ⟨(a.onStore st.store).2, a.onList st.blocks⟩

/-- A well-formed block at the end of the chain, or the offset of a stored block. -/
def ChainStep.Valid (st : StoreAndList) : ChainStep → Prop
  | .write block => WellFormed block ∧ block.offset = endOf st.blocks
  | .truncate offset => ∃ b ∈ st.blocks, b.offset = offset

/-- A step of the runs the store is used for: valid, and it returns without an error. -/
def ChainStep.Succeeds (st : StoreAndList) (a : ChainStep) : Prop :=
  a.Valid st ∧ (a.onStore st.store).1 = .ok ()

/-- The cursors of the last segment are in step where a block is appended to it. -/
def ChainStep.Aligned (st : StoreAndList) : ChainStep → Prop
  | .write block => WriteAligned st.store block
  | .truncate _ => True

/-- No entry of the map in memory outlives its block. -/
def ChainStep.Clears (st : StoreAndList) : ChainStep → Prop
  | .write _ => True
  | .truncate offset => ∀ i, st.store.operationIndex = some i → IndexClears i offset

instance (st : StoreAndList) (block : DataBlock) :
    Decidable (ChainStep.Aligned st (.write block)) :=
  inferInstanceAs (Decidable (WriteAligned st.store block))

instance (st : StoreAndList) (offset : ℕ) : Decidable (ChainStep.Clears st (.truncate offset)) :=
  decidable_of_iff (st.store.operationIndex.all fun i => decide (IndexClears i offset)) (by
    simp only [ChainStep.Clears]
    cases st.store.operationIndex <;> simp)

def freshStore (config : DirectoryChainStoreConfig) : StoreAndList :=
  ⟨DirectoryChainStore.create config, []⟩

/-- All the reads of the store are those of the list. -/
structure ReadsAs (s : DirectoryChainStore) (blocks : List DataBlock) : Prop where
  iter : s.blocksIter 0 = blocks.map .ok
  getBlock : ∀ b ∈ blocks, s.getBlock b.offset = .ok b
  getBlockFromNextOffset : ∀ b ∈ blocks, s.getBlockFromNextOffset b.nextOffset = .ok b
  getLastBlock : s.getLastBlock = .ok blocks.getLast?
  segments : SegmentsCover 0 s.segmentRanges (endOf blocks)

/-- The segments and the index hold the same blocks. -/
def StoreHolds (strict : Prop) (s : DirectoryChainStore) (blocks : List DataBlock) : Prop :=
  ∃ stop i, SegmentsHold 0 s.segments blocks stop ∧ s.operationIndex = some i ∧
    IndexHolds strict i blocks stop

theorem storeHolds_create (strict : Prop) (config : DirectoryChainStoreConfig) :
    StoreHolds strict (DirectoryChainStore.create config) [] :=
  ⟨0, OperationIndex.create, .nil 0, rfl, rfl, [], [], rfl, .nil 0, rfl, indexes_empty strict⟩

theorem segmentsHold_cover (start stop : ℕ) (segs : List DirectorySegment)
    (blocks : List DataBlock) (h : SegmentsHold start segs blocks stop) :
    SegmentsCover start (segs.map fun seg => ⟨seg.firstBlockOffset, seg.nextBlockOffset⟩) stop := by
  induction h with
  | nil start => exact rfl
  | cons start seg segs bs rest stop hstart hseg hrest ih => exact ⟨hstart, ih⟩

theorem storeHolds_readsAs (strict : Prop) (s : DirectoryChainStore) (blocks : List DataBlock)
    (h : StoreHolds strict s blocks) : ReadsAs s blocks := by
  obtain ⟨stop, i, hsegs, -, -⟩ := h
  have hend := linked_endOf blocks stop (segmentsHold_linked _ _ _ _ hsegs)
  refine ⟨blocksIter_eq s stop 0 [] blocks hsegs rfl, getBlock_eq s stop blocks hsegs,
    getBlockFromNextOffset_eq s stop blocks hsegs, getLastBlock_eq s stop blocks hsegs, ?_⟩
  rw [hend]
  exact segmentsHold_cover _ _ _ _ hsegs

theorem writeBlock_holds (strict : Prop) (s : DirectoryChainStore) (blocks : List DataBlock)
    (b : DataBlock) (h : StoreHolds strict s blocks) (hb : Framed b) (hread : Indexable b)
    (hoff : b.offset = endOf blocks) (hal : WriteAligned s b) :
    ∃ s', s.writeBlock b = (.ok b.nextOffset, s') ∧ StoreHolds strict s' (blocks ++ [b]) := by
  obtain ⟨stop, i, hsegs, hindex, hi⟩ := h
  have hend := linked_endOf blocks stop (segmentsHold_linked _ _ _ _ hsegs)
  rw [hend] at hoff
  obtain ⟨segs, hwrite, hsegs', seg, hlast, hnext⟩ :=
    writeSegment_holds s stop blocks b hsegs hb hoff hal
  obtain ⟨i', hblock, hi'⟩ := indexBlock_holds s.config strict i blocks b stop hi hread hoff
  refine ⟨⟨s.config, segs, some i'⟩, ?_, b.nextOffset, i', hsegs', rfl, hi'⟩
  simp only [DirectoryChainStore.writeBlock, hwrite, hindex, hlast, hblock, hnext]

theorem truncateFromOffset_holds (strict : Prop) (s : DirectoryChainStore) (l r : List DataBlock)
    (b : DataBlock) (h : StoreHolds strict s (l ++ b :: r))
    (hclear : strict → ∀ i, s.operationIndex = some i → IndexClears i b.offset) :
    ∃ s', s.truncateFromOffset b.offset = (.ok (), s') ∧ StoreHolds strict s' l := by
  obtain ⟨stop, i, hsegs, hindex, hi⟩ := h
  have hlinked := segmentsHold_linked _ _ _ _ hsegs
  have hpos : ∀ c ∈ l ++ b :: r, 0 < c.totalSize := fun c hc =>
    (segmentsHold_framed _ _ _ _ hsegs c hc).totalSize_pos
  obtain ⟨-, hl, -⟩ := linked_middle l r b _ _ hlinked
  obtain ⟨segs, htrunc, hsegs'⟩ := truncateSegments_holds s stop l r b hsegs
  obtain ⟨kept, cut, rfl, hkept⟩ := index_truncate_holds strict i l r b stop hi hl hpos
    fun hs => hclear hs i hindex
  -- what was cut off too much is read back from the segments that are left
  obtain ⟨mid, hmid, hcut⟩ := (linked_append_iff kept cut 0 b.offset).mp hl
  have hstart : Linked 0 kept (i.truncateFromOffset b.offset).nextExpectedOffset := by
    obtain ⟨-, stored, memory, hparts, hstored, hmemory, -⟩ := hkept
    rw [hparts]
    exact (linked_append_iff stored memory 0 _).mpr
      ⟨_, storedHold_linked _ _ _ _ _ hstored, hmemory⟩
  have hsame : mid = (i.truncateFromOffset b.offset).nextExpectedOffset := by
    rw [linked_stop kept 0 mid hmid, linked_stop kept 0 _ hstart]
  rw [hsame] at hcut
  have hiter := blocksIter_eq (⟨s.config, segs, none⟩ : DirectoryChainStore) b.offset
    (i.truncateFromOffset b.offset).nextExpectedOffset kept cut hsegs' hstart
  obtain ⟨i', hloop, hi'⟩ := indexBlocks_holds s.config strict _ kept cut _ b.offset hkept hcut
    fun c hc => hi.indexable c (List.mem_append_left _ (List.mem_append_right _ hc))
  refine ⟨⟨s.config, segs, some i'⟩, ?_, b.offset, i', hsegs', rfl, hi'⟩
  simp only [DirectoryChainStore.truncateFromOffset, htrunc, hindex, hiter, hloop]

/-- One step of a run: it succeeds, and store and list stay together. -/
theorem chainStep_holds (strict : Prop) (st : StoreAndList) (a : ChainStep)
    (h : StoreHolds strict st.store st.blocks) (hv : a.Valid st) (hal : a.Aligned st)
    (hclear : strict → a.Clears st) :
    (a.onStore st.store).1 = .ok () ∧
      StoreHolds strict (chainStep st a).store (chainStep st a).blocks := by
  cases a with
  | write b =>
    obtain ⟨hb, hoff⟩ := hv
    obtain ⟨s', hwrite, hs'⟩ := writeBlock_holds strict st.store st.blocks b h hb.toFramed hb.indexable
      hoff hal
    simp only [chainStep, ChainStep.onStore, hwrite, ChainStep.onList]
    exact ⟨trivial, hs'⟩
  | truncate offset =>
    obtain ⟨b, hb, rfl⟩ := hv
    obtain ⟨l, r, hsplit⟩ := List.append_of_mem hb
    have hlist : ChainStep.onList st.blocks (.truncate b.offset) = l := by
      obtain ⟨stop, -, hsegs, -⟩ := h
      rw [ChainStep.onList, hsplit]
      rw [hsplit] at hsegs
      exact linked_takeWhile l r b stop (segmentsHold_linked _ _ _ _ hsegs) fun c hc =>
        (segmentsHold_framed _ _ _ _ hsegs c hc).totalSize_pos
    rw [hsplit] at h
    obtain ⟨s', htrunc, hs'⟩ := truncateFromOffset_holds strict st.store l r b h hclear
    simp only [chainStep, hlist, ChainStep.onStore, htrunc]
    exact ⟨trivial, hs'⟩

end Exocore.Chain
