import Exocore.ChainReopens
import Exocore.ChainWrites

/-! Runs of writes, with whatever result, and the directory they leave. -/
namespace Exocore.Chain

open Exocore.Core

section Reopens
variable [Crates]

/-- A store on disk next to the blocks whose write returned without an error. -/
structure DiskAndList where
  disk : StoreOnDisk
  written : List DataBlock

def diskStep (st : DiskAndList) (b : DataBlock) : DiskAndList :=
  match st.disk.writeBlock b with
  | (.ok _, disk) => ⟨disk, st.written ++ [b]⟩
  | (.error _, disk) => ⟨disk, st.written⟩

def freshDisk (config : DirectoryChainStoreConfig) : DiskAndList := ⟨StoreOnDisk.create config, []⟩

def PlacedAtEnd (st : DiskAndList) (b : DataBlock) : Prop :=
  TakenAtEnd st.disk.store st.written b

/-- The directory opens with and without the saved offsets, to the same segments and blocks,
which are those that were written. -/
def OpensAsWritten (st : DiskAndList) : Prop :=
  ∀ config dir dir', st.disk.LeftIn dir → st.disk.LeftIn dir' →
    ∃ s s', DirectoryChainStore.openDirectory config dir = .ok s ∧
      DirectoryChainStore.openDirectory config { dir' with metadata := none } = .ok s' ∧
      s.segmentRanges = s'.segmentRanges ∧ s.blocksIter 0 = s'.blocksIter 0 ∧
      s.segmentRanges = st.disk.store.segmentRanges ∧
      SegmentsCover 0 s.segmentRanges (endOf st.written) ∧
      s.blocksIter 0 = st.written.map .ok

/-- The saved offsets never change what a directory opens as. -/
theorem openDirectory_withoutMetadata (config : DirectoryChainStoreConfig) (d : StoreOnDisk)
    (h : Kept d) (dir dir' : ChainDirectory) (hdir : d.LeftIn dir) (hdir' : d.LeftIn dir') :
    DirectoryChainStore.openDirectory config dir =
      DirectoryChainStore.openDirectory config { dir' with metadata := none } :=
  (openDirectory_eq config d h dir hdir dir.metadata (.inl rfl)).trans
    (openDirectory_eq config d h dir' hdir' none (.inr rfl)).symm

theorem segmentHolds_reopened (seg : DirectorySegment) (bs : List DataBlock)
    (h : SegmentHolds seg bs) : SegmentHolds (reopened seg) bs := by
  refine ⟨h.linked, h.framed, h.nonempty, ?_⟩
  rw [reopened, DirectorySegment.openWithMetadata, SegmentFile.openFile, if_neg (by omega)]
  exact h.data

theorem segmentsHold_reopened (start stop : ℕ) (segs : List DirectorySegment)
    (blocks : List DataBlock) (h : SegmentsHold start segs blocks stop) :
    SegmentsHold start (segs.map reopened) blocks stop := by
  induction h with
  | nil start => exact .nil start
  | cons start seg segs bs rest stop hstart hseg hrest ih =>
    exact .cons start (reopened seg) _ bs rest stop hstart (segmentHolds_reopened seg bs hseg) ih

theorem segmentsHold_openWriteLast (start stop : ℕ) (segs : List DirectorySegment)
    (blocks : List DataBlock) (h : SegmentsHold start segs blocks stop) :
    SegmentsHold start (DirectoryChainStore.openWriteLast segs) blocks stop := by
  rcases List.eq_nil_or_concat segs with rfl | ⟨l, seg, rfl⟩
  · exact h
  · rw [List.concat_eq_append] at h ⊢
    obtain ⟨before, bs, rfl, hbefore, hseg, hstop⟩ := segmentsHold_snoc _ _ _ _ _ h
    rw [DirectoryChainStore.openWriteLast, List.getLast?_concat]
    simp only [List.dropLast_concat]
    rw [← hstop]
    exact segmentsHold_append _ _ _ _ _ _ _ hbefore
      (segmentsHold_singleton _ _ (segmentHolds_mmap seg bs .write hseg))

/-- Segments that follow each other are sorted already. -/
theorem sortByFirstOffset_of_hold (start stop : ℕ) (segs : List DirectorySegment)
    (blocks : List DataBlock) (h : SegmentsHold start segs blocks stop) :
    DirectoryChainStore.sortByFirstOffset segs = segs := by
  apply List.Pairwise.insertionSort_eq
  induction h with
  | nil start => exact List.Pairwise.nil
  | cons start seg segs bs rest stop hstart hseg hrest ih =>
    refine List.Pairwise.cons (fun x hx => ?_) ih
    have hrange := segmentHolds_range seg bs hseg
    have hbound := (segmentsHold_bounds _ _ _ _ hrest).2 x hx
    show seg.firstBlockOffset ≤ x.firstBlockOffset
    omega

/-- The files of the index end where the map in memory started. -/
theorem storedHold_end (strict : Prop) (start stop : ℕ) (xs : List StoredIndex)
    (bs : List DataBlock) (h : StoredHold strict start xs bs stop) :
    (xs.getLast?.map StoredIndex.stop).getD start = stop := by
  induction h with
  | nil start => rfl
  | cons start x xs bs rest stop hlink hindex hrest ih =>
    rw [List.getLast?_cons]
    cases hlast : xs.getLast? with
    | none =>
      rw [hlast] at ih
      exact ih
    | some y =>
      rw [hlast] at ih
      exact ih

/-- What the map in memory held is read again from the segments. -/
theorem openIndex_holds (config : DirectoryChainStoreConfig) (segs : List DirectorySegment)
    (blocks : List DataBlock) (stop : ℕ) (i : OperationIndex)
    (hsegs : SegmentsHold 0 segs blocks stop) (hi : IndexHolds False i blocks stop) :
    ∃ s, DirectoryChainStore.openIndex config segs (some i.storedIndices) = .ok s ∧
      s.segments = segs ∧ StoreHolds False s blocks := by
  obtain ⟨hnext, stored, memory, rfl, hstored, hmemory, hindexes⟩ := hi
  set opened := OperationIndex.openStored i.storedIndices with hopened
  have hend : opened.nextExpectedOffset = i.memoryOffsetFrom := storedHold_end _ _ _ _ _ hstored
  have hfrom : opened.memoryOffsetFrom = i.memoryOffsetFrom := hend
  have hholds : IndexHolds False opened stored i.memoryOffsetFrom := by
    refine ⟨hend, stored, [], by rw [List.append_nil], ?_, ?_, indexes_empty False⟩
    · rw [hfrom]
      exact hstored
    · exact hfrom
  have hiter := blocksIter_eq (⟨config, segs, none⟩ : DirectoryChainStore) stop
    i.memoryOffsetFrom stored memory hsegs (storedHold_linked _ _ _ _ _ hstored)
  obtain ⟨i', hloop, hi'⟩ := indexBlocks_holds config False opened stored memory _ stop hholds
    hmemory hindexes.indexable
  refine ⟨⟨config, segs, some i'⟩, ?_, rfl, stop, i', hsegs, rfl, hi'⟩
  rw [DirectoryChainStore.openIndex]
  simp only [orError_some, ok_bind, ← hopened, hend, hiter, hloop]
  rfl

/-- A store that holds a chain opens as that chain. -/
theorem openDirectory_holds (config : DirectoryChainStoreConfig) (d : StoreOnDisk)
    (blocks : List DataBlock) (h : Kept d) (hholds : HoldsFramed d.store blocks)
    (dir : ChainDirectory) (hdir : d.LeftIn dir) :
    ∃ s, DirectoryChainStore.openDirectory config dir = .ok s ∧
      s.segmentRanges = d.store.segmentRanges ∧ ReadsAs s blocks := by
  obtain ⟨stop, i, hsegs, hindex, hi⟩ := hholds.stored
  have hreopened := segmentsHold_reopened _ _ _ _ hsegs
  have hopen := openDirectory_eq config d h dir hdir dir.metadata (.inl rfl)
  rw [sortByFirstOffset_of_hold _ _ _ _ hreopened, hindex, Option.map_some] at hopen
  obtain ⟨s, hs, hsame, hstored⟩ := openIndex_holds config _ blocks stop i
    (segmentsHold_openWriteLast _ _ _ _ hreopened) hi
  refine ⟨s, hopen.trans hs, ?_, storeHolds_readsAs False s blocks hstored⟩
  rw [DirectoryChainStore.segmentRanges, DirectoryChainStore.segmentRanges, hsame]
  rcases List.eq_nil_or_concat d.store.segments with hnil | ⟨l, seg, hconcat⟩
  · rw [hnil]
    rfl
  · rw [hconcat, List.concat_eq_append, DirectoryChainStore.openWriteLast, List.map_append,
      List.map_singleton, List.getLast?_concat, List.map_append]
    simp only [List.dropLast_concat, List.map_append, List.map_map]
    rfl

theorem diskStep_holds (st : DiskAndList) (b : DataBlock)
    (h : HoldsFramed st.disk.store st.written) (hplaced : PlacedAtEnd st b) :
    HoldsFramed (diskStep st b).disk.store (diskStep st b).written := by
  rw [diskStep, StoreOnDisk.writeBlock]
  rcases h.writeBlock_cases b hplaced with ⟨s', hwrite, hheld⟩ | ⟨e, s', hwrite, hheld⟩ <;>
    rw [hwrite] <;> exact hheld

theorem diskStep_kept (st : DiskAndList) (b : DataBlock) (h : Kept st.disk)
    (hplaced : PlacedAtEnd st b) : Kept (diskStep st b).disk := by
  have hkept := writeBlock_kept st.disk b h fun htaken => (hplaced htaken).1
  rw [diskStep]
  cases hres : st.disk.writeBlock b with
  | mk res disk =>
    rw [hres] at hkept
    cases res <;> exact hkept

/-- Every directory left by a run of writes whose taken blocks go to the end of the chain opens as
it was written, with the saved offsets and without them. -/
theorem writeRun_opensAsWritten (config : DirectoryChainStoreConfig) (blocks : List DataBlock)
    (hrun : Run.Allowed diskStep PlacedAtEnd (freshDisk config) blocks) :
    OpensAsWritten (Run.exec diskStep (freshDisk config) blocks) := by
  set st := Run.exec diskStep (freshDisk config) blocks
  obtain ⟨hkept, hholds⟩ : Kept st.disk ∧ HoldsFramed st.disk.store st.written := by
    refine Run.exec_invariant diskStep PlacedAtEnd
      (fun st => Kept st.disk ∧ HoldsFramed st.disk.store st.written) ?_ (freshDisk config) blocks
      ⟨kept_create config, holdsFramed_create config⟩ hrun
    intro st b hst hplaced
    exact ⟨diskStep_kept st b hst.1 hplaced, diskStep_holds st b hst.2 hplaced⟩
  intro config' dir dir' hdir hdir'
  obtain ⟨s, hopen, hranges, hreads⟩ := openDirectory_holds config' st.disk st.written hkept
    hholds dir hdir
  have hsame := openDirectory_withoutMetadata config' st.disk hkept dir dir' hdir hdir'
  exact ⟨s, s, hopen, hsame.symm.trans hopen, rfl, rfl, hranges, hreads.segments, hreads.iter⟩

end Reopens

section Samples

local instance : Crates := indexTables.crates

/-- A segment for each block: the block at 548 comes before the one at 254. -/
def misplacedWrites : List DataBlock := [genesisBlock, thirdBlock, secondBlock]

def leftDirectory (d : StoreOnDisk) : ChainDirectory :=
  ⟨d.store.segments.map StoreOnDisk.segmentFile, d.metadata,
    d.store.operationIndex.map OperationIndex.storedIndices⟩

theorem leftIn_leftDirectory (d : StoreOnDisk) : d.LeftIn (leftDirectory d) :=
  ⟨⟨[], fun f hf => by contradiction, by rw [List.append_nil]; exact .refl _⟩, rfl, rfl⟩

/-- The write that is refused leaves its segment behind, and the directory opens with it. -/
theorem misplaced_not_opensAsWritten :
    (∀ b ∈ misplacedWrites, WellFormed b) ∧
      ¬ OpensAsWritten (Run.exec diskStep (freshDisk ⟨0, 300, 10⟩) misplacedWrites) := by
  constructor
  · obtain ⟨hgenesis, hsecond, hthird⟩ := indexedBlocks_wellFormed
    intro b hb
    simp only [misplacedWrites, List.mem_cons, List.not_mem_nil, or_false] at hb
    rcases hb with rfl | rfl | rfl
    · exact hgenesis
    · exact hthird
    · exact hsecond
  · intro h
    obtain ⟨s, -, hopen, -, -, -, -, -, hiter⟩ := h ⟨0, 300, 10⟩ _ _ (leftIn_leftDirectory _)
      (leftIn_leftDirectory _)
    have hopened : (DirectoryChainStore.openDirectory ⟨0, 300, 10⟩ (leftDirectory
          (Run.exec diskStep (freshDisk ⟨0, 300, 10⟩) misplacedWrites).disk)).map
          (fun s => s.blocksIter 0) =
        .ok ([genesisBlock, secondBlock, thirdBlock].map .ok) := by
      decide +kernel
    have hwritten : (Run.exec diskStep (freshDisk ⟨0, 300, 10⟩) misplacedWrites).written =
        [genesisBlock, secondBlock] := by
      decide +kernel
    rw [hopen] at hopened
    have hblocks : s.blocksIter 0 = [genesisBlock, secondBlock, thirdBlock].map .ok :=
      Except.ok.inj hopened
    rw [hwritten, hblocks] at hiter
    have hlength := congrArg List.length hiter
    simp at hlength

/-- The same blocks in the order of their offsets, of which the second is given twice. -/
theorem writeRun_opensAsWritten_small_segments :
    Run.Allowed diskStep PlacedAtEnd (freshDisk ⟨0, 300, 10⟩)
        [genesisBlock, secondBlock, secondBlock, thirdBlock] ∧
      OpensAsWritten (Run.exec diskStep (freshDisk ⟨0, 300, 10⟩)
        [genesisBlock, secondBlock, secondBlock, thirdBlock]) := by
  obtain ⟨hgenesis, hsecond, hthird⟩ := indexedBlocks_wellFormed
  have hrun : Run.Allowed diskStep PlacedAtEnd (freshDisk ⟨0, 300, 10⟩)
      [genesisBlock, secondBlock, secondBlock, thirdBlock] := by
    refine ⟨takenAtEnd_end _ _ _ hgenesis ?_, takenAtEnd_end _ _ _ hsecond ?_,
      takenAtEnd_refused _ _ _ ?_, takenAtEnd_end _ _ _ hthird ?_, trivial⟩
    all_goals decide +kernel
  exact ⟨hrun, writeRun_opensAsWritten ⟨0, 300, 10⟩ _ hrun⟩

end Samples

end Exocore.Chain
