import Exocore.ChainRunsIndex
import Exocore.ChainTakes

/-! Any calls of `write_block`, also those that fail: which blocks a store takes, what a call
that fails leaves behind, and what the iterators yield after the calls. -/
namespace Exocore.Chain

open Exocore.Core

section Writes
variable [Crates]

theorem Indexes.loose {m : SortedMap.Map ℕ ℕ} {bs : List DataBlock} (h : Indexes True m bs) :
    Indexes False m bs := ⟨h.covers, fun hfalse => hfalse.elim, h.indexable⟩

theorem StoredHold.loose {start stop : ℕ} {xs : List StoredIndex} {bs : List DataBlock}
    (h : StoredHold True start xs bs stop) : StoredHold False start xs bs stop := by
  induction h with
  | nil start => exact .nil start
  | cons start x xs bs rest stop hlink hindex hrest ih =>
    exact .cons start x xs bs rest stop hlink hindex.loose ih

/-- An index without stale entries is an index. -/
theorem StoreHolds.loose {s : DirectoryChainStore} {blocks : List DataBlock}
    (h : StoreHolds True s blocks) : StoreHolds False s blocks := by
  obtain ⟨stop, i, hsegs, hindex, hnext, stored, memory, hparts, hstored, hmemory, hm⟩ := h
  exact ⟨stop, i, hsegs, hindex, hnext, stored, memory, hparts, hstored.loose, hmemory, hm.loose⟩

/-- What a caller sees of a store: the segments, the blocks, the last one, the answers of the
index, and that what could be written still can. -/
structure LeftAsItWas (s s' : DirectoryChainStore) : Prop where
  segments : s'.segmentRanges = s.segmentRanges
  blocks : s'.blocksIter 0 = s.blocksIter 0
  last : s'.getLastBlock = s.getLastBlock
  index : ∀ id, s'.getBlockByOperationId id = s.getBlockByOperationId id
  next : ∀ c offset, (s.writeBlock c).1 = .ok offset → (s'.writeBlock c).1 = .ok offset

/-- The store with its last segment closed for writing. -/
def closed (s : DirectoryChainStore) : DirectoryChainStore :=
  { s with segments := DirectoryChainStore.closeWriteLast s.segments }

/-- What is read does not depend on whether the file of the last segment is mapped for writing,
where each block is read a second time from its own bytes. -/
structure ClosesAlike (s : DirectoryChainStore) : Prop where
  blocks : (closed s).blocksIter 0 = s.blocksIter 0
  last : (closed s).getLastBlock = s.getLastBlock
  index : ∀ id, (closed s).getBlockByOperationId id = s.getBlockByOperationId id

omit [Crates] in
theorem closed_getLast? (s : DirectoryChainStore) : (closed s).segments.getLast? =
    s.segments.getLast?.map fun seg => { seg with segmentFile := seg.segmentFile.closeWrite } := by
  rcases List.eq_nil_or_concat s.segments with hnil | ⟨l, seg, hconcat⟩
  · rw [closed, hnil]
    rfl
  · rw [closed, hconcat, List.concat_eq_append, closeWriteLast_append, List.getLast?_concat,
      List.getLast?_concat, Option.map_some]

omit [Crates] in
theorem closed_needNewSegment (s : DirectoryChainStore) (c : DataBlock) :
    (closed s).needNewSegment c = s.needNewSegment c := by
  rw [DirectoryChainStore.needNewSegment, closed_getLast?, DirectoryChainStore.needNewSegment]
  cases s.segments.getLast? <;> rfl

omit [Crates] in
theorem closed_takesBlock_iff (s : DirectoryChainStore) (c : DataBlock) :
    TakesBlock (closed s) c ↔ TakesBlock s c := by
  have hfirst : (closed s).segments.map DirectorySegment.firstBlockOffset =
      s.segments.map DirectorySegment.firstBlockOffset := closeWriteLast_first s.segments
  rw [TakesBlock, closed_needNewSegment, hfirst, closed_getLast?, TakesBlock]
  cases s.segments.getLast? <;> simp

theorem closed_writeBlock (s : DirectoryChainStore) (c : DataBlock) (offset : ℕ)
    (h : (s.writeBlock c).1 = .ok offset) : ((closed s).writeBlock c).1 = .ok offset := by
  have htaken : TakesBlock s c := by
    by_contra hnot
    obtain ⟨e, hwrite⟩ := writeBlock_not_taken s c hnot
    rw [hwrite] at h
    contradiction
  have hend : takenEnd (closed s) c = takenEnd s c := by
    rw [takenEnd, closed_needNewSegment, takenEnd]
  rw [writeBlock_taken s c htaken] at h
  rw [writeBlock_taken _ c ((closed_takesBlock_iff s c).mpr htaken), hend]
  exact h

/-- A refused write has closed the last segment, or has done nothing. -/
theorem refused_leaves_iff (s : DirectoryChainStore) (b : DataBlock) (hnot : ¬ TakesBlock s b) :
    LeftAsItWas s (s.writeBlock b).2 ↔ (s.needNewSegment b = true → ClosesAlike s) := by
  obtain ⟨e, hwrite⟩ := writeBlock_not_taken s b hnot
  rw [hwrite, refusedSegments]
  by_cases hnew : s.needNewSegment b = true
  · rw [if_pos hnew]
    constructor
    · exact fun hleft _ => ⟨hleft.blocks, hleft.last, hleft.index⟩
    · intro hcloses
      obtain ⟨hblocks, hlast, hindex⟩ := hcloses hnew
      exact ⟨closeWriteLast_map _ s.segments fun _ => rfl, hblocks, hlast, hindex,
        closed_writeBlock s⟩
  · rw [if_neg hnew]
    exact ⟨fun _ hneed => absurd hneed hnew, fun _ => ⟨rfl, rfl, rfl, fun _ => rfl,
      fun _ _ h => h⟩⟩

/-- A block that is taken moves the end of the last segment. -/
theorem taken_not_left (s : DirectoryChainStore) (b : DataBlock) (htaken : TakesBlock s b)
    (hpos : 0 < b.totalSize) : ¬ LeftAsItWas s (s.writeBlock b).2 := by
  intro hleft
  have hsame := hleft.segments
  rw [DirectoryChainStore.segmentRanges, writeBlock_segments,
    DirectoryChainStore.segmentRanges] at hsame
  rcases writeSegment_taken s b htaken with ⟨-, header, seg, -, hwrite, -, -⟩ |
    ⟨-, l, last, seg, hconcat, -, hwrite, -, hnext⟩
  · -- one segment more
    have hlen := congrArg List.length hsame
    rw [hwrite, List.map_append, closeWriteLast_map _ s.segments fun _ => rfl] at hlen
    simp at hlen
  · -- the last segment ends later
    rw [hwrite, hconcat, List.map_append, List.map_append] at hsame
    have hlast := List.append_cancel_left hsame
    have hstop : seg.nextBlockOffset = last.nextBlockOffset :=
      congrArg Segment.stop (List.head_eq_of_cons_eq hlast)
    omega

/-- A chain of framed blocks reads the same through either map of its last segment. -/
theorem closesAlike_of_holds (s : DirectoryChainStore) (blocks : List DataBlock)
    (h : StoreHolds True s blocks) : ClosesAlike s := by
  obtain ⟨stop, i, hsegs, hindex, hi⟩ := h
  have hsegs' : SegmentsHold 0 (closed s).segments blocks stop :=
    segmentsHold_closeWriteLast _ _ _ _ hsegs
  have hreads := storeHolds_readsAs True s blocks ⟨stop, i, hsegs, hindex, hi⟩
  have hreads' := storeHolds_readsAs True (closed s) blocks ⟨stop, i, hsegs', hindex, hi⟩
  refine ⟨by rw [hreads.iter, hreads'.iter], by rw [hreads.getLastBlock, hreads'.getLastBlock], ?_⟩
  intro id
  have hsame : (closed s).operationIndex = some i := hindex
  simp only [DirectoryChainStore.getBlockByOperationId, hindex, hsame, orPanic_some, ok_bind]
  cases hget : i.getOperationBlock id with
  | none => rfl
  | some offset =>
    -- an index without stale entries names a block of the chain
    obtain ⟨b, hb, rfl, -⟩ := getOperationBlock_sound i blocks stop id offset hi hget
    simp only [hreads.getBlock b hb, hreads'.getBlock b hb]

/-- A call of `write_block` beside the list of the blocks that were written. -/
def writeCall (st : StoreAndList) (b : DataBlock) : StoreAndList :=
  match st.store.writeBlock b with
  | (.ok _, s) => ⟨s, st.blocks ++ [b]⟩
  | (.error _, s) => ⟨s, st.blocks⟩

/-- What the store takes is a framed block at the end of the chain, of which the index can read
the operations that its iterator yields. -/
def TakenAtEnd (s : DirectoryChainStore) (blocks : List DataBlock) (b : DataBlock) : Prop :=
  TakesBlock s b → Framed b ∧ Indexable b ∧ b.offset = endOf blocks

theorem takenAtEnd_end (s : DirectoryChainStore) (blocks : List DataBlock) (b : DataBlock)
    (hb : WellFormed b) (hoff : b.offset = endOf blocks) : TakenAtEnd s blocks b := fun _ =>
  ⟨hb.toFramed, hb.indexable, hoff⟩

theorem takenAtEnd_refused (s : DirectoryChainStore) (blocks : List DataBlock) (b : DataBlock)
    (hnot : ¬ TakesBlock s b) : TakenAtEnd s blocks b := fun htaken => absurd htaken hnot

/-- A call adds its block at the end of the chain, or fails and adds nothing. -/
theorem HoldsFramed.writeBlock_cases {s : DirectoryChainStore} {blocks : List DataBlock}
    (h : HoldsFramed s blocks) (b : DataBlock) (hfits : TakenAtEnd s blocks b) :
    (∃ s', s.writeBlock b = (.ok b.nextOffset, s') ∧ HoldsFramed s' (blocks ++ [b])) ∨
      ∃ e s', s.writeBlock b = (.error e, s') ∧ HoldsFramed s' blocks := by
  by_cases htaken : TakesBlock s b
  · obtain ⟨hb, hread, hoff⟩ := hfits htaken
    obtain ⟨hok, hheld⟩ := h.writeBlock b hb hread hoff
    exact .inl ⟨(s.writeBlock b).2, Prod.ext hok rfl, hheld⟩
  · obtain ⟨⟨e, hfail⟩, hheld⟩ := h.stored.not_taken b htaken
    have hstep := writeBlock_inStep False s blocks b h.stored h.inStep
    exact .inr ⟨e, (s.writeBlock b).2, Prod.ext hfail rfl, hheld, hstep⟩

def WriteFits (st : StoreAndList) (b : DataBlock) : Prop := TakenAtEnd st.store st.blocks b

/-- Forward from the start of a block and backward from its end, the iterators yield the
blocks of the chain, and backward from the end of the chain what forward from 0 yields. -/
structure Iterates (s : DirectoryChainStore) (blocks : List DataBlock) : Prop where
  forward : ∀ l b r, blocks = l ++ b :: r → s.blocksIter b.offset = (b :: r).map .ok
  backward : ∀ l b r, blocks = l ++ b :: r →
    s.blocksIterReverse b.nextOffset = (l ++ [b]).reverse.map .ok
  all : s.blocksIter 0 = blocks.map .ok
  reverse : s.blocksIterReverse (endOf blocks) = (s.blocksIter 0).reverse

theorem HoldsFramed.iterates {s : DirectoryChainStore} {blocks : List DataBlock}
    (h : HoldsFramed s blocks) : Iterates s blocks := by
  have hall := h.blocksIter_zero
  refine ⟨?_, ?_, hall, ?_⟩
  · rintro l b r rfl
    obtain ⟨-, hl, -⟩ := linked_middle l r b _ _ h.linked
    exact h.blocksIter hl
  · rintro l b r rfl
    obtain ⟨-, hl, -⟩ := linked_middle l r b _ _ h.linked
    have hsplit : HoldsFramed s ((l ++ [b]) ++ r) := by simpa using h
    refine hsplit.blocksIterReverse ((linked_append_iff l [b] 0 _).mpr ⟨b.offset, hl, rfl, rfl⟩)
  · have hsplit : HoldsFramed s (blocks ++ []) := by simpa using h
    rw [hsplit.blocksIterReverse h.linked, hall, List.map_reverse]

theorem writeCall_holds (st : StoreAndList) (b : DataBlock)
    (h : HoldsFramed st.store st.blocks) (hfits : WriteFits st b) :
    HoldsFramed (writeCall st b).store (writeCall st b).blocks := by
  rw [writeCall]
  rcases h.writeBlock_cases b hfits with ⟨s', hwrite, hheld⟩ | ⟨e, s', hwrite, hheld⟩ <;>
    rw [hwrite] <;> exact hheld

/-- After any calls, also some that failed, the iterators agree with the chain. -/
theorem writeCalls_iterate (config : DirectoryChainStoreConfig) (calls : List DataBlock)
    (hrun : Run.Allowed writeCall WriteFits (freshStore config) calls) :
    Iterates (Run.exec writeCall (freshStore config) calls).store
      (Run.exec writeCall (freshStore config) calls).blocks := by
  have hheld : HoldsFramed (Run.exec writeCall (freshStore config) calls).store
      (Run.exec writeCall (freshStore config) calls).blocks :=
    Run.exec_invariant writeCall WriteFits (fun st => HoldsFramed st.store st.blocks)
      (fun st b hst hb => writeCall_holds st b hst hb) (freshStore config) calls
      (holdsFramed_create config) hrun
  exact hheld.iterates

end Writes

section Samples

local instance writesCrates : Crates := indexTables.crates

/-- A segment of its own for each block. -/
def smallSegments : DirectoryChainStoreConfig := ⟨0, 1, 10⟩

def largeSegments : DirectoryChainStoreConfig := ⟨0, 10000, 10⟩

/-- The store after the first block. -/
def genesisStore (config : DirectoryChainStoreConfig) : StoreAndList :=
  writeCall (freshStore config) genesisBlock

theorem genesisStore_holds (config : DirectoryChainStoreConfig) :
    StoreHolds True (genesisStore config).store [genesisBlock] ∧
      CursorsInStep (genesisStore config).store := by
  have hfresh := storeHolds_create True config
  have hstep : CursorsInStep (DirectoryChainStore.create config) := (holds_create config).inStep
  obtain ⟨s', hwrite, hheld⟩ := writeBlock_holds True _ [] genesisBlock hfresh
    indexedBlocks_wellFormed.1.toFramed indexedBlocks_wellFormed.1.indexable rfl
    fun seg hseg _ => hstep seg hseg
  have hafter := writeBlock_inStep True _ [] genesisBlock hfresh hstep
  have hstore : (genesisStore config).store = s' := by
    simp only [genesisStore, writeCall, freshStore, hwrite]
  rw [hwrite] at hafter
  rw [hstore]
  exact ⟨hheld, hafter⟩

/-- The block after the next one is refused by the index only, its segment stays: the next
block is then written, and the iterator does not find it. -/
theorem refusedSegment_not_iterates :
    (Run.exec writeCall (freshStore smallSegments) [genesisBlock, thirdBlock, secondBlock]).blocks =
        [genesisBlock, secondBlock] ∧
      ¬ Iterates
        (Run.exec writeCall (freshStore smallSegments) [genesisBlock, thirdBlock, secondBlock]).store
        (Run.exec writeCall (freshStore smallSegments)
          [genesisBlock, thirdBlock, secondBlock]).blocks := by
  have hblocks : (Run.exec writeCall (freshStore smallSegments)
      [genesisBlock, thirdBlock, secondBlock]).blocks = [genesisBlock, secondBlock] := by
    decide +kernel
  refine ⟨hblocks, ?_⟩
  intro h
  have hall := h.all
  rw [hblocks] at hall
  have hbad : (Run.exec writeCall (freshStore smallSegments)
      [genesisBlock, thirdBlock, secondBlock]).store.blocksIter 0 ≠
        [genesisBlock, secondBlock].map .ok := by
    decide +kernel
  exact hbad hall

/-- In one segment the same call fails before it writes. -/
theorem writeCalls_iterate_refused :
    Iterates
      (Run.exec writeCall (freshStore largeSegments) [genesisBlock, thirdBlock, secondBlock]).store
      (Run.exec writeCall (freshStore largeSegments)
        [genesisBlock, thirdBlock, secondBlock]).blocks := by
  obtain ⟨hgenesis, hsecond, -⟩ := indexedBlocks_wellFormed
  apply writeCalls_iterate
  refine ⟨takenAtEnd_end _ _ _ hgenesis ?_, takenAtEnd_refused _ _ _ ?_,
    takenAtEnd_end _ _ _ hsecond ?_, trivial⟩
  all_goals decide +kernel

end Samples

end Exocore.Chain
