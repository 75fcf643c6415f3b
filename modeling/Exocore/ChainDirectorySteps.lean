import Exocore.ChainDirectorySpec

/-! The iterator, the write and the truncation of the segments, on the list of blocks
they hold. -/
namespace Exocore.Chain

open Exocore.Core

theorem closeWriteLast_append (l : List DirectorySegment) (seg : DirectorySegment) :
    DirectoryChainStore.closeWriteLast (l ++ [seg]) =
      l ++ [{ seg with segmentFile := seg.segmentFile.closeWrite }] := by
  induction l with
  | nil => rfl
  | cons x l ih =>
    cases l with
    | nil => rfl
    | cons y l =>
      rw [List.cons_append, List.cons_append, DirectoryChainStore.closeWriteLast]
      · rw [← List.cons_append, ih]
        rfl
      · intro h
        simp at h

theorem le_foldl_max (l : List ℕ) (n init : ℕ) (h : n ∈ l ∨ n ≤ init) :
    n ≤ l.foldl max init := by
  induction l generalizing init with
  | nil => simpa using h
  | cons x l ih =>
    apply ih
    rcases h with h | h
    · rcases List.mem_cons.mp h with rfl | h
      · exact .inr (le_max_right _ _)
      · exact .inl h
    · exact .inr (le_trans h (le_max_left _ _))

/-- The condition under which a block lands right after the last one: it opens a new
segment, or the cursors of the last segment are in step. -/
def WriteAligned (s : DirectoryChainStore) (b : DataBlock) : Prop :=
  ∀ seg, s.segments.getLast? = some seg →
    seg.nextFileOffset + b.totalSize ≤ s.config.segmentMaxSize → InStep seg

theorem writeAligned_iff (s : DirectoryChainStore) (b : DataBlock) :
    WriteAligned s b ↔ s.segments.getLast?.all (fun seg =>
      decide (seg.nextFileOffset + b.totalSize ≤ s.config.segmentMaxSize →
        seg.nextFileOffset = seg.nextBlockOffset - seg.firstBlockOffset)) = true := by
  cases hlast : s.segments.getLast? with
  | none => simp [WriteAligned, hlast]
  | some seg =>
    simp only [WriteAligned, InStep, hlast, Option.some.injEq, forall_eq', Option.all_some,
      decide_eq_true_eq]

instance (s : DirectoryChainStore) (b : DataBlock) : Decidable (WriteAligned s b) :=
  decidable_of_iff' _ (writeAligned_iff s b)

variable [Crates]

/-- How the file is mapped does not matter to what the segment holds. -/
theorem segmentHolds_mmap (seg : DirectorySegment) (bs : List DataBlock) (mode : SegmentMmap)
    (h : SegmentHolds seg bs) :
    SegmentHolds { seg with segmentFile := { seg.segmentFile with mmap := mode } } bs :=
  ⟨h.linked, h.framed, h.nonempty, h.data⟩

theorem segmentsHold_snoc (start stop : ℕ) (l : List DirectorySegment) (seg : DirectorySegment)
    (blocks : List DataBlock) (h : SegmentsHold start (l ++ [seg]) blocks stop) :
    ∃ before bs, blocks = before ++ bs ∧ SegmentsHold start l before seg.firstBlockOffset ∧
      SegmentHolds seg bs ∧ seg.nextBlockOffset = stop := by
  obtain ⟨before, bs, after, rfl, hbefore, hseg, hafter⟩ := segmentsHold_split _ _ _ _ _ _ h
  cases hafter with
  | nil => exact ⟨before, bs, by rw [List.append_nil], hbefore, hseg, rfl⟩

theorem segmentsHold_closeWriteLast (start stop : ℕ) (segs : List DirectorySegment)
    (blocks : List DataBlock) (h : SegmentsHold start segs blocks stop) :
    SegmentsHold start (DirectoryChainStore.closeWriteLast segs) blocks stop := by
  rcases List.eq_nil_or_concat segs with rfl | ⟨l, seg, rfl⟩
  · exact h
  · rw [List.concat_eq_append] at h ⊢
    obtain ⟨before, bs, rfl, hbefore, hseg, hstop⟩ := segmentsHold_snoc _ _ _ _ _ h
    rw [closeWriteLast_append, ← hstop]
    exact segmentsHold_append _ _ _ _ _ _ _ hbefore
      (segmentsHold_singleton _ _ (segmentHolds_mmap seg bs .read hseg))

theorem getLastBlock_eq (s : DirectoryChainStore) (stop : ℕ) (blocks : List DataBlock)
    (h : SegmentsHold 0 s.segments blocks stop) : s.getLastBlock = .ok blocks.getLast? := by
  rw [DirectoryChainStore.getLastBlock]
  rcases List.eq_nil_or_concat s.segments with hnil | ⟨l, seg, hsegs⟩
  · rw [hnil] at h ⊢
    cases h
    rfl
  · rw [List.concat_eq_append] at hsegs
    rw [hsegs] at h
    obtain ⟨before, bs, rfl, -, hseg, -⟩ := segmentsHold_snoc _ _ _ _ _ h
    obtain ⟨front, b, rfl⟩ : ∃ front b, bs = front ++ [b] := by
      rcases List.eq_nil_or_concat bs with hbs | ⟨front, b, hbs⟩
      · exact absurd hbs hseg.nonempty
      · exact ⟨front, b, by rw [hbs, List.concat_eq_append]⟩
    have hnext : seg.nextBlockOffset = b.nextOffset := by
      obtain ⟨-, -, hb⟩ := linked_middle front [] b _ _ hseg.linked
      exact hb.symm
    have hread := segment_getBlockFromNextOffset_eq seg (front ++ [b]) b hseg (by simp)
    simp only [hsegs, List.getLast?_append_of_ne_nil _ (List.cons_ne_nil seg []),
      List.getLast?_singleton, hnext, hread, ok_bind, pure, Except.pure, ← List.append_assoc,
      List.getLast?_append_of_ne_nil _ (List.cons_ne_nil b [])]

/-- Where an iterator can stand: between segments, or in the one that covers its offset. -/
def IteratorAt (s : DirectoryChainStore) (it : DirectoryChainStore.BlockIterator) : Prop :=
  it.done = false ∧ ∀ seg, it.currentSegment = some seg →
    (∃ l r, s.segments = l ++ seg :: r) ∧ seg.firstBlockOffset ≤ it.currentOffset ∧
      it.currentOffset < seg.nextBlockOffset

/-- On a block of the chain the iterator yields it and stands on the next one. -/
theorem blockIterator_next_eq (s : DirectoryChainStore) (stop : ℕ) (blocks : List DataBlock)
    (h : SegmentsHold 0 s.segments blocks stop) (it : DirectoryChainStore.BlockIterator)
    (hit : IteratorAt s it) (b : DataBlock) (hb : b ∈ blocks) (hoff : it.currentOffset = b.offset) :
    ∃ it', it.next s = (some (.ok b), it') ∧ IteratorAt s it' ∧ it'.currentOffset = b.nextOffset := by
  have hpos := (segmentsHold_framed _ _ _ _ h b hb).totalSize_pos
  have hbound := linked_offset_lt blocks b _ _ (segmentsHold_linked _ _ _ _ h) hb hpos
  have hnext : b.nextOffset = b.offset + b.totalSize := rfl
  obtain ⟨hdone, hcur⟩ := hit
  -- the segment of this step covers the block, kept from the last step or looked up
  obtain ⟨seg, hpick, ⟨l, r, hsegs⟩, hlo, hhi⟩ : ∃ seg, it.segment s = some seg ∧
      (∃ l r, s.segments = l ++ seg :: r) ∧ seg.firstBlockOffset ≤ it.currentOffset ∧
      it.currentOffset < seg.nextBlockOffset := by
    rw [DirectoryChainStore.BlockIterator.segment]
    cases hc : it.currentSegment with
    | some seg => exact ⟨seg, rfl, hcur seg hc⟩
    | none =>
      obtain ⟨l, seg, r, hsegs, -, hfind, hlo, hhi⟩ := getSegmentForBlockOffset_eq s 0 stop
        it.currentOffset blocks h (Nat.zero_le _) (by omega)
      exact ⟨seg, hfind, ⟨l, r, hsegs⟩, hlo, hhi⟩
  have hread : seg.getBlock it.currentOffset = .ok b := by
    rw [hsegs] at h
    obtain ⟨bs, hseg, hmem⟩ := segmentsHold_mem _ _ b.offset l r seg blocks b h hb (by omega)
      (by omega) le_rfl (by omega)
    rw [hoff]
    exact segment_getBlock_eq seg bs b hseg hmem
  have hdone' : (it.done = true) = False := by
    rw [hdone]
    simp
  simp only [DirectoryChainStore.BlockIterator.next, hdone', if_false, hpick, hread]
  refine ⟨_, rfl, ⟨?_, ?_⟩, ?_⟩
  · split_ifs <;> exact hdone
  · intro x hx
    split_ifs at hx ⊢ with hend
    obtain rfl : seg = x := Option.some.inj hx
    exact ⟨⟨l, r, hsegs⟩, by simp only; omega, by simp only; omega⟩
  · split_ifs <;> simp only <;> omega

theorem blockIterator_next_end (s : DirectoryChainStore) (stop : ℕ) (blocks : List DataBlock)
    (h : SegmentsHold 0 s.segments blocks stop) (it : DirectoryChainStore.BlockIterator)
    (hit : IteratorAt s it) (hoff : it.currentOffset = stop) :
    (it.next s).1 = none := by
  obtain ⟨hdone, hcur⟩ := hit
  have hnone : it.currentSegment = none := by
    cases hc : it.currentSegment with
    | none => rfl
    | some seg =>
      obtain ⟨⟨l, r, hsegs⟩, -, hhi⟩ := hcur seg hc
      obtain ⟨-, -, hle⟩ := (segmentsHold_bounds _ _ _ _ h).2 seg (by rw [hsegs]; simp)
      omega
  have hfind := getSegmentForBlockOffset_eq_none s 0 stop it.currentOffset blocks h (by omega)
  have hsegment : it.segment s = none := by
    rw [DirectoryChainStore.BlockIterator.segment, hnone]
    exact hfind
  simp only [DirectoryChainStore.BlockIterator.next, hdone, Bool.false_eq_true, if_false,
    hsegment]

/-- Induction on the blocks left; each one moves the iterator to the next. -/
theorem blockIterator_collect_eq (s : DirectoryChainStore) (stop : ℕ) (l r : List DataBlock)
    (h : SegmentsHold 0 s.segments (l ++ r) stop) (it : DirectoryChainStore.BlockIterator)
    (hit : IteratorAt s it) (hlink : Linked it.currentOffset r stop) (fuel : ℕ)
    (hfuel : r.length ≤ fuel) :
    DirectoryChainStore.BlockIterator.collect s fuel it = r.map .ok := by
  induction r generalizing l it fuel with
  | nil =>
    cases fuel with
    | zero => rfl
    | succ fuel =>
      have hend := blockIterator_next_end s stop _ h it hit hlink
      rw [DirectoryChainStore.BlockIterator.collect]
      cases hnext : it.next s with
      | mk res it' =>
        rw [hnext] at hend
        simp only at hend
        rw [hend]
        rfl
  | cons b r ih =>
    obtain ⟨hoff, hrest⟩ := hlink
    obtain ⟨it', hnext, hit', hoff'⟩ := blockIterator_next_eq s stop (l ++ b :: r) h it hit b
      (by simp) hoff.symm
    cases fuel with
    | zero => simp at hfuel
    | succ fuel =>
      have hsplit : l ++ b :: r = l ++ [b] ++ r := by simp
      rw [hsplit] at h
      have htail := ih (l ++ [b]) h it' hit' (by rw [hoff']; exact hrest) fuel
        (by rw [List.length_cons] at hfuel; omega)
      rw [DirectoryChainStore.BlockIterator.collect, hnext, List.map_cons]
      simp only [htail]

theorem linked_length_le (blocks : List DataBlock) (start stop : ℕ)
    (h : Linked start blocks stop) (hframed : ∀ b ∈ blocks, Framed b) :
    start + blocks.length ≤ stop := by
  induction blocks generalizing start with
  | nil =>
    simp only [Linked] at h
    simp only [List.length_nil]
    omega
  | cons b rest ih =>
    obtain ⟨hoff, hrest⟩ := h
    have hle := ih _ hrest fun c hc => hframed c (List.mem_cons_of_mem _ hc)
    have hpos := (hframed b List.mem_cons_self).totalSize_pos
    have hnext : b.nextOffset = b.offset + b.totalSize := rfl
    rw [List.length_cons]
    omega

theorem segmentsHold_stop_le (s : DirectoryChainStore) (stop : ℕ) (blocks : List DataBlock)
    (h : SegmentsHold 0 s.segments blocks stop) :
    stop ≤ (s.segments.map (·.nextBlockOffset)).foldl max 0 := by
  rcases List.eq_nil_or_concat s.segments with hnil | ⟨l, seg, hsegs⟩
  · rw [hnil] at h
    cases h
    omega
  · rw [List.concat_eq_append] at hsegs
    rw [hsegs] at h ⊢
    obtain ⟨-, -, -, -, -, hstop⟩ := segmentsHold_snoc _ _ _ _ _ h
    apply le_foldl_max
    left
    simp [hstop]

/-- The iterator from a boundary of the chain yields the blocks after it. -/
theorem blocksIter_eq (s : DirectoryChainStore) (stop start : ℕ) (l r : List DataBlock)
    (h : SegmentsHold 0 s.segments (l ++ r) stop) (hl : Linked 0 l start) :
    s.blocksIter start = r.map .ok := by
  have hlinked := segmentsHold_linked _ _ _ _ h
  obtain ⟨mid, hlmid, hr⟩ := (linked_append_iff l r 0 stop).mp hlinked
  have hmid : mid = start := by
    rw [linked_stop l 0 mid hlmid, linked_stop l 0 start hl]
  subst hmid
  have hlen := linked_length_le r mid stop hr fun b hb =>
    segmentsHold_framed _ _ _ _ h b (List.mem_append_right _ hb)
  have hstop := segmentsHold_stop_le s stop _ h
  rw [DirectoryChainStore.blocksIter]
  exact blockIterator_collect_eq s stop l r h ⟨mid, none, false⟩
    ⟨rfl, fun seg hseg => by contradiction⟩ hr _ (by omega)

theorem writeSegment_holds (s : DirectoryChainStore) (stop : ℕ) (blocks : List DataBlock)
    (b : DataBlock) (h : SegmentsHold 0 s.segments blocks stop) (hb : Framed b)
    (hoff : b.offset = stop) (hal : WriteAligned s b) :
    ∃ segs, s.writeSegment b = (.ok (), segs) ∧ SegmentsHold 0 segs (blocks ++ [b]) b.nextOffset ∧
      ∃ seg, segs.getLast? = some seg ∧ seg.nextBlockOffset = b.nextOffset := by
  rw [DirectoryChainStore.writeSegment]
  by_cases hnew : s.needNewSegment b = true
  · rw [if_pos hnew]
    have hclosed := segmentsHold_closeWriteLast _ _ _ _ h
    have hpath : b.offset ∉
        (DirectoryChainStore.closeWriteLast s.segments).map (·.firstBlockOffset) := by
      intro hmem
      obtain ⟨seg, hseg, hfirst⟩ := List.mem_map.mp hmem
      have hbound := (segmentsHold_bounds _ _ _ _ hclosed).2 seg hseg
      omega
    obtain ⟨seg, hcreate, hseg, -, hfirst, hnext⟩ := segment_create_holds s.config _ b hb hpath
    simp only [hcreate]
    refine ⟨_, rfl, ?_, _, List.getLast?_concat, hnext⟩
    have hone := segmentsHold_singleton _ _ (segmentHolds_mmap seg [b] .write hseg)
    have hstart : stop = seg.firstBlockOffset := by omega
    rw [hstart] at hclosed
    rw [← hnext]
    exact segmentsHold_append _ _ _ _ _ _ _ hclosed hone
  · rw [if_neg hnew]
    rcases List.eq_nil_or_concat s.segments with hnil | ⟨l, seg, hsegs⟩
    · rw [DirectoryChainStore.needNewSegment, hnil] at hnew
      exact absurd rfl hnew
    · rw [List.concat_eq_append] at hsegs
      have hlast : s.segments.getLast? = some seg := by rw [hsegs, List.getLast?_concat]
      have hfits : seg.nextFileOffset + b.totalSize ≤ s.config.segmentMaxSize := by
        rw [DirectoryChainStore.needNewSegment, hlast] at hnew
        simpa using hnew
      have hstep := hal seg hlast hfits
      rw [hsegs] at h
      obtain ⟨before, bs, rfl, hbefore, hseg, hstop⟩ := segmentsHold_snoc _ _ _ _ _ h
      obtain ⟨seg', hwrite, hseg', -, hfirst, hnext⟩ := segment_writeBlock_holds s.config seg bs b
        hseg hstep hb (by omega)
      rw [hlast]
      refine ⟨l ++ [seg'], by simp only [hwrite, hsegs, List.dropLast_concat], ?_, seg',
        List.getLast?_concat, hnext⟩
      have hone := segmentsHold_singleton _ _ hseg'
      rw [hfirst, hnext] at hone
      rw [List.append_assoc]
      exact segmentsHold_append _ _ _ _ _ _ _ hbefore hone

/-- The first block of a segment is where the segment starts. -/
theorem segmentHolds_first (seg : DirectorySegment) (l r : List DataBlock) (b : DataBlock)
    (h : SegmentHolds seg (l ++ b :: r)) : b.offset > seg.firstBlockOffset ↔ l ≠ [] := by
  obtain ⟨-, -, hoff, -⟩ := segmentHolds_split seg l r b h
  cases l with
  | nil => simp [hoff]
  | cons c l =>
    have hpos := (h.framed c (by simp)).totalSize_pos
    simp only [dataOf_cons, List.length_append, DataBlock.asDataVec_length] at hoff
    simp only [ne_eq, reduceCtorEq, not_false_eq_true, iff_true]
    omega

theorem truncateSegments_holds (s : DirectoryChainStore) (stop : ℕ) (l r : List DataBlock)
    (b : DataBlock) (h : SegmentsHold 0 s.segments (l ++ b :: r) stop) :
    ∃ segs, s.truncateSegments b.offset = .ok segs ∧ SegmentsHold 0 segs l b.offset := by
  have hb : b ∈ l ++ b :: r := by simp
  have hlinked := segmentsHold_linked _ _ _ _ h
  have hpos := (segmentsHold_framed _ _ _ _ h b hb).totalSize_pos
  have hbound := linked_offset_lt _ b _ _ hlinked hb hpos
  have hnext : b.nextOffset = b.offset + b.totalSize := rfl
  obtain ⟨before, seg, after, hsegs, hindex, -, hlo, hhi⟩ :=
    getSegmentForBlockOffset_eq s 0 stop b.offset _ h (Nat.zero_le _) hbound.2.1
  have hget : s.segments[before.length]? = some seg := by
    rw [hsegs, List.getElem?_append_right le_rfl, Nat.sub_self, List.getElem?_cons_zero]
  have htake : s.segments.take before.length = before := by
    rw [hsegs, List.take_left]
  rw [hsegs] at h
  obtain ⟨front, bs, rear, hsplit, hfront, hseg, hrear⟩ := segmentsHold_split _ _ _ _ _ _ h
  -- the block is one of the segment's: the cut of the list falls in it
  obtain ⟨cut, tail, rfl, hl⟩ : ∃ cut tail, bs = cut ++ b :: tail ∧ l = front ++ cut := by
    have hlen := (linked_middle l r b _ _ hlinked).1
    have hflen := linked_stop _ _ _ (segmentsHold_linked _ _ _ _ hfront)
    have hblen := linked_stop _ _ _ hseg.linked
    exact cut_in_middle front bs rear l r b hsplit.symm (by omega) (by omega)
      fun c hc => (segmentsHold_framed _ _ _ _ hfront c hc).totalSize_pos
  simp only [DirectoryChainStore.truncateSegments, hindex, orError_some, ok_bind, hget,
    orPanic_some]
  by_cases hcut : cut = []
  · subst hcut
    have hle : ¬ b.offset > seg.firstBlockOffset := by
      rw [segmentHolds_first seg [] tail b hseg]
      simp
    refine ⟨before, by rw [if_neg hle, htake]; rfl, ?_⟩
    rw [hl, List.append_nil]
    have hfirst : b.offset = seg.firstBlockOffset := by omega
    rw [hfirst]
    exact hfront
  · have hgt := (segmentHolds_first seg cut tail b hseg).mpr hcut
    obtain ⟨seg', htrunc, hseg', hfirst, hnext', -⟩ := segment_truncate_holds seg cut tail b hseg hcut
    refine ⟨before ++ [seg'], by rw [if_pos hgt, htrunc, htake]; rfl, ?_⟩
    have hone := segmentsHold_singleton _ _ hseg'
    rw [hfirst, hnext'] at hone
    rw [hl]
    exact segmentsHold_append _ _ _ _ _ _ _ hfront hone

end Exocore.Chain
