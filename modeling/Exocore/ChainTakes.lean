import Exocore.ChainHolds

/-! Which blocks a write takes into the segments, in any store, and what it leaves where it does
not take the block. -/
namespace Exocore.Chain

open Exocore.Core

/-- A write to a segment only asks for the offset, the file grows as it needs. -/
theorem segment_writeBlock_eq (config : DirectoryChainStoreConfig) (s : DirectorySegment)
    (b : DataBlock) (hoff : b.offset = s.nextBlockOffset) :
    ∃ s', s.writeBlock config b = .ok s' ∧ s'.firstBlockOffset = s.firstBlockOffset ∧
      s'.nextBlockOffset = s.nextBlockOffset + b.totalSize := by
  have hroom : s.nextFileOffset + b.totalSize ≤
      (s.ensureFileSize config b.totalSize).segmentFile.data.length := by
    rw [DirectorySegment.ensureFileSize]
    split_ifs with hsmall
    · simp only [SegmentFile.setLen, SegmentFile.resize_length]
      omega
    · rw [← s.segmentFile.sized]
      omega
  have hsame : (s.ensureFileSize config b.totalSize).firstBlockOffset = s.firstBlockOffset ∧
      (s.ensureFileSize config b.totalSize).nextBlockOffset = s.nextBlockOffset := by
    rw [DirectorySegment.ensureFileSize]
    split_ifs <;> exact ⟨rfl, rfl⟩
  obtain ⟨f', hf', -⟩ := SegmentFile.writeBlock_eq_ok _ _ b hroom
  simp only [DirectorySegment.writeBlock, ne_eq, hoff, not_true_eq_false, if_false, hf', ok_bind,
    pure, Except.pure]
  exact ⟨_, rfl, hsame.1, by rw [hsame.2]⟩

theorem segment_create_eq (config : DirectoryChainStoreConfig) (existing : List ℕ)
    (b : DataBlock) (header : BlockHeader) (hreader : b.header.reader = some header)
    (hnew : header.offset ∉ existing) :
    ∃ s, DirectorySegment.create config existing b = .ok s ∧
      s.firstBlockOffset = header.offset ∧ s.nextBlockOffset = header.offset + b.totalSize := by
  have hroom : 0 + b.totalSize ≤
      (SegmentFile.openFile [] (max config.segmentOverAllocateSize b.totalSize)).data.length := by
    rw [SegmentFile.openFile]
    split_ifs with hsmall
    · simp only [SegmentFile.resize_length]
      omega
    · simp only [List.length_nil] at hsmall ⊢
      omega
  obtain ⟨f', hf', -⟩ := SegmentFile.writeBlock_eq_ok _ _ b hroom
  simp only [DirectorySegment.create, hreader, orPanic_some, ok_bind, if_neg hnew, hf', pure,
    Except.pure]
  exact ⟨_, rfl, rfl, rfl⟩

theorem closeWriteLast_map {B : Type} (f : DirectorySegment → B) (segs : List DirectorySegment)
    (hf : ∀ seg, f { seg with segmentFile := seg.segmentFile.closeWrite } = f seg) :
    (DirectoryChainStore.closeWriteLast segs).map f = segs.map f := by
  rcases List.eq_nil_or_concat segs with rfl | ⟨l, seg, rfl⟩
  · rfl
  · rw [List.concat_eq_append, closeWriteLast_append, List.map_append, List.map_append,
      List.map_singleton, List.map_singleton, hf]

theorem closeWriteLast_first (segs : List DirectorySegment) :
    (DirectoryChainStore.closeWriteLast segs).map (·.firstBlockOffset) =
      segs.map (·.firstBlockOffset) :=
  closeWriteLast_map DirectorySegment.firstBlockOffset segs fun _ => rfl

/-- The checks that a write makes before it has written: a block that opens a segment has a
header, for an offset that no segment has; else it is at the end of the last segment. -/
def TakesBlock (s : DirectoryChainStore) (b : DataBlock) : Prop :=
  if s.needNewSegment b then
    ∃ header, b.header.reader = some header ∧
      header.offset ∉ s.segments.map DirectorySegment.firstBlockOffset
  else ∃ seg, s.segments.getLast? = some seg ∧ b.offset = seg.nextBlockOffset

instance (s : DirectoryChainStore) (b : DataBlock) : Decidable (TakesBlock s b) :=
  decidable_of_iff (if s.needNewSegment b then
      b.header.reader.any fun header =>
        decide (header.offset ∉ s.segments.map DirectorySegment.firstBlockOffset)
    else s.segments.getLast?.any fun seg => decide (b.offset = seg.nextBlockOffset)) (by
    rw [TakesBlock]
    split_ifs
    · rw [Option.any_eq_true]
      simp only [decide_eq_true_eq]
    · rw [Option.any_eq_true]
      simp only [decide_eq_true_eq])

/-- A write that needs a new segment has closed the last one before it is refused. -/
def refusedSegments (s : DirectoryChainStore) (b : DataBlock) : List DirectorySegment :=
  if s.needNewSegment b then DirectoryChainStore.closeWriteLast s.segments else s.segments

theorem refusedSegments_map {B : Type} (f : DirectorySegment → B) (s : DirectoryChainStore)
    (b : DataBlock)
    (hf : ∀ seg, f { seg with segmentFile := seg.segmentFile.closeWrite } = f seg) :
    (refusedSegments s b).map f = s.segments.map f := by
  rw [refusedSegments]
  split_ifs
  · exact closeWriteLast_map f s.segments hf
  · rfl

theorem exists_last_segment (s : DirectoryChainStore) (b : DataBlock)
    (hnew : ¬ s.needNewSegment b = true) : ∃ l seg, s.segments = l ++ [seg] := by
  rcases List.eq_nil_or_concat s.segments with hnil | ⟨l, seg, hconcat⟩
  · rw [DirectoryChainStore.needNewSegment, hnil] at hnew
    exact absurd rfl hnew
  · exact ⟨l, seg, by rw [hconcat, List.concat_eq_append]⟩

theorem writeSegment_not_taken (s : DirectoryChainStore) (b : DataBlock) (hnot : ¬ TakesBlock s b) :
    ∃ e, s.writeSegment b = (.error e, refusedSegments s b) := by
  rw [TakesBlock] at hnot
  rw [DirectoryChainStore.writeSegment, refusedSegments]
  by_cases hnew : s.needNewSegment b = true
  · rw [if_pos hnew] at hnot ⊢
    rw [if_pos hnew]
    cases hreader : b.header.reader with
    | none =>
      refine ⟨.panic, ?_⟩
      simp only [DirectorySegment.create, hreader]
      rfl
    | some header =>
      have hexists : header.offset ∈
          (DirectoryChainStore.closeWriteLast s.segments).map (·.firstBlockOffset) := by
        rw [closeWriteLast_first]
        by_contra hfree
        exact hnot ⟨header, hreader, hfree⟩
      simp only [DirectorySegment.create, hreader, orPanic_some, ok_bind, if_pos hexists]
      exact ⟨_, rfl⟩
  · rw [if_neg hnew] at hnot ⊢
    rw [if_neg hnew]
    obtain ⟨l, seg, hsegs⟩ := exists_last_segment s b hnew
    have hlast : s.segments.getLast? = some seg := by rw [hsegs, List.getLast?_concat]
    have hother : seg.nextBlockOffset ≠ b.offset := fun heq => hnot ⟨seg, hlast, heq.symm⟩
    simp only [hlast, DirectorySegment.writeBlock, ne_eq, hother, not_false_eq_true, if_true]
    exact ⟨_, rfl⟩

/-- A block that is taken opens a segment, or stands behind the last one. -/
theorem writeSegment_taken (s : DirectoryChainStore) (b : DataBlock) (h : TakesBlock s b) :
    (s.needNewSegment b = true ∧ ∃ header seg, b.header.reader = some header ∧ s.writeSegment b =
        (.ok (), DirectoryChainStore.closeWriteLast s.segments ++ [seg]) ∧
      seg.firstBlockOffset = header.offset ∧
      seg.nextBlockOffset = header.offset + b.totalSize) ∨
    ¬ s.needNewSegment b = true ∧ ∃ l last seg, s.segments = l ++ [last] ∧
      b.offset = last.nextBlockOffset ∧ s.writeSegment b = (.ok (), l ++ [seg]) ∧
      seg.firstBlockOffset = last.firstBlockOffset ∧
      seg.nextBlockOffset = last.nextBlockOffset + b.totalSize := by
  rw [TakesBlock] at h
  rw [DirectoryChainStore.writeSegment]
  by_cases hnew : s.needNewSegment b = true
  · rw [if_pos hnew] at h ⊢
    obtain ⟨header, hreader, hfree⟩ := h
    rw [← closeWriteLast_first] at hfree
    obtain ⟨seg, hcreate, hfirst, hnext⟩ := segment_create_eq s.config _ b header hreader hfree
    simp only [hcreate]
    exact Or.inl ⟨hnew, header, { seg with segmentFile := seg.segmentFile.openWrite }, hreader,
      rfl, hfirst, hnext⟩
  · rw [if_neg hnew] at h ⊢
    obtain ⟨l, last, hsegs⟩ := exists_last_segment s b hnew
    have hlast : s.segments.getLast? = some last := by rw [hsegs, List.getLast?_concat]
    obtain ⟨seg, hseg, hoff⟩ := h
    obtain rfl := Option.some.inj (hlast.symm.trans hseg)
    obtain ⟨seg, hwrite, hfirst, hnext⟩ := segment_writeBlock_eq s.config last b hoff
    rw [hlast]
    simp only [hwrite, hsegs, List.dropLast_concat]
    exact Or.inr ⟨hnew, l, last, seg, rfl, hoff, rfl, hfirst, hnext⟩

/-- The end of the last segment once the block was taken. -/
def takenEnd (s : DirectoryChainStore) (b : DataBlock) : ℕ :=
  (if s.needNewSegment b then (b.header.reader.map BlockHeader.offset).getD 0 else b.offset) +
    b.totalSize

section Writes
variable [Crates]

/-- A write that takes its block answers with the end of the chain, if the index does not fail. -/
theorem writeBlock_taken (s : DirectoryChainStore) (b : DataBlock) (h : TakesBlock s b) :
    (s.writeBlock b).1 = match s.operationIndex with
      | none => .error .panic
      | some i => (i.indexBlock s.config b).1.map fun _ => takenEnd s b := by
  obtain ⟨l, seg, hwrite, hstop⟩ : ∃ l seg, s.writeSegment b = (.ok (), l ++ [seg]) ∧
      seg.nextBlockOffset = takenEnd s b := by
    rcases writeSegment_taken s b h with ⟨hnew, header, seg, hreader, hwrite, -, hnext⟩ |
      ⟨hnew, l, last, seg, -, hoff, hwrite, -, hnext⟩
    · refine ⟨_, seg, hwrite, ?_⟩
      rw [takenEnd, if_pos hnew, hreader, hnext]
      rfl
    · refine ⟨l, seg, hwrite, ?_⟩
      rw [takenEnd, if_neg hnew, hnext, hoff]
  simp only [DirectoryChainStore.writeBlock, hwrite, List.getLast?_concat, ← hstop]
  cases s.operationIndex with
  | none => rfl
  | some i =>
    simp only
    rcases i.indexBlock s.config b with ⟨_ | _, i'⟩ <;> rfl

theorem writeBlock_not_taken (s : DirectoryChainStore) (b : DataBlock) (hnot : ¬ TakesBlock s b) :
    ∃ e, s.writeBlock b = (.error e, { s with segments := refusedSegments s b }) := by
  obtain ⟨e, hwrite⟩ := writeSegment_not_taken s b hnot
  exact ⟨e, by rw [DirectoryChainStore.writeBlock, hwrite]⟩

theorem segmentsHold_refused (s : DirectoryChainStore) (b : DataBlock) (start stop : ℕ)
    (blocks : List DataBlock) (h : SegmentsHold start s.segments blocks stop) :
    SegmentsHold start (refusedSegments s b) blocks stop := by
  rw [refusedSegments]
  split_ifs
  · exact segmentsHold_closeWriteLast _ _ _ _ h
  · exact h

/-- At the end of the chain a block is taken and indexed, wherever the cursors stand. -/
theorem StoreHolds.writeBlock_isOk {strict : Prop} {s : DirectoryChainStore}
    {blocks : List DataBlock} (h : StoreHolds strict s blocks) (c : DataBlock) (hc : Framed c)
    (hread : Indexable c) (hoff : c.offset = endOf blocks) :
    (s.writeBlock c).1 = .ok c.nextOffset := by
  obtain ⟨stop, i, hsegs, hindex, hi⟩ := h
  have hend := linked_endOf blocks stop (segmentsHold_linked _ _ _ _ hsegs)
  obtain ⟨header, hreader, hsame, -⟩ := hc.headerAgrees
  have htaken : TakesBlock s c := by
    rw [TakesBlock]
    split_ifs with hnew
    · refine ⟨header, hreader, ?_⟩
      intro hmem
      obtain ⟨seg, hseg, hfirst⟩ := List.mem_map.mp hmem
      have hbound := (segmentsHold_bounds _ _ _ _ hsegs).2 seg hseg
      omega
    · obtain ⟨l, seg, hconcat⟩ := exists_last_segment s c hnew
      rw [hconcat] at hsegs ⊢
      obtain ⟨-, -, -, -, -, hstop⟩ := segmentsHold_snoc _ _ _ _ _ hsegs
      exact ⟨seg, List.getLast?_concat, by omega⟩
  obtain ⟨i', hblock, -⟩ := indexBlock_holds s.config strict i blocks c stop hi hread (by omega)
  have hstop : takenEnd s c = c.nextOffset := by
    rw [takenEnd, hreader, DataBlock.nextOffset, ← hsame]
    simp
  rw [writeBlock_taken s c htaken, hindex]
  simp only [hblock, Except.map, hstop]

/-- A store holds its chain also after a write that does not take its block. -/
theorem StoreHolds.not_taken {strict : Prop} {s : DirectoryChainStore} {blocks : List DataBlock}
    (h : StoreHolds strict s blocks) (b : DataBlock) (hnot : ¬ TakesBlock s b) :
    (∃ e, (s.writeBlock b).1 = .error e) ∧ StoreHolds strict (s.writeBlock b).2 blocks := by
  obtain ⟨stop, i, hsegs, hindex, hi⟩ := h
  obtain ⟨e, hwrite⟩ := writeBlock_not_taken s b hnot
  rw [hwrite]
  exact ⟨⟨e, rfl⟩, stop, i, segmentsHold_refused s b 0 stop blocks hsegs, hindex, hi⟩

end Writes

end Exocore.Chain
