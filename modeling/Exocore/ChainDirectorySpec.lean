import Exocore.ChainSegmentSpec
import Exocore.ChainDirectory

/-! What the segments of a store hold: runs of blocks that follow each other. Reads, the
iterator, the write and the truncation of the segments are stated on the whole list. -/
namespace Exocore.Chain

open Exocore.Core

theorem compareSegment_eq_iff (offset : ℕ) (seg : DirectorySegment) :
    DirectoryChainStore.compareSegment offset seg = .eq ↔
      seg.firstBlockOffset ≤ offset ∧ offset < seg.nextBlockOffset := by
  unfold DirectoryChainStore.compareSegment
  split_ifs with h1 h2 <;> simp <;> omega

variable [Crates]

/-- The segment found for an offset is the one that covers it, with its place. -/
theorem getSegmentIndex_sound (s : DirectoryChainStore) (offset index : ℕ)
    (h : s.getSegmentIndexForBlockOffset offset = some index) :
    ∃ l seg r, s.segments = l ++ seg :: r ∧ l.length = index ∧
      seg.firstBlockOffset ≤ offset ∧ offset < seg.nextBlockOffset := by
  obtain ⟨seg, hget, hcmp⟩ := Search.binarySearchBy_sound _ _ _ h
  obtain ⟨hlt, rfl⟩ := List.getElem?_eq_some_iff.mp hget
  refine ⟨s.segments.take index, s.segments[index], s.segments.drop (index + 1), ?_, ?_,
    (compareSegment_eq_iff _ _).mp hcmp⟩
  · rw [List.cons_getElem_drop_succ, List.take_append_drop]
  · rw [List.length_take]
    omega

/-- The segments hold the blocks from an offset up to another. -/
inductive SegmentsHold : ℕ → List DirectorySegment → List DataBlock → ℕ → Prop
  | nil (start : ℕ) : SegmentsHold start [] [] start
  | cons (start : ℕ) (seg : DirectorySegment) (segs : List DirectorySegment)
      (bs rest : List DataBlock) (stop : ℕ) (hstart : seg.firstBlockOffset = start)
      (hseg : SegmentHolds seg bs) (hrest : SegmentsHold seg.nextBlockOffset segs rest stop) :
      SegmentsHold start (seg :: segs) (bs ++ rest) stop

theorem segmentsHold_append (start mid stop : ℕ) (l r : List DirectorySegment)
    (bl br : List DataBlock) (hl : SegmentsHold start l bl mid) (hr : SegmentsHold mid r br stop) :
    SegmentsHold start (l ++ r) (bl ++ br) stop := by
  induction hl with
  | nil start => exact hr
  | cons start seg segs bs rest mid hstart hseg hrest ih =>
    rw [List.append_assoc]
    exact .cons start seg (segs ++ r) bs (rest ++ br) stop hstart hseg (ih hr)

theorem segmentsHold_singleton (seg : DirectorySegment) (bs : List DataBlock)
    (h : SegmentHolds seg bs) :
    SegmentsHold seg.firstBlockOffset [seg] bs seg.nextBlockOffset := by
  have hc := SegmentsHold.cons _ seg [] bs [] seg.nextBlockOffset rfl h (.nil _)
  rwa [List.append_nil] at hc

/-- A segment splits the blocks into those before it, its own and those after it. -/
theorem segmentsHold_split (start stop : ℕ) (l r : List DirectorySegment) (seg : DirectorySegment)
    (blocks : List DataBlock) (h : SegmentsHold start (l ++ seg :: r) blocks stop) :
    ∃ before bs after, blocks = before ++ bs ++ after ∧
      SegmentsHold start l before seg.firstBlockOffset ∧ SegmentHolds seg bs ∧
      SegmentsHold seg.nextBlockOffset r after stop := by
  induction l generalizing start blocks with
  | nil =>
    cases h with
    | cons _ _ _ bs rest _ hstart hseg hrest =>
      exact ⟨[], bs, rest, by rw [List.nil_append], hstart ▸ .nil _, hseg, hrest⟩
  | cons x l ih =>
    cases h with
    | cons _ _ _ bs rest _ hstart hseg hrest =>
      obtain ⟨before, own, after, rfl, hbefore, hown, hafter⟩ := ih _ _ hrest
      exact ⟨bs ++ before, own, after, by simp only [List.append_assoc],
        .cons _ x l bs before _ hstart hseg hbefore, hown, hafter⟩

theorem segmentsHold_linked (start stop : ℕ) (segs : List DirectorySegment)
    (blocks : List DataBlock) (h : SegmentsHold start segs blocks stop) :
    Linked start blocks stop := by
  induction h with
  | nil start => exact rfl
  | cons start seg segs bs rest stop hstart hseg hrest ih =>
    exact (linked_append_iff bs rest _ _).mpr ⟨_, hstart ▸ hseg.linked, ih⟩

theorem segmentsHold_framed (start stop : ℕ) (segs : List DirectorySegment)
    (blocks : List DataBlock) (h : SegmentsHold start segs blocks stop) (b : DataBlock)
    (hb : b ∈ blocks) : Framed b := by
  induction h with
  | nil start => contradiction
  | cons start seg segs bs rest stop hstart hseg hrest ih =>
    rcases List.mem_append.mp hb with hb | hb
    · exact hseg.framed b hb
    · exact ih hb

theorem segmentHolds_range (seg : DirectorySegment) (bs : List DataBlock)
    (h : SegmentHolds seg bs) : seg.firstBlockOffset < seg.nextBlockOffset := by
  obtain ⟨b, hb⟩ := List.exists_mem_of_ne_nil bs h.nonempty
  obtain ⟨hlo, hhi, -⟩ := linked_offset_lt bs b _ _ h.linked hb
    (h.framed b hb).totalSize_pos
  omega

theorem segmentsHold_bounds (start stop : ℕ) (segs : List DirectorySegment)
    (blocks : List DataBlock) (h : SegmentsHold start segs blocks stop) :
    start ≤ stop ∧ ∀ seg ∈ segs, start ≤ seg.firstBlockOffset ∧
      seg.firstBlockOffset < seg.nextBlockOffset ∧ seg.nextBlockOffset ≤ stop := by
  induction h with
  | nil start => exact ⟨le_rfl, fun seg hseg => by contradiction⟩
  | cons start seg segs bs rest stop hstart hseg hrest ih =>
    have hrange := segmentHolds_range seg bs hseg
    obtain ⟨hle, hall⟩ := ih
    refine ⟨by omega, fun x hx => ?_⟩
    rcases List.mem_cons.mp hx with rfl | hx
    · exact ⟨by omega, hrange, hle⟩
    · obtain ⟨h1, h2, h3⟩ := hall x hx
      exact ⟨by omega, h2, h3⟩

/-- Segments that follow each other are in the order the binary search needs. -/
theorem segmentsHold_sortedFor (start stop offset : ℕ) (segs : List DirectorySegment)
    (blocks : List DataBlock) (h : SegmentsHold start segs blocks stop) :
    Search.SortedFor (DirectoryChainStore.compareSegment offset) segs := by
  induction h with
  | nil start => exact List.Pairwise.nil
  | cons start seg segs bs rest stop hstart hseg hrest ih =>
    refine List.Pairwise.cons (fun x hx => ?_) ih
    obtain ⟨h1, h2, h3⟩ := (segmentsHold_bounds _ _ _ _ hrest).2 x hx
    have hrange := segmentHolds_range seg bs hseg
    unfold DirectoryChainStore.compareSegment
    constructor <;> intro hc <;> split_ifs at hc ⊢ <;> simp_all <;> omega

theorem getSegmentIndex_complete (s : DirectoryChainStore) (start stop offset : ℕ)
    (blocks : List DataBlock) (h : SegmentsHold start s.segments blocks stop)
    (seg : DirectorySegment) (hseg : seg ∈ s.segments) (hlo : seg.firstBlockOffset ≤ offset)
    (hhi : offset < seg.nextBlockOffset) :
    ∃ index, s.getSegmentIndexForBlockOffset offset = some index :=
  Search.binarySearchBy_complete _ _ (segmentsHold_sortedFor _ _ _ _ _ h) seg hseg
    ((compareSegment_eq_iff _ _).mpr ⟨hlo, hhi⟩)

/-- Every offset of the chain has a segment. -/
theorem segmentsHold_covers (start stop offset : ℕ) (segs : List DirectorySegment)
    (blocks : List DataBlock) (h : SegmentsHold start segs blocks stop) (hlo : start ≤ offset)
    (hhi : offset < stop) :
    ∃ seg ∈ segs, seg.firstBlockOffset ≤ offset ∧ offset < seg.nextBlockOffset := by
  induction h with
  | nil start => omega
  | cons start seg segs bs rest stop hstart hseg hrest ih =>
    by_cases hin : offset < seg.nextBlockOffset
    · exact ⟨seg, List.mem_cons_self, by omega, hin⟩
    · obtain ⟨x, hx, hcover⟩ := ih (by omega) hhi
      exact ⟨x, List.mem_cons_of_mem _ hx, hcover⟩

/-- The lookup of an offset of the chain gives the segment around it. -/
theorem getSegmentForBlockOffset_eq (s : DirectoryChainStore) (start stop offset : ℕ)
    (blocks : List DataBlock) (h : SegmentsHold start s.segments blocks stop)
    (hlo : start ≤ offset) (hhi : offset < stop) :
    ∃ l seg r, s.segments = l ++ seg :: r ∧
      s.getSegmentIndexForBlockOffset offset = some l.length ∧
      s.getSegmentForBlockOffset offset = some seg ∧
      seg.firstBlockOffset ≤ offset ∧ offset < seg.nextBlockOffset := by
  obtain ⟨x, hx, hxlo, hxhi⟩ := segmentsHold_covers start stop offset _ _ h hlo hhi
  obtain ⟨index, hindex⟩ := getSegmentIndex_complete s start stop offset blocks h x hx hxlo hxhi
  obtain ⟨l, seg, r, hsegs, rfl, hslo, hshi⟩ := getSegmentIndex_sound s offset index hindex
  refine ⟨l, seg, r, hsegs, hindex, ?_, hslo, hshi⟩
  rw [DirectoryChainStore.getSegmentForBlockOffset, hindex, hsegs, Option.bind_eq_bind,
    Option.bind_some, List.getElem?_append_right le_rfl, Nat.sub_self, List.getElem?_cons_zero]

theorem getSegmentForBlockOffset_eq_none (s : DirectoryChainStore) (start stop offset : ℕ)
    (blocks : List DataBlock) (h : SegmentsHold start s.segments blocks stop)
    (hout : stop ≤ offset) : s.getSegmentForBlockOffset offset = none := by
  rw [DirectoryChainStore.getSegmentForBlockOffset]
  cases hindex : s.getSegmentIndexForBlockOffset offset with
  | none => rfl
  | some index =>
    obtain ⟨l, seg, r, hsegs, -, hlo, hhi⟩ := getSegmentIndex_sound s offset index hindex
    obtain ⟨-, -, hle⟩ := (segmentsHold_bounds _ _ _ _ h).2 seg (by rw [hsegs]; simp)
    omega

/-- A block whose bytes are at an offset of a segment is one of that segment. -/
theorem segmentsHold_mem (start stop offset : ℕ) (l r : List DirectorySegment)
    (seg : DirectorySegment) (blocks : List DataBlock) (b : DataBlock)
    (h : SegmentsHold start (l ++ seg :: r) blocks stop) (hb : b ∈ blocks)
    (hlo : seg.firstBlockOffset ≤ offset) (hhi : offset < seg.nextBlockOffset)
    (hblo : b.offset ≤ offset) (hbhi : offset < b.nextOffset) :
    ∃ bs, SegmentHolds seg bs ∧ b ∈ bs := by
  have hpos := (segmentsHold_framed _ _ _ _ h b hb).totalSize_pos
  obtain ⟨before, bs, after, rfl, hbefore, hseg, hafter⟩ := segmentsHold_split _ _ _ _ _ _ h
  refine ⟨bs, hseg, ?_⟩
  rcases List.mem_append.mp hb with hb | hb
  · rcases List.mem_append.mp hb with hb | hb
    · have hbound := linked_offset_lt before b _ _ (segmentsHold_linked _ _ _ _ hbefore) hb hpos
      omega
    · exact hb
  · have hbound := linked_offset_lt after b _ _ (segmentsHold_linked _ _ _ _ hafter) hb hpos
    omega

theorem getBlock_eq (s : DirectoryChainStore) (stop : ℕ) (blocks : List DataBlock)
    (h : SegmentsHold 0 s.segments blocks stop) (b : DataBlock) (hb : b ∈ blocks) :
    s.getBlock b.offset = .ok b := by
  have hpos := (segmentsHold_framed _ _ _ _ h b hb).totalSize_pos
  have hbound := linked_offset_lt blocks b _ _ (segmentsHold_linked _ _ _ _ h) hb hpos
  have hnext : b.nextOffset = b.offset + b.totalSize := rfl
  obtain ⟨l, seg, r, hsegs, -, hfind, hlo, hhi⟩ :=
    getSegmentForBlockOffset_eq s 0 stop b.offset blocks h (Nat.zero_le _) hbound.2.1
  rw [hsegs] at h
  obtain ⟨bs, hseg, hmem⟩ := segmentsHold_mem _ _ b.offset l r seg blocks b h hb hlo hhi le_rfl
    (by omega)
  rw [DirectoryChainStore.getBlock, hfind]
  exact segment_getBlock_eq seg bs b hseg hmem

theorem getBlockFromNextOffset_eq (s : DirectoryChainStore) (stop : ℕ) (blocks : List DataBlock)
    (h : SegmentsHold 0 s.segments blocks stop) (b : DataBlock) (hb : b ∈ blocks) :
    s.getBlockFromNextOffset b.nextOffset = .ok b := by
  have hpos := (segmentsHold_framed _ _ _ _ h b hb).totalSize_pos
  have hbound := linked_offset_lt blocks b _ _ (segmentsHold_linked _ _ _ _ h) hb hpos
  have hnext : b.nextOffset = b.offset + b.totalSize := rfl
  obtain ⟨l, seg, r, hsegs, -, hfind, hlo, hhi⟩ :=
    getSegmentForBlockOffset_eq s 0 stop (b.nextOffset - 1) blocks h (Nat.zero_le _) (by omega)
  rw [hsegs] at h
  obtain ⟨bs, hseg, hmem⟩ := segmentsHold_mem _ _ (b.nextOffset - 1) l r seg blocks b h hb hlo hhi
    (by omega) (by omega)
  rw [DirectoryChainStore.getBlockFromNextOffset, DirectoryChainStore.getSegmentForNextBlockOffset,
    if_pos (by omega), hfind]
  exact segment_getBlockFromNextOffset_eq seg bs b hseg hmem

end Exocore.Chain
