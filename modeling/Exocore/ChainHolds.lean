import Exocore.ChainRuns

/-! A store whose chain is a list of blocks and which can be written to: how the list grows,
and what is read between its blocks, in both directions. -/
namespace Exocore.Chain

open Exocore.Core

/-- The cursors of the segment that is written to are in step. -/
def CursorsInStep (s : DirectoryChainStore) : Prop :=
  ∀ seg, s.segments.getLast? = some seg → InStep seg

theorem closeWriteLast_inStep (segs : List DirectorySegment)
    (h : ∀ seg, segs.getLast? = some seg → InStep seg) (seg : DirectorySegment)
    (hseg : (DirectoryChainStore.closeWriteLast segs).getLast? = some seg) : InStep seg := by
  rcases List.eq_nil_or_concat segs with rfl | ⟨l, last, rfl⟩
  · simp [DirectoryChainStore.closeWriteLast] at hseg
  · rw [List.concat_eq_append, closeWriteLast_append, List.getLast?_concat] at hseg
    have hlast := h last (by rw [List.concat_eq_append, List.getLast?_concat])
    rw [← Option.some.inj hseg]
    exact hlast

/-- A write moves both cursors, and a new segment starts with both at the end of its block. -/
theorem writeSegment_inStep (s : DirectoryChainStore) (b : DataBlock) (h : CursorsInStep s)
    (hle : ∀ seg, s.segments.getLast? = some seg → seg.firstBlockOffset ≤ seg.nextBlockOffset)
    (seg : DirectorySegment) (hseg : (s.writeSegment b).2.getLast? = some seg) : InStep seg := by
  rw [DirectoryChainStore.writeSegment] at hseg
  split_ifs at hseg with hnew
  · simp only at hseg
    split at hseg
    · exact closeWriteLast_inStep _ h seg hseg
    · rename_i created hcreate
      rw [List.getLast?_concat] at hseg
      rw [← Option.some.inj hseg]
      simp only [DirectorySegment.create, bind_eq_ok_iff] at hcreate
      obtain ⟨header, -, hcreate⟩ := hcreate
      split_ifs at hcreate
      simp only [bind_eq_ok_iff, pure, Except.pure, Except.ok.injEq] at hcreate
      obtain ⟨file, -, rfl⟩ := hcreate
      simp only [InStep]
      omega
  · split at hseg
    · exact h seg hseg
    · rename_i last hlast
      split at hseg
      · exact h seg hseg
      · rename_i written hwrite
        rw [List.getLast?_concat] at hseg
        obtain rfl := Option.some.inj hseg
        have hstep := h last hlast
        have hbound := hle last hlast
        simp only [DirectorySegment.writeBlock] at hwrite
        split_ifs at hwrite
        simp only [bind_eq_ok_iff, pure, Except.pure, Except.ok.injEq] at hwrite
        obtain ⟨file, -, rfl⟩ := hwrite
        have hsame : (last.ensureFileSize s.config b.totalSize).nextFileOffset =
              last.nextFileOffset ∧
            (last.ensureFileSize s.config b.totalSize).nextBlockOffset = last.nextBlockOffset ∧
            (last.ensureFileSize s.config b.totalSize).firstBlockOffset =
              last.firstBlockOffset := by
          rw [DirectorySegment.ensureFileSize]
          split_ifs <;> exact ⟨rfl, rfl, rfl⟩
        simp only [InStep] at hstep ⊢
        rw [hsame.1, hsame.2.1, hsame.2.2]
        omega

/-- A place between two blocks of the chain, or at one of its ends. -/
def Boundary (blocks : List DataBlock) (offset : ℕ) : Prop :=
  ∃ l r, blocks = l ++ r ∧ Linked 0 l offset

theorem boundary_zero (blocks : List DataBlock) : Boundary blocks 0 := ⟨[], blocks, rfl, rfl⟩

theorem boundary_of_isPrefix {blocks blocks' : List DataBlock} {offset : ℕ}
    (h : Boundary blocks offset) (hgrow : blocks <+: blocks') : Boundary blocks' offset := by
  obtain ⟨l, r, rfl, hl⟩ := h
  obtain ⟨more, rfl⟩ := hgrow
  exact ⟨l, r ++ more, by rw [List.append_assoc], hl⟩

theorem boundary_block {blocks : List DataBlock} {stop : ℕ} (h : Linked 0 blocks stop)
    (b : DataBlock) (hb : b ∈ blocks) :
    Boundary blocks b.offset ∧ Boundary blocks b.nextOffset := by
  obtain ⟨l, r, rfl⟩ := List.append_of_mem hb
  obtain ⟨-, hl, -⟩ := linked_middle l r b _ _ h
  refine ⟨⟨l, b :: r, rfl, hl⟩, l ++ [b], r, by simp, ?_⟩
  exact (linked_append_iff l [b] 0 _).mpr ⟨b.offset, hl, rfl, rfl⟩

/-- The blocks before an offset inside two chains, of which one starts with the other, are
blocks of both. -/
theorem mem_of_offset_lt {blocks blocks' : List DataBlock} {stop' : ℕ}
    (hlinked : Linked 0 blocks' stop') (hpos : ∀ b ∈ blocks', 0 < b.totalSize)
    (hpre : blocks <+: blocks') (b : DataBlock) (hb : b ∈ blocks')
    (hlt : b.offset < endOf blocks) : b ∈ blocks := by
  obtain ⟨more, rfl⟩ := hpre
  rcases List.mem_append.mp hb with hb | hb
  · exact hb
  · obtain ⟨mid, hl, hr⟩ := (linked_append_iff blocks more 0 stop').mp hlinked
    rw [linked_endOf blocks mid hl] at hlt
    have hbound := linked_offset_lt more b mid stop' hr hb (hpos b (List.mem_append_right _ hb))
    omega

variable [Crates]

/-- The segments after the segment write are those of the store after the write, whatever the
index says. -/
theorem writeBlock_segments (s : DirectoryChainStore) (b : DataBlock) :
    (s.writeBlock b).2.segments = (s.writeSegment b).2 := by
  rw [DirectoryChainStore.writeBlock]
  cases s.writeSegment b with
  | mk res segments =>
    cases res with
    | error e => rfl
    | ok u =>
      simp only
      split
      · split <;> rfl
      · rfl

theorem writeBlock_inStep (strict : Prop) (s : DirectoryChainStore) (blocks : List DataBlock)
    (b : DataBlock) (hholds : StoreHolds strict s blocks) (h : CursorsInStep s) :
    CursorsInStep (s.writeBlock b).2 := by
  intro seg hseg
  rw [writeBlock_segments] at hseg
  refine writeSegment_inStep s b h ?_ seg hseg
  intro last hlast
  obtain ⟨stop, i, hsegs, -⟩ := hholds
  rcases List.eq_nil_or_concat s.segments with hnil | ⟨l, x, hconcat⟩
  · rw [hnil] at hlast
    contradiction
  · rw [hconcat, List.concat_eq_append, List.getLast?_concat] at hlast
    obtain rfl := Option.some.inj hlast
    rw [hconcat, List.concat_eq_append] at hsegs
    obtain ⟨before, bs, -, -, hheld, -⟩ := segmentsHold_snoc _ _ _ _ _ hsegs
    have hstop := linked_stop _ _ _ hheld.linked
    omega

/-- The store reads as these blocks, and the next one lands behind them. -/
structure HoldsFramed (s : DirectoryChainStore) (blocks : List DataBlock) : Prop where
  stored : StoreHolds False s blocks
  inStep : CursorsInStep s

/-- And all their operations read. -/
structure Holds (s : DirectoryChainStore) (blocks : List DataBlock) : Prop
    extends HoldsFramed s blocks where
  wellFormed : ∀ b ∈ blocks, WellFormed b

theorem HoldsFramed.segments {s : DirectoryChainStore} {blocks : List DataBlock}
    (h : HoldsFramed s blocks) : SegmentsHold 0 s.segments blocks (endOf blocks) := by
  obtain ⟨stop, i, hsegs, -⟩ := h.stored
  rw [linked_endOf blocks stop (segmentsHold_linked _ _ _ _ hsegs)]
  exact hsegs

theorem HoldsFramed.linked {s : DirectoryChainStore} {blocks : List DataBlock}
    (h : HoldsFramed s blocks) : Linked 0 blocks (endOf blocks) := segmentsHold_linked _ _ _ _ h.segments

theorem HoldsFramed.framed {s : DirectoryChainStore} {blocks : List DataBlock}
    (h : HoldsFramed s blocks) (b : DataBlock) (hb : b ∈ blocks) : Framed b :=
  segmentsHold_framed _ _ _ _ h.segments b hb

theorem holdsFramed_create (config : DirectoryChainStoreConfig) :
    HoldsFramed (DirectoryChainStore.create config) [] :=
  ⟨storeHolds_create False config, fun seg hseg => by simp [DirectoryChainStore.create] at hseg⟩

theorem holds_create (config : DirectoryChainStoreConfig) :
    Holds (DirectoryChainStore.create config) [] :=
  ⟨holdsFramed_create config, fun b hb => by contradiction⟩

/-- A block at the end of the chain is written behind it. -/
theorem HoldsFramed.writeBlock {s : DirectoryChainStore} {blocks : List DataBlock}
    (h : HoldsFramed s blocks) (b : DataBlock) (hb : Framed b) (hread : Indexable b)
    (hoff : b.offset = endOf blocks) :
    (s.writeBlock b).1 = .ok b.nextOffset ∧ HoldsFramed (s.writeBlock b).2 (blocks ++ [b]) := by
  obtain ⟨s', hwrite, hstored⟩ := writeBlock_holds False s blocks b h.stored hb hread hoff
    fun seg hseg _ => h.inStep seg hseg
  have hstep := writeBlock_inStep False s blocks b h.stored h.inStep
  rw [hwrite] at hstep ⊢
  exact ⟨rfl, hstored, hstep⟩

theorem Holds.writeBlock {s : DirectoryChainStore} {blocks : List DataBlock} (h : Holds s blocks)
    (b : DataBlock) (hb : WellFormed b) (hoff : b.offset = endOf blocks) :
    (s.writeBlock b).1 = .ok b.nextOffset ∧ Holds (s.writeBlock b).2 (blocks ++ [b]) := by
  obtain ⟨hok, hheld⟩ := h.toHoldsFramed.writeBlock b hb.toFramed hb.indexable hoff
  refine ⟨hok, hheld, ?_⟩
  intro c hc
  rcases List.mem_append.mp hc with hc | hc
  · exact h.wellFormed c hc
  · rw [List.mem_singleton.mp hc]
    exact hb

theorem HoldsFramed.blocksIter {s : DirectoryChainStore} {l r : List DataBlock} {start : ℕ}
    (h : HoldsFramed s (l ++ r)) (hl : Linked 0 l start) : s.blocksIter start = r.map .ok :=
  blocksIter_eq s _ start l r h.segments hl

theorem HoldsFramed.blocksIter_zero {s : DirectoryChainStore} {blocks : List DataBlock}
    (h : HoldsFramed s blocks) : s.blocksIter 0 = blocks.map .ok := by
  have hfrom : HoldsFramed s ([] ++ blocks) := h
  exact hfrom.blocksIter rfl

theorem HoldsFramed.getBlock {s : DirectoryChainStore} {blocks : List DataBlock}
    (h : HoldsFramed s blocks) (b : DataBlock) (hb : b ∈ blocks) : s.getBlock b.offset = .ok b :=
  getBlock_eq s _ blocks h.segments b hb

theorem HoldsFramed.getLastBlock {s : DirectoryChainStore} {blocks : List DataBlock}
    (h : HoldsFramed s blocks) : s.getLastBlock = .ok blocks.getLast? :=
  getLastBlock_eq s _ blocks h.segments

theorem HoldsFramed.getBlockFromNextOffset {s : DirectoryChainStore} {blocks : List DataBlock}
    (h : HoldsFramed s blocks) (b : DataBlock) (hb : b ∈ blocks) :
    s.getBlockFromNextOffset b.nextOffset = .ok b :=
  getBlockFromNextOffset_eq s _ blocks h.segments b hb

/-- Nothing is read behind the end of the chain. -/
theorem HoldsFramed.getBlock_end {s : DirectoryChainStore} {blocks : List DataBlock}
    (h : HoldsFramed s blocks) (offset : ℕ) (hoff : endOf blocks ≤ offset) :
    s.getBlock offset = .error (.error (.outOfBound s!"No segment has block with offset {offset}")) := by
  rw [DirectoryChainStore.getBlock,
    getSegmentForBlockOffset_eq_none s 0 _ offset blocks h.segments hoff]

/-- Where the reverse iterator can stand: between segments, or in the one that covers the byte
before its offset. -/
def ReverseIteratorAt (s : DirectoryChainStore) (it : DirectoryChainStore.BlockIterator) : Prop :=
  it.done = false ∧ ∀ seg, it.currentSegment = some seg →
    (∃ l r, s.segments = l ++ seg :: r) ∧ seg.firstBlockOffset < it.currentOffset ∧
      it.currentOffset ≤ seg.nextBlockOffset

/-- Behind a block of the chain the reverse iterator yields it and stands before it. -/
theorem blockIterator_nextReverse_eq (s : DirectoryChainStore) (stop : ℕ)
    (blocks : List DataBlock) (h : SegmentsHold 0 s.segments blocks stop)
    (it : DirectoryChainStore.BlockIterator) (hit : ReverseIteratorAt s it) (b : DataBlock)
    (hb : b ∈ blocks) (hoff : it.currentOffset = b.nextOffset) :
    ∃ it', it.nextReverse s = (some (.ok b), it') ∧ ReverseIteratorAt s it' ∧
      it'.currentOffset = b.offset := by
  have hpos := (segmentsHold_framed _ _ _ _ h b hb).totalSize_pos
  have hbound := linked_offset_lt blocks b _ _ (segmentsHold_linked _ _ _ _ h) hb hpos
  have hnext : b.nextOffset = b.offset + b.totalSize := rfl
  obtain ⟨hdone, hcur⟩ := hit
  obtain ⟨seg, hpick, ⟨l, r, hsegs⟩, hlo, hhi⟩ : ∃ seg, it.segmentReverse s = some seg ∧
      (∃ l r, s.segments = l ++ seg :: r) ∧ seg.firstBlockOffset < it.currentOffset ∧
      it.currentOffset ≤ seg.nextBlockOffset := by
    rw [DirectoryChainStore.BlockIterator.segmentReverse]
    cases hc : it.currentSegment with
    | some seg => exact ⟨seg, rfl, hcur seg hc⟩
    | none =>
      obtain ⟨l, seg, r, hsegs, -, hfind, hlo, hhi⟩ := getSegmentForBlockOffset_eq s 0 stop
        (it.currentOffset - 1) blocks h (Nat.zero_le _) (by omega)
      refine ⟨seg, ?_, ⟨l, r, hsegs⟩, by omega, by omega⟩
      simp only
      rw [DirectoryChainStore.getSegmentForNextBlockOffset, if_pos (by omega), hfind]
  have hfirst : seg.firstBlockOffset ≤ b.offset := by
    rw [hsegs] at h
    obtain ⟨bs, hseg, hmem⟩ := segmentsHold_mem _ _ (b.nextOffset - 1) l r seg blocks b h hb
      (by omega) (by omega) (by omega) (by omega)
    exact (linked_offset_lt bs b _ _ hseg.linked hmem hpos).1
  have hread : seg.getBlockFromNextOffset it.currentOffset = .ok b := by
    rw [hsegs] at h
    obtain ⟨bs, hseg, hmem⟩ := segmentsHold_mem _ _ (b.nextOffset - 1) l r seg blocks b h hb
      (by omega) (by omega) (by omega) (by omega)
    rw [hoff]
    exact segment_getBlockFromNextOffset_eq seg bs b hseg hmem
  simp only [DirectoryChainStore.BlockIterator.nextReverse, hdone, Bool.false_eq_true, if_false,
    hpick, hread]
  have hfits : ¬ b.totalSize > it.currentOffset := by omega
  by_cases hend : b.totalSize + 1 > it.currentOffset ∨
      it.currentOffset - b.totalSize - 1 < seg.firstBlockOffset
  · simp only [if_pos hend, if_neg hfits]
    exact ⟨_, rfl, ⟨rfl, fun x hx => by simp at hx⟩, by simp only; omega⟩
  · simp only [if_neg hend, if_neg hfits]
    refine ⟨_, rfl, ⟨rfl, ?_⟩, by simp only; omega⟩
    intro x hx
    obtain rfl : seg = x := Option.some.inj hx
    exact ⟨⟨l, r, hsegs⟩, by simp only; omega, by simp only; omega⟩

theorem blockIterator_collectReverse_eq (s : DirectoryChainStore) (stop : ℕ) (l r : List DataBlock)
    (h : SegmentsHold 0 s.segments (l ++ r) stop) (it : DirectoryChainStore.BlockIterator)
    (hit : ReverseIteratorAt s it) (hlink : Linked 0 l it.currentOffset) (fuel : ℕ)
    (hfuel : l.length < fuel) :
    DirectoryChainStore.BlockIterator.collectReverse s fuel it = l.reverse.map .ok := by
  induction l using List.reverseRecOn generalizing r it fuel with
  | nil =>
    obtain ⟨fuel, rfl⟩ : ∃ n, fuel = n + 1 := ⟨fuel - 1, by omega⟩
    obtain ⟨hdone, hcur⟩ := hit
    have hzero : it.currentOffset = 0 := hlink.symm
    have hnone : it.segmentReverse s = none := by
      rw [DirectoryChainStore.BlockIterator.segmentReverse]
      cases hc : it.currentSegment with
      | none =>
        simp only
        rw [DirectoryChainStore.getSegmentForNextBlockOffset, hzero, if_neg (by omega)]
      | some seg =>
        have hlt := (hcur seg hc).2.1
        omega
    have hend : it.nextReverse s = (none, it) := by
      simp only [DirectoryChainStore.BlockIterator.nextReverse, hdone, Bool.false_eq_true, if_false,
        hnone]
    rw [DirectoryChainStore.BlockIterator.collectReverse, hend]
    rfl
  | append_singleton l b ih =>
    obtain ⟨fuel, rfl⟩ : ∃ n, fuel = n + 1 := ⟨fuel - 1, by omega⟩
    obtain ⟨-, hl, hend⟩ := linked_middle l [] b 0 _ hlink
    have hoff : it.currentOffset = b.nextOffset := hend.symm
    obtain ⟨it', hnext, hit', hoff'⟩ := blockIterator_nextReverse_eq s stop (l ++ [b] ++ r) h it
      hit b (by simp) hoff
    rw [List.append_assoc] at h
    have htail := ih ([b] ++ r) h it' hit' (by rw [hoff']; exact hl) fuel
      (by rw [List.length_append, List.length_singleton] at hfuel; omega)
    rw [DirectoryChainStore.BlockIterator.collectReverse, hnext, List.reverse_append]
    simp only [htail, List.reverse_singleton, List.singleton_append, List.map_cons]

/-- The reverse iterator from a boundary of the chain yields the blocks before it, the last
one first. -/
theorem HoldsFramed.blocksIterReverse {s : DirectoryChainStore} {l r : List DataBlock} {stop : ℕ}
    (h : HoldsFramed s (l ++ r)) (hl : Linked 0 l stop) :
    s.blocksIterReverse stop = l.reverse.map .ok := by
  have hlen := linked_length_le l 0 stop hl fun b hb =>
    h.framed b (List.mem_append_left _ hb)
  exact blockIterator_collectReverse_eq s _ l r h.segments ⟨stop, none, false⟩
    ⟨rfl, fun seg hseg => by simp at hseg⟩ hl _ (by omega)

end Exocore.Chain
