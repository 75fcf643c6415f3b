import Exocore.CommitScan
import Exocore.ChainSyncEnds

/-! What a node answers to a request for headers, and what the one that asked makes of it. -/
namespace Exocore.Engine

open Exocore.Core Exocore.Chain Ascending

section Answers

/-- The metadata of a range: from its first block on with the one behind it, and up to a block
that is as far as all those before its end. -/
structure Answers (chain : List DataBlock) (a : DataBlock) (limit : ℕ) (ms : List BlockMetadata) :
    Prop where
  ascends : Ascends BlockMetadata.offset ms
  inChain : ∀ m ∈ ms, MetadataIn chain m
  above : ∀ m ∈ ms, a.offset ≤ m.offset
  first : ∃ m ∈ ms, BlockMetadata.fromStoredBlock a = .ok m
  next : ∀ c ∈ chain, c.offset = a.nextOffset → ∃ m ∈ ms, BlockMetadata.fromStoredBlock c = .ok m
  reaches : ∀ c ∈ chain, c.offset < limit → ∃ m ∈ ms, c.offset ≤ m.offset

/-- The settings with which the search works. -/
structure Searches (config : ChainSyncConfig) : Prop where
  beginCount : 2 ≤ config.metadataSyncBeginCount
  endCount : 1 ≤ config.metadataSyncEndCount
  sampledCount : config.metadataSyncEndCount ≤ config.metadataSyncSampledCount

theorem Searches.sampledReaches {config : ChainSyncConfig} (h : Searches config) (count : ℕ) :
    SampledReaches config count := by
  by_cases hlong : config.metadataSyncEndCount < count
  · exact Or.inl hlong
  · -- fewer blocks than are sampled: each of them is
    have hskip : (count - 1) / config.metadataSyncSampledCount = 0 := by
      have hend := h.endCount
      have hle := h.sampledCount
      exact Nat.div_eq_of_lt (by omega)
    exact Or.inr (Or.inr (Or.inl (by rw [sampledSkip, hskip]; rfl)))

variable [Crates] {store : DirectoryChainStore} {chain : List DataBlock}
  {config : ChainSyncConfig}

theorem holds_ascends (h : Holds store chain) : Ascends DataBlock.offset chain :=
  linked_ascends chain 0 _ h.linked fun c hc => (h.wellFormed c hc).totalSize_pos

theorem holds_next_le (h : Holds store chain) (a c : DataBlock) (ha : a ∈ chain) (hc : c ∈ chain)
    (hlt : a.offset < c.offset) : a.nextOffset ≤ c.offset :=
  linked_nextOffset_le chain _ h.linked
    (fun d hd => (h.wellFormed d hd).totalSize_pos) a c ha hc hlt

theorem holds_exists_next (h : Holds store chain) (a c : DataBlock) (ha : a ∈ chain)
    (hc : c ∈ chain) (hlt : a.offset < c.offset) : ∃ n ∈ chain, n.offset = a.nextOffset :=
  linked_exists_next chain _ h.linked
    (fun d hd => (h.wellFormed d hd).totalSize_pos) a c ha hc hlt

/-- The block at the end of another one comes next, in what is taken of the chain. -/
theorem holds_next (h : Holds store chain) (a c : DataBlock) (tail : List DataBlock)
    (hsub : (a :: tail).Sublist chain) (hc : c ∈ a :: tail) (hoffset : c.offset = a.nextOffset) :
    ∃ more, tail = c :: more := by
  have hascends : Ascends DataBlock.offset (a :: tail) := (holds_ascends h).sublist hsub
  obtain ⟨habove, htail⟩ := List.pairwise_cons.mp hascends
  have ha : a ∈ chain := hsub.subset List.mem_cons_self
  have hpos := (h.wellFormed a ha).totalSize_pos
  have hnextOffset : a.nextOffset = a.offset + a.totalSize := rfl
  rcases List.mem_cons.mp hc with rfl | hc
  · omega
  · apply Ascends.eq_cons htail c hc
    intro d hd
    rw [hoffset]
    exact holds_next_le h a d ha (hsub.subset (List.mem_cons_of_mem a hd)) (habove d hd)

theorem sampled_answers (overflowChecks : Bool) (h : Holds store chain) (hnum : Numbered chain)
    (hconfig : Searches config) (a b : DataBlock) (ha : a ∈ chain) (hb : b ∈ chain)
    (hab : a.offset ≤ b.offset) (limit : ℕ) (hlimit : ∀ c ∈ chain, c.offset < limit →
      c.offset ≤ b.offset) (hnext : ∀ c ∈ chain, c.offset = a.nextOffset → c.offset ≤ b.offset) :
    ∃ ms, fromSampledChainSlice overflowChecks store (some a.offset) (some b.offset) config =
      .ok ms ∧ Answers chain a limit ms := by
  obtain ⟨m₀, -⟩ := hnum.reads a ha
  have hnonempty : Nonempty BlockMetadata := ⟨m₀⟩
  choose! f hf using hnum.reads
  have hsampled : 0 < config.metadataSyncSampledCount :=
    lt_of_lt_of_le hconfig.endCount hconfig.sampledCount
  have heq := fromSampledChainSlice_eq overflowChecks h hnum hf a b ha hb hab config hsampled
  obtain ⟨rest, hiter, hle, hlt, htake, hlength⟩ := range_take h hnum a b ha hb hab
  have hrange : 0 < (blocksBetween chain a.offset b.offset).length := by omega
  have hsub : (blocksBetween chain a.offset b.offset).Sublist chain := List.filter_sublist
  have hascends : Ascends DataBlock.offset (blocksBetween chain a.offset b.offset) :=
    (holds_ascends h).sublist hsub
  have hread : ∀ c ∈ blocksBetween chain a.offset b.offset,
      BlockMetadata.fromStoredBlock c = .ok (f c) := fun c hc => hf c (hsub.subset hc)
  have hends := (sampledEnds_iff _ hrange hascends (hnum.heightsGrow.sublist hsub) hread
    config).mpr (hconfig.sampledReaches _)
  have hmem (c : DataBlock) (hc : c ∈ blocksBetween chain a.offset b.offset) :
      c ∈ chain ∧ a.offset ≤ c.offset ∧ c.offset ≤ b.offset := by
    obtain ⟨hmem, hbounds⟩ := List.mem_filter.mp hc
    exact ⟨hmem, of_decide_eq_true hbounds⟩
  have hin (c : DataBlock) (hc : c ∈ chain) (hac : a.offset ≤ c.offset)
      (hcb : c.offset ≤ b.offset) : c ∈ blocksBetween chain a.offset b.offset :=
    List.mem_filter.mpr ⟨hc, decide_eq_true ⟨hac, hcb⟩⟩
  obtain ⟨tail, htail⟩ := hascends.eq_cons a (hin a ha le_rfl hab) fun c hc => (hmem c hc).2.1
  obtain ⟨front, hfront⟩ := hascends.eq_concat b (hin b hb hab le_rfl) fun c hc => (hmem c hc).2.2
  have hbegin := hconfig.beginCount
  refine ⟨_, heq, ?_, ?_, ?_, ?_, ?_, ?_⟩
  · rw [Ascends, List.pairwise_map]
    have hpairs : (blocksBetween chain a.offset b.offset).zipIdx.Pairwise
        fun x y => x.1.offset < y.1.offset := by
      rw [← List.zipIdx_map_fst 0 (blocksBetween chain a.offset b.offset), Ascends,
        List.pairwise_map] at hascends
      exact hascends
    refine (hpairs.sublist List.filter_sublist).imp_of_mem ?_
    intro x y hx hy hlt
    have hx' := List.fst_mem_of_mem_zipIdx (List.mem_of_mem_filter hx)
    have hy' := List.fst_mem_of_mem_zipIdx (List.mem_of_mem_filter hy)
    rw [fromStoredBlock_offset (hread _ hx'), fromStoredBlock_offset (hread _ hy')]
    exact hlt
  · intro m hm
    exact (hends.between m hm).mono hsub.subset
  · intro m hm
    obtain ⟨c, hc, hread'⟩ := hends.between m hm
    rw [fromStoredBlock_offset hread']
    exact (hmem c hc).2.1
  · apply hends.first
    rw [htail]
    exact List.mem_take_iff_getElem.mpr ⟨0, by simp; omega, rfl⟩
  · -- the next block is the second one of the range
    intro c hc hoffset
    have hge : a.offset ≤ c.offset := by
      rw [hoffset]
      exact Nat.le_add_right _ _
    have hcin := hin c hc hge (hnext c hc hoffset)
    rw [htail] at hcin
    obtain ⟨more, hmore⟩ := holds_next h a c tail (htail ▸ hsub) hcin hoffset
    apply hends.first
    rw [htail, hmore]
    exact List.mem_take_iff_getElem.mpr ⟨1, by simp; omega, rfl⟩
  · intro c hc hlt'
    obtain ⟨m, hm, hread'⟩ := hends.last b (by
      rw [hfront, List.rtake, List.length_append, List.length_singleton]
      have hend := hconfig.endCount
      rw [List.drop_append_of_le_length (by omega)]
      exact List.mem_append_right _ List.mem_cons_self)
    refine ⟨m, hm, ?_⟩
    rw [fromStoredBlock_offset hread']
    exact hlimit c hc hlt'

theorem boundaries_answers (h : Holds store chain) (hnum : Numbered chain)
    (hconfig : Searches config) (a : DataBlock) (ha : a ∈ chain) (toOffset : ℕ)
    (hto : Boundary chain toOffset) :
    ∃ ms, fromSegmentBoundaries store (rangeSegments store a.offset toOffset) (some a.offset)
      (some toOffset) config = .ok ms ∧ Answers chain a toOffset ms := by
  obtain ⟨f, g, hread⟩ := read_of_holds h hnum a ha a.offset toOffset
  have heq := fromSegmentBoundaries_eq h a ha toOffset hto f g hread config
  have hfrom : Boundary chain a.offset := (boundary_block h.linked a ha).1
  have hin := fromSegmentBoundaries_in h _ (fun _ hs => List.mem_of_mem_filter hs) _ _
    (by exact hfrom) (fun t ht => Option.some.inj ht ▸ hto) config _ heq
  have hbeginSub : (beginBlocks chain a.offset config).Sublist chain :=
    (List.take_sublist _ _).trans List.filter_sublist
  have hendSub : (endBlocks chain toOffset config).Sublist chain :=
    (List.drop_sublist _ _).trans List.filter_sublist
  have hfirsts := hread.map_ascends hbeginSub
  set first := (beginBlocks chain a.offset config).map f with hfirst
  set starts := (rangeSegments store a.offset toOffset).map fun segment => f (g segment)
  set ends := (endBlocks chain toOffset config).map f with hends
  have hmiddle : Ascends BlockMetadata.offset (extend BlockMetadata.offset first starts) :=
    ascends_extend hfirsts starts
  have hmemMiddle := mem_extend_iff hfirsts hread.starts_ascends
  have hmem := mem_extend_iff hmiddle (hread.map_ascends hendSub)
  have hbegin := hconfig.beginCount
  have hblocks : Ascends DataBlock.offset (blocksFrom chain a.offset) :=
    hread.ascends.sublist List.filter_sublist
  have habove (c : DataBlock) (hc : c ∈ blocksFrom chain a.offset) : a.offset ≤ c.offset :=
    of_decide_eq_true (List.mem_filter.mp hc).2
  have hain : a ∈ blocksFrom chain a.offset := List.mem_filter.mpr ⟨ha, decide_eq_true le_rfl⟩
  obtain ⟨tail, htail⟩ := hblocks.eq_cons a hain habove
  -- the first blocks are there
  have hkept (c : DataBlock) (hc : c ∈ beginBlocks chain a.offset config) :
      ∃ m ∈ extend BlockMetadata.offset (extend BlockMetadata.offset first starts) ends,
        BlockMetadata.fromStoredBlock c = .ok m :=
    ⟨f c, (hmem _).mpr (Or.inl ((hmemMiddle _).mpr (Or.inl (List.mem_map_of_mem hc)))),
      hread.blocks c (hbeginSub.subset hc)⟩
  have habegin : a ∈ beginBlocks chain a.offset config := by
    rw [beginBlocks, htail]
    exact List.mem_take_iff_getElem.mpr ⟨0, by simp; omega, rfl⟩
  have hafirst : f a ∈ first := List.mem_map_of_mem habegin
  have haoffset := hread.offset a ha
  refine ⟨_, heq, ascends_extend hmiddle ends, hin, ?_, hkept a habegin, ?_, ?_⟩
  · intro m hm
    rcases (hmem m).mp hm with hm | ⟨-, hm⟩
    · rcases (hmemMiddle m).mp hm with hm | ⟨-, hm⟩
      · obtain ⟨c, hc, rfl⟩ := List.mem_map.mp hm
        rw [hread.offset c (hbeginSub.subset hc)]
        exact habove c (List.mem_of_mem_take hc)
      · have hlt := hm (f a) hafirst
        omega
    · have hlt := hm (f a) ((hmemMiddle _).mpr (Or.inl hafirst))
      omega
  · intro c hc hoffset
    have hge : a.offset ≤ c.offset := by
      rw [hoffset]
      exact Nat.le_add_right _ _
    have hcin : c ∈ blocksFrom chain a.offset := List.mem_filter.mpr ⟨hc, decide_eq_true hge⟩
    rw [htail] at hcin
    have hsub : (a :: tail).Sublist chain := htail ▸ List.filter_sublist
    obtain ⟨more, hmore⟩ := holds_next h a c tail hsub hcin hoffset
    apply hkept
    rw [beginBlocks, htail, hmore]
    exact List.mem_take_iff_getElem.mpr ⟨1, by simp; omega, rfl⟩
  · -- the last block before the end is added, or another one is as far
    intro c hc hlt
    have hbefore : c ∈ blocksBefore chain toOffset := List.mem_filter.mpr ⟨hc, decide_eq_true hlt⟩
    rcases List.eq_nil_or_concat (blocksBefore chain toOffset) with hnil | ⟨front, e, hconcat⟩
    · rw [hnil] at hbefore
      exact absurd hbefore List.not_mem_nil
    · rw [List.concat_eq_append] at hconcat
      have hend : e ∈ endBlocks chain toOffset config := by
        have hcount := hconfig.endCount
        rw [endBlocks, hconcat, List.rtake, List.length_append, List.length_singleton,
          List.drop_append_of_le_length (by omega)]
        exact List.mem_append_right _ List.mem_cons_self
      have hce : c.offset ≤ e.offset := by
        have hascends : Ascends DataBlock.offset (blocksBefore chain toOffset) :=
          hread.ascends.sublist List.filter_sublist
        rw [hconcat] at hbefore hascends
        rcases List.mem_append.mp hbefore with hc' | hc'
        · exact ((List.pairwise_append.mp hascends).2.2 c hc' e List.mem_cons_self).le
        · rw [List.mem_singleton.mp hc']
      have heoffset := hread.offset e (hendSub.subset hend)
      by_cases hlast : ∀ y ∈ extend BlockMetadata.offset first starts, y.offset < (f e).offset
      · exact ⟨f e, (hmem _).mpr (Or.inr ⟨List.mem_map_of_mem hend, hlast⟩), by omega⟩
      · push Not at hlast
        obtain ⟨y, hy, hle⟩ := hlast
        exact ⟨y, (hmem y).mpr (Or.inl hy), by omega⟩

/-- The end of a range: a block behind its start, or the end of the chain. -/
inductive RangeEnd (chain : List DataBlock) (a : DataBlock) : Option ℕ → ℕ → Prop where
  | chain : RangeEnd chain a none (endOf chain)
  | block (b : DataBlock) (hb : b ∈ chain) (hab : a.offset < b.offset) :
    RangeEnd chain a (some b.offset) b.offset

/-- The range has at least the segment that its first block is in. -/
theorem rangeSegments_ne_nil (h : Holds store chain) (a : DataBlock) (ha : a ∈ chain)
    (limit : ℕ) (hlimit : a.offset ≤ limit) : rangeSegments store a.offset limit ≠ [] := by
  have hbound := linked_offset_lt chain a _ _ h.linked ha
    (h.wellFormed a ha).totalSize_pos
  obtain ⟨l, seg, r, hsegs, -, -, hlo, hhi⟩ := getSegmentForBlockOffset_eq store 0 _ a.offset chain
    h.segments (Nat.zero_le _) hbound.2.1
  apply List.ne_nil_of_mem
  have hseg : seg ∈ store.segments := by
    rw [hsegs]
    simp
  exact List.mem_filter.mpr ⟨List.mem_map_of_mem hseg, decide_eq_true ⟨hhi.le, hlo.trans hlimit⟩⟩

theorem last_of_mem (h : Holds store chain) (a : DataBlock) (ha : a ∈ chain) :
    ∃ last ∈ chain, chain.getLast? = some last ∧ last.nextOffset = endOf chain ∧
      ∀ c ∈ chain, c.offset ≤ last.offset := by
  rcases List.eq_nil_or_concat chain with rfl | ⟨front, last, rfl⟩
  · exact absurd ha List.not_mem_nil
  · rw [List.concat_eq_append] at h ⊢
    refine ⟨last, by simp, by simp, by simp [endOf], ?_⟩
    intro c hc
    rcases List.mem_append.mp hc with hc | hc
    · exact ((List.pairwise_append.mp (holds_ascends h)).2.2 c hc last List.mem_cons_self).le
    · rw [List.mem_singleton.mp hc]

theorem fromStore_answers (overflowChecks : Bool) (h : Holds store chain) (hnum : Numbered chain)
    (hconfig : Searches config) (a : DataBlock) (ha : a ∈ chain) (fromOffset : Option ℕ)
    (hfrom : fromOffset.getD 0 = a.offset) (toOffset : Option ℕ) (limit : ℕ)
    (hto : RangeEnd chain a toOffset limit) :
    ∃ ms, BlockMetadata.fromStore overflowChecks store fromOffset toOffset config = .ok ms ∧
      Answers chain a limit ms := by
  obtain ⟨last, hlast, hgetLast, hend, hle⟩ := last_of_mem h a ha
  have hstored : ChainStore.getLastBlock store = .ok (some last) := by
    rw [← hgetLast]
    exact h.getLastBlock
  have hlimit : a.offset ≤ limit := by
    cases hto with
    | chain =>
      rw [← hend]
      exact (hle a ha).trans (Nat.le_add_right _ _)
    | block b hb hab => exact hab.le
  have hsegments : filterInRange (ChainRangeStore.segments store) fromOffset toOffset =
      rangeSegments store a.offset limit := by
    rw [rangeSegments, filterInRange, filterInRange, hfrom]
    cases hto with
    | block b hb hab => rfl
    | chain =>
      -- all segments start before the end of the chain
      apply List.filter_congr
      intro segment hsegment
      obtain ⟨b, hb, hstart⟩ := segment_first_mem h segment hsegment
      have hble := hle b hb
      have hnextOffset : last.nextOffset = last.offset + last.totalSize := rfl
      have hbounded := hnum.bounded
      rw [← hstart, Option.getD_none, Option.getD_some, Option.getD_some]
      exact decide_eq_decide.mpr (and_congr_right fun _ => iff_of_true (by omega) (by omega))
  have hboundary : Boundary chain limit := by
    cases hto with
    | chain => exact boundary_endOf h
    | block b hb hab => exact (boundary_block h.linked b hb).1
  have hboundaries : fromSegmentBoundaries store (rangeSegments store a.offset limit) fromOffset
      toOffset config = fromSegmentBoundaries store (rangeSegments store a.offset limit)
        (some a.offset) (some limit) config := by
    cases hto with
    | chain =>
      simp only [fromSegmentBoundaries, hfrom, Option.getD_some, hstored, liftError_ok, ok_bind,
        Option.map_some, hend, Option.none_or, Option.some_or]
    | block b hb hab => simp only [fromSegmentBoundaries, hfrom, Option.getD_some]
  have hsampled : ∃ b ∈ chain, a.offset ≤ b.offset ∧
      fromSampledChainSlice overflowChecks store fromOffset toOffset config =
        fromSampledChainSlice overflowChecks store (some a.offset) (some b.offset) config ∧
      (∀ c ∈ chain, c.offset < limit → c.offset ≤ b.offset) ∧
      ∀ c ∈ chain, c.offset = a.nextOffset → c.offset ≤ b.offset := by
    cases hto with
    | chain =>
      refine ⟨last, hlast, hle a ha, ?_, fun c hc _ => hle c hc, fun c hc _ => hle c hc⟩
      have hslice : sliceLastBlock store none = sliceLastBlock store (some last.offset) := by
        rw [sliceLastBlock_eq h last hlast]
        exact hstored
      simp only [fromSampledChainSlice, hslice, hfrom, Option.getD_some]
    | block b hb hab =>
      refine ⟨b, hb, hab.le, ?_, fun c hc hlt => hlt.le, ?_⟩
      · simp only [fromSampledChainSlice, hfrom, Option.getD_some]
      · intro c hc hoffset
        rw [hoffset]
        exact holds_next_le h a b ha hb hab
  rw [BlockMetadata.fromStore]
  simp only [hsegments]
  rw [if_neg (by simpa using rangeSegments_ne_nil h a ha limit hlimit)]
  split_ifs
  · rw [hboundaries]
    exact boundaries_answers h hnum hconfig a ha limit hboundary
  · obtain ⟨b, hb, hab, heq, hreaches, hnext⟩ := hsampled
    rw [heq]
    exact sampled_answers overflowChecks h hnum hconfig a b ha hb hab limit hreaches hnext

end Answers

end Exocore.Engine
