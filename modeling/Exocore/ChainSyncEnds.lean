import Mathlib.Data.List.DropRight
import Exocore.LibAscending
import Exocore.ChainSyncStale

/-! Which blocks of a range have their metadata in what is sent for it: those at both of its ends,
and the first ones of the segments. -/
namespace Exocore.Engine

open Exocore.Core Exocore.Chain Ascending

section Ranges

def blocksFrom (chain : List DataBlock) (offset : ℕ) : List DataBlock :=
  chain.filter fun b => offset ≤ b.offset

def blocksBefore (chain : List DataBlock) (offset : ℕ) : List DataBlock :=
  chain.filter fun b => b.offset < offset

def blocksBetween (chain : List DataBlock) (fromOffset toOffset : ℕ) : List DataBlock :=
  chain.filter fun b => fromOffset ≤ b.offset ∧ b.offset ≤ toOffset

/-- A chain whose blocks have metadata, with heights that go up by one. -/
structure Numbered (chain : List DataBlock) : Prop where
  reads : ∀ b ∈ chain, ∃ m, BlockMetadata.fromStoredBlock b = .ok m
  heights : chain.IsChain fun b c => heightOf c = heightOf b + 1
  bounded : endOf chain < 2^64

theorem height_getElem (xs : List DataBlock)
    (h : xs.IsChain fun b c => heightOf c = heightOf b + 1) (hfirst : 0 < xs.length) (i : ℕ)
    (hi : i < xs.length) : heightOf xs[i] = heightOf xs[0] + i := by
  induction i with
  | zero => rfl
  | succ i ih =>
    have hstep := List.isChain_iff_getElem.mp h i hi
    rw [hstep, ih (by omega)]
    omega

theorem Numbered.heightsGrow {chain : List DataBlock} (h : Numbered chain) : HeightsGrow chain := by
  apply List.pairwise_iff_getElem.mpr
  intro i j hi hj hij
  have hfirst : 0 < chain.length := by omega
  rw [height_getElem chain h.heights hfirst i hi, height_getElem chain h.heights hfirst j hj]
  omega

/-- A place between two blocks cuts the chain in what is before it and what is from it on. -/
theorem blocks_cut (l r : List DataBlock) (offset stop : ℕ) (h : Linked 0 (l ++ r) stop)
    (hl : Linked 0 l offset) (hpos : ∀ b ∈ l ++ r, 0 < b.totalSize) :
    blocksBefore (l ++ r) offset = l ∧ blocksFrom (l ++ r) offset = r := by
  obtain ⟨mid, hl', hr⟩ := (linked_append_iff l r 0 stop).mp h
  have hmid : mid = offset := by
    rw [linked_stop l 0 mid hl', linked_stop l 0 offset hl]
  have hbefore : ∀ b ∈ l, b.offset < offset := by
    intro b hb
    exact (linked_offset_lt l b 0 offset hl hb (hpos b (List.mem_append_left r hb))).2.1
  have hafter : ∀ b ∈ r, offset ≤ b.offset := by
    intro b hb
    have hle := (linked_offset_lt r b mid stop hr hb (hpos b (List.mem_append_right l hb))).1
    omega
  constructor
  · rw [blocksBefore, List.filter_append, List.filter_eq_self.mpr, List.filter_eq_nil_iff.mpr,
      List.append_nil]
    · intro b hb
      have hle := hafter b hb
      simpa using hle
    · intro b hb
      simpa using hbefore b hb
  · rw [blocksFrom, List.filter_append, List.filter_eq_nil_iff.mpr, List.filter_eq_self.mpr,
      List.nil_append]
    · intro b hb
      simpa using hafter b hb
    · intro b hb
      have hlt := hbefore b hb
      simpa using hlt

/-- The range is what there is from its start on, up to its end. -/
theorem blocksBetween_eq (chain : List DataBlock) (fromOffset toOffset : ℕ) :
    blocksBetween chain fromOffset toOffset =
      (blocksFrom chain fromOffset).filter fun b => b.offset ≤ toOffset := by
  rw [blocksBetween, blocksFrom, List.filter_filter]
  congr 1
  funext b
  rw [Bool.decide_and, Bool.and_comm]

end Ranges

section Reading
variable {f : DataBlock → BlockMetadata}

theorem sampleBlocks_eq (isIncluded : ℕ → Bool) (n : ℕ) (blocks : List DataBlock)
    (hf : ∀ b ∈ blocks, BlockMetadata.fromStoredBlock b = .ok (f b)) :
    sampleBlocks isIncluded n (blocks.map .ok) =
      .ok (((blocks.zipIdx n).filter fun x => isIncluded x.2).map fun x => f x.1) := by
  induction blocks generalizing n with
  | nil => rfl
  | cons b rest ih =>
    have hrest := ih (n + 1) fun c hc => hf c (List.mem_cons_of_mem b hc)
    rw [List.map_cons, sampleBlocks, liftError_ok, ok_bind, List.zipIdx_cons, hrest,
      hf b List.mem_cons_self, ok_bind, ok_bind]
    by_cases hin : isIncluded n = true
    · simp only [List.filter_cons, hin, if_true]
      rfl
    · simp only [List.filter_cons, hin, Bool.false_eq_true, if_false]

theorem mapM_storedMetadata_eq (blocks : List DataBlock)
    (hf : ∀ b ∈ blocks, BlockMetadata.fromStoredBlock b = .ok (f b)) :
    (blocks.map Except.ok).mapM storedMetadata = .ok (blocks.map f) := by
  induction blocks with
  | nil => rfl
  | cons b rest ih =>
    have hb : storedMetadata (.ok b) = .ok (f b) := hf b List.mem_cons_self
    rw [List.map_cons, List.mapM_cons, hb, ok_bind,
      ih fun c hc => hf c (List.mem_cons_of_mem b hc)]
    rfl

theorem isAfterLast_eq (acc : List BlockMetadata) (offset : ℕ) :
    isAfterLast acc offset = isAbove BlockMetadata.offset acc offset := by
  rw [isAfterLast, isAbove]
  cases acc.getLast? <;> rfl

theorem addEndBlocks_eq (blocks : List DataBlock) (acc : List BlockMetadata)
    (hf : ∀ b ∈ blocks, BlockMetadata.fromStoredBlock b = .ok (f b)) :
    addEndBlocks (blocks.map .ok) acc =
      .ok (extend BlockMetadata.offset acc (blocks.map f)) := by
  induction blocks generalizing acc with
  | nil => rfl
  | cons b rest ih =>
    have hb : storedMetadata (.ok b) = .ok (f b) := hf b List.mem_cons_self
    have hrest : ∀ c ∈ rest, BlockMetadata.fromStoredBlock c = .ok (f c) :=
      fun c hc => hf c (List.mem_cons_of_mem b hc)
    rw [List.map_cons, addEndBlocks, hb, ok_bind, isAfterLast_eq, List.map_cons, extend]
    split_ifs
    · exact ih _ hrest
    · exact ih _ hrest

variable [Crates]

theorem addSegmentBlocks_eq {store : DirectoryChainStore} {chain : List DataBlock}
    (h : Holds store chain) (hf : ∀ b ∈ chain, BlockMetadata.fromStoredBlock b = .ok (f b))
    (g : Segment → DataBlock) (segments : List Segment)
    (hg : ∀ segment ∈ segments, g segment ∈ chain ∧ (g segment).offset = segment.start)
    (acc : List BlockMetadata) :
    addSegmentBlocks store segments acc =
      .ok (extend BlockMetadata.offset acc (segments.map fun segment => f (g segment))) := by
  induction segments generalizing acc with
  | nil => rfl
  | cons segment rest ih =>
    obtain ⟨hmem, hstart⟩ := hg segment List.mem_cons_self
    have hrest := ih fun x hx => hg x (List.mem_cons_of_mem segment hx)
    have hread : storedMetadata (ChainStore.getBlock store segment.start) = .ok (f (g segment)) := by
      have hget : ChainStore.getBlock store segment.start = .ok (g segment) := by
        rw [← hstart]
        exact h.getBlock (g segment) hmem
      rw [hget]
      exact hf (g segment) hmem
    have hoffset : (f (g segment)).offset = segment.start := by
      rw [fromStoredBlock_offset (hf (g segment) hmem), hstart]
    rw [addSegmentBlocks, isAfterLast_eq, List.map_cons, extend, hoffset]
    split_ifs
    · rw [hread, ok_bind]
      exact hrest _
    · exact hrest _

/-- The segments start one behind the other. -/
theorem segmentsHold_ascends (start stop : ℕ) (segs : List DirectorySegment)
    (blocks : List DataBlock) (h : SegmentsHold start segs blocks stop) :
    segs.Pairwise fun x y => x.firstBlockOffset < y.firstBlockOffset := by
  induction h with
  | nil start => exact List.Pairwise.nil
  | cons start seg segs bs rest stop hstart hseg hrest ih =>
    refine List.Pairwise.cons ?_ ih
    intro x hx
    have hbounds := (segmentsHold_bounds _ _ _ _ hrest).2 x hx
    have hrange := segmentHolds_range seg bs hseg
    omega

end Reading

section Sampled

/-- The interval at which the positions of a range are sampled. -/
def sampledSkip (config : ChainSyncConfig) (count : ℕ) : ℕ :=
  max ((count - 1) / config.metadataSyncSampledCount) 1

/-- The last blocks of a range are included: it is longer than what is asked for of its end, or
each of its blocks is included for another reason. -/
def SampledReaches (config : ChainSyncConfig) (count : ℕ) : Prop :=
  config.metadataSyncEndCount < count ∨ count ≤ config.metadataSyncBeginCount ∨
    sampledSkip config count = 1 ∨
    count = config.metadataSyncBeginCount + 1 ∧ sampledSkip config count ∣ count - 1

instance (config : ChainSyncConfig) (count : ℕ) : Decidable (SampledReaches config count) :=
  inferInstanceAs (Decidable (_ ∨ _ ∨ _ ∨ _))

theorem isSampled_iff (config : ChainSyncConfig) (count i : ℕ) (hi : i < count) :
    isSampled config (count - 1) i = true ↔ i < config.metadataSyncBeginCount ∨
      (config.metadataSyncEndCount < count ∧ count ≤ i + config.metadataSyncEndCount) ∨
      sampledSkip config count ∣ i := by
  have hdvd : i % max ((count - 1) / config.metadataSyncSampledCount) 1 = 0 ↔
      sampledSkip config count ∣ i := (Nat.dvd_iff_mod_eq_zero ..).symm
  simp only [isSampled, decide_eq_true_eq, hdvd]
  split_ifs with hend
  · have hlast : i > count - 1 - config.metadataSyncEndCount ↔
        config.metadataSyncEndCount < count ∧ count ≤ i + config.metadataSyncEndCount := by
      omega
    rw [hlast]
  · have hlast : ¬ i > count - 1 := by omega
    have hshort : ¬ config.metadataSyncEndCount < count := by omega
    simp only [hlast, hshort, false_and]

theorem isSampled_lasts_iff (config : ChainSyncConfig) (count : ℕ) (hcount : 0 < count) :
    (∀ i < count, count - config.metadataSyncEndCount ≤ i →
        isSampled config (count - 1) i = true) ↔ SampledReaches config count := by
  rw [SampledReaches]
  by_cases hlong : config.metadataSyncEndCount < count
  · refine iff_of_true ?_ (Or.inl hlong)
    intro i hi hle
    rw [isSampled_iff config count i hi]
    exact Or.inr (Or.inl ⟨hlong, by omega⟩)
  · have hall : (∀ i < count, count - config.metadataSyncEndCount ≤ i →
          isSampled config (count - 1) i = true) ↔
        ∀ i < count, i < config.metadataSyncBeginCount ∨ sampledSkip config count ∣ i := by
      constructor
      · intro h i hi
        have hi' := (isSampled_iff config count i hi).mp (h i hi (by omega))
        simpa [hlong] using hi'
      · intro h i hi _
        rw [isSampled_iff config count i hi]
        simpa [hlong] using h i hi
    rw [hall, or_iff_right hlong]
    constructor
    · intro h
      rcases Nat.lt_trichotomy count (config.metadataSyncBeginCount + 1) with hlt | heq | hgt
      · exact Or.inl (by omega)
      · -- only the last block is not among the first ones
        have hlast := h config.metadataSyncBeginCount (by omega)
        rcases hlast with hlt | hdvd
        · omega
        · refine Or.inr (Or.inr ⟨heq, ?_⟩)
          rw [show count - 1 = config.metadataSyncBeginCount by omega]
          exact hdvd
      · -- two blocks in a row are sampled
        have hfirst := h config.metadataSyncBeginCount (by omega)
        have hsecond := h (config.metadataSyncBeginCount + 1) (by omega)
        rcases hfirst with hlt | hfirst
        · omega
        rcases hsecond with hlt | hsecond
        · omega
        have hone : sampledSkip config count ∣ 1 := (Nat.dvd_add_right hfirst).mp hsecond
        exact Or.inr (Or.inl (Nat.dvd_one.mp hone))
    · rintro (hshort | hone | ⟨heq, hdvd⟩) i hi
      · exact Or.inl (by omega)
      · rw [hone]
        exact Or.inr (one_dvd i)
      · rcases Nat.lt_or_ge i config.metadataSyncBeginCount with hlt | hge
        · exact Or.inl hlt
        · rw [show i = count - 1 by omega]
          exact Or.inr hdvd

variable [Crates] {store : DirectoryChainStore} {chain : List DataBlock}
  {f : DataBlock → BlockMetadata}

theorem sliceLastBlock_eq (h : Holds store chain) (b : DataBlock) (hb : b ∈ chain) :
    sliceLastBlock store (some b.offset) = .ok (some b) := by
  have hget : ChainStore.getBlock store b.offset = .ok b := h.getBlock b hb
  rw [sliceLastBlock, hget]

theorem sliceStart_eq (h : Holds store chain) (a : DataBlock) (ha : a ∈ chain) :
    sliceStart store a.offset = .ok a.offset := by
  have hget : ChainStore.getBlock store a.offset = .ok a := h.getBlock a ha
  rw [sliceStart, hget]

/-- The range of two blocks, by the place of the second behind the first. -/
theorem range_take (h : Holds store chain) (hnum : Numbered chain) (a b : DataBlock)
    (ha : a ∈ chain) (hb : b ∈ chain) (hab : a.offset ≤ b.offset) :
    ∃ rest, store.blocksIter a.offset = (a :: rest).map .ok ∧
      heightOf a ≤ heightOf b ∧ heightOf b - heightOf a < chain.length ∧
      (a :: rest).take (heightOf b - heightOf a + 1) =
        blocksBetween chain a.offset b.offset ∧
      (blocksBetween chain a.offset b.offset).length = heightOf b - heightOf a + 1 := by
  have hpos : ∀ c ∈ chain, 0 < c.totalSize :=
    fun c hc => (h.wellFormed c hc).totalSize_pos
  obtain ⟨l, rest, rfl⟩ := List.append_of_mem ha
  obtain ⟨-, hl, -⟩ := linked_middle l rest a _ _ h.linked
  obtain ⟨-, hfrom⟩ := blocks_cut l (a :: rest) a.offset _ h.linked hl hpos
  have hmem : b ∈ a :: rest := by
    rw [← hfrom, blocksFrom, List.mem_filter, decide_eq_true_eq]
    exact ⟨hb, hab⟩
  obtain ⟨j, hj, hbj⟩ := List.mem_iff_getElem.mp hmem
  have hchain : (a :: rest).IsChain fun b c => heightOf c = heightOf b + 1 :=
    (List.isChain_append.mp hnum.heights).2.1
  have hheight := height_getElem (a :: rest) hchain (Nat.zero_lt_succ _) j hj
  rw [hbj, List.getElem_cons_zero] at hheight
  have hdiff : heightOf b - heightOf a = j := by omega
  have hascends : Ascends DataBlock.offset (a :: rest) :=
    (List.pairwise_append.mp (linked_ascends _ 0 _ h.linked hpos)).2.1
  have htake : (a :: rest).take (j + 1) = blocksBetween (l ++ a :: rest) a.offset b.offset := by
    rw [blocksBetween_eq, hfrom, hascends.take_eq_filter j hj, hbj]
  refine ⟨rest, h.blocksIter hl, by omega, ?_, ?_, ?_⟩
  · rw [hdiff, List.length_append]
    omega
  · rw [hdiff, htake]
  · rw [hdiff, ← htake, List.length_take]
    omega

/-- The sampled slice of the range between two blocks. -/
theorem fromSampledChainSlice_eq (overflowChecks : Bool) (h : Holds store chain)
    (hnum : Numbered chain) (hf : ∀ b ∈ chain, BlockMetadata.fromStoredBlock b = .ok (f b))
    (a b : DataBlock) (ha : a ∈ chain) (hb : b ∈ chain) (hab : a.offset ≤ b.offset)
    (config : ChainSyncConfig) (hsampled : 0 < config.metadataSyncSampledCount) :
    fromSampledChainSlice overflowChecks store (some a.offset) (some b.offset) config =
      .ok ((((blocksBetween chain a.offset b.offset).zipIdx).filter fun x =>
        isSampled config ((blocksBetween chain a.offset b.offset).length - 1) x.2).map
          fun x => f x.1) := by
  obtain ⟨rest, hiter, hle, hlt, htake, hlength⟩ := range_take h hnum a b ha hb hab
  have hiter' : ChainRangeStore.blocksIter store a.offset = (a :: rest).map .ok := hiter
  have hshort : chain.length ≤ endOf chain := by
    have hlen := linked_length_le chain 0 _ h.linked h.framed
    omega
  have hbound := hnum.bounded
  obtain ⟨headerA, hreaderA, -⟩ := (h.wellFormed a ha).headerAgrees
  obtain ⟨headerB, hreaderB, -⟩ := (h.wellFormed b hb).headerAgrees
  have hheightA : headerA.height = heightOf a := by rw [heightOf, hreaderA]; rfl
  have hheightB : headerB.height = heightOf b := by rw [heightOf, hreaderB]; rfl
  have hsub : wordSub overflowChecks headerB.height headerA.height =
      .ok (heightOf b - heightOf a) := by
    rw [hheightA, hheightB, wordSub, if_pos hle]
  have hsucc : wordSucc overflowChecks (heightOf b - heightOf a) =
      .ok (heightOf b - heightOf a + 1) := by
    rw [wordSucc, if_pos (by omega)]
  rw [fromSampledChainSlice, sliceLastBlock_eq h b hb]
  simp only [liftError_ok, ok_bind, orError_some, hreaderB, Option.getD_some,
    sliceStart_eq h a ha, hiter', List.map_cons, sliceFirstBlock, hreaderA, hsub, hsucc]
  rw [if_neg (by omega), ← List.map_cons, ← List.map_take, htake, hlength, Nat.add_sub_cancel]
  apply sampleBlocks_eq
  intro c hc
  exact hf c (List.mem_of_mem_filter hc)

/-- What the metadata of a sampled range has to be. -/
structure SampledEnds (range : List DataBlock) (config : ChainSyncConfig)
    (ms : List BlockMetadata) : Prop where
  ascends : ms.Pairwise fun m m' => m.height < m'.height
  between : ∀ m ∈ ms, MetadataIn range m
  first : ∀ c ∈ range.take config.metadataSyncBeginCount,
    ∃ m ∈ ms, BlockMetadata.fromStoredBlock c = .ok m
  last : ∀ c ∈ range.rtake config.metadataSyncEndCount,
    ∃ m ∈ ms, BlockMetadata.fromStoredBlock c = .ok m

omit [Crates] in
/-- A block has its metadata among those of the positions that are kept if its own is kept. -/
theorem mem_kept_iff (range : List DataBlock) (hrange : Ascends DataBlock.offset range)
    (hf : ∀ b ∈ range, BlockMetadata.fromStoredBlock b = .ok (f b)) (isKept : ℕ → Bool) (i : ℕ)
    (hi : i < range.length) :
    (∃ m ∈ (range.zipIdx.filter fun x => isKept x.2).map fun x => f x.1,
        BlockMetadata.fromStoredBlock range[i] = .ok m) ↔ isKept i = true := by
  have hread := hf range[i] (List.getElem_mem hi)
  constructor
  · rintro ⟨m, hm, hmeta⟩
    obtain ⟨⟨c, j⟩, hx, rfl⟩ := List.mem_map.mp hm
    obtain ⟨hmem, hkept⟩ := List.mem_filter.mp hx
    obtain ⟨hj, hc⟩ := List.mem_zipIdx' hmem
    have hoffset : range[i].offset = range[j].offset := by
      rw [← fromStoredBlock_offset hmeta, ← hc]
      exact fromStoredBlock_offset (hf c (hc ▸ List.getElem_mem hj))
    rw [hrange.getElem_inj i j hi hj hoffset]
    exact hkept
  · intro hkept
    refine ⟨f range[i], List.mem_map.mpr ⟨(range[i], i), ?_, rfl⟩, hread⟩
    rw [List.mem_filter]
    exact ⟨List.mk_mem_zipIdx_iff_getElem?.mpr (List.getElem?_eq_getElem hi), hkept⟩

omit [Crates] in
/-- The blocks at the sampled positions have both ends of the range if and only if the last
positions are sampled. -/
theorem sampledEnds_iff (range : List DataBlock) (hrange : 0 < range.length)
    (hascends : Ascends DataBlock.offset range)
    (hheights : range.Pairwise fun c d => heightOf c < heightOf d)
    (hf : ∀ b ∈ range, BlockMetadata.fromStoredBlock b = .ok (f b)) (config : ChainSyncConfig) :
    SampledEnds range config
        ((range.zipIdx.filter fun x => isSampled config (range.length - 1) x.2).map
          fun x => f x.1) ↔ SampledReaches config range.length := by
  have hkept := mem_kept_iff range hascends hf (isSampled config (range.length - 1))
  have hmem {x : DataBlock × ℕ} {p : DataBlock × ℕ → Bool} (hx : x ∈ range.zipIdx.filter p) :
      x.1 ∈ range := List.fst_mem_of_mem_zipIdx (List.mem_of_mem_filter hx)
  rw [← isSampled_lasts_iff config range.length hrange]
  constructor
  · intro hends i hi hle
    apply (hkept i hi).mp
    apply hends.last
    rw [List.rtake, List.mem_drop_iff_getElem]
    refine ⟨i - (range.length - config.metadataSyncEndCount), by omega, ?_⟩
    congr 1
    omega
  · intro hall
    refine ⟨?_, ?_, ?_, ?_⟩
    · rw [List.pairwise_map]
      have hpairs : range.zipIdx.Pairwise fun x y => heightOf x.1 < heightOf y.1 := by
        rw [← List.zipIdx_map_fst 0 range, List.pairwise_map] at hheights
        exact hheights
      refine (hpairs.sublist List.filter_sublist).imp_of_mem ?_
      intro x y hx hy hlt
      rw [fromStoredBlock_height (hf x.1 (hmem hx)), fromStoredBlock_height (hf y.1 (hmem hy))]
      exact hlt
    · intro m hm
      obtain ⟨x, hx, rfl⟩ := List.mem_map.mp hm
      exact ⟨x.1, hmem hx, hf x.1 (hmem hx)⟩
    · intro c hc
      obtain ⟨i, hi, rfl⟩ := List.mem_take_iff_getElem.mp hc
      apply (hkept i (by omega)).mpr
      rw [isSampled_iff config range.length i (by omega)]
      exact Or.inl (by omega)
    · intro c hc
      rw [List.rtake, List.mem_drop_iff_getElem] at hc
      obtain ⟨i, hi, rfl⟩ := hc
      exact (hkept _ (by omega)).mpr (hall _ (by omega) (by omega))

/-- The sampled slice has both ends of its range if and only if the last positions are sampled. -/
theorem fromSampledChainSlice_ends_iff (overflowChecks : Bool) (h : Holds store chain)
    (hnum : Numbered chain) (a b : DataBlock) (ha : a ∈ chain) (hb : b ∈ chain)
    (hab : a.offset ≤ b.offset) (config : ChainSyncConfig)
    (hsampled : 0 < config.metadataSyncSampledCount) :
    (∃ ms, fromSampledChainSlice overflowChecks store (some a.offset) (some b.offset) config =
        .ok ms ∧ SampledEnds (blocksBetween chain a.offset b.offset) config ms) ↔
      SampledReaches config (blocksBetween chain a.offset b.offset).length := by
  obtain ⟨m₀, -⟩ := hnum.reads a ha
  have hnonempty : Nonempty BlockMetadata := ⟨m₀⟩
  choose! f hf using hnum.reads
  have heq := fromSampledChainSlice_eq overflowChecks h hnum hf a b ha hb hab config hsampled
  obtain ⟨-, -, -, -, -, hlength⟩ := range_take h hnum a b ha hb hab
  have hsub : (blocksBetween chain a.offset b.offset).Sublist chain := List.filter_sublist
  have hoffsets : Ascends DataBlock.offset chain := linked_ascends chain 0 _ h.linked
    fun c hc => (h.wellFormed c hc).totalSize_pos
  rw [← sampledEnds_iff _ (by omega) (hoffsets.sublist hsub) (hnum.heightsGrow.sublist hsub)
    (fun c hc => hf c (List.mem_of_mem_filter hc)) config, heq]
  constructor
  · rintro ⟨ms, hms, hends⟩
    rw [Except.ok.inj hms]
    exact hends
  · intro hends
    exact ⟨_, rfl, hends⟩

end Sampled

section Boundaries

def beginBlocks (chain : List DataBlock) (fromOffset : ℕ) (config : ChainSyncConfig) :
    List DataBlock := (blocksFrom chain fromOffset).take config.metadataSyncBeginCount

/-- There are none before the first block, which is not the end of another. -/
def endBlocks (chain : List DataBlock) (toOffset : ℕ) (config : ChainSyncConfig) :
    List DataBlock := (blocksBefore chain toOffset).rtake config.metadataSyncEndCount

/-- The segment lies behind the first blocks of the range. -/
def LiesBehind (first : List DataBlock) (segment : Segment) : Prop :=
  ∀ c ∈ first, c.offset < segment.start

instance (first : List DataBlock) (segment : Segment) : Decidable (LiesBehind first segment) :=
  inferInstanceAs (Decidable (∀ c ∈ first, _))

/-- What the metadata of the segments of a range has to be. -/
structure BoundaryEnds (chain : List DataBlock) (segments : List Segment) (fromOffset toOffset : ℕ)
    (config : ChainSyncConfig) (ms : List BlockMetadata) : Prop where
  ascends : ms.Pairwise fun m m' => m.offset < m'.offset
  first : ∀ c ∈ beginBlocks chain fromOffset config,
    ∃ m ∈ ms, BlockMetadata.fromStoredBlock c = .ok m
  segment : ∀ segment ∈ segments, LiesBehind (beginBlocks chain fromOffset config) segment →
    ∃ c ∈ chain, c.offset = segment.start ∧ ∃ m ∈ ms, BlockMetadata.fromStoredBlock c = .ok m
  last : ∀ c ∈ endBlocks chain toOffset config,
    ∃ m ∈ ms, BlockMetadata.fromStoredBlock c = .ok m

/-- Each of the last blocks is behind all those that were added before, or is one of them. -/
def BoundariesReach (chain : List DataBlock) (segments : List Segment) (fromOffset toOffset : ℕ)
    (config : ChainSyncConfig) : Prop :=
  ∀ c ∈ endBlocks chain toOffset config,
    c ∈ beginBlocks chain fromOffset config ∨
    (∃ segment ∈ segments, LiesBehind (beginBlocks chain fromOffset config) segment ∧
      c.offset = segment.start) ∨
    ((∀ d ∈ beginBlocks chain fromOffset config, d.offset < c.offset) ∧
      ∀ segment ∈ segments, segment.start < c.offset)

instance (chain : List DataBlock) (segments : List Segment) (fromOffset toOffset : ℕ)
    (config : ChainSyncConfig) :
    Decidable (BoundariesReach chain segments fromOffset toOffset config) :=
  inferInstanceAs (Decidable (∀ c ∈ _, _))

/-- The blocks of a chain with their metadata, and the segments with their first blocks. -/
structure Read (chain : List DataBlock) (f : DataBlock → BlockMetadata) (segments : List Segment)
    (g : Segment → DataBlock) : Prop where
  ascends : Ascends DataBlock.offset chain
  blocks : ∀ b ∈ chain, BlockMetadata.fromStoredBlock b = .ok (f b)
  starts : Ascends Segment.start segments
  firsts : ∀ segment ∈ segments, g segment ∈ chain ∧ (g segment).offset = segment.start

section Added
variable {chain : List DataBlock} {f : DataBlock → BlockMetadata} {segments : List Segment}
  {g : Segment → DataBlock} (h : Read chain f segments g)

include h

theorem Read.offset (c : DataBlock) (hc : c ∈ chain) : (f c).offset = c.offset :=
  fromStoredBlock_offset (h.blocks c hc)

theorem Read.first_offset (segment : Segment) (hs : segment ∈ segments) :
    (f (g segment)).offset = segment.start := by
  obtain ⟨hmem, hstart⟩ := h.firsts segment hs
  rw [h.offset (g segment) hmem, hstart]

theorem Read.map_ascends {bs : List DataBlock} (hbs : bs.Sublist chain) :
    Ascends BlockMetadata.offset (bs.map f) := by
  rw [Ascends, List.pairwise_map]
  refine (h.ascends.sublist hbs).imp_of_mem ?_
  intro x y hx hy hlt
  rw [h.offset x (hbs.subset hx), h.offset y (hbs.subset hy)]
  exact hlt

theorem Read.starts_ascends :
    Ascends BlockMetadata.offset (segments.map fun segment => f (g segment)) := by
  rw [Ascends, List.pairwise_map]
  refine h.starts.imp_of_mem ?_
  intro x y hx hy hlt
  rw [h.first_offset x hx, h.first_offset y hy]
  exact hlt

/-- A block is among others if its metadata is among theirs. -/
theorem Read.mem_map_iff {bs : List DataBlock} (hbs : bs.Sublist chain) (c : DataBlock)
    (hc : c ∈ chain) : f c ∈ bs.map f ↔ c ∈ bs := by
  refine ⟨?_, List.mem_map_of_mem⟩
  intro hmem
  obtain ⟨d, hd, heq⟩ := List.mem_map.mp hmem
  have hsame : d.offset = c.offset := by
    rw [← h.offset d (hbs.subset hd), ← h.offset c hc, heq]
  rw [← h.ascends.eq_of_key d c (hbs.subset hd) hc hsame]
  exact hd

theorem Read.exists_iff (ms : List BlockMetadata) (c : DataBlock) (hc : c ∈ chain) :
    (∃ m ∈ ms, BlockMetadata.fromStoredBlock c = .ok m) ↔ f c ∈ ms := by
  constructor
  · rintro ⟨m, hm, hread⟩
    rw [Except.ok.inj ((h.blocks c hc).symm.trans hread)]
    exact hm
  · intro hmem
    exact ⟨f c, hmem, h.blocks c hc⟩

/-- What is there once the segments were added to the first blocks. -/
theorem Read.mem_segments_iff {first : List DataBlock} (hfirst : first.Sublist chain)
    (c : DataBlock) (hc : c ∈ chain) :
    f c ∈ extend BlockMetadata.offset (first.map f) (segments.map fun segment => f (g segment)) ↔
      c ∈ first ∨ ∃ segment ∈ segments, LiesBehind first segment ∧ c.offset = segment.start := by
  have hbehind (segment : Segment) (hs : segment ∈ segments) :
      (∀ y ∈ first.map f, y.offset < (f (g segment)).offset) ↔ LiesBehind first segment := by
    rw [List.forall_mem_map, h.first_offset segment hs]
    refine forall₂_congr ?_
    intro d hd
    rw [h.offset d (hfirst.subset hd)]
  rw [mem_extend_iff (h.map_ascends hfirst) h.starts_ascends, h.mem_map_iff hfirst c hc,
    List.mem_map]
  refine or_congr_right ?_
  constructor
  · rintro ⟨⟨segment, hs, heq⟩, hlt⟩
    rw [← heq] at hlt
    refine ⟨segment, hs, (hbehind segment hs).mp hlt, ?_⟩
    rw [← h.offset c hc, ← heq, h.first_offset segment hs]
  · rintro ⟨segment, hs, hlies, hstart⟩
    obtain ⟨hmem, hoffset⟩ := h.firsts segment hs
    obtain rfl := h.ascends.eq_of_key (g segment) c hmem hc (hoffset.trans hstart.symm)
    exact ⟨⟨segment, hs, rfl⟩, (hbehind segment hs).mpr hlies⟩

/-- A block is behind all that is there by then if it is behind the first blocks and behind the
starts of the segments. -/
theorem Read.above_iff {first : List DataBlock} (hfirst : first.Sublist chain) (offset : ℕ) :
    (∀ y ∈ extend BlockMetadata.offset (first.map f)
        (segments.map fun segment => f (g segment)), y.offset < offset) ↔
      (∀ d ∈ first, d.offset < offset) ∧ ∀ segment ∈ segments, segment.start < offset := by
  constructor
  · intro hall
    have hbegin (d : DataBlock) (hd : d ∈ first) : d.offset < offset := by
      have hdchain := hfirst.subset hd
      rw [← h.offset d hdchain]
      exact hall (f d) ((h.mem_segments_iff hfirst d hdchain).mpr (Or.inl hd))
    refine ⟨hbegin, ?_⟩
    intro segment hs
    by_cases hlies : LiesBehind first segment
    · obtain ⟨hmem, hstart⟩ := h.firsts segment hs
      rw [← h.first_offset segment hs]
      exact hall _ ((h.mem_segments_iff hfirst _ hmem).mpr
        (Or.inr ⟨segment, hs, hlies, hstart⟩))
    · -- it starts before one of the first blocks
      obtain ⟨d, hd, hle⟩ : ∃ d ∈ first, segment.start ≤ d.offset := by
        simpa [LiesBehind] using hlies
      exact hle.trans_lt (hbegin d hd)
  · rintro ⟨hbegins, hstarts⟩ y hy
    rw [mem_extend_iff (h.map_ascends hfirst) h.starts_ascends] at hy
    rcases hy with hy | ⟨hy, -⟩
    · obtain ⟨d, hd, rfl⟩ := List.mem_map.mp hy
      rw [h.offset d (hfirst.subset hd)]
      exact hbegins d hd
    · obtain ⟨segment, hs, rfl⟩ := List.mem_map.mp hy
      rw [h.first_offset segment hs]
      exact hstarts segment hs

/-- The metadata in the order it is added has all that is asked for if and only if none of the last
blocks is skipped. -/
theorem boundaryEnds_iff (fromOffset toOffset : ℕ) (config : ChainSyncConfig) :
    BoundaryEnds chain segments fromOffset toOffset config
        (extend BlockMetadata.offset (extend BlockMetadata.offset
          ((beginBlocks chain fromOffset config).map f)
          (segments.map fun segment => f (g segment)))
          ((endBlocks chain toOffset config).map f)) ↔
      BoundariesReach chain segments fromOffset toOffset config := by
  have hbegin : (beginBlocks chain fromOffset config).Sublist chain :=
    (List.take_sublist _ _).trans List.filter_sublist
  have hend : (endBlocks chain toOffset config).Sublist chain :=
    (List.drop_sublist _ _).trans List.filter_sublist
  have hmiddle := ascends_extend (h.map_ascends hbegin) (segments.map fun segment => f (g segment))
  have hmem (c : DataBlock) (hc : c ∈ chain) :
      (∃ m ∈ extend BlockMetadata.offset (extend BlockMetadata.offset
          ((beginBlocks chain fromOffset config).map f)
          (segments.map fun segment => f (g segment)))
          ((endBlocks chain toOffset config).map f), BlockMetadata.fromStoredBlock c = .ok m) ↔
        (c ∈ beginBlocks chain fromOffset config ∨ ∃ segment ∈ segments,
          LiesBehind (beginBlocks chain fromOffset config) segment ∧ c.offset = segment.start) ∨
        (c ∈ endBlocks chain toOffset config ∧
          (∀ d ∈ beginBlocks chain fromOffset config, d.offset < c.offset) ∧
          ∀ segment ∈ segments, segment.start < c.offset) := by
    rw [h.exists_iff _ c hc, mem_extend_iff hmiddle (h.map_ascends hend),
      h.mem_segments_iff hbegin c hc, h.above_iff hbegin, h.offset c hc, h.mem_map_iff hend c hc]
  constructor
  · intro hends c hc
    have hin := (hmem c (hend.subset hc)).mp (hends.last c hc)
    rcases hin with (hfirst | hstart) | ⟨-, habove⟩
    · exact Or.inl hfirst
    · exact Or.inr (Or.inl hstart)
    · exact Or.inr (Or.inr habove)
  · intro hreach
    refine ⟨ascends_extend hmiddle _, ?_, ?_, ?_⟩
    · intro c hc
      exact (hmem c (hbegin.subset hc)).mpr (Or.inl (Or.inl hc))
    · intro segment hs hlies
      obtain ⟨hcchain, hstart⟩ := h.firsts segment hs
      exact ⟨g segment, hcchain, hstart,
        (hmem _ hcchain).mpr (Or.inl (Or.inr ⟨segment, hs, hlies, hstart⟩))⟩
    · intro c hc
      apply (hmem c (hend.subset hc)).mpr
      rcases hreach c hc with hfirst | hstart | habove
      · exact Or.inl (Or.inl hfirst)
      · exact Or.inl (Or.inr hstart)
      · exact Or.inr ⟨hc, habove⟩

end Added

section Store
variable [Crates] {store : DirectoryChainStore} {chain : List DataBlock}

/-- The segments that the metadata of a range is taken from. -/
def rangeSegments (store : DirectoryChainStore) (fromOffset toOffset : ℕ) : List Segment :=
  filterInRange store.segmentRanges (some fromOffset) (some toOffset)

theorem read_of_holds (h : Holds store chain) (hnum : Numbered chain) (a : DataBlock)
    (ha : a ∈ chain) (fromOffset toOffset : ℕ) :
    ∃ f g, Read chain f (rangeSegments store fromOffset toOffset) g := by
  obtain ⟨m₀, -⟩ := hnum.reads a ha
  have hmetadata : Nonempty BlockMetadata := ⟨m₀⟩
  have hblock : Nonempty DataBlock := ⟨a⟩
  choose! f hf using hnum.reads
  choose! g hg using segment_first_mem h
  refine ⟨f, g, ?_, hf, ?_, ?_⟩
  · exact linked_ascends chain 0 _ h.linked fun c hc =>
      (h.wellFormed c hc).totalSize_pos
  · have hstarts : Ascends Segment.start store.segmentRanges :=
      List.pairwise_map.mpr (segmentsHold_ascends _ _ _ _ h.segments)
    exact hstarts.sublist List.filter_sublist
  · intro segment hs
    exact hg segment (List.mem_of_mem_filter hs)

/-- What is collected for a range that ends between two blocks. -/
theorem fromSegmentBoundaries_eq (h : Holds store chain) (a : DataBlock) (ha : a ∈ chain)
    (toOffset : ℕ) (hto : Boundary chain toOffset) (f : DataBlock → BlockMetadata)
    (g : Segment → DataBlock)
    (hread : Read chain f (rangeSegments store a.offset toOffset) g) (config : ChainSyncConfig) :
    fromSegmentBoundaries store (rangeSegments store a.offset toOffset) (some a.offset)
        (some toOffset) config =
      .ok (extend BlockMetadata.offset (extend BlockMetadata.offset
        ((beginBlocks chain a.offset config).map f)
        ((rangeSegments store a.offset toOffset).map fun segment => f (g segment)))
        ((endBlocks chain toOffset config).map f)) := by
  have hpos : ∀ c ∈ chain, 0 < c.totalSize :=
    fun c hc => (h.wellFormed c hc).totalSize_pos
  have hbegin : ((ChainRangeStore.blocksIter store a.offset).take
      config.metadataSyncBeginCount).mapM storedMetadata =
      .ok ((beginBlocks chain a.offset config).map f) := by
    obtain ⟨l, r, rfl⟩ := List.append_of_mem ha
    obtain ⟨-, hl, -⟩ := linked_middle l r a _ _ h.linked
    have hiter : ChainRangeStore.blocksIter store a.offset = (a :: r).map .ok := h.blocksIter hl
    rw [hiter, ← List.map_take, beginBlocks, (blocks_cut l (a :: r) a.offset _ h.linked hl hpos).2]
    apply mapM_storedMetadata_eq
    intro c hc
    exact hread.blocks c (List.mem_append_right l (List.mem_of_mem_take hc))
  have hsegments := addSegmentBlocks_eq h hread.blocks g _ hread.firsts
    ((beginBlocks chain a.offset config).map f)
  have hlast : ChainStore.getLastBlock store = .ok chain.getLast? := h.getLastBlock
  obtain ⟨l, r, hchain, hl⟩ := hto
  have hbefore : blocksBefore chain toOffset = l := by
    rw [hchain]
    rw [hchain] at h hpos
    exact (blocks_cut l r toOffset _ h.linked hl hpos).1
  simp only [fromSegmentBoundaries, Option.getD_some, hbegin, ok_bind, hsegments, hlast,
    liftError_ok, Option.some_or, orError_some]
  rcases List.eq_nil_or_concat l with rfl | ⟨front, c, rfl⟩
  · -- nothing ends before the first block
    obtain rfl : 0 = toOffset := hl
    have hnone : ChainRangeStore.getBlockFromNextOffset store 0 =
        .error (.error (.outOfBound s!"No segment has block with next offset {0}")) := rfl
    rw [hnone, endBlocks, hbefore, List.rtake_nil]
    rfl
  · rw [List.concat_eq_append] at hl hchain hbefore
    obtain ⟨-, -, hc⟩ := linked_middle front [] c 0 _ hl
    obtain rfl : c.nextOffset = toOffset := hc
    have hmem : c ∈ chain := by
      rw [hchain]
      simp
    have hget : ChainRangeStore.getBlockFromNextOffset store c.nextOffset = .ok c :=
      h.getBlockFromNextOffset c hmem
    have hiter : ChainRangeStore.blocksIterReverse store c.nextOffset =
        (front ++ [c]).reverse.map .ok := by
      rw [hchain] at h
      exact h.blocksIterReverse hl
    simp only [hget, hiter, ← List.map_take, ← List.map_reverse]
    have hends : ((front ++ [c]).reverse.take config.metadataSyncEndCount).reverse =
        endBlocks chain c.nextOffset config := by
      rw [endBlocks, hbefore, List.rtake_eq_reverse_take_reverse]
    rw [hends]
    apply addEndBlocks_eq
    intro d hd
    have hsub : (endBlocks chain c.nextOffset config).Sublist chain :=
      (List.drop_sublist _ _).trans List.filter_sublist
    exact hread.blocks d (hsub.subset hd)

theorem fromSegmentBoundaries_ends_iff (h : Holds store chain) (hnum : Numbered chain)
    (a : DataBlock) (ha : a ∈ chain) (toOffset : ℕ) (hto : Boundary chain toOffset)
    (config : ChainSyncConfig) :
    (∃ ms, fromSegmentBoundaries store (rangeSegments store a.offset toOffset) (some a.offset)
        (some toOffset) config = .ok ms ∧ BoundaryEnds chain
          (rangeSegments store a.offset toOffset) a.offset toOffset config ms) ↔
      BoundariesReach chain (rangeSegments store a.offset toOffset) a.offset toOffset config := by
  obtain ⟨f, g, hread⟩ := read_of_holds h hnum a ha a.offset toOffset
  rw [← boundaryEnds_iff hread a.offset toOffset config,
    fromSegmentBoundaries_eq h a ha toOffset hto f g hread config]
  constructor
  · rintro ⟨ms, hms, hends⟩
    rw [Except.ok.inj hms]
    exact hends
  · intro hends
    exact ⟨_, rfl, hends⟩

/-- The metadata of a range has both of its ends, sampled or by its segments, if and only if none
of the last blocks falls between the sampled positions, or before what was added already. -/
theorem metadata_keepsEnds_iff (overflowChecks : Bool) (h : Holds store chain)
    (hnum : Numbered chain) (a b : DataBlock) (ha : a ∈ chain) (hb : b ∈ chain)
    (hab : a.offset ≤ b.offset) (toOffset : ℕ)
    (hto : toOffset = b.offset ∨ toOffset = b.nextOffset) (config : ChainSyncConfig)
    (hsampled : 1 ≤ config.metadataSyncSampledCount) :
    ((∃ ms, fromSampledChainSlice overflowChecks store (some a.offset) (some b.offset) config =
          .ok ms ∧ SampledEnds (blocksBetween chain a.offset b.offset) config ms) ∧
        ∃ ms, fromSegmentBoundaries store (rangeSegments store a.offset toOffset) (some a.offset)
          (some toOffset) config = .ok ms ∧ BoundaryEnds chain
            (rangeSegments store a.offset toOffset) a.offset toOffset config ms) ↔
      SampledReaches config (blocksBetween chain a.offset b.offset).length ∧
        BoundariesReach chain (rangeSegments store a.offset toOffset) a.offset toOffset
          config := by
  have hboundary : Boundary chain toOffset := by
    obtain ⟨hstart, hend⟩ := boundary_block h.linked b hb
    rcases hto with rfl | rfl
    · exact hstart
    · exact hend
  exact and_congr
    (fromSampledChainSlice_ends_iff overflowChecks h hnum a b ha hb hab config hsampled)
    (fromSegmentBoundaries_ends_iff h hnum a ha toOffset hboundary config)

end Store

end Boundaries

section Samples

attribute [local instance] syncCrates

/-- The third block is in a segment of its own. -/
def splitStore : DirectoryChainStore :=
  ((((DirectoryChainStore.create ⟨0, 600, 10⟩).writeBlock genesisBlock).2.writeBlock
    secondBlock).2.writeBlock thirdBlock).2

theorem splitStore_holds : Holds splitStore [genesisBlock, secondBlock, thirdBlock] := by
  obtain ⟨hgenesis, hsecond, hthird⟩ := syncBlocks_wellFormed
  have hempty := holds_create ⟨0, 600, 10⟩
  have hfirst := (hempty.writeBlock genesisBlock hgenesis (by decide +kernel)).2
  have htwo := (hfirst.writeBlock secondBlock hsecond (by decide +kernel)).2
  exact (htwo.writeBlock thirdBlock hthird (by decide +kernel)).2

theorem threeBlocks_numbered : Numbered [genesisBlock, secondBlock, thirdBlock] := by
  have hreads : ∀ b ∈ [genesisBlock, secondBlock, thirdBlock],
      (BlockMetadata.fromStoredBlock b).toOption.isSome := by
    decide +kernel
  refine ⟨?_, by decide +kernel, by decide +kernel⟩
  intro b hb
  have hread := hreads b hb
  cases hmeta : BlockMetadata.fromStoredBlock b with
  | error e =>
    rw [hmeta] at hread
    contradiction
  | ok m => exact ⟨m, rfl⟩

/-- The settings of the metadata: how many blocks from the start, from the end, and sampled. -/
def metadataConfig (beginCount endCount sampledCount : ℕ) : ChainSyncConfig :=
  { ChainSyncConfig.default with
    metadataSyncBeginCount := beginCount
    metadataSyncEndCount := endCount
    metadataSyncSampledCount := sampledCount }

/-- The second block is not sampled although all three are asked for as the last ones. Among the
segments it is left out where another segment starts at the end of the range. -/
theorem lastBlock_skipped :
    (¬ ∃ ms, fromSampledChainSlice true splitStore (some genesisBlock.offset)
        (some thirdBlock.offset) (metadataConfig 1 3 1) = .ok ms ∧
      SampledEnds (blocksBetween [genesisBlock, secondBlock, thirdBlock] genesisBlock.offset
        thirdBlock.offset) (metadataConfig 1 3 1) ms) ∧
      ¬ ∃ ms, fromSegmentBoundaries splitStore
          (rangeSegments splitStore genesisBlock.offset thirdBlock.offset)
          (some genesisBlock.offset) (some thirdBlock.offset) (metadataConfig 1 1 10) = .ok ms ∧
        BoundaryEnds [genesisBlock, secondBlock, thirdBlock]
          (rangeSegments splitStore genesisBlock.offset thirdBlock.offset) genesisBlock.offset
          thirdBlock.offset (metadataConfig 1 1 10) ms := by
  constructor
  · rw [fromSampledChainSlice_ends_iff true splitStore_holds threeBlocks_numbered genesisBlock
      thirdBlock (by simp) (by simp) (by decide +kernel) (metadataConfig 1 3 1) (by decide)]
    decide +kernel
  · rw [fromSegmentBoundaries_ends_iff splitStore_holds threeBlocks_numbered genesisBlock (by simp)
      thirdBlock.offset (boundary_block splitStore_holds.linked thirdBlock (by simp)).1
      (metadataConfig 1 1 10)]
    decide +kernel

/-- With the default settings the ends of the short chain are kept. -/
theorem default_keepsEnds :
    (∃ ms, fromSampledChainSlice true splitStore (some genesisBlock.offset)
        (some thirdBlock.offset) .default = .ok ms ∧
      SampledEnds (blocksBetween [genesisBlock, secondBlock, thirdBlock] genesisBlock.offset
        thirdBlock.offset) .default ms) ∧
      ∃ ms, fromSegmentBoundaries splitStore
          (rangeSegments splitStore genesisBlock.offset thirdBlock.offset)
          (some genesisBlock.offset) (some thirdBlock.offset) .default = .ok ms ∧
        BoundaryEnds [genesisBlock, secondBlock, thirdBlock]
          (rangeSegments splitStore genesisBlock.offset thirdBlock.offset) genesisBlock.offset
          thirdBlock.offset .default ms := by
  apply (metadata_keepsEnds_iff true splitStore_holds threeBlocks_numbered genesisBlock thirdBlock
    (by simp) (by simp) (by decide +kernel) thirdBlock.offset (Or.inl rfl) .default
    (by decide)).mpr
  constructor
  · decide +kernel
  · decide +kernel

end Samples

end Exocore.Engine
