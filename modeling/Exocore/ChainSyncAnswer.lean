import Exocore.ChainHolds
import Exocore.ChainSyncStatus

/-! What a node answers from its chain: the metadata of its blocks, and runs of them. -/
namespace Exocore.Engine

open Exocore.Core Exocore.Chain

/-- The metadata of a block of the chain. -/
def MetadataIn (chain : List DataBlock) (m : BlockMetadata) : Prop :=
  ∃ b ∈ chain, BlockMetadata.fromStoredBlock b = .ok m

theorem MetadataIn.mono {chain chain' : List DataBlock} {m : BlockMetadata}
    (h : MetadataIn chain m) (hsub : ∀ b ∈ chain, b ∈ chain') : MetadataIn chain' m := by
  obtain ⟨b, hb, hm⟩ := h
  exact ⟨b, hsub b hb, hm⟩

theorem fromStoredBlock_offset {b : DataBlock} {m : BlockMetadata}
    (h : BlockMetadata.fromStoredBlock b = .ok m) : m.offset = b.offset := by
  rw [BlockMetadata.fromStoredBlock, bind_eq_ok_iff] at h
  obtain ⟨reader, -, h⟩ := h
  obtain ⟨hash, -, h⟩ := (bind_eq_ok_iff _ _ _).mp h
  rw [← Except.ok.inj h]

theorem storedMetadata_ok {b : DataBlock} {m : BlockMetadata}
    (h : storedMetadata (.ok b) = .ok m) : BlockMetadata.fromStoredBlock b = .ok m := h

theorem sampleBlocks_in (isIncluded : ℕ → Bool) (n : ℕ) (blocks : List DataBlock)
    (ms : List BlockMetadata) (h : sampleBlocks isIncluded n (blocks.map .ok) = .ok ms) :
    ∀ m ∈ ms, MetadataIn blocks m := by
  induction blocks generalizing n ms with
  | nil =>
    obtain rfl := Except.ok.inj h
    simp
  | cons b rest ih =>
    have hsub : ∀ c ∈ rest, c ∈ b :: rest := fun c hc => List.mem_cons_of_mem b hc
    rw [List.map_cons, sampleBlocks, liftError_ok, ok_bind] at h
    split_ifs at h with hin
    · obtain ⟨m, hm, h⟩ := (bind_eq_ok_iff _ _ _).mp h
      obtain ⟨tail, htail, h⟩ := (bind_eq_ok_iff _ _ _).mp h
      obtain rfl := Except.ok.inj h
      intro x hx
      rcases List.mem_cons.mp hx with rfl | hx
      · exact ⟨b, List.mem_cons_self, hm⟩
      · exact (ih _ _ htail x hx).mono hsub
    · exact fun x hx => (ih _ _ h x hx).mono hsub

theorem mapM_storedMetadata_in (blocks : List DataBlock) (ms : List BlockMetadata)
    (h : (blocks.map Except.ok).mapM storedMetadata = .ok ms) : ∀ m ∈ ms, MetadataIn blocks m := by
  induction blocks generalizing ms with
  | nil =>
    obtain rfl := Except.ok.inj h
    simp
  | cons b rest ih =>
    rw [List.map_cons, List.mapM_cons] at h
    obtain ⟨m, hm, h⟩ := (bind_eq_ok_iff _ _ _).mp h
    obtain ⟨tail, htail, h⟩ := (bind_eq_ok_iff _ _ _).mp h
    obtain rfl := Except.ok.inj h
    intro x hx
    rcases List.mem_cons.mp hx with rfl | hx
    · exact ⟨b, List.mem_cons_self, storedMetadata_ok hm⟩
    · exact (ih _ htail x hx).mono fun c hc => List.mem_cons_of_mem b hc

theorem addEndBlocks_in (chain blocks : List DataBlock) (acc ms : List BlockMetadata)
    (hsub : ∀ b ∈ blocks, b ∈ chain) (hacc : ∀ m ∈ acc, MetadataIn chain m)
    (h : addEndBlocks (blocks.map .ok) acc = .ok ms) : ∀ m ∈ ms, MetadataIn chain m := by
  induction blocks generalizing acc with
  | nil =>
    obtain rfl := Except.ok.inj h
    exact hacc
  | cons b rest ih =>
    have hrest : ∀ c ∈ rest, c ∈ chain := fun c hc => hsub c (List.mem_cons_of_mem b hc)
    rw [List.map_cons, addEndBlocks] at h
    obtain ⟨m, hm, h⟩ := (bind_eq_ok_iff _ _ _).mp h
    have hin : MetadataIn chain m := ⟨b, hsub b List.mem_cons_self, storedMetadata_ok hm⟩
    split_ifs at h
    · refine ih (acc ++ [m]) hrest ?_ h
      intro x hx
      rcases List.mem_append.mp hx with hx | hx
      · exact hacc x hx
      · rw [List.mem_singleton.mp hx]
        exact hin
    · exact ih acc hrest hacc h

/-- Blocks up to an offset are the first of a linked run. -/
theorem filter_offset_isPrefix (toOffset start stop : ℕ) (blocks : List DataBlock)
    (h : Linked start blocks stop) (hpos : ∀ b ∈ blocks, 0 < b.totalSize) :
    ∃ front, front <+: blocks ∧
      (blocks.map Except.ok).filter (ChainSynchronizer.inBlocksRange toOffset) =
        front.map Except.ok := by
  induction blocks generalizing start with
  | nil => exact ⟨[], List.nil_prefix, rfl⟩
  | cons b rest ih =>
    obtain ⟨-, hrest⟩ := h
    have hposrest : ∀ c ∈ rest, 0 < c.totalSize := fun c hc => hpos c (List.mem_cons_of_mem b hc)
    rw [List.map_cons]
    by_cases hin : toOffset = 0 ∨ b.offset ≤ toOffset
    · obtain ⟨front, hfront, hfilter⟩ := ih b.nextOffset hrest hposrest
      refine ⟨b :: front, (List.prefix_cons_inj b).mpr hfront, ?_⟩
      rw [List.filter_cons_of_pos (by simpa [ChainSynchronizer.inBlocksRange] using hin), hfilter,
        List.map_cons]
    · -- the offsets grow, so nothing behind the block is in the range either
      refine ⟨[], List.nil_prefix, ?_⟩
      rw [List.filter_cons_of_neg (by simpa [ChainSynchronizer.inBlocksRange] using hin),
        List.map_nil, List.filter_eq_nil_iff]
      intro r hr
      obtain ⟨c, hc, rfl⟩ := List.mem_map.mp hr
      have hbound := linked_offset_lt rest c _ _ hrest hc (hposrest c hc)
      have hnext : b.nextOffset = b.offset + b.totalSize := rfl
      simp only [ChainSynchronizer.inBlocksRange, decide_eq_true_eq]
      omega

theorem takeBlocks_isPrefix (maxSize dataSize : ℕ) (blocks : List DataBlock) :
    ∃ front, front <+: blocks ∧
      ChainSynchronizer.takeBlocks maxSize dataSize (blocks.map .ok) = .ok front := by
  induction blocks generalizing dataSize with
  | nil => exact ⟨[], List.nil_prefix, rfl⟩
  | cons b rest ih =>
    rw [List.map_cons, ChainSynchronizer.takeBlocks]
    split_ifs
    · obtain ⟨front, hfront, htake⟩ := ih (dataSize + b.totalSize)
      refine ⟨b :: front, (List.prefix_cons_inj b).mpr hfront, ?_⟩
      rw [htake]
      rfl
    · exact ⟨[], List.nil_prefix, rfl⟩

/-- A response that was made from a chain. -/
structure HonestResponse (chain : List DataBlock) (response : ChainSyncResponse) : Prop where
  headers : ∀ headers, response.headers.get = .ok headers → ∀ header ∈ headers,
    ∃ m, MetadataIn chain m ∧ header = m.copyIntoBuilder
  blocks : ∃ blocks, blocks <:+: chain ∧
    response.blocks = .ofList (blocks.map fun b => some b.asDataVec)

theorem HonestResponse.mono {chain chain' : List DataBlock} {response : ChainSyncResponse}
    (h : HonestResponse chain response) (hgrow : chain <+: chain') :
    HonestResponse chain' response := by
  refine ⟨?_, ?_⟩
  · intro headers hget header hheader
    obtain ⟨m, hm, heq⟩ := h.headers headers hget header hheader
    exact ⟨m, hm.mono fun b hb => hgrow.subset hb, heq⟩
  · obtain ⟨blocks, hblocks, heq⟩ := h.blocks
    exact ⟨blocks, hblocks.trans hgrow.isInfix, heq⟩

/-- A request for a part of a chain that starts and ends between two of its blocks. -/
structure RequestFits (chain : List DataBlock) (request : ChainSyncRequest) : Prop where
  fromOffset : Boundary chain request.fromOffset
  toOffset : Boundary chain request.toOffset

theorem RequestFits.mono {chain chain' : List DataBlock} {request : ChainSyncRequest}
    (h : RequestFits chain request) (hgrow : chain <+: chain') : RequestFits chain' request :=
  ⟨boundary_of_isPrefix h.fromOffset hgrow, boundary_of_isPrefix h.toOffset hgrow⟩

theorem offsetOpt_getD (offset : ℕ) : (ChainSynchronizer.offsetOpt offset).getD 0 = offset := by
  rw [ChainSynchronizer.offsetOpt]
  split_ifs with h
  · rfl
  · simp only [ne_eq, not_not] at h
    exact h.symm

section Store
variable [Crates]

theorem segment_first_mem {s : DirectoryChainStore} {chain : List DataBlock} (h : Holds s chain)
    (segment : Segment) (hsegment : segment ∈ s.segmentRanges) :
    ∃ b ∈ chain, b.offset = segment.start := by
  obtain ⟨seg, hseg, rfl⟩ := List.mem_map.mp hsegment
  obtain ⟨l, r, hsegs⟩ := List.append_of_mem hseg
  have hholds := h.segments
  rw [hsegs] at hholds
  obtain ⟨before, bs, after, hchain, -, hbs, -⟩ := segmentsHold_split _ _ _ _ _ _ hholds
  obtain ⟨b, rest, rfl⟩ := List.exists_cons_of_ne_nil hbs.nonempty
  obtain ⟨hoff, -⟩ := hbs.linked
  exact ⟨b, by simp [hchain], hoff⟩

theorem addSegmentBlocks_in {s : DirectoryChainStore} {chain : List DataBlock} (h : Holds s chain)
    (segments : List Segment) (hsegments : ∀ segment ∈ segments, segment ∈ s.segmentRanges)
    (acc ms : List BlockMetadata) (hacc : ∀ m ∈ acc, MetadataIn chain m)
    (hadd : addSegmentBlocks s segments acc = .ok ms) : ∀ m ∈ ms, MetadataIn chain m := by
  induction segments generalizing acc with
  | nil =>
    obtain rfl := Except.ok.inj hadd
    exact hacc
  | cons segment rest ih =>
    have hrest : ∀ x ∈ rest, x ∈ s.segmentRanges := fun x hx =>
      hsegments x (List.mem_cons_of_mem _ hx)
    rw [addSegmentBlocks] at hadd
    split_ifs at hadd
    · obtain ⟨b, hb, hoff⟩ := segment_first_mem h segment (hsegments _ List.mem_cons_self)
      have hread : ChainStore.getBlock s segment.start = .ok b := by
        rw [← hoff]
        exact h.getBlock b hb
      rw [hread] at hadd
      obtain ⟨m, hm, hadd⟩ := (bind_eq_ok_iff _ _ _).mp hadd
      refine ih hrest (acc ++ [m]) ?_ hadd
      intro x hx
      rcases List.mem_append.mp hx with hx | hx
      · exact hacc x hx
      · rw [List.mem_singleton.mp hx]
        exact ⟨b, hb, storedMetadata_ok hm⟩
    · exact ih hrest acc hacc hadd

theorem boundary_endOf {s : DirectoryChainStore} {chain : List DataBlock} (h : Holds s chain) :
    Boundary chain (endOf chain) := ⟨chain, [], by simp, h.linked⟩

theorem fromSegmentBoundaries_in {s : DirectoryChainStore} {chain : List DataBlock}
    (h : Holds s chain) (segments : List Segment)
    (hsegments : ∀ segment ∈ segments, segment ∈ s.segmentRanges) (fromOffset toOffset : Option ℕ)
    (hfrom : Boundary chain (fromOffset.getD 0)) (hto : ∀ t, toOffset = some t → Boundary chain t)
    (config : ChainSyncConfig) (ms : List BlockMetadata)
    (hms : fromSegmentBoundaries s segments fromOffset toOffset config = .ok ms) :
    ∀ m ∈ ms, MetadataIn chain m := by
  rw [fromSegmentBoundaries] at hms
  obtain ⟨acc, hacc, hms⟩ := (bind_eq_ok_iff _ _ _).mp hms
  obtain ⟨acc', hacc', hms⟩ := (bind_eq_ok_iff _ _ _).mp hms
  obtain ⟨last, hlast, hms⟩ := (bind_eq_ok_iff _ _ _).mp hms
  obtain ⟨t, ht, hms⟩ := (bind_eq_ok_iff _ _ _).mp hms
  have hbegin : ∀ m ∈ acc, MetadataIn chain m := by
    obtain ⟨l, r, hchain, hl⟩ := hfrom
    have hiter : ChainRangeStore.blocksIter s (fromOffset.getD 0) = r.map .ok := by
      rw [hchain] at h
      exact h.blocksIter hl
    rw [hiter, ← List.map_take] at hacc
    intro m hm
    refine (mapM_storedMetadata_in _ _ hacc m hm).mono fun b hb => ?_
    rw [hchain]
    exact List.mem_append_right _ (List.mem_of_mem_take hb)
  have hmiddle := addSegmentBlocks_in h segments hsegments acc acc' hbegin hacc'
  have hboundary : Boundary chain t := by
    rw [orError_eq_ok_iff] at ht
    cases hoffset : toOffset with
    | some offset =>
      rw [hoffset] at ht
      exact hto t (hoffset.trans ht)
    | none =>
      have hstored : ChainStore.getLastBlock s = .ok chain.getLast? := h.getLastBlock
      rw [hstored, liftError_ok, Except.ok.injEq] at hlast
      rw [hoffset, ← hlast] at ht
      have hend : endOf chain = t := by
        rw [endOf]
        simpa using congrArg (fun o => Option.getD o 0) ht
      rw [← hend]
      exact boundary_endOf h
  cases hprevious : ChainRangeStore.getBlockFromNextOffset s t with
  | error fault =>
    rw [hprevious] at hms
    cases fault with
    | panic => simp at hms
    | error e =>
      obtain rfl := Except.ok.inj hms
      exact hmiddle
  | ok b =>
    rw [hprevious] at hms
    obtain ⟨l, r, hchain, hl⟩ := hboundary
    have hiter : ChainRangeStore.blocksIterReverse s t = l.reverse.map .ok := by
      rw [hchain] at h
      exact h.blocksIterReverse hl
    simp only [hiter, ← List.map_take, ← List.map_reverse] at hms
    refine addEndBlocks_in chain _ acc' ms ?_ hmiddle hms
    intro c hc
    rw [List.mem_reverse] at hc
    have hl := List.mem_reverse.mp (List.mem_of_mem_take hc)
    rw [hchain]
    exact List.mem_append_left _ hl

theorem sliceStart_boundary {s : DirectoryChainStore} (chain : List DataBlock) (fromOffset : ℕ)
    (hfrom : Boundary chain fromOffset) (start : ℕ) (h : sliceStart s fromOffset = .ok start) :
    Boundary chain start := by
  rw [sliceStart] at h
  cases hread : ChainStore.getBlock s fromOffset with
  | ok b =>
    rw [hread] at h
    rw [← Except.ok.inj h]
    exact hfrom
  | error fault =>
    rw [hread] at h
    cases fault with
    | panic => simp at h
    | error e =>
      simp only at h
      split_ifs at h
      rw [← Except.ok.inj h]
      exact boundary_zero chain

theorem fromSampledChainSlice_in {s : DirectoryChainStore} {chain : List DataBlock}
    (h : Holds s chain) (overflowChecks : Bool) (fromOffset toOffset : Option ℕ)
    (hfrom : Boundary chain (fromOffset.getD 0)) (config : ChainSyncConfig)
    (ms : List BlockMetadata)
    (hms : fromSampledChainSlice overflowChecks s fromOffset toOffset config = .ok ms) :
    ∀ m ∈ ms, MetadataIn chain m := by
  rw [fromSampledChainSlice] at hms
  obtain ⟨last, -, hms⟩ := (bind_eq_ok_iff _ _ _).mp hms
  obtain ⟨lastBlock, -, hms⟩ := (bind_eq_ok_iff _ _ _).mp hms
  obtain ⟨lastReader, -, hms⟩ := (bind_eq_ok_iff _ _ _).mp hms
  obtain ⟨start, hstart, hms⟩ := (bind_eq_ok_iff _ _ _).mp hms
  obtain ⟨l, r, hchain, hl⟩ := sliceStart_boundary chain _ hfrom start hstart
  have hiter : ChainRangeStore.blocksIter s start = r.map .ok := by
    rw [hchain] at h
    exact h.blocksIter hl
  rw [hiter] at hms
  obtain ⟨firstBlock, -, hms⟩ := (bind_eq_ok_iff _ _ _).mp hms
  obtain ⟨firstReader, -, hms⟩ := (bind_eq_ok_iff _ _ _).mp hms
  obtain ⟨count, -, hms⟩ := (bind_eq_ok_iff _ _ _).mp hms
  split_ifs at hms
  obtain ⟨blocksCount, -, hms⟩ := (bind_eq_ok_iff _ _ _).mp hms
  rw [← List.map_take] at hms
  intro m hm
  refine (sampleBlocks_in _ _ _ _ hms m hm).mono fun b hb => ?_
  rw [hchain]
  exact List.mem_append_right _ (List.mem_of_mem_take hb)

/-- The metadata of a store are those of blocks of its chain. -/
theorem fromStore_in {s : DirectoryChainStore} {chain : List DataBlock} (h : Holds s chain)
    (overflowChecks : Bool) (fromOffset toOffset : Option ℕ)
    (hfrom : Boundary chain (fromOffset.getD 0)) (hto : ∀ t, toOffset = some t → Boundary chain t)
    (config : ChainSyncConfig) (ms : List BlockMetadata)
    (hms : BlockMetadata.fromStore overflowChecks s fromOffset toOffset config = .ok ms) :
    ∀ m ∈ ms, MetadataIn chain m := by
  rw [BlockMetadata.fromStore] at hms
  split_ifs at hms
  · obtain rfl := Except.ok.inj hms
    simp
  · exact fromSegmentBoundaries_in h _ (fun _ hmem => List.mem_of_mem_filter hmem) fromOffset
      toOffset hfrom hto config ms hms
  · exact fromSampledChainSlice_in h overflowChecks fromOffset toOffset hfrom config ms hms

/-- A request that fits the chain gets a response that was made from it. -/
theorem handleSyncRequest_honest (overflowChecks : Bool) (fromNode : NodeId)
    (request : ChainSyncRequest) (s : ChainSyncState DirectoryChainStore) (chain : List DataBlock)
    (h : Holds s.store chain) (hfits : RequestFits chain request) :
    ∀ message ∈ (ChainSynchronizer.handleSyncRequest overflowChecks fromNode (some request)
        s).2.syncContext.messages, message ∈ s.syncContext.messages ∨
      ∃ response, message = .chainSyncResponse fromNode response ∧
        HonestResponse chain response := by
  have hpush : ∀ (response : ChainSyncResponse) message, HonestResponse chain response →
      message ∈ (s.syncContext.pushChainSyncResponse fromNode response).messages →
      message ∈ s.syncContext.messages ∨
        ∃ response, message = .chainSyncResponse fromNode response ∧
          HonestResponse chain response := by
    intro response message hresponse hmessage
    rcases List.mem_append.mp hmessage with hold | hnew
    · exact Or.inl hold
    · exact Or.inr ⟨response, List.mem_singleton.mp hnew, hresponse⟩
  intro message hmessage
  rw [ChainSynchronizer.handleSyncRequest] at hmessage
  simp only [orError_some, Action.lift_ok_bind] at hmessage
  cases hdetails : request.requestedDetails with
  | notInSchema code =>
    rw [hdetails] at hmessage
    exact Or.inl hmessage
  | headers =>
    rw [hdetails] at hmessage
    simp only [ChainSynchronizer.getOrCreateNodeInfo_bind, Action.get_bind] at hmessage
    cases hms : BlockMetadata.fromStore overflowChecks s.store
        (ChainSynchronizer.offsetOpt request.fromOffset)
        (ChainSynchronizer.offsetOpt request.toOffset)
        (s.synchronizer.createNodeInfo fromNode).config with
    | error e =>
      rw [hms] at hmessage
      exact Or.inl hmessage
    | ok ms =>
      rw [hms] at hmessage
      refine hpush _ message ⟨?_, [], List.nil_infix, rfl⟩ hmessage
      intro headers hget header hheader
      obtain rfl := Except.ok.inj hget
      obtain ⟨m, hm, rfl⟩ := List.mem_map.mp hheader
      refine ⟨m, fromStore_in h overflowChecks _ _ ?_ ?_ _ ms hms m hm, rfl⟩
      · rw [offsetOpt_getD]
        exact hfits.fromOffset
      · intro t ht
        have hoff := offsetOpt_getD request.toOffset
        rw [ht] at hoff
        have heq : t = request.toOffset := hoff
        rw [heq]
        exact hfits.toOffset
  | blocks =>
    rw [hdetails] at hmessage
    simp only [ChainSynchronizer.getOrCreateNodeInfo_bind, Action.get_bind] at hmessage
    obtain ⟨l, r, hchain, hl⟩ := hfits.fromOffset
    have hiter : ChainRangeStore.blocksIter s.store request.fromOffset = r.map .ok := by
      rw [hchain] at h
      exact h.blocksIter hl
    have hlinked : Linked request.fromOffset r (endOf chain) := by
      have hwhole := h.linked
      rw [hchain] at hwhole
      obtain ⟨mid, hl', hr⟩ := (linked_append_iff l r 0 _).mp hwhole
      rw [linked_stop l 0 _ hl, ← linked_stop l 0 mid hl', hchain]
      exact hr
    obtain ⟨ranged, hranged, hfilter⟩ := filter_offset_isPrefix request.toOffset _ _ r hlinked
      fun b hb =>
        (h.wellFormed b (by rw [hchain]; exact List.mem_append_right _ hb)).totalSize_pos
    obtain ⟨sent, hsent, htake⟩ := takeBlocks_isPrefix
      (s.synchronizer.createNodeInfo fromNode).config.blocksMaxSendSize 0 ranged
    simp only [hiter, hfilter, ChainSynchronizer.createSyncResponseForBlocks, htake, liftError_ok,
      ok_bind] at hmessage
    refine hpush _ message ⟨?_, sent, ?_, rfl⟩ hmessage
    · intro headers hget header hheader
      obtain rfl := Except.ok.inj hget
      simp at hheader
    · have hinfix : sent <:+: r := (hsent.trans hranged).isInfix
      rw [hchain]
      exact hinfix.trans (List.suffix_append l r).isInfix

end Store

end Exocore.Engine
