import Exocore.ChainSyncProbe

/-! What the loop over the headers of a response makes of the blocks of an honest node. -/
namespace Exocore.Engine

open Exocore.Core Exocore.Chain Ascending

theorem fromStoredBlock_hash {b : DataBlock} {m : BlockMetadata}
    (h : BlockMetadata.fromStoredBlock b = .ok m) : m.hash = b.header.multihashBytes := by
  rw [BlockMetadata.fromStoredBlock] at h
  obtain ⟨header, -, h⟩ := (bind_eq_ok_iff _ _ _).mp h
  obtain ⟨hash, -, h⟩ := (bind_eq_ok_iff _ _ _).mp h
  rw [← Except.ok.inj h]

namespace MetadataScan

/-- The scan behind a block of the other node, which is in common or not. -/
def pass (common : DataBlock → Bool) (f : DataBlock → BlockMetadata) (scan : MetadataScan)
    (b : DataBlock) : MetadataScan :=
  let isNew := scan.firstNonCommonBlock.isNone && common b &&
    isLatestOffset scan.info.lastCommonBlock b.offset
  { info := { scan.info with
      lastCommonBlock := if isNew then some (f b) else scan.info.lastCommonBlock
      lastKnownBlock := if isLatestOffset scan.info.lastKnownBlock b.offset then some (f b)
        else scan.info.lastKnownBlock }
    hasNewCommonBlock := scan.hasNewCommonBlock || isNew
    firstNonCommonBlock := if scan.firstNonCommonBlock.isNone && !common b then some b.offset
      else scan.firstNonCommonBlock
    lastBlockHeight := some (heightOf b)
    allContiguous := scan.allContiguous && match scan.lastBlockHeight with
      | none => true
      | some last => heightOf b = last + 1 }

section Read
variable [Crates] {store : DirectoryChainStore} {common : DataBlock → Bool}
  {f : DataBlock → BlockMetadata}

/-- What the store has at the offset of a block tells whether the block is in common. -/
structure Tells (store : DirectoryChainStore) (common : DataBlock → Bool) (b : DataBlock) : Prop where
  returns : NoPanic (store.getBlock b.offset)
  reads : common b = true ↔ ∃ x, store.getBlock b.offset = .ok x ∧
    x.header.multihashBytes = b.header.multihashBytes

/-- So it is for the blocks up to the first that is not in common. -/
def TellsAlong (store : DirectoryChainStore) (common : DataBlock → Bool) : List DataBlock → Prop
  | [] => True
  | b :: rest => Tells store common b ∧ (common b = true → TellsAlong store common rest)

omit [Crates] in
theorem checkContiguous_pass (overflowChecks : Bool) (scan : MetadataScan) (height : ℕ)
    (hlast : ∀ last, scan.lastBlockHeight = some last → last + 1 < 2^64) :
    checkContiguous overflowChecks height scan = (.ok (), { scan with
      lastBlockHeight := some height
      allContiguous := scan.allContiguous && match scan.lastBlockHeight with
        | none => true
        | some last => height = last + 1 }) := by
  rw [checkContiguous]
  cases h : scan.lastBlockHeight with
  | none => simp
  | some last => simp only [wordSucc, if_pos (hlast last h)]

theorem checkCommon_pass (scan : MetadataScan) (b : DataBlock)
    (hf : BlockMetadata.fromStoredBlock b = .ok (f b))
    (htells : scan.firstNonCommonBlock = none → Tells store common b) :
    checkCommon store (f b).copyIntoBuilder scan = (.ok (), { scan with
      info := { scan.info with
        lastCommonBlock := if scan.firstNonCommonBlock.isNone && common b &&
            isLatestOffset scan.info.lastCommonBlock b.offset then some (f b)
          else scan.info.lastCommonBlock }
      hasNewCommonBlock := scan.hasNewCommonBlock || (scan.firstNonCommonBlock.isNone &&
        common b && isLatestOffset scan.info.lastCommonBlock b.offset)
      firstNonCommonBlock := if scan.firstNonCommonBlock.isNone && !common b then some b.offset
        else scan.firstNonCommonBlock }) := by
  have hoffset : (f b).copyIntoBuilder.offset = b.offset := fromStoredBlock_offset hf
  have hblockHash : (f b).copyIntoBuilder.blockHash = some b.header.multihashBytes := by
    rw [← fromStoredBlock_hash hf]
    rfl
  obtain ⟨info, hasNew, first, lastHeight, allContiguous⟩ := scan
  rw [checkCommon]
  cases first with
  | some offset => simp
  | none =>
    obtain ⟨hreturns, hreads⟩ := htells rfl
    simp only [Option.isSome_none, Bool.false_eq_true, if_false, hoffset]
    cases hcommon : common b with
    | true =>
      obtain ⟨x, hget, hhash⟩ := hreads.mp hcommon
      have hread : ChainStore.getBlock store b.offset = .ok x := hget
      simp only [hread, hblockHash, hhash, if_true]
      by_cases hlatest : isLatestOffset info.lastCommonBlock b.offset = true
      · simp [hlatest]
      · simp [hlatest]
    | false =>
      cases hget : store.getBlock b.offset with
      | ok x =>
        have hread : ChainStore.getBlock store b.offset = .ok x := hget
        have hne : b.header.multihashBytes ≠ x.header.multihashBytes := by
          intro heq
          rw [hreads.mpr ⟨x, hget, heq.symm⟩] at hcommon
          contradiction
        simp [hread, hblockHash, hne]
      | error fault =>
        have hread : ChainStore.getBlock store b.offset = .error fault := hget
        cases fault with
        | panic => exact absurd hget hreturns
        | error e =>
          have hfatal : e.isFatal = false := by
            rcases directory_getBlock_cases store b.offset with hpanic | ⟨e', he, hfatal⟩ |
              ⟨x, -, hok, -⟩
            · rw [hget] at hpanic
              exact absurd (Except.error.inj hpanic) (by simp)
            · rw [hget] at he
              rw [Fault.error.inj (Except.error.inj he)]
              exact hfatal
            · rw [hget] at hok
              contradiction
          simp [hread, hfatal]

omit [Crates] in
theorem checkKnown_pass (scan : MetadataScan) (b : DataBlock)
    (hf : BlockMetadata.fromStoredBlock b = .ok (f b)) :
    checkKnown (f b).copyIntoBuilder scan = (.ok (), { scan with
      info := { scan.info with
        lastKnownBlock := if isLatestOffset scan.info.lastKnownBlock b.offset then some (f b)
          else scan.info.lastKnownBlock } }) := by
  have hoffset : (f b).copyIntoBuilder.offset = b.offset := fromStoredBlock_offset hf
  rw [checkKnown, hoffset]
  split_ifs <;> rfl

theorem scanHeaders_eq (overflowChecks : Bool) (bs : List DataBlock) (scan : MetadataScan)
    (hf : ∀ b ∈ bs, BlockMetadata.fromStoredBlock b = .ok (f b))
    (hheights : bs.Pairwise fun b c => heightOf b < heightOf c)
    (hwords : ∀ b ∈ bs, heightOf b < 2^64)
    (hlast : ∀ last, scan.lastBlockHeight = some last → ∀ b ∈ bs, last < heightOf b)
    (htells : scan.firstNonCommonBlock = none → TellsAlong store common bs) :
    scanHeaders overflowChecks store (bs.map fun b => (f b).copyIntoBuilder) scan =
      (.ok (), bs.foldl (pass common f) scan) := by
  induction bs generalizing scan with
  | nil => rfl
  | cons b rest ih =>
    obtain ⟨hrise, hrest⟩ := List.pairwise_cons.mp hheights
    have hb := hf b List.mem_cons_self
    have hheight : (f b).copyIntoBuilder.height = heightOf b := fromStoredBlock_height hb
    have hcontiguous := checkContiguous_pass overflowChecks scan (heightOf b) (by
      intro last hlast'
      have hlt := hlast last hlast' b List.mem_cons_self
      have hword := hwords b List.mem_cons_self
      omega)
    rw [List.map_cons, scanHeaders, hheight, Action.bind_of_ok _ _ _ _ _ hcontiguous,
      Action.bind_of_ok _ _ _ _ _ (checkCommon_pass _ b hb ?_),
      Action.bind_of_ok _ _ _ _ _ (checkKnown_pass _ b hb), List.foldl_cons]
    · refine ih _ (fun c hc => hf c (List.mem_cons_of_mem b hc)) hrest
        (fun c hc => hwords c (List.mem_cons_of_mem b hc)) ?_ ?_
      · intro last hlast' c hc
        rw [← Option.some.inj hlast']
        exact hrise c hc
      · -- behind a block that is not in common nothing is compared
        intro hopen
        have hboth : scan.firstNonCommonBlock = none ∧ common b = true := by
          simp only at hopen
          split_ifs at hopen with hleft
          refine ⟨hopen, ?_⟩
          simpa [hopen] using hleft
        exact (htells hboth.1).2 hboth.2
    · intro hopen
      exact (htells hopen).1

end Read

section Fold
variable {common : DataBlock → Bool} {f : DataBlock → BlockMetadata}

/-- What is compared no more stays as it is. -/
theorem foldl_pass_closed (bs : List DataBlock) (scan : MetadataScan) (offset : ℕ)
    (hfirst : scan.firstNonCommonBlock = some offset) :
    (bs.foldl (pass common f) scan).firstNonCommonBlock = some offset ∧
      (bs.foldl (pass common f) scan).hasNewCommonBlock = scan.hasNewCommonBlock ∧
      (bs.foldl (pass common f) scan).info.lastCommonBlock = scan.info.lastCommonBlock := by
  induction bs generalizing scan with
  | nil => exact ⟨hfirst, rfl, rfl⟩
  | cons b rest ih =>
    have hnext : (pass common f scan b).firstNonCommonBlock = some offset ∧
        (pass common f scan b).hasNewCommonBlock = scan.hasNewCommonBlock ∧
        (pass common f scan b).info.lastCommonBlock = scan.info.lastCommonBlock := by
      simp [pass, hfirst]
    obtain ⟨hfirst', hnew, hcommon⟩ := ih (pass common f scan b) hnext.1
    rw [List.foldl_cons]
    exact ⟨hfirst', hnew.trans hnext.2.1, hcommon.trans hnext.2.2⟩

/-- The blocks behind the last one in common are in common: each of them is the next last one. -/
theorem foldl_pass_common (a : DataBlock) (front : List DataBlock) (scan : MetadataScan)
    (hascends : Ascends DataBlock.offset (a :: front)) (hcommon : ∀ b ∈ front, common b = true)
    (hf : ∀ b ∈ a :: front, (f b).offset = b.offset)
    (hlast : scan.info.lastCommonBlock = some (f a)) (hopen : scan.firstNonCommonBlock = none) :
    (front.foldl (pass common f) scan).firstNonCommonBlock = none ∧
      (front.foldl (pass common f) scan).hasNewCommonBlock =
        (scan.hasNewCommonBlock || !front.isEmpty) ∧
      ∃ last, (a :: front).getLast? = some last ∧
        (front.foldl (pass common f) scan).info.lastCommonBlock = some (f last) := by
  induction front generalizing a scan with
  | nil => exact ⟨hopen, by simp, a, rfl, hlast⟩
  | cons b rest ih =>
    obtain ⟨habove, hrest⟩ := List.pairwise_cons.mp hascends
    have hlatest : isLatestOffset scan.info.lastCommonBlock b.offset = true := by
      have hlt := habove b List.mem_cons_self
      rw [hlast, isLatestOffset, hf a List.mem_cons_self]
      exact decide_eq_true hlt
    have hb := hcommon b List.mem_cons_self
    obtain ⟨hopen', hnew, last, hgetLast, hlast'⟩ := ih b (pass common f scan b) hrest
      (fun c hc => hcommon c (List.mem_cons_of_mem b hc))
      (fun c hc => hf c (List.mem_cons_of_mem a hc))
      (by simp [pass, hopen, hb, hlatest]) (by simp [pass, hopen, hb])
    rw [List.foldl_cons]
    refine ⟨hopen', ?_, last, ?_, hlast'⟩
    · rw [hnew]
      simp [pass, hopen, hb, hlatest]
    · rw [List.getLast?_cons_cons]
      exact hgetLast

theorem foldl_pass_info (bs : List DataBlock) (scan : MetadataScan) :
    (bs.foldl (pass common f) scan).info.nodeId = scan.info.nodeId ∧
      (bs.foldl (pass common f) scan).info.lastCommonIsKnown = scan.info.lastCommonIsKnown := by
  induction bs generalizing scan with
  | nil => exact ⟨rfl, rfl⟩
  | cons b rest ih =>
    rw [List.foldl_cons]
    exact ih (pass common f scan b)

/-- The last known block is as far as it was, and as far as all that was received. -/
theorem foldl_pass_known (bs : List DataBlock) (scan : MetadataScan)
    (hf : ∀ b ∈ bs, (f b).offset = b.offset) :
    ((bs.foldl (pass common f) scan).info.lastKnownBlock = scan.info.lastKnownBlock ∨
        ∃ b ∈ bs, (bs.foldl (pass common f) scan).info.lastKnownBlock = some (f b)) ∧
      (∀ known, scan.info.lastKnownBlock = some known →
        ∃ known', (bs.foldl (pass common f) scan).info.lastKnownBlock = some known' ∧
          known.offset ≤ known'.offset) ∧
      ∀ b ∈ bs, ∃ known, (bs.foldl (pass common f) scan).info.lastKnownBlock = some known ∧
        b.offset ≤ known.offset := by
  induction bs generalizing scan with
  | nil => exact ⟨Or.inl rfl, fun known h => ⟨known, h, le_rfl⟩, by simp⟩
  | cons b rest ih =>
    have hb := hf b List.mem_cons_self
    obtain ⟨hfrom, hrises, hreaches⟩ := ih (pass common f scan b)
      fun c hc => hf c (List.mem_cons_of_mem b hc)
    -- behind the block something is known that is as far as both
    have hpassed : ((pass common f scan b).info.lastKnownBlock = scan.info.lastKnownBlock ∨
          (pass common f scan b).info.lastKnownBlock = some (f b)) ∧
        ∃ known, (pass common f scan b).info.lastKnownBlock = some known ∧
          b.offset ≤ known.offset ∧
          ∀ known', scan.info.lastKnownBlock = some known' → known'.offset ≤ known.offset := by
      cases hknown : scan.info.lastKnownBlock with
      | none =>
        have hset : (pass common f scan b).info.lastKnownBlock = some (f b) := by
          simp [pass, hknown, isLatestOffset]
        exact ⟨Or.inr hset, f b, hset, hb.ge, by simp⟩
      | some known =>
        by_cases hlt : known.offset < b.offset
        · have hset : (pass common f scan b).info.lastKnownBlock = some (f b) := by
            simp [pass, hknown, isLatestOffset, hlt]
          refine ⟨Or.inr hset, f b, hset, hb.ge, ?_⟩
          intro known' hsame
          rw [← Option.some.inj hsame, hb]
          exact hlt.le
        · have hset : (pass common f scan b).info.lastKnownBlock = some known := by
            simp [pass, hknown, isLatestOffset, hlt]
          refine ⟨Or.inl hset, known, hset, not_lt.mp hlt, ?_⟩
          intro known' hsame
          rw [Option.some.inj hsame]
    obtain ⟨hset, known, hknown, hle, hold⟩ := hpassed
    obtain ⟨known', hknown', hle'⟩ := hrises known hknown
    rw [List.foldl_cons]
    refine ⟨?_, ?_, ?_⟩
    · rcases hfrom with hsame | ⟨c, hc, hfc⟩
      · rcases hset with hset | hset
        · exact Or.inl (hsame.trans hset)
        · exact Or.inr ⟨b, List.mem_cons_self, hsame.trans hset⟩
      · exact Or.inr ⟨c, List.mem_cons_of_mem b hc, hfc⟩
    · intro first hfirst
      exact ⟨known', hknown', (hold first hfirst).trans hle'⟩
    · intro c hc
      rcases List.mem_cons.mp hc with rfl | hc
      · exact ⟨known', hknown', hle.trans hle'⟩
      · exact hreaches c hc

theorem foldl_pass_contiguous (a : DataBlock) (bs : List DataBlock) (scan : MetadataScan)
    (hheight : scan.lastBlockHeight = some (heightOf a)) :
    (bs.foldl (pass common f) scan).allContiguous = true ↔ scan.allContiguous = true ∧
      (a :: bs).IsChain fun b c => heightOf c = heightOf b + 1 := by
  induction bs generalizing a scan with
  | nil => simp
  | cons b rest ih =>
    have hcontiguous : (pass common f scan b).allContiguous = true ↔
        scan.allContiguous = true ∧ heightOf b = heightOf a + 1 := by
      simp [pass, hheight]
    rw [List.foldl_cons, ih b (pass common f scan b) rfl, hcontiguous, List.isChain_cons_cons,
      and_assoc]

/-- The scan of a response behind its blocks: the first is in common, as are those after it up to
the first that differs. -/
structure Scanned (f : DataBlock → BlockMetadata) (info : NodeSyncInfo) (a : DataBlock)
    (front rest : List DataBlock) (scan : MetadataScan) : Prop where
  nodeId : scan.info.nodeId = info.nodeId
  lastCommonIsKnown : scan.info.lastCommonIsKnown = info.lastCommonIsKnown
  lastCommon : ∃ last, (a :: front).getLast? = some last ∧
    scan.info.lastCommonBlock = some (f last)
  isNew : scan.hasNewCommonBlock = true ↔ info.lastCommonBlock = none ∨ front ≠ []
  differs : scan.firstNonCommonBlock = rest.head?.map DataBlock.offset
  contiguous : scan.allContiguous = true ↔
    (a :: (front ++ rest)).IsChain fun b c => heightOf c = heightOf b + 1
  knownFrom : scan.info.lastKnownBlock = info.lastKnownBlock ∨
    ∃ b ∈ a :: (front ++ rest), scan.info.lastKnownBlock = some (f b)
  knownRises : ∀ known, info.lastKnownBlock = some known →
    ∃ known', scan.info.lastKnownBlock = some known' ∧ known.offset ≤ known'.offset
  knownReaches : ∀ b ∈ a :: (front ++ rest), ∃ known, scan.info.lastKnownBlock = some known ∧
    b.offset ≤ known.offset

theorem scanned (info : NodeSyncInfo) (a : DataBlock) (front rest : List DataBlock)
    (hascends : Ascends DataBlock.offset (a :: (front ++ rest)))
    (hf : ∀ b ∈ a :: (front ++ rest), (f b).offset = b.offset)
    (hlast : info.lastCommonBlock = none ∨ info.lastCommonBlock = some (f a))
    (ha : common a = true) (hfront : ∀ b ∈ front, common b = true)
    (hrest : ∀ b, rest.head? = some b → common b = false) :
    Scanned f info a front rest
      ((a :: (front ++ rest)).foldl (pass common f) ⟨info, false, none, none, true⟩) := by
  set first := pass common f ⟨info, false, none, none, true⟩ a with hfirst
  have hfa : (f a).offset = a.offset := hf a List.mem_cons_self
  have hopen : first.firstNonCommonBlock = none := by simp [hfirst, pass, ha]
  have hcommon : first.info.lastCommonBlock = some (f a) := by
    rcases hlast with hnone | hsome
    · simp [hfirst, pass, ha, hnone, isLatestOffset]
    · simp [hfirst, pass, ha, hsome, isLatestOffset, hfa]
  have hnew : first.hasNewCommonBlock = true ↔ info.lastCommonBlock = none := by
    rcases hlast with hnone | hsome
    · simp [hfirst, pass, ha, hnone, isLatestOffset]
    · simp [hfirst, pass, ha, hsome, isLatestOffset, hfa]
  have hfrontAscends : Ascends DataBlock.offset (a :: front) := by
    refine hascends.sublist ?_
    exact List.Sublist.cons_cons a (List.sublist_append_left front rest)
  have hfrontOffsets : ∀ b ∈ a :: front, (f b).offset = b.offset := by
    intro b hb
    apply hf
    rcases List.mem_cons.mp hb with rfl | hb
    · exact List.mem_cons_self
    · exact List.mem_cons_of_mem a (List.mem_append_left rest hb)
  obtain ⟨hopen', hnew', last, hgetLast, hlast'⟩ :=
    foldl_pass_common a front first hfrontAscends hfront hfrontOffsets hcommon hopen
  -- what differs ends the comparison
  have hdiffers : (rest.foldl (pass common f) (front.foldl (pass common f) first)).firstNonCommonBlock
        = rest.head?.map DataBlock.offset ∧
      (rest.foldl (pass common f) (front.foldl (pass common f) first)).hasNewCommonBlock =
        (front.foldl (pass common f) first).hasNewCommonBlock ∧
      (rest.foldl (pass common f) (front.foldl (pass common f) first)).info.lastCommonBlock =
        (front.foldl (pass common f) first).info.lastCommonBlock := by
    cases rest with
    | nil => exact ⟨hopen', rfl, rfl⟩
    | cons b more =>
      have hb := hrest b rfl
      set scan := front.foldl (pass common f) first
      have hclosed : (pass common f scan b).firstNonCommonBlock = some b.offset := by
        simp [pass, hopen', hb]
      have hsame : (pass common f scan b).hasNewCommonBlock = scan.hasNewCommonBlock ∧
          (pass common f scan b).info.lastCommonBlock = scan.info.lastCommonBlock := by
        simp [pass, hopen', hb]
      obtain ⟨h, hnew'', hcommon''⟩ := foldl_pass_closed more (pass common f scan b) b.offset hclosed
      rw [List.foldl_cons]
      exact ⟨h, hnew''.trans hsame.1, hcommon''.trans hsame.2⟩
  obtain ⟨hnodeId, hisKnown⟩ := @foldl_pass_info common f
    (a :: (front ++ rest)) ⟨info, false, none, none, true⟩
  obtain ⟨hfrom, hrises, hreaches⟩ := @foldl_pass_known common f
    (a :: (front ++ rest)) ⟨info, false, none, none, true⟩ hf
  have hcontiguous := @foldl_pass_contiguous common f a (front ++ rest) first rfl
  have hsplit : (a :: (front ++ rest)).foldl (pass common f) ⟨info, false, none, none, true⟩ =
      rest.foldl (pass common f) (front.foldl (pass common f) first) := by
    rw [List.foldl_cons, List.foldl_append]
  refine ⟨hnodeId, hisKnown, ⟨last, hgetLast, ?_⟩, ?_, ?_, ?_, hfrom, hrises, hreaches⟩
  · rw [hsplit, hdiffers.2.2, hlast']
  · rw [hsplit, hdiffers.2.1, hnew', Bool.or_eq_true, hnew]
    simp
  · rw [hsplit, hdiffers.1]
  · rw [List.foldl_cons]
    rw [hcontiguous]
    simp [hfirst, pass]

end Fold

end MetadataScan

end Exocore.Engine
