import Exocore.PendingSyncRank

/-! The handling of a whole request, range by range: no error, and an answer that needs one
reply less. -/
namespace Exocore.Engine

open Exocore.Core Exocore.Chain Exocore.Pending PendingSynchronizer

section Handling
variable [Crates] (frames : ℕ → Option OperationFrame) (hfree : CollisionFree frames)
  (hmh : MultihashReadsBack)

/-- What the handling of ranges with these ids leaves: the store, and the ranges of the answer,
by the number of answers they may need. -/
structure Answered (sender : MemoryPendingStore) (before after : PendingState) (has : ℕ → Prop)
    (n : ℕ) (changed : Bool) (pieces : List Piece) : Prop where
  messages : after.syncContext.messages = before.syncContext.messages
  syncState : after.syncContext.syncState = before.syncContext.syncState
  others : ∀ id, ¬ has id → after.store.getOperation id = before.store.getOperation id
  share : Share frames sender after.store
  tiles : Tiles has pieces
  rank : ∀ p ∈ pieces, Rank after.store sender p (n - 1)
  changes : n = 0 → changed = false
  same : changed = false → ∀ id, has id → frameOf after.store id = frameOf sender id

/-- After its operations were stored, the receiver has what it had and what it was sent. -/
theorem frameOf_stored (sender : MemoryPendingStore) (p : Piece) (before after : PendingState)
    (hstored : Stored before after (sentWith .full sender none p.details p.bounds)) (id : ℕ) :
    frameOf after.store id =
      if id ∈ p.fullIds sender then frameOf sender id else frameOf before.store id := by
  split_ifs with hid
  · obtain ⟨op, hop, hd, rfl⟩ := (mem_fullIds_iff sender p id).mp hid
    obtain ⟨hget, -⟩ := (mem_visible_none_iff sender p.bounds op).mp hop
    have hmem : op ∈ sentWith .full sender none p.details p.bounds :=
      List.mem_filter.mpr ⟨hop, by simpa using hd⟩
    rw [frameOf, hstored.stored op hmem, frameOf, hget]
    rfl
  · rw [frameOf, hstored.others id hid, frameOf]

theorem share_stored (sender : MemoryPendingStore) (p : Piece) (before after : PendingState)
    (hshare : Share frames sender before.store)
    (hstored : Stored before after (sentWith .full sender none p.details p.bounds)) :
    Share frames sender after.store := by
  have hframe := frameOf_stored sender p before after hstored
  refine ⟨hshare.left, ?_, ?_⟩
  · intro id f hf
    rw [hframe] at hf
    split_ifs at hf
    · exact hshare.left id f hf
    · exact hshare.right id f hf
  · intro id f hf
    rw [hframe]
    split_ifs with hid
    · obtain ⟨op, hop, -, rfl⟩ := (mem_fullIds_iff sender p id).mp hid
      obtain ⟨hget, -⟩ := (mem_visible_none_iff sender p.bounds op).mp hop
      have hs : frameOf sender op.operationId = some op.frame := by
        rw [frameOf, hget, Option.map_some]
      rw [hs, ← hshare.left _ _ hs, hf]
      exact Or.inl rfl
    · exact hshare.cover id f hf

/-- The range is settled exactly when the receiver then has the same in it. -/
theorem settled_iff (sender : MemoryPendingStore) (p : Piece) (before after : PendingState)
    (hstored : Stored before after (sentWith .full sender none p.details p.bounds)) :
    Settled sender before.store p ↔ ∀ id, p.Has id → frameOf after.store id = frameOf sender id := by
  have hframe := frameOf_stored sender p before after hstored
  constructor
  · intro h id hid
    rw [hframe]
    split_ifs with hfull
    · rfl
    · exact h id hid hfull
  · intro h id hid hnot
    have heq := h id hid
    rw [hframe, if_neg hnot] at heq
    exact heq

theorem sentWith_eq_nil_of_none (sender : MemoryPendingStore) (p : Piece)
    (level : OperationDetailsLevel) (hlevel : level ≠ .none) (hnone : ∀ op, p.details op = .none) :
    sentWith level sender none p.details p.bounds = [] := by
  rw [sentWith, List.filter_eq_nil_iff]
  intro op _
  simp [hnone op, hlevel.symm]

/-- A range that describes an operation sends something of it. -/
theorem sentWith_ne_nil_of_described (sender : MemoryPendingStore) (p : Piece)
    (hd : Described sender p) (hne : visible sender none p.bounds ≠ [])
    (hheader : sentWith .header sender none p.details p.bounds = []) :
    sentWith .full sender none p.details p.bounds ≠ [] := by
  intro hfull
  obtain ⟨op, hop⟩ := List.exists_mem_of_ne_nil _ hne
  have hheader' := List.filter_eq_nil_iff.mp hheader op hop
  have hfull' := List.filter_eq_nil_iff.mp hfull op hop
  have hd' := hd op hop
  cases hdet : p.details op <;> simp_all

section Answer
variable (sender : MemoryPendingStore) (p : Piece) (before after : PendingState)
  (hshare : Share frames sender before.store)
  (hstored : Stored before after (sentWith .full sender none p.details p.bounds))
  (hnot : ¬ Settled sender before.store p) (included : List ℕ)
  (hincluded : ∀ id, id ∈ included ↔ id ∈ p.fullIds sender)

include hshare hstored hnot hincluded

/-- A described range that is not settled has a difference for the diff to find. -/
theorem differs_of_described (hd : Described sender p) :
    Differs (p.headerIds sender) included (visible after.store none p.bounds) := by
  rw [settled_iff sender p before after hstored] at hnot
  simp only [not_forall] at hnot
  obtain ⟨id, hid, hne⟩ := hnot
  have hshare' := share_stored frames sender p before after hshare hstored
  have hframe := frameOf_stored sender p before after hstored
  cases hs : frameOf sender id with
  | some f =>
    -- the receiver misses it, so it was sent by its header
    have hmiss : frameOf after.store id = none := by
      cases ha : frameOf after.store id with
      | none => rfl
      | some g =>
        rw [share_agree frames sender after.store hshare' id f g hs ha, ← ha] at hs
        exact absurd hs.symm hne
    obtain ⟨op, hget, rfl, -⟩ := (frameOf_eq_some sender id f).mp hs
    have hop : op ∈ visible sender none p.bounds :=
      (mem_visible_none_iff sender p.bounds op).mpr ⟨hget, hid⟩
    refine Or.inl ⟨op.operationId, (mem_headerIds_iff _ _ _).mpr ⟨op, hop, ?_, rfl⟩, ?_⟩
    · cases hdet : p.details op with
      | header => rfl
      | full =>
        have hfull := (mem_fullIds_iff sender p _).mpr ⟨op, hop, hdet, rfl⟩
        rw [hframe, if_pos hfull, hs] at hmiss
        contradiction
      | none => exact absurd hdet (hd op hop)
    · rw [mem_ids_iff, hmiss]
      simp
  | none =>
    have hhas : ∃ f, frameOf after.store id = some f := by
      cases ha : frameOf after.store id with
      | none => exact absurd (ha.trans hs.symm) hne
      | some f => exact ⟨f, rfl⟩
    obtain ⟨op, hop, rfl⟩ := List.mem_map.mp
      ((mem_ids_iff after.store p.bounds id).mpr ⟨hhas, hid⟩)
    have hsent (op' : StoredOperation) (hop' : op' ∈ visible sender none p.bounds) :
        op'.operationId ≠ op.operationId := by
      intro heq
      obtain ⟨hget, -⟩ := (mem_visible_none_iff sender p.bounds op').mp hop'
      rw [frameOf, ← heq, hget] at hs
      contradiction
    refine Or.inr ⟨op, hop, ?_, ?_⟩
    · rw [mem_headerIds_iff]
      rintro ⟨op', hop', -, heq⟩
      exact hsent op' hop' heq
    · rw [hincluded, mem_fullIds_iff]
      rintro ⟨op', hop', -, heq⟩
      exact hsent op' hop' heq

/-- The answer to a range that is not settled, and the rank of the ranges in it. -/
theorem answerRange_rank (n : ℕ) (hrank : Rank sender before.store p n)
    (out : SyncRangesBuilder) :
    ∃ details, answerRange out (p.message sender) included (visible after.store none p.bounds) =
        out.pushOperations ((visible after.store none p.bounds).map fun op => (op, details op)) ∧
      ∀ cut : Bound × Bound, (∀ id, inRange cut.1 cut.2 id = true → p.Has id) →
        Rank after.store sender ⟨cut, details⟩ (n - 1) := by
  have hshare' := share_stored frames sender p before after hshare hstored
  have hheaders : (p.message sender).operationsHeaders = _ :=
    rangeMessage_headers sender none p.details p.bounds
  have hframes : (p.message sender).operationsFrames = _ :=
    rangeMessage_frames sender none p.details p.bounds
  have hcount : (p.message sender).operationsCount = _ :=
    rangeMessage_count sender none p.details p.bounds
  rw [answerRange, hcount, hheaders, hframes]
  by_cases hzero : (visible sender none p.bounds).length = 0
  · refine ⟨fun _ => .full, if_pos hzero, fun cut hcut => ?_⟩
    exact rank_of_settled _ _ _ _
      (settled_of_empty sender after.store p cut hcut (List.length_eq_zero_iff.mp hzero))
  rw [if_neg hzero]
  have hne : visible sender none p.bounds ≠ [] := fun h => hzero (by rw [h, List.length_nil])
  by_cases hbare : sentWith .header sender none p.details p.bounds = [] ∧
      sentWith .full sender none p.details p.bounds = []
  · -- only a hash was sent, which is no description
    have hnd : ¬ Described sender p := fun hd =>
      sentWith_ne_nil_of_described sender p hd hne hbare.1 hbare.2
    refine ⟨fun _ => .header, ?_, fun cut _ => ?_⟩
    · rw [hbare.1, hbare.2]
      rfl
    · have hdescribed : Described after.store ⟨cut, fun _ => .header⟩ := fun op _ => by simp
      rcases n with _ | _ | _ | _ | n
      · exact absurd hrank hnot
      · exact absurd (hrank.resolve_left hnot).1 hnd
      · exact absurd (hrank.resolve_left hnot) hnd
      · exact Or.inr hdescribed
      · exact Or.inr (Or.inl hdescribed)
  · have hd : Described sender p := by
      rcases n with _ | _ | _ | n
      · exact absurd hrank hnot
      · exact (hrank.resolve_left hnot).1
      · exact hrank.resolve_left hnot
      · refine (hrank.resolve_left hnot).resolve_right fun hnone => hbare ⟨?_, ?_⟩
        · exact sentWith_eq_nil_of_none sender p .header (by simp) hnone
        · exact sentWith_eq_nil_of_none sender p .full (by simp) hnone
    have hids : ((sentWith .header sender none p.details p.bounds).map
        SyncRangeBuilder.headerMessage).map OperationHeaderMessage.operationId =
        p.headerIds sender := by
      rw [List.map_map]
      rfl
    have hsorted : ((sentWith .header sender none p.details p.bounds).map
        SyncRangeBuilder.headerMessage).Pairwise fun a b => a.operationId < b.operationId :=
      List.pairwise_map.mpr ((visible_sorted sender none p.bounds).sublist
        (sentWith_sublist sender none p.details p.bounds .header))
    have hdiffers := differs_of_described frames sender p before after hshare hstored hnot included
      hincluded hd
    refine ⟨diffDetails (p.headerIds sender) included, ?_, fun cut hcut => ?_⟩
    · rw [if_neg (by simpa [Bool.and_eq_true] using hbare), ListPointer.get_ofList, ok_bind,
        diffLocalRemoteRange_of_differs out included _ _ hsorted
          (visible_sorted after.store none p.bounds) (hids.symm ▸ hdiffers), hids]
    · rw [diffDetails_append]
      have hknown : ∀ id ∈ p.headerIds sender ++ included, ∃ f, frameOf sender id = some f := by
        intro id hid
        obtain ⟨op, hop, rfl⟩ : ∃ op ∈ visible sender none p.bounds, op.operationId = id := by
          rcases List.mem_append.mp hid with hid | hid
          · obtain ⟨op, hop, -, hopId⟩ := (mem_headerIds_iff sender p id).mp hid
            exact ⟨op, hop, hopId⟩
          · obtain ⟨op, hop, -, hopId⟩ := (mem_fullIds_iff sender p id).mp ((hincluded id).mp hid)
            exact ⟨op, hop, hopId⟩
        exact ((mem_ids_iff sender p.bounds op.operationId).mp (List.mem_map_of_mem hop)).1
      have hdescribed : Described after.store
          ⟨cut, diffDetails (p.headerIds sender ++ included) []⟩ := by
        intro op _
        simp only [diffDetails]
        split_ifs <;> simp
      have hdelivered := delivered_of_diff frames sender after.store hshare' cut
        (p.headerIds sender ++ included) hknown
      rcases n with _ | _ | _ | _ | n
      · exact absurd hrank hnot
      · refine settled_of_diff frames sender after.store hshare' p cut hcut _ hknown ?_
        intro id f hid hf
        rw [frameOf_stored sender p before after hstored]
        split_ifs with hfull
        · exact hf
        · obtain ⟨op, hget, rfl, rfl⟩ := (frameOf_eq_some sender id f).mp hf
          have hop := (mem_visible_none_iff sender p.bounds op).mpr ⟨hget, hid⟩
          refine (hrank.resolve_left hnot).2 op hop fun hdet => hfull ?_
          exact (mem_fullIds_iff sender p _).mpr ⟨op, hop, hdet, rfl⟩
      · exact Or.inr ⟨hdescribed, hdelivered⟩
      · exact Or.inr hdescribed
      · exact Or.inr (Or.inl hdescribed)

end Answer

include hfree hmh

/-- One range of a request is handled without an error. -/
theorem handleIncomingSyncRange_answered (sender : MemoryPendingStore) (p : Piece)
    (hb : BoundsRead p.bounds.1 p.bounds.2) (n : ℕ) (out : SyncRangesBuilder)
    (hmax : 1 ≤ out.config.maxOperationsPerRange) (before : PendingState)
    (hshare : Share frames sender before.store) (hrank : Rank sender before.store p n) :
    ∃ changed out' after pieces,
      handleIncomingSyncRange none (p.message sender) out before = (.ok (changed, out'), after) ∧
      Answered frames sender before after p.Has n changed pieces ∧ out'.config = out.config ∧
      out'.ranges.map SyncRangeBuilder.writeIntoSyncRangeBuilder =
        out.ranges.map SyncRangeBuilder.writeIntoSyncRangeBuilder ++
          pieces.map (Piece.message after.store) := by
  obtain ⟨included, after, hstored, hincluded, hhandle⟩ := handleIncomingSyncRange_eq sender none
    p.details p.bounds none out before hb.ordered
  have hshare' := share_stored frames sender p before after hshare hstored
  have hsettled := settled_iff sender p before after hstored
  have hothers : ∀ id, ¬ p.Has id →
      after.store.getOperation id = before.store.getOperation id := by
    intro id hid
    apply hstored.others
    intro hmem
    obtain ⟨op, hop, -, rfl⟩ := (mem_fullIds_iff sender p id).mp hmem
    exact hid ((mem_visible_none_iff sender p.bounds op).mp hop).2
  have hhash := rangeMessage_hash sender none p.details p.bounds hmh
  have hbounds := extractSyncBounds_rangeMessage sender none p.details p.bounds hb
  have hcount := rangeMessage_count sender none p.details p.bounds
  have hp : rangePanics (extractSyncBounds (rangeMessage sender none p.details p.bounds)).1.1
      (extractSyncBounds (rangeMessage sender none p.details p.bounds)).1.2 = false := by
    rw [hbounds]
    exact hb.noPanic
  have hsame := compareRange_same after.store none _ included out _ hp hhash
  have hdiffers := compareRange_differs after.store none _ included out _ hp hhash
  rw [hbounds, hcount] at hsame hdiffers
  have hinfo := sameInfo_iff frames hfree sender after.store hshare' p.bounds
  by_cases hs : Settled sender before.store p
  · -- the same in both stores, a hash stands for the range
    have heq := hinfo.mpr fun id hid => ((hsettled.mp hs) id hid).symm
    refine ⟨false, out.pushRange (.newHashed p.bounds (toMultihash (hashInput (visible sender none
      p.bounds))) (visible sender none p.bounds).length), after, [⟨p.bounds, fun _ => .none⟩], ?_,
      ?_, rfl, ?_⟩
    · rw [Piece.message, hhandle, hsame heq]
    · refine ⟨hstored.messages, hstored.syncState, hothers, hshare', ?_, ?_, fun _ => rfl,
        fun _ => hsettled.mp hs⟩
      · refine ⟨?_, ?_, List.pairwise_singleton _ _, ?_⟩
        · intro q hq
          rw [List.mem_singleton.mp hq]
          exact hb
        · intro q hq id hid
          rw [List.mem_singleton.mp hq] at hid
          exact hid
        · intro id hid
          exact ⟨_, List.mem_singleton_self _, hid⟩
      · intro q hq
        rw [List.mem_singleton.mp hq]
        refine rank_of_settled _ _ _ _ fun id hid _ => ?_
        exact ((hsettled.mp hs) id hid).symm
    · have hwrite := newHashed_write after.store none p.bounds
      rw [← heq.1, heq.2] at hwrite
      simp only [SyncRangesBuilder.pushRange, List.map_append, List.map_cons, List.map_nil, hwrite]
      rfl
  · have hne := hinfo.not.mpr fun h => hs (hsettled.mpr fun id hid => (h id hid).symm)
    obtain ⟨details, hanswer, hranks⟩ := answerRange_rank frames sender p before after hshare
      hstored hs included hincluded n hrank (out.pushNewRange p.bounds.1)
    obtain ⟨pushed, cuts, hpushed, -, hcuts, hclosed⟩ := pushOperations_visible out after.store none
      details p.bounds
    refine ⟨true, pushed.setLastRangeToBound p.bounds.2, after,
      cuts.map fun cut => ⟨cut, details⟩, ?_, ?_, ?_, ?_⟩
    · rw [Piece.message] at hanswer ⊢
      rw [hhandle, hdiffers hne, hanswer, hpushed, ok_bind]
      rfl
    · refine ⟨hstored.messages, hstored.syncState, hothers, hshare',
        tiles_of_cuts _ hmax p.bounds cuts hcuts hb details, ?_, ?_, ?_⟩
      · intro q hq
        obtain ⟨cut, hcut, rfl⟩ := List.mem_map.mp hq
        exact hranks cut (cuts_inside _ _ _ cuts hcuts cut hcut)
      · rintro rfl
        exact absurd hrank hs
      · intro h
        contradiction
    · rw [hclosed]
    · rw [hclosed, List.map_append, List.map_map, List.map_map]
      rfl

/-- All the ranges of a request are handled without an error. -/
theorem handleIncomingSyncRangesLoop_answered (sender : MemoryPendingStore) (n : ℕ)
    (pieces : List Piece) (has : ℕ → Prop) (htiles : Tiles has pieces) (changes : Bool)
    (out : SyncRangesBuilder) (hmax : 1 ≤ out.config.maxOperationsPerRange) (before : PendingState)
    (hshare : Share frames sender before.store)
    (hrank : ∀ p ∈ pieces, Rank sender before.store p n) :
    ∃ changed out' after answer,
      handleIncomingSyncRangesLoop none (pieces.map (Piece.message sender)) changes out before =
        (.ok (if changes || changed then some out' else none), after) ∧
      Answered frames sender before after has n changed answer ∧
      out'.ranges.map SyncRangeBuilder.writeIntoSyncRangeBuilder =
        out.ranges.map SyncRangeBuilder.writeIntoSyncRangeBuilder ++
          answer.map (Piece.message after.store) := by
  induction pieces generalizing changes out before has with
  | nil =>
    have hnone : ∀ id, ¬ has id := by
      intro id hid
      obtain ⟨p, hp, -⟩ := htiles.cover id hid
      contradiction
    refine ⟨false, out, before, [], ?_, ⟨rfl, rfl, fun _ _ => rfl, hshare, htiles, ?_, fun _ => rfl,
      fun _ id hid => absurd hid (hnone id)⟩, by simp⟩
    · rw [Bool.or_false]
      rfl
    · intro p hp
      contradiction
  | cons p pieces ih =>
    obtain ⟨changed, out₁, mid, answer₁, hhandle, hans₁, hconfig, hwrite₁⟩ :=
      handleIncomingSyncRange_answered frames hfree hmh sender p
        (htiles.read p List.mem_cons_self) n out hmax before hshare (hrank p List.mem_cons_self)
    obtain ⟨hapart, hapart'⟩ := List.pairwise_cons.mp htiles.apart
    have hrest : Tiles (fun id => ∃ q ∈ pieces, q.Has id) pieces :=
      ⟨fun q hq => htiles.read q (List.mem_cons_of_mem _ hq), fun q hq id hid => ⟨q, hq, hid⟩,
        hapart', fun id hid => hid⟩
    have hhas : has = fun id => p.Has id ∨ ∃ q ∈ pieces, q.Has id := by
      funext id
      apply propext
      constructor
      · intro hid
        obtain ⟨q, hq, hqid⟩ := htiles.cover id hid
        rcases List.mem_cons.mp hq with rfl | hq
        · exact Or.inl hqid
        · exact Or.inr ⟨q, hq, hqid⟩
      · rintro (hid | ⟨q, hq, hid⟩)
        · exact htiles.inside p List.mem_cons_self id hid
        · exact htiles.inside q (List.mem_cons_of_mem _ hq) id hid
    have hdisjoint : ∀ id, p.Has id → ¬ ∃ q ∈ pieces, q.Has id := by
      rintro id hid ⟨q, hq, hqid⟩
      exact hapart q hq id hid hqid
    -- what the first range stored is not in the ranges after it
    have hrank' : ∀ q ∈ pieces, Rank sender mid.store q n := by
      intro q hq
      refine rank_congr_receiver sender before.store mid.store q n ?_
        (hrank q (List.mem_cons_of_mem _ hq))
      intro id hid
      exact (hans₁.others id fun hp => hapart q hq id hp hid).symm
    obtain ⟨changed', out₂, after, answer₂, hloop, hans₂, hwrite₂⟩ := ih
      (fun id => ∃ q ∈ pieces, q.Has id) hrest (changes || changed) out₁ (hconfig ▸ hmax) mid
      hans₁.share hrank'
    have hkept : ∀ q ∈ answer₁, ∀ id, q.Has id →
        mid.store.getOperation id = after.store.getOperation id := by
      intro q hq id hid
      exact (hans₂.others id (hdisjoint id (hans₁.tiles.inside q hq id hid))).symm
    subst hhas
    refine ⟨changed || changed', out₂, after, answer₁ ++ answer₂, ?_, ⟨?_, ?_, ?_, hans₂.share, ?_,
      ?_, ?_, ?_⟩, ?_⟩
    · rw [List.map_cons, handleIncomingSyncRangesLoop_cons_ok _ _ _ _ _ _ _ _ _ hhandle, hloop,
        Bool.or_assoc]
    · exact hans₂.messages.trans hans₁.messages
    · exact hans₂.syncState.trans hans₁.syncState
    · intro id hid
      rw [not_or] at hid
      rw [hans₂.others id hid.2, hans₁.others id hid.1]
    · exact tiles_append _ _ answer₁ answer₂ hans₁.tiles hans₂.tiles hdisjoint
    · intro q hq
      rcases List.mem_append.mp hq with hq | hq
      · exact rank_congr mid.store after.store sender q (n - 1) (hkept q hq) (hans₁.rank q hq)
      · exact hans₂.rank q hq
    · intro hn
      rw [hans₁.changes hn, hans₂.changes hn]
      rfl
    · intro hsame id hid
      obtain ⟨hsame₁, hsame₂⟩ := Bool.or_eq_false_iff.mp hsame
      rcases hid with hid | hid
      · rw [frameOf, hans₂.others id (hdisjoint id hid)]
        exact hans₁.same hsame₁ id hid
      · exact hans₂.same hsame₂ id hid
    · have hmap : answer₁.map (Piece.message mid.store) =
          answer₁.map (Piece.message after.store) :=
        List.map_congr_left fun q hq => message_congr _ _ q (hkept q hq)
      rw [hwrite₂, hwrite₁, hmap, List.map_append, List.append_assoc]

end Handling

end Exocore.Engine
