import Exocore.PendingSyncHandle

/-! The ranges of the request for a new operation: the first has the operation in full, the
ones after it have only a hash. -/
namespace Exocore.Engine

open Exocore.Core Exocore.Chain Exocore.Pending PendingSynchronizer

/-- The first range ends after `max + 1` operations, if there are more. -/
theorem cutsOf_head (max : ℕ) (hi lo : Bound) (count last : ℕ) (ids : List ℕ)
    (hcount : count ≤ max + 1) : ∃ rest, cutsOf max hi lo count last ids =
      (lo, if count + ids.length ≤ max + 1 then hi
        else .included ((ids.take (max + 1 - count)).getLastD last)) :: rest := by
  induction ids generalizing count last with
  | nil => exact ⟨[], by simp [cutsOf, hcount]⟩
  | cons id ids ih =>
    by_cases hfull : count > max
    · obtain rfl : count = max + 1 := by omega
      refine ⟨cutsOf max hi (.excluded last) 1 id ids, ?_⟩
      rw [cutsOf, if_pos hfull, if_neg (by simp only [List.length_cons]; omega)]
      simp
    · obtain ⟨rest, hrest⟩ := ih (count + 1) id (by omega)
      refine ⟨rest, ?_⟩
      have htake : (id :: ids).take (max + 1 - count) = id :: ids.take (max + 1 - (count + 1)) := by
        rw [show max + 1 - count = max + 1 - (count + 1) + 1 by omega, List.take_succ_cons]
      rw [cutsOf, if_neg hfull, hrest, htake, List.getLastD_cons, List.length_cons,
        show count + 1 + ids.length = count + (ids.length + 1) by omega]

theorem le_getLastD_of_sorted (l : List ℕ) (hl : l.Pairwise (· < ·)) (d x : ℕ) (hx : x ∈ l) :
    x ≤ l.getLastD d := by
  induction l generalizing d x with
  | nil => contradiction
  | cons y l ih =>
    obtain ⟨hy, hl'⟩ := List.pairwise_cons.mp hl
    rw [List.getLastD_cons]
    rcases List.mem_cons.mp hx with rfl | hx
    · cases l with
      | nil => exact le_refl _
      | cons z l => exact (hy z List.mem_cons_self).le.trans (ih hl' x z List.mem_cons_self)
    · exact ih hl' y x hx

/-- The bounds are accepted by the node that reads them. -/
structure BoundsAccepted (lo hi : Bound) : Prop where
  ordered : ¬ ((SyncRangeBuilder.writeBound hi).1 ≠ 0 ∧
    (SyncRangeBuilder.writeBound hi).1 < (SyncRangeBuilder.writeBound lo).1)
  noPanic : rangePanics (readBound (SyncRangeBuilder.writeBound lo).1
      (SyncRangeBuilder.writeBound lo).2) (readBound (SyncRangeBuilder.writeBound hi).1
      (SyncRangeBuilder.writeBound hi).2) = false

/-- A cut after the operation 0 reads as no bound at all, that is accepted too. -/
theorem cuts_boundsAccepted (min : ℕ) (lo : Bound) (cuts : List (Bound × Bound))
    (h : Cuts min lo .unbounded cuts) : ∀ c ∈ cuts, BoundsAccepted c.1 c.2 := by
  have hread (x : ℕ) : readBound x false = .unbounded ∨ readBound x false = .excluded x := by
    cases x <;> simp [readBound]
  generalize hhi : Bound.unbounded = hi at h
  induction h with
  | last lo hi =>
    subst hhi
    intro c hc
    rw [List.mem_singleton.mp hc]
    refine ⟨by simp [SyncRangeBuilder.writeBound], ?_⟩
    cases lo with
    | included x => simp [SyncRangeBuilder.writeBound, readBound, rangePanics]
    | excluded x => simp [SyncRangeBuilder.writeBound, readBound, rangePanics]
    | unbounded => rfl
  | cut lo hi x rest hlo hhi' hx hrest ih =>
    subst hhi
    intro c hc
    rcases List.mem_cons.mp hc with rfl | hc
    · cases lo with
      | included y =>
        simp only [Bound.lowerAllows, decide_eq_true_eq] at hlo
        refine ⟨by simp only [SyncRangeBuilder.writeBound]; omega, ?_⟩
        simp [SyncRangeBuilder.writeBound, readBound_included, rangePanics, hlo]
      | excluded y =>
        simp only [Bound.lowerAllows, decide_eq_true_eq] at hlo
        refine ⟨by simp only [SyncRangeBuilder.writeBound]; omega, ?_⟩
        rcases hread y with hy | hy <;>
          simp [SyncRangeBuilder.writeBound, readBound_included, hy, rangePanics, hlo.le]
      | unbounded =>
        refine ⟨by simp [SyncRangeBuilder.writeBound], ?_⟩
        simp [SyncRangeBuilder.writeBound, readBound, rangePanics]
    · exact ih rfl c hc

variable [Crates]

section Bare
variable (store : MemoryPendingStore) (height : Option ℕ)
  (details : StoredOperation → OperationDetailsLevel) (hmh : MultihashReadsBack)

/-- Only the hash of the range is sent. -/
def Bare (c : Bound × Bound) : Prop :=
  sentWith .full store height details c = [] ∧ sentWith .header store height details c = []

include hmh

/-- A range that has only a hash is answered without an error. -/
theorem handleIncomingSyncRange_bare (localHeight : Option ℕ) (c : Bound × Bound)
    (hbare : Bare store height details c) (hb : BoundsAccepted c.1 c.2) (out : SyncRangesBuilder)
    (state : PendingState) :
    ∃ res after, handleIncomingSyncRange localHeight (rangeMessage store height details c) out
        state = (.ok res, after) ∧
      ∀ id, after.store.getOperation id = state.store.getOperation id := by
  obtain ⟨included, after, hstored, -, hhandle⟩ := handleIncomingSyncRange_eq store height details c
    localHeight out state hb.ordered
  rw [hbare.1] at hstored
  have hsame : ∀ id, after.store.getOperation id = state.store.getOperation id :=
    fun id => hstored.others id (by simp)
  have hhash := rangeMessage_hash store height details c hmh
  have hp : rangePanics (extractSyncBounds (rangeMessage store height details c)).1.1
      (extractSyncBounds (rangeMessage store height details c)).1.2 = false := hb.noPanic
  by_cases heq : toMultihash (hashInput (visible store height c)) =
        toMultihash (hashInput (visible after.store localHeight
          (extractSyncBounds (rangeMessage store height details c)).1)) ∧
      (visible after.store localHeight (extractSyncBounds
        (rangeMessage store height details c)).1).length =
        (rangeMessage store height details c).operationsCount
  · rw [hhandle, compareRange_same after.store localHeight _ included out _ hp hhash heq]
    exact ⟨_, after, rfl, hsame⟩
  · rw [hhandle, compareRange_differs after.store localHeight _ included out _ hp hhash heq]
    -- both ways to answer push all the operations of the range
    obtain ⟨answered, hanswered⟩ : ∃ answered, answerRange (out.pushNewRange
        (extractSyncBounds (rangeMessage store height details c)).1.1)
        (rangeMessage store height details c) included (visible after.store localHeight
          (extractSyncBounds (rangeMessage store height details c)).1) = .ok answered := by
      rw [answerRange, rangeMessage_headers, rangeMessage_frames, hbare.1, hbare.2]
      split_ifs with h0 h1
      · obtain ⟨pushed, -, hpushed, -⟩ := pushOperations_visible out after.store localHeight
          (fun _ => .full) (extractSyncBounds (rangeMessage store height details c)).1
        exact ⟨pushed, hpushed⟩
      · obtain ⟨pushed, -, hpushed, -⟩ := pushOperations_visible out after.store localHeight
          (fun _ => .header) (extractSyncBounds (rangeMessage store height details c)).1
        exact ⟨pushed, hpushed⟩
      · simp at h1
    rw [hanswered, ok_bind]
    exact ⟨_, after, rfl, hsame⟩

theorem handleIncomingSyncRangesLoop_bare (localHeight : Option ℕ) (cuts : List (Bound × Bound))
    (hbare : ∀ c ∈ cuts, Bare store height details c)
    (hb : ∀ c ∈ cuts, BoundsAccepted c.1 c.2) (changes : Bool) (out : SyncRangesBuilder)
    (state : PendingState) :
    ∃ res after, handleIncomingSyncRangesLoop localHeight
        (cuts.map (rangeMessage store height details)) changes out state = (.ok res, after) ∧
      ∀ id, after.store.getOperation id = state.store.getOperation id := by
  induction cuts generalizing changes out state with
  | nil => exact ⟨_, state, rfl, fun _ => rfl⟩
  | cons c cuts ih =>
    obtain ⟨⟨changed, out'⟩, mid, hfirst, hsame⟩ := handleIncomingSyncRange_bare store height
      details hmh localHeight c (hbare c List.mem_cons_self) (hb c List.mem_cons_self) out state
    obtain ⟨res, after, hrest, hsame'⟩ := ih (fun x hx => hbare x (List.mem_cons_of_mem _ hx))
      (fun x hx => hb x (List.mem_cons_of_mem _ hx)) (changes || changed) out' mid
    refine ⟨res, after, ?_, fun id => (hsame' id).trans (hsame id)⟩
    rw [List.map_cons, handleIncomingSyncRangesLoop_cons_ok _ _ _ _ _ _ _ _ _ hfirst]
    exact hrest

end Bare

/-- No header is sent with a new operation. -/
theorem sentWith_newOperation_header (store : MemoryPendingStore) (height : Option ℕ) (id : ℕ)
    (c : Bound × Bound) : sentWith .header store height (newOperationDetails id) c = [] := by
  rw [sentWith, List.filter_eq_nil_iff]
  intro x _
  rw [newOperationDetails]
  split_ifs <;> simp

section First
variable (store : MemoryPendingStore) (height : Option ℕ) (op : StoredOperation)
  (hget : store.getOperation op.operationId = some op) (hop : op.commitStatus = .unknown)
  (c : Bound × Bound) (hin : inRange c.1 c.2 op.operationId = true)

include hget hop hin

theorem mem_visible_new : op ∈ visible store height c := by
  rw [mem_visible_iff]
  refine ⟨hget, hin, ?_⟩
  cases height <;> simp [fromHeightAllows, hop]

/-- Of the range with the new operation, only this one is sent in full. -/
theorem sentWith_newOperation :
    sentWith .full store height (newOperationDetails op.operationId) c = [op] := by
  have hmem := mem_visible_new store height op hget hop c hin
  have honly : ∀ x ∈ visible store height c,
      newOperationDetails op.operationId x = .full ↔ x = op := by
    intro x hx
    obtain ⟨hgetx, -, -⟩ := (mem_visible_iff store height c x).mp hx
    rw [newOperationDetails]
    split_ifs with hid
    · rw [hid, hget] at hgetx
      simpa using (Option.some.inj hgetx).symm
    · simp only [false_iff]
      intro heq
      exact hid (congrArg StoredOperation.operationId heq)
  rw [sentWith, List.filter_congr (q := fun x => decide (x = op))]
  · have hone := List.count_eq_one_of_mem (visible_nodup store height c) hmem
    simp only [← beq_eq_decide, List.filter_beq, hone, List.replicate_one]
  · intro x hx
    exact decide_eq_decide.mpr (honly x hx)

section Handle
variable (hmh : MultihashReadsBack) (hb : BoundsRead c.1 c.2) (localHeight : Option ℕ)
  (out : SyncRangesBuilder) (state : PendingState)

include hmh hb

/-- The handling of the range with the new operation: it is stored, then the range is the same
as the one of the receiver, or one of the receiver's operations is missing in it. -/
theorem handleIncomingSyncRange_new_eq : ∃ after,
    after.store.getOperation op.operationId = some op ∧
    (∀ id, id ≠ op.operationId → after.store.getOperation id = state.store.getOperation id) ∧
    ((handleIncomingSyncRange localHeight (rangeMessage store height
        (newOperationDetails op.operationId) c) out state).2 = after ∧
      ((∃ res, (handleIncomingSyncRange localHeight (rangeMessage store height
          (newOperationDetails op.operationId) c) out state).1 = .ok res) ↔
        (toMultihash (hashInput (visible store height c)) =
            toMultihash (hashInput (visible after.store localHeight c)) ∧
          (visible after.store localHeight c).length = (visible store height c).length) ∨
        ∃ x ∈ visible after.store localHeight c, x.operationId ≠ op.operationId)) := by
  have hfull := sentWith_newOperation store height op hget hop c hin
  have hheader := sentWith_newOperation_header store height op.operationId c
  obtain ⟨included, after, hstored, hmem, hhandle⟩ := handleIncomingSyncRange_eq store height
    (newOperationDetails op.operationId) c localHeight out state hb.ordered
  rw [hfull] at hstored hmem
  have hbounds := extractSyncBounds_rangeMessage store height
    (newOperationDetails op.operationId) c hb
  have hhash := rangeMessage_hash store height (newOperationDetails op.operationId) c hmh
  have hcount := rangeMessage_count store height (newOperationDetails op.operationId) c
  have hp : rangePanics (extractSyncBounds (rangeMessage store height
      (newOperationDetails op.operationId) c)).1.1 (extractSyncBounds (rangeMessage store height
      (newOperationDetails op.operationId) c)).1.2 = false := by
    rw [hbounds]
    exact hb.noPanic
  have hsame := compareRange_same after.store localHeight _ included out _ hp hhash
  have hdiffers := compareRange_differs after.store localHeight _ included out _ hp hhash
  rw [hbounds, hcount] at hsame hdiffers
  have hunknown : { op with commitStatus := CommitStatus.unknown } = op := by
    rw [← hop]
  refine ⟨after, ?_, ?_, by rw [hhandle], ?_⟩
  · rw [hstored.stored op (List.mem_singleton_self op), hunknown]
  · intro id hid
    exact hstored.others id (by simpa using hid)
  · rw [hhandle]
    by_cases heq : toMultihash (hashInput (visible store height c)) =
          toMultihash (hashInput (visible after.store localHeight c)) ∧
        (visible after.store localHeight c).length = (visible store height c).length
    · simp only [hsame heq, heq, and_self, true_or, iff_true]
      exact ⟨_, rfl⟩
    · -- the receiver diffs with no headers, only the new operation was included
      have hne : (visible store height c).length ≠ 0 := List.length_pos_iff_exists_mem.mpr
        ⟨op, mem_visible_new store height op hget hop c hin⟩ |>.ne'
      obtain ⟨pushed, cuts, hpushed, -⟩ := pushOperations_visible out after.store localHeight
        (diffDetails [] included) c
      have hdiffer : Differs [] included (visible after.store localHeight c) ↔
          ∃ x ∈ visible after.store localHeight c, x.operationId ≠ op.operationId := by
        simp [Differs, hmem]
      rw [hdiffers heq, answerRange, hcount, if_neg hne, rangeMessage_headers, rangeMessage_frames,
        hfull, hheader]
      simp only [List.map_nil, List.map_cons, ListPointer.has_ofList, ListPointer.get_ofList,
        List.isEmpty_nil, List.isEmpty_cons, Bool.not_true, Bool.not_false, Bool.and_false,
        ok_bind, Bool.false_eq_true, if_false, heq, false_or]
      by_cases hd : Differs [] included (visible after.store localHeight c)
      · rw [diffLocalRemoteRange_of_differs (out.pushNewRange c.1) included []
          (visible after.store localHeight c) List.Pairwise.nil
          (visible_sorted after.store localHeight c) hd, List.map_nil, hpushed, ok_bind]
        exact iff_of_true ⟨_, rfl⟩ (hdiffer.mp hd)
      · rw [diffLocalRemoteRange_of_not_differs (out.pushNewRange c.1) included []
          (visible after.store localHeight c) List.Pairwise.nil
          (visible_sorted after.store localHeight c) pushed hpushed hd]
        refine iff_of_false ?_ fun h => hd (hdiffer.mpr h)
        rintro ⟨res, hres⟩
        cases hres

/-- The range is handled unless it has further operations and the receiver has none of its
own in it. -/
theorem handleIncomingSyncRange_new_iff :
    (∃ res, (handleIncomingSyncRange localHeight (rangeMessage store height
        (newOperationDetails op.operationId) c) out state).1 = .ok res) ↔
      visible store height c = [op] ∨
        ∃ x ∈ visible state.store localHeight c, x.operationId ≠ op.operationId := by
  obtain ⟨after, hafter, hothers, -, hiff⟩ := handleIncomingSyncRange_new_eq store height op hget
    hop c hin hmh hb localHeight out state
  have hother : (∃ x ∈ visible after.store localHeight c, x.operationId ≠ op.operationId) ↔
      ∃ x ∈ visible state.store localHeight c, x.operationId ≠ op.operationId := by
    refine exists_congr fun x => ?_
    rw [mem_visible_iff, mem_visible_iff]
    constructor
    · rintro ⟨⟨hx, hrest⟩, hne⟩
      exact ⟨⟨(hothers _ hne) ▸ hx, hrest⟩, hne⟩
    · rintro ⟨⟨hx, hrest⟩, hne⟩
      exact ⟨⟨(hothers _ hne).symm ▸ hx, hrest⟩, hne⟩
  have honly (s : MemoryPendingStore) (h : Option ℕ) (hs : s.getOperation op.operationId = some op)
      (hnone : ¬ ∃ x ∈ visible s h c, x.operationId ≠ op.operationId) : visible s h c = [op] := by
    have hmem := mem_visible_new s h op hs hop c hin
    have hall : ∀ x ∈ visible s h c, x = op := by
      intro x hx
      obtain ⟨hgetx, -, -⟩ := (mem_visible_iff s h c x).mp hx
      have hid : x.operationId = op.operationId := by
        by_contra hne
        exact hnone ⟨x, hx, hne⟩
      rw [hid, hs] at hgetx
      exact (Option.some.inj hgetx).symm
    have hone := List.eq_replicate_of_mem hall
    have hlen := List.count_eq_one_of_mem (visible_nodup s h c) hmem
    rw [hone, List.count_replicate_self] at hlen
    rw [hone, hlen]
    rfl
  rw [hiff, hother]
  constructor
  · rintro (⟨-, hlen⟩ | h)
    · by_cases h : ∃ x ∈ visible state.store localHeight c, x.operationId ≠ op.operationId
      · exact Or.inr h
      · have hlocal := honly after.store localHeight hafter (hother.not.mpr h)
        rw [hlocal, List.length_singleton] at hlen
        obtain ⟨x, hx⟩ := List.length_eq_one_iff.mp hlen.symm
        have hmem := mem_visible_new store height op hget hop c hin
        rw [hx, List.mem_singleton] at hmem
        exact Or.inl (hmem ▸ hx)
    · exact Or.inr h
  · rintro (hstore | h)
    · by_cases h : ∃ x ∈ visible state.store localHeight c, x.operationId ≠ op.operationId
      · exact Or.inr h
      · rw [honly after.store localHeight hafter (hother.not.mpr h), hstore]
        exact Or.inl ⟨rfl, rfl⟩
    · exact Or.inr h

end Handle

end First

/-- The operations the sender has after the new one. -/
def newerOperations (store : MemoryPendingStore) (height : Option ℕ) (id : ℕ) :
    List StoredOperation :=
  visible store height (.excluded id, .unbounded)

/-- Where the first range of the request ends. -/
def firstRangeEnd (max id : ℕ) (newer : List StoredOperation) : Bound :=
  if newer.length ≤ max then .unbounded
  else .included (((newer.map StoredOperation.operationId).take max).getLastD id)

/-- The first range ends at the new operation or after it. -/
theorem firstRangeEnd_allows (store : MemoryPendingStore) (height : Option ℕ) (id max : ℕ) :
    (firstRangeEnd max id (newerOperations store height id)).upperAllows id = true := by
  rw [firstRangeEnd]
  split_ifs with hlen
  · rfl
  · simp only [Bound.upperAllows, decide_eq_true_eq]
    cases htake : ((newerOperations store height id).map StoredOperation.operationId).take max with
    | nil => exact le_refl _
    | cons y l =>
      have hy : y ∈ (newerOperations store height id).map StoredOperation.operationId :=
        List.mem_of_mem_take (htake ▸ List.mem_cons_self)
      obtain ⟨x, hx, rfl⟩ := List.mem_map.mp hy
      obtain ⟨-, hinx, -⟩ := (mem_visible_iff store height _ x).mp hx
      have hlt : id < x.operationId := by
        simpa [inRange, Bound.lowerAllows, Bound.upperAllows] using hinx
      have hsorted : ((newerOperations store height id).map
          StoredOperation.operationId).Pairwise (· < ·) :=
        List.pairwise_map.mpr (visible_sorted store height _)
      have hle := le_getLastD_of_sorted _ (htake ▸ hsorted.take) id x.operationId
        List.mem_cons_self
      omega

section FirstRange
variable (store : MemoryPendingStore) (height : Option ℕ) (op : StoredOperation)
  (hget : store.getOperation op.operationId = some op) (hop : op.commitStatus = .unknown)

include hget hop

/-- From the new operation on, the store has it and the newer ones. -/
theorem visible_from_new : visible store height (.included op.operationId, .unbounded) =
    op :: newerOperations store height op.operationId := by
  have hin : inRange (.included op.operationId) .unbounded op.operationId = true := by
    simp [inRange, Bound.lowerAllows, Bound.upperAllows]
  have hself := mem_visible_new store height op hget hop
    (.included op.operationId, .unbounded) hin
  apply eq_of_sorted
  · exact visible_sorted store height _
  · refine List.pairwise_cons.mpr ⟨?_, visible_sorted store height _⟩
    intro x hx
    obtain ⟨-, hinx, -⟩ := (mem_visible_iff store height _ x).mp hx
    simpa [inRange, Bound.lowerAllows, Bound.upperAllows] using hinx
  · intro x
    rw [List.mem_cons, newerOperations, mem_visible_iff, mem_visible_iff]
    simp only [inRange, Bound.lowerAllows, Bound.upperAllows, Bool.and_true, decide_eq_true_eq]
    constructor
    · rintro ⟨hx, hle, hallow⟩
      rcases hle.lt_or_eq with hlt | heq
      · exact Or.inr ⟨hx, hlt, hallow⟩
      · rw [← heq, hget] at hx
        exact Or.inl (Option.some.inj hx).symm
    · rintro (rfl | ⟨hx, hlt, hallow⟩)
      · exact ⟨hget, le_refl _, ((mem_visible_iff store height _ x).mp hself).2.2⟩
      · exact ⟨hx, hlt.le, hallow⟩

/-- The range of the new operation has no other exactly when there is no newer one it has
place for. -/
theorem visible_first_iff (max : ℕ) :
    visible store height (.included op.operationId, firstRangeEnd max op.operationId
        (newerOperations store height op.operationId)) = [op] ↔
      (newerOperations store height op.operationId).take max = [] := by
  have hsorted : ((newerOperations store height op.operationId).map
      StoredOperation.operationId).Pairwise (· < ·) :=
    List.pairwise_map.mpr (visible_sorted store height _)
  have hmem (x : StoredOperation) : x ∈ visible store height (.included op.operationId,
      firstRangeEnd max op.operationId (newerOperations store height op.operationId)) ↔
      x ∈ op :: newerOperations store height op.operationId ∧ (firstRangeEnd max op.operationId
        (newerOperations store height op.operationId)).upperAllows x.operationId = true := by
    rw [← visible_from_new store height op hget hop, mem_visible_iff, mem_visible_iff]
    simp only [inRange, Bound.upperAllows, Bool.and_true, Bool.and_eq_true]
    tauto
  have hend := firstRangeEnd_allows store height op.operationId max
  constructor
  · intro hone
    by_contra htake
    -- the first of the newer operations would be in the range
    obtain ⟨x, l, hcons⟩ := List.exists_cons_of_ne_nil htake
    have hx : x ∈ newerOperations store height op.operationId :=
      List.mem_of_mem_take (hcons ▸ List.mem_cons_self)
    have hallow : (firstRangeEnd max op.operationId
        (newerOperations store height op.operationId)).upperAllows x.operationId = true := by
      rw [firstRangeEnd]
      split_ifs with hlen
      · rfl
      · simp only [Bound.upperAllows, decide_eq_true_eq]
        apply le_getLastD_of_sorted _ hsorted.take
        rw [← List.map_take, hcons]
        exact List.mem_map_of_mem List.mem_cons_self
    have hin := (hmem x).mpr ⟨List.mem_cons_of_mem _ hx, hallow⟩
    rw [hone, List.mem_singleton] at hin
    obtain ⟨-, hinx, -⟩ := (mem_visible_iff store height _ x).mp hx
    rw [hin] at hinx
    simp [inRange, Bound.lowerAllows] at hinx
  · intro htake
    apply eq_of_sorted
    · exact visible_sorted store height _
    · exact List.pairwise_singleton _ _
    · intro x
      rw [hmem, List.mem_singleton]
      constructor
      · rintro ⟨hx, hallow⟩
        rcases List.mem_cons.mp hx with rfl | hx
        · rfl
        · exfalso
          rw [firstRangeEnd, ← List.map_take, htake] at hallow
          have hlen : 0 < (newerOperations store height op.operationId).length :=
            List.length_pos_of_mem hx
          rcases List.take_eq_nil_iff.mp htake with rfl | hnil
          · rw [if_neg (by omega)] at hallow
            obtain ⟨-, hinx, -⟩ := (mem_visible_iff store height _ x).mp hx
            simp [inRange, Bound.lowerAllows, Bound.upperAllows] at hinx hallow
            omega
          · rw [hnil] at hx
            contradiction
      · rintro rfl
        exact ⟨List.mem_cons_self, hend⟩

end FirstRange

end Exocore.Engine
