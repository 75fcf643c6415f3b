import Exocore.PendingSyncSpec

/-! The requests that are built from a store, and the handling of the ranges in them. -/
namespace Exocore.Engine

open Exocore.Core Exocore.Chain Exocore.Pending

variable [Crates]

/-- What the multihash crate documents: a multihash reads back from its bytes. -/
def MultihashReadsBack : Prop := ∀ input : Bytes,
  Crates.multihashFromBytes (Crates.multihashToBytes (toMultihash input)) =
    some (toMultihash input)

/-- The range of a store, as the message of a request. -/
def rangeMessage (store : MemoryPendingStore) (height : Option ℕ)
    (details : StoredOperation → OperationDetailsLevel) (c : Bound × Bound) : PendingSyncRange :=
  (describeRange store height details c).writeIntoSyncRangeBuilder

/-- The operations that are sent with these details. -/
def sentWith (level : OperationDetailsLevel) (store : MemoryPendingStore) (height : Option ℕ)
    (details : StoredOperation → OperationDetailsLevel) (c : Bound × Bound) :
    List StoredOperation :=
  (visible store height c).filter fun op => details op = level

section Message
variable (store : MemoryPendingStore) (height : Option ℕ)
  (details : StoredOperation → OperationDetailsLevel) (c : Bound × Bound)

theorem withDetails_visible (level : OperationDetailsLevel) :
    withDetails level ((visible store height c).map fun op => (op, details op)) =
      sentWith level store height details c := by
  rw [withDetails, List.filter_map, List.map_map, sentWith]
  exact List.map_id _

theorem rangeMessage_frames : (rangeMessage store height details c).operationsFrames =
    .ofList ((sentWith .full store height details c).map fun op => some op.frame.wholeData) := by
  rw [← withDetails_visible]
  rfl

theorem rangeMessage_headers : (rangeMessage store height details c).operationsHeaders =
    .ofList ((sentWith .header store height details c).map SyncRangeBuilder.headerMessage) := by
  rw [← withDetails_visible]
  rfl

theorem rangeMessage_count :
    (rangeMessage store height details c).operationsCount = (visible store height c).length := by
  simp [rangeMessage, describeRange, buildRange, SyncRangeBuilder.writeIntoSyncRangeBuilder]

theorem rangeMessage_hash (hmh : MultihashReadsBack) :
    (rangeMessage store height details c).operationsHash.bind Crates.multihashFromBytes =
      some (toMultihash (hashInput (visible store height c))) := by
  simp [rangeMessage, describeRange, buildRange, SyncRangeBuilder.writeIntoSyncRangeBuilder,
    hmh _, Function.comp_def]

theorem extractSyncBounds_rangeMessage (hb : BoundsRead c.1 c.2) :
    (extractSyncBounds (rangeMessage store height details c)).1 = c :=
  Prod.ext hb.lower hb.upper

theorem sentWith_sublist (level : OperationDetailsLevel) :
    (sentWith level store height details c).Sublist (visible store height c) :=
  List.filter_sublist

theorem sentWith_ids_nodup (level : OperationDetailsLevel) :
    ((sentWith level store height details c).map StoredOperation.operationId).Nodup := by
  have hs := (visible_sorted store height c).sublist
    (sentWith_sublist store height details c level)
  exact List.pairwise_map.mpr (hs.imp fun hlt => ne_of_lt hlt)

/-- A hash that was known is written as the range without details. -/
theorem newHashed_write : (SyncRangeBuilder.newHashed c
      (toMultihash (hashInput (visible store height c)))
      (visible store height c).length).writeIntoSyncRangeBuilder =
    rangeMessage store height (fun _ => .none) c := by
  have hnone (level : OperationDetailsLevel) (hl : level ≠ .none) :
      withDetails level ((visible store height c).map fun op => (op, .none)) = [] := by
    rw [withDetails_visible, sentWith]
    simp [hl.symm]
  rw [rangeMessage, describeRange, buildRange, hnone .full (by simp), hnone .header (by simp)]
  simp [SyncRangeBuilder.writeIntoSyncRangeBuilder, SyncRangeBuilder.newHashed,
    Function.comp_def]

/-- The full operations of a range are stored, then the range is compared. -/
theorem handleIncomingSyncRange_eq (localHeight : Option ℕ) (out : SyncRangesBuilder)
    (state : PendingState)
    (hordered : ¬ ((rangeMessage store height details c).toOperation ≠ 0 ∧
      (rangeMessage store height details c).toOperation <
        (rangeMessage store height details c).fromOperation)) :
    ∃ included after, Stored state after (sentWith .full store height details c) ∧
      (∀ id, id ∈ included ↔
        id ∈ (sentWith .full store height details c).map StoredOperation.operationId) ∧
      handleIncomingSyncRange localHeight (rangeMessage store height details c) out state =
        (compareRange after.store localHeight (rangeMessage store height details c) included out,
          after) := by
  have hreads : ∀ op ∈ sentWith .full store height details c, OperationReads op := fun op hop =>
    visible_reads store height c op ((sentWith_sublist store height details c .full).subset hop)
  obtain ⟨included, after, hstore, hstored, hmem⟩ := storeIncludedOperations_stored
    (sentWith .full store height details c) [] state hreads
    (sentWith_ids_nodup store height details c .full)
  refine ⟨included, after, hstored, by simpa using hmem, ?_⟩
  simp only [handleIncomingSyncRange, if_neg hordered, rangeMessage_frames, ListPointer.get_ofList,
    Action.lift_ok_bind]
  rw [Action.bind_of_ok _ _ state after included hstore]
  rfl

end Message

/-- The request of a range that has no end describes the ranges it is cut into. -/
theorem createSyncRequestForRange_eq (p : PendingSynchronizer) (syncContext : SyncContext)
    (store : MemoryPendingStore) (lo : Bound)
    (details : StoredOperation → OperationDetailsLevel) :
    ∃ cuts, cuts = cutsOf p.config.maxOperationsPerRange .unbounded lo 0 0
        ((visible store (p.getFromBlockHeight syncContext none) (lo, .unbounded)).map
          StoredOperation.operationId) ∧
      Cuts p.config.maxOperationsPerRange lo .unbounded cuts ∧
      p.createSyncRequestForRange syncContext store (lo, .unbounded) details =
        .ok ⟨.list (cuts.map (rangeMessage store (p.getFromBlockHeight syncContext none) details)),
          (p.getFromBlockHeight syncContext none).getD 0⟩ := by
  obtain ⟨pushed, cuts, hpushed, hcutsOf, hcuts, hclosed⟩ := pushOperations_visible
    (SyncRangesBuilder.new p.config) store (p.getFromBlockHeight syncContext none) details
    (lo, .unbounded)
  refine ⟨cuts, hcutsOf, hcuts, ?_⟩
  have hnoPanic : rangePanics lo .unbounded = false := by cases lo <;> rfl
  simp only at hpushed hclosed
  simp only [PendingSynchronizer.createSyncRequestForRange,
    operationsIterFromHeight_eq store _ (lo, .unbounded) (fun _ => hnoPanic), ok_bind, hpushed,
    hclosed, writeRequest]
  simp only [SyncRangesBuilder.new, List.nil_append, List.map_map, pure, Except.pure]
  rfl

/-- The ranges of a request are handled one after the other. -/
theorem handleIncomingSyncRangesLoop_cons_ok (height : Option ℕ) (range : PendingSyncRange)
    (rest : List PendingSyncRange) (changes changed : Bool) (out out' : SyncRangesBuilder)
    (state mid : PendingState)
    (h : handleIncomingSyncRange height range out state = (.ok (changed, out'), mid)) :
    handleIncomingSyncRangesLoop height (range :: rest) changes out state =
      handleIncomingSyncRangesLoop height rest (changes || changed) out' mid := by
  rw [handleIncomingSyncRangesLoop, Action.bind_of_ok _ _ state mid _ h]

theorem handleIncomingSyncRangesLoop_cons_error (height : Option ℕ) (range : PendingSyncRange)
    (rest : List PendingSyncRange) (changes : Bool) (out : SyncRangesBuilder)
    (state mid : PendingState) (e : Fault EngineError)
    (h : handleIncomingSyncRange height range out state = (.error e, mid)) :
    handleIncomingSyncRangesLoop height (range :: rest) changes out state = (.error e, mid) := by
  rw [handleIncomingSyncRangesLoop, Action.bind_of_error _ _ state mid _ h]

/-- A request is answered when its ranges differ, and fails when the handling of them does. -/
theorem handleIncomingSyncRequest_eq (q : PendingSynchronizer) (node : NodeId)
    (ranges : List PendingSyncRange) (requestHeight : ℕ) (state : PendingState)
    (height : Option ℕ) (hheight : q.getFromBlockHeight state.syncContext
      (some ⟨.list ranges, requestHeight⟩) = height) :
    q.handleIncomingSyncRequest node (some ⟨.list ranges, requestHeight⟩) state =
      match handleIncomingSyncRangesLoop height ranges false (.new q.config) state with
      | (.ok (some out), after) => (.ok (), ⟨after.syncContext.pushPendingSyncRequest node
          (writeRequest out.ranges height), after.store⟩)
      | (.ok none, after) => (.ok (), after)
      | (.error e, after) => (.error e, after) := by
  subst hheight
  rw [PendingSynchronizer.handleIncomingSyncRequest, orError_some, Action.lift_ok_bind,
    Action.get_bind, ListPointer.get, Action.lift_ok_bind, Action.bind_apply,
    PendingSynchronizer.handleIncomingSyncRanges]
  rcases handleIncomingSyncRangesLoop (q.getFromBlockHeight state.syncContext
        (some ⟨.list ranges, requestHeight⟩)) ranges false (.new q.config) state with
    ⟨_ | (_ | out), after⟩
  · rfl
  · rfl
  · rfl

end Exocore.Engine
