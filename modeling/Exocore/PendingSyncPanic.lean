import Exocore.ChainReceived
import Exocore.PendingSync

/-! Calls of the pending synchronizer that do not panic, and the sync requests that it gets through
without a panic. -/
namespace Exocore.Engine

open Exocore.Core Exocore.Chain Exocore.Pending

theorem noPanic_listPointer_get {A : Type} (p : ListPointer A) : NoPanic p.get := by
  cases p with
  | null => exact noPanic_ok _
  | malformed => exact noPanic_error _
  | list items => exact noPanic_ok _

section PendingCalls
variable [Crates]

theorem noPanic_putOperation (store : MemoryPendingStore) (operation : NewOperation) :
    NoPanic (store.putOperation operation) := by
  unfold MemoryPendingStore.putOperation
  split
  · exact noPanic_error _
  · split
    · exact noPanic_error _
    · exact noPanic_ok _

theorem noPanic_putOperation_action (operation : NewOperation) (s : PendingState) :
    NoPanic (putOperation operation s).1 := by
  have hput := noPanic_putOperation s.store operation
  rw [putOperation]
  split
  · exact noPanic_ok _
  · rename_i e he
    rw [he] at hput
    cases e with
    | error e => exact noPanic_error _
    | panic => exact absurd rfl hput

/-- The last range is only closed by an operation, at its id. -/
def LastEnds (b : SyncRangesBuilder) : Prop :=
  ∀ last, b.ranges.getLast? = some last → 0 < last.operationsCount →
    ∃ id, last.toOperation = .included id

/-- A new range is pushed before the operations that go into it. -/
theorem lastEnds_pushNewRange (b : SyncRangesBuilder) (fromBound : Bound) :
    LastEnds (b.pushNewRange fromBound) := by
  intro last hlast hcount
  simp only [SyncRangesBuilder.pushNewRange, SyncRangesBuilder.pushRange, List.getLast?_concat,
    Option.some.injEq] at hlast
  rw [← hlast] at hcount
  exact absurd hcount (Nat.lt_irrefl 0)

theorem pushOperation_lastEnds (b : SyncRangesBuilder) (h : LastEnds b) (operation : StoredOperation)
    (details : OperationDetailsLevel) :
    ∃ b', b.pushOperation operation details = .ok b' ∧ LastEnds b' := by
  have hclosed (ready : SyncRangesBuilder) :
      LastEnds (ready.updateLast fun range => range.pushOperation operation details) := by
    intro last hlast _
    simp only [SyncRangesBuilder.updateLast] at hlast
    split at hlast
    · rename_i hnone
      rw [hnone] at hlast
      contradiction
    · rw [List.getLast?_concat] at hlast
      rw [← Option.some.inj hlast]
      exact ⟨operation.operationId, rfl⟩
  unfold SyncRangesBuilder.pushOperation
  cases hranges : b.ranges.getLast? with
  | none => exact ⟨_, rfl, hclosed _⟩
  | some last =>
    simp only
    split_ifs with hfull
    · obtain ⟨id, hid⟩ := h last hranges (by omega)
      simp only [hid]
      exact ⟨_, rfl, hclosed _⟩
    · exact ⟨_, rfl, hclosed _⟩

theorem pushOperations_isOk (operations : List (StoredOperation × OperationDetailsLevel))
    (b : SyncRangesBuilder) (h : LastEnds b) : ∃ b', b.pushOperations operations = .ok b' := by
  induction operations generalizing b with
  | nil => exact ⟨b, rfl⟩
  | cons operation rest ih =>
    obtain ⟨b', hpush, hb'⟩ := pushOperation_lastEnds b h operation.1 operation.2
    rw [SyncRangesBuilder.pushOperations, hpush, ok_bind]
    exact ih b' hb'

variable (p : PendingSynchronizer)

theorem createSyncRequestForRange_isOk (context : SyncContext) (store : MemoryPendingStore)
    (lo : Bound) (details : StoredOperation → OperationDetailsLevel) :
    ∃ request, p.createSyncRequestForRange context store (lo, .unbounded) details = .ok request := by
  have hrange : rangePanics lo .unbounded = false := by cases lo <;> rfl
  have hfirst := lastEnds_pushNewRange (SyncRangesBuilder.new p.config) lo
  simp only [PendingSynchronizer.createSyncRequestForRange, operationsIterFromHeight,
    store.operationsIter_eq lo .unbounded fun _ => hrange, liftError_ok, ok_bind]
  obtain ⟨b, hb⟩ := pushOperations_isOk _ _ hfirst
  exact ⟨_, by rw [pure_bind, hb, ok_bind]; rfl⟩

theorem sendNewOperation_isOk (operationId : ℕ) (nodes : List NodeId) (st : PendingState) :
    (p.sendNewOperation operationId nodes st).1 = .ok () := by
  induction nodes generalizing st with
  | nil => rfl
  | cons node rest ih =>
    obtain ⟨request, hrequest⟩ := createSyncRequestForRange_isOk p st.syncContext st.store
      (.included operationId) (PendingSynchronizer.newOperationDetails operationId)
    rw [PendingSynchronizer.sendNewOperation, Action.get_bind, hrequest, Action.lift_ok_bind]
    exact ih _

theorem noPanic_handleNewOperation (operation : NewOperation) (st : PendingState) :
    NoPanic (p.handleNewOperation operation st).1 := by
  apply noPanic_lift_bind
  · rw [noPanic_liftError]
    exact noPanic_orError _ _
  intro reader _
  apply noPanic_action_bind _ _ _ (noPanic_putOperation_action operation st)
  intro _ st' _
  apply noPanic_action_bind
  · exact noPanic_ok _
  intro _ st'' _
  rw [sendNewOperation_isOk]
  exact noPanic_ok _

end PendingCalls

section Ranges
variable [Crates]

/-- The range is refused, as its numbers are the wrong way round. -/
def IsReversed (range : PendingSyncRange) : Prop :=
  range.toOperation ≠ 0 ∧ range.toOperation < range.fromOperation

instance (range : PendingSyncRange) : Decidable (IsReversed range) :=
  inferInstanceAs (Decidable (_ ∧ _))

/-- Either the end is the id 0 itself, which is not after the start, or the start and the end are
one id that is in neither. -/
def UnfitBounds (range : PendingSyncRange) : Prop :=
  (range.toOperation = 0 ∧ range.toIncluded = true ∧ range.fromOperation ≠ 0) ∨
    (range.fromOperation = range.toOperation ∧ range.fromOperation ≠ 0 ∧
      range.fromIncluded = false ∧ range.toIncluded = false)

omit [Crates] in
theorem rangePanics_iff (range : PendingSyncRange) (h : ¬ IsReversed range) :
    rangePanics (extractSyncBounds range).1.1 (extractSyncBounds range).1.2 = true ↔
      UnfitBounds range := by
  obtain ⟨fromOp, fromIncluded, toOp, toIncluded, _, _, _, _⟩ := range
  unfold IsReversed at h
  unfold UnfitBounds extractSyncBounds
  dsimp only at h ⊢
  revert h
  -- a number is no bound, or stands for itself
  cases fromIncluded <;> cases toIncluded <;> cases fromOp <;> cases toOp <;>
    (simp [readBound, rangePanics]; try omega)

/-- The operations that come with the range are stored. -/
def TakesIn (range : PendingSyncRange) (s : PendingState) (included : List ℕ) (s' : PendingState) :
    Prop :=
  ¬ IsReversed range ∧ ∃ frames, range.operationsFrames.get = .ok frames ∧
    storeIncludedOperations frames [] s = (.ok included, s')

/-- No range has unfit bounds, of those that are compared with a timeline that was ever filled: the
ones before it and the operations that come with it are all right. -/
def RangesFit (operationsFromHeight : Option ℕ) :
    List PendingSyncRange → SyncRangesBuilder → PendingState → Prop
  | [], _, _ => True
  | range :: rest, out, s => ∀ included s', TakesIn range s included s' →
    (s'.store.timelineFilled = true → ¬ UnfitBounds range) ∧
      ∀ changed out', compareRange s'.store operationsFromHeight range included out =
        .ok (changed, out') → RangesFit operationsFromHeight rest out' s'

theorem noPanic_storeIncludedOperations (frames : List (Option Bytes)) (included : List ℕ)
    (s : PendingState) : NoPanic (storeIncludedOperations frames included s).1 := by
  induction frames generalizing included s with
  | nil => exact noPanic_ok _
  | cons frameRes rest ih =>
    rw [storeIncludedOperations]
    apply noPanic_lift_bind _ _ _ (noPanic_orError _ _)
    intro data _
    apply noPanic_lift_bind
    · rw [noPanic_liftError]
      exact noPanic_readOperationFrame data
    intro frame _
    apply noPanic_lift_bind _ _ _ (noPanic_orError _ _)
    intro reader _
    apply noPanic_action_bind _ _ _ (noPanic_putOperation_action _ _)
    intro existed s' _
    split_ifs
    · exact ih _ _
    · apply noPanic_action_bind _ _ _ (noPanic_ok _)
      intro _ s'' _
      exact ih _ _

theorem noPanic_diffLoop (included : List ℕ)
    (merged : List (Merge.EitherOrBoth OperationHeaderMessage StoredOperation)) (difference : Bool)
    (out : SyncRangesBuilder) (h : LastEnds out) :
    NoPanic (diffLoop included merged difference out) := by
  induction merged generalizing difference out with
  | nil => exact noPanic_ok _
  | cons e rest ih =>
    have hpush (op : StoredOperation) (details : OperationDetailsLevel) (d : Bool) :
        NoPanic (out.pushOperation op details >>= fun out' => diffLoop included rest d out') := by
      obtain ⟨out', heq, hout'⟩ := pushOperation_lastEnds out h op details
      rw [heq, ok_bind]
      exact ih d out' hout'
    cases e with
    | left remote => exact ih true out h
    | right localOp =>
      rw [diffLoop]
      split_ifs
      · exact hpush localOp .header difference
      · exact hpush localOp .full true
    | both remote localOp => exact hpush localOp .header difference

theorem noPanic_answerRange (out : SyncRangesBuilder) (h : LastEnds out) (range : PendingSyncRange)
    (included : List ℕ) (operations : List StoredOperation) :
    NoPanic (answerRange out range included operations) := by
  have hall (details : OperationDetailsLevel) :
      NoPanic (out.pushOperations (operations.map fun op => (op, details))) := by
    obtain ⟨out', heq⟩ := pushOperations_isOk (operations.map fun op => (op, details)) out h
    rw [heq]
    exact noPanic_ok _
  unfold answerRange
  split_ifs
  · exact hall .full
  · exact hall .header
  · apply noPanic_bind _ _ (noPanic_listPointer_get _)
    intro remote _
    apply noPanic_bind _ _ (noPanic_diffLoop included _ false out h)
    rintro ⟨difference, out'⟩ _
    dsimp only
    split_ifs
    · exact noPanic_pure _
    · exact noPanic_error _

/-- The comparison panics on the bounds of the range, and nowhere else. -/
theorem noPanic_compareRange_iff (store : MemoryPendingStore) (operationsFromHeight : Option ℕ)
    (range : PendingSyncRange) (included : List ℕ) (out : SyncRangesBuilder) :
    NoPanic (compareRange store operationsFromHeight range included out) ↔
      (store.timelineFilled = true →
        rangePanics (extractSyncBounds range).1.1 (extractSyncBounds range).1.2 = false) := by
  have hiter (lo hi : Bound) : (store.timelineFilled = true → rangePanics lo hi = false) →
      NoPanic (operationsIterFromHeight store (lo, hi) operationsFromHeight) := by
    intro hfit
    rw [operationsIterFromHeight, store.operationsIter_eq lo hi hfit, liftError_ok, ok_bind]
    exact noPanic_pure _
  constructor
  · intro h hfilled
    by_contra hpanics
    rw [Bool.not_eq_false] at hpanics
    have hlocal : localStoreRangeInfo store (extractSyncBounds range).1 operationsFromHeight =
        .error .panic := by
      rw [localStoreRangeInfo, operationsIterFromHeight, MemoryPendingStore.operationsIter,
        if_pos hfilled, if_pos hpanics]
      rfl
    rw [compareRange, hlocal] at h
    exact h rfl
  · intro hfit
    unfold compareRange
    apply noPanic_bind
    · exact noPanic_bind _ _ (hiter _ _ hfit) fun _ _ => noPanic_pure _
    rintro ⟨localHash, localCount⟩ _
    apply noPanic_bind _ _ (noPanic_orError _ _)
    intro remoteHashBytes _
    apply noPanic_bind _ _ (noPanic_orError _ _)
    intro remoteHash _
    split_ifs
    · exact noPanic_pure _
    · apply noPanic_bind _ _ (hiter _ _ hfit)
      intro operations _
      apply noPanic_bind _ _ (noPanic_answerRange _ (lastEnds_pushNewRange out _) _ _ _)
      exact fun _ _ => noPanic_pure _

/-- A range is refused, or its operations cannot be stored, or it is compared with the store. -/
theorem handleIncomingSyncRange_cases (operationsFromHeight : Option ℕ) (range : PendingSyncRange)
    (out : SyncRangesBuilder) (s : PendingState) :
    (∃ e s', handleIncomingSyncRange operationsFromHeight range out s = (.error (.error e), s') ∧
        ∀ included s', ¬ TakesIn range s included s') ∨
      ∃ included s', TakesIn range s included s' ∧
        handleIncomingSyncRange operationsFromHeight range out s =
          (compareRange s'.store operationsFromHeight range included out, s') := by
  unfold handleIncomingSyncRange
  split_ifs with hreversed
  · exact Or.inl ⟨_, s, rfl, fun _ _ hstored => hstored.1 hreversed⟩
  · have hget := noPanic_listPointer_get range.operationsFrames
    cases hframes : range.operationsFrames.get with
    | error e =>
      rw [hframes] at hget
      cases e with
      | panic => exact absurd rfl hget
      | error e =>
        rw [Action.lift_error_bind]
        refine Or.inl ⟨e, s, rfl, ?_⟩
        rintro _ _ ⟨-, frames, heq, -⟩
        rw [hframes] at heq
        contradiction
    | ok frames =>
      rw [Action.lift_ok_bind]
      have hstore := noPanic_storeIncludedOperations frames [] s
      rcases hstored : storeIncludedOperations frames [] s with ⟨r, s'⟩
      rw [hstored] at hstore
      cases r with
      | error e =>
        cases e with
        | panic => exact absurd rfl hstore
        | error e =>
          refine Or.inl ⟨e, s', ?_, ?_⟩
          · rw [Action.bind_apply, hstored]
          · rintro included s'' ⟨-, frames', heq, hstored'⟩
            rw [hframes] at heq
            obtain rfl := Except.ok.inj heq
            rw [hstored] at hstored'
            exact absurd (congrArg Prod.fst hstored') (by simp)
      | ok included =>
        refine Or.inr ⟨included, s', ⟨hreversed, frames, hframes, hstored⟩, ?_⟩
        rw [Action.bind_of_ok _ _ _ _ _ hstored, Action.get_bind]
        rfl

theorem takesIn_unique (range : PendingSyncRange) (s : PendingState) (included included' : List ℕ)
    (s' s'' : PendingState) (h : TakesIn range s included s') (h' : TakesIn range s included' s'') :
    included = included' ∧ s' = s'' := by
  obtain ⟨-, frames, hframes, hstored⟩ := h
  obtain ⟨-, frames', hframes', hstored'⟩ := h'
  rw [hframes] at hframes'
  obtain rfl := Except.ok.inj hframes'
  rw [hstored] at hstored'
  obtain ⟨hok, hstate⟩ := Prod.mk.inj hstored'
  exact ⟨Except.ok.inj hok, hstate⟩

theorem noPanic_handleIncomingSyncRangesLoop_iff (operationsFromHeight : Option ℕ)
    (ranges : List PendingSyncRange) (changes : Bool) (out : SyncRangesBuilder) (s : PendingState) :
    NoPanic (handleIncomingSyncRangesLoop operationsFromHeight ranges changes out s).1 ↔
      RangesFit operationsFromHeight ranges out s := by
  induction ranges generalizing changes out s with
  | nil => exact ⟨fun _ => trivial, fun _ => noPanic_ok _⟩
  | cons range rest ih =>
    rw [handleIncomingSyncRangesLoop, RangesFit]
    rcases handleIncomingSyncRange_cases operationsFromHeight range out s with
      ⟨e, s', hrange, hnot⟩ | ⟨included, s', hstored, hrange⟩
    · rw [Action.bind_apply, hrange]
      exact ⟨fun _ included s'' hstored => absurd hstored (hnot included s''),
        fun _ => noPanic_error _⟩
    · have hbounds : rangePanics (extractSyncBounds range).1.1 (extractSyncBounds range).1.2 =
          false ↔ ¬ UnfitBounds range := by
        rw [← rangePanics_iff range hstored.1, Bool.not_eq_true]
      have hcompare := noPanic_compareRange_iff s'.store operationsFromHeight range included out
      rw [hbounds] at hcompare
      rw [Action.bind_apply, hrange]
      cases hresult : compareRange s'.store operationsFromHeight range included out with
      | error e =>
        rw [hresult] at hcompare
        constructor
        · intro h included' s'' hstored'
          obtain ⟨rfl, rfl⟩ := takesIn_unique range s _ _ _ _ hstored hstored'
          refine ⟨hcompare.mp (noPanic_error_of e h), ?_⟩
          intro changed out' heq
          rw [hresult] at heq
          contradiction
        · intro hfit
          obtain ⟨hunfit, -⟩ := hfit included s' hstored
          exact noPanic_error_of e (hcompare.mpr hunfit)
      | ok result =>
        obtain ⟨changed, out'⟩ := result
        rw [hresult] at hcompare
        have hunfit := hcompare.mp (noPanic_ok _)
        have hrest := ih (changes || changed) out' s'
        constructor
        · intro h included' s'' hstored'
          obtain ⟨rfl, rfl⟩ := takesIn_unique range s _ _ _ _ hstored hstored'
          refine ⟨hunfit, ?_⟩
          intro changed' out'' heq
          rw [hresult] at heq
          obtain ⟨rfl, rfl⟩ := Prod.mk.inj (Except.ok.inj heq)
          exact hrest.mp h
        · intro hfit
          exact hrest.mpr ((hfit included s' hstored).2 changed out' hresult)

end Ranges

section Samples

local instance panicCrates : Crates := entryTables.crates

/-- A request for the operations of one range, from a node that has none. -/
def requestOf (fromOp : ℕ) (fromIncluded : Bool) (toOp : ℕ) (toIncluded : Bool) :
    PendingSyncRequest :=
  ⟨.list [⟨fromOp, fromIncluded, toOp, toIncluded, none, 0, .null, .null⟩], 0⟩

end Samples

end Exocore.Engine
