import Exocore.PendingSyncBuild

/-! One lemma for each step of the handling of a range. -/
namespace Exocore.Engine

open Exocore.Core Exocore.Chain Exocore.Pending Merge SortedMap

variable [Crates]

/-- The operations of a range that are not before the height. -/
def visible (store : MemoryPendingStore) (height : Option ℕ) (c : Bound × Bound) :
    List StoredOperation :=
  store.operations.filter fun op =>
    inRange c.1 c.2 op.operationId && fromHeightAllows height op

theorem operationsIterFromHeight_eq (store : MemoryPendingStore) (height : Option ℕ)
    (c : Bound × Bound) (hc : store.timelineFilled = true → rangePanics c.1 c.2 = false) :
    operationsIterFromHeight store c height = .ok (visible store height c) := by
  rw [operationsIterFromHeight, store.operationsIter_eq c.1 c.2 hc, liftError_ok, ok_bind, visible]
  simp only [pure, Except.pure, List.filter_filter, Bool.and_comm]

theorem mem_visible_iff (store : MemoryPendingStore) (height : Option ℕ) (c : Bound × Bound)
    (op : StoredOperation) : op ∈ visible store height c ↔
      store.getOperation op.operationId = some op ∧ inRange c.1 c.2 op.operationId = true ∧
        fromHeightAllows height op = true := by
  rw [visible, List.mem_filter, store.mem_operations_iff, Bool.and_eq_true]

theorem visible_sorted (store : MemoryPendingStore) (height : Option ℕ) (c : Bound × Bound) :
    (visible store height c).Pairwise fun a b => a.operationId < b.operationId :=
  store.operations_sorted.filter _

theorem nodup_of_sorted (l : List StoredOperation)
    (hl : l.Pairwise fun a b => a.operationId < b.operationId) : l.Nodup := by
  refine hl.imp ?_
  intro a b hlt heq
  rw [heq] at hlt
  exact lt_irrefl _ hlt

/-- Operations in the order of their ids are determined by which they are. -/
theorem eq_of_sorted (l l' : List StoredOperation)
    (hl : l.Pairwise fun a b => a.operationId < b.operationId)
    (hl' : l'.Pairwise fun a b => a.operationId < b.operationId)
    (hmem : ∀ op, op ∈ l ↔ op ∈ l') : l = l' := by
  have hperm : l.Perm l' :=
    (List.perm_ext_iff_of_nodup (nodup_of_sorted l hl) (nodup_of_sorted l' hl')).mpr hmem
  have hanti : ∀ a b : StoredOperation, a ∈ l → b ∈ l' → a.operationId < b.operationId →
      b.operationId < a.operationId → a = b := by
    intro a b _ _ hab hba
    omega
  exact List.Perm.eq_of_pairwise hanti hl hl' hperm

theorem visible_nodup (store : MemoryPendingStore) (height : Option ℕ) (c : Bound × Bound) :
    (visible store height c).Nodup :=
  nodup_of_sorted _ (visible_sorted store height c)

/-- The same operations in the range, the same visible ones. -/
theorem visible_congr (s t : MemoryPendingStore) (height : Option ℕ) (c : Bound × Bound)
    (h : ∀ id, inRange c.1 c.2 id = true → s.getOperation id = t.getOperation id) :
    visible s height c = visible t height c := by
  apply eq_of_sorted
  · exact visible_sorted s height c
  · exact visible_sorted t height c
  · intro op
    rw [mem_visible_iff, mem_visible_iff]
    constructor
    · rintro ⟨hget, hin, hallow⟩
      exact ⟨h _ hin ▸ hget, hin, hallow⟩
    · rintro ⟨hget, hin, hallow⟩
      exact ⟨(h _ hin).symm ▸ hget, hin, hallow⟩

/-- The range of a store as it is described to another node. -/
def describeRange (store : MemoryPendingStore) (height : Option ℕ)
    (details : StoredOperation → OperationDetailsLevel) (c : Bound × Bound) : SyncRangeBuilder :=
  buildRange c.1 c.2 ((visible store height c).map fun op => (op, details op))

theorem between_visible (store : MemoryPendingStore) (height : Option ℕ)
    (details : StoredOperation → OperationDetailsLevel) (c whole : Bound × Bound)
    (hin : ∀ id, inRange c.1 c.2 id = true → inRange whole.1 whole.2 id = true) :
    between c ((visible store height whole).map fun op => (op, details op)) =
      (visible store height c).map fun op => (op, details op) := by
  rw [between, List.filter_map, visible, List.filter_filter, visible]
  congr 1
  apply List.filter_congr
  intro op _
  by_cases hc : inRange c.1 c.2 op.operationId = true
  · simp [hc, hin _ hc]
  · simp [hc]

/-- Pushing the operations of a range describes the ranges it is cut into. -/
theorem pushOperations_visible (out : SyncRangesBuilder) (store : MemoryPendingStore)
    (height : Option ℕ) (details : StoredOperation → OperationDetailsLevel) (c : Bound × Bound) :
    ∃ pushed cuts, (out.pushNewRange c.1).pushOperations
        ((visible store height c).map fun op => (op, details op)) = .ok pushed ∧
      cuts = cutsOf out.config.maxOperationsPerRange c.2 c.1 0 0
        ((visible store height c).map StoredOperation.operationId) ∧
      Cuts out.config.maxOperationsPerRange c.1 c.2 cuts ∧
      pushed.setLastRangeToBound c.2 =
        ⟨out.config, out.ranges ++ cuts.map (describeRange store height details)⟩ := by
  have hs : ((visible store height c).map fun op => (op, details op)).Pairwise
      fun a b => a.1.operationId < b.1.operationId :=
    List.pairwise_map.mpr (visible_sorted store height c)
  have hin : ∀ item ∈ (visible store height c).map fun op => (op, details op),
      inRange c.1 c.2 item.1.operationId = true := by
    intro item hitem
    obtain ⟨op, hop, rfl⟩ := List.mem_map.mp hitem
    exact ((mem_visible_iff store height c op).mp hop).2.1
  obtain ⟨pushed, cuts, hpushed, hcutsOf, hcuts, hclosed⟩ :=
    pushOperations_new out c.1 c.2 _ hs hin
  refine ⟨pushed, cuts, hpushed, by rw [hcutsOf, List.map_map]; rfl, hcuts, ?_⟩
  rw [hclosed, List.map_congr_left]
  intro cut hcut
  rw [between_visible store height details cut c (cuts_inside _ _ _ cuts hcuts cut hcut)]
  rfl

/-- What the diff sends of an operation of its own store. -/
def diffDetails (remoteIds included : List ℕ) (op : StoredOperation) : OperationDetailsLevel :=
  if op.operationId ∈ remoteIds ∨ op.operationId ∈ included then .header else .full

/-- The diff sees a difference: an operation only the remote has, or one it was not sent. -/
def Differs (remoteIds included : List ℕ) (localOps : List StoredOperation) : Prop :=
  (∃ id ∈ remoteIds, id ∉ localOps.map StoredOperation.operationId) ∨
    ∃ op ∈ localOps, op.operationId ∉ remoteIds ∧ op.operationId ∉ included

/-- The details by which the loop pushes what it joined. -/
def joinedItem (included : List ℕ) (joined : StoredOperation × Bool) : Item :=
  (joined.1, if joined.2 = true ∧ joined.1.operationId ∉ included then .full else .header)

theorem diffLoop_eq (included : List ℕ)
    (merged : List (EitherOrBoth OperationHeaderMessage StoredOperation)) (difference : Bool)
    (out : SyncRangesBuilder) :
    diffLoop included merged difference out = (do
      let out' ← out.pushOperations ((seconds merged).map (joinedItem included))
      pure (difference || anyLeft merged ||
        (seconds merged).any fun j => j.2 && decide (j.1.operationId ∉ included), out')) := by
  induction merged generalizing difference out with
  | nil => simp [diffLoop, seconds, anyLeft, SyncRangesBuilder.pushOperations, pure, Except.pure]
  | cons e rest ih =>
    cases e with
    | left a => simp [diffLoop, seconds, anyLeft, ih]
    | right op =>
      by_cases hop : op.operationId ∈ included
      · simp [diffLoop, seconds, anyLeft, joinedItem, SyncRangesBuilder.pushOperations, hop, ih]
      · simp [diffLoop, seconds, anyLeft, joinedItem, SyncRangesBuilder.pushOperations, hop, ih]
    | both a op =>
      simp [diffLoop, seconds, anyLeft, joinedItem, SyncRangesBuilder.pushOperations, ih]

section Diff
variable (out : SyncRangesBuilder) (included : List ℕ) (remote : List OperationHeaderMessage)
  (localOps : List StoredOperation)
  (hr : remote.Pairwise fun a b => a.operationId < b.operationId)
  (hl : localOps.Pairwise fun a b => a.operationId < b.operationId)

include hr hl

/-- On sorted lists the diff pushes all the operations, and fails where nothing differs. -/
theorem diffLocalRemoteRange_eq :
    diffLocalRemoteRange out included remote localOps = (do
      let out' ← out.pushOperations (localOps.map fun op =>
        (op, diffDetails (remote.map OperationHeaderMessage.operationId) included op))
      if anyLeft (mergeJoinBy OperationHeaderMessage.operationId StoredOperation.operationId remote
          localOps) || localOps.any fun op => decide (op.operationId ∉
            remote.map OperationHeaderMessage.operationId ∧ op.operationId ∉ included) then
        pure out'
      else .error (.error (.pendingSync (.invalidSyncState noChangesMessage)))) := by
  have hseconds := seconds_mergeJoinBy OperationHeaderMessage.operationId
    StoredOperation.operationId remote localOps hr hl
  rw [diffLocalRemoteRange]
  simp only [diffLoop_eq, hseconds, List.map_map, bind_assoc, pure_bind, List.any_map]
  congr 1
  · congr 1
    apply List.map_congr_left
    intro op _
    simp only [Function.comp, joinedItem, diffDetails, decide_eq_true_eq, Prod.mk.injEq, true_and]
    split_ifs with h h' h' <;> first | rfl | (exfalso; tauto)
  · funext out'
    simp [Function.comp_def]

theorem differs_iff : Differs (remote.map OperationHeaderMessage.operationId) included localOps ↔
    (anyLeft (mergeJoinBy OperationHeaderMessage.operationId StoredOperation.operationId remote
      localOps) || localOps.any fun op => decide (op.operationId ∉
        remote.map OperationHeaderMessage.operationId ∧ op.operationId ∉ included)) = true := by
  have hleft := anyLeft_mergeJoinBy OperationHeaderMessage.operationId
    StoredOperation.operationId remote localOps hr hl
  rw [Bool.or_eq_true, hleft, Differs]
  simp

theorem diffLocalRemoteRange_of_differs
    (hd : Differs (remote.map OperationHeaderMessage.operationId) included localOps) :
    diffLocalRemoteRange out included remote localOps =
      out.pushOperations (localOps.map fun op =>
        (op, diffDetails (remote.map OperationHeaderMessage.operationId) included op)) := by
  rw [differs_iff included remote localOps hr hl] at hd
  rw [diffLocalRemoteRange_eq out included remote localOps hr hl]
  simp only [hd, if_true, bind_pure]

theorem diffLocalRemoteRange_of_not_differs (pushed : SyncRangesBuilder)
    (hpushed : out.pushOperations (localOps.map fun op => (op, diffDetails
      (remote.map OperationHeaderMessage.operationId) included op)) = .ok pushed)
    (hd : ¬ Differs (remote.map OperationHeaderMessage.operationId) included localOps) :
    diffLocalRemoteRange out included remote localOps =
      .error (.error (.pendingSync (.invalidSyncState noChangesMessage))) := by
  rw [differs_iff included remote localOps hr hl, Bool.not_eq_true] at hd
  rw [diffLocalRemoteRange_eq out included remote localOps hr hl, hpushed, ok_bind, hd]
  rfl

end Diff

section Compare
variable (store : MemoryPendingStore) (height : Option ℕ) (range : PendingSyncRange)
  (included : List ℕ) (out : SyncRangesBuilder) (remoteHash : Multihash)
  (hp : rangePanics (extractSyncBounds range).1.1 (extractSyncBounds range).1.2 = false)
  (hhash : range.operationsHash.bind Crates.multihashFromBytes = some remoteHash)

include hp hhash

/-- The hash and the count are those of the store: the range is kept as it is. -/
theorem compareRange_same
    (hsame : remoteHash = toMultihash (hashInput (visible store height (extractSyncBounds range).1))
      ∧ (visible store height (extractSyncBounds range).1).length = range.operationsCount) :
    compareRange store height range included out = .ok (false, out.pushRange (.newHashed
      (extractSyncBounds range).1 remoteHash range.operationsCount)) := by
  obtain ⟨bytes, hbytes, hmh⟩ := Option.bind_eq_some_iff.mp hhash
  obtain ⟨hsame₁, hsame₂⟩ := hsame
  simp only [compareRange, localStoreRangeInfo, operationsIterFromHeight_eq store height _
    (fun _ => hp), ok_bind, pure, Except.pure, hbytes, orError_some, hmh, ← hsame₁, hsame₂, and_self,
    if_true]

theorem compareRange_differs
    (hdiff : ¬ (remoteHash = toMultihash (hashInput
        (visible store height (extractSyncBounds range).1)) ∧
      (visible store height (extractSyncBounds range).1).length = range.operationsCount)) :
    compareRange store height range included out = (do
      let answered ← answerRange (out.pushNewRange (extractSyncBounds range).1.1) range included
        (visible store height (extractSyncBounds range).1)
      pure (true, answered.setLastRangeToBound (extractSyncBounds range).1.2)) := by
  obtain ⟨bytes, hbytes, hmh⟩ := Option.bind_eq_some_iff.mp hhash
  simp only [compareRange, localStoreRangeInfo, operationsIterFromHeight_eq store height _
    (fun _ => hp), ok_bind, pure, Except.pure, hbytes, orError_some, hmh, if_neg hdiff]

end Compare

/-- The operation is the one its frame holds. -/
def OperationReads (op : StoredOperation) : Prop :=
  ∃ r, op.frame.frame.reader = some r ∧ r.operationId = op.operationId ∧
    r.groupId = op.groupId ∧ r.operation.operationType = .ok op.operationType

theorem visible_reads (store : MemoryPendingStore) (height : Option ℕ) (c : Bound × Bound) :
    ∀ op ∈ visible store height c, OperationReads op := by
  intro op hop
  obtain ⟨hget, -, -⟩ := (mem_visible_iff store height c op).mp hop
  exact store.getOperation_reads _ _ hget

/-- The store after operations were stored: these, not committed, and the others as before. -/
structure Stored (before after : PendingState) (ops : List StoredOperation) : Prop where
  messages : after.syncContext.messages = before.syncContext.messages
  syncState : after.syncContext.syncState = before.syncContext.syncState
  stored : ∀ op ∈ ops, after.store.getOperation op.operationId =
    some { op with commitStatus := .unknown }
  others : ∀ id, id ∉ ops.map StoredOperation.operationId →
    after.store.getOperation id = before.store.getOperation id

theorem putOperation_stored (state : PendingState) (operationId : ℕ) (op : StoredOperation)
    (hop : OperationReads op) :
    ∃ existed after, putOperation ⟨operationId, op.frame⟩ state = (.ok existed, after) ∧
      Stored state after [op] := by
  obtain ⟨r, hr, hid, hgroup, htype⟩ := hop
  refine ⟨(state.store.operationsTimeline.get r.operationId).isSome,
    ⟨state.syncContext, state.store.insertOperation op.frame r op.operationType hr htype⟩, ?_, ?_⟩
  · rw [putOperation, state.store.putOperation_eq ⟨operationId, op.frame⟩ r op.operationType hr
      htype]
  · refine ⟨rfl, rfl, ?_, ?_⟩
    · intro op' hop'
      rw [List.mem_singleton.mp hop', state.store.getOperation_insertOperation, hid, hgroup,
        if_pos rfl]
    · intro id hnot
      have hne : id ≠ r.operationId := by simpa [hid] using hnot
      rw [state.store.getOperation_insertOperation, if_neg hne]

theorem stored_cons (s s' s'' : PendingState) (op : StoredOperation) (ops : List StoredOperation)
    (hop : op.operationId ∉ ops.map StoredOperation.operationId) (h : Stored s s' [op])
    (h' : Stored s' s'' ops) : Stored s s'' (op :: ops) := by
  refine ⟨h'.messages.trans h.messages, h'.syncState.trans h.syncState, ?_, ?_⟩
  · intro x hx
    rcases List.mem_cons.mp hx with rfl | hx
    · rw [h'.others _ hop]
      exact h.stored x (List.mem_singleton_self x)
    · exact h'.stored x hx
  · intro id hid
    rw [List.map_cons, List.mem_cons, not_or] at hid
    rw [h'.others id hid.2, h.others id (by simpa using hid.1)]

/-- The frames of another store are stored one after the other. -/
theorem storeIncludedOperations_stored (ops : List StoredOperation) (included : List ℕ)
    (state : PendingState) (hreads : ∀ op ∈ ops, OperationReads op)
    (hids : (ops.map StoredOperation.operationId).Nodup) :
    ∃ included' after, storeIncludedOperations (ops.map fun op => some op.frame.wholeData) included
        state = (.ok included', after) ∧ Stored state after ops ∧
      ∀ id, id ∈ included' ↔ id ∈ ops.map StoredOperation.operationId ∨ id ∈ included := by
  induction ops generalizing included state with
  | nil => exact ⟨included, state, rfl, ⟨rfl, rfl, by simp, fun _ _ => rfl⟩, by simp⟩
  | cons op ops ih =>
    have hop := hreads op List.mem_cons_self
    obtain ⟨existed, after, hput, hstored⟩ := putOperation_stored state op.operationId op hop
    obtain ⟨r, hr, hid, -, -⟩ := hop
    rw [List.map_cons, List.nodup_cons] at hids
    -- the event that may come with the operation does not matter to the store
    have hevent (c : SyncContext) (hm : c.messages = after.syncContext.messages)
        (hs : c.syncState = after.syncContext.syncState) :
        Stored state ⟨c, after.store⟩ [op] :=
      ⟨hm.trans hstored.messages, hs.trans hstored.syncState, hstored.stored, hstored.others⟩
    obtain ⟨c, hm, hs, hc⟩ : ∃ c : SyncContext, c.messages = after.syncContext.messages ∧
        c.syncState = after.syncContext.syncState ∧
        storeIncludedOperations ((op :: ops).map fun op => some op.frame.wholeData) included state =
          storeIncludedOperations (ops.map fun op => some op.frame.wholeData)
            (op.operationId :: included) ⟨c, after.store⟩ := by
      simp only [List.map_cons, storeIncludedOperations, orError_some, readOperationFrame_wholeData,
        liftError_ok, hr, hid, Action.lift_ok_bind]
      rw [Action.bind_of_ok _ _ state after existed hput]
      cases existed with
      | true => exact ⟨after.syncContext, rfl, rfl, rfl⟩
      | false => exact ⟨after.syncContext.pushEvent (.newPendingOperation op.operationId), rfl, rfl,
          rfl⟩
    obtain ⟨included', after', hrest, hstored', hmem⟩ := ih (op.operationId :: included)
      ⟨c, after.store⟩ (fun x hx => hreads x (List.mem_cons_of_mem _ hx)) hids.2
    refine ⟨included', after', hc.trans hrest,
      stored_cons _ _ _ op ops hids.1 (hevent c hm hs) hstored', ?_⟩
    intro id
    rw [hmem, List.map_cons, List.mem_cons, List.mem_cons]
    tauto

end Exocore.Engine
