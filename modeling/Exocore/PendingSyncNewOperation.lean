import Exocore.ChainTables
import Exocore.PendingSyncFirstRange

/-! The propagation of a new operation to another node. -/
namespace Exocore.Engine

open Exocore.Core Exocore.Chain Exocore.Pending PendingSynchronizer

section Request
variable [Crates]

/-- The context matters to a request only by the state of the synchronization. -/
theorem createSyncRequestForRange_congr (p : PendingSynchronizer) (c c' : SyncContext)
    (h : c.syncState = c'.syncState) (store : MemoryPendingStore) (range : Bound × Bound)
    (details : StoredOperation → OperationDetailsLevel) :
    p.createSyncRequestForRange c store range details =
      p.createSyncRequestForRange c' store range details := by
  have hheight : p.getFromBlockHeight c none = p.getFromBlockHeight c' none := by
    rw [getFromBlockHeight, getFromBlockHeight, h]
  rw [createSyncRequestForRange, createSyncRequestForRange, hheight]

/-- The same request goes to all the nodes. -/
theorem sendNewOperation_eq_ok (p : PendingSynchronizer) (operationId : ℕ) (nodes : List NodeId)
    (state after : PendingState)
    (h : p.sendNewOperation operationId nodes state = (.ok (), after)) :
    ∀ node request, .pendingSyncRequest node request ∈ after.syncContext.messages →
      .pendingSyncRequest node request ∈ state.syncContext.messages ∨
      p.createSyncRequestForRange state.syncContext state.store (.included operationId, .unbounded)
        (newOperationDetails operationId) = .ok request := by
  induction nodes generalizing state with
  | nil =>
    intro node request hmem
    rw [show after = state from (congrArg Prod.snd h).symm] at hmem
    exact Or.inl hmem
  | cons nodeId nodes ih =>
    intro node request hmem
    rw [sendNewOperation, Action.get_bind] at h
    obtain ⟨built, mid, hbuilt, h⟩ := Action.bind_eq_ok _ _ _ _ _ h
    obtain ⟨hcreate, rfl⟩ : p.createSyncRequestForRange state.syncContext state.store
        (.included operationId, .unbounded) (newOperationDetails operationId) = .ok built ∧
        state = mid := Prod.mk.inj hbuilt
    rw [Action.bind_of_ok _ _ state ⟨state.syncContext.pushPendingSyncRequest nodeId built,
      state.store⟩ () rfl] at h
    rcases ih _ h node request hmem with hold | hnew
    · simp only [SyncContext.pushPendingSyncRequest, List.mem_append, List.mem_singleton] at hold
      rcases hold with hold | hlast
      · exact Or.inl hold
      · obtain ⟨-, rfl⟩ := SyncContextMessage.pendingSyncRequest.inj hlast
        exact Or.inr hcreate
    · have hcongr := createSyncRequestForRange_congr p
        (state.syncContext.pushPendingSyncRequest nodeId built) state.syncContext rfl state.store
        (.included operationId, .unbounded) (newOperationDetails operationId)
      exact Or.inr (hcongr.symm.trans hnew)

/-- A new operation that was accepted is stored, and its request is built from the store
that has it. -/
theorem handleNewOperation_eq_ok (p : PendingSynchronizer) (operation : NewOperation)
    (syncState : SyncState) (store : MemoryPendingStore) (after : PendingState)
    (h : p.handleNewOperation operation ⟨.new syncState, store⟩ = (.ok (), after)) :
    ∃ op : StoredOperation, op.frame = operation.frame ∧ op.commitStatus = .unknown ∧
      operation.frame.getReader.map ChainOperation.operationId = .ok op.operationId ∧
      ∃ stored : MemoryPendingStore, stored.getOperation op.operationId = some op ∧
        (∀ id, id ≠ op.operationId → stored.getOperation id = store.getOperation id) ∧
        ∀ node request, .pendingSyncRequest node request ∈ after.syncContext.messages →
          p.createSyncRequestForRange (.new syncState) stored (.included op.operationId, .unbounded)
            (newOperationDetails op.operationId) = .ok request := by
  rw [handleNewOperation] at h
  obtain ⟨reader, s₁, hreader, h⟩ := Action.bind_eq_ok _ _ _ _ _ h
  obtain ⟨hread, rfl⟩ : liftError EngineError.operation operation.frame.getReader = .ok reader ∧
      (⟨.new syncState, store⟩ : PendingState) = s₁ := Prod.mk.inj hreader
  obtain ⟨existed, s₂, hput, h⟩ := Action.bind_eq_ok _ _ _ _ _ h
  obtain ⟨r, type, hr, htype⟩ : ∃ reader type, operation.frame.frame.reader = some reader ∧
      reader.operation.operationType = .ok type := by
    rw [putOperation] at hput
    cases hstore : store.putOperation operation with
    | error e => simp [hstore] at hput
    | ok res => exact store.putOperation_eq_ok operation res hstore
  obtain rfl : r = reader := by
    rw [OperationFrame.getReader, hr] at hread
    exact Except.ok.inj hread
  refine ⟨⟨r.groupId, r.operationId, type, .unknown, operation.frame⟩, rfl, rfl, ?_, ?_⟩
  · rw [OperationFrame.getReader, hr]
    rfl
  · obtain ⟨existed', after', hput', hstored⟩ := putOperation_stored ⟨.new syncState, store⟩
      operation.operationId ⟨r.groupId, r.operationId, type, .unknown, operation.frame⟩
      ⟨r, hr, rfl, rfl, htype⟩
    obtain ⟨-, rfl⟩ : existed = existed' ∧ s₂ = after' := by
      simpa using hput.symm.trans hput'
    refine ⟨s₂.store, hstored.stored _ (List.mem_singleton_self _), ?_, ?_⟩
    · intro id hid
      exact hstored.others id (by simpa using hid)
    · intro node request hmem
      rw [Action.bind_of_ok _ _ s₂ ⟨s₂.syncContext.pushEvent (.newPendingOperation r.operationId),
        s₂.store⟩ () rfl] at h
      have hcongr := createSyncRequestForRange_congr p (s₂.syncContext.pushEvent
        (.newPendingOperation r.operationId)) (.new syncState) hstored.syncState s₂.store
        (.included r.operationId, .unbounded) (newOperationDetails r.operationId)
      rcases sendNewOperation_eq_ok p r.operationId _ _ after h node request hmem with hold | hnew
      · have hnone : s₂.syncContext.messages = [] := hstored.messages
        simp [SyncContext.pushEvent, hnone] at hold
      · exact hcongr.symm.trans hnew


/-- The request of a new operation: its range, then ranges that have only a hash. -/
theorem newOperationRequest_eq (p : PendingSynchronizer) (syncState : SyncState)
    (store : MemoryPendingStore) (op : StoredOperation)
    (hget : store.getOperation op.operationId = some op) (hop : op.commitStatus = .unknown)
    (request : PendingSyncRequest)
    (hrequest : p.createSyncRequestForRange (.new syncState) store
      (.included op.operationId, .unbounded) (newOperationDetails op.operationId) = .ok request) :
    ∃ first rest, first = (.included op.operationId, firstRangeEnd p.config.maxOperationsPerRange
        op.operationId (newerOperations store (p.getFromBlockHeight (.new syncState) none)
          op.operationId)) ∧
      inRange first.1 first.2 op.operationId = true ∧ BoundsRead first.1 first.2 ∧
      (∀ c ∈ rest, BoundsAccepted c.1 c.2 ∧ Bare store (p.getFromBlockHeight (.new syncState) none)
        (newOperationDetails op.operationId) c) ∧
      request = ⟨.list ((first :: rest).map (rangeMessage store
        (p.getFromBlockHeight (.new syncState) none) (newOperationDetails op.operationId))),
        (p.getFromBlockHeight (.new syncState) none).getD 0⟩ := by
  obtain ⟨cuts, hcutsOf, hcuts, hcreate⟩ := createSyncRequestForRange_eq p (.new syncState) store
    (.included op.operationId) (newOperationDetails op.operationId)
  rw [hcreate] at hrequest
  obtain rfl := Except.ok.inj hrequest
  rw [visible_from_new store _ op hget hop, List.map_cons] at hcutsOf
  obtain ⟨rest, hrest⟩ := cutsOf_head p.config.maxOperationsPerRange .unbounded
    (.included op.operationId) 0 0 (op.operationId :: (newerOperations store
      (p.getFromBlockHeight (.new syncState) none) op.operationId).map
      StoredOperation.operationId) (Nat.zero_le _)
  have hfirst : (if 0 + (op.operationId :: (newerOperations store (p.getFromBlockHeight
        (.new syncState) none) op.operationId).map StoredOperation.operationId).length ≤
          p.config.maxOperationsPerRange + 1 then Bound.unbounded
      else .included (((op.operationId :: (newerOperations store (p.getFromBlockHeight
        (.new syncState) none) op.operationId).map StoredOperation.operationId).take
          (p.config.maxOperationsPerRange + 1 - 0)).getLastD 0)) =
      firstRangeEnd p.config.maxOperationsPerRange op.operationId (newerOperations store
        (p.getFromBlockHeight (.new syncState) none) op.operationId) := by
    rw [firstRangeEnd, Nat.sub_zero, List.take_succ_cons, List.getLastD_cons, List.length_cons,
      List.length_map, Nat.zero_add]
    simp only [Nat.add_le_add_iff_right]
  rw [hrest, hfirst] at hcutsOf
  subst hcutsOf
  have hinFirst : inRange (.included op.operationId) (firstRangeEnd p.config.maxOperationsPerRange
      op.operationId (newerOperations store (p.getFromBlockHeight (.new syncState) none)
        op.operationId)) op.operationId = true := by
    rw [inRange_iff]
    exact ⟨by simp [Bound.lowerAllows], firstRangeEnd_allows store _ op.operationId _⟩
  refine ⟨_, rest, rfl, hinFirst, ?_, ?_, rfl⟩
  · have hopen : BoundsRead (.included op.operationId) .unbounded :=
      ⟨readBound_included _, rfl, by simp [SyncRangeBuilder.writeBound], rfl⟩
    have hallows := (inRange_iff _ _ _).mp hinFirst
    rw [firstRangeEnd] at hallows ⊢
    split_ifs with hlen
    · exact hopen
    · rw [if_neg hlen] at hallows
      refine boundsRead_included _ _ _ hopen ?_
      simpa [Bound.lowerAllows, Bound.upperAllows] using hallows.2
  · intro c hc
    refine ⟨cuts_boundsAccepted _ _ _ hcuts c (List.mem_cons_of_mem _ hc), ?_,
      sentWith_newOperation_header store _ op.operationId c⟩
    -- the new operation is in the first range, not in this one
    have hdisjoint := (List.pairwise_cons.mp (cuts_disjoint _ _ _ _ hcuts)).1 c hc _ hinFirst
    rw [sentWith, List.filter_eq_nil_iff]
    intro x hx
    obtain ⟨-, hinx, -⟩ := (mem_visible_iff store _ c x).mp hx
    have hne : x.operationId ≠ op.operationId := by
      intro heq
      rw [heq, hdisjoint] at hinx
      contradiction
    simp [newOperationDetails, hne]

/-- The height by which the receiver of the request filters. -/
def receiverHeight (p q : PendingSynchronizer) (stateP stateQ : SyncState) : Option ℕ :=
  q.getFromBlockHeight (.new stateQ)
    (some ⟨.null, (p.getFromBlockHeight (.new stateP) none).getD 0⟩)

/-- No further operation is in the range of the new one, or the receiver has one in it. -/
def FirstRangeMeets (max id : ℕ) (newer : List StoredOperation) (receiver : MemoryPendingStore)
    (height : Option ℕ) : Prop :=
  newer.take max = [] ∨ visible receiver height (.excluded id, firstRangeEnd max id newer) ≠ []

end Request

section Propagation
variable [Crates] (p q : PendingSynchronizer) (operation : NewOperation) (stateP stateQ : SyncState)
  (sender receiver : MemoryPendingStore) (sent : PendingState) (node : NodeId)
  (request : PendingSyncRequest) (id : ℕ)

/-- The request of a new operation is handled without an error, and the operation stored,
exactly when its range has no further operation or the receiver has one of its own in it. -/
theorem newOperation_handled_iff (hmh : MultihashReadsBack)
    (hid : operation.frame.getReader.map ChainOperation.operationId = .ok id)
    (hnew : p.handleNewOperation operation ⟨.new stateP, sender⟩ = (.ok (), sent))
    (hmsg : .pendingSyncRequest node request ∈ sent.syncContext.messages) :
    (∃ after, q.handleIncomingSyncRequest p.cell.localNode (some request)
        ⟨.new stateQ, receiver⟩ = (.ok (), after) ∧
      after.store.content.get id = some operation.frame) ↔
    FirstRangeMeets p.config.maxOperationsPerRange id
      (newerOperations sender (p.getFromBlockHeight (.new stateP) none) id) receiver
      (receiverHeight p q stateP stateQ) := by
  obtain ⟨op, hframe, hop, hopId, stored, hget, hothers, hcreate⟩ :=
    handleNewOperation_eq_ok p operation stateP sender sent hnew
  obtain rfl : op.operationId = id := Except.ok.inj (hopId.symm.trans hid)
  obtain ⟨first, rest, hfirst, hin, hb, hrest, rfl⟩ := newOperationRequest_eq p stateP stored op hget
    hop request (hcreate node request hmsg)
  have hnewer : newerOperations stored (p.getFromBlockHeight (.new stateP) none) op.operationId =
      newerOperations sender (p.getFromBlockHeight (.new stateP) none) op.operationId := by
    refine visible_congr stored sender _ _ ?_
    intro id hinId
    apply hothers
    rintro rfl
    simp [inRange, Bound.lowerAllows] at hinId
  have hone := visible_first_iff stored (p.getFromBlockHeight (.new stateP) none) op hget hop
    p.config.maxOperationsPerRange
  rw [← hfirst, hnewer] at hone
  rw [hnewer] at hfirst
  have hother : (∃ x ∈ visible receiver (receiverHeight p q stateP stateQ) first,
        x.operationId ≠ op.operationId) ↔
      visible receiver (receiverHeight p q stateP stateQ) (.excluded op.operationId,
        firstRangeEnd p.config.maxOperationsPerRange op.operationId (newerOperations sender
          (p.getFromBlockHeight (.new stateP) none) op.operationId)) ≠ [] := by
    rw [hfirst, ne_eq, List.eq_nil_iff_forall_not_mem]
    simp only [not_forall, not_not]
    refine exists_congr fun x => ?_
    rw [mem_visible_iff, mem_visible_iff]
    simp only [inRange, Bound.lowerAllows, Bool.and_eq_true, decide_eq_true_eq]
    constructor
    · rintro ⟨⟨hx, ⟨hle, hup⟩, hallow⟩, hne⟩
      exact ⟨hx, ⟨lt_of_le_of_ne hle (Ne.symm hne), hup⟩, hallow⟩
    · rintro ⟨hx, ⟨hlt, hup⟩, hallow⟩
      exact ⟨⟨hx, ⟨hlt.le, hup⟩, hallow⟩, ne_of_gt hlt⟩
  -- the height the receiver takes only depends on the height of the request
  have hheight : q.getFromBlockHeight (⟨.new stateQ, receiver⟩ : PendingState).syncContext
      (some ⟨.list ((first :: rest).map (rangeMessage stored (p.getFromBlockHeight (.new stateP) none)
        (newOperationDetails op.operationId))), (p.getFromBlockHeight (.new stateP) none).getD 0⟩) =
      receiverHeight p q stateP stateQ := rfl
  rw [handleIncomingSyncRequest_eq q p.cell.localNode _ _ _ _ hheight, FirstRangeMeets, ← hone,
    ← hother, ← handleIncomingSyncRange_new_iff stored _ op hget hop first hin hmh hb
      (receiverHeight p q stateP stateQ) (.new q.config) ⟨.new stateQ, receiver⟩, List.map_cons]
  obtain ⟨afterFirst, hafter, -, hstate, -⟩ := handleIncomingSyncRange_new_eq stored
    (p.getFromBlockHeight (.new stateP) none) op hget hop first hin hmh hb
    (receiverHeight p q stateP stateQ) (.new q.config) ⟨.new stateQ, receiver⟩
  cases hfirstRes : handleIncomingSyncRange (receiverHeight p q stateP stateQ) (rangeMessage stored
    (p.getFromBlockHeight (.new stateP) none) (newOperationDetails op.operationId) first)
    (.new q.config) ⟨.new stateQ, receiver⟩ with
  | mk res afterRange =>
    rw [hfirstRes] at hstate
    subst hstate
    cases res with
    | error e =>
      rw [handleIncomingSyncRangesLoop_cons_error _ _ _ _ _ _ _ _ hfirstRes]
      simp
    | ok res =>
      obtain ⟨changed, out'⟩ := res
      obtain ⟨loopRes, afterLoop, hloop, hsame⟩ := handleIncomingSyncRangesLoop_bare stored
        (p.getFromBlockHeight (.new stateP) none) (newOperationDetails op.operationId) hmh
        (receiverHeight p q stateP stateQ) rest (fun c hc => (hrest c hc).2)
        (fun c hc => (hrest c hc).1) (false || changed) out' afterRange
      rw [handleIncomingSyncRangesLoop_cons_ok _ _ _ _ _ _ _ _ _ hfirstRes, hloop]
      have hcontent : afterLoop.store.content.get op.operationId = some operation.frame := by
        rw [MemoryPendingStore.get_content, hsame, hafter, ← hframe]
        rfl
      cases loopRes with
      | none => exact iff_of_true ⟨afterLoop, rfl, hcontent⟩ ⟨_, rfl⟩
      | some out => exact iff_of_true ⟨_, rfl, hcontent⟩ ⟨_, rfl⟩

end Propagation

def firstNode : String := "12D3KooWPTCWpA2Xi73a1uREdWgF3ssywwth3Sd8A7M5vm3zgdKp"

def otherNode : String := "12D3KooWDzwCfugwoor3LkCipVDjLhD22bJaQ1ontrVydY2eiiMz"

def fiveMessage : Bytes := ofNats
    [0, 0, 0, 0, 15, 0, 0, 0, 0, 0, 0, 0, 3, 0, 2, 0, 5, 0, 0, 0, 0, 0, 0, 0, 5, 0, 0, 0, 0, 0,
    0, 0, 0, 0, 0, 0, 0, 0, 0, 0, 5, 0, 0, 0, 170, 1, 0, 0, 28, 0, 0, 0, 0, 0, 1, 0, 49, 50, 68,
    51, 75, 111, 111, 87, 80, 84, 67, 87, 112, 65, 50, 88, 105, 55, 51, 97, 49, 117, 82, 69, 100,
    87, 103, 70, 51, 115, 115, 121, 119, 119, 116, 104, 51, 83, 100, 56, 65, 55, 77, 53, 118,
    109, 51, 122, 103, 100, 75, 112, 0, 0, 0, 0, 1, 0, 0, 0, 10, 0, 0, 0, 1, 0, 0, 0, 0, 0, 0, 0]

def fiveMultihash : Bytes := ofNats
    [22, 32, 109, 232, 166, 250, 5, 157, 236, 147, 170, 2, 66, 218, 58, 186, 49, 22, 99, 76, 84,
    136, 199, 108, 9, 180, 148, 128, 106, 128, 174, 13, 33, 234]

def sevenMessage : Bytes := ofNats
    [0, 0, 0, 0, 15, 0, 0, 0, 0, 0, 0, 0, 3, 0, 2, 0, 7, 0, 0, 0, 0, 0, 0, 0, 7, 0, 0, 0, 0, 0,
    0, 0, 0, 0, 0, 0, 0, 0, 0, 0, 5, 0, 0, 0, 170, 1, 0, 0, 28, 0, 0, 0, 0, 0, 1, 0, 49, 50, 68,
    51, 75, 111, 111, 87, 80, 84, 67, 87, 112, 65, 50, 88, 105, 55, 51, 97, 49, 117, 82, 69, 100,
    87, 103, 70, 51, 115, 115, 121, 119, 119, 116, 104, 51, 83, 100, 56, 65, 55, 77, 53, 118,
    109, 51, 122, 103, 100, 75, 112, 0, 0, 0, 0, 1, 0, 0, 0, 10, 0, 0, 0, 2, 0, 0, 0, 0, 0, 0, 0]

def sevenMultihash : Bytes := ofNats
    [22, 32, 110, 60, 30, 231, 42, 213, 140, 85, 215, 27, 201, 77, 58, 130, 92, 17, 154, 169,
    217, 248, 41, 202, 132, 241, 44, 194, 73, 11, 209, 55, 239, 3]

/-- The digests of the ranges that can be sent. -/
def rangeDigests : List (Bytes × Bytes) :=
  [([], ofNats
    [167, 255, 198, 248, 191, 30, 215, 102, 81, 193, 71, 86, 160, 97, 214, 98, 245, 128, 255, 77,
    228, 59, 73, 250, 130, 216, 10, 75, 128, 248, 67, 74]),
  (fiveMultihash, ofNats
    [43, 166, 252, 82, 249, 178, 117, 139, 208, 122, 92, 33, 155, 86, 45, 56, 206, 146, 172, 59,
    134, 104, 171, 97, 160, 18, 154, 187, 104, 87, 24, 223]),
  (sevenMultihash, ofNats
    [177, 98, 190, 95, 125, 86, 130, 204, 42, 172, 37, 218, 43, 230, 236, 164, 209, 161, 174,
    217, 228, 14, 163, 91, 81, 51, 83, 57, 173, 31, 176, 98]),
  (fiveMultihash ++ sevenMultihash, ofNats
    [186, 110, 111, 253, 145, 65, 139, 10, 78, 19, 109, 113, 143, 37, 23, 103, 83, 236, 32, 223,
    0, 203, 13, 234, 174, 74, 97, 155, 141, 143, 20, 68])]

def entryOperation (id : ℕ) (data : Bytes) : ChainOperation :=
  ⟨id, id, some firstNode, .entry (some data)⟩

def entryTables : Tables where
  operations := [(fiveMessage, entryOperation 5 [1]), (sevenMessage, entryOperation 7 [2])]
  headers := []
  signatures := []
  digests := rangeDigests
  nodeIds := [firstNode, otherNode]

/-- Digests of at most 32 bytes read back from their multihash. -/
theorem multihashReadsBack_tables (t : Tables) :
    letI := t.crates
    (∀ entry ∈ t.digests, entry.2.length ≤ 32) → MultihashReadsBack := by
  let _ : Crates := t.crates
  intro hdigests input
  have hsize : (Crates.sha3 input).length ≤ 32 := by
    change (((t.digests.find? fun entry => entry.1 = input).map Prod.snd).getD []).length ≤ 32
    cases hfind : t.digests.find? fun entry => decide (entry.1 = input) with
    | none => exact Nat.zero_le _
    | some entry => exact hdigests entry (List.mem_of_find?_eq_some hfind)
  exact multihashOfBytes_multihashBytesOf (toMultihash input) (by simp [toMultihash]) hsize

section Samples

local instance : Crates := entryTables.crates

theorem entryTables_readsBack : MultihashReadsBack :=
  multihashReadsBack_tables entryTables (by decide +kernel)

def fiveFrame : OperationFrame :=
  ⟨⟨sizedBytes (fiveMessage ++ fiveMultihash), fiveMultihash, some (entryOperation 5 [1])⟩,
    by decide +kernel⟩

def sevenFrame : OperationFrame :=
  ⟨⟨sizedBytes (sevenMessage ++ sevenMultihash), sevenMultihash, some (entryOperation 7 [2])⟩,
    by decide +kernel⟩

/-- The two nodes of the cell, seen from the first. -/
def twoNodes : Cell :=
  ⟨⟨firstNode⟩, [⟨⟨firstNode⟩, [.chain]⟩, ⟨⟨otherNode⟩, [.chain]⟩], by decide⟩

def sampleSynchronizer : PendingSynchronizer := ⟨⟨30, 2⟩, twoNodes⟩

theorem fiveFrame_reader : fiveFrame.frame.reader = some (entryOperation 5 [1]) := rfl

theorem fiveFrame_type : (entryOperation 5 [1]).operation.operationType = .ok .entry := rfl

theorem sevenFrame_reader : sevenFrame.frame.reader = some (entryOperation 7 [2]) := rfl

theorem sevenFrame_type : (entryOperation 7 [2]).operation.operationType = .ok .entry := rfl

def sevenStore : MemoryPendingStore :=
  MemoryPendingStore.new.insertOperation sevenFrame (entryOperation 7 [2]) .entry sevenFrame_reader
    sevenFrame_type

/-- The request for the operation 5 on a node that has 7. -/
def newOperationRequest : PendingSyncRequest := ⟨.list [rangeMessage
  (sevenStore.insertOperation fiveFrame (entryOperation 5 [1]) .entry fiveFrame_reader
    fiveFrame_type) none
  (newOperationDetails 5) (.included 5, .unbounded)], 0⟩

/-- The first node after the operation 5 was added. -/
def newOperationSent : PendingState :=
  (sampleSynchronizer.handleNewOperation ⟨5, fiveFrame⟩ ⟨.new ⟨none⟩, sevenStore⟩).2

theorem handleNewOperation_sample :
    sampleSynchronizer.handleNewOperation ⟨5, fiveFrame⟩ ⟨.new ⟨none⟩, sevenStore⟩ =
      (.ok (), newOperationSent) ∧
    .pendingSyncRequest ⟨otherNode⟩ newOperationRequest ∈ newOperationSent.syncContext.messages := by
  have hok : (sampleSynchronizer.handleNewOperation ⟨5, fiveFrame⟩
      ⟨.new ⟨none⟩, sevenStore⟩).1 = .ok () := by decide +kernel
  have hmessages : newOperationSent.syncContext.messages =
      [.pendingSyncRequest ⟨otherNode⟩ newOperationRequest] := by decide +kernel
  rw [hmessages]
  exact ⟨Prod.ext hok rfl, List.mem_singleton_self _⟩

/-- The second node, with the same configuration. -/
def otherSynchronizer : PendingSynchronizer :=
  ⟨⟨30, 2⟩, ⟨otherNode⟩, [⟨⟨firstNode⟩, [.chain]⟩, ⟨⟨otherNode⟩, [.chain]⟩], by decide⟩

/-- A node that has no operation fails on the request: it takes the operation 5, and in its diff
misses that 7 is described only by the hash. -/
theorem newOperation_invalidSyncState :
    sevenStore.Agree .new ∧
      sampleSynchronizer.handleNewOperation ⟨5, fiveFrame⟩ ⟨.new ⟨none⟩, sevenStore⟩ =
        (.ok (), newOperationSent) ∧
      .pendingSyncRequest ⟨otherNode⟩ newOperationRequest ∈
        newOperationSent.syncContext.messages ∧
      (otherSynchronizer.handleIncomingSyncRequest ⟨firstNode⟩ (some newOperationRequest)
        ⟨.new ⟨none⟩, .new⟩).1 =
          .error (.error (.pendingSync (.invalidSyncState noChangesMessage))) := by
  obtain ⟨hok, hmsg⟩ := handleNewOperation_sample
  refine ⟨?_, hok, hmsg, by decide +kernel⟩
  intro id f g _ hg
  rw [MemoryPendingStore.get_content] at hg
  simp [MemoryPendingStore.getOperation, MemoryPendingStore.new] at hg

/-- A node that has 7 as well takes the new operation. -/
theorem newOperation_handled_among_shared :
    ∃ after, otherSynchronizer.handleIncomingSyncRequest ⟨firstNode⟩ (some newOperationRequest)
        ⟨.new ⟨none⟩, sevenStore⟩ = (.ok (), after) ∧
      after.store.content.get 5 = some fiveFrame := by
  obtain ⟨hok, hmsg⟩ := handleNewOperation_sample
  exact (newOperation_handled_iff sampleSynchronizer otherSynchronizer ⟨5, fiveFrame⟩ ⟨none⟩
    ⟨none⟩ sevenStore sevenStore newOperationSent ⟨otherNode⟩ newOperationRequest 5
    entryTables_readsBack rfl hok hmsg).mpr (Or.inr (by decide +kernel))

end Samples

end Exocore.Engine
