import Exocore.LibRun
import Exocore.LibSort
import Exocore.LibSortedMap
import Exocore.StoreAggregator

/-! The tracker of mutations: a request whose sender waits for its operations to be indexed is
answered once they all are. -/
namespace Exocore.Store

open SortedMap

abbrev RequestId := ℕ

/-- The channel of a request is told by the id of the request. -/
structure WatchedMutationRequest where
  receivedTime : ℕ
  operationIds : Finset OperationId
  completedOperationIds : Finset OperationId

structure MutationTracker where
  mutationTrackerTimeout : ℕ
  requests : Map RequestId WatchedMutationRequest
  operationsRequests : Map OperationId (Finset RequestId)
  nextRequestId : RequestId

/-- The orders in which the hash sets of a call are gone through. -/
structure TrackerOrders where
  requests : Sorting.HashOrder
  operations : Sorting.ValuesOrder OperationId

/-- What is sent on the channel of a request. -/
structure MutationAnswer where
  requestId : RequestId
  operationIds : List OperationId

namespace MutationTracker

def new (timeout : ℕ) : MutationTracker := ⟨timeout, .empty, .empty, 0⟩

def trackOperation (requestId : RequestId) (t : MutationTracker) (operationId : OperationId) :
    MutationTracker :=
  { t with
    operationsRequests := t.operationsRequests.insert operationId
      (insert requestId ((t.operationsRequests.get operationId).getD ∅)) }

def trackRequest (t : MutationTracker) (now : ℕ) (operationIds : List OperationId) :
    MutationTracker :=
  operationIds.foldl (trackOperation t.nextRequestId)
    { t with
      nextRequestId := t.nextRequestId + 1
      requests := t.requests.insert t.nextRequestId ⟨now, operationIds.toFinset, ∅⟩ }

/-- The requests while operations are completed, with those that have all of theirs. -/
structure Completing where
  tracker : MutationTracker
  completed : Finset RequestId

def completeRequest (operationId : OperationId) (c : Completing) (requestId : RequestId) :
    Completing :=
  match c.tracker.requests.get requestId with
  | none => c
  | some request =>
    let completedIds := insert operationId request.completedOperationIds
    { tracker := { c.tracker with
        requests := c.tracker.requests.insert requestId
          { request with completedOperationIds := completedIds } }
      completed := if completedIds.card = request.operationIds.card then
        insert requestId c.completed else c.completed }

def completeOperation (orders : TrackerOrders) (c : Completing) (operationId : OperationId) :
    Completing :=
  match c.tracker.operationsRequests.get operationId with
  | none => c
  | some requestIds =>
    (orders.requests.order (requestIds.sort (· ≤ ·))).foldl (completeRequest operationId)
      { c with tracker := { c.tracker with
          operationsRequests := c.tracker.operationsRequests.erase operationId } }

def removeOperationRequest (requestId : RequestId) (t : MutationTracker)
    (operationId : OperationId) : MutationTracker :=
  match t.operationsRequests.get operationId with
  | none => t
  | some requestIds =>
    { t with
      operationsRequests := t.operationsRequests.insert operationId (requestIds.erase requestId) }

def removeRequest (orders : TrackerOrders) (t : MutationTracker) (requestId : RequestId) :
    Option WatchedMutationRequest × MutationTracker :=
  match t.requests.get requestId with
  | none => (none, t)
  | some request =>
    (some request, (orders.operations.order (request.operationIds.sort (· ≤ ·))).foldl
      (removeOperationRequest requestId) { t with requests := t.requests.erase requestId })

/-- The completed requests are removed, and each is answered with its operations. -/
def answerCompleted (orders : TrackerOrders) :
    List RequestId → MutationTracker → List MutationAnswer × MutationTracker
  | [], t => ([], t)
  | requestId :: rest, t =>
    match t.removeRequest orders requestId with
    | (none, t') => answerCompleted orders rest t'
    | (some request, t') =>
      let (answers, t'') := answerCompleted orders rest t'
      (⟨requestId, orders.operations.order (request.operationIds.sort (· ≤ ·))⟩ :: answers, t'')

def cleanupExpired (orders : TrackerOrders) (now : ℕ) (t : MutationTracker) : MutationTracker :=
  let expired := orders.requests.order (t.requests.keys.filter fun requestId =>
    (t.requests.get requestId).any fun request =>
      t.mutationTrackerTimeout < now - request.receivedTime)
  if expired = [] then t
  else
    let t' := expired.foldl (fun t requestId => (t.removeRequest orders requestId).2) t
    { t' with operationsRequests := t'.operationsRequests.filterKeys fun operationId =>
        t'.operationsRequests.get operationId ≠ some ∅ }

def handleIndexedOperations (t : MutationTracker) (orders : TrackerOrders) (now : ℕ)
    (operationIds : List OperationId) : List MutationAnswer × MutationTracker :=
  let c := operationIds.foldl (completeOperation orders) ⟨t, ∅⟩
  let (answers, t') := answerCompleted orders (orders.requests.order (c.completed.sort (· ≤ ·)))
    c.tracker
  (answers, t'.cleanupExpired orders now)

end MutationTracker

inductive TrackerCall where
  | trackRequest (now : ℕ) (operationIds : List OperationId)
  | handleIndexedOperations (orders : TrackerOrders) (now : ℕ) (operationIds : List OperationId)

/-- The answers of a call, and the tracker after it. -/
def TrackerCall.step (t : MutationTracker) : TrackerCall → List MutationAnswer × MutationTracker
  | .trackRequest now operationIds => ([], t.trackRequest now operationIds)
  | .handleIndexedOperations orders now operationIds =>
    t.handleIndexedOperations orders now operationIds

namespace MutationTracker

/-- The requests of the second tracker are in the first one, with the same operations. -/
structure KeepsRequests (t t' : MutationTracker) : Prop where
  requests : ∀ r request', t'.requests.get r = some request' →
    ∃ request, t.requests.get r = some request ∧ request'.operationIds = request.operationIds
  next : t'.nextRequestId = t.nextRequestId

theorem keepsRequests_of_eq (t t' : MutationTracker) (hrequests : t'.requests = t.requests)
    (hnext : t'.nextRequestId = t.nextRequestId) : KeepsRequests t t' :=
  ⟨fun _ request' h => ⟨request', hrequests ▸ h, rfl⟩, hnext⟩

theorem KeepsRequests.trans {t t' t'' : MutationTracker} (h : KeepsRequests t t')
    (h' : KeepsRequests t' t'') : KeepsRequests t t'' := by
  constructor
  · intro r request'' hget
    obtain ⟨request', hget', hids'⟩ := h'.requests r request'' hget
    obtain ⟨request, hget, hids⟩ := h.requests r request' hget'
    exact ⟨request, hget, hids'.trans hids⟩
  · rw [h'.next, h.next]

theorem keepsRequests_foldl {A : Type} (f : MutationTracker → A → MutationTracker)
    (hf : ∀ t a, KeepsRequests t (f t a)) (as : List A) (t : MutationTracker) :
    KeepsRequests t (as.foldl f t) := by
  induction as generalizing t with
  | nil => exact keepsRequests_of_eq t t rfl rfl
  | cons a as ih => exact (hf t a).trans (ih (f t a))

theorem keepsRequests_completing {A : Type} (f : Completing → A → Completing)
    (hf : ∀ c a, KeepsRequests c.tracker (f c a).tracker) (as : List A) (c : Completing) :
    KeepsRequests c.tracker (as.foldl f c).tracker := by
  induction as generalizing c with
  | nil => exact keepsRequests_of_eq _ _ rfl rfl
  | cons a as ih => exact (hf c a).trans (ih (f c a))

theorem keepsRequests_trackOperation (requestId : RequestId) (t : MutationTracker)
    (operationId : OperationId) : KeepsRequests t (trackOperation requestId t operationId) :=
  keepsRequests_of_eq t _ rfl rfl

theorem keepsRequests_removeRequest (orders : TrackerOrders) (t : MutationTracker)
    (requestId : RequestId) : KeepsRequests t (t.removeRequest orders requestId).2 := by
  unfold removeRequest
  cases t.requests.get requestId with
  | none => exact keepsRequests_of_eq t t rfl rfl
  | some request =>
    have herase : KeepsRequests t { t with requests := t.requests.erase requestId } := by
      constructor
      · intro r request' hget
        rw [Map.get_erase] at hget
        by_cases hr : r = requestId
        · rw [if_pos hr] at hget
          contradiction
        · rw [if_neg hr] at hget
          exact ⟨request', hget, rfl⟩
      · rfl
    apply herase.trans
    apply keepsRequests_foldl
    intro t operationId
    unfold removeOperationRequest
    cases t.operationsRequests.get operationId <;> exact keepsRequests_of_eq t _ rfl rfl

theorem keepsRequests_cleanupExpired (orders : TrackerOrders) (now : ℕ) (t : MutationTracker) :
    KeepsRequests t (t.cleanupExpired orders now) := by
  unfold cleanupExpired
  dsimp only
  split_ifs
  · exact keepsRequests_of_eq t t rfl rfl
  · exact (keepsRequests_foldl _ (fun t r => keepsRequests_removeRequest orders t r) _ t).trans
      (keepsRequests_of_eq _ _ rfl rfl)

theorem keepsRequests_completeRequest (operationId : OperationId) (c : Completing)
    (requestId : RequestId) :
    KeepsRequests c.tracker (completeRequest operationId c requestId).tracker := by
  unfold completeRequest
  cases hget : c.tracker.requests.get requestId with
  | none => exact keepsRequests_of_eq _ _ rfl rfl
  | some request =>
    constructor
    · intro r request' hget'
      rw [Map.get_insert] at hget'
      by_cases hr : r = requestId
      · rw [if_pos hr] at hget'
        refine ⟨request, hr ▸ hget, ?_⟩
        rw [← Option.some.inj hget']
      · rw [if_neg hr] at hget'
        exact ⟨request', hget', rfl⟩
    · rfl

theorem keepsRequests_completeOperation (orders : TrackerOrders) (c : Completing)
    (operationId : OperationId) :
    KeepsRequests c.tracker (completeOperation orders c operationId).tracker := by
  unfold completeOperation
  cases c.tracker.operationsRequests.get operationId with
  | none => exact keepsRequests_of_eq _ _ rfl rfl
  | some requestIds =>
    let erased : MutationTracker := { c.tracker with
      operationsRequests := c.tracker.operationsRequests.erase operationId }
    have herase : KeepsRequests c.tracker erased := keepsRequests_of_eq _ _ rfl rfl
    exact herase.trans (keepsRequests_completing _ (keepsRequests_completeRequest operationId) _
      { c with tracker := erased })

/-- The answer is to a request that the tracker has, and names its operations. -/
def Answers (t : MutationTracker) (answer : MutationAnswer) : Prop :=
  ∃ request, t.requests.get answer.requestId = some request ∧ answer.operationIds.Nodup ∧
    ∀ id, id ∈ answer.operationIds ↔ id ∈ request.operationIds

theorem KeepsRequests.answers {t t' : MutationTracker} (h : KeepsRequests t t')
    (answer : MutationAnswer) (hanswer : Answers t' answer) : Answers t answer := by
  obtain ⟨request', hget', hnodup, hmem⟩ := hanswer
  obtain ⟨request, hget, hids⟩ := h.requests _ request' hget'
  refine ⟨request, hget, hnodup, ?_⟩
  rw [← hids]
  exact hmem

theorem answerCompleted_spec (orders : TrackerOrders) (requestIds : List RequestId)
    (t : MutationTracker) :
    (∀ answer ∈ (answerCompleted orders requestIds t).1, Answers t answer) ∧
      KeepsRequests t (answerCompleted orders requestIds t).2 := by
  induction requestIds generalizing t with
  | nil => exact ⟨fun _ h => absurd h List.not_mem_nil, keepsRequests_of_eq t t rfl rfl⟩
  | cons requestId rest ih =>
    have hkeeps := keepsRequests_removeRequest orders t requestId
    rw [answerCompleted]
    cases hget : t.requests.get requestId with
    | none =>
      have hremove : t.removeRequest orders requestId = (none, t) := by
        rw [removeRequest, hget]
      rw [hremove]
      exact ih t
    | some request =>
      obtain ⟨t', hremove⟩ : ∃ t', t.removeRequest orders requestId = (some request, t') := by
        rw [removeRequest, hget]
        exact ⟨_, rfl⟩
      rw [hremove] at hkeeps ⊢
      obtain ⟨hanswers, hrest⟩ := ih t'
      refine ⟨?_, hkeeps.trans hrest⟩
      intro answer hanswer
      rcases List.mem_cons.mp hanswer with rfl | htail
      · have hperm := orders.operations.perm (request.operationIds.sort (· ≤ ·))
        refine ⟨request, hget, hperm.nodup_iff.mpr (Finset.sort_nodup _ _), ?_⟩
        intro id
        rw [hperm.mem_iff, Finset.mem_sort]
      · exact hkeeps.answers answer (hanswers answer htail)

theorem handleIndexedOperations_spec (t : MutationTracker) (orders : TrackerOrders) (now : ℕ)
    (operationIds : List OperationId) :
    (∀ answer ∈ (t.handleIndexedOperations orders now operationIds).1, Answers t answer) ∧
      KeepsRequests t (t.handleIndexedOperations orders now operationIds).2 := by
  have hcompleted := keepsRequests_completing _ (keepsRequests_completeOperation orders)
    operationIds ⟨t, ∅⟩
  obtain ⟨hanswers, hafter⟩ := answerCompleted_spec orders
    (orders.requests.order ((operationIds.foldl (completeOperation orders)
      ⟨t, ∅⟩).completed.sort (· ≤ ·))) (operationIds.foldl (completeOperation orders) ⟨t, ∅⟩).tracker
  refine ⟨fun answer h => hcompleted.answers answer (hanswers answer h), ?_⟩
  exact hcompleted.trans (hafter.trans (keepsRequests_cleanupExpired orders now _))

/-- A request that is still held has these operations, and no other one gets its id. -/
def Tracks (requestId : RequestId) (operationIds : List OperationId) (t : MutationTracker) : Prop :=
  requestId < t.nextRequestId ∧ ∀ request, t.requests.get requestId = some request →
    request.operationIds = operationIds.toFinset

theorem KeepsRequests.tracks {t t' : MutationTracker} (h : KeepsRequests t t')
    (requestId : RequestId) (operationIds : List OperationId) (ht : Tracks requestId operationIds t) :
    Tracks requestId operationIds t' := by
  refine ⟨h.next ▸ ht.1, ?_⟩
  intro request' hget'
  obtain ⟨request, hget, hids⟩ := h.requests requestId request' hget'
  rw [hids, ht.2 request hget]

theorem trackRequest_tracks (t : MutationTracker) (now : ℕ) (operationIds : List OperationId) :
    Tracks t.nextRequestId operationIds (t.trackRequest now operationIds) := by
  apply (keepsRequests_foldl _ (keepsRequests_trackOperation t.nextRequestId) operationIds _).tracks
  refine ⟨Nat.lt_succ_self _, ?_⟩
  intro request hget
  rw [Map.get_insert, if_pos rfl] at hget
  rw [← Option.some.inj hget]

theorem step_tracks (requestId : RequestId) (operationIds : List OperationId) (t : MutationTracker)
    (call : TrackerCall) (h : Tracks requestId operationIds t) :
    Tracks requestId operationIds (call.step t).2 := by
  cases call with
  | trackRequest now ids =>
    apply (keepsRequests_foldl _ (keepsRequests_trackOperation t.nextRequestId) ids _).tracks
    refine ⟨Nat.lt_succ_of_lt h.1, ?_⟩
    intro request hget
    rw [Map.get_insert, if_neg (Nat.ne_of_lt h.1)] at hget
    exact h.2 request hget
  | handleIndexedOperations orders now ids =>
    exact (handleIndexedOperations_spec t orders now ids).2.tracks requestId operationIds h

/-- Whatever the tracker is called with later, an answer to the request names its operations. -/
theorem outputs_tracked (requestId : RequestId) (operationIds : List OperationId)
    (t : MutationTracker) (calls : List TrackerCall) (h : Tracks requestId operationIds t) :
    ∀ answers ∈ Run.outputs TrackerCall.step t calls, ∀ answer ∈ answers,
      answer.requestId = requestId →
        answer.operationIds.Nodup ∧ ∀ id, id ∈ answer.operationIds ↔ id ∈ operationIds := by
  induction calls generalizing t with
  | nil => exact fun _ h => absurd h List.not_mem_nil
  | cons call calls ih =>
    intro answers hanswers answer hanswer hid
    rcases List.mem_cons.mp hanswers with rfl | hrest
    · cases call with
      | trackRequest now ids => exact absurd hanswer List.not_mem_nil
      | handleIndexedOperations orders now ids =>
        obtain ⟨request, hget, hnodup, hmem⟩ :=
          (handleIndexedOperations_spec t orders now ids).1 answer hanswer
        have hids := h.2 request (hid ▸ hget)
        refine ⟨hnodup, ?_⟩
        intro id
        rw [hmem id, hids, List.mem_toFinset]
    · exact ih _ (step_tracks requestId operationIds t call h) answers hrest answer hanswer hid

end MutationTracker

end Exocore.Store
