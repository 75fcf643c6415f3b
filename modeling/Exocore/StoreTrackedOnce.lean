import Exocore.StoreMutationTracker

/-! Each tracked request is answered once, by the first call after which all its operations have
been indexed since it was tracked. -/
namespace Exocore.Store

open SortedMap

namespace MutationTracker

/-- Each held request misses some of its operations, and is linked to exactly those. -/
structure Linked (t : MutationTracker) : Prop where
  links : ∀ id r, r ∈ (t.operationsRequests.get id).getD ∅ ↔
    ∃ request, t.requests.get r = some request ∧ id ∈ request.operationIds ∧
      id ∉ request.completedOperationIds
  inhabited : ∀ id, t.operationsRequests.get id ≠ some ∅
  misses : ∀ r request, t.requests.get r = some request →
    request.completedOperationIds ⊂ request.operationIds
  below : ∀ r request, t.requests.get r = some request → r < t.nextRequestId

theorem linked_new (timeout : ℕ) : (new timeout).Linked where
  links id r := by simp [new]
  inhabited id := by simp [new]
  misses r request h := by simp [new] at h
  below r request h := by simp [new] at h

section Track

theorem get_foldl_trackOperation (requestId : RequestId) (ids : List OperationId)
    (t : MutationTracker) (id : OperationId) :
    (ids.foldl (trackOperation requestId) t).operationsRequests.get id =
      if id ∈ ids then some (insert requestId ((t.operationsRequests.get id).getD ∅))
      else t.operationsRequests.get id := by
  induction ids generalizing t with
  | nil => rfl
  | cons first ids ih =>
    rw [List.foldl_cons, ih]
    simp only [trackOperation, Map.get_insert, List.mem_cons]
    by_cases hfirst : id = first
    · subst hfirst
      by_cases hmem : id ∈ ids
      · simp [hmem]
      · simp [hmem]
    · simp [hfirst]

theorem foldl_trackOperation_requests (requestId : RequestId) (ids : List OperationId)
    (t : MutationTracker) :
    (ids.foldl (trackOperation requestId) t).requests = t.requests ∧
      (ids.foldl (trackOperation requestId) t).nextRequestId = t.nextRequestId := by
  induction ids generalizing t with
  | nil => exact ⟨rfl, rfl⟩
  | cons id ids ih => exact ih (trackOperation requestId t id)

theorem get_trackRequest (t : MutationTracker) (now : ℕ) (ids : List OperationId) (r : RequestId) :
    (t.trackRequest now ids).requests.get r =
      if r = t.nextRequestId then some ⟨now, ids.toFinset, ∅⟩ else t.requests.get r := by
  rw [trackRequest, (foldl_trackOperation_requests _ ids _).1, Map.get_insert]

theorem trackRequest_nextRequestId (t : MutationTracker) (now : ℕ) (ids : List OperationId) :
    (t.trackRequest now ids).nextRequestId = t.nextRequestId + 1 := by
  rw [trackRequest, (foldl_trackOperation_requests _ ids _).2]

theorem Linked.fresh {t : MutationTracker} (h : t.Linked) (id : OperationId) :
    t.nextRequestId ∉ (t.operationsRequests.get id).getD ∅ := by
  intro hmem
  obtain ⟨request, hget, -⟩ := (h.links id _).mp hmem
  exact lt_irrefl _ (h.below _ request hget)

theorem Linked.trackRequest {t : MutationTracker} (h : t.Linked) (now : ℕ)
    (ids : List OperationId) (hids : ids ≠ []) : (t.trackRequest now ids).Linked where
  links id r := by
    have hfresh := h.fresh id
    have hlinks := h.links id r
    rw [get_trackRequest, MutationTracker.trackRequest, get_foldl_trackOperation]
    by_cases hr : r = t.nextRequestId
    · subst hr
      rw [if_pos rfl]
      by_cases hid : id ∈ ids
      · simp [hid]
      · simpa [hid] using hfresh
    · rw [if_neg hr, ← hlinks]
      by_cases hid : id ∈ ids
      · simp [hid, hr]
      · simp [hid]
  inhabited id := by
    rw [MutationTracker.trackRequest, get_foldl_trackOperation]
    split_ifs
    · intro hempty
      exact Finset.insert_ne_empty _ _ (Option.some.inj hempty)
    · exact h.inhabited id
  misses r request hget := by
    rw [get_trackRequest] at hget
    split_ifs at hget with hr
    · cases hget
      rw [Finset.empty_ssubset]
      exact List.toFinset_nonempty_iff _ |>.mpr hids
    · exact h.misses r request hget
  below r request hget := by
    rw [trackRequest_nextRequestId]
    rw [get_trackRequest] at hget
    split_ifs at hget with hr
    · rw [hr]
      exact Nat.lt_succ_self _
    · exact Nat.lt_succ_of_lt (h.below r request hget)

end Track

section Complete

def markCompleted (ids : Finset OperationId) (request : WatchedMutationRequest) :
    WatchedMutationRequest :=
  { request with
    completedOperationIds := request.completedOperationIds ∪ (request.operationIds ∩ ids) }

/-- What the loop over the requests of an operation does to each. -/
theorem foldl_completeRequest (id : OperationId) (requestIds : List RequestId) (c : Completing) :
    let c' := requestIds.foldl (completeRequest id) c
    c'.tracker.operationsRequests = c.tracker.operationsRequests ∧
      c'.tracker.mutationTrackerTimeout = c.tracker.mutationTrackerTimeout ∧
      c'.tracker.nextRequestId = c.tracker.nextRequestId ∧
      (∀ r, c'.tracker.requests.get r = (c.tracker.requests.get r).map fun request =>
        if r ∈ requestIds then { request with
          completedOperationIds := insert id request.completedOperationIds } else request) ∧
      ∀ r, r ∈ c'.completed ↔ r ∈ c.completed ∨ r ∈ requestIds ∧
        ∃ request, c.tracker.requests.get r = some request ∧
          (insert id request.completedOperationIds).card = request.operationIds.card := by
  induction requestIds generalizing c with
  | nil => simp
  | cons first requestIds ih =>
    obtain ⟨hops, htimeout, hnext, hrequests, hcompleted⟩ := ih (completeRequest id c first)
    simp only [List.foldl_cons]
    cases hget : c.tracker.requests.get first with
    | none =>
      have hsame : completeRequest id c first = c := by rw [completeRequest, hget]
      rw [hsame] at hops htimeout hnext hrequests hcompleted ⊢
      refine ⟨hops, htimeout, hnext, ?_, ?_⟩
      · intro r
        rw [hrequests r]
        by_cases hr : r = first
        · rw [hr, hget]
          rfl
        · simp [hr]
      · intro r
        rw [hcompleted r]
        by_cases hr : r = first
        · rw [hr, hget]
          simp
        · simp [hr]
    | some request =>
      have hone : completeRequest id c first =
          { tracker := { c.tracker with
              requests := c.tracker.requests.insert first { request with
                completedOperationIds := insert id request.completedOperationIds } }
            completed := if (insert id request.completedOperationIds).card =
                request.operationIds.card then insert first c.completed else c.completed } := by
        rw [completeRequest, hget]
      rw [hone] at hops htimeout hnext hrequests hcompleted ⊢
      refine ⟨hops, htimeout, hnext, ?_, ?_⟩
      · intro r
        rw [hrequests r, Map.get_insert]
        by_cases hr : r = first
        · subst hr
          simp [hget]
        · simp [hr]
      · intro r
        rw [hcompleted r]
        by_cases hr : r = first
        · subst hr
          by_cases hcard : (insert id request.completedOperationIds).card =
              request.operationIds.card
          · simp [hget, hcard]
          · simp [hget, hcard]
        · by_cases hcard : (insert id request.completedOperationIds).card =
              request.operationIds.card
          · simp [hr, hcard]
          · simp [hr, hcard]

/-- The loop over the indexed operations, after these: a request is completed once it misses no
other operation. -/
structure Completed (t : MutationTracker) (ids : Finset OperationId) (c : Completing) : Prop where
  timeout : c.tracker.mutationTrackerTimeout = t.mutationTrackerTimeout
  next : c.tracker.nextRequestId = t.nextRequestId
  requests : ∀ r, c.tracker.requests.get r = (t.requests.get r).map (markCompleted ids)
  operations : ∀ id, c.tracker.operationsRequests.get id =
    if id ∈ ids then none else t.operationsRequests.get id
  completed : ∀ r, r ∈ c.completed ↔ ∃ request, t.requests.get r = some request ∧
    request.operationIds ⊆ request.completedOperationIds ∪ ids

theorem completed_start {t : MutationTracker} (h : t.Linked) : Completed t ∅ ⟨t, ∅⟩ where
  timeout := rfl
  next := rfl
  requests r := by
    cases t.requests.get r with
    | none => rfl
    | some request => simp [markCompleted]
  operations id := by simp
  completed r := by
    refine iff_of_false (Finset.notMem_empty r) ?_
    rintro ⟨request, hget, hsub⟩
    rw [Finset.union_empty] at hsub
    exact (h.misses r request hget).2 hsub

section Sets
variable (id : OperationId) (ids wanted done : Finset OperationId)

theorem union_inter_insert (hid : id ∈ wanted) :
    done ∪ (wanted ∩ insert id ids) = insert id (done ∪ (wanted ∩ ids)) := by
  ext x
  simp only [Finset.mem_union, Finset.mem_inter, Finset.mem_insert]
  by_cases hx : x = id
  · simp [hx, hid]
  · simp [hx]

theorem union_inter_insert_of_done (hid : id ∈ wanted → id ∈ done) :
    done ∪ (wanted ∩ insert id ids) = done ∪ (wanted ∩ ids) := by
  ext x
  simp only [Finset.mem_union, Finset.mem_inter, Finset.mem_insert]
  by_cases hx : x = id
  · subst hx
    tauto
  · simp [hx]

theorem subset_union_insert_of_done (hid : id ∈ wanted → id ∈ done) :
    wanted ⊆ done ∪ insert id ids ↔ wanted ⊆ done ∪ ids := by
  constructor
  · intro h x hx
    have := h hx
    rw [Finset.mem_union, Finset.mem_insert] at this
    rw [Finset.mem_union]
    rcases this with hdone | rfl | hids
    · exact Or.inl hdone
    · exact Or.inl (hid hx)
    · exact Or.inr hids
  · intro h
    exact h.trans (Finset.union_subset_union_right (Finset.subset_insert id ids))

/-- The sizes agree exactly when nothing is missing. -/
theorem card_eq_iff_subset (hid : id ∈ wanted) (hdone : done ⊆ wanted) :
    (insert id (done ∪ (wanted ∩ ids))).card = wanted.card ↔ wanted ⊆ done ∪ insert id ids := by
  have hsub : insert id (done ∪ (wanted ∩ ids)) ⊆ wanted := by
    apply Finset.insert_subset hid
    exact Finset.union_subset hdone Finset.inter_subset_left
  constructor
  · intro hcard
    have heq := Finset.eq_of_subset_of_card_le hsub (le_of_eq hcard.symm)
    intro x hx
    rw [← heq, Finset.mem_insert, Finset.mem_union, Finset.mem_inter] at hx
    rw [Finset.mem_union, Finset.mem_insert]
    tauto
  · intro h
    have hback : wanted ⊆ insert id (done ∪ (wanted ∩ ids)) := by
      intro x hx
      have := h hx
      rw [Finset.mem_union, Finset.mem_insert] at this
      rw [Finset.mem_insert, Finset.mem_union, Finset.mem_inter]
      tauto
    rw [Finset.Subset.antisymm hsub hback]

end Sets

theorem Completed.step {t : MutationTracker} {ids : Finset OperationId} {c : Completing}
    (hc : Completed t ids c) (ht : t.Linked) (orders : TrackerOrders) (id : OperationId) :
    Completed t (insert id ids) (completeOperation orders c id) := by
  by_cases hid : id ∈ ids
  · have hget : c.tracker.operationsRequests.get id = none := by rw [hc.operations, if_pos hid]
    rw [Finset.insert_eq_of_mem hid, completeOperation, hget]
    exact hc
  have hops : c.tracker.operationsRequests.get id = t.operationsRequests.get id := by
    rw [hc.operations, if_neg hid]
  cases hget : t.operationsRequests.get id with
  | none =>
    have hsame : completeOperation orders c id = c := by rw [completeOperation, hops, hget]
    have hdone (r : RequestId) (request : WatchedMutationRequest)
        (hr : t.requests.get r = some request) (hmem : id ∈ request.operationIds) :
        id ∈ request.completedOperationIds := by
      by_contra hmissing
      have hlink := (ht.links id r).mpr ⟨request, hr, hmem, hmissing⟩
      rw [hget] at hlink
      exact Finset.notMem_empty r hlink
    rw [hsame]
    refine ⟨hc.timeout, hc.next, ?_, ?_, ?_⟩
    · intro r
      rw [hc.requests r]
      cases hr : t.requests.get r with
      | none => rfl
      | some request =>
        simp only [Option.map_some, markCompleted,
          union_inter_insert_of_done id ids _ _ (hdone r request hr)]
    · intro id'
      simp only [hc.operations id', Finset.mem_insert]
      by_cases heq : id' = id
      · simp [heq, hget]
      · simp [heq]
    · intro r
      rw [hc.completed r]
      constructor
      · rintro ⟨request, hr, hsub⟩
        exact ⟨request, hr, (subset_union_insert_of_done id ids _ _ (hdone r request hr)).mpr hsub⟩
      · rintro ⟨request, hr, hsub⟩
        exact ⟨request, hr, (subset_union_insert_of_done id ids _ _ (hdone r request hr)).mp hsub⟩
  | some linked =>
    have hstep : completeOperation orders c id =
        (orders.requests.order (linked.sort (· ≤ ·))).foldl (completeRequest id)
          { c with tracker := { c.tracker with
              operationsRequests := c.tracker.operationsRequests.erase id } } := by
      rw [completeOperation, hops, hget]
    have hmem (r : RequestId) : r ∈ orders.requests.order (linked.sort (· ≤ ·)) ↔
        ∃ request, t.requests.get r = some request ∧ id ∈ request.operationIds ∧
          id ∉ request.completedOperationIds := by
      have hlinks := ht.links id r
      rw [hget] at hlinks
      rw [(orders.requests.perm _).mem_iff, Finset.mem_sort, ← hlinks]
      rfl
    obtain ⟨hops', htimeout, hnext, hrequests, hcompleted⟩ :=
      foldl_completeRequest id (orders.requests.order (linked.sort (· ≤ ·)))
        { c with tracker := { c.tracker with
            operationsRequests := c.tracker.operationsRequests.erase id } }
    rw [hstep]
    refine ⟨htimeout.trans hc.timeout, hnext.trans hc.next, ?_, ?_, ?_⟩
    · intro r
      rw [hrequests r, hc.requests r]
      cases hr : t.requests.get r with
      | none => rfl
      | some request =>
        have hin : r ∈ orders.requests.order (linked.sort (· ≤ ·)) ↔
            id ∈ request.operationIds ∧ id ∉ request.completedOperationIds := by
          rw [hmem, hr]
          simp
        simp only [Option.map_some, markCompleted]
        by_cases hlinked : id ∈ request.operationIds ∧ id ∉ request.completedOperationIds
        · rw [if_pos (hin.mpr hlinked), union_inter_insert id ids _ _ hlinked.1]
        · rw [if_neg (fun h => hlinked (hin.mp h)), union_inter_insert_of_done id ids]
          tauto
    · intro id'
      rw [hops', Map.get_erase]
      simp only [hc.operations id', Finset.mem_insert]
      by_cases heq : id' = id
      · simp [heq]
      · simp [heq]
    · intro r
      rw [hcompleted r, hmem, hc.completed r, hc.requests r]
      cases hr : t.requests.get r with
      | none => simp
      | some request =>
        have hdone := (ht.misses r request hr).1
        simp only [Option.map_some, Option.some.injEq, exists_eq_left', markCompleted]
        by_cases hlinked : id ∈ request.operationIds ∧ id ∉ request.completedOperationIds
        · rw [card_eq_iff_subset id ids _ _ hlinked.1 hdone]
          have hgrow : request.operationIds ⊆ request.completedOperationIds ∪ ids →
              request.operationIds ⊆ request.completedOperationIds ∪ insert id ids :=
            fun h => h.trans (Finset.union_subset_union_right (Finset.subset_insert id ids))
          tauto
        · rw [subset_union_insert_of_done id ids]
          · tauto
          · tauto

/-- The loop over the indexed operations. -/
theorem Completed.run {t : MutationTracker} {ids : Finset OperationId} {c : Completing}
    (hc : Completed t ids c) (ht : t.Linked) (orders : TrackerOrders) (indexed : List OperationId) :
    Completed t (ids ∪ indexed.toFinset) (indexed.foldl (completeOperation orders) c) := by
  induction indexed generalizing ids c with
  | nil => simpa using hc
  | cons id indexed ih =>
    have hnext := ih (hc.step ht orders id)
    have heq : insert id ids ∪ indexed.toFinset = ids ∪ (id :: indexed).toFinset := by
      ext x
      simp only [Finset.mem_union, Finset.mem_insert, List.toFinset_cons]
      tauto
    rwa [heq] at hnext

end Complete

section Answer

/-- A request that no operation is linked to any more is taken out alone. -/
theorem removeRequest_unlinked (orders : TrackerOrders) (t : MutationTracker) (r : RequestId)
    (request : WatchedMutationRequest) (hget : t.requests.get r = some request)
    (hfree : ∀ id linked, t.operationsRequests.get id = some linked → r ∉ linked) :
    t.removeRequest orders r = (some request, { t with requests := t.requests.erase r }) := by
  rw [removeRequest, hget]
  dsimp only
  rw [List.foldl_fixed']
  intro id
  unfold removeOperationRequest
  dsimp only
  cases hlinked : t.operationsRequests.get id with
  | none => rfl
  | some linked =>
    have hsame : t.operationsRequests.insert id (linked.erase r) = t.operationsRequests := by
      apply Map.ext_get
      intro id'
      rw [Map.get_insert, Finset.erase_eq_of_notMem (hfree id linked hlinked)]
      split_ifs with heq
      · rw [heq, hlinked]
      · rfl
    dsimp only
    rw [hsame]

theorem answerCompleted_held (orders : TrackerOrders) (requestIds : List RequestId)
    (t : MutationTracker) (hnodup : requestIds.Nodup)
    (hheld : ∀ r ∈ requestIds, ∃ request, t.requests.get r = some request)
    (hfree : ∀ r ∈ requestIds, ∀ id linked,
      t.operationsRequests.get id = some linked → r ∉ linked) :
    (answerCompleted orders requestIds t).1.map MutationAnswer.requestId = requestIds ∧
      ∃ requests, (answerCompleted orders requestIds t).2 = { t with requests := requests } ∧
        ∀ r, requests.get r = if r ∈ requestIds then none else t.requests.get r := by
  induction requestIds generalizing t with
  | nil => exact ⟨rfl, t.requests, rfl, fun r => by simp⟩
  | cons first requestIds ih =>
    obtain ⟨hfirst, hrest⟩ := List.nodup_cons.mp hnodup
    obtain ⟨request, hget⟩ := hheld first List.mem_cons_self
    have hremove := removeRequest_unlinked orders t first request hget
      (hfree first List.mem_cons_self)
    obtain ⟨hanswers, requests, hstate, hrequests⟩ :=
      ih { t with requests := t.requests.erase first } hrest
        (by
          intro r hr
          obtain ⟨request', hget'⟩ := hheld r (List.mem_cons_of_mem _ hr)
          have hne : r ≠ first := fun h => hfirst (h ▸ hr)
          refine ⟨request', ?_⟩
          rw [Map.get_erase, if_neg hne, hget'])
        (fun r hr => hfree r (List.mem_cons_of_mem _ hr))
    rw [answerCompleted, hremove]
    dsimp only
    refine ⟨congrArg (first :: ·) hanswers, requests, hstate, ?_⟩
    intro r
    rw [hrequests r, Map.get_erase]
    by_cases hr : r = first
    · simp [hr]
    · simp [hr]

theorem cleanupExpired_prompt (orders : TrackerOrders) (now : ℕ) (t : MutationTracker)
    (h : ∀ r request, t.requests.get r = some request →
      now - request.receivedTime ≤ t.mutationTrackerTimeout) :
    t.cleanupExpired orders now = t := by
  have hnone : (t.requests.keys.filter fun requestId =>
      (t.requests.get requestId).any fun request =>
        t.mutationTrackerTimeout < now - request.receivedTime) = [] := by
    rw [List.filter_eq_nil_iff]
    intro r _
    cases hget : t.requests.get r with
    | none => simp
    | some request =>
      have := h r request hget
      simpa using this
  have horder : orders.requests.order ([] : List RequestId) = [] :=
    List.Perm.eq_nil (orders.requests.perm [])
  unfold cleanupExpired
  dsimp only
  rw [hnone, horder, if_pos rfl]

end Answer

/-- What a call with these operations does, where no request has timed out. -/
structure Handled (t : MutationTracker) (ids : Finset OperationId) (answers : List MutationAnswer)
    (t' : MutationTracker) : Prop where
  once : (answers.map MutationAnswer.requestId).Nodup
  answered : ∀ r, r ∈ answers.map MutationAnswer.requestId ↔
    ∃ request, t.requests.get r = some request ∧
      request.operationIds ⊆ request.completedOperationIds ∪ ids
  next : t'.nextRequestId = t.nextRequestId
  requests : ∀ r, t'.requests.get r = (t.requests.get r).bind fun request =>
    if request.operationIds ⊆ request.completedOperationIds ∪ ids then none
    else some (markCompleted ids request)
  operations : ∀ id, t'.operationsRequests.get id =
    if id ∈ ids then none else t.operationsRequests.get id

theorem Linked.handled {t : MutationTracker} (ht : t.Linked) (orders : TrackerOrders) (now : ℕ)
    (indexed : List OperationId)
    (hprompt : ∀ r request, t.requests.get r = some request →
      now - request.receivedTime ≤ t.mutationTrackerTimeout) :
    Handled t indexed.toFinset (t.handleIndexedOperations orders now indexed).1
      (t.handleIndexedOperations orders now indexed).2 := by
  have hc := (completed_start ht).run ht orders indexed
  rw [Finset.empty_union] at hc
  unfold handleIndexedOperations
  dsimp only
  generalize indexed.foldl (completeOperation orders) ⟨t, ∅⟩ = c at hc ⊢
  generalize hids : orders.requests.order (c.completed.sort (· ≤ ·)) = requestIds
  have hmem (r : RequestId) : r ∈ requestIds ↔ ∃ request, t.requests.get r = some request ∧
      request.operationIds ⊆ request.completedOperationIds ∪ indexed.toFinset := by
    rw [← hids, (orders.requests.perm _).mem_iff, Finset.mem_sort, hc.completed r]
  have hnodup : requestIds.Nodup := by
    rw [← hids, (orders.requests.perm _).nodup_iff]
    exact Finset.sort_nodup _ _
  have hheld : ∀ r ∈ requestIds, ∃ request, c.tracker.requests.get r = some request := by
    intro r hr
    obtain ⟨request, hget, -⟩ := (hmem r).mp hr
    exact ⟨_, by rw [hc.requests r, hget, Option.map_some]⟩
  have hfree : ∀ r ∈ requestIds, ∀ id linked,
      c.tracker.operationsRequests.get id = some linked → r ∉ linked := by
    intro r hr id linked hlinked hin
    rw [hc.operations id] at hlinked
    split_ifs at hlinked with hid
    obtain ⟨request, hget, hsub⟩ := (hmem r).mp hr
    obtain ⟨request', hget', hwanted, hmissing⟩ := (ht.links id r).mp (by rw [hlinked]; exact hin)
    rw [hget, Option.some.injEq] at hget'
    subst hget'
    rcases Finset.mem_union.mp (hsub hwanted) with hdone | hdone
    · exact hmissing hdone
    · exact hid hdone
  obtain ⟨hanswers, requests, hstate, hrequests⟩ :=
    answerCompleted_held orders requestIds c.tracker hnodup hheld hfree
  have hafter (r : RequestId) : requests.get r = (t.requests.get r).bind fun request =>
      if request.operationIds ⊆ request.completedOperationIds ∪ indexed.toFinset then none
      else some (markCompleted indexed.toFinset request) := by
    rw [hrequests r, hc.requests r]
    cases hget : t.requests.get r with
    | none => simp
    | some request =>
      have hin : r ∈ requestIds ↔
          request.operationIds ⊆ request.completedOperationIds ∪ indexed.toFinset := by
        rw [hmem r, hget]
        simp
      simp only [hin, Option.map_some, Option.bind_some]
  have hclean : (answerCompleted orders requestIds c.tracker).2.cleanupExpired orders now =
      { c.tracker with requests := requests } := by
    rw [hstate]
    apply cleanupExpired_prompt
    intro r request hget
    change requests.get r = some request at hget
    rw [hafter r] at hget
    obtain ⟨before, hbefore, hcase⟩ := Option.bind_eq_some_iff.mp hget
    split_ifs at hcase
    have := hprompt r before hbefore
    rw [← Option.some.inj hcase]
    change now - before.receivedTime ≤ c.tracker.mutationTrackerTimeout
    rw [hc.timeout]
    exact this
  rw [hclean]
  refine ⟨by rw [hanswers]; exact hnodup, ?_, hc.next, hafter, hc.operations⟩
  intro r
  rw [hanswers, hmem r]

theorem Handled.linked {t t' : MutationTracker} {ids : Finset OperationId}
    {answers : List MutationAnswer} (h : Handled t ids answers t') (ht : t.Linked) : t'.Linked where
  links id r := by
    have hlinks := ht.links id r
    rw [h.operations id, h.requests r]
    by_cases hid : id ∈ ids
    · rw [if_pos hid]
      refine iff_of_false (Finset.notMem_empty r) ?_
      rintro ⟨request, hget, hwanted, hmissing⟩
      obtain ⟨before, hbefore, hcase⟩ := Option.bind_eq_some_iff.mp hget
      split_ifs at hcase
      rw [← Option.some.inj hcase] at hwanted hmissing
      apply hmissing
      exact Finset.mem_union_right _ (Finset.mem_inter.mpr ⟨hwanted, hid⟩)
    · rw [if_neg hid, hlinks]
      cases hget : t.requests.get r with
      | none => simp
      | some request =>
        simp only [Option.some.injEq, exists_eq_left', Option.bind_some]
        constructor
        · rintro ⟨hwanted, hmissing⟩
          have hnot : ¬ request.operationIds ⊆ request.completedOperationIds ∪ ids := by
            intro hsub
            rcases Finset.mem_union.mp (hsub hwanted) with hdone | hdone
            · exact hmissing hdone
            · exact hid hdone
          refine ⟨_, if_neg hnot, hwanted, ?_⟩
          intro hmarked
          rcases Finset.mem_union.mp hmarked with hdone | hdone
          · exact hmissing hdone
          · exact hid (Finset.mem_inter.mp hdone).2
        · rintro ⟨after, hcase, hwanted, hmissing⟩
          split_ifs at hcase
          rw [← Option.some.inj hcase] at hwanted hmissing
          exact ⟨hwanted, fun hdone => hmissing (Finset.mem_union_left _ hdone)⟩
  inhabited id := by
    rw [h.operations id]
    split_ifs
    · intro h
      cases h
    · exact ht.inhabited id
  misses r request hget := by
    rw [h.requests r] at hget
    obtain ⟨before, hbefore, hcase⟩ := Option.bind_eq_some_iff.mp hget
    split_ifs at hcase with hsub
    rw [← Option.some.inj hcase]
    refine ⟨Finset.union_subset (ht.misses r before hbefore).1 Finset.inter_subset_left, ?_⟩
    intro hback
    apply hsub
    exact hback.trans (Finset.union_subset_union_right Finset.inter_subset_right)
  below r request hget := by
    rw [h.requests r] at hget
    obtain ⟨before, hbefore, -⟩ := Option.bind_eq_some_iff.mp hget
    rw [h.next]
    exact ht.below r before hbefore

end MutationTracker

/-- A request of a run, with the operations that were indexed since it was tracked. The requests
of a run are in the order of their ids. -/
structure TrackedRequest where
  operationIds : List OperationId
  indexed : List OperationId

namespace TrackedRequest

def Done (request : TrackedRequest) : Prop := ∀ id ∈ request.operationIds, id ∈ request.indexed

instance (request : TrackedRequest) : Decidable request.Done :=
  inferInstanceAs (Decidable (∀ id ∈ request.operationIds, id ∈ request.indexed))

/-- What the tracker holds of a request until it is done. -/
def held (request : TrackedRequest) : Option (Finset OperationId × Finset OperationId) :=
  if request.Done then none
  else some (request.operationIds.toFinset,
    request.operationIds.toFinset ∩ request.indexed.toFinset)

def index (ids : List OperationId) (request : TrackedRequest) : TrackedRequest :=
  { request with indexed := request.indexed ++ ids }

end TrackedRequest

def TrackerCall.tracked (requests : List TrackedRequest) : TrackerCall → List TrackedRequest
  | .trackRequest _ ids => requests ++ [⟨ids, []⟩]
  | .handleIndexedOperations _ _ ids => requests.map (TrackedRequest.index ids)

/-- The requests that these calls have tracked. -/
def trackedBy (calls : List TrackerCall) : List TrackedRequest :=
  Run.exec TrackerCall.tracked [] calls

/-- A request names operations, and no request that is held has timed out. -/
def TrackerCall.Prompt (t : MutationTracker) : TrackerCall → Prop
  | .trackRequest _ ids => ids ≠ []
  | .handleIndexedOperations _ now _ => ∀ r request, t.requests.get r = some request →
    now - request.receivedTime ≤ t.mutationTrackerTimeout

/-- The answers of a call: one for each request that is done after it and was not before. -/
structure AnswersDue (before after : List TrackedRequest) (answers : List MutationAnswer) :
    Prop where
  once : (answers.map MutationAnswer.requestId).Nodup
  due : ∀ r, r ∈ answers.map MutationAnswer.requestId ↔
    ∃ request request', before[r]? = some request ∧ ¬ request.Done ∧
      after[r]? = some request' ∧ request'.Done
  ids : ∀ answer ∈ answers, ∃ request, before[answer.requestId]? = some request ∧
    answer.operationIds.Nodup ∧ ∀ id, id ∈ answer.operationIds ↔ id ∈ request.operationIds

namespace MutationTracker

/-- The tracker holds the requests of these that are not done. -/
structure HoldsOf (requests : List TrackedRequest) (t : MutationTracker) : Prop where
  linked : t.Linked
  next : t.nextRequestId = requests.length
  held : ∀ r, (t.requests.get r).map
      (fun request => (request.operationIds, request.completedOperationIds)) =
    requests[r]?.bind TrackedRequest.held

/-- The request has this id and is done. -/
def DoneIn (requests : List TrackedRequest) (r : RequestId) : Prop :=
  ∃ request, requests[r]? = some request ∧ request.Done

theorem index_done_iff (request : TrackedRequest) (ids : List OperationId) :
    (request.index ids).Done ↔ request.operationIds.toFinset ⊆
      (request.operationIds.toFinset ∩ request.indexed.toFinset) ∪ ids.toFinset := by
  constructor
  · intro h id hid
    have := h id (List.mem_toFinset.mp hid)
    simp only [TrackedRequest.index, List.mem_append] at this
    simp only [Finset.mem_union, Finset.mem_inter, List.mem_toFinset] at hid ⊢
    tauto
  · intro h id hid
    have := h (List.mem_toFinset.mpr hid)
    simp only [Finset.mem_union, Finset.mem_inter, List.mem_toFinset] at this
    simp only [TrackedRequest.index, List.mem_append]
    tauto

theorem Done.index {request : TrackedRequest} (h : request.Done) (ids : List OperationId) :
    (request.index ids).Done := fun id hid => List.mem_append_left _ (h id hid)

/-- A request that was tracked stays tracked with its operations, and done once it is. -/
theorem getElem_tracked (requests : List TrackedRequest) (call : TrackerCall) (r : RequestId)
    (request : TrackedRequest) (h : requests[r]? = some request) :
    ∃ request', (call.tracked requests)[r]? = some request' ∧
      request'.operationIds = request.operationIds ∧ (request.Done → request'.Done) := by
  cases call with
  | trackRequest now ids =>
    have hlt : r < requests.length := (List.getElem?_eq_some_iff.mp h).1
    refine ⟨request, ?_, rfl, id⟩
    rw [TrackerCall.tracked, List.getElem?_append_left hlt, h]
  | handleIndexedOperations orders now ids =>
    refine ⟨request.index ids, ?_, rfl, fun hdone => Done.index hdone ids⟩
    rw [TrackerCall.tracked, List.getElem?_map, h, Option.map_some]

/-- A request is not done when it is tracked. -/
theorem doneIn_tracked (requests : List TrackedRequest) (t : MutationTracker) (call : TrackerCall)
    (hprompt : call.Prompt t) (r : RequestId) (h : DoneIn (call.tracked requests) r) :
    ∃ request, requests[r]? = some request := by
  obtain ⟨request', hget', hdone⟩ := h
  rcases hget : requests[r]? with _ | request
  · exfalso
    cases call with
    | trackRequest now ids =>
      rw [TrackerCall.tracked, List.getElem?_append, hget] at hget'
      split_ifs at hget' with hlt
      rcases hlast : r - requests.length with _ | n
      · rw [hlast] at hget'
        obtain ⟨id, hid⟩ := List.exists_mem_of_ne_nil ids hprompt
        rw [← Option.some.inj hget'] at hdone
        exact List.not_mem_nil (hdone id hid)
      · rw [hlast] at hget'
        cases hget'
    | handleIndexedOperations orders now ids =>
      rw [TrackerCall.tracked, List.getElem?_map, hget] at hget'
      cases hget'
  · exact ⟨request, rfl⟩

theorem doneIn_mono (requests : List TrackedRequest) (calls : List TrackerCall) (r : RequestId)
    (h : DoneIn requests r) : DoneIn (Run.exec TrackerCall.tracked requests calls) r := by
  induction calls generalizing requests with
  | nil => exact h
  | cons call calls ih =>
    apply ih
    obtain ⟨request, hget, hdone⟩ := h
    obtain ⟨request', hget', -, hkeeps⟩ := getElem_tracked requests call r request hget
    exact ⟨request', hget', hkeeps hdone⟩

theorem holdsOf_new (timeout : ℕ) : HoldsOf [] (new timeout) :=
  ⟨linked_new timeout, rfl, fun _ => rfl⟩

theorem HoldsOf.track {requests : List TrackedRequest} {t : MutationTracker}
    (h : HoldsOf requests t) (now : ℕ) (ids : List OperationId) (hids : ids ≠ []) :
    HoldsOf (requests ++ [⟨ids, []⟩]) (t.trackRequest now ids) where
  linked := h.linked.trackRequest now ids hids
  next := by
    rw [trackRequest_nextRequestId, h.next, List.length_append, List.length_singleton]
  held r := by
    have hheld := h.held r
    rw [get_trackRequest, List.getElem?_append, h.next]
    by_cases hr : r = requests.length
    · have hnot : ¬ TrackedRequest.Done ⟨ids, []⟩ := by
        obtain ⟨id, hid⟩ := List.exists_mem_of_ne_nil ids hids
        exact fun hdone => List.not_mem_nil (hdone id hid)
      have hat : r - requests.length = 0 := by rw [hr, Nat.sub_self]
      rw [if_pos hr, if_neg (not_lt.mpr (le_of_eq hr.symm)), hat, List.getElem?_cons_zero,
        Option.bind_some, TrackedRequest.held, if_neg hnot, List.toFinset_nil, Finset.inter_empty,
        Option.map_some]
    · rw [if_neg hr, hheld]
      by_cases hlt : r < requests.length
      · rw [if_pos hlt]
      · have hlast : ([⟨ids, []⟩] : List TrackedRequest)[r - requests.length]? = none := by
          have hbehind := lt_of_le_of_ne (not_lt.mp hlt) (Ne.symm hr)
          rw [List.getElem?_eq_none_iff, List.length_singleton]
          exact Nat.sub_pos_of_lt hbehind
        rw [if_neg hlt, hlast, List.getElem?_eq_none (not_lt.mp hlt)]

theorem HoldsOf.handle {requests : List TrackedRequest} {t t' : MutationTracker}
    {ids : List OperationId} {answers : List MutationAnswer} (h : HoldsOf requests t)
    (hhandled : Handled t ids.toFinset answers t') :
    HoldsOf (requests.map (TrackedRequest.index ids)) t' where
  linked := hhandled.linked h.linked
  next := by rw [hhandled.next, h.next, List.length_map]
  held r := by
    have hheld := h.held r
    rw [hhandled.requests r, List.getElem?_map]
    cases hrequest : requests[r]? with
    | none =>
      rw [hrequest, Option.bind_none, Option.map_eq_none_iff] at hheld
      rw [hheld]
      rfl
    | some request =>
      rw [hrequest, Option.bind_some, TrackedRequest.held] at hheld
      rw [Option.map_some, Option.bind_some, TrackedRequest.held]
      by_cases hdone : request.Done
      · rw [if_pos hdone, Option.map_eq_none_iff] at hheld
        rw [hheld, if_pos (Done.index hdone ids)]
        rfl
      · rw [if_neg hdone] at hheld
        obtain ⟨watched, hget, hpair⟩ := Option.map_eq_some_iff.mp hheld
        obtain ⟨hwanted, hcompleted⟩ := Prod.mk.inj hpair
        rw [hget, Option.bind_some, hwanted, hcompleted]
        by_cases hnow : (request.index ids).Done
        · rw [if_pos hnow, if_pos ((index_done_iff request ids).mp hnow)]
          rfl
        · rw [if_neg hnow, if_neg (fun hsub => hnow ((index_done_iff request ids).mpr hsub))]
          simp only [Option.map_some, markCompleted, hwanted, hcompleted, TrackedRequest.index,
            List.toFinset_append, Finset.inter_union_distrib_left]

theorem answersDue_nil {requests after : List TrackedRequest}
    (h : ∀ r, DoneIn after r → DoneIn requests r) : AnswersDue requests after [] where
  once := List.nodup_nil
  due r := by
    refine iff_of_false List.not_mem_nil ?_
    rintro ⟨request, request', hbefore, hnot, hafter, hdone⟩
    obtain ⟨found, hfound, hfoundDone⟩ := h r ⟨request', hafter, hdone⟩
    rw [hbefore] at hfound
    exact hnot (Option.some.inj hfound ▸ hfoundDone)
  ids answer h := absurd h List.not_mem_nil

theorem HoldsOf.get_some {requests : List TrackedRequest} {t : MutationTracker}
    (h : HoldsOf requests t) (r : RequestId) (watched : WatchedMutationRequest)
    (hget : t.requests.get r = some watched) :
    ∃ request, requests[r]? = some request ∧ ¬ request.Done ∧
      watched.operationIds = request.operationIds.toFinset ∧
      watched.completedOperationIds =
        request.operationIds.toFinset ∩ request.indexed.toFinset := by
  have hheld := h.held r
  rw [hget, Option.map_some] at hheld
  obtain ⟨request, hrequest, hpair⟩ := Option.bind_eq_some_iff.mp hheld.symm
  rw [TrackedRequest.held] at hpair
  split_ifs at hpair with hdone
  obtain ⟨hwanted, hcompleted⟩ := Prod.mk.inj (Option.some.inj hpair)
  exact ⟨request, hrequest, hdone, hwanted.symm, hcompleted.symm⟩

theorem HoldsOf.exists_get {requests : List TrackedRequest} {t : MutationTracker}
    (h : HoldsOf requests t) (r : RequestId) (request : TrackedRequest)
    (hrequest : requests[r]? = some request) (hnot : ¬ request.Done) :
    ∃ watched, t.requests.get r = some watched := by
  have hheld := h.held r
  rw [hrequest, Option.bind_some, TrackedRequest.held, if_neg hnot] at hheld
  obtain ⟨watched, hget, -⟩ := Option.map_eq_some_iff.mp hheld
  exact ⟨watched, hget⟩

/-- One call keeps the tracker in step with the requests, and answers those that it completes. -/
theorem HoldsOf.step {requests : List TrackedRequest} {t : MutationTracker}
    (h : HoldsOf requests t) (call : TrackerCall) (hprompt : call.Prompt t) :
    HoldsOf (call.tracked requests) (call.step t).2 ∧
      AnswersDue requests (call.tracked requests) (call.step t).1 := by
  cases call with
  | trackRequest now ids =>
    refine ⟨h.track now ids hprompt, answersDue_nil ?_⟩
    intro r hdone
    obtain ⟨request, hget⟩ := doneIn_tracked requests t (.trackRequest now ids) hprompt r hdone
    obtain ⟨request', hget', hdone'⟩ := hdone
    have hlt : r < requests.length := (List.getElem?_eq_some_iff.mp hget).1
    rw [TrackerCall.tracked, List.getElem?_append_left hlt] at hget'
    exact ⟨request', hget', hdone'⟩
  | handleIndexedOperations orders now ids =>
    have hhandled := h.linked.handled orders now ids hprompt
    refine ⟨h.handle hhandled, hhandled.once, ?_, ?_⟩
    · intro r
      change r ∈ ((t.handleIndexedOperations orders now ids).1.map MutationAnswer.requestId) ↔ _
      rw [hhandled.answered r]
      constructor
      · rintro ⟨watched, hget, hsub⟩
        obtain ⟨request, hrequest, hnot, hwanted, hcompleted⟩ := h.get_some r watched hget
        rw [hwanted, hcompleted] at hsub
        refine ⟨request, request.index ids, hrequest, hnot, ?_,
          (index_done_iff request ids).mpr hsub⟩
        rw [TrackerCall.tracked, List.getElem?_map, hrequest, Option.map_some]
      · rintro ⟨request, request', hrequest, hnot, hrequest', hdone⟩
        rw [TrackerCall.tracked, List.getElem?_map, hrequest, Option.map_some,
          Option.some.injEq] at hrequest'
        subst hrequest'
        obtain ⟨watched, hget⟩ := h.exists_get r request hrequest hnot
        obtain ⟨found, hfound, -, hwanted, hcompleted⟩ := h.get_some r watched hget
        rw [hrequest, Option.some.injEq] at hfound
        subst hfound
        refine ⟨watched, hget, ?_⟩
        rw [hwanted, hcompleted]
        exact (index_done_iff request ids).mp hdone
    · intro answer hanswer
      obtain ⟨watched, hget, hnodup, hmem⟩ :=
        (handleIndexedOperations_spec t orders now ids).1 answer hanswer
      obtain ⟨request, hrequest, -, hwanted, -⟩ := h.get_some _ watched hget
      refine ⟨request, hrequest, hnodup, ?_⟩
      intro id
      rw [hmem id, hwanted, List.mem_toFinset]

theorem AnswersDue.mem_iff {before after : List TrackedRequest} {answers : List MutationAnswer}
    (h : AnswersDue before after answers) (r : RequestId)
    (hnew : DoneIn after r → ∃ request, before[r]? = some request) :
    r ∈ answers.map MutationAnswer.requestId ↔ ¬ DoneIn before r ∧ DoneIn after r := by
  rw [h.due r]
  constructor
  · rintro ⟨request, request', hbefore, hnot, hafter, hdone⟩
    refine ⟨?_, request', hafter, hdone⟩
    rintro ⟨found, hfound, hfoundDone⟩
    rw [hbefore] at hfound
    exact hnot (Option.some.inj hfound ▸ hfoundDone)
  · rintro ⟨hnot, hdone⟩
    obtain ⟨request, hrequest⟩ := hnew hdone
    obtain ⟨request', hafter, hdone'⟩ := hdone
    exact ⟨request, request', hrequest, fun h => hnot ⟨request, hrequest, h⟩, hafter, hdone'⟩

section Run

/-- The ids of the requests that a run answers, in the order of the answers. -/
def answeredIds (t : MutationTracker) (calls : List TrackerCall) : List RequestId :=
  (Run.outputs TrackerCall.step t calls).flatten.map MutationAnswer.requestId

theorem holdsOf_final {requests : List TrackedRequest} {t : MutationTracker}
    (h : HoldsOf requests t) (calls : List TrackerCall)
    (hcalls : Run.Allowed (fun t call => (call.step t).2) (fun t call => call.Prompt t) t calls) :
    HoldsOf (Run.exec TrackerCall.tracked requests calls) (Run.final (fun t call => call.step t) t calls) := by
  induction calls generalizing requests t with
  | nil => exact h
  | cons call calls ih => exact ih (h.step call hcalls.1).1 hcalls.2

/-- A run answers each request that is done in it, once. -/
theorem answeredIds_spec {requests : List TrackedRequest} {t : MutationTracker}
    (h : HoldsOf requests t) (calls : List TrackerCall)
    (hcalls : Run.Allowed (fun t call => (call.step t).2) (fun t call => call.Prompt t) t calls) :
    (answeredIds t calls).Nodup ∧ ∀ r, r ∈ answeredIds t calls ↔
      ¬ DoneIn requests r ∧ DoneIn (Run.exec TrackerCall.tracked requests calls) r := by
  induction calls generalizing requests t with
  | nil =>
    refine ⟨List.nodup_nil, ?_⟩
    intro r
    exact iff_of_false List.not_mem_nil (fun hr => hr.1 hr.2)
  | cons call calls ih =>
    obtain ⟨hprompt, hrest⟩ := hcalls
    obtain ⟨hnext, hdue⟩ := h.step call hprompt
    obtain ⟨hnodup, hmem⟩ := ih hnext hrest
    have hfirst (r : RequestId) := AnswersDue.mem_iff hdue r (doneIn_tracked requests t call hprompt r)
    have hcons : answeredIds t (call :: calls) =
        (call.step t).1.map MutationAnswer.requestId ++ answeredIds (call.step t).2 calls := by
      simp [answeredIds, Run.outputs]
    rw [hcons]
    constructor
    · refine List.nodup_append.mpr ⟨hdue.once, hnodup, ?_⟩
      rintro r hr r' hr' rfl
      exact ((hmem r).mp hr').1 ((hfirst r).mp hr).2
    · intro r
      rw [List.mem_append, hfirst r, hmem r, Run.exec_cons]
      have hkeep : DoneIn requests r → DoneIn (call.tracked requests) r :=
        doneIn_mono requests [call] r
      have hend := doneIn_mono (call.tracked requests) calls r
      tauto

/-- Where no request that is held has timed out, each call answers just the requests that it
completes, with their operations. No request is answered twice, and when all are answered the
tracker holds nothing. -/
theorem answered_exactly_once (timeout : ℕ) (calls : List TrackerCall)
    (hcalls : Run.Allowed (fun t call => (call.step t).2) (fun t call => call.Prompt t)
      (new timeout) calls) :
    (∀ before call after, calls = before ++ call :: after →
      AnswersDue (trackedBy before) (trackedBy (before ++ [call]))
        (call.step (Run.final (fun t call => call.step t) (new timeout) before)).1) ∧
      (answeredIds (new timeout) calls).Nodup ∧
      ((∀ r < (trackedBy calls).length, r ∈ answeredIds (new timeout) calls) →
        (Run.final (fun t call => call.step t) (new timeout) calls).requests = .empty ∧
          (Run.final (fun t call => call.step t) (new timeout) calls).operationsRequests =
            .empty) := by
  have hstart := holdsOf_new timeout
  obtain ⟨hnodup, hmem⟩ := answeredIds_spec hstart calls hcalls
  refine ⟨?_, hnodup, ?_⟩
  · rintro before call after rfl
    obtain ⟨hbefore, hrest⟩ := (Run.allowed_append_iff _ _ _ _ _).mp hcalls
    have hheld := holdsOf_final hstart before hbefore
    have hdue := (hheld.step call hrest.1).2
    have hlast : trackedBy (before ++ [call]) = call.tracked (trackedBy before) :=
      Run.exec_append TrackerCall.tracked [] before [call]
    rw [hlast]
    exact hdue
  · intro hall
    have hend := holdsOf_final hstart calls hcalls
    have hnone (r : RequestId) :
        (Run.final (fun t call => call.step t) (new timeout) calls).requests.get r = none := by
      rcases hget : (Run.final (fun t call => call.step t) (new timeout) calls).requests.get r with
        _ | watched
      · exact hget
      · obtain ⟨request, hrequest, hnot, -, -⟩ := hend.get_some r watched hget
        have hlt : r < (trackedBy calls).length := (List.getElem?_eq_some_iff.mp hrequest).1
        obtain ⟨found, hfound, hdone⟩ := ((hmem r).mp (hall r hlt)).2
        rw [hrequest] at hfound
        exact absurd (Option.some.inj hfound ▸ hdone) hnot
    refine ⟨Map.ext_get _ _ fun r => hnone r, Map.ext_get _ _ ?_⟩
    intro id
    rcases hget : (Run.final (fun t call => call.step t)
        (new timeout) calls).operationsRequests.get id with _ | linked
    · exact hget
    · exfalso
      have hne : linked ≠ ∅ := by
        rintro rfl
        exact hend.linked.inhabited id hget
      obtain ⟨r, hr⟩ := Finset.nonempty_iff_ne_empty.mpr hne
      obtain ⟨watched, hwatched, -⟩ := (hend.linked.links id r).mp (by rw [hget]; exact hr)
      rw [hnone r] at hwatched
      cases hwatched

/-- Two requests share an operation, which is indexed twice and named twice. -/
def sharedCalls : List TrackerCall :=
  let orders : TrackerOrders := ⟨.same, .same⟩
  [.trackRequest 0 [1, 2, 1], .trackRequest 0 [2, 3], .handleIndexedOperations orders 0 [2, 2, 1],
    .handleIndexedOperations orders 0 [2, 3]]

theorem sharedCalls_answered :
    (∀ before call after, sharedCalls = before ++ call :: after →
      AnswersDue (trackedBy before) (trackedBy (before ++ [call]))
        (call.step (Run.final (fun t call => call.step t) (new 10) before)).1) ∧
      (answeredIds (new 10) sharedCalls).Nodup ∧
      ((∀ r < (trackedBy sharedCalls).length, r ∈ answeredIds (new 10) sharedCalls) →
        (Run.final (fun t call => call.step t) (new 10) sharedCalls).requests = .empty ∧
          (Run.final (fun t call => call.step t) (new 10) sharedCalls).operationsRequests =
            .empty) := by
  apply answered_exactly_once 10 sharedCalls
  refine ⟨List.cons_ne_nil _ _, List.cons_ne_nil _ _, ?_, ?_, trivial⟩
  · intro r request _
    rw [Nat.zero_sub]
    exact Nat.zero_le _
  · intro r request _
    rw [Nat.zero_sub]
    exact Nat.zero_le _

end Run

end MutationTracker
end Exocore.Store
