import Exocore.StoreIndexNotify

/-! Calls of the store with events of the engine: what becomes visible by the call is given to
the mutation tracker and counted. -/
namespace Exocore.Store

open Exocore.Core

namespace EntityIndex

/-- The operations that re-indexing takes from the blocks and the pending store are seen. -/
def ReindexSeen (engine : EngineHandle) (index : EntityIndex) (seen : List OperationId) : Prop :=
  ∀ op ∈ unindexedOperations engine ((index.offsetFrom engine).getD 0),
    IndexOperation.fromPendingEngineOperation op ≠ [] → op.operationId ∈ seen

/-- The operations that the chain index gets are seen. -/
def AddedSeen (overflowChecks : Bool) (engine : EngineHandle) (index : EntityIndex) : Prop :=
  ∀ doc ∈ addedDocuments overflowChecks engine index, doc.operationId ∈ index.visible

/-- The two together, where both indices are filled again. -/
def AllSeen (overflowChecks : Bool) (engine : EngineHandle) (index : EntityIndex) : Prop :=
  AddedSeen overflowChecks engine index ∧
    ReindexSeen engine (indexChainNewBlocks overflowChecks engine index).2 index.visible

/-- The writer takes what filling both indices again applies. -/
def RefillTaken (overflowChecks : Bool) (engine : EngineHandle) (index : EntityIndex) : Prop :=
  index.BlocksTaken overflowChecks engine ∧
    (indexChainNewBlocks overflowChecks engine index).2.ReindexTaken engine

/-- The event ends the call with an error. -/
def FailsEvent (overflowChecks : Bool) (engine : EngineHandle) (index : EntityIndex) :
    EngineEvent → Prop
  | .started => FailsIndexing overflowChecks engine index
  | .streamDiscontinuity => False
  | .newChainBlock _ => FailsIndexing overflowChecks engine index
  | .chainDiverged diverged => match index.chainIndex.highestIndexedBlock with
    | some lastIndexed => diverged ≤ lastIndexed
    | none => FailsIndexing overflowChecks engine index
  | .newPendingOperation _ => False

/-- The writer takes what the event applies. -/
def EventTaken (overflowChecks : Bool) (engine : EngineHandle) (index : EntityIndex) :
    EngineEvent → Prop
  | .started => RefillTaken overflowChecks engine index
  | .streamDiscontinuity => index.ReindexTaken engine
  | .newChainBlock _ => index.BlocksTaken overflowChecks engine
  | .chainDiverged _ => match index.chainIndex.highestIndexedBlock with
    | some _ => index.ReindexTaken engine
    | none => RefillTaken overflowChecks engine index
  | .newPendingOperation _ => True

/-- The writer takes what the events apply, each in the state that those before it leave, as far as
none has failed. -/
def EventsTaken (overflowChecks : Bool) (engine : EngineHandle) :
    List OperationId → List EngineEvent → EntityIndex → Prop
  | batched, [], _ => BatchTaken engine batched
  | batched, .newPendingOperation id :: events, index =>
    EventsTaken overflowChecks engine (batched ++ [id]) events index
  | batched, event :: events, index =>
    let index' := (applyBatch engine batched index).2
    BatchTaken engine batched ∧ (¬ FailsEvent overflowChecks engine index' event →
      EventTaken overflowChecks engine index' event ∧
        EventsTaken overflowChecks engine [] events
          (handleEvent overflowChecks engine event index').2)

/-- What an event must meet for the operations it makes visible to be notified. -/
def AnnouncesEvent (overflowChecks : Bool) (engine : EngineHandle) (index : EntityIndex) :
    EngineEvent → Prop
  | .started => AllSeen overflowChecks engine index
  | .streamDiscontinuity => ReindexSeen engine index index.visible
  | .newChainBlock _ => index.pendingIndex.committed ≠ [] ∨ AddedSeen overflowChecks engine index
  | .chainDiverged _ => match index.chainIndex.highestIndexedBlock with
    | some _ => ReindexSeen engine index index.visible
    | none => AllSeen overflowChecks engine index
  | .newPendingOperation _ => True

section Events

variable (overflowChecks : Bool) (engine : EngineHandle) (index : EntityIndex)

theorem reindexPending_ok (htaken : index.ReindexTaken engine) :
    ∃ index', reindexPending engine index = (.ok (), index') ∧
      (index.Committed → index'.Committed) ∧
      index'.chainIndex = index.chainIndex :=
  ⟨_, reindexPending_eq engine index htaken, fun h => ⟨rfl, h.chain⟩, rfl⟩

theorem reindexed_heard_iff (htaken : index.ReindexTaken engine) :
    (∀ id ∈ (reindexPending engine index).2.visible, id ∈ index.visible) ↔
      ReindexSeen engine index index.visible := by
  constructor
  · intro h op hop hne
    exact h op.operationId
      ((mem_visible_reindexed_iff engine index htaken _).mpr (Or.inr ⟨op, hop, hne, rfl⟩))
  · intro h id hid
    rcases (mem_visible_reindexed_iff engine index htaken id).mp hid with
      hchain | ⟨op, hop, hne, rfl⟩
    · exact (mem_visible_iff index id).mpr (Or.inl hchain)
    · exact h op hop hne

variable (hindex : index.Committed)
include hindex

/-- Both indices are filled again, and nothing is counted for it. -/
theorem refilled_iff (htaken : RefillTaken overflowChecks engine index)
    (h : ¬ FailsIndexing overflowChecks engine index) :
    ∃ affected count index' index'', indexChainNewBlocks overflowChecks engine index =
        (.ok (affected, count), index') ∧ reindexPending engine index' = (.ok (), index'') ∧
      index''.Committed ∧
      ((∀ id ∈ index''.visible, id ∈ index.visible) ↔ AllSeen overflowChecks engine index) := by
  obtain ⟨hblocks, hreindex⟩ := htaken
  obtain ⟨affected, count, index', hresult, hcommitted, ⟨kept, hkept, hchain⟩, _⟩ :=
    indexChainNewBlocks_ok overflowChecks engine index hindex hblocks h
  rw [hresult] at hreindex
  obtain ⟨index'', hreindexed, hcommitted', _⟩ := reindexPending_ok engine index' hreindex
  refine ⟨affected, count, index', index'', hresult, hreindexed, hcommitted' hcommitted, ?_⟩
  have hvisible := mem_visible_reindexed_iff engine index' hreindex
  rw [hreindexed] at hvisible
  rw [AllSeen, hresult]
  constructor
  · intro hall
    refine ⟨fun doc hdoc => hall _ ((hvisible _).mpr (Or.inl ⟨doc, ?_, rfl⟩)), ?_⟩
    · rw [hchain]
      exact List.mem_append_right _ hdoc
    · exact fun op hop hne => hall _ ((hvisible _).mpr (Or.inr ⟨op, hop, hne, rfl⟩))
  · rintro ⟨hadded, hseen⟩ id hid
    rcases (hvisible id).mp hid with ⟨doc, hdoc, rfl⟩ | ⟨op, hop, hne, rfl⟩
    · rw [hchain, List.mem_append] at hdoc
      rcases hdoc with hdoc | hdoc
      · exact (mem_visible_iff index _).mpr (Or.inl ⟨doc, hkept doc hdoc, rfl⟩)
      · exact hadded doc hdoc
    · exact hseen op hop hne

theorem newChainBlock_heard_iff (htaken : index.BlocksTaken overflowChecks engine)
    (h : ¬ FailsIndexing overflowChecks engine index) :
    ∃ affected count index', indexChainNewBlocks overflowChecks engine index =
        (.ok (affected, count), index') ∧ index'.Committed ∧
      (Heard index index' affected count ↔
        index.pendingIndex.committed ≠ [] ∨ AddedSeen overflowChecks engine index) := by
  obtain ⟨affected, count, index', hresult, hcommitted, ⟨kept, hkept, hchain⟩, hpending, hids,
    hcount⟩ := indexChainNewBlocks_ok overflowChecks engine index hindex htaken h
  refine ⟨affected, count, index', hresult, hcommitted, ?_⟩
  constructor
  · intro hheard
    by_cases hempty : index.pendingIndex.committed = []
    · right
      intro doc hdoc
      by_contra hnot
      have hvisible : doc.operationId ∈ index'.visible := by
        refine (mem_visible_iff index' _).mpr (Or.inl ⟨doc, ?_, rfl⟩)
        rw [hchain]
        exact List.mem_append_right _ hdoc
      have hpos := (hheard _ hvisible hnot).2
      exact (hcount (List.ne_nil_of_mem hdoc)).mp hpos hempty
    · exact Or.inl hempty
  · intro hannounces id hid hnot
    rcases (mem_visible_iff index' id).mp hid with ⟨doc, hdoc, rfl⟩ | ⟨doc, hdoc, rfl⟩
    · rw [hchain, List.mem_append] at hdoc
      rcases hdoc with hdoc | hdoc
      · exact absurd ((mem_visible_iff index _).mpr (Or.inl ⟨doc, hkept doc hdoc, rfl⟩)) hnot
      · refine ⟨hids doc hdoc, ?_⟩
        rcases hannounces with hne | hseen
        · exact (hcount (List.ne_nil_of_mem hdoc)).mpr hne
        · exact absurd (hseen doc hdoc) hnot
    · exact absurd ((mem_visible_iff index _).mpr (Or.inr ⟨doc, hpending doc hdoc, rfl⟩)) hnot

/-- An event that does not fail is heard exactly where it meets its condition. -/
theorem handleEvent_heard_iff (event : EngineEvent)
    (hevent : ∀ id, event ≠ .newPendingOperation id)
    (htaken : EventTaken overflowChecks engine index event)
    (h : ¬ FailsEvent overflowChecks engine index event) :
    ∃ affected count index', handleEvent overflowChecks engine event index =
        (.ok (affected, count), index') ∧ index'.Committed ∧
      (Heard index index' affected count ↔
        AnnouncesEvent overflowChecks engine index event) := by
  cases event with
  | started =>
    obtain ⟨affected, count, index', index'', hresult, hreindexed, hcommitted, hiff⟩ :=
      refilled_iff overflowChecks engine index hindex htaken h
    refine ⟨affected, 0, index'', ?_, hcommitted, (heard_zero_iff _ _ _).trans hiff⟩
    rw [handleEvent, Action.bind_of_ok _ _ _ _ _ hresult]
    exact Action.bind_of_ok _ _ _ _ _ hreindexed
  | streamDiscontinuity =>
    obtain ⟨index', hreindexed, hcommitted, _⟩ := reindexPending_ok engine index htaken
    refine ⟨[], 0, index', Action.bind_of_ok _ _ _ _ _ hreindexed, hcommitted hindex, ?_⟩
    have hiff := reindexed_heard_iff engine index htaken
    rw [hreindexed] at hiff
    exact (heard_zero_iff _ _ _).trans hiff
  | newChainBlock offset =>
    exact newChainBlock_heard_iff overflowChecks engine index hindex htaken h
  | chainDiverged diverged =>
    rw [handleEvent, Action.get_bind]
    cases hhighest : index.chainIndex.highestIndexedBlock with
    | some lastIndexed =>
      simp only [FailsEvent, hhighest, not_le] at h
      simp only [EventTaken, hhighest] at htaken
      simp only [AnnouncesEvent, hhighest, if_pos h]
      obtain ⟨index', hreindexed, hcommitted, _⟩ := reindexPending_ok engine index htaken
      refine ⟨[], 0, index', Action.bind_of_ok _ _ _ _ _ hreindexed, hcommitted hindex, ?_⟩
      have hiff := reindexed_heard_iff engine index htaken
      rw [hreindexed] at hiff
      exact (heard_zero_iff _ _ _).trans hiff
    | none =>
      simp only [FailsEvent, hhighest] at h
      simp only [EventTaken, hhighest] at htaken
      simp only [AnnouncesEvent, hhighest]
      obtain ⟨affected, count, index', index'', hresult, hreindexed, hcommitted, hiff⟩ :=
        refilled_iff overflowChecks engine index hindex htaken h
      have hchain := reindexChain_eq overflowChecks engine index hindex hhighest
      rw [Action.bind_of_ok _ _ _ _ _ hresult, hreindexed] at hchain
      exact ⟨[], 0, index'', Action.bind_of_ok _ _ _ _ _ hchain, hcommitted,
        (heard_zero_iff _ _ _).trans hiff⟩
  | newPendingOperation id => exact absurd rfl (hevent id)

theorem handleEvent_error (event : EngineEvent)
    (h : FailsEvent overflowChecks engine index event) :
    ∃ e, handleEvent overflowChecks engine event index = (.error e, index) := by
  cases event with
  | started =>
    obtain ⟨e, he⟩ := indexChainNewBlocks_error overflowChecks engine index h
    exact ⟨e, Action.bind_of_error _ _ _ _ _ he⟩
  | streamDiscontinuity => exact h.elim
  | newChainBlock offset => exact indexChainNewBlocks_error overflowChecks engine index h
  | chainDiverged diverged =>
    rw [handleEvent, Action.get_bind]
    cases hhighest : index.chainIndex.highestIndexedBlock with
    | some lastIndexed =>
      simp only [FailsEvent, hhighest] at h
      simp only [if_neg (not_lt.mpr h)]
      exact ⟨_, rfl⟩
    | none =>
      simp only [FailsEvent, hhighest] at h
      obtain ⟨e, he⟩ := indexChainNewBlocks_error overflowChecks engine index h
      have hchain := reindexChain_eq overflowChecks engine index hindex hhighest
      rw [Action.bind_of_error _ _ _ _ _ he] at hchain
      exact ⟨e, Action.bind_of_error _ _ _ _ _ hchain⟩
  | newPendingOperation id => exact h.elim

/-- The operations of a batch are heard: they were noted as affected when they came. -/
theorem applyBatch_heard (batched : List OperationId) (htaken : BatchTaken engine batched) :
    ∃ count index', applyBatch engine batched index = (.ok count, index') ∧ index'.Committed ∧
      Heard index index' batched count := by
  rw [applyBatch]
  split_ifs with hempty
  · exact ⟨0, index, rfl, hindex, heard_refl index _ _⟩
  refine ⟨_, _, handleChainPendingOperations_eq engine batched htaken index hindex.pending,
    ⟨rfl, hindex.chain⟩, ?_⟩
  intro id hid hnot
  rcases (mem_visible_iff _ id).mp hid with hchain | ⟨doc, hdoc, rfl⟩
  · exact absurd ((mem_visible_iff index id).mpr (Or.inl hchain)) hnot
  · rcases List.mem_append.mp hdoc with hold | hadded
    · exact absurd ((mem_visible_iff index _).mpr (Or.inr ⟨doc, hold, rfl⟩)) hnot
    · have hpos : 0 < (batchOperations engine batched).length := by
        obtain ⟨iop, hiop, _⟩ := List.mem_filterMap.mp hadded
        exact List.length_pos_of_mem hiop
      rw [batchOperations_eq] at hadded
      obtain ⟨op, hop, _, hid⟩ := mem_pendingDocuments _ doc hadded
      obtain ⟨id, hmem, hget⟩ := List.mem_filterMap.mp hop
      have hopId : op.operationId = id := by simpa using List.find?_some hget
      rw [hid, hopId]
      exact ⟨hmem, hpos⟩

end Events

/-- What the events of a call must meet, each in the state that those before it leave. An event
that fails must find nothing that the call made visible. -/
def AnnouncesEvents (overflowChecks : Bool) (engine : EngineHandle) (before : EntityIndex) :
    List OperationId → List EngineEvent → EntityIndex → Prop
  | _, [], _ => True
  | batched, .newPendingOperation id :: events, index =>
    AnnouncesEvents overflowChecks engine before (batched ++ [id]) events index
  | batched, event :: events, index =>
    let index' := (applyBatch engine batched index).2
    (FailsEvent overflowChecks engine index' event ∧
      ∀ id ∈ index'.visible, id ∈ before.visible) ∨
    (¬ FailsEvent overflowChecks engine index' event ∧
      AnnouncesEvent overflowChecks engine index' event ∧
      AnnouncesEvents overflowChecks engine before [] events
        (handleEvent overflowChecks engine event index').2)

/-- What a call that ends well, or does not, leaves to be heard. -/
def Reported (before index : EntityIndex) (batched : List OperationId) :
    Res StoreError (List OperationId × ℕ) × EntityIndex → Prop
  | (.ok (affected, count), index') => Heard index index' (batched ++ affected) count
  | (.error _, index') => ∀ id ∈ index'.visible, id ∈ before.visible

theorem handleEvents_reported (overflowChecks : Bool) (engine : EngineHandle)
    (before index : EntityIndex) (hindex : index.Committed) (batched : List OperationId)
    (events : List EngineEvent) (htaken : EventsTaken overflowChecks engine batched events index)
    (h : AnnouncesEvents overflowChecks engine before batched events index) :
    Reported before index batched
      (handleEvents overflowChecks engine batched events index) := by
  induction events generalizing batched index with
  | nil =>
    obtain ⟨count, index', hbatch, _, hheard⟩ := applyBatch_heard engine index hindex batched htaken
    have hresult : handleEvents overflowChecks engine batched [] index =
        (.ok ([], count), index') := Action.bind_of_ok _ _ _ _ _ hbatch
    rw [hresult, Reported, List.append_nil]
    exact hheard
  | cons event events ih =>
    by_cases hevent : ∃ id, event = .newPendingOperation id
    · obtain ⟨id, rfl⟩ := hevent
      have hrest := ih index hindex (batched ++ [id]) htaken h
      rw [handleEvents, Action.bind_apply]
      split
      · rename_i result index' hresult
        rw [hresult, Reported, List.append_assoc] at hrest
        exact hrest
      · rename_i e index' hresult
        rw [hresult] at hrest
        exact hrest
    · rw [not_exists] at hevent
      rw [AnnouncesEvents.eq_3 _ _ _ _ _ _ _ hevent] at h
      rw [EventsTaken.eq_3 _ _ _ _ _ _ hevent] at htaken
      obtain ⟨hbatchTaken, htaken⟩ := htaken
      obtain ⟨count, index', hbatch, hcommitted, hheard⟩ := applyBatch_heard engine index hindex
        batched hbatchTaken
      rw [handleEvents.eq_3 _ _ _ _ _ hevent, Action.bind_of_ok _ _ _ _ _ hbatch]
      rw [hbatch] at h htaken
      rcases h with ⟨hfails, hnone⟩ | ⟨hgoes, hannounces, hrest⟩
      · obtain ⟨e, he⟩ := handleEvent_error overflowChecks engine index' hcommitted event hfails
        rw [Action.bind_of_error _ _ _ _ _ he]
        exact hnone
      · obtain ⟨heventTaken, hrestTaken⟩ := htaken hgoes
        obtain ⟨affected, count', index'', hhandled, hcommitted', hiff⟩ := handleEvent_heard_iff
          overflowChecks engine index' hcommitted event hevent heventTaken hgoes
        rw [hhandled] at hrest hrestTaken
        have hreported := ih index'' hcommitted' [] hrestTaken hrest
        rw [Action.bind_of_ok _ _ _ _ _ hhandled]
        dsimp only
        rw [Action.bind_apply]
        split
        · rename_i result final hresult
          rw [hresult, Reported, List.nil_append] at hreported
          rw [Action.pure_apply, Reported, ← List.append_assoc]
          exact (hheard.trans (hiff.mpr hannounces)).trans hreported
        · rename_i e final hresult
          rw [hresult] at hreported
          exact hreported

end EntityIndex

/-- A call of the store with events: the operations given to the mutation tracker, the number
that is returned, and the index it leaves. -/
structure EventsCall where
  tracked : List OperationId
  returned : Res StoreError ℕ
  index : EntityIndex

/-- The events that are forwarded to the index: with a deferred interval, no new blocks. -/
def forwardedEvents (deferred : Bool) (events : List EngineEvent) : List EngineEvent :=
  events.filter fun event => match event with
    | .newChainBlock _ => !deferred
    | _ => true

/-- The tracker hears of nothing where the index fails. -/
def handleChainEngineEvents (overflowChecks deferred : Bool) (engine : EngineHandle)
    (events : List EngineEvent) (index : EntityIndex) : EventsCall :=
  match EntityIndex.handleChainEngineEvents overflowChecks engine
      (forwardedEvents deferred events) index with
  | (.ok (affected, count), index') => ⟨affected, .ok count, index'⟩
  | (.error e, index') => ⟨[], .error e, index'⟩

/-- Every operation that becomes visible by the call is tracked, and the returned number makes
the watched queries be checked. -/
def EventsCall.Notifies (call : EventsCall) (before : EntityIndex) : Prop :=
  ∀ id ∈ call.index.visible, id ∉ before.visible →
    id ∈ call.tracked ∧ ∃ count, call.returned = .ok count ∧ 0 < count

/-- What a call must meet to notify of all that it makes visible. -/
def AnnouncesCall (overflowChecks deferred : Bool) (engine : EngineHandle)
    (events : List EngineEvent) (index : EntityIndex) : Prop :=
  EntityIndex.AnnouncesEvents overflowChecks engine index [] (forwardedEvents deferred events)
    index

/-- The writer takes what the events of the call apply. -/
def CallTaken (overflowChecks deferred : Bool) (engine : EngineHandle)
    (events : List EngineEvent) (index : EntityIndex) : Prop :=
  EntityIndex.EventsTaken overflowChecks engine [] (forwardedEvents deferred events) index

theorem notifies_of_reported (overflowChecks deferred : Bool) (engine : EngineHandle)
    (events : List EngineEvent) (index : EntityIndex)
    (h : EntityIndex.Reported index index [] (EntityIndex.handleEvents overflowChecks engine []
      (forwardedEvents deferred events) index)) :
    (handleChainEngineEvents overflowChecks deferred engine events index).Notifies index := by
  rw [handleChainEngineEvents, EntityIndex.handleChainEngineEvents]
  split
  · rename_i affected count index' hresult
    rw [hresult, EntityIndex.Reported, List.nil_append] at h
    intro id hid hnot
    obtain ⟨hmem, hpos⟩ := h id hid hnot
    exact ⟨hmem, count, rfl, hpos⟩
  · rename_i e index' hresult
    rw [hresult] at h
    exact fun id hid hnot => absurd (h id hid) hnot

/-- A single event that is not of a pending operation, in the call. -/
theorem handleEvents_singleton (overflowChecks : Bool) (engine : EngineHandle)
    (event : EngineEvent) (hevent : ∀ id, event ≠ .newPendingOperation id)
    (affected : List OperationId) (count : ℕ) (index index' : EntityIndex)
    (h : EntityIndex.handleEvent overflowChecks engine event index =
      (.ok (affected, count), index')) :
    EntityIndex.handleEvents overflowChecks engine [] [event] index =
      (.ok (affected, count), index') := by
  have hnone : EntityIndex.applyBatch engine [] index = (.ok 0, index) := rfl
  rw [EntityIndex.handleEvents.eq_3 _ _ _ _ _ hevent, Action.bind_of_ok _ _ _ _ _ hnone,
    Action.bind_of_ok _ _ _ _ _ h]
  have hend : EntityIndex.handleEvents overflowChecks engine [] [] index' =
      (.ok ([], 0), index') := rfl
  dsimp only
  rw [Action.bind_of_ok _ _ _ _ _ hend, Action.pure_apply, List.append_nil, Nat.zero_add,
    Nat.add_zero]

theorem announces_of_notifies_singleton (overflowChecks deferred : Bool) (engine : EngineHandle)
    (index : EntityIndex) (hindex : index.Committed) (event : EngineEvent)
    (htaken : CallTaken overflowChecks deferred engine [event] index)
    (h : (handleChainEngineEvents overflowChecks deferred engine [event] index).Notifies index) :
    AnnouncesCall overflowChecks deferred engine [event] index := by
  rw [AnnouncesCall]
  rw [CallTaken] at htaken
  by_cases hforwarded : forwardedEvents deferred [event] = [event]
  · rw [handleChainEngineEvents] at h
    rw [hforwarded] at h htaken ⊢
    by_cases hevent : ∃ id, event = .newPendingOperation id
    · obtain ⟨id, rfl⟩ := hevent
      trivial
    · rw [not_exists] at hevent
      rw [EntityIndex.AnnouncesEvents.eq_3 _ _ _ _ _ _ _ hevent]
      rw [EntityIndex.EventsTaken.eq_3 _ _ _ _ _ _ hevent] at htaken
      by_cases hfails : EntityIndex.FailsEvent overflowChecks engine index event
      · exact Or.inl ⟨hfails, fun _ hid => hid⟩
      · obtain ⟨affected, count, index', hhandled, _, hiff⟩ := EntityIndex.handleEvent_heard_iff
          overflowChecks engine index hindex event hevent (htaken.2 hfails).1 hfails
        refine Or.inr ⟨hfails, hiff.mp ?_, trivial⟩
        rw [EntityIndex.handleChainEngineEvents, handleEvents_singleton overflowChecks engine event
          hevent affected count index index' hhandled] at h
        intro id hid hnot
        obtain ⟨hmem, count', hcount, hpos⟩ := h id hid hnot
        obtain rfl := Except.ok.inj hcount
        exact ⟨hmem, hpos⟩
  · have hnone : forwardedEvents deferred [event] = [] := by
      rw [forwardedEvents, List.filter_cons, List.filter_nil] at hforwarded ⊢
      split_ifs at hforwarded ⊢ with hkept
      · exact absurd rfl hforwarded
      · rfl
    rw [hnone]
    trivial

/-- A call notifies of what it makes visible where its events meet their conditions; for a call
with one event these are exact. -/
theorem call_notifies (overflowChecks deferred : Bool) (engine : EngineHandle)
    (index : EntityIndex) (hindex : index.Committed) :
    (∀ events, CallTaken overflowChecks deferred engine events index →
      AnnouncesCall overflowChecks deferred engine events index →
      (handleChainEngineEvents overflowChecks deferred engine events index).Notifies index) ∧
    ∀ event, CallTaken overflowChecks deferred engine [event] index →
      ((handleChainEngineEvents overflowChecks deferred engine [event] index).Notifies index ↔
        AnnouncesCall overflowChecks deferred engine [event] index) := by
  have henough (events : List EngineEvent)
      (htaken : CallTaken overflowChecks deferred engine events index)
      (h : AnnouncesCall overflowChecks deferred engine events index) :
      (handleChainEngineEvents overflowChecks deferred engine events index).Notifies index :=
    notifies_of_reported overflowChecks deferred engine events index
      (EntityIndex.handleEvents_reported overflowChecks engine index index hindex []
        (forwardedEvents deferred events) htaken h)
  refine ⟨henough, fun event htaken => ⟨?_, henough [event] htaken⟩⟩
  exact announces_of_notifies_singleton overflowChecks deferred engine index hindex event htaken

section Samples

/-- The events were lost: the operation of the pending store is indexed by the discontinuity, and
nobody hears of it. -/
theorem discontinuity_not_notifies :
    ¬ (handleChainEngineEvents true false pendingEngine [.streamDiscontinuity]
      ⟨sampleConfig, .create, .create, none⟩).Notifies ⟨sampleConfig, .create, .create, none⟩ := by
  intro h
  have hvisible : (1 : OperationId) ∈ (handleChainEngineEvents true false pendingEngine
      [.streamDiscontinuity] ⟨sampleConfig, .create, .create, none⟩).index.visible := by
    decide +kernel
  have htracked := (h 1 hvisible (by decide)).1
  have hnone : (handleChainEngineEvents true false pendingEngine [.streamDiscontinuity]
      ⟨sampleConfig, .create, .create, none⟩).tracked = [] := by decide +kernel
  rw [hnone] at htracked
  contradiction

/-- The event of the operation comes through before the discontinuity. -/
theorem pendingOperation_notifies :
    (handleChainEngineEvents true false pendingEngine
      [.newPendingOperation 1, .streamDiscontinuity]
      ⟨sampleConfig, .create, .create, none⟩).Notifies ⟨sampleConfig, .create, .create, none⟩ := by
  apply (call_notifies true false pendingEngine ⟨sampleConfig, .create, .create, none⟩
    ⟨rfl, rfl⟩).1
  · refine ⟨?_, fun _ => ⟨?_, ?_⟩⟩
    all_goals
      show ∀ iop ∈ _, MutationIndex.Takes iop
      decide +kernel
  · refine Or.inr ⟨fun h => h, ?_, trivial⟩
    show ∀ op ∈ _, IndexOperation.fromPendingEngineOperation op ≠ [] → _ ∈ _
    decide +kernel

end Samples

end Exocore.Store
