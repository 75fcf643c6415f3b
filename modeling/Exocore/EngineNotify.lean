import Exocore.EngineAnnounceCommit

/-! What the streams of the handles are told: along every run each operation and each block
that a handler stores, unless the handler fails behind the store. -/
namespace Exocore.Engine

open Exocore.Core Exocore.Chain Exocore.Pending

namespace EventStream

/-- Nothing goes through any more: the receiver is gone, or the buffer is full and the stream
is marked, so that its receiver will be told of the discontinuity. -/
def Stuck (s : EventStream) : Prop := s.closed = true ∨ (s.room = 0 ∧ s.discontinued = true)

/-- The stream has got the event, or nothing goes through it. -/
def Told (event : Event) (s s' : EventStream) : Prop :=
  ∃ items, s'.sent = s.sent ++ items ∧ (StreamItem.event event ∈ items ∨ s'.Stuck)

theorem trySend_cases (s : EventStream) (item : StreamItem) :
    (s.trySend item = .ok { s with sent := s.sent ++ [item], room := s.room - 1 } ∧
        s.closed = false ∧ s.room ≠ 0) ∨
      (s.trySend item = .error .full ∧ s.closed = false ∧ s.room = 0) ∨
      (s.trySend item = .error .disconnected ∧ s.closed = true) := by
  rw [trySend]
  cases hclosed : s.closed with
  | true => exact Or.inr (Or.inr ⟨rfl, rfl⟩)
  | false =>
    by_cases hroom : s.room = 0
    · exact Or.inr (Or.inl ⟨by simp [hroom], rfl, hroom⟩)
    · exact Or.inl ⟨by simp [hroom], rfl, hroom⟩

theorem sendEvent_told (s : EventStream) (event : Event) : Told event s (s.sendEvent event) := by
  rw [sendEvent]
  rcases s.trySend_cases (.event event) with ⟨hsend, -⟩ | ⟨hsend, -, hroom⟩ | ⟨hsend, hclosed⟩
  · rw [hsend]
    exact ⟨[.event event], rfl, Or.inl (List.mem_singleton_self _)⟩
  · rw [hsend]
    exact ⟨[], (List.append_nil _).symm, Or.inr (Or.inr ⟨hroom, rfl⟩)⟩
  · rw [hsend]
    exact ⟨[], (List.append_nil _).symm, Or.inr (Or.inl hclosed)⟩

theorem dispatchEvent_told (s : EventStream) (event : Event) :
    Told event s (s.dispatchEvent event) := by
  rw [dispatchEvent]
  split_ifs with hmarked
  · rcases s.trySend_cases .streamDiscontinuity with
      ⟨hsend, -⟩ | ⟨hsend, -, hroom⟩ | ⟨hsend, hclosed⟩
    · rw [hsend]
      obtain ⟨items, hsent, htold⟩ := sendEvent_told { s with
        sent := s.sent ++ [.streamDiscontinuity], room := s.room - 1, discontinued := false } event
      refine ⟨.streamDiscontinuity :: items, ?_, ?_⟩
      · simpa using hsent
      · exact htold.imp_left (List.mem_cons_of_mem _)
    · rw [hsend]
      exact ⟨[], (List.append_nil _).symm, Or.inr (Or.inr ⟨hroom, hmarked⟩)⟩
    · rw [hsend]
      exact ⟨[], (List.append_nil _).symm, Or.inr (Or.inl hclosed)⟩
  · exact s.sendEvent_told event

/-- No place gets free while events are dispatched. -/
theorem dispatchEvent_stuck (s : EventStream) (h : s.Stuck) (event : Event) :
    s.dispatchEvent event = s := by
  rw [dispatchEvent]
  rcases h with hclosed | ⟨hroom, hmarked⟩
  · simp [sendEvent, trySend, hclosed]
  · rw [if_pos hmarked]
    rcases s.trySend_cases .streamDiscontinuity with ⟨-, -, hne⟩ | ⟨hsend, -⟩ | ⟨hsend, -⟩
    · exact absurd hroom hne
    · rw [hsend]
    · rw [hsend]

theorem dispatchEvents_grows (events : List Event) (s : EventStream) :
    ∃ items, (s.dispatchEvents events).sent = s.sent ++ items := by
  induction events generalizing s with
  | nil => exact ⟨[], (List.append_nil _).symm⟩
  | cons event rest ih =>
    obtain ⟨items, hsent, -⟩ := s.dispatchEvent_told event
    obtain ⟨items', hsent'⟩ := ih (s.dispatchEvent event)
    refine ⟨items ++ items', ?_⟩
    rw [← List.append_assoc, ← hsent]
    exact hsent'

theorem dispatchEvents_told (events : List Event) (event : Event) (h : event ∈ events)
    (s : EventStream) : Told event s (s.dispatchEvents events) := by
  induction events generalizing s with
  | nil => exact absurd h List.not_mem_nil
  | cons first rest ih =>
    obtain ⟨items, hsent, htold⟩ := s.dispatchEvent_told first
    rcases List.mem_cons.mp h with rfl | hrest
    · rcases htold with hmem | hstuck
      · obtain ⟨items', hsent'⟩ := (s.dispatchEvent event).dispatchEvents_grows rest
        refine ⟨items ++ items', ?_, Or.inl (List.mem_append_left _ hmem)⟩
        rw [← List.append_assoc, ← hsent]
        exact hsent'
      · -- a stream that is stuck stays as it is
        have hsame : ∀ events : List Event,
            (s.dispatchEvent event).dispatchEvents events = s.dispatchEvent event := by
          intro events
          induction events with
          | nil => rfl
          | cons e es ih' =>
            rw [dispatchEvents, List.foldl_cons, dispatchEvent_stuck _ hstuck]
            exact ih'
        refine ⟨items, ?_, Or.inr ?_⟩
        · exact (congrArg sent (hsame rest)).trans hsent
        · exact (hsame rest).symm ▸ hstuck
    · obtain ⟨items', hsent', htold'⟩ := ih hrest (s.dispatchEvent first)
      refine ⟨items ++ items', ?_, htold'.imp_left (List.mem_append_right _)⟩
      rw [← List.append_assoc, ← hsent]
      exact hsent'

end EventStream

variable [Crates] {CS : Type}

/-- Every stream was told of each operation and each block that came into the stores. -/
structure Announced (n n' : EngineState (Recorded CS)) : Prop where
  operations : ∀ id, n.pendingStore.getOperation id = none →
    (n'.pendingStore.getOperation id).isSome = true →
    List.Forall₂ (EventStream.Told (.newPendingOperation id)) n.streams n'.streams
  blocks : ∃ bs, n'.chainStore.written = n.chainStore.written ++ bs ∧
    ∀ b ∈ bs, List.Forall₂ (EventStream.Told (.newChainBlock b.offset)) n.streams n'.streams

/-- A handler that stored nothing new has nothing to announce. -/
theorem announced_of_same {n n' : EngineState (Recorded CS)}
    (hstore : ∀ id, (n'.pendingStore.getOperation id).isSome = true →
      (n.pendingStore.getOperation id).isSome = true)
    (hwritten : n'.chainStore.written = n.chainStore.written) : Announced n n' := by
  refine ⟨?_, ⟨[], by rw [hwritten, List.append_nil], by simp⟩⟩
  intro id hnone hsome
  have hold := hstore id hsome
  rw [hnone] at hold
  contradiction

omit [Crates] in
theorem sendMessages_known (cell : Cell) (messages : List SyncContextMessage)
    (h : ∀ m ∈ messages, (cell.get m.destNode).isSome = true) :
    sendMessages cell messages = .ok () := by
  induction messages with
  | nil => rfl
  | cons m rest ih =>
    rw [sendMessages, if_pos (h m List.mem_cons_self)]
    exact ih fun x hx => h x (List.mem_cons_of_mem m hx)

def HandlerState.view (s : HandlerState (Recorded CS)) : View :=
  ⟨s.syncContext, s.engine.pendingStore, s.engine.chainStore.written⟩

/-- The state in which a handler starts. -/
def EngineState.start (n : EngineState CS) : HandlerState CS := ⟨n, .new n.syncState⟩

/-- What was announced in the context reaches the streams. -/
theorem dispatch_announced (n : EngineState (Recorded CS)) (known : NodeId → Prop)
    (s : HandlerState (Recorded CS)) (hstreams : s.engine.streams = n.streams)
    (h : Announces known n.start.view s.view) :
    Announced n (dispatchEventsFromSyncContext s).2.engine := by
  have htold : ∀ event ∈ s.syncContext.events, List.Forall₂ (EventStream.Told event) n.streams
      (dispatchEventsFromSyncContext s).2.engine.streams := by
    intro event hevent
    have hmap : (dispatchEventsFromSyncContext s).2.engine.streams =
        n.streams.map fun stream => stream.dispatchEvents s.syncContext.events := by
      rw [← hstreams]
      rfl
    rw [hmap, List.forall₂_map_right_iff, List.forall₂_same]
    exact fun stream _ => stream.dispatchEvents_told s.syncContext.events event hevent
  obtain ⟨bs, hbs, hevents⟩ := h.blocks
  exact ⟨fun id hnone hsome => htold _ (h.operations id hnone hsome),
    bs, hbs, fun b hb => htold _ (hevents b hb)⟩

/-- The end of most handlers: the messages are all to nodes of the cell, so they go out. -/
theorem finish_announced (n : EngineState (Recorded CS)) (cell : Cell)
    (s : HandlerState (Recorded CS)) (hstreams : s.engine.streams = n.streams)
    (h : Announces (fun id => (cell.get id).isSome = true) n.start.view s.view) :
    Announced n (((do
      takeSyncState
      sendMessagesFromSyncContext cell
      dispatchEventsFromSyncContext) :
        Action (HandlerState (Recorded CS)) EngineError Unit) s).2.engine := by
  have hsend : sendMessages cell s.syncContext.messages = .ok () := by
    apply sendMessages_known
    intro m hm
    rcases h.messages m hm with hold | hknown
    · exact absurd hold List.not_mem_nil
    · exact hknown
  have heq : (((do
      takeSyncState
      sendMessagesFromSyncContext cell
      dispatchEventsFromSyncContext) :
        Action (HandlerState (Recorded CS)) EngineError Unit) s) =
      dispatchEventsFromSyncContext { s with
        engine := { s.engine with syncState := s.syncContext.syncState }
        syncContext := { s.syncContext with messages := [] } } := by
    simp only [Action.bind_apply, takeSyncState, sendMessagesFromSyncContext, hsend]
  rw [heq]
  refine dispatch_announced n (fun id => (cell.get id).isSome = true) _ hstreams ?_
  exact ⟨h.events, h.operations, h.blocks, fun m hm => absurd hm List.not_mem_nil⟩

end Exocore.Engine
