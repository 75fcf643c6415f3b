import Exocore.EngineInner
import Exocore.EngineNotify
import Exocore.LibDelivery

/-! The streams of events of the engine, and what their consumers receive. -/
namespace Exocore.Engine

open Delivery

/-- The channel has room for its buffer, and for one more item of its one sender. -/
def EventStream.new (bufferSize handleId : ℕ) : EventStream :=
  ⟨handleId, false, [], bufferSize + 1, false⟩

def getNewEventsStream (bufferSize handleId : ℕ) (streams : List EventStream) : List EventStream :=
  streams ++ [.new bufferSize handleId]

/-- The event an item brings. -/
def StreamItem.event? : StreamItem → Option Event
  | .event e => some e
  | .streamDiscontinuity => none

/-- What a consumer does at its end of the channel. -/
inductive ConsumerStep where
  | receive
  | close
deriving DecidableEq

/-- A stream and its consumer, with the events dispatched since there is the stream. -/
structure Subscriber where
  stream : EventStream
  dispatched : List Event
  received : List StreamItem
deriving DecidableEq

namespace Subscriber

/-- An item that is taken out of the channel leaves room for another. -/
def consume (s : Subscriber) : ConsumerStep → Subscriber
  | .receive => match s.stream.sent[s.received.length]? with
    | none => s
    | some item =>
      if s.stream.closed then s
      else { s with
        stream := { s.stream with room := s.stream.room + 1 }
        received := s.received ++ [item] }
  | .close => { s with stream := { s.stream with closed := true } }

def sendEvent (s : Subscriber) (event : Event) : Subscriber :=
  { s with stream := s.stream.sendEvent event, dispatched := s.dispatched ++ [event] }

/-- The consumer may run between the two items that are sent. -/
def dispatchEvent (s : Subscriber) (event : Event) (between : List ConsumerStep) : Subscriber :=
  if s.stream.discontinued then
    match s.stream.trySend .streamDiscontinuity with
    | .ok stream =>
      (between.foldl consume { s with stream := { stream with discontinued := false } }).sendEvent
        event
    | .error _ => { s with dispatched := s.dispatched ++ [event] }
  else s.sendEvent event

end Subscriber

inductive StreamsStep where
  | takeEventsStream (handleId : ℕ)
  | dispatchEvent (event : Event) (between : ℕ → List ConsumerStep)
  | consume (i : ℕ) (step : ConsumerStep)

/-- The streams are served one after the other, and their consumers run when they like. -/
def streamsStep (bufferSize : ℕ) (subscribers : List Subscriber) : StreamsStep → List Subscriber
  | .takeEventsStream handleId => subscribers ++ [⟨.new bufferSize handleId, [], []⟩]
  | .dispatchEvent event between =>
    subscribers.mapIdx fun i s => s.dispatchEvent event (between i)
  | .consume i step => subscribers.modify i fun s => s.consume step

/-- The engine has the streams of the subscribers. -/
theorem streamsStep_takeEventsStream (bufferSize handleId : ℕ) (subscribers : List Subscriber) :
    (streamsStep bufferSize subscribers (.takeEventsStream handleId)).map Subscriber.stream =
      getNewEventsStream bufferSize handleId (subscribers.map Subscriber.stream) := by
  rw [streamsStep, getNewEventsStream, List.map_append]
  rfl

theorem Subscriber.dispatchEvent_stream (s : Subscriber) (event : Event) :
    (s.dispatchEvent event []).stream = s.stream.dispatchEvent event := by
  rw [Subscriber.dispatchEvent, EventStream.dispatchEvent]
  split_ifs
  · cases s.stream.trySend .streamDiscontinuity <;> rfl
  · rfl

theorem streamsStep_dispatchEvent (bufferSize : ℕ) (event : Event) (subscribers : List Subscriber) :
    (streamsStep bufferSize subscribers (.dispatchEvent event fun _ => [])).map Subscriber.stream =
      (subscribers.map Subscriber.stream).map fun stream => stream.dispatchEvent event := by
  apply List.ext_getElem
  · simp [streamsStep]
  · intro i hi hi'
    simp [streamsStep, Subscriber.dispatchEvent_stream]

section StreamFollows

/-- What was sent accounts for what was dispatched, and the stream is marked as long as its consumer
has not been told of the last losses. -/
structure SendsAccount (s : Subscriber) (lost : List Event) (marks : ℕ) : Prop where
  received : s.received <+: s.stream.sent
  accounts : AccountsTo s.dispatched (s.stream.sent.map StreamItem.event?) lost marks
  unmarked : lost = [] → marks = 0

def StreamFollows (s : Subscriber) : Prop :=
  ∃ lost marks, SendsAccount s lost marks ∧ (s.stream.discontinued = true → lost ≠ []) ∧
    (s.stream.discontinued = false → s.stream.closed = false → lost = [])

theorem follows_new (bufferSize handleId : ℕ) : StreamFollows ⟨.new bufferSize handleId, [], []⟩ := by
  refine ⟨[], 0, ⟨List.nil_prefix, accountsTo_nil, fun _ => rfl⟩, ?_, fun _ _ => rfl⟩
  intro h
  contradiction

/-- A consumer changes nothing of what was sent. -/
theorem Subscriber.consume_keeps (s : Subscriber) (step : ConsumerStep) :
    (s.consume step).stream.sent = s.stream.sent ∧
      (s.consume step).stream.discontinued = s.stream.discontinued ∧
      ((s.consume step).stream.closed = false → s.stream.closed = false) ∧
      (s.consume step).dispatched = s.dispatched ∧
      (s.received <+: s.stream.sent → (s.consume step).received <+: s.stream.sent) := by
  cases step with
  | close => exact ⟨rfl, rfl, fun h => absurd h.symm Bool.false_ne_true, rfl, id⟩
  | receive =>
    unfold consume
    cases hnext : s.stream.sent[s.received.length]? with
    | none => exact ⟨rfl, rfl, id, rfl, id⟩
    | some item =>
      dsimp only
      split_ifs
      · exact ⟨rfl, rfl, id, rfl, id⟩
      · refine ⟨rfl, rfl, id, rfl, ?_⟩
        intro hprefix
        -- the next item is the one behind those received
        obtain ⟨rest, hrest⟩ := hprefix
        rw [← hrest, List.getElem?_append_right (le_refl _), Nat.sub_self] at hnext
        cases rest with
        | nil => contradiction
        | cons next rest =>
          obtain rfl := Option.some.inj hnext
          exact ⟨rest, by rw [← hrest, List.append_assoc, List.singleton_append]⟩

theorem SendsAccount.consume {s : Subscriber} {lost : List Event} {marks : ℕ}
    (h : SendsAccount s lost marks) (step : ConsumerStep) :
    SendsAccount (s.consume step) lost marks := by
  obtain ⟨hsent, -, -, hdispatched, hreceived⟩ := s.consume_keeps step
  refine ⟨?_, ?_, h.unmarked⟩
  · rw [hsent]
    exact hreceived h.received
  · rw [hsent, hdispatched]
    exact h.accounts

theorem follows_consume (s : Subscriber) (h : StreamFollows s) (step : ConsumerStep) :
    StreamFollows (s.consume step) := by
  obtain ⟨lost, marks, haccount, hmarked, hlost⟩ := h
  obtain ⟨-, hdiscontinued, hclosed, -⟩ := s.consume_keeps step
  refine ⟨lost, marks, haccount.consume step, ?_, ?_⟩
  · rw [hdiscontinued]
    exact hmarked
  · rw [hdiscontinued]
    exact fun hunmarked hopen => hlost hunmarked (hclosed hopen)

/-- An event that is sent while the consumer knows of the losses, or as nothing was lost. -/
theorem SendsAccount.sendEvent {s : Subscriber} {lost : List Event} {marks : ℕ}
    (h : SendsAccount s lost marks) (hunmarked : s.stream.discontinued = false)
    (hmarks : s.stream.closed = false → (marks = 0 ↔ lost = [])) (event : Event) :
    StreamFollows (s.sendEvent event) := by
  have hlose : SendsAccount { s with dispatched := s.dispatched ++ [event] } (lost ++ [event])
      marks := by
    refine ⟨h.received, h.accounts.lose event, ?_⟩
    intro hnil
    exact absurd hnil (List.append_ne_nil_of_right_ne_nil _ (List.cons_ne_nil _ _))
  have hne : lost ++ [event] ≠ [] := List.append_ne_nil_of_right_ne_nil _ (List.cons_ne_nil _ _)
  unfold Subscriber.sendEvent EventStream.sendEvent
  rcases s.stream.trySend_cases (.event event) with
    ⟨hsend, hopen, -⟩ | ⟨hsend, hopen, -⟩ | ⟨hsend, hclosed⟩
  · -- it goes through
    rw [hsend]
    refine ⟨[], 0, ⟨?_, ?_, fun _ => rfl⟩, ?_, fun _ _ => rfl⟩
    · exact h.received.trans (List.prefix_append _ _)
    · have hpass := h.accounts.pass (hmarks hopen) event
      simpa [StreamItem.event?] using hpass
    · intro hmarked
      exact absurd (hunmarked.symm.trans hmarked) Bool.false_ne_true
  · -- the buffer is full, and the stream is marked
    rw [hsend]
    refine ⟨lost ++ [event], marks, ⟨hlose.received, hlose.accounts, hlose.unmarked⟩,
      fun _ => hne, ?_⟩
    intro h'
    contradiction
  · -- the consumer is gone
    rw [hsend]
    refine ⟨lost ++ [event], marks, hlose, fun _ => hne, ?_⟩
    intro _ hopen
    exact absurd (hclosed.symm.trans hopen) Bool.noConfusion

theorem foldl_consume_account (s : Subscriber) (lost : List Event) (marks : ℕ)
    (h : SendsAccount s lost marks) (hunmarked : s.stream.discontinued = false)
    (between : List ConsumerStep) :
    SendsAccount (between.foldl Subscriber.consume s) lost marks ∧
      (between.foldl Subscriber.consume s).stream.discontinued = false := by
  induction between generalizing s with
  | nil => exact ⟨h, hunmarked⟩
  | cons step rest ih =>
    obtain ⟨-, hdiscontinued, -⟩ := s.consume_keeps step
    exact ih (s.consume step) (h.consume step) (hdiscontinued.trans hunmarked)

theorem follows_dispatchEvent (s : Subscriber) (h : StreamFollows s) (event : Event)
    (between : List ConsumerStep) : StreamFollows (s.dispatchEvent event between) := by
  obtain ⟨lost, marks, haccount, hmarked, hlost⟩ := h
  unfold Subscriber.dispatchEvent
  split_ifs with hdiscontinued
  · have hne := hmarked hdiscontinued
    rcases s.stream.trySend_cases .streamDiscontinuity with
      ⟨hsend, hopen, -⟩ | ⟨hsend, -, -⟩ | ⟨hsend, -⟩
    · -- the consumer is told of the losses before the event
      rw [hsend]
      dsimp only
      have htold : SendsAccount { s with
          stream := { s.stream with
            sent := s.stream.sent ++ [.streamDiscontinuity]
            room := s.stream.room - 1
            discontinued := false } } lost (marks + 1) := by
        refine ⟨haccount.received.trans (List.prefix_append _ _), ?_, fun hnil => absurd hnil hne⟩
        have hmark := haccount.accounts.mark
        simpa [StreamItem.event?] using hmark
      obtain ⟨hbetween, hunmarked⟩ := foldl_consume_account _ lost (marks + 1) htold rfl between
      apply hbetween.sendEvent hunmarked
      intro _
      simp [hne]
    all_goals
      -- the event adds to the losses
      rw [hsend]
      refine ⟨lost ++ [event], marks, ⟨haccount.received, haccount.accounts.lose event, ?_⟩, ?_, ?_⟩
      · exact fun hnil => absurd hnil
          (List.append_ne_nil_of_right_ne_nil _ (List.cons_ne_nil _ _))
      · exact fun _ => List.append_ne_nil_of_right_ne_nil _ (List.cons_ne_nil _ _)
      · exact fun hfalse => absurd (hdiscontinued.symm.trans hfalse) Bool.noConfusion
  · have hunmarked : s.stream.discontinued = false := Bool.eq_false_of_not_eq_true hdiscontinued
    apply haccount.sendEvent hunmarked
    intro hopen
    have hnil := hlost hunmarked hopen
    exact ⟨fun _ => hnil, fun _ => haccount.unmarked hnil⟩

theorem step_follows (bufferSize : ℕ) (subscribers : List Subscriber) (step : StreamsStep)
    (h : ∀ s ∈ subscribers, StreamFollows s) :
    ∀ s ∈ streamsStep bufferSize subscribers step, StreamFollows s := by
  intro s hs
  cases step with
  | takeEventsStream handleId =>
    rcases List.mem_append.mp hs with hs | hs
    · exact h s hs
    · rw [List.mem_singleton.mp hs]
      exact follows_new bufferSize handleId
  | dispatchEvent event between =>
    obtain ⟨i, hi, rfl⟩ := List.mem_mapIdx.mp hs
    exact follows_dispatchEvent _ (h _ (List.getElem_mem hi)) event (between i)
  | consume i step =>
    rw [streamsStep] at hs
    obtain ⟨j, hj, rfl⟩ := List.mem_iff_getElem.mp hs
    rw [List.getElem_modify]
    have hj' : j < subscribers.length := by
      rw [List.length_modify] at hj
      exact hj
    split_ifs
    · exact follows_consume _ (h _ (List.getElem_mem hj')) step
    · exact h _ (List.getElem_mem hj')

end StreamFollows

/-- The losses of each subscriber are marked before the next event it is sent, and what it received
accounts for what was dispatched up to some point, each event at most once and in order. -/
theorem run_lossesMarked (bufferSize : ℕ) (steps : List StreamsStep) (s : Subscriber)
    (hs : s ∈ Run.exec (streamsStep bufferSize) [] steps) :
    Accounts s.dispatched (s.stream.sent.map StreamItem.event?) ∧
      s.received <+: s.stream.sent ∧
      ∃ told, told <+: s.dispatched ∧ Accounts told (s.received.map StreamItem.event?) ∧
        (s.received.filterMap StreamItem.event?).Sublist told := by
  have hfollows : ∀ s ∈ Run.exec (streamsStep bufferSize) [] steps, StreamFollows s :=
    Run.exec_invariant (streamsStep bufferSize) (fun _ _ => True) (fun l => ∀ s ∈ l, StreamFollows s)
      (fun l step h _ => step_follows bufferSize l step h) [] steps
      (fun _ h => absurd h List.not_mem_nil) (Run.allowed_true _ _ _)
  obtain ⟨lost, marks, haccount, -⟩ := hfollows s hs
  have hall : Accounts s.dispatched (s.stream.sent.map StreamItem.event?) :=
    ⟨lost, marks, haccount.accounts, haccount.unmarked⟩
  obtain ⟨told, htold, haccounts⟩ := hall.of_prefix (s.received.map StreamItem.event?)
    (haccount.received.map _)
  refine ⟨hall, haccount.received, told, htold, haccounts, ?_⟩
  have hsublist := haccounts.sublist
  rw [List.filterMap_map] at hsublist
  exact hsublist

/-- One item fits into the channel. The second and the third event are lost, then the fourth one
since the mark takes the place, and the fifth goes through as the consumer takes the mark. -/
def overflowSteps : List StreamsStep :=
  [.takeEventsStream 7, .dispatchEvent .started fun _ => [],
    .dispatchEvent (.newChainBlock 1) fun _ => [], .dispatchEvent (.newChainBlock 2) fun _ => [],
    .consume 0 .receive, .dispatchEvent (.newChainBlock 3) fun _ => [], .consume 0 .receive,
    .dispatchEvent (.newChainBlock 4) fun _ => [.receive]]

def overflowed : Subscriber where
  stream := ⟨7, false, [.event .started, .streamDiscontinuity, .streamDiscontinuity,
    .event (.newChainBlock 4)], 0, false⟩
  dispatched := [.started, .newChainBlock 1, .newChainBlock 2, .newChainBlock 3, .newChainBlock 4]
  received := [.event .started, .streamDiscontinuity, .streamDiscontinuity]

theorem overflow_lossesMarked :
    overflowed ∈ Run.exec (streamsStep 0) [] overflowSteps ∧
      ∃ told, told <+: overflowed.dispatched ∧
        Accounts told (overflowed.received.map StreamItem.event?) := by
  have hmem : overflowed ∈ Run.exec (streamsStep 0) [] overflowSteps := by decide
  obtain ⟨-, -, told, htold, haccounts, -⟩ := run_lossesMarked 0 overflowSteps overflowed hmem
  exact ⟨hmem, told, htold, haccounts⟩

end Exocore.Engine
