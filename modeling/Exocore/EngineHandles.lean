import Exocore.EngineStreams

/-! The handles of the engine, and the streams they leave behind. -/
namespace Exocore.Engine

/-- The streams that stay get the id of the handle that goes. -/
def unregisterHandle (handleId : ℕ) (streams : List EventStream) : List EventStream :=
  (streams.filter fun s => s.handleId ≠ handleId).map fun s => { s with handleId := handleId }

/-- The handles not dropped yet and the streams of the engine, with all the streams that were ever
created, as they would be if the engine still had them. -/
structure HandlesState where
  nextHandleId : ℕ
  handles : List ℕ
  streams : List EventStream
  created : List EventStream
deriving DecidableEq

def HandlesState.new : HandlesState := ⟨0, [], [], []⟩

/-- The next handle of the set. -/
def HandlesState.getHandle (n : HandlesState) : HandlesState :=
  { n with nextHandleId := n.nextHandleId + 1, handles := n.handles ++ [n.nextHandleId] }

inductive HandlesStep where
  | getHandle
  | clone (handleId : ℕ)
  | takeEventsStream (handleId : ℕ)
  | drop (handleId : ℕ)
  | dispatchEvent (event : Event)

/-- Only a handle that was not dropped can be used. -/
def handlesStep (bufferSize : ℕ) (n : HandlesState) : HandlesStep → HandlesState
  | .getHandle => n.getHandle
  | .clone handleId => if handleId ∈ n.handles then n.getHandle else n
  | .takeEventsStream handleId =>
    if handleId ∈ n.handles then
      { n with
        streams := getNewEventsStream bufferSize handleId n.streams
        created := getNewEventsStream bufferSize handleId n.created }
    else n
  | .drop handleId =>
    if handleId ∈ n.handles then
      { n with
        handles := n.handles.erase handleId
        streams := unregisterHandle handleId n.streams }
    else n
  | .dispatchEvent event =>
    { n with
      streams := n.streams.map fun s => s.dispatchEvent event
      created := n.created.map fun s => s.dispatchEvent event }

/-- The engine has the streams of the handles not dropped yet, and no others. -/
def HoldsStreams (n : HandlesState) : Prop :=
  n.streams = n.created.filter fun s => s.handleId ∈ n.handles

instance (n : HandlesState) : Decidable (HoldsStreams n) := inferInstanceAs (Decidable (_ = _))

/-- A handle is dropped while the engine has no stream of another one. -/
def DropsAlone (n : HandlesState) : HandlesStep → Prop
  | .drop handleId => handleId ∈ n.handles → ∀ s ∈ n.streams, s.handleId = handleId
  | _ => True

/-- Each handle has an id of its own. -/
structure IdsFresh (n : HandlesState) : Prop where
  nodup : n.handles.Nodup
  handles : ∀ h ∈ n.handles, h < n.nextHandleId
  created : ∀ s ∈ n.created, s.handleId < n.nextHandleId

theorem EventStream.trySend_handleId (s s' : EventStream) (item : StreamItem)
    (h : s.trySend item = .ok s') : s'.handleId = s.handleId := by
  rcases s.trySend_cases item with ⟨hsend, -⟩ | ⟨hsend, -⟩ | ⟨hsend, -⟩
  · rw [hsend] at h
    rw [← Except.ok.inj h]
  all_goals
    rw [hsend] at h
    contradiction

theorem EventStream.sendEvent_handleId (s : EventStream) (event : Event) :
    (s.sendEvent event).handleId = s.handleId := by
  unfold sendEvent
  split
  · rename_i s' hsend
    exact s.trySend_handleId s' _ hsend
  · rfl
  · rfl

@[simp] theorem EventStream.dispatchEvent_handleId (s : EventStream) (event : Event) :
    (s.dispatchEvent event).handleId = s.handleId := by
  unfold dispatchEvent
  split_ifs
  · split
    · rename_i s' hsend
      rw [sendEvent_handleId]
      exact s.trySend_handleId s' _ hsend
    · rfl
  · exact s.sendEvent_handleId event

theorem idsFresh_getHandle (n : HandlesState) (h : IdsFresh n) : IdsFresh n.getHandle := by
  unfold HandlesState.getHandle
  refine ⟨?_, ?_, ?_⟩
  · apply List.nodup_append.mpr
    refine ⟨h.nodup, List.nodup_singleton _, ?_⟩
    intro a ha b hb heq
    have hlt := h.handles a ha
    rw [List.mem_singleton.mp hb] at heq
    omega
  · intro a ha
    show a < n.nextHandleId + 1
    rcases List.mem_append.mp ha with ha | ha
    · have hlt := h.handles a ha
      omega
    · rw [List.mem_singleton.mp ha]
      omega
  · intro s hs
    have hlt := h.created s hs
    show s.handleId < n.nextHandleId + 1
    omega

theorem step_idsFresh (bufferSize : ℕ) (n : HandlesState) (h : IdsFresh n) (step : HandlesStep) :
    IdsFresh (handlesStep bufferSize n step) := by
  cases step with
  | getHandle => exact idsFresh_getHandle n h
  | clone handleId =>
    rw [handlesStep]
    split_ifs
    · exact idsFresh_getHandle n h
    · exact h
  | takeEventsStream handleId =>
    rw [handlesStep]
    split_ifs with hmem
    · refine ⟨h.nodup, h.handles, ?_⟩
      intro s hs
      rcases List.mem_append.mp hs with hs | hs
      · exact h.created s hs
      · rw [List.mem_singleton.mp hs]
        exact h.handles handleId hmem
    · exact h
  | drop handleId =>
    rw [handlesStep]
    split_ifs
    · exact ⟨h.nodup.erase _, fun a ha => h.handles a (List.mem_of_mem_erase ha), h.created⟩
    · exact h
  | dispatchEvent event =>
    refine ⟨h.nodup, h.handles, ?_⟩
    intro s hs
    obtain ⟨s', hs', rfl⟩ := List.mem_map.mp hs
    rw [EventStream.dispatchEvent_handleId]
    exact h.created s' hs'

/-- No stream of a handle to come was created before. -/
theorem holdsStreams_getHandle (n : HandlesState) (h : IdsFresh n) :
    HoldsStreams n.getHandle ↔ HoldsStreams n := by
  have hfilter : (n.created.filter fun s => s.handleId ∈ n.handles ++ [n.nextHandleId]) =
      n.created.filter fun s => s.handleId ∈ n.handles := by
    apply List.filter_congr
    intro s hs
    have hlt := h.created s hs
    have hne : s.handleId ≠ n.nextHandleId := by omega
    simp [hne]
  unfold HoldsStreams HandlesState.getHandle
  dsimp only
  rw [hfilter]

/-- The streams that stay keep their ids iff there are none. -/
theorem unregisterHandle_eq_filter_iff (handleId : ℕ) (streams : List EventStream) :
    unregisterHandle handleId streams = streams.filter (fun s => s.handleId ≠ handleId) ↔
      ∀ s ∈ streams, s.handleId = handleId := by
  constructor
  · intro h s hs
    by_contra hne
    have hmem : s ∈ unregisterHandle handleId streams := by
      rw [h]
      exact List.mem_filter.mpr ⟨hs, decide_eq_true hne⟩
    obtain ⟨s', -, heq⟩ := List.mem_map.mp hmem
    apply hne
    rw [← heq]
  · intro h
    have hnil : (streams.filter fun s => s.handleId ≠ handleId) = [] := by
      apply List.filter_eq_nil_iff.mpr
      intro s hs
      simp [h s hs]
    rw [unregisterHandle, hnil, List.map_nil]

/-- A step keeps the streams right iff it drops no handle while there is a stream of another. -/
theorem step_holdsStreams_iff (bufferSize : ℕ) (n : HandlesState) (hids : IdsFresh n)
    (hholds : HoldsStreams n) (step : HandlesStep) :
    HoldsStreams (handlesStep bufferSize n step) ↔ DropsAlone n step := by
  cases step with
  | getHandle =>
    rw [handlesStep, holdsStreams_getHandle n hids]
    exact ⟨fun _ => trivial, fun _ => hholds⟩
  | clone handleId =>
    refine ⟨fun _ => trivial, fun _ => ?_⟩
    rw [handlesStep]
    split_ifs
    · exact (holdsStreams_getHandle n hids).mpr hholds
    · exact hholds
  | takeEventsStream handleId =>
    refine ⟨fun _ => trivial, fun _ => ?_⟩
    rw [handlesStep]
    split_ifs with hmem
    · unfold HoldsStreams getNewEventsStream
      dsimp only
      have hnew : (EventStream.new bufferSize handleId).handleId ∈ n.handles := hmem
      rw [List.filter_append, List.filter_singleton, decide_eq_true hnew, ← hholds]
      rfl
    · exact hholds
  | drop handleId =>
    rw [handlesStep, DropsAlone]
    split_ifs with hmem
    · have hspec : (n.created.filter fun s => s.handleId ∈ n.handles.erase handleId) =
          n.streams.filter fun s => s.handleId ≠ handleId := by
        rw [hholds, List.filter_filter]
        apply List.filter_congr
        intro s _
        simp only [hids.nodup.mem_erase_iff, ne_eq, Bool.decide_and]
      unfold HoldsStreams
      dsimp only
      rw [hspec, unregisterHandle_eq_filter_iff]
      exact ⟨fun h _ => h, fun h => h hmem⟩
    · exact ⟨fun _ hin => absurd hin hmem, fun _ => hholds⟩
  | dispatchEvent event =>
    refine ⟨fun _ => trivial, fun _ => ?_⟩
    unfold HoldsStreams handlesStep
    dsimp only
    rw [List.filter_map, hholds]
    congr 1
    apply List.filter_congr
    intro s _
    rw [Function.comp_apply, EventStream.dispatchEvent_handleId]

/-- The streams are right all along a run iff no handle is dropped while the engine has a stream
of another one. -/
theorem run_holdsStreams_iff (bufferSize : ℕ) (steps : List HandlesStep) :
    Run.Allowed (handlesStep bufferSize) DropsAlone .new steps ↔
      ∀ before after, steps = before ++ after →
        HoldsStreams (Run.exec (handlesStep bufferSize) .new before) := by
  have hstart : IdsFresh .new := by
    refine ⟨List.nodup_nil, ?_, ?_⟩
    · exact fun _ hmem => absurd hmem List.not_mem_nil
    · exact fun _ hmem => absurd hmem List.not_mem_nil
  have hfresh (before : List HandlesStep) :
      IdsFresh (Run.exec (handlesStep bufferSize) .new before) :=
    Run.exec_invariant _ (fun _ _ => True) IdsFresh
      (fun n step h _ => step_idsFresh bufferSize n h step) _ before hstart (Run.allowed_true _ _ _)
  have hrun := Run.allowed_iff_invariant (handlesStep bufferSize) DropsAlone
    (fun n => IdsFresh n ∧ HoldsStreams n) (fun n step h => ?_) .new steps ⟨hstart, rfl⟩
  · rw [hrun]
    constructor
    · exact fun hall before after heq => (hall before after heq).2
    · exact fun hall before after heq => ⟨hfresh before, hall before after heq⟩
  · rw [← step_holdsStreams_iff bufferSize n h.1 h.2 step]
    exact ⟨fun hinv => hinv.2, fun hholds => ⟨step_idsFresh bufferSize n h.1 step, hholds⟩⟩

/-- A handle without streams is dropped while another one has a stream, which then has the id of the
first: it stays when its own handle goes. -/
theorem dropsOther_not_holdsStreams :
    ¬ HoldsStreams (Run.exec (handlesStep 1000) .new
        [.getHandle, .getHandle, .takeEventsStream 1, .drop 0]) ∧
      (Run.exec (handlesStep 1000) .new
        [.getHandle, .getHandle, .takeEventsStream 1, .drop 0, .drop 1]).streams =
          [.new 1000 1] := by
  decide

end Exocore.Engine
