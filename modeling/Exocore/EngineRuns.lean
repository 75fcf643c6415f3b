import Exocore.ChainSyncFits
import Exocore.CommitTicks
import Exocore.EngineNotify

/-! Runs of the engine: where no handler fails behind what it stored, every stream is told of
every operation and every block. -/
namespace Exocore.Engine

open Exocore.Core Exocore.Chain Exocore.Pending

section Runs
variable [Crates]

/-- The frames read, and the store takes their operations one after the other. -/
inductive Includes : MemoryPendingStore → List ℕ → List (Option Bytes) → MemoryPendingStore →
    List ℕ → Prop
  | nil (store : MemoryPendingStore) (included : List ℕ) : Includes store included [] store included
  | cons (store mid store' : MemoryPendingStore) (included included' : List ℕ) (data : Bytes)
      (rest : List (Option Bytes)) (frame : OperationFrame) (reader : ChainOperation)
      (existed : Bool) (hread : readOperationFrame data = .ok frame)
      (hreader : frame.frame.reader = some reader)
      (hput : store.putOperation ⟨reader.operationId, frame⟩ = .ok (existed, mid))
      (hrest : Includes mid (reader.operationId :: included) rest store' included') :
      Includes store included (some data :: rest) store' included'

/-- The ranges of a request are accepted, each on the store with the operations before it. -/
inductive AnswersRanges (height : Option ℕ) : MemoryPendingStore → SyncRangesBuilder →
    List PendingSyncRange → Prop
  | nil (store : MemoryPendingStore) (out : SyncRangesBuilder) : AnswersRanges height store out []
  | cons (store mid : MemoryPendingStore) (out out' : SyncRangesBuilder) (changed : Bool)
      (range : PendingSyncRange) (rest : List PendingSyncRange) (frames : List (Option Bytes))
      (included : List ℕ)
      (hbounds : ¬ (range.toOperation ≠ 0 ∧ range.toOperation < range.fromOperation))
      (hframes : range.operationsFrames.get = .ok frames)
      (hincludes : Includes store [] frames mid included)
      (hcompare : compareRange mid height range included out = .ok (changed, out'))
      (hrest : AnswersRanges height mid out' rest) : AnswersRanges height store out (range :: rest)

/-- The operations that the ranges bring are in the store. -/
def BringsNothing (store : MemoryPendingStore) (ranges : List PendingSyncRange) : Prop :=
  ∀ range ∈ ranges, ∀ frames, range.operationsFrames.get = .ok frames →
    ∀ data, some data ∈ frames → ∀ frame, readOperationFrame data = .ok frame →
      ∀ reader, frame.frame.reader = some reader →
        (store.getOperation reader.operationId).isSome = true

theorem includes_ok (store store' : MemoryPendingStore) (included included' : List ℕ)
    (frames : List (Option Bytes)) (h : Includes store included frames store' included')
    (context : SyncContext) :
    ∃ context', storeIncludedOperations frames included ⟨context, store⟩ =
      (.ok included', ⟨context', store'⟩) := by
  induction h generalizing context with
  | nil store included => exact ⟨context, rfl⟩
  | cons store mid store' included included' data rest frame reader existed hread hreader hput _
      ih =>
    simp only [storeIncludedOperations, orError_some, Action.lift_ok_bind, hread, liftError_ok,
      hreader]
    rw [Action.bind_apply, putOperation, hput]
    cases existed with
    | true => exact ih context
    | false => exact ih (context.pushEvent (.newPendingOperation reader.operationId))

theorem answersRanges_ok (height : Option ℕ) (store : MemoryPendingStore) (out : SyncRangesBuilder)
    (ranges : List PendingSyncRange) (h : AnswersRanges height store out ranges) (changes : Bool)
    (context : SyncContext) :
    ∃ r s, handleIncomingSyncRangesLoop height ranges changes out ⟨context, store⟩ =
      (.ok r, s) := by
  induction h generalizing changes context with
  | nil store out => exact ⟨_, _, rfl⟩
  | cons store mid out out' changed range rest frames included hbounds hframes hincludes hcompare _
      ih =>
    obtain ⟨context', hstored⟩ := includes_ok store mid [] included frames hincludes context
    have hrange : handleIncomingSyncRange height range out ⟨context, store⟩ =
        (.ok (changed, out'), ⟨context', mid⟩) := by
      rw [handleIncomingSyncRange]
      rw [if_neg hbounds, hframes, Action.lift_ok_bind, Action.bind_of_ok _ _ _ _ _ hstored,
        Action.get_bind, hcompare]
      rfl
    rw [handleIncomingSyncRangesLoop_cons_ok _ _ _ _ _ _ _ _ _ hrange]
    exact ih _ _

/-- Frames that are all stored were included. -/
theorem includes_of_ok (frames : List (Option Bytes)) (included included' : List ℕ)
    (s s' : PendingState) (h : storeIncludedOperations frames included s = (.ok included', s')) :
    Includes s.store included frames s'.store included' := by
  induction frames generalizing included s with
  | nil =>
    obtain ⟨hincluded, rfl⟩ := Prod.ext_iff.mp h
    rw [← Except.ok.inj hincluded]
    exact .nil _ _
  | cons data rest ih =>
    rw [storeIncludedOperations] at h
    cases data with
    | none => exact absurd (congrArg Prod.fst h) (by simp [orError])
    | some data =>
      rw [orError_some, Action.lift_ok_bind] at h
      cases hread : readOperationFrame data with
      | error e => exact absurd (congrArg Prod.fst h) (by simp [hread, liftError])
      | ok frame =>
        rw [hread, liftError_ok, Action.lift_ok_bind] at h
        cases hreader : frame.frame.reader with
        | none => exact absurd (congrArg Prod.fst h) (by simp [hreader, orError])
        | some reader =>
          rw [hreader, orError_some, Action.lift_ok_bind, Action.bind_apply, putOperation] at h
          cases hput : s.store.putOperation ⟨reader.operationId, frame⟩ with
          | error e => exact absurd (congrArg Prod.fst h) (by simp [hput])
          | ok r =>
            obtain ⟨existed, mid⟩ := r
            simp only [hput] at h
            refine .cons s.store mid s'.store included included' data rest frame reader existed hread
              hreader hput ?_
            cases existed with
            | true => exact ih _ ⟨s.syncContext, mid⟩ h
            | false => exact ih _ ⟨s.syncContext.pushEvent _, mid⟩ h

/-- A request that is handled without a fault was accepted. -/
theorem answersRanges_of_ok (height : Option ℕ) (ranges : List PendingSyncRange) (changes : Bool)
    (out : SyncRangesBuilder) (s s' : PendingState) (r : Option SyncRangesBuilder)
    (h : handleIncomingSyncRangesLoop height ranges changes out s = (.ok r, s')) :
    AnswersRanges height s.store out ranges := by
  induction ranges generalizing changes out s with
  | nil => exact .nil _ _
  | cons range rest ih =>
    rw [handleIncomingSyncRangesLoop] at h
    obtain ⟨⟨changed, out'⟩, mid, hrange, hrest⟩ := Action.bind_eq_ok _ _ _ _ _ h
    rw [handleIncomingSyncRange] at hrange
    split_ifs at hrange with hbounds
    · exact absurd (congrArg Prod.fst hrange) (by simp)
    · cases hframes : range.operationsFrames.get with
      | error e => exact absurd (congrArg Prod.fst hrange) (by simp [hframes])
      | ok frames =>
        rw [hframes, Action.lift_ok_bind] at hrange
        obtain ⟨included, mid', hstored, hcompare⟩ := Action.bind_eq_ok _ _ _ _ _ hrange
        rw [Action.get_bind] at hcompare
        obtain ⟨hcompare, rfl⟩ := Prod.ext_iff.mp hcompare
        exact .cons s.store mid'.store out out' changed range rest frames included hbounds hframes
          (includes_of_ok frames [] included s mid' hstored) hcompare (ih _ _ mid' hrest)

/-- An operation of the frames can be read, and has the id. -/
def FrameBrings (frames : List (Option Bytes)) (frame : OperationFrame) (reader : ChainOperation) :
    Prop :=
  ∃ data, some data ∈ frames ∧ readOperationFrame data = .ok frame ∧
    frame.frame.reader = some reader

/-- The frames of a range keep what the put of each operation among them keeps. -/
theorem storeIncludedOperations_keeps (inv : MemoryPendingStore → Prop)
    (frames : List (Option Bytes)) (included : List ℕ) (s : PendingState) (hs : inv s.store)
    (hput : ∀ frame reader, FrameBrings frames frame reader → ∀ store existed store', inv store →
      store.putOperation ⟨reader.operationId, frame⟩ = .ok (existed, store') → inv store') :
    inv (storeIncludedOperations frames included s).2.store := by
  induction frames generalizing included s with
  | nil => exact hs
  | cons data rest ih =>
    have hrest : ∀ frame reader, FrameBrings rest frame reader → ∀ store existed store', inv store →
        store.putOperation ⟨reader.operationId, frame⟩ = .ok (existed, store') → inv store' := by
      rintro frame reader ⟨bytes, hmem, hread⟩
      exact hput frame reader ⟨bytes, List.mem_cons_of_mem _ hmem, hread⟩
    rw [storeIncludedOperations]
    cases data with
    | none => exact hs
    | some data =>
      simp only [orError_some, Action.lift_ok_bind]
      cases hread : readOperationFrame data with
      | error e => exact hs
      | ok frame =>
        simp only [liftError_ok, Action.lift_ok_bind]
        cases hreader : frame.frame.reader with
        | none => exact hs
        | some reader =>
          simp only [orError_some, Action.lift_ok_bind]
          rw [Action.bind_apply, putOperation]
          cases hstored : s.store.putOperation ⟨reader.operationId, frame⟩ with
          | error e => exact hs
          | ok r =>
            obtain ⟨existed, mid⟩ := r
            have hmid : inv mid := hput frame reader ⟨data, List.mem_cons_self, hread, hreader⟩
              s.store existed mid hs hstored
            cases existed with
            | true => exact ih _ ⟨_, mid⟩ hmid hrest
            | false => exact ih _ ⟨_, mid⟩ hmid hrest

/-- The same, for the ranges of a request. -/
theorem handleIncomingSyncRangesLoop_keeps (inv : MemoryPendingStore → Prop) (height : Option ℕ)
    (ranges : List PendingSyncRange) (changes : Bool) (out : SyncRangesBuilder) (s : PendingState)
    (hs : inv s.store)
    (hput : ∀ range ∈ ranges, ∀ frames, range.operationsFrames.get = .ok frames →
      ∀ frame reader, FrameBrings frames frame reader → ∀ store existed store', inv store →
        store.putOperation ⟨reader.operationId, frame⟩ = .ok (existed, store') → inv store') :
    inv (handleIncomingSyncRangesLoop height ranges changes out s).2.store := by
  induction ranges generalizing changes out s with
  | nil => exact hs
  | cons range rest ih =>
    have hrange : inv (handleIncomingSyncRange height range out s).2.store := by
      rw [handleIncomingSyncRange]
      split_ifs
      · exact hs
      · cases hframes : range.operationsFrames.get with
        | error e => exact hs
        | ok frames =>
          simp only [Action.lift_ok_bind]
          have hstored := storeIncludedOperations_keeps inv frames [] s hs
            (hput range List.mem_cons_self frames hframes)
          exact Action.bind_keeps_snd (fun st : PendingState => inv st.store) _ _ s hstored
            fun _ => hstored
    have hrest := fun changes out s hs => ih changes out s hs fun r hr =>
      hput r (List.mem_cons_of_mem _ hr)
    cases hr : handleIncomingSyncRange height range out s with
    | mk r mid =>
      rw [hr] at hrange
      cases r with
      | error e =>
        rw [handleIncomingSyncRangesLoop_cons_error _ _ _ _ _ _ _ _ hr]
        exact hrange
      | ok r =>
        rw [handleIncomingSyncRangesLoop_cons_ok _ _ _ _ _ _ _ _ _ hr]
        exact hrest _ _ mid hrange

/-- Where nothing is brought, the store has the operations that it had. -/
theorem bringsNothing_same (height : Option ℕ) (ranges : List PendingSyncRange) (changes : Bool)
    (out : SyncRangesBuilder) (store : MemoryPendingStore) (h : BringsNothing store ranges)
    (s : PendingState)
    (hs : ∀ id, (s.store.getOperation id).isSome = (store.getOperation id).isSome) (id : ℕ) :
    ((handleIncomingSyncRangesLoop height ranges changes out s).2.store.getOperation id).isSome =
      (store.getOperation id).isSome := by
  apply handleIncomingSyncRangesLoop_keeps (fun mid => ∀ id, (mid.getOperation id).isSome =
    (store.getOperation id).isSome) height ranges changes out s hs
  rintro range hrange frames hframes frame reader ⟨data, hdata, hread, hreader⟩ mid existed mid' hmid
    hput t
  obtain ⟨type, -, hget⟩ := mid.putOperation_getOperation mid' _ existed reader hreader hput
  rw [hget]
  split_ifs with ht
  · rw [ht, h range hrange frames hframes data hdata frame hread reader hreader]
    rfl
  · exact hmid t

section Requests

theorem handleIncomingSyncRequest_store (p : PendingSynchronizer) (fromNode : NodeId)
    (request : PendingSyncRequest) (ranges : List PendingSyncRange)
    (hranges : request.ranges.get = .ok ranges) (s : PendingState) :
    (p.handleIncomingSyncRequest fromNode (some request) s).2.store =
      (handleIncomingSyncRangesLoop (p.getFromBlockHeight s.syncContext (some request)) ranges false
        (.new p.config) s).2.store := by
  rw [PendingSynchronizer.handleIncomingSyncRequest, orError_some, Action.lift_ok_bind,
    Action.get_bind, hranges, Action.lift_ok_bind, Action.bind_apply,
    PendingSynchronizer.handleIncomingSyncRanges]
  rcases handleIncomingSyncRangesLoop (p.getFromBlockHeight s.syncContext (some request)) ranges
    false (.new p.config) s with ⟨_ | out, s'⟩
  · rfl
  · cases out <;> rfl

theorem handleIncomingSyncRequest_ok (p : PendingSynchronizer) (fromNode : NodeId)
    (request : PendingSyncRequest) (ranges : List PendingSyncRange)
    (hranges : request.ranges.get = .ok ranges) (s : PendingState) (r : Option SyncRangesBuilder)
    (mid : PendingState)
    (hloop : handleIncomingSyncRangesLoop (p.getFromBlockHeight s.syncContext (some request)) ranges
      false (.new p.config) s = (.ok r, mid)) :
    ∃ s', p.handleIncomingSyncRequest fromNode (some request) s = (.ok (), s') := by
  rw [PendingSynchronizer.handleIncomingSyncRequest, orError_some, Action.lift_ok_bind,
    Action.get_bind, hranges, Action.lift_ok_bind, PendingSynchronizer.handleIncomingSyncRanges,
    Action.bind_of_ok _ _ _ _ _ hloop]
  cases r with
  | none => exact ⟨mid, rfl⟩
  | some out => exact ⟨_, rfl⟩

/-- A tick sends what it holds, without a failure. -/
theorem pendingTick_ok (p : PendingSynchronizer) (canSendRequest : NodeId → Bool)
    (s : PendingState) : ∃ context, p.tick canSendRequest s = (.ok (), ⟨context, s.store⟩) := by
  rw [PendingSynchronizer.tick]
  generalize p.otherChainNodes = nodes
  induction nodes generalizing s with
  | nil => exact ⟨s.syncContext, rfl⟩
  | cons node rest ih =>
    rw [PendingSynchronizer.tickLoop]
    split_ifs
    · obtain ⟨cuts, -, -, hrequest⟩ := createSyncRequestForRange_eq p s.syncContext s.store
        .unbounded fun _ => .none
      rw [Action.get_bind, hrequest, Action.lift_ok_bind]
      exact ih _
    · exact ih s

theorem pendingTick_store (p : PendingSynchronizer) (canSendRequest : NodeId → Bool)
    (s : PendingState) : (p.tick canSendRequest s).2.store = s.store := by
  obtain ⟨context, hok⟩ := pendingTick_ok p canSendRequest s
  rw [hok]

omit [Crates] in
theorem pendingSynchronizer_nodes (e : EngineInner) (node : NodeId)
    (hnode : node ∈ e.pendingSynchronizer.otherChainNodes) :
    (e.cell.get node).isSome = true := by
  rw [PendingSynchronizer.otherChainNodes, List.mem_map] at hnode
  obtain ⟨x, hx, rfl⟩ := hnode
  rw [← e.pendingCell]
  exact cell_get_of_mem _ x (List.mem_of_mem_filter (List.mem_of_mem_filter hx))

end Requests

section Handlers
variable {CS : Type}

/-- The end of most handlers. -/
def finishHandler (cell : Cell) : Action (HandlerState CS) EngineError Unit := do
  takeSyncState
  sendMessagesFromSyncContext cell
  dispatchEventsFromSyncContext

theorem finishHandler_stores (cell : Cell) (s : HandlerState CS) :
    (finishHandler cell s).2.engine.pendingStore = s.engine.pendingStore ∧
      (finishHandler cell s).2.engine.chainStore = s.engine.chainStore ∧
      (finishHandler cell s).2.engine.chainSynchronizer = s.engine.chainSynchronizer := by
  rw [finishHandler, Action.bind_apply]
  simp only [takeSyncState]
  rw [Action.bind_apply, sendMessagesFromSyncContext]
  simp only
  cases sendMessages cell s.syncContext.messages with
  | error e => exact ⟨rfl, rfl, rfl⟩
  | ok _ => exact ⟨rfl, rfl, rfl⟩

/-- The stores are as the call in front of the end has left them. -/
theorem then_finishHandler_stores (x : Action (HandlerState CS) EngineError Unit) (cell : Cell)
    (s : HandlerState CS) :
    ((x >>= fun _ => finishHandler cell) s).2.engine.pendingStore =
        (x s).2.engine.pendingStore ∧
      ((x >>= fun _ => finishHandler cell) s).2.engine.chainStore = (x s).2.engine.chainStore ∧
      ((x >>= fun _ => finishHandler cell) s).2.engine.chainSynchronizer =
        (x s).2.engine.chainSynchronizer := by
  rcases Action.bind_cases x (fun _ => finishHandler cell) s with
    ⟨e, s', hs', h⟩ | ⟨a, s', hs', h⟩
  · rw [h, hs']
    exact ⟨rfl, rfl, rfl⟩
  · rw [h, hs']
    exact finishHandler_stores cell s'

/-- A call that ends well and has announced what it did, in front of the end of a handler. -/
theorem then_finishHandler_announced (n : EngineState (Recorded CS)) (cell : Cell)
    (x : Action (HandlerState (Recorded CS)) EngineError Unit) (s : HandlerState (Recorded CS))
    (hx : x n.start = (.ok (), s)) (hstreams : s.engine.streams = n.streams)
    (h : Announces (fun id => (cell.get id).isSome = true) n.start.view s.view) :
    Announced n ((x >>= fun _ => finishHandler cell) n.start).2.engine := by
  rw [Action.bind_of_ok _ _ _ _ _ hx]
  exact finish_announced n cell s hstreams h

/-- A request is handled while the chain is synchronized. It brings nothing new, or it comes
from a node of the cell and all of it is accepted. -/
def RequestClear (e : EngineInner) (n : EngineState CS) (fromNode : NodeId)
    (request : PendingSyncRequest) : Prop :=
  n.chainSynchronizer.status = .synchronized → ∀ ranges, request.ranges.get = .ok ranges →
    BringsNothing n.pendingStore ranges ∨
      (e.cell.get fromNode).isSome = true ∧
        AnswersRanges (e.pendingSynchronizer.getFromBlockHeight (.new n.syncState) (some request))
          n.pendingStore (.new e.pendingSynchronizer.config) ranges

omit [Crates] in
theorem exists_ok_iff {E A : Type} (r : Res E A) : (∃ a, r = .ok a) ↔ r.isOk = true := by
  cases r with
  | error e => simp [Except.isOk, Except.toBool]
  | ok a => simp [Except.isOk, Except.toBool]

/-- The condition, for a request that can be run. -/
theorem requestClear_of_ok (e : EngineInner) (n : EngineState CS) (fromNode : NodeId)
    (request : PendingSyncRequest) (ranges : List PendingSyncRange)
    (hranges : request.ranges.get = .ok ranges) (hknown : (e.cell.get fromNode).isSome = true)
    (hok : (handleIncomingSyncRangesLoop (e.pendingSynchronizer.getFromBlockHeight
      (.new n.syncState) (some request)) ranges false (.new e.pendingSynchronizer.config)
      ⟨.new n.syncState, n.pendingStore⟩).1.isOk = true) : RequestClear e n fromNode request := by
  intro _ ranges' hranges'
  obtain rfl := Except.ok.inj (hranges.symm.trans hranges')
  obtain ⟨r, hr⟩ := (exists_ok_iff _).mpr hok
  exact Or.inr ⟨hknown, answersRanges_of_ok _ _ _ _ _ _ r (Action.eq_ok_of_fst _ _ r hr)⟩

theorem pendingSyncRequest_announced (e : EngineInner) (n : EngineState (Recorded CS))
    (fromNode : NodeId) (request : Option PendingSyncRequest)
    (hclear : ∀ r, request = some r → RequestClear e n fromNode r) :
    Announced n (e.handleIncomingPendingSyncRequest fromNode request n.start).2.engine := by
  have hsame : Announced n n := announced_of_same (fun _ h => h) rfl
  rw [EngineInner.handleIncomingPendingSyncRequest, Action.get_bind]
  cases hsync : chainIsSynchronized n.start.engine with
  | false => exact hsame
  | true =>
    have hstatus : n.chainSynchronizer.status = .synchronized := of_decide_eq_true hsync
    cases request with
    | none => exact hsame
    | some request =>
      have hclear := hclear request rfl hstatus
      change Announced n ((onPendingSync (e.pendingSynchronizer.handleIncomingSyncRequest fromNode
        (some request)) >>= fun _ => finishHandler e.cell) n.start).2.engine
      obtain ⟨hpending, hchain, -⟩ := then_finishHandler_stores (onPendingSync
        (e.pendingSynchronizer.handleIncomingSyncRequest fromNode (some request))) e.cell n.start
      cases hranges : request.ranges.get with
      | error err =>
        -- the store is not reached
        have hfail : e.pendingSynchronizer.handleIncomingSyncRequest fromNode (some request)
            ⟨.new n.syncState, n.pendingStore⟩ = (.error err, ⟨.new n.syncState, n.pendingStore⟩) := by
          rw [PendingSynchronizer.handleIncomingSyncRequest, orError_some, Action.lift_ok_bind,
            Action.get_bind, hranges]
          rfl
        refine announced_of_same ?_ (congrArg Recorded.written hchain)
        intro id hsome
        rw [hpending] at hsome
        have hstore : (onPendingSync (e.pendingSynchronizer.handleIncomingSyncRequest fromNode
            (some request)) n.start).2.engine.pendingStore = n.pendingStore :=
          congrArg (fun r => r.2.store) hfail
        rwa [hstore] at hsome
      | ok ranges =>
        rcases hclear ranges hranges with hnothing | ⟨hknown, hanswers⟩
        · refine announced_of_same ?_ (congrArg Recorded.written hchain)
          intro id hsome
          rw [hpending] at hsome
          have hstore := handleIncomingSyncRequest_store e.pendingSynchronizer fromNode request ranges
            hranges ⟨.new n.syncState, n.pendingStore⟩
          have hkeeps := bringsNothing_same (e.pendingSynchronizer.getFromBlockHeight
            (.new n.syncState) (some request)) ranges false (.new e.pendingSynchronizer.config)
            n.pendingStore hnothing ⟨.new n.syncState, n.pendingStore⟩ (fun _ => rfl) id
          rw [← hkeeps, ← hstore]
          exact hsome
        · obtain ⟨r, s, hloop⟩ := answersRanges_ok _ n.pendingStore _ ranges hanswers false
            (.new n.syncState)
          obtain ⟨s', hok⟩ := handleIncomingSyncRequest_ok e.pendingSynchronizer fromNode request
            ranges hranges ⟨.new n.syncState, n.pendingStore⟩ r s hloop
          have hcall : Announcing (fun id => (e.cell.get id).isSome = true)
              (PendingState.view n.chainStore.written)
              (e.pendingSynchronizer.handleIncomingSyncRequest fromNode (some request)) :=
            announcing_handleIncomingSyncRequest _ fromNode hknown (some request)
          have hann := hcall ⟨.new n.syncState, n.pendingStore⟩
            (Or.inl ⟨(), congrArg Prod.fst hok⟩)
          rw [hok] at hann
          refine then_finishHandler_announced n e.cell _
            ⟨{ n with pendingStore := s'.store }, s'.syncContext⟩ ?_ rfl hann
          rw [onPendingSync]
          exact congrArg (fun r => (r.1, (⟨{ n with pendingStore := r.2.store }, r.2.syncContext⟩ :
            HandlerState (Recorded CS)))) hok

/-- A new operation that is stored is announced: nothing fails behind the store. -/
theorem newOperation_announced (e : EngineInner) (n : EngineState (Recorded CS))
    (operation : NewOperation) :
    Announced n (e.handleNewOperation operation n.start).2.engine := by
  have hnodes : ∀ node ∈ e.pendingSynchronizer.otherChainNodes,
      (e.cell.get node).isSome = true := pendingSynchronizer_nodes e
  rcases handleNewOperation_cases e.pendingSynchronizer operation
      ⟨.new n.syncState, n.pendingStore⟩ with ⟨err, hres⟩ | ⟨s, hres⟩
  · have hfail : onPendingSync (e.pendingSynchronizer.handleNewOperation operation) n.start =
        (.error err, n.start) := by
      rw [onPendingSync]
      exact congrArg (fun r => (r.1, (⟨{ n with pendingStore := r.2.store }, r.2.syncContext⟩ :
        HandlerState (Recorded CS)))) hres
    rw [EngineInner.handleNewOperation, Action.bind_of_error _ _ _ _ _ hfail]
    exact announced_of_same (fun _ h => h) rfl
  · have hcall : Announcing (fun id => (e.cell.get id).isSome = true)
        (PendingState.view n.chainStore.written)
        (e.pendingSynchronizer.handleNewOperation operation) :=
      announcing_handleNewOperation _ operation hnodes
    have hann := hcall ⟨.new n.syncState, n.pendingStore⟩ (Or.inl ⟨(), congrArg Prod.fst hres⟩)
    rw [hres] at hann
    have hok : onPendingSync (e.pendingSynchronizer.handleNewOperation operation) n.start =
        (.ok (), (⟨{ n with pendingStore := s.store }, s.syncContext⟩ :
          HandlerState (Recorded CS))) := by
      rw [onPendingSync]
      exact congrArg (fun r => (r.1, (⟨{ n with pendingStore := r.2.store }, r.2.syncContext⟩ :
        HandlerState (Recorded CS)))) hres
    rw [EngineInner.handleNewOperation, Action.bind_of_ok _ _ _ _ _ hok]
    -- the messages only go out once the chain is synchronized, the events do in any case
    rw [Action.bind_apply, takeSyncState]
    simp only
    rw [Action.get_bind]
    split_ifs
    · exact finish_announced n e.cell ⟨{ n with pendingStore := s.store }, s.syncContext⟩ rfl hann
    · exact dispatch_announced n _ _ rfl hann

variable [ChainRangeStore CS]

/-- The blocks of a response read, each follows by its offset, and the chain takes them. -/
inductive TakesBlocks : CS → Option BlockMetadata → List (Option Bytes) → Prop
  | nil (store : CS) (last : Option BlockMetadata) : TakesBlocks store last []
  | cons (store store' : CS) (last : Option BlockMetadata) (data : Bytes)
      (rest : List (Option Bytes)) (block : DataBlock) (next : ℕ) (blockMeta : BlockMetadata)
      (hread : DataBlock.new .ref data = .ok block)
      (hoffset : block.offset = (last.map BlockMetadata.nextOffset).getD 0)
      (hwrite : ChainStore.writeBlock store block = (.ok next, store'))
      (hmeta : BlockMetadata.fromStoredBlock block = .ok blockMeta)
      (hrest : TakesBlocks store' (some blockMeta) rest) : TakesBlocks store last (some data :: rest)

/-- Not even the first block of a response is written. -/
def TakesNone (store : CS) (last : Option BlockMetadata) (blocks : List (Option Bytes)) : Prop :=
  ∀ data rest, blocks = some data :: rest → ∀ block, DataBlock.new .ref data = .ok block →
    block.offset = (last.map BlockMetadata.nextOffset).getD 0 →
      ∃ err store', ChainStore.writeBlock store block = (.error err, store')

/-- The blocks of the lead node's response are all taken, or none of them is. -/
def ResponseClear (e : EngineInner) (n : EngineState CS) (fromNode : NodeId)
    (response : ChainSyncResponse) : Prop :=
  response.blocks.has = true → n.chainSynchronizer.leader = some fromNode →
    ∀ last blocks, ChainSynchronizer.lastLocalMetadata n.chainStore = .ok last →
      response.blocks.get = .ok blocks →
        TakesNone n.chainStore last blocks ∨
          (e.cell.get fromNode).isSome = true ∧ TakesBlocks n.chainStore last blocks

theorem takesBlocks_ok (store : CS) (last : Option BlockMetadata) (blocks : List (Option Bytes))
    (h : TakesBlocks store last blocks) (synchronizer : ChainSynchronizer) (context : SyncContext) :
    ∃ r s, ChainSynchronizer.writeIncomingBlocks blocks last ⟨synchronizer, context, store⟩ =
      (.ok r, s) := by
  induction h generalizing context with
  | nil store last => exact ⟨_, _, rfl⟩
  | cons store store' last data rest block next blockMeta hread hoffset hwrite hmeta _ ih =>
    simp only [ChainSynchronizer.writeIncomingBlocks, orError_some, Action.lift_ok_bind, hread,
      liftError_ok, hmeta]
    rw [if_pos hoffset, Action.bind_apply, ChainSynchronizer.pushChainEvent]
    simp only
    rw [Action.bind_apply, ChainSynchronizer.writeChainBlock]
    simp only [hwrite]
    exact ih _

theorem takesNone_written (blocks : List (Option Bytes)) (last : Option BlockMetadata)
    (s : ChainSyncState (Recorded CS)) (h : TakesNone s.store last blocks) :
    (ChainSynchronizer.writeIncomingBlocks blocks last s).2.store.written = s.store.written := by
  cases blocks with
  | nil => rfl
  | cons data rest =>
    rw [ChainSynchronizer.writeIncomingBlocks]
    cases data with
    | none => rfl
    | some data =>
      rw [orError_some, Action.lift_ok_bind]
      cases hread : DataBlock.new .ref data with
      | error err => rfl
      | ok block =>
        rw [liftError_ok, Action.lift_ok_bind]
        split_ifs with hoffset
        · obtain ⟨err, store', hwrite⟩ := h data rest rfl block hread hoffset
          rcases recorded_writeBlock_cases s.store block with
            ⟨next, store, -, hok⟩ | ⟨err', store, -, herr⟩
          · rw [hok] at hwrite
            exact absurd (congrArg Prod.fst hwrite) (by simp)
          · rw [Action.bind_apply, ChainSynchronizer.pushChainEvent]
            simp only
            rw [Action.bind_apply, ChainSynchronizer.writeChainBlock]
            simp only [herr]
        · rfl

theorem chainSyncResponse_announced (e : EngineInner) (n : EngineState (Recorded CS))
    (hcell : n.chainSynchronizer.cell = e.cell) (hkeyed : n.chainSynchronizer.Keyed)
    (overflowChecks : Bool) (fromNode : NodeId) (response : Option ChainSyncResponse)
    (hclear : ∀ r, response = some r → ResponseClear e n fromNode r) :
    Announced n (e.handleIncomingChainSyncResponse overflowChecks fromNode response
      n.start).2.engine := by
  change Announced n ((onChainSync (ChainSynchronizer.handleSyncResponse overflowChecks fromNode
    response) >>= fun _ => finishHandler e.cell) n.start).2.engine
  obtain ⟨hpending, hchain, -⟩ := then_finishHandler_stores (onChainSync
    (ChainSynchronizer.handleSyncResponse overflowChecks fromNode response)) e.cell n.start
  -- a response that wrote nothing
  have hnothing : (ChainSynchronizer.handleSyncResponse overflowChecks fromNode response
      ⟨n.chainSynchronizer, .new n.syncState, n.chainStore⟩).2.store.written =
        n.chainStore.written →
      Announced n ((onChainSync (ChainSynchronizer.handleSyncResponse overflowChecks fromNode
        response) >>= fun _ => finishHandler e.cell) n.start).2.engine := by
    intro hwritten
    refine announced_of_same ?_ ?_
    · intro id hsome
      rw [hpending] at hsome
      exact hsome
    · rw [hchain]
      exact hwritten
  cases response with
  | none => exact hnothing rfl
  | some response =>
    by_cases hhas : response.blocks.has = true
    · have hstore := ChainSynchronizer.handleSyncResponse_store overflowChecks fromNode response
        ⟨n.chainSynchronizer, .new n.syncState, n.chainStore⟩
      rw [if_pos hhas] at hstore
      rcases ChainSynchronizer.handleSyncResponseBlocks_cases fromNode response
        ⟨n.chainSynchronizer, .new n.syncState, n.chainStore⟩ with
          ⟨err, hres | hres⟩ | ⟨last, blocks, r, s', hleader, hlast, hblocks, hwrite, -, hend⟩
      · exact hnothing (by rw [hstore, hres])
      · exact hnothing (by rw [hstore, hres])
      · rcases hclear response rfl hhas hleader last blocks hlast hblocks with hnone | ⟨hknown, htakes⟩
        · have hwritten := takesNone_written blocks last { (⟨n.chainSynchronizer,
            .new n.syncState, n.chainStore⟩ : ChainSyncState (Recorded CS)) with
              synchronizer := n.chainSynchronizer.createNodeInfo fromNode } hnone
          rw [hwrite] at hwritten
          apply hnothing
          rw [hstore]
          rcases hend with ⟨err, -, hres⟩ | ⟨last', -, hres⟩
          · rw [hres]
            exact hwritten
          · rw [hres, (ChainSynchronizer.continueDownload_cases _ s').2.1]
            exact hwritten
        · obtain ⟨r', s'', hok⟩ := takesBlocks_ok n.chainStore last blocks htakes
            (n.chainSynchronizer.createNodeInfo fromNode) (.new n.syncState)
          have hr : r = .ok r' := (congrArg Prod.fst hwrite).symm.trans (congrArg Prod.fst hok)
          rcases hend with ⟨err, herr, -⟩ | ⟨last', -, hres⟩
          · rw [hr] at herr
            contradiction
          · have hblocksOk : ChainSynchronizer.handleSyncResponseBlocks fromNode response
                ⟨n.chainSynchronizer, .new n.syncState, n.chainStore⟩ =
              (.ok (), (ChainSynchronizer.handleSyncResponseBlocks fromNode response
                ⟨n.chainSynchronizer, .new n.syncState, n.chainStore⟩).2) := by
              apply Action.eq_ok_of_fst
              rw [hres]
              exact (ChainSynchronizer.continueDownload_cases _ s').1
            have hall : (ChainSynchronizer.handleSyncResponse overflowChecks fromNode
                (some response) ⟨n.chainSynchronizer, .new n.syncState, n.chainStore⟩).1 =
                  .ok () := by
              rw [ChainSynchronizer.handleSyncResponse, orError_some, Action.lift_ok_bind,
                if_pos hhas, Action.bind_of_ok _ _ _ _ _ hblocksOk]
              rfl
            refine then_finishHandler_announced n e.cell _ _
              (Action.eq_ok_of_fst _ n.start () hall) rfl ?_
            exact (handleSyncResponse_announces _ _ overflowChecks fromNode hknown (some response)
              ⟨n.chainSynchronizer, .new n.syncState, n.chainStore⟩
              (by rw [hcell]; exact fun _ h => h) hkeyed).2
    · apply hnothing
      rw [ChainSynchronizer.handleSyncResponse_store, if_neg hhas]

/-- Where the chain is synchronized, the tick of the commit manager has nothing to store, or all of
it is taken. -/
def TickClear (e : EngineInner) (n : EngineState CS) (chainInput : ChainSyncInput)
    (commitInput : TickInput) : Prop :=
  ∀ s, ChainSynchronizer.tick chainInput ⟨n.chainSynchronizer, .new n.syncState, n.chainStore⟩ =
      (.ok (), s) → s.synchronizer.status = .synchronized →
    StoresNothing e.commitManager commitInput n.pendingStore n.chainStore ∨
      TickTakes e.commitManager commitInput n.pendingStore n.chainStore

/-- A part of a handler that ends well, leaves the streams, and announces what it does. -/
def Passes (known : NodeId → Prop) (x : Action (HandlerState (Recorded CS)) EngineError Unit)
    (s : HandlerState (Recorded CS)) : Prop :=
  (x s).1 = .ok () ∧ (x s).2.engine.streams = s.engine.streams ∧
    Announces known s.view (x s).2.view

theorem tickCommitManager_passes (e : EngineInner) (commitInput : TickInput)
    (s : HandlerState (Recorded CS))
    (hend : s.engine.chainSynchronizer.status = .synchronized →
      EndsWell (e.commitManager.tick e.pendingSynchronizer commitInput
        ⟨s.syncContext, s.engine.pendingStore, s.engine.chainStore⟩).1) :
    Passes (fun id => (e.cell.get id).isSome = true) (e.tickCommitManager commitInput) s := by
  have hcall : Announcing (fun id => (e.cell.get id).isSome = true)
      (CommitState.view : CommitState (Recorded CS) → View)
      (e.commitManager.tick e.pendingSynchronizer commitInput) :=
    announcing_commitTick _ _ _ (pendingSynchronizer_nodes e)
  rw [Passes, EngineInner.tickCommitManager, Action.get_bind]
  cases hsync : chainIsSynchronized s.engine with
  | false => exact ⟨rfl, rfl, Announces.refl _⟩
  | true =>
    have hend := hend (of_decide_eq_true hsync)
    have hann := hcall ⟨s.syncContext, s.engine.pendingStore, s.engine.chainStore⟩ hend
    simp only [if_true]
    rw [Action.bind_apply, attempt, onCommitManager]
    cases hres : e.commitManager.tick e.pendingSynchronizer commitInput
        ⟨s.syncContext, s.engine.pendingStore, s.engine.chainStore⟩ with
    | mk r s' =>
      rw [hres] at hann hend
      rcases hend with ⟨a, ha⟩ | hout
      · simp only at ha
        rw [ha]
        exact ⟨rfl, rfl, hann⟩
      · simp only at hout
        rw [hout]
        exact ⟨rfl, rfl, hann⟩

/-- A tick of the commit manager that does not end well ends the handler. -/
theorem tickCommitManager_stops (e : EngineInner) (commitInput : TickInput)
    (s : HandlerState (Recorded CS))
    (hsync : s.engine.chainSynchronizer.status = .synchronized)
    (hend : ¬ EndsWell (e.commitManager.tick e.pendingSynchronizer commitInput
      ⟨s.syncContext, s.engine.pendingStore, s.engine.chainStore⟩).1) :
    ∃ err s', e.tickCommitManager commitInput s = (.error err, s') ∧
      s'.engine.pendingStore = (e.commitManager.tick e.pendingSynchronizer commitInput
        ⟨s.syncContext, s.engine.pendingStore, s.engine.chainStore⟩).2.pendingStore ∧
      s'.engine.chainStore = (e.commitManager.tick e.pendingSynchronizer commitInput
        ⟨s.syncContext, s.engine.pendingStore, s.engine.chainStore⟩).2.chainStore := by
  have hsync' : chainIsSynchronized s.engine = true := decide_eq_true hsync
  rw [EngineInner.tickCommitManager, Action.get_bind, if_pos hsync', Action.bind_apply, attempt,
    onCommitManager]
  cases hres : e.commitManager.tick e.pendingSynchronizer commitInput
      ⟨s.syncContext, s.engine.pendingStore, s.engine.chainStore⟩ with
  | mk r s' =>
    rw [hres] at hend
    cases r with
    | ok a => exact absurd (Or.inl ⟨a, rfl⟩) hend
    | error err =>
      cases err with
      | panic => exact ⟨_, _, rfl, rfl, rfl⟩
      | error err =>
        have hout : err ≠ .outOfSync := by
          rintro rfl
          exact hend (Or.inr rfl)
        cases err <;> first | exact absurd rfl hout | exact ⟨_, _, rfl, rfl, rfl⟩

omit [ChainRangeStore CS] in
theorem tickPendingSynchronizer_passes (e : EngineInner) (canSendRequest : NodeId → Bool)
    (s : HandlerState (Recorded CS)) :
    Passes (fun id => (e.cell.get id).isSome = true) (e.tickPendingSynchronizer canSendRequest)
      s := by
  have hcall : Announcing (fun id => (e.cell.get id).isSome = true)
      (PendingState.view s.engine.chainStore.written)
      (e.pendingSynchronizer.tick canSendRequest) :=
    announcing_pendingTick _ canSendRequest (pendingSynchronizer_nodes e)
  rw [Passes, EngineInner.tickPendingSynchronizer, Action.get_bind]
  split_ifs
  · obtain ⟨context, hok⟩ := pendingTick_ok e.pendingSynchronizer canSendRequest
      ⟨s.syncContext, s.engine.pendingStore⟩
    exact ⟨congrArg Prod.fst hok, rfl, hcall _ (Or.inl ⟨(), congrArg Prod.fst hok⟩)⟩
  · exact ⟨rfl, rfl, Announces.refl _⟩

theorem tick_announced (e : EngineInner) (n : EngineState (Recorded CS))
    (hcell : n.chainSynchronizer.cell = e.cell) (hkeyed : n.chainSynchronizer.Keyed)
    (chainInput : ChainSyncInput) (commitInput : TickInput) (canSendRequest : NodeId → Bool)
    (hclear : TickClear e n chainInput commitInput) :
    Announced n (e.tickSynchronizers chainInput commitInput canSendRequest n.start).2.engine := by
  cases hres : ChainSynchronizer.tick chainInput
      ⟨n.chainSynchronizer, .new n.syncState, n.chainStore⟩ with
  | mk r s =>
    have hwatch := ChainSynchronizer.tick_watches chainInput
      ⟨n.chainSynchronizer, .new n.syncState, n.chainStore⟩ hkeyed
    rw [hres] at hwatch
    have heq : onChainSync (ChainSynchronizer.tick chainInput) n.start = (r,
        ⟨{ n with chainSynchronizer := s.synchronizer, chainStore := s.store },
          s.syncContext⟩) := by
      rw [onChainSync]
      exact congrArg (fun r => (r.1, (⟨{ n with
        chainSynchronizer := r.2.synchronizer
        chainStore := r.2.store }, r.2.syncContext⟩ : HandlerState (Recorded CS)))) hres
    cases r with
    | error err =>
      rw [EngineInner.tickSynchronizers, Action.bind_of_error _ _ _ _ _ heq]
      exact announced_of_same (fun _ h => h) (congrArg Recorded.written hwatch.store)
    | ok _ =>
      have hstore : s.store = n.chainStore := hwatch.store
      by_cases hend : s.synchronizer.status = .synchronized →
          EndsWell (e.commitManager.tick e.pendingSynchronizer commitInput
            ⟨s.syncContext, n.pendingStore, s.store⟩).1
      · obtain ⟨-, hann⟩ := tick_syncAnnounces (fun id => (e.cell.get id).isSome = true)
          n.pendingStore chainInput ⟨n.chainSynchronizer, .new n.syncState, n.chainStore⟩
          (by rw [hcell]; exact fun _ h => h) hkeyed
        rw [hres] at hann
        obtain ⟨hok₂, hstreams₂, hann₂⟩ := tickCommitManager_passes e commitInput
          (⟨{ n with chainSynchronizer := s.synchronizer, chainStore := s.store }, s.syncContext⟩ :
            HandlerState (Recorded CS)) hend
        obtain ⟨hok₃, hstreams₃, hann₃⟩ := tickPendingSynchronizer_passes e canSendRequest
          (e.tickCommitManager commitInput (⟨{ n with
            chainSynchronizer := s.synchronizer
            chainStore := s.store }, s.syncContext⟩ : HandlerState (Recorded CS))).2
        rw [EngineInner.tickSynchronizers, Action.bind_of_ok _ _ _ _ _ heq,
          Action.bind_of_ok _ _ _ _ _ (Action.eq_ok_of_fst _ _ () hok₂),
          Action.bind_of_ok _ _ _ _ _ (Action.eq_ok_of_fst _ _ () hok₃)]
        exact finish_announced n e.cell _ (hstreams₃.trans hstreams₂)
          ((hann.trans hann₂).trans hann₃)
      · -- the tick has failed, so that it is one that had nothing to store
        obtain ⟨hsync, hend⟩ := Classical.not_imp.mp hend
        have hnothing : StoresNothing e.commitManager commitInput n.pendingStore s.store := by
          rw [hstore]
          rcases hclear s hres hsync with hnothing | htakes
          · exact hnothing
          · exact absurd (TickTakes.endsWell e.pendingSynchronizer
              ⟨s.syncContext, n.pendingStore, s.store⟩ (hstore ▸ htakes)) hend
        have hnew := hnothing.tick e.pendingSynchronizer ⟨s.syncContext, n.pendingStore, s.store⟩
        obtain ⟨err, s', hstop, hpending, hchain⟩ := tickCommitManager_stops e commitInput
          (⟨{ n with chainSynchronizer := s.synchronizer, chainStore := s.store }, s.syncContext⟩ :
            HandlerState (Recorded CS)) hsync hend
        rw [EngineInner.tickSynchronizers, Action.bind_of_ok _ _ _ _ _ heq,
          Action.bind_of_error _ _ _ _ _ hstop]
        refine announced_of_same ?_ ?_
        · intro id hsome
          rw [hpending] at hsome
          exact hnew.operations id hsome
        · rw [hchain]
          exact hnew.written.trans (congrArg Recorded.written hstore)

theorem chainSyncRequest_announced (e : EngineInner) (n : EngineState (Recorded CS))
    (overflowChecks : Bool) (fromNode : NodeId) (request : Option ChainSyncRequest) :
    Announced n (e.handleIncomingChainSyncRequest overflowChecks fromNode request
      n.start).2.engine := by
  obtain ⟨hpending, hchain, -⟩ := then_finishHandler_stores (onChainSync
    (ChainSynchronizer.handleSyncRequest overflowChecks fromNode request)) e.cell n.start
  refine announced_of_same ?_ ?_
  · intro id hsome
    exact hpending ▸ hsome
  · have hquiet := ChainSynchronizer.handleSyncRequest_quiet overflowChecks fromNode request
      ⟨n.chainSynchronizer, .new n.syncState, n.chainStore⟩
    exact congrArg Recorded.written (hchain.trans hquiet.store)

/-- What a step is asked. A request that brings operations is accepted as a whole, so is a
response that brings blocks, and the commit manager does not fail. -/
def EngineStep.Clear (e : EngineInner) (n : EngineState CS) : EngineStep → Prop
  | .pendingSyncRequest fromNode request => ∀ r, request = some r → RequestClear e n fromNode r
  | .chainSyncResponse _ fromNode response => ∀ r, response = some r → ResponseClear e n fromNode r
  | .tick chainInput commitInput _ => TickClear e n chainInput commitInput
  | _ => True

/-- The chain synchronizer is the one of the cell, and in order. -/
structure EngineFits (e : EngineInner) (n : EngineState CS) : Prop where
  cell : n.chainSynchronizer.cell = e.cell
  consistent : n.chainSynchronizer.Consistent

theorem step_announced (e : EngineInner) (n : EngineState (Recorded CS)) (a : EngineStep)
    (h : EngineFits e n) (hclear : a.Clear e n) : Announced n (e.step n a) := by
  cases a with
  | newOperation operation => exact newOperation_announced e n operation
  | pendingSyncRequest fromNode request =>
    exact pendingSyncRequest_announced e n fromNode request hclear
  | chainSyncRequest overflowChecks fromNode request =>
    exact chainSyncRequest_announced e n overflowChecks fromNode request
  | chainSyncResponse overflowChecks fromNode response =>
    exact chainSyncResponse_announced e n h.cell h.consistent.keyed overflowChecks fromNode response
      hclear
  | tick chainInput commitInput canSendRequest =>
    exact tick_announced e n h.cell h.consistent.keyed chainInput commitInput canSendRequest hclear
  | newEventsStream handleId room => exact announced_of_same (fun _ h => h) rfl
  | readEvents handleId count => exact announced_of_same (fun _ h => h) rfl

/-- The parts of a tick behind the chain synchronizer leave it, or reset it. -/
theorem tick_synchronizer (e : EngineInner) (n : EngineState CS) (chainInput : ChainSyncInput)
    (commitInput : TickInput) (canSendRequest : NodeId → Bool) :
    (e.tickSynchronizers chainInput commitInput canSendRequest n.start).2.engine.chainSynchronizer =
        (ChainSynchronizer.tick chainInput
          ⟨n.chainSynchronizer, .new n.syncState, n.chainStore⟩).2.synchronizer ∨
      (e.tickSynchronizers chainInput commitInput canSendRequest n.start).2.engine.chainSynchronizer =
        (ChainSynchronizer.tick chainInput
          ⟨n.chainSynchronizer, .new n.syncState, n.chainStore⟩).2.synchronizer.resetState := by
  have hcommit : ∀ s : HandlerState CS,
      (e.tickCommitManager commitInput s).2.engine.chainSynchronizer = s.engine.chainSynchronizer ∨
        (e.tickCommitManager commitInput s).2.engine.chainSynchronizer =
          s.engine.chainSynchronizer.resetState := by
    intro s
    rw [EngineInner.tickCommitManager, Action.get_bind]
    split_ifs
    · rw [Action.bind_apply, attempt, onCommitManager]
      rcases e.commitManager.tick e.pendingSynchronizer commitInput
        ⟨s.syncContext, s.engine.pendingStore, s.engine.chainStore⟩ with ⟨err | _, s'⟩
      · cases err with
        | panic => exact Or.inl rfl
        | error err => cases err <;> first | exact Or.inl rfl | exact Or.inr rfl
      · exact Or.inl rfl
    · exact Or.inl rfl
  have hpending : ∀ s : HandlerState CS,
      ((e.tickPendingSynchronizer canSendRequest >>= fun _ => finishHandler e.cell)
        s).2.engine.chainSynchronizer = s.engine.chainSynchronizer := by
    intro s
    rw [(then_finishHandler_stores _ e.cell s).2.2, EngineInner.tickPendingSynchronizer,
      Action.get_bind]
    split_ifs <;> rfl
  rw [EngineInner.tickSynchronizers]
  rcases Action.bind_cases (onChainSync (ChainSynchronizer.tick chainInput)) (fun _ =>
      e.tickCommitManager commitInput >>= fun _ => e.tickPendingSynchronizer canSendRequest >>=
        fun _ => finishHandler e.cell) n.start with ⟨err, s, hs, h⟩ | ⟨_, s, hs, h⟩
  · rw [finishHandler] at h
    rw [h]
    exact Or.inl (congrArg (fun r => r.2.engine.chainSynchronizer) hs).symm
  · have hsync : s.engine.chainSynchronizer = (ChainSynchronizer.tick chainInput
        ⟨n.chainSynchronizer, .new n.syncState, n.chainStore⟩).2.synchronizer :=
      (congrArg (fun r => r.2.engine.chainSynchronizer) hs).symm
    rw [finishHandler] at h
    rw [h, ← hsync]
    rcases Action.bind_cases (e.tickCommitManager commitInput) (fun _ =>
      e.tickPendingSynchronizer canSendRequest >>= fun _ => finishHandler e.cell) s with
        ⟨err, s', hs', h'⟩ | ⟨_, s', hs', h'⟩
    · have hkeep := hcommit s
      rw [hs'] at hkeep
      rw [finishHandler] at h'
      rw [h']
      exact hkeep
    · have hkeep := hcommit s
      rw [hs'] at hkeep
      have hlast := hpending s'
      rw [finishHandler] at h' hlast
      rw [h', hlast]
      exact hkeep

/-- A step keeps of the chain synchronizer what its calls keep, and a reset. -/
theorem engineStep_synchronizer_keeps (P : ChainSynchronizer → Prop) (e : EngineInner)
    (n : EngineState CS) (a : EngineStep) (h : P n.chainSynchronizer)
    (hrequest : ∀ overflowChecks fromNode request, P (ChainSynchronizer.handleSyncRequest
      overflowChecks fromNode request
      ⟨n.chainSynchronizer, .new n.syncState, n.chainStore⟩).2.synchronizer)
    (hresponse : ∀ overflowChecks fromNode response, P (ChainSynchronizer.handleSyncResponse
      overflowChecks fromNode response
      ⟨n.chainSynchronizer, .new n.syncState, n.chainStore⟩).2.synchronizer)
    (htick : ∀ i, P (ChainSynchronizer.tick i
      ⟨n.chainSynchronizer, .new n.syncState, n.chainStore⟩).2.synchronizer)
    (hreset : ∀ s : ChainSynchronizer, P s → P s.resetState) : P (e.step n a).chainSynchronizer := by
  have hof : ∀ s : ChainSynchronizer, P s → (e.step n a).chainSynchronizer = s →
      P (e.step n a).chainSynchronizer := by
    rintro s hs heq
    exact heq ▸ hs
  cases a with
  | newOperation operation =>
    refine hof n.chainSynchronizer h ?_
    change (e.handleNewOperation operation n.start).2.engine.chainSynchronizer = _
    rw [EngineInner.handleNewOperation]
    rcases Action.bind_cases (onPendingSync (e.pendingSynchronizer.handleNewOperation operation))
        (fun _ => do
          takeSyncState
          let s ← Action.get
          if chainIsSynchronized s.engine then sendMessagesFromSyncContext e.cell
          dispatchEventsFromSyncContext) n.start with ⟨err, s, hs, h⟩ | ⟨_, s, hs, h⟩
    · rw [h]
      exact (congrArg (fun r => r.2.engine.chainSynchronizer) hs).symm
    · have hsync : s.engine.chainSynchronizer = n.chainSynchronizer :=
        (congrArg (fun r => r.2.engine.chainSynchronizer) hs).symm
      rw [h, Action.bind_apply, takeSyncState]
      simp only
      rw [Action.get_bind]
      split_ifs
      · exact ((finishHandler_stores e.cell s).2.2).trans hsync
      · exact hsync
  | pendingSyncRequest fromNode request =>
    refine hof n.chainSynchronizer h ?_
    change (e.handleIncomingPendingSyncRequest fromNode request
      n.start).2.engine.chainSynchronizer = _
    rw [EngineInner.handleIncomingPendingSyncRequest, Action.get_bind]
    split_ifs
    · rfl
    · exact (then_finishHandler_stores (onPendingSync
        (e.pendingSynchronizer.handleIncomingSyncRequest fromNode request)) e.cell n.start).2.2
  | chainSyncRequest overflowChecks fromNode request =>
    exact hof _ (hrequest overflowChecks fromNode request) (then_finishHandler_stores (onChainSync
      (ChainSynchronizer.handleSyncRequest overflowChecks fromNode request)) e.cell n.start).2.2
  | chainSyncResponse overflowChecks fromNode response =>
    exact hof _ (hresponse overflowChecks fromNode response) (then_finishHandler_stores (onChainSync
      (ChainSynchronizer.handleSyncResponse overflowChecks fromNode response)) e.cell n.start).2.2
  | tick chainInput commitInput canSendRequest =>
    rcases tick_synchronizer e n chainInput commitInput canSendRequest with hkeep | hreset'
    · exact hof _ (htick chainInput) hkeep
    · exact hof _ (hreset _ (htick chainInput)) hreset'
  | newEventsStream handleId room => exact h
  | readEvents handleId count => exact h

/-- The chain synchronizer stays in order, whatever a step brings. -/
theorem engineStep_consistent (e : EngineInner) (n : EngineState CS) (a : EngineStep)
    (h : n.chainSynchronizer.Consistent) : (e.step n a).chainSynchronizer.Consistent := by
  apply engineStep_synchronizer_keeps ChainSynchronizer.Consistent e n a h
  · intro overflowChecks fromNode request
    exact (ChainSynchronizer.handleSyncRequest_quiet overflowChecks fromNode request _).consistent h
  · intro overflowChecks fromNode response
    exact ChainSynchronizer.handleSyncResponse_consistent overflowChecks fromNode response _ h
  · intro i
    exact (ChainSynchronizer.tick_consistent i _ h).1
  · intro s _
    exact ChainSynchronizer.consistent_resetState s

theorem engineStep_fits (e : EngineInner) (n : EngineState (Recorded CS)) (a : EngineStep)
    (h : EngineFits e n) : EngineFits e (e.step n a) := by
  refine ⟨?_, engineStep_consistent e n a h.consistent⟩
  apply engineStep_synchronizer_keeps (fun s => s.cell = e.cell) e n a h.cell
  · intro overflowChecks fromNode request
    exact (ChainSynchronizer.handleSyncRequest_quiet overflowChecks fromNode request
      _).infos.cell.trans h.cell
  · intro overflowChecks fromNode response
    obtain ⟨hcell, -⟩ := handleSyncResponse_announces (fun _ => True) n.pendingStore overflowChecks
      fromNode trivial response ⟨n.chainSynchronizer, .new n.syncState, n.chainStore⟩
      (fun _ _ => trivial) h.consistent.keyed
    exact hcell.trans h.cell
  · intro i
    exact (ChainSynchronizer.tick_watches i _ h.consistent.keyed).cell.trans h.cell
  · intro s hs
    exact hs

/-- Along every run in which no handler fails behind what it stored, each step tells every
stream of all that came into the stores. -/
theorem run_announced (e : EngineInner) (config : ChainSyncConfig) (syncState : SyncState)
    (pendingStore : MemoryPendingStore) (chainStore : Recorded CS) (streams : List EventStream)
    (steps : List EngineStep)
    (hsteps : Run.Allowed e.step (fun n a => a.Clear e n)
      ⟨syncState, pendingStore, chainStore, .new config e.cell, streams⟩ steps)
    (before : List EngineStep) (a : EngineStep) (after : List EngineStep)
    (heq : steps = before ++ a :: after) :
    Announced (Run.exec e.step ⟨syncState, pendingStore, chainStore, .new config e.cell, streams⟩
        before)
      (Run.exec e.step ⟨syncState, pendingStore, chainStore, .new config e.cell, streams⟩
        (before ++ [a])) := by
  have hstart : EngineFits e
      ⟨syncState, pendingStore, chainStore, .new config e.cell, streams⟩ :=
    ⟨rfl, ChainSynchronizer.consistent_new config e.cell⟩
  rw [heq, Run.allowed_append_iff] at hsteps
  have hfits := Run.exec_invariant e.step (fun n a => a.Clear e n) (EngineFits e)
    (fun n a h _ => engineStep_fits e n a h) _ before hstart hsteps.1
  rw [Run.exec_append]
  exact step_announced e _ a hfits hsteps.2.1

end Handlers

end Runs

/-! A node of the cell announces an operation behind which it has two more. The range differs
although nothing is missing on the side of the node that is told, which is an error: the
operation is stored, and no stream gets its event. -/

section Samples

attribute [local instance] commitCrates

/-- One chain node, and a node that is only a store. -/
def storeAndChain : Cell :=
  ⟨⟨firstNode⟩, [⟨⟨firstNode⟩, [.chain]⟩, ⟨⟨otherNode⟩, [.store]⟩], by decide⟩

def aloneEngine : EngineInner :=
  ⟨storeAndChain, ⟨⟨30, 2⟩, storeAndChain⟩, ⟨.default, storeAndChain⟩, rfl, rfl⟩

def openStream : EventStream := ⟨0, false, [], 10, false⟩

def aloneState : EngineState (Recorded DirectoryChainStore) :=
  ⟨⟨none⟩, .new, ⟨genesisChain, []⟩, .new .default storeAndChain, [openStream]⟩

def aloneTick : EngineStep :=
  .tick ⟨fun _ => 0, true, fun _ => true, .same, true⟩ (tickAt 110) fun _ => true

def announceFifty (hash : Bytes) (count : ℕ) : EngineStep :=
  .pendingSyncRequest ⟨otherNode⟩ (some
    ⟨.list [⟨50, true, 0, false, some hash, count, .list [some fiftyBytes], .null⟩], 0⟩)

theorem fifty_not_announced :
    ¬ Announced (Run.exec aloneEngine.step aloneState [aloneTick])
      (Run.exec aloneEngine.step aloneState [aloneTick, announceFifty signedHash 3]) := by
  intro h
  have htold := h.operations 50 (by decide +kernel) (by decide +kernel)
  have hbefore : (Run.exec aloneEngine.step aloneState [aloneTick]).streams = [openStream] := by
    decide +kernel
  have hafter : (Run.exec aloneEngine.step aloneState
      [aloneTick, announceFifty signedHash 3]).streams = [openStream] := by
    decide +kernel
  rw [hbefore, hafter, List.forall₂_cons] at htold
  obtain ⟨⟨items, hsent, hmem | hstuck⟩, -⟩ := htold
  · have hnone : items = [] := by simpa using hsent
    rw [hnone] at hmem
    exact absurd hmem List.not_mem_nil
  · rcases hstuck with hclosed | ⟨hroom, -⟩
    · exact absurd hclosed (by decide)
    · exact absurd hroom (by decide)

/-- There is no candidate, and the time for a proposal has not come. -/
theorem alone_storesNothing : StoresNothing aloneEngine.commitManager (tickAt 110)
    aloneState.pendingStore aloneState.chainStore := by
  have hpotential : (PendingBlocks.new aloneEngine.commitManager.config (tickAt 110).now
      aloneEngine.commitManager.cell aloneState.pendingStore aloneState.chainStore).toOption.map
        (fun pb => (pb.potentialNextBlocks (tickAt 110).blocksOrder
          (tickAt 110).sorter).toOption.map List.isEmpty) = some (some true) := by
    decide +kernel
  have hturn : (PendingBlocks.new aloneEngine.commitManager.config (tickAt 110).now
      aloneEngine.commitManager.cell aloneState.pendingStore aloneState.chainStore).toOption.map
        (fun pb => (aloneEngine.commitManager.shouldProposeBlock (tickAt 110) aloneState.chainStore
          pb).toOption) = some (some false) := by
    decide +kernel
  have hnever (pb : PendingBlocks) (next : PendingBlock) : ¬ Finds aloneEngine.commitManager
      (tickAt 110) aloneState.pendingStore aloneState.chainStore pb next := by
    rintro ⟨hnew, rest, hpot⟩
    simp [hnew, hpot, Except.toOption] at hpotential
  refine ⟨fun pb next h => absurd h (hnever pb next), fun pb next h => absurd h (hnever pb next),
    ?_⟩
  rintro pb ⟨hnew, -⟩ hshould
  simp [hnew, hshould, Except.toOption] at hturn

/-- With the hash of what it stores the request is accepted, and the stream gets the event. -/
theorem run_announced_fifty :
    Announced (Run.exec aloneEngine.step aloneState [aloneTick])
      (Run.exec aloneEngine.step aloneState [aloneTick, announceFifty fiftyHash 1]) := by
  refine run_announced aloneEngine .default ⟨none⟩ .new ⟨genesisChain, []⟩ [openStream]
    [aloneTick, announceFifty fiftyHash 1] ⟨?_, ?_, trivial⟩ [aloneTick] (announceFifty fiftyHash 1)
    [] rfl
  · exact fun _ _ _ => Or.inl alone_storesNothing
  · intro request hrequest
    obtain rfl := Option.some.inj hrequest
    exact requestClear_of_ok aloneEngine _ ⟨otherNode⟩ _ _ rfl (by decide) (by decide +kernel)

end Samples

end Exocore.Engine
