import Exocore.EngineRuns
import Exocore.PendingSyncExchange

/-! What a node sends in an exchange and what it holds afterwards: the operations that it offered
from the start at the height of the exchange, and those that were brought to it. -/
namespace Exocore.Engine

open Exocore.Core Exocore.Chain Exocore.Pending Merge

section Carries
variable [Crates]

/-- What holds of each operation that the ranges carry in full. -/
def SyncRangesBuilder.Carries (P : StoredOperation → Prop) (out : SyncRangesBuilder) : Prop :=
  ∀ range ∈ out.ranges, ∀ op ∈ range.operations, P op

namespace SyncRangesBuilder
variable {P : StoredOperation → Prop} {out out' : SyncRangesBuilder}

theorem carries_new (config : PendingSyncConfig) : (new config).Carries P := by
  intro range hrange
  exact absurd hrange List.not_mem_nil

theorem Carries.pushRange (h : out.Carries P) (range : SyncRangeBuilder)
    (hrange : range.operations = []) : (out.pushRange range).Carries P := by
  intro r hr op hop
  rcases List.mem_append.mp hr with hr | hr
  · exact h r hr op hop
  · rw [List.mem_singleton.mp hr, hrange] at hop
    exact absurd hop List.not_mem_nil

theorem Carries.pushNewRange (h : out.Carries P) (fromBound : Bound) :
    (out.pushNewRange fromBound).Carries P := h.pushRange _ rfl

theorem Carries.updateLast (h : out.Carries P) (f : SyncRangeBuilder → SyncRangeBuilder)
    (hf : ∀ range ∈ out.ranges, ∀ op ∈ (f range).operations, P op) :
    (out.updateLast f).Carries P := by
  intro r hr op hop
  cases hlast : out.ranges.getLast? with
  | none =>
    simp only [SyncRangesBuilder.updateLast, hlast] at hr
    exact h r hr op hop
  | some last =>
    simp only [SyncRangesBuilder.updateLast, hlast] at hr
    rcases List.mem_append.mp hr with hr | hr
    · exact h r (List.mem_of_mem_dropLast hr) op hop
    · rw [List.mem_singleton.mp hr] at hop
      exact hf last (List.mem_of_getLast? hlast) op hop

theorem Carries.setLastRangeToBound (h : out.Carries P) (toBound : Bound) :
    (out.setLastRangeToBound toBound).Carries P := h.updateLast _ h

/-- Only an operation with full details is carried. -/
theorem Carries.pushOperation (h : out.Carries P) (operation : StoredOperation)
    (details : OperationDetailsLevel) (hfull : details = .full → P operation)
    (hpush : out.pushOperation operation details = .ok out') : out'.Carries P := by
  have hupdate (ready : SyncRangesBuilder) (hready : ready.Carries P) :
      (ready.updateLast fun range => range.pushOperation operation details).Carries P := by
    apply hready.updateLast
    intro range hrange op hop
    cases details with
    | header => exact hready range hrange op hop
    | none => exact hready range hrange op hop
    | full =>
      rcases List.mem_append.mp hop with hop | hop
      · exact hready range hrange op hop
      · rw [List.mem_singleton.mp hop]
        exact hfull rfl
  cases hlast : out.ranges.getLast? with
  | none =>
    simp only [SyncRangesBuilder.pushOperation, hlast] at hpush
    rw [← Except.ok.inj hpush]
    exact hupdate _ (h.pushNewRange _)
  | some last =>
    simp only [SyncRangesBuilder.pushOperation, hlast] at hpush
    split_ifs at hpush with hmany
    · cases hto : last.toOperation with
      | included bound =>
        simp only [hto] at hpush
        rw [← Except.ok.inj hpush]
        exact hupdate _ (h.pushNewRange _)
      | excluded bound =>
        rw [hto] at hpush
        exact absurd hpush (by simp [bind, Except.bind])
      | unbounded =>
        rw [hto] at hpush
        exact absurd hpush (by simp [bind, Except.bind])
    · rw [← Except.ok.inj hpush]
      exact hupdate out h

theorem Carries.pushOperations (operations : List (StoredOperation × OperationDetailsLevel))
    (h : out.Carries P) (hfull : ∀ o ∈ operations, o.2 = .full → P o.1)
    (hpush : out.pushOperations operations = .ok out') : out'.Carries P := by
  induction operations generalizing out with
  | nil =>
    rw [← Except.ok.inj hpush]
    exact h
  | cons o rest ih =>
    obtain ⟨mid, hmid, hrest⟩ := (bind_eq_ok_iff _ _ _).mp hpush
    exact ih (h.pushOperation o.1 o.2 (hfull o List.mem_cons_self) hmid)
      (fun o' ho' => hfull o' (List.mem_cons_of_mem _ ho')) hrest

end SyncRangesBuilder

open SyncRangesBuilder

variable {P : StoredOperation → Prop} {out out' : SyncRangesBuilder}

theorem carries_diffLoop (included : List ℕ)
    (merged : List (EitherOrBoth OperationHeaderMessage StoredOperation))
    (hmerged : ∀ e ∈ seconds merged, P e.1) (difference difference' : Bool) (h : out.Carries P)
    (hdiff : diffLoop included merged difference out = .ok (difference', out')) :
    out'.Carries P := by
  induction merged generalizing difference out with
  | nil =>
    obtain ⟨-, rfl⟩ := Prod.mk.inj (Except.ok.inj hdiff)
    exact h
  | cons e rest ih =>
    cases e with
    | left header => exact ih hmerged _ h hdiff
    | right op =>
      have hrest : ∀ e ∈ seconds rest, P e.1 := fun e he => hmerged e (List.mem_cons_of_mem _ he)
      have hop : P op := hmerged (op, true) List.mem_cons_self
      simp only [diffLoop] at hdiff
      split_ifs at hdiff
      · obtain ⟨mid, hmid, hdiff⟩ := (bind_eq_ok_iff _ _ _).mp hdiff
        exact ih hrest _ (h.pushOperation op .header (by simp) hmid) hdiff
      · obtain ⟨mid, hmid, hdiff⟩ := (bind_eq_ok_iff _ _ _).mp hdiff
        exact ih hrest _ (h.pushOperation op .full (fun _ => hop) hmid) hdiff
    | both header op =>
      have hrest : ∀ e ∈ seconds rest, P e.1 := fun e he => hmerged e (List.mem_cons_of_mem _ he)
      obtain ⟨mid, hmid, hdiff⟩ := (bind_eq_ok_iff _ _ _).mp hdiff
      exact ih hrest _ (h.pushOperation op .header (by simp) hmid) hdiff

theorem mem_operationsIterFromHeight (store : MemoryPendingStore) (range : Bound × Bound)
    (height : Option ℕ) (operations : List StoredOperation)
    (h : operationsIterFromHeight store range height = .ok operations) (op : StoredOperation)
    (hop : op ∈ operations) :
    store.getOperation op.operationId = some op ∧ fromHeightAllows height op = true := by
  by_cases hpanics : store.timelineFilled = true ∧ rangePanics range.1 range.2 = true
  · rw [operationsIterFromHeight, MemoryPendingStore.operationsIter, if_pos hpanics.1,
      if_pos hpanics.2] at h
    exact absurd h (by simp)
  · have hfit : store.timelineFilled = true → rangePanics range.1 range.2 = false := fun hfilled =>
      eq_false_of_ne_true fun hbounds => hpanics ⟨hfilled, hbounds⟩
    rw [operationsIterFromHeight_eq store height range hfit] at h
    rw [← Except.ok.inj h] at hop
    obtain ⟨hget, -, hallows⟩ := (mem_visible_iff store height range op).mp hop
    exact ⟨hget, hallows⟩

theorem carries_answerRange (range : PendingSyncRange) (included : List ℕ)
    (operations : List StoredOperation) (hops : ∀ op ∈ operations, P op) (h : out.Carries P)
    (hanswer : answerRange out range included operations = .ok out') : out'.Carries P := by
  have hpush (level : OperationDetailsLevel) :
      ∀ o ∈ operations.map fun op => (op, level), o.2 = .full → P o.1 := by
    intro o ho _
    obtain ⟨op, hop, rfl⟩ := List.mem_map.mp ho
    exact hops op hop
  rw [answerRange] at hanswer
  split_ifs at hanswer
  · exact h.pushOperations _ (hpush .full) hanswer
  · exact h.pushOperations _ (hpush .header) hanswer
  · obtain ⟨remote, -, hanswer⟩ := (bind_eq_ok_iff _ _ _).mp hanswer
    rw [diffLocalRemoteRange] at hanswer
    obtain ⟨⟨difference, mid⟩, hdiff, hanswer⟩ := (bind_eq_ok_iff _ _ _).mp hanswer
    have hmid : mid.Carries P := by
      refine carries_diffLoop included _ ?_ false difference h hdiff
      intro e he
      have hmem : e.1 ∈ (seconds (mergeJoinBy OperationHeaderMessage.operationId
        StoredOperation.operationId remote operations)).map Prod.fst := List.mem_map_of_mem he
      rw [seconds_mergeJoinBy_fst] at hmem
      exact hops e.1 hmem
    simp only at hanswer
    split_ifs at hanswer
    rw [← Except.ok.inj hanswer]
    exact hmid

/-- What the comparison of a range carries in full is in the store, and the height allows it. -/
theorem carries_compareRange (store : MemoryPendingStore) (height : Option ℕ)
    (hstore : ∀ op, store.getOperation op.operationId = some op →
      fromHeightAllows height op = true → P op) (range : PendingSyncRange) (included : List ℕ)
    (changed : Bool) (h : out.Carries P)
    (hcompare : compareRange store height range included out = .ok (changed, out')) :
    out'.Carries P := by
  rw [compareRange] at hcompare
  obtain ⟨⟨localHash, localCount⟩, -, hcompare⟩ := (bind_eq_ok_iff _ _ _).mp hcompare
  obtain ⟨remoteHashBytes, -, hcompare⟩ := (bind_eq_ok_iff _ _ _).mp hcompare
  obtain ⟨remoteHash, -, hcompare⟩ := (bind_eq_ok_iff _ _ _).mp hcompare
  split_ifs at hcompare
  · obtain ⟨-, rfl⟩ := Prod.mk.inj (Except.ok.inj hcompare)
    exact h.pushRange _ rfl
  · obtain ⟨operations, hiter, hcompare⟩ := (bind_eq_ok_iff _ _ _).mp hcompare
    obtain ⟨answered, hanswer, hcompare⟩ := (bind_eq_ok_iff _ _ _).mp hcompare
    obtain ⟨-, rfl⟩ := Prod.mk.inj (Except.ok.inj hcompare)
    apply Carries.setLastRangeToBound
    refine carries_answerRange range included operations ?_ (h.pushNewRange _) hanswer
    intro op hop
    obtain ⟨hget, hallows⟩ := mem_operationsIterFromHeight store _ height operations hiter op hop
    exact hstore op hget hallows

/-- The ranges of a reply carry what the stores along the loop have and the height allows. -/
theorem carries_handleIncomingSyncRangesLoop (inv : MemoryPendingStore → Prop)
    (height : Option ℕ) (hinv : ∀ store, inv store → ∀ op,
      store.getOperation op.operationId = some op → fromHeightAllows height op = true → P op)
    (ranges : List PendingSyncRange) (hput : ∀ range ∈ ranges, ∀ frames,
      range.operationsFrames.get = .ok frames → ∀ frame reader, FrameBrings frames frame reader →
        ∀ store existed store', inv store →
          store.putOperation ⟨reader.operationId, frame⟩ = .ok (existed, store') → inv store')
    (changes : Bool) (s s' : PendingState) (hs : inv s.store) (h : out.Carries P)
    (hloop : handleIncomingSyncRangesLoop height ranges changes out s = (.ok (some out'), s')) :
    out'.Carries P := by
  induction ranges generalizing changes out s with
  | nil =>
    have hout : (if changes then some out else none) = some out' :=
      Except.ok.inj (congrArg Prod.fst hloop)
    split_ifs at hout
    rw [← Option.some.inj hout]
    exact h
  | cons range rest ih =>
    rw [handleIncomingSyncRangesLoop] at hloop
    obtain ⟨⟨changed, mid⟩, s₁, hrange, hrest⟩ := Action.bind_eq_ok _ _ _ _ _ hloop
    rw [handleIncomingSyncRange] at hrange
    split_ifs at hrange
    · exact absurd (congrArg Prod.fst hrange) (by simp)
    · cases hframes : range.operationsFrames.get with
      | error e => exact absurd (congrArg Prod.fst hrange) (by simp [hframes])
      | ok frames =>
        rw [hframes, Action.lift_ok_bind] at hrange
        obtain ⟨included, s₂, hstored, hcompare⟩ := Action.bind_eq_ok _ _ _ _ _ hrange
        rw [Action.get_bind] at hcompare
        obtain ⟨hcompare, rfl⟩ := Prod.ext_iff.mp hcompare
        have hs₂ : inv s₂.store := by
          have hkept := storeIncludedOperations_keeps inv frames [] s hs
            (hput range List.mem_cons_self frames hframes)
          rw [hstored] at hkept
          exact hkept
        exact ih (fun r hr => hput r (List.mem_cons_of_mem _ hr)) _ s₂ hs₂
          (carries_compareRange s₂.store height (hinv s₂.store hs₂) range included changed h hcompare)
          hrest

/-- The handling of the ranges sends nothing, and leaves the state of the synchronization. -/
theorem handleIncomingSyncRangesLoop_context (height : Option ℕ) (ranges : List PendingSyncRange)
    (changes : Bool) (out : SyncRangesBuilder) :
    Action.Keeps (fun s : PendingState => (s.syncContext.syncState, s.syncContext.messages))
      (handleIncomingSyncRangesLoop height ranges changes out) := by
  have hstore : ∀ (frames : List (Option Bytes)) (included : List ℕ),
      Action.Keeps (fun s : PendingState => (s.syncContext.syncState, s.syncContext.messages))
        (storeIncludedOperations frames included) := by
    intro frames
    induction frames with
    | nil => exact fun included => Action.keeps_pure _ _
    | cons data rest ih =>
      intro included
      rw [storeIncludedOperations]
      refine Action.keeps_bind _ _ _ (Action.keeps_lift _ _) fun bytes => ?_
      refine Action.keeps_bind _ _ _ (Action.keeps_lift _ _) fun frame => ?_
      refine Action.keeps_bind _ _ _ (Action.keeps_lift _ _) fun reader => ?_
      refine Action.keeps_bind _ _ _ ?_ fun existed => ?_
      · intro s
        rw [putOperation]
        cases s.store.putOperation ⟨reader.operationId, frame⟩ <;> rfl
      · split_ifs
        · exact ih _
        · exact Action.keeps_bind _ _ _ (fun s => rfl) fun _ => ih _
  induction ranges generalizing changes out with
  | nil => exact Action.keeps_pure _ _
  | cons range rest ih =>
    rw [handleIncomingSyncRangesLoop]
    refine Action.keeps_bind _ _ _ ?_ fun r => ih _ _
    rw [handleIncomingSyncRange]
    split_ifs
    · exact Action.keeps_lift _ _
    · refine Action.keeps_bind _ _ _ (Action.keeps_lift _ _) fun frames => ?_
      refine Action.keeps_bind _ _ _ (hstore frames []) fun included => ?_
      exact Action.keeps_bind _ _ _ (Action.keeps_get _) fun s => Action.keeps_lift _ _

end Carries

section Nodes
variable [Crates]

/-- The ids of the operations that a request brings are among these. -/
def PendingSyncRequest.Brings (request : PendingSyncRequest) (ids : Set ℕ) : Prop :=
  ∀ ranges, request.ranges.get = .ok ranges → ∀ range ∈ ranges, ∀ frames,
    range.operationsFrames.get = .ok frames → ∀ frame reader, FrameBrings frames frame reader →
      reader.operationId ∈ ids

theorem PendingSyncRequest.Brings.mono {request : PendingSyncRequest} {ids ids' : Set ℕ}
    (h : request.Brings ids) (hsub : ids ⊆ ids') : request.Brings ids' :=
  fun ranges hranges range hrange frames hframes frame reader hframe =>
    hsub (h ranges hranges range hrange frames hframes frame reader hframe)

theorem writeRequest_brings (ids : Set ℕ) (out : SyncRangesBuilder) (height : Option ℕ)
    (h : out.Carries fun op => op.operationId ∈ ids ∧ OperationReads op) :
    (writeRequest out.ranges height).Brings ids := by
  intro ranges hranges range hrange frames hframes frame reader hbrings
  rw [writeRequest, ListPointer.get] at hranges
  rw [← Except.ok.inj hranges] at hrange
  obtain ⟨builder, hbuilder, rfl⟩ := List.mem_map.mp hrange
  rw [SyncRangeBuilder.writeIntoSyncRangeBuilder, ListPointer.get_ofList] at hframes
  obtain ⟨data, hdata, hread, hreader⟩ := hbrings
  rw [← Except.ok.inj hframes] at hdata
  obtain ⟨op, hop, hopData⟩ := List.mem_map.mp hdata
  obtain ⟨hid, r, hr, hrid, -⟩ := h builder hbuilder op hop
  rw [← Option.some.inj hopData, readOperationFrame_wholeData] at hread
  rw [← Except.ok.inj hread, hr] at hreader
  rw [← Option.some.inj hreader, hrid]
  exact hid

/-- The height of a request has priority, where it is not 0. -/
def priorHeight (requested own : ℕ) : ℕ := if requested ≠ 0 then requested else own

/-- The height from which a node sends operations that are committed; 0 is none. -/
def SyncNode.fromHeight (node : SyncNode) : ℕ :=
  (node.synchronizer.getFromBlockHeight (.new node.syncState) none).getD 0

/-- The height of an exchange that a tick of the first node starts. -/
def exchangeHeight (starter other : SyncNode) : ℕ := priorHeight starter.fromHeight other.fromHeight

theorem getFromBlockHeight_getD (node : SyncNode) (request : PendingSyncRequest) :
    (node.synchronizer.getFromBlockHeight (.new node.syncState) (some request)).getD 0 =
      priorHeight request.fromBlockHeight node.fromHeight := by
  by_cases h : request.fromBlockHeight = 0
  · simp [PendingSynchronizer.getFromBlockHeight, SyncNode.fromHeight, priorHeight, h]
  · simp [PendingSynchronizer.getFromBlockHeight, priorHeight, h]

theorem fromHeightAllows_getD (height : Option ℕ) (op : StoredOperation) :
    fromHeightAllows (some (height.getD 0)) op = fromHeightAllows height op := by
  cases height with
  | some height => rfl
  | none => cases hstatus : op.commitStatus <;> simp [fromHeightAllows, hstatus]

/-- The node holds the operation, and lets it through at this height. -/
def SyncNode.Offers (node : SyncNode) (height id : ℕ) : Prop :=
  ∃ op, node.store.getOperation id = some op ∧ fromHeightAllows (some height) op = true

/-- The operations that the store has are those of the start, or among these. -/
def HeldWithin (start : SyncNode) (ids : Set ℕ) (store : MemoryPendingStore) : Prop :=
  ∀ id op, store.getOperation id = some op → start.store.getOperation id = some op ∨ id ∈ ids

theorem HeldWithin.put {start : SyncNode} {ids : Set ℕ} {store store' : MemoryPendingStore}
    (h : HeldWithin start ids store) (frame : OperationFrame) (reader : ChainOperation)
    (hreader : frame.frame.reader = some reader) (hid : reader.operationId ∈ ids) (existed : Bool)
    (hput : store.putOperation ⟨reader.operationId, frame⟩ = .ok (existed, store')) :
    HeldWithin start ids store' := by
  intro id op hop
  obtain ⟨type, -, hget⟩ := store.putOperation_getOperation store' _ existed reader hreader hput
  rw [hget] at hop
  split_ifs at hop with heq
  · rw [heq]
    exact Or.inr hid
  · exact h id op hop

/-- The node as an exchange leaves it. -/
structure SyncNode.Within (start : SyncNode) (ids : Set ℕ) (node : SyncNode) : Prop where
  synchronizer : node.synchronizer = start.synchronizer
  syncState : node.syncState = start.syncState
  held : HeldWithin start ids node.store

/-- A request is answered with nothing, or with the ranges of the loop over its own. -/
theorem handleIncomingSyncRequest_context (q : PendingSynchronizer) (fromNode : NodeId)
    (request : PendingSyncRequest) (s : PendingState) :
    (q.handleIncomingSyncRequest fromNode (some request) s).2.syncContext.syncState =
        s.syncContext.syncState ∧
      ((q.handleIncomingSyncRequest fromNode (some request) s).2.syncContext.messages =
          s.syncContext.messages ∨
        ∃ ranges out mid, request.ranges.get = .ok ranges ∧
          handleIncomingSyncRangesLoop (q.getFromBlockHeight s.syncContext (some request)) ranges
            false (.new q.config) s = (.ok (some out), mid) ∧
          (q.handleIncomingSyncRequest fromNode (some request) s).2.syncContext.messages =
            s.syncContext.messages ++ [.pendingSyncRequest fromNode (writeRequest out.ranges
              (q.getFromBlockHeight s.syncContext (some request)))]) := by
  rw [PendingSynchronizer.handleIncomingSyncRequest, orError_some, Action.lift_ok_bind,
    Action.get_bind]
  cases hranges : request.ranges.get with
  | error e => exact ⟨rfl, Or.inl rfl⟩
  | ok ranges =>
    obtain ⟨hstate, hmessages⟩ := Prod.ext_iff.mp (handleIncomingSyncRangesLoop_context
      (q.getFromBlockHeight s.syncContext (some request)) ranges false (.new q.config) s)
    simp only at hstate hmessages
    rw [Action.lift_ok_bind, Action.bind_apply, PendingSynchronizer.handleIncomingSyncRanges]
    cases hloop : handleIncomingSyncRangesLoop (q.getFromBlockHeight s.syncContext (some request))
      ranges false (.new q.config) s with
    | mk res mid =>
      rw [hloop] at hstate hmessages
      cases res with
      | error e => exact ⟨hstate, Or.inl hmessages⟩
      | ok out =>
        cases out with
        | none => exact ⟨hstate, Or.inl hmessages⟩
        | some out =>
          refine ⟨hstate, Or.inr ⟨ranges, out, mid, rfl, hloop, ?_⟩⟩
          rw [← hmessages]
          rfl

/-- The requests among messages. -/
def pendingSyncRequests (messages : List SyncContextMessage) : List PendingSyncRequest :=
  messages.filterMap fun message => match message with
    | .pendingSyncRequest _ request => some request
    | _ => none

/-- What a node sends when it handles a request. A failure sends nothing. -/
def replies : Res EngineError (List SyncContextMessage) → List PendingSyncRequest
  | .ok messages => pendingSyncRequests messages
  | .error _ => []

theorem receive_synchronizer (node : SyncNode) (fromNode : NodeId) (request : PendingSyncRequest) :
    (node.receive fromNode request).2.synchronizer = node.synchronizer ∧
      (node.receive fromNode request).2.syncState = node.syncState ∧
      (node.receive fromNode request).2.store = (node.synchronizer.handleIncomingSyncRequest
        fromNode (some request) ⟨.new node.syncState, node.store⟩).2.store := by
  have hstate := (handleIncomingSyncRequest_context node.synchronizer fromNode request
    ⟨.new node.syncState, node.store⟩).1
  rw [SyncNode.receive]
  cases hhandle : node.synchronizer.handleIncomingSyncRequest fromNode (some request)
    ⟨.new node.syncState, node.store⟩ with
  | mk res state =>
    rw [hhandle] at hstate
    cases res with
    | error e => exact ⟨rfl, rfl, rfl⟩
    | ok _ => exact ⟨rfl, hstate, rfl⟩

section Receive
variable {start node : SyncNode} {ids : Set ℕ} (fromNode : NodeId) (request : PendingSyncRequest)

/-- A request that brings operations among these leaves the node with no others. -/
theorem SyncNode.Within.receive (h : start.Within ids node) (hbrings : request.Brings ids) :
    start.Within ids (node.receive fromNode request).2 := by
  obtain ⟨hsync, hstate, hstore⟩ := receive_synchronizer node fromNode request
  refine ⟨hsync.trans h.synchronizer, hstate.trans h.syncState, ?_⟩
  rw [hstore]
  cases hranges : request.ranges.get with
  | error e =>
    rw [PendingSynchronizer.handleIncomingSyncRequest, orError_some, Action.lift_ok_bind,
      Action.get_bind, hranges]
    exact h.held
  | ok ranges =>
    rw [handleIncomingSyncRequest_store _ _ _ _ hranges]
    apply handleIncomingSyncRangesLoop_keeps (HeldWithin start ids) _ ranges _ _ _ h.held
    intro range hrange frames hframes frame reader hframe store existed store' hstored hput
    have hid := hbrings ranges hranges range hrange frames hframes frame reader hframe
    obtain ⟨data, -, -, hreader⟩ := hframe
    exact hstored.put frame reader hreader hid existed hput

/-- A reply brings what the node offered from the start, and what was brought to it. -/
theorem SyncNode.Within.replies_bring (h : start.Within ids node) (hbrings : request.Brings ids)
    (height : ℕ) (hheight : priorHeight request.fromBlockHeight start.fromHeight = height)
    (hoffers : ∀ id, start.Offers height id → id ∈ ids) :
    ∀ reply ∈ replies (node.receive fromNode request).1,
      reply.Brings ids ∧ reply.fromBlockHeight = height := by
  have hown : node.fromHeight = start.fromHeight := by
    rw [SyncNode.fromHeight, SyncNode.fromHeight, h.synchronizer, h.syncState]
  have hgetD := getFromBlockHeight_getD node request
  rw [hown, hheight] at hgetD
  obtain ⟨-, hmessages⟩ := handleIncomingSyncRequest_context node.synchronizer fromNode request
    ⟨.new node.syncState, node.store⟩
  intro reply hreply
  rw [SyncNode.receive] at hreply
  cases hhandle : node.synchronizer.handleIncomingSyncRequest fromNode (some request)
    ⟨.new node.syncState, node.store⟩ with
  | mk res state =>
    rw [hhandle] at hreply hmessages
    cases res with
    | error e => exact absurd hreply List.not_mem_nil
    | ok _ =>
      change reply ∈ pendingSyncRequests state.syncContext.messages at hreply
      rcases hmessages with hnone | ⟨ranges, out, mid, hranges, hloop, hone⟩
      · rw [hnone] at hreply
        exact absurd hreply List.not_mem_nil
      · rw [hone] at hreply
        have heq : reply = writeRequest out.ranges (node.synchronizer.getFromBlockHeight
            (.new node.syncState) (some request)) := by
          simpa [pendingSyncRequests, SyncContext.new] using hreply
        refine ⟨?_, by rw [heq, writeRequest, hgetD]⟩
        rw [heq]
        apply writeRequest_brings
        refine carries_handleIncomingSyncRangesLoop (HeldWithin start ids) _ ?_ ranges ?_ false _ mid
          h.held (SyncRangesBuilder.carries_new _) hloop
        · intro store hstored op hop hallows
          refine ⟨?_, store.getOperation_reads _ op hop⟩
          rcases hstored op.operationId op hop with hstart | hid
          · apply hoffers
            refine ⟨op, hstart, ?_⟩
            rw [← hgetD, fromHeightAllows_getD]
            exact hallows
          · exact hid
        · intro range hrange frames hframes frame reader hframe store existed store' hstored hput
          have hid := hbrings ranges hranges range hrange frames hframes frame reader hframe
          obtain ⟨data, -, -, hreader⟩ := hframe
          exact hstored.put frame reader hreader hid existed hput

end Receive

section Tick
variable (node : SyncNode)

/-- A request for headers brings nothing, and has the height of the node. -/
theorem createSyncRequestForRange_brings (c : SyncContext) (hc : c.syncState = node.syncState)
    (request : PendingSyncRequest)
    (hrequest : node.synchronizer.createSyncRequestForRange c node.store (.unbounded, .unbounded)
      (fun _ => .none) = .ok request) :
    request.Brings ∅ ∧ request.fromBlockHeight = node.fromHeight := by
  have hheight : node.synchronizer.getFromBlockHeight c none =
      node.synchronizer.getFromBlockHeight (.new node.syncState) none := by
    simp [PendingSynchronizer.getFromBlockHeight, hc, SyncContext.new]
  rw [PendingSynchronizer.createSyncRequestForRange] at hrequest
  obtain ⟨operations, -, hrequest⟩ := (bind_eq_ok_iff _ _ _).mp hrequest
  obtain ⟨pushed, hpushed, hrequest⟩ := (bind_eq_ok_iff _ _ _).mp hrequest
  rw [← Except.ok.inj hrequest]
  refine ⟨writeRequest_brings ∅ _ _ ?_, by rw [writeRequest, hheight, SyncNode.fromHeight]⟩
  apply SyncRangesBuilder.Carries.setLastRangeToBound
  refine SyncRangesBuilder.Carries.pushOperations _
    ((SyncRangesBuilder.carries_new _).pushNewRange _) ?_ hpushed
  intro o ho hfull
  obtain ⟨op, -, rfl⟩ := List.mem_map.mp ho
  exact absurd hfull (by simp)

theorem tickLoop_brings (canSendRequest : NodeId → Bool) (nodes : List NodeId) (c : SyncContext)
    (hstate : c.syncState = node.syncState)
    (hc : ∀ request ∈ pendingSyncRequests c.messages,
      request.Brings ∅ ∧ request.fromBlockHeight = node.fromHeight) :
    ∀ request ∈ pendingSyncRequests (node.synchronizer.tickLoop canSendRequest nodes
        ⟨c, node.store⟩).2.syncContext.messages,
      request.Brings ∅ ∧ request.fromBlockHeight = node.fromHeight := by
  induction nodes generalizing c with
  | nil => exact hc
  | cons id nodes ih =>
    rw [PendingSynchronizer.tickLoop]
    split_ifs
    · rw [Action.get_bind]
      cases hrequest : node.synchronizer.createSyncRequestForRange c node.store
          (.unbounded, .unbounded) fun _ => .none with
      | error e => exact hc
      | ok request =>
        rw [Action.lift_ok_bind]
        apply ih (c.pushPendingSyncRequest id request) hstate
        intro r hr
        rw [SyncContext.pushPendingSyncRequest, pendingSyncRequests, List.filterMap_append] at hr
        rcases List.mem_append.mp hr with hr | hr
        · exact hc r hr
        · have heq : r = request := by simpa using hr
          rw [heq]
          exact createSyncRequestForRange_brings node c hstate request hrequest
    · exact ih c hstate hc

/-- The requests of a tick bring nothing. -/
theorem tick_brings (canSendRequest : NodeId → Bool) :
    ∀ request ∈ pendingSyncRequests (node.synchronizer.tick canSendRequest
        ⟨.new node.syncState, node.store⟩).2.syncContext.messages,
      request.Brings ∅ ∧ request.fromBlockHeight = node.fromHeight := by
  apply tickLoop_brings node canSendRequest node.synchronizer.otherChainNodes _ rfl
  intro request hrequest
  exact absurd hrequest List.not_mem_nil

end Tick

end Nodes

end Exocore.Engine
