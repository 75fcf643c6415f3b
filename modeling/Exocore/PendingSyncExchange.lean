import Exocore.PendingSyncAnswer
import Exocore.PendingSyncNewOperation

/-! The exchange between two nodes that starts with the request of a tick. -/
namespace Exocore.Engine

open Exocore.Core Exocore.Chain Exocore.Pending PendingSynchronizer

section Exchange
variable [Crates]

/-- A node, as far as the synchronization of its pending store goes. -/
structure SyncNode where
  synchronizer : PendingSynchronizer
  syncState : SyncState
  store : MemoryPendingStore

def SyncNode.id (node : SyncNode) : NodeId := node.synchronizer.cell.localNode

/-- The node handles a request in a context of its own. Returns the messages it sends. -/
def SyncNode.receive (node : SyncNode) (fromNode : NodeId) (request : PendingSyncRequest) :
    Res EngineError (List SyncContextMessage) × SyncNode :=
  match node.synchronizer.handleIncomingSyncRequest fromNode (some request)
      ⟨.new node.syncState, node.store⟩ with
  | (.ok (), state) => (.ok state.syncContext.messages,
      ⟨node.synchronizer, state.syncContext.syncState, state.store⟩)
  | (.error e, state) => (.error e, ⟨node.synchronizer, node.syncState, state.store⟩)

/-- How an exchange of at most so many messages ends, with both nodes. -/
inductive ExchangeEnd where
  | ended (sender receiver : SyncNode)
  | failed (e : Fault EngineError)
  | unfinished

/-- The nodes handle each other's messages in turn, until there is no reply. -/
def exchange : ℕ → SyncNode → SyncNode → PendingSyncRequest → ExchangeEnd
  | 0, _, _, _ => .unfinished
  | messages + 1, sender, receiver, request =>
    match receiver.receive sender.id request with
    | (.error e, _) => .failed e
    | (.ok [], receiver') => .ended sender receiver'
    | (.ok (.pendingSyncRequest _ reply :: _), receiver') =>
      exchange messages receiver' sender reply
    -- the pending synchronizer sends no other kind of message
    | (.ok (_ :: _), receiver') => .ended sender receiver'

/-- The node does not filter by height, and has place for two operations in a range. -/
structure SyncNode.Plain (node : SyncNode) : Prop where
  noCleanup : node.syncState.pendingLastCleanupBlock = none
  max : 1 ≤ node.synchronizer.config.maxOperationsPerRange

theorem getFromBlockHeight_plain (node : SyncNode) (h : node.Plain) (c : SyncContext)
    (hc : c.syncState = node.syncState) :
    node.synchronizer.getFromBlockHeight c none = none ∧
      ∀ ranges, node.synchronizer.getFromBlockHeight c (some ⟨.list ranges, 0⟩) = none := by
  simp [getFromBlockHeight, hc, h.noCleanup]

/-- The nodes hold what both had in the beginning. -/
def HoldAll (frames : ℕ → Option OperationFrame) (outcome : ExchangeEnd) : Prop :=
  ∃ a b, outcome = .ended a b ∧ (∀ id, a.store.content.get id = frames id) ∧
    ∀ id, b.store.content.get id = frames id

variable (frames : ℕ → Option OperationFrame) (hfree : CollisionFree frames)
  (hmh : MultihashReadsBack)

include hfree hmh

/-- The receiver of ranges of this rank has all, or answers with ranges of a lower rank. -/
theorem receive_answered (sender : MemoryPendingStore) (receiver : SyncNode) (fromNode : NodeId)
    (hplain : receiver.Plain) (n : ℕ) (pieces : List Piece)
    (htiles : Tiles (fun _ => True) pieces) (hshare : Share frames sender receiver.store)
    (hrank : ∀ p ∈ pieces, Rank sender receiver.store p n) :
    ∃ receiver' changed answer, receiver'.Plain ∧ receiver'.id = receiver.id ∧
      Answered frames sender ⟨.new receiver.syncState, receiver.store⟩
        ⟨.new receiver'.syncState, receiver'.store⟩ (fun _ => True) n changed answer ∧
      receiver.receive fromNode ⟨.list (pieces.map (Piece.message sender)), 0⟩ =
        (.ok (if changed then [.pendingSyncRequest fromNode
          ⟨.list (answer.map (Piece.message receiver'.store)), 0⟩] else []), receiver') := by
  obtain ⟨changed, out, after, answer, hloop, hans, hwrite⟩ :=
    handleIncomingSyncRangesLoop_answered frames hfree hmh sender n pieces (fun _ => True) htiles
      false (.new receiver.synchronizer.config) hplain.max ⟨.new receiver.syncState, receiver.store⟩
      hshare hrank
  have hheight := (getFromBlockHeight_plain receiver hplain (.new receiver.syncState) rfl).2
    (pieces.map (Piece.message sender))
  have hhandle := handleIncomingSyncRequest_eq receiver.synchronizer fromNode
    (pieces.map (Piece.message sender)) 0 ⟨.new receiver.syncState, receiver.store⟩ none hheight
  rw [hloop, Bool.false_or] at hhandle
  have hmessages : after.syncContext.messages = [] := hans.messages
  refine ⟨⟨receiver.synchronizer, receiver.syncState, after.store⟩, changed, answer,
    ⟨hplain.noCleanup, hplain.max⟩, rfl, ?_, ?_⟩
  · exact ⟨rfl, rfl, hans.others, hans.share, hans.tiles, hans.rank, hans.changes, hans.same⟩
  · rw [SyncNode.receive, hhandle]
    cases changed with
    | false =>
      simp only [Bool.false_eq_true, if_false, hmessages]
      rw [hans.syncState]
      rfl
    | true =>
      simp only [if_true, SyncContext.pushPendingSyncRequest, hmessages, List.nil_append]
      rw [hans.syncState, writeRequest, hwrite]
      rfl

omit hfree hmh in
/-- Stores that have the same have everything. -/
theorem frames_of_same (s t : MemoryPendingStore) (hshare : Share frames s t)
    (hsame : ∀ id, frameOf t id = frameOf s id) :
    (∀ id, s.content.get id = frames id) ∧ ∀ id, t.content.get id = frames id := by
  have hs : ∀ id, frameOf s id = frames id := by
    intro id
    apply Option.ext
    intro f
    constructor
    · exact hshare.left id f
    · intro hf
      rcases hshare.cover id f hf with h | h
      · exact h
      · exact hsame id ▸ h
  constructor
  · intro id
    rw [MemoryPendingStore.get_content]
    exact hs id
  · intro id
    rw [MemoryPendingStore.get_content]
    exact (hsame id).trans (hs id)

/-- Ranges of a rank are settled with at most as many replies. -/
theorem exchange_of_rank (n : ℕ) (sender receiver : SyncNode) (hs : sender.Plain)
    (hr : receiver.Plain) (pieces : List Piece) (htiles : Tiles (fun _ => True) pieces)
    (hshare : Share frames sender.store receiver.store)
    (hrank : ∀ p ∈ pieces, Rank sender.store receiver.store p n) :
    HoldAll frames (exchange (n + 1) sender receiver
      ⟨.list (pieces.map (Piece.message sender.store)), 0⟩) := by
  induction n generalizing sender receiver pieces with
  | zero =>
    obtain ⟨receiver', changed, answer, -, -, hans, hreceive⟩ := receive_answered frames hfree hmh
      sender.store receiver sender.id hr 0 pieces htiles hshare hrank
    obtain rfl := hans.changes rfl
    obtain ⟨hsender, hreceiver⟩ := frames_of_same frames sender.store receiver'.store hans.share
      fun id => hans.same rfl id trivial
    refine ⟨sender, receiver', ?_, hsender, hreceiver⟩
    rw [exchange, hreceive]
    rfl
  | succ n ih =>
    obtain ⟨receiver', changed, answer, hplain, -, hans, hreceive⟩ := receive_answered frames hfree
      hmh sender.store receiver sender.id hr (n + 1) pieces htiles hshare hrank
    cases changed with
    | false =>
      obtain ⟨hsender, hreceiver⟩ := frames_of_same frames sender.store receiver'.store hans.share
        fun id => hans.same rfl id trivial
      refine ⟨sender, receiver', ?_, hsender, hreceiver⟩
      rw [exchange, hreceive]
      rfl
    | true =>
      rw [exchange, hreceive]
      exact ih receiver' sender hplain hs answer hans.tiles (share_symm frames _ _ hans.share)
        hans.rank

omit hfree hmh

/-- A tick sends one request, the same to each node it can send to. -/
theorem tick_eq (node : SyncNode) (hplain : node.Plain) (canSendRequest : NodeId → Bool) :
    ∃ sent pieces, node.synchronizer.tick canSendRequest ⟨.new node.syncState, node.store⟩ =
        (.ok (), sent) ∧ sent.store = node.store ∧ Tiles (fun _ => True) pieces ∧
      (∀ p ∈ pieces, ∀ op, p.details op = .none) ∧
      sent.syncContext.messages = (node.synchronizer.otherChainNodes.filter canSendRequest).map
        fun id => .pendingSyncRequest id ⟨.list (pieces.map (Piece.message node.store)), 0⟩ := by
  have hheight (c : SyncContext) (hc : c.syncState = node.syncState) :=
    (getFromBlockHeight_plain node hplain c hc).1
  obtain ⟨cuts, -, hcuts, hcreate⟩ := createSyncRequestForRange_eq node.synchronizer
    (.new node.syncState) node.store .unbounded fun _ => .none
  rw [hheight _ rfl] at hcreate
  have htiles := tiles_of_cuts _ hplain.max (.unbounded, .unbounded) cuts hcuts
    boundsRead_unbounded fun _ => .none
  -- the loop pushes the request for one node after the other
  have hloop : ∀ (nodes : List NodeId) (c : SyncContext), c.syncState = node.syncState →
      ∃ sent, node.synchronizer.tickLoop canSendRequest nodes ⟨c, node.store⟩ = (.ok (), sent) ∧
        sent.store = node.store ∧ sent.syncContext.messages = c.messages ++
          (nodes.filter canSendRequest).map fun id => .pendingSyncRequest id ⟨.list (cuts.map
            (rangeMessage node.store none fun _ => .none)), 0⟩ := by
    intro nodes
    induction nodes with
    | nil =>
      intro c hc
      exact ⟨⟨c, node.store⟩, rfl, rfl, by simp⟩
    | cons id nodes ih =>
      intro c hc
      by_cases hcan : canSendRequest id = true
      · obtain ⟨sent, hsent, hstore, hmessages⟩ := ih (c.pushPendingSyncRequest id ⟨.list (cuts.map
          (rangeMessage node.store none fun _ => .none)), 0⟩) hc
        refine ⟨sent, ?_, hstore, ?_⟩
        · have hcongr := createSyncRequestForRange_congr node.synchronizer c (.new node.syncState) hc
            node.store (.unbounded, .unbounded) fun _ => .none
          rw [tickLoop, if_pos hcan, Action.get_bind]
          simp only
          rw [hcongr, hcreate, Action.lift_ok_bind]
          exact hsent
        · rw [hmessages, List.filter_cons_of_pos hcan, SyncContext.pushPendingSyncRequest]
          simp
      · obtain ⟨sent, hsent, hstore, hmessages⟩ := ih c hc
        refine ⟨sent, ?_, hstore, ?_⟩
        · rw [tickLoop, if_neg hcan, hsent]
        · rw [hmessages, List.filter_cons_of_neg hcan]
  obtain ⟨sent, hsent, hstore, hmessages⟩ :=
    hloop node.synchronizer.otherChainNodes (.new node.syncState) rfl
  refine ⟨sent, cuts.map fun cut => ⟨cut, fun _ => .none⟩, hsent, hstore, ?_, ?_, ?_⟩
  · refine ⟨htiles.read, fun _ _ _ _ => trivial, htiles.apart, fun id _ => htiles.cover id rfl⟩
  · intro p hp op
    obtain ⟨cut, -, rfl⟩ := List.mem_map.mp hp
    rfl
  · rw [hmessages, List.map_map]
    rfl

/-- What one of the two stores has. -/
def unionFrames (s t : MemoryPendingStore) (id : ℕ) : Option OperationFrame :=
  (s.content.get id).or (t.content.get id)

theorem share_of_agree (s t : MemoryPendingStore) (h : s.Agree t) : Share (unionFrames s t) s t := by
  have hs (id : ℕ) : s.content.get id = frameOf s id := s.get_content id
  have ht (id : ℕ) : t.content.get id = frameOf t id := t.get_content id
  refine ⟨?_, ?_, ?_⟩
  · intro id f hf
    rw [unionFrames, hs, hf, Option.some_or]
  · intro id f hf
    rw [unionFrames, hs, ht, hf]
    cases hg : frameOf s id with
    | none => rfl
    | some g =>
      have heq := h id g f (by rw [hs, hg]) (by rw [ht, hf])
      rw [heq, Option.some_or]
  · intro id f hf
    rw [unionFrames, hs, ht, Option.or_eq_some_iff] at hf
    rcases hf with hf | ⟨-, hf⟩
    · exact Or.inl hf
    · exact Or.inr hf

/-- From the request of a tick, two nodes exchange at most four messages, none of them fails,
and both stores then have what one of them had. -/
theorem exchange_converges (hmh : MultihashReadsBack) (a b : SyncNode) (ha : a.Plain)
    (hb : b.Plain) (hagree : a.store.Agree b.store)
    (hfree : CollisionFree (unionFrames a.store b.store)) (canSendRequest : NodeId → Bool) :
    ∃ sent request,
      a.synchronizer.tick canSendRequest ⟨.new a.syncState, a.store⟩ = (.ok (), sent) ∧
      sent.syncContext.messages = (a.synchronizer.otherChainNodes.filter canSendRequest).map
        (fun id => .pendingSyncRequest id request) ∧
      HoldAll (unionFrames a.store b.store) (exchange 4 a b request) := by
  obtain ⟨sent, pieces, htick, -, htiles, hnone, hmessages⟩ := tick_eq a ha canSendRequest
  refine ⟨sent, _, htick, hmessages, ?_⟩
  refine exchange_of_rank _ hfree hmh 3 a b ha hb pieces htiles (share_of_agree _ _ hagree) ?_
  intro p hp
  exact Or.inr (Or.inr (hnone p hp))

end Exchange

section Samples

local instance : Crates := entryTables.crates

def fiveStore : MemoryPendingStore :=
  MemoryPendingStore.new.insertOperation fiveFrame (entryOperation 5 [1]) .entry fiveFrame_reader
    fiveFrame_type

def fiveNode : SyncNode := ⟨sampleSynchronizer, ⟨none⟩, fiveStore⟩
def sevenNode : SyncNode := ⟨otherSynchronizer, ⟨none⟩, sevenStore⟩

theorem content_insert_new (frame : OperationFrame) (reader : ChainOperation) (type : OperationType)
    (hreader : frame.frame.reader = some reader)
    (htype : reader.operation.operationType = .ok type) (id : ℕ) :
    (MemoryPendingStore.new.insertOperation frame reader type hreader htype).content.get id =
      if id = reader.operationId then some frame else none := by
  rw [MemoryPendingStore.get_content, MemoryPendingStore.getOperation_insertOperation]
  split_ifs with hid
  · rfl
  · simp [MemoryPendingStore.getOperation, MemoryPendingStore.new]

theorem fiveStore_content (id : ℕ) :
    fiveStore.content.get id = if id = 5 then some fiveFrame else none :=
  content_insert_new fiveFrame (entryOperation 5 [1]) .entry rfl rfl id

theorem sevenStore_content (id : ℕ) :
    sevenStore.content.get id = if id = 7 then some sevenFrame else none :=
  content_insert_new sevenFrame (entryOperation 7 [2]) .entry rfl rfl id

/-- The sets of the two frames. -/
def frameSets : List (List (ℕ × OperationFrame)) :=
  [[], [(5, fiveFrame)], [(7, sevenFrame)], [(5, fiveFrame), (7, sevenFrame)]]

theorem mem_frameSets (l : List (ℕ × OperationFrame)) (hl : l.Pairwise fun a b => a.1 < b.1)
    (hmem : ∀ e ∈ l, e = (5, fiveFrame) ∨ e = (7, sevenFrame)) : l ∈ frameSets := by
  rcases l with _ | ⟨e, _ | ⟨e', _ | ⟨e'', rest⟩⟩⟩
  · simp [frameSets]
  · rcases hmem e (by simp) with rfl | rfl <;> simp [frameSets]
  · have hlt : e.1 < e'.1 := (List.pairwise_cons.mp hl).1 e' (by simp)
    rcases hmem e (by simp) with rfl | rfl <;> rcases hmem e' (by simp) with rfl | rfl <;>
      simp [frameSets] at hlt ⊢
  · obtain ⟨h₁, h₂⟩ := List.pairwise_cons.mp hl
    have hlt : e.1 < e'.1 := h₁ e' (by simp)
    have hlt' : e'.1 < e''.1 := (List.pairwise_cons.mp h₂).1 e'' (by simp)
    rcases hmem e (by simp) with rfl | rfl <;> rcases hmem e' (by simp) with rfl | rfl <;>
      rcases hmem e'' (by simp) with rfl | rfl <;> simp at hlt hlt'

theorem sampleFrames_collisionFree : CollisionFree (unionFrames fiveStore sevenStore) := by
  have hframes : ∀ id f, unionFrames fiveStore sevenStore id = some f →
      (id, f) = (5, fiveFrame) ∨ (id, f) = (7, sevenFrame) := by
    intro id f hf
    rw [unionFrames, fiveStore_content, sevenStore_content] at hf
    split_ifs at hf with h5 h7 h7
    · omega
    · exact Or.inl (Prod.ext h5 (Option.some.inj hf).symm)
    · exact Or.inr (Prod.ext h7 (Option.some.inj hf).symm)
    · contradiction
  have hsets : ∀ l ∈ frameSets, ∀ l' ∈ frameSets,
      toMultihash (l.flatMap fun e => e.2.multihashBytes) =
        toMultihash (l'.flatMap fun e => e.2.multihashBytes) → l = l' := by
    decide +kernel
  intro l l' hl hl' hmem hmem' hhash
  refine hsets l (mem_frameSets l hl ?_) l' (mem_frameSets l' hl' ?_) hhash
  · exact fun e he => hframes e.1 e.2 (hmem e he)
  · exact fun e he => hframes e.1 e.2 (hmem' e he)

/-- Two nodes with one operation each. -/
theorem exchange_converges_two_operations :
    ∃ sent request, fiveNode.synchronizer.tick (fun _ => true) ⟨.new ⟨none⟩, fiveStore⟩ =
        (.ok (), sent) ∧
      sent.syncContext.messages = [.pendingSyncRequest ⟨otherNode⟩ request] ∧
      HoldAll (unionFrames fiveStore sevenStore) (exchange 4 fiveNode sevenNode request) := by
  have hagree : fiveStore.Agree sevenStore := by
    intro id f g hf hg
    rw [fiveStore_content] at hf
    rw [sevenStore_content] at hg
    split_ifs at hf hg
    omega
  exact exchange_converges entryTables_readsBack fiveNode sevenNode ⟨rfl, by decide⟩
    ⟨rfl, by decide⟩ hagree sampleFrames_collisionFree fun _ => true

end Samples

end Exocore.Engine
