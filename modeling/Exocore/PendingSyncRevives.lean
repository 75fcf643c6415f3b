import Exocore.CommitBuilt
import Exocore.EngineStatuses
import Exocore.PendingSyncSends

/-! Whether an exchange between two nodes brings back operations that one of them has cleaned up.
The height of the exchange filters what a node sends; what a node receives, it stores unfiltered. -/
namespace Exocore.Engine

open Exocore.Core Exocore.Chain Exocore.Pending

section Exchange
variable [Crates]

/-- A node with its chain, which its pending store is marked with. -/
structure ChainNode where
  node : SyncNode
  chain : DirectoryChainStore
  blocks : List DataBlock
  marks : Marks node.store chain blocks

/-- The chain of the node has the operation, not above the height of the last cleanup. -/
def ChainNode.CleanedUp (n : ChainNode) (id : ℕ) : Prop :=
  ∃ offset lastHeight, n.node.syncState.pendingLastCleanupBlock = some (offset, lastHeight) ∧
    ∃ b ∈ n.blocks, Contains b id ∧ ∃ height, b.getHeight = .ok height ∧ height ≤ lastHeight

/-- An operation that was cleaned up is in the pending store, where it was not before. -/
def ChainNode.Revived (n : ChainNode) (after : SyncNode) : Prop :=
  ∃ id, n.CleanedUp id ∧ n.node.store.getOperation id = none ∧
    (after.store.getOperation id).isSome

/-- An exchange between two nodes, with the requests that were sent to each of them. -/
structure ExchangeState where
  starter : SyncNode
  other : SyncNode
  toStarter : List PendingSyncRequest
  toOther : List PendingSyncRequest

/-- A node receives one of the requests that were sent to it. -/
inductive ExchangeStep where
  | starterReceives (i : ℕ)
  | otherReceives (i : ℕ)
deriving DecidableEq

/-- Requests arrive in any order, more than once, or never. -/
def ExchangeState.step (s : ExchangeState) : ExchangeStep → ExchangeState
  | .starterReceives i => match s.toStarter[i]? with
    | none => s
    | some request => { s with
        starter := (s.starter.receive s.other.id request).2
        toOther := s.toOther ++ replies (s.starter.receive s.other.id request).1 }
  | .otherReceives i => match s.toOther[i]? with
    | none => s
    | some request => { s with
        other := (s.other.receive s.starter.id request).2
        toStarter := s.toStarter ++ replies (s.other.receive s.starter.id request).1 }

/-- The requests that a tick of the node sends. They are the same for each node it sends to. -/
def SyncNode.tickRequests (node : SyncNode) (canSendRequest : NodeId → Bool) :
    List PendingSyncRequest :=
  pendingSyncRequests (node.synchronizer.tick canSendRequest
    ⟨.new node.syncState, node.store⟩).2.syncContext.messages

/-- The state in which the exchange of a tick starts. -/
def exchangeStart (starter other : SyncNode) (canSendRequest : NodeId → Bool) : ExchangeState :=
  ⟨starter, other, [], starter.tickRequests canSendRequest⟩

omit [Crates] in
theorem priorHeight_left (x y : ℕ) : priorHeight (priorHeight x y) x = priorHeight x y := by
  unfold priorHeight
  split_ifs <;> omega

omit [Crates] in
theorem priorHeight_right (x y : ℕ) : priorHeight (priorHeight x y) y = priorHeight x y := by
  unfold priorHeight
  split_ifs <;> omega

/-- What the two nodes offered each other at the start, at the height of the exchange. -/
def offered (starter other : SyncNode) : Set ℕ :=
  {id | starter.Offers (exchangeHeight starter other) id ∨
    other.Offers (exchangeHeight starter other) id}

/-- Both nodes stay within what was offered, and so do the requests on the way. -/
structure Bounded (starter other : SyncNode) (s : ExchangeState) : Prop where
  starterWithin : starter.Within (offered starter other) s.starter
  otherWithin : other.Within (offered starter other) s.other
  toStarterBrings : ∀ request ∈ s.toStarter, request.Brings (offered starter other) ∧
    priorHeight request.fromBlockHeight starter.fromHeight = exchangeHeight starter other
  toOtherBrings : ∀ request ∈ s.toOther, request.Brings (offered starter other) ∧
    priorHeight request.fromBlockHeight other.fromHeight = exchangeHeight starter other

theorem bounded_start (starter other : SyncNode) (canSendRequest : NodeId → Bool) :
    Bounded starter other (exchangeStart starter other canSendRequest) := by
  refine ⟨⟨rfl, rfl, fun _ _ => Or.inl⟩, ⟨rfl, rfl, fun _ _ => Or.inl⟩, ?_, ?_⟩
  · intro request hrequest
    exact absurd hrequest List.not_mem_nil
  · intro request hrequest
    obtain ⟨hbrings, hheight⟩ := tick_brings starter canSendRequest request hrequest
    refine ⟨hbrings.mono (Set.empty_subset _), ?_⟩
    rw [hheight, exchangeHeight]

theorem Bounded.step {starter other : SyncNode} {s : ExchangeState} (h : Bounded starter other s)
    (a : ExchangeStep) : Bounded starter other (s.step a) := by
  cases a with
  | starterReceives i =>
    rw [ExchangeState.step]
    cases hi : s.toStarter[i]? with
    | none => exact h
    | some request =>
      obtain ⟨hbrings, hheight⟩ := h.toStarterBrings request (List.mem_of_getElem? hi)
      refine ⟨h.starterWithin.receive s.other.id request hbrings, h.otherWithin,
        h.toStarterBrings, ?_⟩
      intro reply hreply
      rcases List.mem_append.mp hreply with hreply | hreply
      · exact h.toOtherBrings reply hreply
      · obtain ⟨hreplyBrings, hreplyHeight⟩ := h.starterWithin.replies_bring s.other.id request hbrings _
          hheight (fun id => Or.inl) reply hreply
        refine ⟨hreplyBrings, ?_⟩
        rw [hreplyHeight, exchangeHeight, priorHeight_right]
  | otherReceives i =>
    rw [ExchangeState.step]
    cases hi : s.toOther[i]? with
    | none => exact h
    | some request =>
      obtain ⟨hbrings, hheight⟩ := h.toOtherBrings request (List.mem_of_getElem? hi)
      refine ⟨h.starterWithin, h.otherWithin.receive s.starter.id request hbrings, ?_,
        h.toOtherBrings⟩
      intro reply hreply
      rcases List.mem_append.mp hreply with hreply | hreply
      · exact h.toStarterBrings reply hreply
      · obtain ⟨hreplyBrings, hreplyHeight⟩ := h.otherWithin.replies_bring s.starter.id request hbrings _
          hheight (fun id => Or.inr) reply hreply
        refine ⟨hreplyBrings, ?_⟩
        rw [hreplyHeight, exchangeHeight, priorHeight_left]

/-- The run keeps both nodes within what was offered. -/
theorem Bounded.run {starter other : SyncNode} {s : ExchangeState} (h : Bounded starter other s)
    (steps : List ExchangeStep) : Bounded starter other (Run.exec ExchangeState.step s steps) := by
  induction steps generalizing s with
  | nil => exact h
  | cons a rest ih => exact ih (h.step a)

/-- Nothing that the first node offers at this height is missing from the pending store of the
second one because it was cleaned up there. -/
def OffersNoCleaned (height : ℕ) (n : SyncNode) (n' : ChainNode) : Prop :=
  ∀ id, n.Offers height id → n'.node.store.getOperation id = none → ¬ n'.CleanedUp id

/-- Where neither node offers what the other one has cleaned up, no exchange of a tick revives an
operation, in whatever order the requests arrive. -/
theorem exchange_revives_nothing (starter other : ChainNode) (canSendRequest : NodeId → Bool)
    (hstarter : OffersNoCleaned (exchangeHeight starter.node other.node) starter.node other)
    (hother : OffersNoCleaned (exchangeHeight starter.node other.node) other.node starter)
    (steps : List ExchangeStep) :
    ¬ starter.Revived (Run.exec ExchangeState.step
        (exchangeStart starter.node other.node canSendRequest) steps).starter ∧
      ¬ other.Revived (Run.exec ExchangeState.step
        (exchangeStart starter.node other.node canSendRequest) steps).other := by
  have hbounded := (bounded_start starter.node other.node canSendRequest).run steps
  have hnew (start after : SyncNode) (hwithin : start.Within (offered starter.node other.node) after)
      (id : ℕ) (hnone : start.store.getOperation id = none)
      (hsome : (after.store.getOperation id).isSome) : id ∈ offered starter.node other.node := by
    obtain ⟨op, hop⟩ := Option.isSome_iff_exists.mp hsome
    rcases hwithin.held id op hop with hstart | hid
    · rw [hnone] at hstart
      contradiction
    · exact hid
  constructor
  · rintro ⟨id, hcleaned, hnone, hsome⟩
    rcases hnew _ _ hbounded.starterWithin id hnone hsome with ⟨op, hop, -⟩ | hoffers
    · rw [hnone] at hop
      contradiction
    · exact hother id hoffers hnone hcleaned
  · rintro ⟨id, hcleaned, hnone, hsome⟩
    rcases hnew _ _ hbounded.otherWithin id hnone hsome with hoffers | ⟨op, hop, -⟩
    · exact hstarter id hoffers hnone hcleaned
    · rw [hnone] at hop
      contradiction

/-- An operation that both chains have is not offered above the height it was committed at. -/
theorem offersNoCleaned_of_sameBlocks (height : ℕ) (n n' : ChainNode)
    (hblocks : n.blocks = n'.blocks) (habove : ∀ offset lastHeight,
      n'.node.syncState.pendingLastCleanupBlock = some (offset, lastHeight) → lastHeight < height) :
    OffersNoCleaned height n.node n' := by
  rintro id ⟨op, hop, hallows⟩ - ⟨offset, lastHeight, hlast, b, hb, hid, h, hheight, hle⟩
  rw [← hblocks] at hb
  obtain ⟨h', hheight', hstatus⟩ := n.marks.accurate.contained id op hop b hb hid
  have heq : h' = h := Except.ok.inj (hheight'.symm.trans hheight)
  have hallowed : height ≤ h' := by simpa [fromHeightAllows, hstatus] using hallows
  have := habove offset lastHeight hlast
  omega

end Exchange

/-! Both chains have an entry at the height 2. One node has cleaned it up, the other one has
cleaned up the genesis block only, and sends what is above that by the depth. -/

section Samples

attribute [local instance] commitCrates

/-- The entry, with the status of the block it is in. -/
def markedFifty : MemoryPendingStore :=
  (fiftyStore.updateOperationCommitStatus 50 (.committed 254 2)).toOption.getD .new

theorem markedFifty_getOperation (id : ℕ) (op : StoredOperation)
    (h : markedFifty.getOperation id = some op) :
    id = 50 ∧ op.commitStatus = .committed 254 2 := by
  obtain ⟨store, hstore, hget⟩ := updateOperationCommitStatus_getOperation fiftyStore 50
    (.committed 254 2) (by decide +kernel)
  rw [markedFifty, hstore] at h
  change store.getOperation id = some op at h
  have hfifty := MemoryPendingStore.getOperation_insertOperation .new fiftyFrame fiftyOperation
    .entry rfl fiftyOperation_type id
  change fiftyStore.getOperation id = _ at hfifty
  rw [hget, hfifty] at h
  by_cases hid : id = 50
  · rw [if_pos (hid.trans (by decide +kernel)), Option.map_some, if_pos hid] at h
    rw [← Option.some.inj h]
    exact ⟨hid, rfl⟩
  · have hnew : MemoryPendingStore.new.getOperation id = none := by
      simp [MemoryPendingStore.getOperation, MemoryPendingStore.new]
    have hother : fiftyOperation.operationId = 50 := by decide +kernel
    rw [hother, if_neg hid, hnew] at h
    exact absurd h (by simp)

theorem markedFifty_accurate : Accurate markedFifty [genesisBlock, fiftyBlock] := by
  have hids : containedIds genesisBlock = [] ∧ containedIds fiftyBlock = [50] := by decide +kernel
  constructor
  · intro id op hop b hb hid
    obtain ⟨rfl, hstatus⟩ := markedFifty_getOperation id op hop
    rcases List.mem_pair.mp hb with rfl | rfl
    · have hmem := mem_of_contains _ _ hid
      rw [hids.1] at hmem
      exact absurd hmem List.not_mem_nil
    · exact ⟨2, by decide +kernel, hstatus⟩
  · intro id op offset height hop hcommitted
    obtain ⟨rfl, hstatus⟩ := markedFifty_getOperation id op hop
    rw [hstatus] at hcommitted
    obtain ⟨rfl, -⟩ := CommitStatus.committed.inj hcommitted
    refine ⟨fiftyBlock, by simp, rfl, contains_of_mem _ _ ?_⟩
    rw [hids.2]
    exact List.mem_cons_self

theorem markedFifty_marks : Marks markedFifty fiftyChain [genesisBlock, fiftyBlock] :=
  ⟨fiftyChain_marks.holds, fiftyChain_marks.inStep, markedFifty_accurate⟩

/-- The node that has cleaned up the second block. -/
def cleanedNode (depth : ℕ) : ChainNode :=
  ⟨⟨⟨⟨30, depth⟩, twoNodes⟩, ⟨some (254, 2)⟩, .new⟩, fiftyChain, [genesisBlock, fiftyBlock],
    fiftyChain_marks⟩

/-- The node that still has the entry of the second block. -/
def laggingNode (depth : ℕ) : ChainNode :=
  ⟨⟨⟨⟨30, depth⟩, otherCell⟩, ⟨some (0, 1)⟩, markedFifty⟩, fiftyChain,
    [genesisBlock, fiftyBlock], markedFifty_marks⟩

/-- The request of the tick, the answer that wants the entry, and the entry. -/
def threeRequests : List ExchangeStep := [.otherReceives 0, .starterReceives 0, .otherReceives 1]

theorem cleanedNode_cleanedUp (depth : ℕ) : (cleanedNode depth).CleanedUp 50 :=
  ⟨254, 2, rfl, fiftyBlock, by simp [cleanedNode],
    contains_of_mem _ _ (by decide +kernel), 2, by decide +kernel, le_rfl⟩

theorem cleanedNode_revives :
    (cleanedNode 1).Revived (Run.exec ExchangeState.step
      (exchangeStart (laggingNode 1).node (cleanedNode 1).node fun _ => true) threeRequests).other :=
  ⟨50, cleanedNode_cleanedUp 1, rfl, by decide +kernel⟩

/-- A larger depth holds the entry back. -/
theorem cleanedNode_stays :
    ¬ (laggingNode 2).Revived (Run.exec ExchangeState.step
        (exchangeStart (laggingNode 2).node (cleanedNode 2).node fun _ => true)
        threeRequests).starter ∧
      ¬ (cleanedNode 2).Revived (Run.exec ExchangeState.step
        (exchangeStart (laggingNode 2).node (cleanedNode 2).node fun _ => true)
        threeRequests).other :=
  exchange_revives_nothing (laggingNode 2) (cleanedNode 2) (fun _ => true)
    (offersNoCleaned_of_sameBlocks _ (laggingNode 2) (cleanedNode 2) rfl (by
      intro offset lastHeight hlast
      obtain ⟨-, rfl⟩ := Prod.mk.inj (Option.some.inj hlast)
      decide +kernel))
    (offersNoCleaned_of_sameBlocks _ (cleanedNode 2) (laggingNode 2) rfl (by
      intro offset lastHeight hlast
      obtain ⟨-, rfl⟩ := Prod.mk.inj (Option.some.inj hlast)
      decide +kernel))
    threeRequests

end Samples

end Exocore.Engine
