import Exocore.ChainSyncWrites

/-! A node among others on a network that delays, repeats and loses messages. -/
namespace Exocore.Chain

open Exocore.Core

variable [Crates]

/-- The blocks of a store, as they are read from its start. -/
def chainOf (s : DirectoryChainStore) : List DataBlock :=
  (s.blocksIter 0).filterMap Except.toOption

theorem HoldsFramed.chainOf_eq {s : DirectoryChainStore} {blocks : List DataBlock}
    (h : HoldsFramed s blocks) : chainOf s = blocks := by
  have hiter := h.blocksIter_zero
  rw [chainOf, hiter, List.filterMap_map]
  exact List.filterMap_some

end Exocore.Chain

namespace Exocore.Engine

open Exocore.Core Exocore.Chain

/-- The messages on the network stay there: each may arrive any number of times, or never. -/
structure SyncWorld where
  node : ChainSyncNode DirectoryChainStore
  peers : NodeId → ChainSyncNode DirectoryChainStore
  requests : List (NodeId × ChainSyncRequest)
  responses : List (NodeId × ChainSyncResponse)

/-- What can happen: the node ticks, one of its requests is answered, a response arrives, from
a node whose chain is modelled or from any other one, and chains grow. -/
inductive WorldStep where
  | tick (i : ChainSyncInput)
  | answer (overflowChecks : Bool) (index : ℕ)
  | deliver (overflowChecks : Bool) (index : ℕ)
  | foreign (overflowChecks : Bool) (fromNode : NodeId) (response : Option ChainSyncResponse)
  | syncRequest (overflowChecks : Bool) (fromNode : NodeId) (request : Option ChainSyncRequest)
  | commit (block : DataBlock)
  | peerCommit (id : NodeId) (block : DataBlock)
  | resetState

def sentRequest : SyncContextMessage → Option (NodeId × ChainSyncRequest)
  | .chainSyncRequest id request => some (id, request)
  | _ => none

def sentResponse (fromNode : NodeId) : SyncContextMessage → Option (NodeId × ChainSyncResponse)
  | .chainSyncResponse _ response => some (fromNode, response)
  | _ => none

variable [Crates]

namespace SyncWorld

/-- A call of the node; the messages of a call that fails are not sent. -/
def call (w : SyncWorld) (x : Action (ChainSyncState DirectoryChainStore) EngineError Unit) :
    SyncWorld :=
  match w.node.call x with
  | (.ok _, messages, node) =>
    { w with node := node, requests := w.requests ++ messages.filterMap sentRequest }
  | (.error _, _, node) => { w with node := node }

def setPeer (w : SyncWorld) (id : NodeId) (peer : ChainSyncNode DirectoryChainStore) :
    SyncWorld := { w with peers := Function.update w.peers id peer }

def answer (w : SyncWorld) (overflowChecks : Bool) (id : NodeId) (request : ChainSyncRequest) :
    SyncWorld :=
  match (w.peers id).call (ChainSynchronizer.handleSyncRequest overflowChecks
      w.node.synchronizer.cell.localNode (some request)) with
  | (.ok _, messages, peer) =>
    { w.setPeer id peer with responses := w.responses ++ messages.filterMap (sentResponse id) }
  | (.error _, _, peer) => w.setPeer id peer

def step (w : SyncWorld) : WorldStep → SyncWorld
  | .tick i => w.call (ChainSynchronizer.tick i)
  | .answer overflowChecks index => match w.requests[index]? with
    | none => w
    | some (id, request) => w.answer overflowChecks id request
  | .deliver overflowChecks index => match w.responses[index]? with
    | none => w
    | some (id, response) =>
      w.call (ChainSynchronizer.handleSyncResponse overflowChecks id (some response))
  | .foreign overflowChecks fromNode response =>
    w.call (ChainSynchronizer.handleSyncResponse overflowChecks fromNode response)
  | .syncRequest overflowChecks fromNode request =>
    w.call (ChainSynchronizer.handleSyncRequest overflowChecks fromNode request)
  | .commit block =>
    { w with node := { w.node with store := (w.node.store.writeBlock block).2 } }
  | .peerCommit id block =>
    w.setPeer id { w.peers id with store := ((w.peers id).store.writeBlock block).2 }
  | .resetState =>
    { w with node := { w.node with synchronizer := w.node.synchronizer.resetState } }

def own (w : SyncWorld) : List DataBlock := chainOf w.node.store

def chain (w : SyncWorld) (id : NodeId) : List DataBlock := chainOf (w.peers id).store

/-- The chains of the nodes that are honest. -/
def chains (w : SyncWorld) (honest : NodeId → Bool) (id : NodeId) : Option (List DataBlock) :=
  if honest id then some (w.chain id) else none

end SyncWorld

/-- A block that can be committed on top of a chain. -/
structure NextBlock (chain : List DataBlock) (b : DataBlock) : Prop where
  wellFormed : WellFormed b
  headerFits : b.header.wholeData.length < 2^32
  offset : b.offset = endOf chain

/-- The world of a node among honest nodes whose chains are not forked. -/
structure WorldFits (honest : NodeId → Bool) (w : SyncWorld) : Prop where
  node : NodeFits (w.chains honest) w.own ⟨w.node.synchronizer, .new ⟨none⟩, w.node.store⟩
  consistent : w.node.synchronizer.Consistent
  peers : ∀ id, honest id = true → Holds (w.peers id).store (w.chain id) ∧
    HonestChain (w.chain id)
  unforked : ∀ id, honest id = true → Unforked w.own (w.chain id)
  peersUnforked : ∀ id id', honest id = true → honest id' = true →
    Unforked (w.chain id) (w.chain id')
  requests : ∀ id request, (id, request) ∈ w.requests → honest id = true →
    RequestFits (w.chain id) request
  responses : ∀ id response, (id, response) ∈ w.responses → honest id = true →
    HonestResponse (w.chain id) response

/-- The steps of a world: blocks are committed on top of their chains and do not fork them,
and only an honest node is trusted as the lead node. -/
def WorldStep.Fits (honest : NodeId → Bool) (w : SyncWorld) : WorldStep → Prop
  | .deliver _ index => ∀ id response, w.responses[index]? = some (id, response) →
    w.node.synchronizer.leader = some id → honest id = true
  | .foreign _ fromNode _ => honest fromNode = false ∧ w.node.synchronizer.leader ≠ some fromNode
  | .commit block => NextBlock w.own block ∧
    ∀ id, honest id = true → Unforked (w.own ++ [block]) (w.chain id)
  | .peerCommit id block => honest id = true → NextBlock (w.chain id) block ∧
    Unforked w.own (w.chain id ++ [block]) ∧
    ∀ id', id' ≠ id → honest id' = true → Unforked (w.chain id ++ [block]) (w.chain id')
  | _ => True

section Steps
variable {honest : NodeId → Bool} {w : SyncWorld}

theorem chains_eq_some_iff (id : NodeId) (chain : List DataBlock) :
    w.chains honest id = some chain ↔ honest id = true ∧ w.chain id = chain := by
  rw [SyncWorld.chains]
  split_ifs with h <;> simp [h]

theorem WorldFits.chainsFit (h : WorldFits honest w) (id : NodeId) (chain : List DataBlock)
    (hchain : w.chains honest id = some chain) : HonestChain chain ∧ Unforked w.own chain := by
  obtain ⟨hid, rfl⟩ := (chains_eq_some_iff id chain).mp hchain
  exact ⟨(h.peers id hid).2, h.unforked id hid⟩

/-- A call that leaves a node that fits, with a chain that goes on along one of the others. -/
theorem call_fits (h : WorldFits honest w)
    (x : Action (ChainSyncState DirectoryChainStore) EngineError Unit) (own' : List DataBlock)
    (hx : NodeFits (w.chains honest) own' (x ⟨w.node.synchronizer, .new ⟨none⟩, w.node.store⟩).2)
    (hconsistent : (x ⟨w.node.synchronizer, .new ⟨none⟩, w.node.store⟩).2.synchronizer.Consistent)
    (halong : own' = w.own ∨ ∃ id, honest id = true ∧ own' <+: w.chain id) :
    WorldFits honest (w.call x) ∧ (w.call x).own = own' ∧
      (w.call x).peers = w.peers ∧
      (w.call x).node.synchronizer =
        (x ⟨w.node.synchronizer, .new ⟨none⟩, w.node.store⟩).2.synchronizer := by
  have hunforked : ∀ id, honest id = true → Unforked own' (w.chain id) := by
    intro id hid
    rcases halong with rfl | ⟨id', hid', hpre⟩
    · exact h.unforked id hid
    · -- both go along the chain of one node, or that one is longer still
      rcases h.peersUnforked id' id hid' hid with hle | hle
      · exact Or.inl (hpre.trans hle)
      · exact List.prefix_or_prefix_of_prefix hpre hle
  generalize hrun : x ⟨w.node.synchronizer, .new ⟨none⟩, w.node.store⟩ = result at hx hconsistent
  obtain ⟨r, s⟩ := result
  have hown : chainOf s.store = own' := hx.holds.chainOf_eq
  have hnode : NodeFits (w.chains honest) own' ⟨s.synchronizer, .new ⟨none⟩, s.store⟩ :=
    ⟨hx.holds, hx.headerFits, hx.keyed, hx.infos, fun m hm => by simp [SyncContext.new] at hm⟩
  have hcall : w.node.call x = (r, s.syncContext.messages, ⟨s.synchronizer, s.store⟩) := by
    rw [ChainSyncNode.call, hrun]
  rw [SyncWorld.call, hcall]
  cases r with
  | error e =>
    refine ⟨⟨?_, hconsistent, h.peers, ?_, h.peersUnforked, h.requests, h.responses⟩, hown, rfl,
      rfl⟩
    · rw [SyncWorld.own, hown]
      exact hnode
    · intro id hid
      rw [SyncWorld.own, hown]
      exact hunforked id hid
  | ok _ =>
    refine ⟨⟨?_, hconsistent, h.peers, ?_, h.peersUnforked, ?_, h.responses⟩, hown, rfl, rfl⟩
    · rw [SyncWorld.own, hown]
      exact hnode
    · intro id hid
      rw [SyncWorld.own, hown]
      exact hunforked id hid
    · intro id request hmem hid
      rcases List.mem_append.mp hmem with hold | hnew
      · exact h.requests id request hold hid
      · obtain ⟨message, hmessage, hsent⟩ := List.mem_filterMap.mp hnew
        have hfits := hx.messages message hmessage
        cases message with
        | chainSyncRequest id' request' =>
          obtain ⟨rfl, rfl⟩ := Prod.mk.inj (Option.some.inj hsent)
          exact hfits (w.chain id') ((chains_eq_some_iff id' _).mpr ⟨hid, rfl⟩)
        | pendingSyncRequest id' request' => simp [sentRequest] at hsent
        | chainSyncResponse id' response' => simp [sentRequest] at hsent

/-- An honest node whose chain grows, with responses that were made from it. -/
theorem setPeer_fits (h : WorldFits honest w) (id : NodeId)
    (peer : ChainSyncNode DirectoryChainStore) (sent : List (NodeId × ChainSyncResponse))
    (hpeer : honest id = true → Holds peer.store (chainOf peer.store) ∧
      HonestChain (chainOf peer.store) ∧ w.chain id <+: chainOf peer.store)
    (hown : honest id = true → Unforked w.own (chainOf peer.store))
    (hothers : ∀ id', id' ≠ id → honest id = true → honest id' = true →
      Unforked (chainOf peer.store) (w.chain id'))
    (hsent : ∀ id' response, (id', response) ∈ sent → id' = id ∧
      (honest id = true → HonestResponse (chainOf peer.store) response)) :
    WorldFits honest { w.setPeer id peer with responses := w.responses ++ sent } := by
  -- the chain of every node is the one before, or goes on from it
  have hchain : ∀ id', ({ w.setPeer id peer with
      responses := w.responses ++ sent } : SyncWorld).chain id' =
        if id' = id then chainOf peer.store else w.chain id' := by
    intro id'
    rw [SyncWorld.chain, SyncWorld.setPeer]
    simp only [Function.update_apply]
    split_ifs <;> rfl
  have hgrows : ∀ id', honest id' = true → w.chain id' <+: ({ w.setPeer id peer with
      responses := w.responses ++ sent } : SyncWorld).chain id' := by
    intro id' hid'
    rw [hchain]
    split_ifs with heq
    · rw [heq] at hid' ⊢
      exact (hpeer hid').2.2
    · exact List.prefix_rfl
  refine ⟨?_, h.consistent, ?_, ?_, ?_, ?_, ?_⟩
  · refine ⟨h.node.holds, h.node.headerFits, h.node.keyed, ?_, fun m hm => by
      simp [SyncContext.new] at hm⟩
    intro id' chain hid'
    obtain ⟨hhonest, rfl⟩ := (chains_eq_some_iff id' chain).mp hid'
    exact (h.node.infos id' (w.chain id') ((chains_eq_some_iff id' _).mpr ⟨hhonest, rfl⟩)).mono
      List.prefix_rfl (hgrows id' hhonest)
  · intro id' hid'
    rw [hchain]
    by_cases heq : id' = id
    · rw [if_pos heq]
      rw [heq] at hid' ⊢
      simp only [SyncWorld.setPeer, Function.update_self]
      exact ⟨(hpeer hid').1, (hpeer hid').2.1⟩
    · rw [if_neg heq]
      simp only [SyncWorld.setPeer, Function.update_of_ne heq]
      exact h.peers id' hid'
  · intro id' hid'
    rw [hchain]
    split_ifs with heq
    · rw [heq] at hid'
      exact hown hid'
    · exact h.unforked id' hid'
  · intro a b ha hb
    rw [hchain, hchain]
    by_cases hea : a = id <;> by_cases heb : b = id
    · rw [if_pos hea, if_pos heb]
      exact Or.inl List.prefix_rfl
    · rw [if_pos hea, if_neg heb]
      rw [hea] at ha
      exact hothers b heb ha hb
    · rw [if_neg hea, if_pos heb]
      rw [heb] at hb
      exact (hothers a hea hb ha).symm
    · rw [if_neg hea, if_neg heb]
      exact h.peersUnforked a b ha hb
  · intro id' request hmem hid'
    exact (h.requests id' request hmem hid').mono (hgrows id' hid')
  · intro id' response hmem hid'
    rcases List.mem_append.mp hmem with hold | hnew
    · exact (h.responses id' response hold hid').mono (hgrows id' hid')
    · obtain ⟨rfl, hresponse⟩ := hsent id' response hnew
      rw [hchain, if_pos rfl]
      exact hresponse hid'

theorem answer_fits (h : WorldFits honest w) (overflowChecks : Bool) (id : NodeId)
    (request : ChainSyncRequest) (hrequest : honest id = true → RequestFits (w.chain id) request) :
    WorldFits honest (w.answer overflowChecks id request) := by
  have hquiet := ChainSynchronizer.handleSyncRequest_quiet overflowChecks
    w.node.synchronizer.cell.localNode (some request)
    (⟨(w.peers id).synchronizer, .new ⟨none⟩, (w.peers id).store⟩ :
      ChainSyncState DirectoryChainStore)
  have hmessages : honest id = true → _ := fun hid =>
    handleSyncRequest_honest overflowChecks w.node.synchronizer.cell.localNode request
      ⟨(w.peers id).synchronizer, .new ⟨none⟩, (w.peers id).store⟩ (w.chain id)
      (h.peers id hid).1 (hrequest hid)
  rw [SyncWorld.answer, ChainSyncNode.call]
  generalize ChainSynchronizer.handleSyncRequest overflowChecks
    w.node.synchronizer.cell.localNode (some request)
    (⟨(w.peers id).synchronizer, .new ⟨none⟩, (w.peers id).store⟩ :
      ChainSyncState DirectoryChainStore) = result at hquiet hmessages
  obtain ⟨r, s⟩ := result
  have hstore : s.store = (w.peers id).store := hquiet.store
  have hsame : chainOf s.store = w.chain id := by rw [hstore]; rfl
  have hset : ∀ sent, (∀ id' response, (id', response) ∈ sent → id' = id ∧
      (honest id = true → HonestResponse (w.chain id) response)) →
      WorldFits honest { w.setPeer id ⟨s.synchronizer, s.store⟩ with
        responses := w.responses ++ sent } := by
    intro sent hsent
    refine setPeer_fits h id ⟨s.synchronizer, s.store⟩ sent ?_ ?_ ?_ ?_ <;> simp only [hsame]
    · intro hid
      rw [hstore]
      exact ⟨(h.peers id hid).1, (h.peers id hid).2, List.prefix_rfl⟩
    · exact h.unforked id
    · exact fun id' _ hid hid' => h.peersUnforked id id' hid hid'
    · exact hsent
  cases r with
  | error e =>
    have hnone := hset [] (fun _ _ hmem => by simp at hmem)
    rw [List.append_nil] at hnone
    exact hnone
  | ok _ =>
    refine hset _ ?_
    intro id' response hmem
    obtain ⟨message, hmessage, hsent⟩ := List.mem_filterMap.mp hmem
    cases message with
    | chainSyncResponse receiver response' =>
      obtain ⟨rfl, rfl⟩ := Prod.mk.inj (Option.some.inj hsent)
      refine ⟨rfl, fun hid => ?_⟩
      rcases hmessages hid _ hmessage with hold | ⟨response, heq, hresponse⟩
      · simp [SyncContext.new] at hold
      · obtain ⟨-, rfl⟩ := SyncContextMessage.chainSyncResponse.inj heq
        exact hresponse
    | pendingSyncRequest receiver request' => simp [sentResponse] at hsent
    | chainSyncRequest receiver request' => simp [sentResponse] at hsent

theorem nextBlock_write {s : DirectoryChainStore} {chain : List DataBlock} (h : Holds s chain)
    (hfits : ∀ b ∈ chain, b.header.wholeData.length < 2^32) (b : DataBlock)
    (hb : NextBlock chain b) :
    Holds (s.writeBlock b).2 (chain ++ [b]) ∧ HonestChain (chain ++ [b]) := by
  have hholds := (h.writeBlock b hb.wellFormed hb.offset).2
  refine ⟨hholds, hholds.linked, hholds.wellFormed, ?_⟩
  intro c hc
  rcases List.mem_append.mp hc with hc | hc
  · exact hfits c hc
  · rw [List.mem_singleton.mp hc]
    exact hb.headerFits

/-- What a step does to the chain of the node: nothing, or it goes on, along a chain of the
lead node or with a commit. -/
def OwnStep (honest : NodeId → Bool) (w w' : SyncWorld) (a : WorldStep) : Prop :=
  w'.own = w.own ∨
    (∃ lead, w.node.synchronizer.leader = some lead ∧ honest lead = true ∧ w.own <+: w'.own ∧
      w'.own <+: w.chain lead) ∨
    ∃ block, a = .commit block ∧ w'.own = w.own ++ [block]

theorem answer_own (overflowChecks : Bool) (id : NodeId) (request : ChainSyncRequest) :
    (w.answer overflowChecks id request).own = w.own := by
  rw [SyncWorld.answer]
  rcases (w.peers id).call (ChainSynchronizer.handleSyncRequest overflowChecks
    w.node.synchronizer.cell.localNode (some request)) with ⟨_ | _, messages, peer⟩ <;> rfl

/-- An answer does not change the chain it is read from. -/
theorem answer_chain (overflowChecks : Bool) (id id' : NodeId) (request : ChainSyncRequest) :
    (w.answer overflowChecks id request).chain id' = w.chain id' := by
  have hquiet := ChainSynchronizer.handleSyncRequest_quiet overflowChecks
    w.node.synchronizer.cell.localNode (some request)
    (⟨(w.peers id).synchronizer, .new ⟨none⟩, (w.peers id).store⟩ :
      ChainSyncState DirectoryChainStore)
  rw [SyncWorld.answer, ChainSyncNode.call]
  generalize ChainSynchronizer.handleSyncRequest overflowChecks
    w.node.synchronizer.cell.localNode (some request)
    (⟨(w.peers id).synchronizer, .new ⟨none⟩, (w.peers id).store⟩ :
      ChainSyncState DirectoryChainStore) = result at hquiet
  obtain ⟨r, s⟩ := result
  have hset : chainOf (Function.update w.peers id ⟨s.synchronizer, s.store⟩ id').store =
      w.chain id' := by
    rw [Function.update_apply]
    split_ifs with heq
    · rw [heq]
      exact congrArg chainOf hquiet.store
    · rfl
  cases r <;> exact hset

theorem response_fits (h : WorldFits honest w) (overflowChecks : Bool) (fromNode : NodeId)
    (response : Option ChainSyncResponse) (a : WorldStep)
    (hresponse : ∀ r, response = some r → ResponseFits (w.chains honest) fromNode r)
    (hlead : w.node.synchronizer.leader = some fromNode → honest fromNode = true) :
    WorldFits honest
        (w.call (ChainSynchronizer.handleSyncResponse overflowChecks fromNode response)) ∧
      OwnStep honest w
        (w.call (ChainSynchronizer.handleSyncResponse overflowChecks fromNode response)) a ∧
      ∀ id, honest id = true → w.chain id <+:
        (w.call (ChainSynchronizer.handleSyncResponse overflowChecks fromNode response)).chain
          id := by
  obtain ⟨own', hfits, hgrows, halong⟩ := handleSyncResponse_fits h.node h.chainsFit overflowChecks
    fromNode response hresponse
    fun hl => ⟨w.chain fromNode, (chains_eq_some_iff fromNode _).mpr ⟨hlead hl, rfl⟩⟩
  have halong' : own' = w.own ∨ ∃ id, honest id = true ∧ own' <+: w.chain id := by
    rcases halong with heq | ⟨chain, -, hchain, hpre⟩
    · exact Or.inl heq
    · obtain ⟨hid, rfl⟩ := (chains_eq_some_iff fromNode chain).mp hchain
      exact Or.inr ⟨fromNode, hid, hpre⟩
  obtain ⟨hworld, hown, hpeers, -⟩ := call_fits h _ own' hfits
    (ChainSynchronizer.handleSyncResponse_consistent overflowChecks fromNode response _
      h.consistent) halong'
  refine ⟨hworld, ?_, ?_⟩
  · rw [OwnStep, hown]
    rcases halong with heq | ⟨chain, hl, hchain, hpre⟩
    · exact Or.inl heq
    · obtain ⟨hid, rfl⟩ := (chains_eq_some_iff fromNode chain).mp hchain
      exact Or.inr (Or.inl ⟨fromNode, hl, hid, hgrows, hpre⟩)
  · intro id _
    rw [SyncWorld.chain, SyncWorld.chain, hpeers]

/-- Requests for its metadata do not change a node. -/
theorem syncRequest_fits (h : WorldFits honest w) (overflowChecks : Bool) (fromNode : NodeId)
    (request : Option ChainSyncRequest) :
    WorldFits honest (w.step (.syncRequest overflowChecks fromNode request)) ∧
      OwnStep honest w (w.step (.syncRequest overflowChecks fromNode request))
        (.syncRequest overflowChecks fromNode request) ∧
      ∀ id, honest id = true →
        w.chain id <+: (w.step (.syncRequest overflowChecks fromNode request)).chain id := by
  have hquiet := ChainSynchronizer.handleSyncRequest_quiet overflowChecks fromNode request
    (⟨w.node.synchronizer, .new ⟨none⟩, w.node.store⟩ : ChainSyncState DirectoryChainStore)
  have hfits : NodeFits (w.chains honest) w.own (ChainSynchronizer.handleSyncRequest
      overflowChecks fromNode request ⟨w.node.synchronizer, .new ⟨none⟩, w.node.store⟩).2 := by
    refine ⟨hquiet.store ▸ h.node.holds, h.node.headerFits, hquiet.infos.keyed h.node.keyed, ?_,
      ?_⟩
    · intro id chain hchain
      rw [hquiet.infos.infos]
      exact h.node.infos id chain hchain
    · intro message hmessage
      rcases ChainSynchronizer.handleSyncRequest_messages overflowChecks fromNode request
        (⟨w.node.synchronizer, .new ⟨none⟩, w.node.store⟩ :
          ChainSyncState DirectoryChainStore) with hsame | ⟨response, hpush⟩
      · rw [hsame] at hmessage
        exact h.node.messages message hmessage
      · rw [hpush] at hmessage
        rw [List.mem_singleton.mp hmessage]
        trivial
  obtain ⟨hworld, hown, hpeers, -⟩ := call_fits h _ w.own hfits (hquiet.consistent h.consistent)
    (Or.inl rfl)
  exact ⟨hworld, Or.inl hown, fun id _ => by
    rw [SyncWorld.chain, SyncWorld.chain, SyncWorld.step, hpeers]⟩

theorem commit_fits (h : WorldFits honest w) (block : DataBlock)
    (ha : WorldStep.Fits honest w (.commit block)) :
    WorldFits honest (w.step (.commit block)) ∧
      OwnStep honest w (w.step (.commit block)) (.commit block) ∧
      ∀ id, honest id = true → w.chain id <+: (w.step (.commit block)).chain id := by
  obtain ⟨hnext, hunforked⟩ := ha
  obtain ⟨hholds, hown⟩ := nextBlock_write h.node.holds h.node.headerFits block hnext
  have hchain : (w.step (.commit block)).own = w.own ++ [block] := hholds.chainOf_eq
  refine ⟨⟨?_, h.consistent, h.peers, ?_, h.peersUnforked, h.requests, h.responses⟩,
    Or.inr (Or.inr ⟨block, rfl, hchain⟩), fun _ _ => List.prefix_rfl⟩
  · rw [hchain]
    refine ⟨hholds, hown.headerFits, h.node.keyed, ?_, h.node.messages⟩
    intro id chain hid
    exact (h.node.infos id chain hid).mono (List.prefix_append _ _) List.prefix_rfl
  · intro id hid
    rw [hchain]
    exact hunforked id hid

theorem peerCommit_fits (h : WorldFits honest w) (id : NodeId) (block : DataBlock)
    (ha : WorldStep.Fits honest w (.peerCommit id block)) :
    WorldFits honest (w.step (.peerCommit id block)) ∧
      OwnStep honest w (w.step (.peerCommit id block)) (.peerCommit id block) ∧
      ∀ id', honest id' = true → w.chain id' <+: (w.step (.peerCommit id block)).chain id' := by
  have hwrite : honest id = true → Holds ((w.peers id).store.writeBlock block).2
      (w.chain id ++ [block]) ∧ HonestChain (w.chain id ++ [block]) := fun hid =>
    nextBlock_write (h.peers id hid).1 (h.peers id hid).2.headerFits block (ha hid).1
  have hchain : honest id = true →
      chainOf ((w.peers id).store.writeBlock block).2 = w.chain id ++ [block] :=
    fun hid => (hwrite hid).1.chainOf_eq
  have hset := setPeer_fits h id
    { w.peers id with store := ((w.peers id).store.writeBlock block).2 } []
    (fun hid => by
      simp only [hchain hid]
      exact ⟨(hwrite hid).1, (hwrite hid).2, List.prefix_append _ _⟩)
    (fun hid => by
      simp only [hchain hid]
      exact (ha hid).2.1)
    (fun id' hne hid hid' => by
      simp only [hchain hid]
      exact (ha hid).2.2 id' hne hid')
    (fun _ _ hmem => by simp at hmem)
  rw [List.append_nil] at hset
  refine ⟨hset, Or.inl rfl, ?_⟩
  intro id' hid'
  simp only [SyncWorld.chain, SyncWorld.step, SyncWorld.setPeer, Function.update_apply]
  split_ifs with heq
  · rw [heq] at hid' ⊢
    simp only [hchain hid']
    exact List.prefix_append _ _
  · exact List.prefix_rfl

/-- Every step keeps the world fitting, and the chains only grow. -/
theorem step_fits (h : WorldFits honest w) (a : WorldStep) (ha : a.Fits honest w) :
    WorldFits honest (w.step a) ∧ OwnStep honest w (w.step a) a ∧
      ∀ id, honest id = true → w.chain id <+: (w.step a).chain id := by
  have hchains := h.chainsFit
  have hhonest : ∀ id chain, w.chains honest id = some chain → HonestChain chain :=
    fun id chain hchain => (hchains id chain hchain).1
  cases a with
  | tick i =>
    obtain ⟨hfits, hown, hpeers, -⟩ := call_fits h (ChainSynchronizer.tick i) w.own
      (tick_fits h.node hhonest i) (ChainSynchronizer.tick_consistent i _ h.consistent).1
      (Or.inl rfl)
    refine ⟨hfits, Or.inl hown, fun id _ => ?_⟩
    rw [SyncWorld.chain, SyncWorld.chain, SyncWorld.step, hpeers]
  | syncRequest overflowChecks fromNode request =>
    exact syncRequest_fits h overflowChecks fromNode request
  | answer overflowChecks index =>
    rw [SyncWorld.step]
    cases hindex : w.requests[index]? with
    | none => exact ⟨h, Or.inl rfl, fun _ _ => List.prefix_rfl⟩
    | some sent =>
      obtain ⟨id, request⟩ := sent
      have hmem := List.mem_of_getElem? hindex
      refine ⟨answer_fits h overflowChecks id request (h.requests id request hmem),
        Or.inl (answer_own overflowChecks id request), ?_⟩
      intro id' _
      rw [answer_chain]
  | deliver overflowChecks index =>
    rw [SyncWorld.step]
    cases hindex : w.responses[index]? with
    | none => exact ⟨h, Or.inl rfl, fun _ _ => List.prefix_rfl⟩
    | some sent =>
      obtain ⟨id, response⟩ := sent
      have hmem := List.mem_of_getElem? hindex
      refine response_fits h overflowChecks id (some response) _ ?_ (ha id response hindex)
      intro r hr chain hchain
      obtain ⟨hid, rfl⟩ := (chains_eq_some_iff id chain).mp hchain
      rw [← Option.some.inj hr]
      exact h.responses id response hmem hid
  | foreign overflowChecks fromNode response =>
    refine response_fits h overflowChecks fromNode response _ ?_ (fun hlead => absurd hlead ha.2)
    intro r _ chain hchain
    obtain ⟨hid, -⟩ := (chains_eq_some_iff fromNode chain).mp hchain
    rw [ha.1] at hid
    contradiction
  | commit block => exact commit_fits h block ha
  | peerCommit id block => exact peerCommit_fits h id block ha
  | resetState =>
    refine ⟨⟨?_, ChainSynchronizer.consistent_resetState _, h.peers, h.unforked, h.peersUnforked,
      h.requests, h.responses⟩, Or.inl rfl, fun _ _ => List.prefix_rfl⟩
    refine ⟨h.node.holds, h.node.headerFits, fun _ => rfl, ?_, h.node.messages⟩
    intro id chain _
    exact infoFits_new _ _ id

end Steps

end Exocore.Engine
