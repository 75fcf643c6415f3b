import Exocore.ChainBuild
import Exocore.ChainMessages
import Exocore.ChainRunsReads
import Exocore.CommitSteps
import Exocore.EngineNode
import Exocore.PendingGroups
import Exocore.PendingSyncNewOperation

/-! Whose signatures a commit counts. -/
namespace Exocore.Engine

open Exocore.Core Exocore.Chain Exocore.Pending SortedMap

section Nodes

def IsChainNode (cell : Cell) (n : NodeId) : Prop := ∃ c, cell.get n = some c ∧ c.hasRole .chain

instance (cell : Cell) (n : NodeId) : Decidable (IsChainNode cell n) :=
  decidable_of_iff ((cell.get n).any fun c => c.hasRole .chain) (by
    rw [IsChainNode, Option.any_eq_true])

/-- More than half of the chain nodes have signed, each counted once. -/
def ChainQuorum (cell : Cell) (signed : NodeId → Prop) : Prop :=
  ∃ q : Finset NodeId, (∀ n ∈ q, IsChainNode cell n ∧ signed n) ∧
    cell.countWithRole .chain < 2 * q.card

/-- Signatures of distinct chain nodes make a quorum of them. -/
theorem chainQuorum_of_signatures (cell : Cell) (signed : NodeId → Prop) (nodes : List NodeId)
    (hnodup : nodes.Nodup) (hchain : ∀ n ∈ nodes, IsChainNode cell n ∧ signed n)
    (hquorum : cell.hasQuorum nodes.length (some .chain) = true) : ChainQuorum cell signed := by
  obtain ⟨-, hcount⟩ := (hasQuorum_chain_iff cell nodes.length).mp hquorum
  refine ⟨nodes.toFinset, ?_, ?_⟩
  · intro n hn
    exact hchain n (List.mem_toFinset.mp hn)
  · rw [List.toFinset_card_of_nodup hnodup]
    exact hcount

theorem isChainNode_localNode (cell : Cell) (h : cell.localNodeHasRole .chain = true) :
    IsChainNode cell cell.localNode := by
  unfold Cell.localNodeHasRole at h
  split at h
  · rename_i n hn
    exact ⟨n, hn, h⟩
  · contradiction

end Nodes

section Signing
variable [Crates] {CS : Type} [ChainStore CS]

theorem createBlockSignature_eq_ok (hread : OperationsReadBack) (node : NodeId)
    (hnode : NodeIdReadsBack node) (time : ℕ) (block signed : PendingBlock) (op : NewOperation)
    (h : createBlockSignature node time block = .ok (op, signed)) :
    op.frame.frame.reader =
        some (OperationBuilder.newSignatureForBlock block.groupId time node).message ∧
      signed = block.addMySignature ⟨node, emptySignature⟩ := by
  simp only [createBlockSignature, bind_eq_ok_iff, liftError_eq_ok_iff, pure, Except.pure,
    Except.ok.injEq, Prod.mk.injEq] at h
  obtain ⟨frame, -, built, hbuilt, reader, hreader, signature, hsig, rfl, rfl⟩ := h
  obtain ⟨-, hmessage⟩ := signAndBuild_eq_ok hread _ built hbuilt
  refine ⟨hmessage, ?_⟩
  simp only [OperationFrame.getReader, hmessage, orError_some, Except.ok.injEq] at hreader
  subst hreader
  have hparse : Crates.nodeIdFromStr node.str = some node := hnode
  simp only [OperationBuilder.newSignatureForBlock, PendingBlockSignature.fromOperation,
    orError_some, ok_bind, readNodeId, hparse, pure, Except.pure, Except.ok.injEq] at hsig
  rw [← hsig]

theorem createBlockRefusal_eq_ok (hread : OperationsReadBack) (node : NodeId)
    (hnode : NodeIdReadsBack node) (time : ℕ) (block refused : PendingBlock) (op : NewOperation)
    (h : createBlockRefusal node time block = .ok (op, refused)) :
    op.frame.frame.reader =
        some (OperationBuilder.newRefusal block.groupId time node).message ∧
      refused = block.addMyRefusal ⟨node⟩ := by
  simp only [createBlockRefusal, bind_eq_ok_iff, liftError_eq_ok_iff, pure, Except.pure,
    Except.ok.injEq, Prod.mk.injEq] at h
  obtain ⟨built, hbuilt, reader, hreader, refusal, href, rfl, rfl⟩ := h
  obtain ⟨-, hmessage⟩ := signAndBuild_eq_ok hread _ built hbuilt
  refine ⟨hmessage, ?_⟩
  simp only [OperationFrame.getReader, hmessage, orError_some, Except.ok.injEq] at hreader
  subst hreader
  have hparse : Crates.nodeIdFromStr node.str = some node := hnode
  simp only [OperationBuilder.newRefusal, PendingBlockRefusal.fromOperation, orError_some,
    readNodeId, hparse, ok_bind, pure, Except.pure, Except.ok.injEq] at href
  rw [← href]

theorem buildProposal_reader (hread : OperationsReadBack) (m : CommitManager) (i : TickInput)
    (pb : PendingBlocks) (store : MemoryPendingStore) (chain : CS) (op : NewOperation)
    (h : m.buildProposal i pb store chain = .ok (some op)) :
    ∃ reader, op.frame.frame.reader = some reader ∧ reader.operationId = i.proposalTime := by
  simp only [CommitManager.buildProposal, bind_eq_ok_iff] at h
  obtain ⟨_, -, _, -, _, -, _, -, _, -, _, -, _, -, _, -, h⟩ := h
  split_ifs at h
  · exact absurd (Except.ok.inj h) (by simp)
  · simp only [bind_eq_ok_iff, liftError_eq_ok_iff] at h
    obtain ⟨built, hbuilt, hsome⟩ := h
    obtain rfl := Option.some.inj (Except.ok.inj hsome)
    exact ⟨_, (signAndBuild_eq_ok hread _ _ hbuilt).2, rfl⟩

/-- The block that comes out of the signing: as it was, signed, or refused. -/
inductive SignOutcome (m : CommitManager) (p : PendingSynchronizer) (i : TickInput)
    (pb : PendingBlocks) (next : PendingBlock) (s : CommitState CS) :
    PendingBlock → CommitState CS → Prop where
  | same : SignOutcome m p i pb next s next s
  | signed (op : NewOperation) (block : PendingBlock) (s₁ : CommitState CS)
      (mine : next.hasMySignature = false ∧ next.hasMyRefusal = false)
      (check : checkShouldSignBlock pb s.chainStore s.pendingStore i.operationBlocksOrder
        next.groupId = .ok true)
      (created : createBlockSignature m.cell.localNode i.signatureTime next = .ok (op, block))
      (put : onPending (p.handleNewOperation op) s = (.ok (), s₁)) :
      SignOutcome m p i pb next s block s₁
  | refused (op : NewOperation) (block : PendingBlock) (s₁ : CommitState CS)
      (mine : next.hasMySignature = false ∧ next.hasMyRefusal = false)
      (created : createBlockRefusal m.cell.localNode i.signatureTime next = .ok (op, block))
      (put : onPending (p.handleNewOperation op) s = (.ok (), s₁)) :
      SignOutcome m p i pb next s block s₁

theorem signNextBlock_eq_ok (m : CommitManager) (p : PendingSynchronizer) (i : TickInput)
    (pb : PendingBlocks) (next block : PendingBlock) (s s₁ : CommitState CS)
    (h : m.signNextBlock p i pb next s = (.ok block, s₁)) :
    SignOutcome m p i pb next s block s₁ := by
  rcases signNextBlock_cases m p i pb next s with
    hsame | ⟨hsignature, hrefusal, ⟨e, -, herror⟩ | ⟨sign, hcheck, hanswer⟩⟩
  · rw [hsame] at h
    obtain ⟨hb, rfl⟩ := Prod.mk.inj h
    obtain rfl := Except.ok.inj hb
    exact .same
  · rw [herror] at h
    cases congrArg Prod.fst h
  · rw [hanswer] at h
    obtain ⟨⟨op, b⟩, s', hcreate, h⟩ := Action.bind_eq_ok _ _ _ _ _ h
    obtain ⟨hop, rfl⟩ := Prod.mk.inj hcreate
    obtain ⟨u, s'', hput, h⟩ := Action.bind_eq_ok _ _ _ _ _ h
    obtain ⟨hb, rfl⟩ := Prod.mk.inj h
    obtain rfl := Except.ok.inj hb
    cases sign with
    | true => exact .signed op _ _ ⟨hsignature, hrefusal⟩ hcheck hop hput
    | false => exact .refused op _ _ ⟨hsignature, hrefusal⟩ hop hput

end Signing

section Quorum
variable [Crates]

/-- Nodes with a signature in the group. -/
def signers (store : MemoryPendingStore) (groupId : ℕ) : List NodeId :=
  (((store.getGroupOperations groupId).getD []).filterMap signatureOf).map
    PendingBlockSignature.nodeId

/-- The signatures of a group that come from nodes of the cell come from chain nodes, one
from each. -/
def SignedOnce (cell : Cell) (store : MemoryPendingStore) (groupId : ℕ) : Prop :=
  ((signers store groupId).filter fun n => (cell.get n).isSome).Nodup ∧
    ∀ n ∈ signers store groupId, (cell.get n).isSome → IsChainNode cell n

instance (cell : Cell) (store : MemoryPendingStore) (groupId : ℕ) :
    Decidable (SignedOnce cell store groupId) := inferInstanceAs (Decidable (_ ∧ _))

/-- Only the groups of the store have signatures. -/
theorem signedOnce_of_groups (cell : Cell) (store : MemoryPendingStore)
    (h : ∀ g ∈ store.groupsOperations.keys, SignedOnce cell store g) (g : ℕ) :
    SignedOnce cell store g := by
  by_cases hg : g ∈ store.groupsOperations.keys
  · exact h g hg
  · have hnone : store.groupsOperations.get g = none := by
      cases hget : store.groupsOperations.get g with
      | none => rfl
      | some ops => exact absurd ((Map.mem_keys_iff _ _).mpr ⟨ops, hget⟩) hg
    have hnil : signers store g = [] := by
      simp [signers, MemoryPendingStore.getGroupOperations, hnone]
    rw [SignedOnce, hnil]
    simp

/-- Without a readable header no signature is valid; else those of the nodes of the cell are. -/
theorem map_filter_validateSignature (block : PendingBlock) (cell : Cell)
    (frame : BlockHeaderFrame) (hframe : block.proposal.getBlock = .ok frame)
    (sigs : List PendingBlockSignature) :
    (sigs.filter (block.validateSignature cell)).map PendingBlockSignature.nodeId =
      (sigs.map PendingBlockSignature.nodeId).filter fun n => (cell.get n).isSome := by
  rw [List.filter_map]
  congr 1
  apply List.filter_congr
  intro sig _
  simp only [PendingBlock.validateSignature, hframe, Function.comp_apply]
  cases cell.get sig.nodeId <;> rfl

theorem mem_signers_of_groupFrame (store : MemoryPendingStore) (groupId id : ℕ)
    (f : OperationFrame) (sig : PendingBlockSignature) (reader : ChainOperation)
    (hf : store.groupFrame groupId id = some f) (hr : f.frame.reader = some reader)
    (hsig : PendingBlockSignature.fromOperation reader = .ok sig) :
    sig.nodeId ∈ signers store groupId := by
  obtain ⟨ops, hops, op, hop, -, rfl⟩ := store.getGroupOperations_of_groupFrame groupId id f hf
  rw [signers, hops]
  apply List.mem_map_of_mem
  refine List.mem_filterMap.mpr ⟨op, hop, ?_⟩
  simp [signatureOf, hr, hsig]

variable {CS : Type} [ChainStore CS]

omit [ChainStore CS] in
/-- After it was put, the signature stands in the group of the block. -/
theorem localNode_mem_signers (hread : OperationsReadBack) (p : PendingSynchronizer)
    (node : NodeId) (hnode : NodeIdReadsBack node) (time : ℕ) (block signed : PendingBlock)
    (op : NewOperation) (s s₁ : CommitState CS)
    (h : createBlockSignature node time block = .ok (op, signed))
    (hput : onPending (p.handleNewOperation op) s = (.ok (), s₁)) :
    node ∈ signers s₁.pendingStore block.groupId := by
  obtain ⟨hreader, -⟩ := createBlockSignature_eq_ok hread node hnode time block signed op h
  have hstore : s₁.pendingStore =
      (p.handleNewOperation op ⟨s.syncContext, s.pendingStore⟩).2.store := by
    rw [← onPending_pendingStore, hput]
  have hok : (p.handleNewOperation op ⟨s.syncContext, s.pendingStore⟩).1 = .ok () := by
    have hfst := congrArg Prod.fst hput
    exact hfst
  rcases handleNewOperation_store p op ⟨s.syncContext, s.pendingStore⟩ with
    ⟨⟨e, he⟩, -⟩ | ⟨existed, store', hstored, hafter⟩
  · rw [hok] at he
    contradiction
  · rw [hstore, hafter]
    have hframe := MemoryPendingStore.putOperation_groupFrame _ _ op existed _ hreader hstored
      block.groupId time
    have hparse : Crates.nodeIdFromStr node.str = some node := hnode
    have hsig : PendingBlockSignature.fromOperation
        (OperationBuilder.newSignatureForBlock block.groupId time node).message =
        .ok ⟨node, emptySignature⟩ := by
      simp [OperationBuilder.newSignatureForBlock, PendingBlockSignature.fromOperation, readNodeId,
        hparse, pure, Except.pure]
    refine mem_signers_of_groupFrame _ block.groupId time op.frame _ _ ?_ hreader hsig
    rw [hframe]
    simp [OperationBuilder.newSignatureForBlock]

/-- The block that the tick signs or refuses, and may commit: the best of the next blocks. -/
def bestNextBlock (m : CommitManager) (i : TickInput) (s : CommitState CS) :
    Option (PendingBlocks × PendingBlock) :=
  match PendingBlocks.new m.config i.now m.cell s.pendingStore s.chainStore with
  | .error _ => none
  | .ok pb => match pb.potentialNextBlocks i.blocksOrder i.sorter with
    | .error _ => none
    | .ok potential => potential.head?.map fun next => (pb, next)

/-- The tick writes the block with the header of its group's proposal, and more than half of
the chain nodes have a signature in the group, from before the tick or from this tick. -/
def QuorumCommit (m : CommitManager) (p : PendingSynchronizer) (i : TickInput)
    (s : CommitState CS) : Prop :=
  ∃ pb next b, bestNextBlock m i s = some (pb, next) ∧ next.proposal.getBlock = .ok b.header ∧
    (m.tick p i s).2.chainStore = (ChainStore.writeBlock s.chainStore b).2 ∧
    ChainQuorum m.cell fun n => n ∈ signers s.pendingStore next.groupId ∨
      n ∈ signers (m.signNextBlock p i pb next s).2.pendingStore next.groupId

/-- The candidate with our signature, from before the tick or from this tick. -/
def withMySignature (m : CommitManager) (next : PendingBlock) : PendingBlock :=
  if next.hasMySignature then next
  else next.addMySignature ⟨m.cell.localNode, emptySignature⟩

/-- The candidate has our signature or gets it, and has its quorum with it. -/
structure GetsQuorum (m : CommitManager) (i : TickInput) (s : CommitState CS) (pb : PendingBlocks)
    (next : PendingBlock) : Prop where
  signs : next.hasMySignature = true ∨ next.hasMyRefusal = false ∧
    checkShouldSignBlock pb s.chainStore s.pendingStore i.operationBlocksOrder next.groupId =
      .ok true
  quorum : m.cell.hasQuorum ((withMySignature m next).signatures.filter
    ((withMySignature m next).validateSignature m.cell)).length (some .chain) = true

/-- What a tick relies on to count chain nodes when it counts the signatures of a candidate that
gets its quorum. -/
def SignersCount (m : CommitManager) (i : TickInput) (s : CommitState CS) : Prop :=
  ∀ pb next, bestNextBlock m i s = some (pb, next) → GetsQuorum m i s pb next →
    SignedOnce m.cell s.pendingStore next.groupId ∧
      (next.hasMySignature = false → m.cell.localNodeHasRole .chain = true)

/-- A candidate that comes out of the signing with our signature and its quorum. -/
theorem signed_getsQuorum (hread : OperationsReadBack) (m : CommitManager)
    (p : PendingSynchronizer) (i : TickInput) (hnode : NodeIdReadsBack m.cell.localNode)
    (pb : PendingBlocks) (next signed : PendingBlock) (s s₁ : CommitState CS)
    (hsign : m.signNextBlock p i pb next s = (.ok signed, s₁)) (hmine : signed.hasMySignature = true)
    (hquorum : m.cell.hasQuorum (signed.signatures.filter (signed.validateSignature m.cell)).length
      (some .chain) = true) :
    signed = withMySignature m next ∧ GetsQuorum m i s pb next := by
  cases signNextBlock_eq_ok m p i pb next signed s s₁ hsign with
  | same =>
    have hsame : withMySignature m next = next := if_pos hmine
    exact ⟨hsame.symm, Or.inl hmine, by rw [hsame]; exact hquorum⟩
  | refused op block s₁ hnone hcreate hput =>
    obtain ⟨-, rfl⟩ := createBlockRefusal_eq_ok hread _ hnode _ _ _ _ hcreate
    have hfalse : next.hasMySignature = true := hmine
    rw [hnone.1] at hfalse
    contradiction
  | signed op block s₁ hnone hcheck hcreate hput =>
    obtain ⟨-, rfl⟩ := createBlockSignature_eq_ok hread _ hnode _ _ _ _ hcreate
    have hadded : withMySignature m next =
        next.addMySignature ⟨m.cell.localNode, emptySignature⟩ := by
      rw [withMySignature, hnone.1]
      rfl
    exact ⟨hadded.symm, Or.inr ⟨hnone.2, hcheck⟩, by rw [hadded]; exact hquorum⟩

theorem proposal_getBlock (config : CommitManagerConfig) (now : ℕ) (cell : Cell)
    (store : MemoryPendingStore) (chain : CS) (nextOffset groupId : ℕ) (block : PendingBlock)
    (h : BlockOf config now cell store chain nextOffset groupId block) :
    ∃ frame, block.proposal.getBlock = .ok frame := by
  obtain ⟨ops, -, -, -, -, op, -, hop, header, hheader, -⟩ := h.group
  simp only [headerOf, Option.bind_eq_bind, Option.bind_eq_some_iff] at hheader
  obtain ⟨frame, hframe, -⟩ := hheader
  exact ⟨frame, (getBlock_eq_ok_iff _ _).mpr (by rw [hop]; exact hframe)⟩

theorem buildChainBlock_header (cell : Cell) (block : PendingBlock) (store : MemoryPendingStore)
    (chain : CS) (b : DataBlock) (header : BlockHeader) (ops : BlockOperations)
    (h : buildChainBlock cell block store chain = .ok (b, header, ops)) :
    block.proposal.getBlock = .ok b.header := by
  simp only [buildChainBlock, bind_eq_ok_iff] at h
  obtain ⟨frame, hframe, reader, -, operations, -, bytes, -, hash, -, blockOps, -, h⟩ := h
  split_ifs at h
  simp only [bind_eq_ok_iff, pure, Except.pure, Except.ok.injEq, Prod.mk.injEq] at h
  obtain ⟨u, -, sigs, -, rfl, -⟩ := h
  exact hframe

theorem tick_quorumCommit (hread : OperationsReadBack) (m : CommitManager)
    (p : PendingSynchronizer) (i : TickInput) (s : CommitState CS)
    (hnode : NodeIdReadsBack m.cell.localNode) (hcount : SignersCount m i s)
    (hchange : (m.tick p i s).2.chainStore ≠ s.chainStore) : QuorumCommit m p i s := by
  rcases tick_chainStore m p i s with hsame |
    ⟨pb, next, rest, signed, s₁, b, header, ops, hnew, hpot, hsign, -, hmine, hquorum, hbuild,
      hwrite⟩
  · exact absurd hsame hchange
  have hblocks := pendingBlocks_new_eq_ok _ _ _ _ _ _ hnew
  obtain ⟨⟨g, hg⟩, -⟩ := (mem_potentialNextBlocks pb _ _ _ hpot next).mp List.mem_cons_self
  obtain ⟨last, -, hof⟩ := hblocks.last
  have hnext := hof g next hg
  obtain ⟨frame, hframe⟩ := proposal_getBlock _ _ _ _ _ _ _ _ hnext
  obtain ⟨groupOps, hgroupOps, hsigs, -⟩ := hnext.group
  have hsigners : next.signatures.map PendingBlockSignature.nodeId = signers s.pendingStore g := by
    rw [signers, hgroupOps, hsigs]
    rfl
  have hheader := buildChainBlock_header _ _ _ _ _ _ _ hbuild
  have hbest : bestNextBlock m i s = some (pb, next) := by
    simp only [bestNextBlock, hnew, hpot, List.head?_cons, Option.map_some]
  obtain ⟨-, hgets⟩ := signed_getsQuorum hread m p i hnode pb next signed s s₁ hsign hmine hquorum
  obtain ⟨hgroup, hlocal⟩ := hcount pb next hbest hgets
  rw [hnext.groupId_eq] at hgroup
  obtain ⟨honce, hchain⟩ := hgroup
  cases signNextBlock_eq_ok m p i pb next signed s s₁ hsign with
  | same =>
    refine ⟨pb, next, b, hbest, hheader, hwrite, ?_⟩
    apply chainQuorum_of_signatures m.cell _
      ((next.signatures.filter (next.validateSignature m.cell)).map PendingBlockSignature.nodeId)
    · rw [map_filter_validateSignature next m.cell frame hframe, hsigners]
      exact honce
    · intro n hn
      rw [map_filter_validateSignature next m.cell frame hframe, hsigners, List.mem_filter] at hn
      refine ⟨hchain n hn.1 hn.2, ?_⟩
      rw [hnext.groupId_eq]
      exact Or.inl hn.1
    · rw [List.length_map]
      exact hquorum
  | refused op block s₁ hnone hcreate hput =>
    obtain ⟨-, rfl⟩ := createBlockRefusal_eq_ok hread _ hnode _ _ _ _ hcreate
    have hfalse : next.hasMySignature = true := hmine
    rw [hnone.1] at hfalse
    contradiction
  | signed op block s₁ hnone hcheck hcreate hput =>
    have hput' := localNode_mem_signers hread p _ hnode _ _ _ _ _ _ hcreate hput
    obtain ⟨-, rfl⟩ := createBlockSignature_eq_ok hread _ hnode _ _ _ _ hcreate
    refine ⟨pb, next, b, hbest, hheader, hwrite, ?_⟩
    -- the local node had not signed, so that its signature is one more
    have hnotin : m.cell.localNode ∉ signers s.pendingStore g := by
      intro hmem
      rw [← hsigners, List.mem_map] at hmem
      obtain ⟨sig, hsig, hid⟩ := hmem
      have hany : next.hasMySignature = true := by
        rw [hnext.hasMySignature_eq, List.any_eq_true]
        exact ⟨sig, hsig, decide_eq_true hid⟩
      rw [hnone.1] at hany
      contradiction
    have hnodes : ((next.addMySignature ⟨m.cell.localNode, emptySignature⟩).signatures.filter
        ((next.addMySignature ⟨m.cell.localNode, emptySignature⟩).validateSignature m.cell)).map
          PendingBlockSignature.nodeId =
        (signers s.pendingStore g ++ [m.cell.localNode]).filter fun n => (m.cell.get n).isSome := by
      rw [map_filter_validateSignature _ m.cell b.header hheader, PendingBlock.addMySignature,
        List.map_append, hsigners]
      rfl
    rw [hsign, hnext.groupId_eq]
    rw [hnext.groupId_eq] at hput'
    apply chainQuorum_of_signatures m.cell _
      ((signers s.pendingStore g ++ [m.cell.localNode]).filter fun n => (m.cell.get n).isSome)
    · rw [List.filter_append, List.nodup_append]
      refine ⟨honce, ?_, ?_⟩
      · exact (List.nodup_singleton _).filter _
      · intro n hn n' hn' heq
        have hlocal' : n' = m.cell.localNode :=
          List.mem_singleton.mp (List.mem_filter.mp hn').1
        rw [heq, hlocal'] at hn
        exact hnotin (List.mem_filter.mp hn).1
    · intro n hn
      obtain ⟨hmem, hcell⟩ := List.mem_filter.mp hn
      rcases List.mem_append.mp hmem with hold | hnew
      · exact ⟨hchain n hold hcell, Or.inl hold⟩
      · rw [List.mem_singleton] at hnew
        rw [hnew]
        exact ⟨isChainNode_localNode m.cell (hlocal hnone.1), Or.inr hput'⟩
    · rw [← hnodes, List.length_map]
      exact hquorum

/-- The condition on a step of a run: a tick finds signatures it may count. -/
def CountsNodes (e : Inner) (n : Node CS) : NodeStep → Prop
  | .commitTick i => SignersCount e.commitManager i n.state
  | _ => True

/-- Along a run, whenever a tick writes to the chain, more than half of the chain nodes have
signed the block. -/
theorem run_quorumCommit (hread : OperationsReadBack) (e : Inner)
    (hnode : NodeIdReadsBack e.commitManager.cell.localNode) (start : Node CS)
    (before after : List NodeStep) (i : TickInput)
    (hrun : Run.Allowed e.step (CountsNodes e) start (before ++ .commitTick i :: after))
    (hwrites : (e.step (Run.exec e.step start before) (.commitTick i)).chainStore ≠
      (Run.exec e.step start before).chainStore) :
    QuorumCommit e.commitManager e.pendingSynchronizer i
      (Run.exec e.step start before).state := by
  rw [Run.allowed_append_iff] at hrun
  obtain ⟨-, hcount, -⟩ := hrun
  exact tick_quorumCommit hread e.commitManager e.pendingSynchronizer i _ hnode hcount hwrites

end Quorum

/-! A cell of two chain nodes. The first has the genesis block, and proposals of the other
node for the block after it. -/

def firstNodeText : Bytes := ofNats
    [49, 50, 68, 51, 75, 111, 111, 87, 80, 84, 67, 87, 112, 65, 50, 88, 105, 55, 51, 97, 49, 117,
    82, 69, 100, 87, 103, 70, 51, 115, 115, 121, 119, 119, 116, 104, 51, 83, 100, 56, 65, 55, 77,
    53, 118, 109, 51, 122, 103, 100, 75, 112, 0]

def otherNodeText : Bytes := ofNats
    [49, 50, 68, 51, 75, 111, 111, 87, 68, 122, 119, 67, 102, 117, 103, 119, 111, 111, 114, 51,
    76, 107, 67, 105, 112, 86, 68, 106, 76, 104, 68, 50, 50, 98, 74, 97, 81, 49, 111, 110, 116,
    114, 86, 121, 100, 89, 50, 101, 105, 105, 77, 122, 0]

def fiftyMultihash : Bytes := ofNats
    [22, 32, 17, 41, 67, 228, 232, 102, 34, 75, 74, 200, 104, 165, 100, 171, 4, 227, 159, 47,
    137, 69, 48, 255, 137, 152, 254, 75, 181, 26, 24, 54, 198, 182]

/-- The hash of the operations of a block with the one entry. -/
def fiftyHash : Bytes := ofNats
    [22, 32, 146, 226, 97, 122, 76, 136, 90, 151, 186, 31, 99, 205, 168, 68, 192, 149, 49, 228,
    200, 126, 228, 184, 30, 110, 126, 156, 176, 3, 162, 248, 219, 209]

def nextHeaderMultihash : Bytes := ofNats
    [22, 32, 107, 80, 51, 70, 97, 134, 238, 104, 14, 75, 85, 196, 239, 53, 168, 46, 59, 91, 205,
    0, 47, 15, 194, 208, 158, 72, 158, 9, 156, 85, 50, 107]

def repeatHeaderMultihash : Bytes := ofNats
    [22, 32, 93, 84, 99, 7, 213, 53, 116, 145, 213, 1, 226, 186, 27, 61, 87, 83, 46, 20, 211,
    148, 26, 154, 40, 2, 160, 124, 121, 72, 53, 121, 93, 178]

def highHeaderMultihash : Bytes := ofNats
    [22, 32, 89, 87, 35, 147, 163, 146, 134, 193, 111, 120, 1, 61, 64, 128, 84, 67, 103, 104, 88,
    239, 236, 9, 31, 147, 91, 29, 121, 116, 189, 134, 227, 19]

def shortHeaderMultihash : Bytes := ofNats
    [22, 32, 184, 89, 18, 153, 118, 177, 84, 1, 79, 196, 213, 103, 0, 219, 206, 8, 29, 55, 32,
    201, 211, 50, 10, 46, 118, 169, 215, 44, 127, 158, 202, 168]

def genesisProposalHeaderMultihash : Bytes := ofNats
    [22, 32, 208, 90, 235, 107, 117, 125, 149, 106, 104, 144, 165, 49, 94, 129, 241, 85, 7, 7,
    195, 95, 198, 67, 33, 132, 235, 123, 126, 178, 107, 139, 138, 242]

def proposalMultihash : Bytes := ofNats
    [22, 32, 101, 80, 178, 98, 198, 76, 164, 140, 28, 71, 15, 20, 58, 192, 19, 96, 141, 134, 249,
    241, 98, 43, 245, 63, 100, 34, 39, 49, 148, 170, 214, 7]

def repeatMultihash : Bytes := ofNats
    [22, 32, 104, 143, 194, 118, 162, 102, 251, 145, 52, 135, 4, 236, 159, 130, 126, 148, 224,
    139, 82, 56, 85, 130, 135, 128, 184, 255, 125, 188, 210, 82, 45, 159]

def highMultihash : Bytes := ofNats
    [22, 32, 57, 92, 203, 241, 122, 55, 225, 157, 39, 150, 163, 134, 88, 105, 22, 93, 21, 197,
    127, 159, 25, 20, 137, 207, 86, 189, 142, 198, 154, 95, 174, 177]

def shortMultihash : Bytes := ofNats
    [22, 32, 80, 0, 124, 77, 124, 228, 113, 2, 236, 243, 241, 255, 92, 62, 178, 212, 55, 140,
    235, 28, 230, 90, 231, 196, 250, 93, 241, 173, 200, 95, 246, 234]

def genesisProposalMultihash : Bytes := ofNats
    [22, 32, 58, 221, 223, 138, 159, 52, 72, 20, 13, 211, 215, 86, 138, 242, 124, 95, 64, 255,
    161, 72, 2, 181, 172, 35, 85, 202, 23, 38, 28, 88, 26, 140]

def sign101Multihash : Bytes := ofNats
    [22, 32, 113, 130, 105, 136, 156, 110, 37, 88, 108, 182, 70, 206, 87, 107, 64, 51, 218, 28,
    44, 23, 143, 0, 199, 34, 80, 96, 61, 34, 107, 48, 132, 18]

def sign102Multihash : Bytes := ofNats
    [22, 32, 202, 105, 48, 155, 97, 210, 179, 91, 195, 100, 62, 148, 178, 34, 178, 247, 231, 94,
    167, 95, 46, 233, 122, 168, 121, 67, 82, 92, 68, 65, 94, 54]

def sign103Multihash : Bytes := ofNats
    [22, 32, 23, 183, 131, 14, 216, 174, 74, 36, 138, 71, 206, 44, 55, 112, 180, 215, 9, 31, 81,
    78, 136, 85, 251, 117, 105, 149, 118, 70, 39, 206, 152, 106]

def sign110Multihash : Bytes := ofNats
    [22, 32, 221, 27, 111, 143, 26, 59, 66, 207, 246, 102, 80, 219, 212, 106, 164, 194, 20, 241,
    246, 62, 168, 37, 197, 231, 113, 189, 135, 34, 164, 112, 0, 103]

def sign201Multihash : Bytes := ofNats
    [22, 32, 69, 58, 97, 246, 59, 187, 118, 166, 139, 93, 219, 132, 11, 108, 127, 166, 169, 228,
    243, 104, 222, 36, 203, 23, 169, 187, 16, 1, 117, 52, 33, 41]

def sign203Multihash : Bytes := ofNats
    [22, 32, 205, 205, 97, 76, 200, 35, 94, 155, 249, 149, 40, 222, 85, 218, 41, 135, 245, 187,
    204, 135, 209, 230, 233, 18, 208, 240, 249, 208, 10, 192, 154, 173]

def signedTwiceHash : Bytes := ofNats
    [22, 32, 88, 98, 230, 53, 44, 174, 226, 235, 11, 237, 70, 43, 72, 101, 250, 18, 87, 97, 68,
    158, 133, 141, 151, 181, 49, 195, 153, 35, 107, 181, 129, 75]

def signedHash : Bytes := ofNats
    [22, 32, 249, 94, 186, 236, 190, 66, 189, 182, 26, 40, 176, 2, 60, 10, 89, 74, 81, 113, 71,
    134, 160, 106, 238, 165, 105, 10, 32, 41, 183, 40, 166, 149]

def sign110Hash : Bytes := ofNats
    [22, 32, 230, 102, 216, 137, 218, 58, 168, 137, 30, 3, 99, 234, 119, 117, 193, 167, 14, 232,
    189, 231, 213, 204, 250, 165, 206, 11, 73, 198, 41, 6, 63, 35]

def repeatedHash : Bytes := ofNats
    [22, 32, 45, 26, 48, 226, 246, 101, 146, 245, 169, 44, 72, 97, 101, 100, 253, 167, 167, 224,
    90, 124, 117, 224, 197, 102, 168, 124, 2, 251, 215, 189, 249, 6]

def allHash : Bytes := ofNats
    [22, 32, 213, 206, 93, 14, 5, 51, 160, 203, 30, 236, 249, 141, 85, 74, 68, 209, 206, 177,
    111, 40, 19, 76, 243, 87, 212, 164, 81, 51, 61, 62, 250, 166]

def fiftyOperation : ChainOperation := ⟨50, 50, some firstNode, .entry (some [1])⟩

def fiftyMessage : Bytes := operationMessage 50 50 0 firstNodeText (dataContent [1])

def fiftyBytes : Bytes := sizedBytes (fiftyMessage ++ fiftyMultihash)

/-- Header of a block with the one entry, whose range may be given wrong. -/
def proposedHeader (offset height previousOffset id size : ℕ) (previousHash : Bytes) : BlockHeader :=
  ⟨offset, height, previousOffset, some previousHash, id, some otherNode, 170,
    some [⟨50, 0, size⟩], some fiftyHash, 324⟩

def proposedMessage (h : BlockHeader) : Bytes :=
  blockHeaderMessage h.offset h.height h.previousOffset h.proposedOperationId h.operationsSize
    h.signaturesSize (h.previousHash.getD []) otherNodeText (h.operationsHash.getD [])
    (h.operationsHeader.getD [])

def nextHeader : BlockHeader := proposedHeader 254 2 0 100 170 genesisMultihash

/-- A block that has the entry once more, after the next block. -/
def repeatHeader : BlockHeader := proposedHeader 1038 3 254 200 170 nextHeaderMultihash

def highHeader : BlockHeader := proposedHeader 254 7 0 300 170 genesisMultihash

def shortHeader : BlockHeader := proposedHeader 254 2 0 400 169 genesisMultihash

def genesisProposalHeader : BlockHeader := proposedHeader 0 0 0 0 170 genesisMultihash

/-- The bytes of the block in its proposal, with room for two signatures. -/
def proposedBytes (h : BlockHeader) (multihash : Bytes) : Bytes :=
  sizedBytes (proposedMessage h ++ multihash) ++ fiftyBytes ++
    sizedBytes (paddedBytes (signaturesMessage 170 [firstNodeText, otherNodeText]) 0)

def proposeOperation (h : BlockHeader) (multihash : Bytes) : ChainOperation :=
  ⟨h.proposedOperationId, h.proposedOperationId, some otherNode,
    .blockPropose (some (proposedBytes h multihash))⟩

def proposeMessage (h : BlockHeader) (multihash : Bytes) : Bytes :=
  operationMessage h.proposedOperationId h.proposedOperationId 1 otherNodeText
    (dataContent (proposedBytes h multihash))

def signOperation (groupId id : ℕ) (node : String) : ChainOperation :=
  ⟨groupId, id, some node, .blockSign (some ⟨some node, some emptySignature⟩)⟩

def signMessage (groupId id : ℕ) (nodeText : Bytes) : Bytes :=
  operationMessage groupId id 2 nodeText (signatureContent nodeText)

/-- The empty signatures of these nodes, in a message. -/
def emptySignatures (operationsSize : ℕ) (nodes : List (String × Bytes)) : Bytes × SignaturesMessage :=
  (signaturesMessage operationsSize (nodes.map Prod.snd),
    ⟨operationsSize, some (nodes.map fun n => ⟨some n.1, some emptySignature⟩)⟩)

def commitTables : Tables where
  operations := [(fiftyMessage, fiftyOperation),
    (proposeMessage nextHeader nextHeaderMultihash, proposeOperation nextHeader nextHeaderMultihash),
    (proposeMessage repeatHeader repeatHeaderMultihash,
      proposeOperation repeatHeader repeatHeaderMultihash),
    (proposeMessage highHeader highHeaderMultihash, proposeOperation highHeader highHeaderMultihash),
    (proposeMessage shortHeader shortHeaderMultihash,
      proposeOperation shortHeader shortHeaderMultihash),
    (proposeMessage genesisProposalHeader genesisProposalHeaderMultihash,
      proposeOperation genesisProposalHeader genesisProposalHeaderMultihash),
    (signMessage 100 101 firstNodeText, signOperation 100 101 firstNode),
    (signMessage 100 102 firstNodeText, signOperation 100 102 firstNode),
    (signMessage 100 103 otherNodeText, signOperation 100 103 otherNode),
    (signMessage 100 110 firstNodeText, signOperation 100 110 firstNode),
    (signMessage 200 201 firstNodeText, signOperation 200 201 firstNode),
    (signMessage 200 203 otherNodeText, signOperation 200 203 otherNode)]
  headers := (genesisMessage, genesisHeader) ::
    [nextHeader, repeatHeader, highHeader, shortHeader, genesisProposalHeader].map fun h =>
      (proposedMessage h, h)
  signatures := [(emptySignaturesMessage, ⟨0, some []⟩),
    emptySignatures 170 [(firstNode, firstNodeText), (firstNode, firstNodeText)],
    emptySignatures 170 [(otherNode, otherNodeText), (firstNode, firstNodeText)],
    emptySignatures 170 [(firstNode, firstNodeText), (otherNode, otherNodeText)]]
  digests := [(fiftyMultihash, fiftyHash.drop 2),
    (signMessage 100 110 firstNodeText, sign110Multihash.drop 2),
    (sign110Multihash, sign110Hash.drop 2),
    (fiftyMultihash ++ proposalMultihash ++ sign101Multihash ++ sign102Multihash,
      signedTwiceHash.drop 2),
    (fiftyMultihash ++ proposalMultihash ++ sign103Multihash, signedHash.drop 2),
    (repeatMultihash ++ sign201Multihash ++ sign203Multihash, repeatedHash.drop 2),
    (fiftyMultihash ++ proposalMultihash ++ sign103Multihash ++ sign110Multihash ++
      repeatMultihash ++ sign201Multihash ++ sign203Multihash, allHash.drop 2)]
  nodeIds := [firstNode, otherNode]

/-- The bytes of a proposal as it is sent. -/
def proposeBytes (h : BlockHeader) (headerMultihash multihash : Bytes) : Bytes :=
  sizedBytes (proposeMessage h headerMultihash ++ multihash)

def signBytes (groupId id : ℕ) (nodeText multihash : Bytes) : Bytes :=
  sizedBytes (signMessage groupId id nodeText ++ multihash)

section Samples

@[reducible] def commitCrates : Crates := commitTables.crates

attribute [local instance] commitCrates

def genesisChain : DirectoryChainStore :=
  ((DirectoryChainStore.create ⟨0, 10000, 10⟩).writeBlock genesisBlock).2

def firstEngine : Inner := ⟨sampleSynchronizer, ⟨.default, twoNodes⟩⟩

def genesisNode : Node DirectoryChainStore := ⟨⟨none⟩, .new, genesisChain⟩

/-- A request that brings these operations, all that its sender has. -/
def receive (hash : Bytes) (frames : List Bytes) : NodeStep :=
  .pendingSyncRequest ⟨otherNode⟩ (some
    ⟨.list [⟨0, false, 0, false, some hash, frames.length, .list (frames.map some), .null⟩], 0⟩)

def tickAt (time : ℕ) : TickInput :=
  ⟨time, time, time, time, .same, fun _ => .same, Sorting.searchSorter bestFirst,
    fun a b => a / b, false⟩

/-- The first node restarts with an empty pending store after it has signed, and signs again. -/
def signedTwiceNode : Node DirectoryChainStore :=
  firstEngine.step genesisNode (receive signedTwiceHash
    [fiftyBytes, proposeBytes nextHeader nextHeaderMultihash proposalMultihash,
      signBytes 100 101 firstNodeText sign101Multihash,
      signBytes 100 102 firstNodeText sign102Multihash])

theorem signedTwice_signers :
    (bestNextBlock firstEngine.commitManager (tickAt 110) signedTwiceNode.state).map (fun best =>
      (signers signedTwiceNode.pendingStore best.2.groupId,
        signers (firstEngine.commitManager.signNextBlock firstEngine.pendingSynchronizer
          (tickAt 110) best.1 best.2 signedTwiceNode.state).2.pendingStore best.2.groupId)) =
      some ([⟨firstNode⟩, ⟨firstNode⟩], [⟨firstNode⟩, ⟨firstNode⟩]) := by
  decide +kernel

/-- The block is committed with the two signatures of one of the two nodes. -/
theorem signedTwice_not_quorumCommit :
    (firstEngine.step signedTwiceNode (.commitTick (tickAt 110))).chainStore ≠
        signedTwiceNode.chainStore ∧
      ¬ QuorumCommit firstEngine.commitManager firstEngine.pendingSynchronizer (tickAt 110)
        signedTwiceNode.state := by
  constructor
  · intro h
    have hranges := congrArg DirectoryChainStore.segmentRanges h
    revert hranges
    decide +kernel
  · rintro ⟨pb, next, b, hbest, -, -, q, hq, hcard⟩
    have hsigners := signedTwice_signers
    rw [hbest] at hsigners
    simp only [Option.map_some, Option.some.injEq, Prod.mk.injEq] at hsigners
    have hsub : q ⊆ {⟨firstNode⟩} := by
      intro n hn
      obtain ⟨-, hmem⟩ := hq n hn
      rw [node_state_pendingStore, hsigners.1, hsigners.2] at hmem
      simpa using hmem
    have hone := Finset.card_le_card hsub
    have htwo : firstEngine.commitManager.cell.countWithRole .chain = 2 := by decide
    rw [htwo] at hcard
    simp only [Finset.card_singleton] at hone
    omega

theorem commitTables_readBack : OperationsReadBack :=
  operationsReadBack_tables commitTables (by decide +kernel) (by decide +kernel)

/-- The entry, the proposal, and the signature of its proposer. -/
def receiveSigned : NodeStep :=
  receive signedHash [fiftyBytes, proposeBytes nextHeader nextHeaderMultihash proposalMultihash,
    signBytes 100 103 otherNodeText sign103Multihash]

/-- With one signature of the other node, the tick adds the second. -/
theorem run_quorumCommit_two_nodes :
    QuorumCommit firstEngine.commitManager firstEngine.pendingSynchronizer (tickAt 110)
      (Run.exec firstEngine.step genesisNode [receiveSigned]).state := by
  apply run_quorumCommit commitTables_readBack firstEngine (by decide +kernel) genesisNode
    [receiveSigned] []
  · refine ⟨trivial, fun pb next _ _ => ⟨?_, fun _ => by decide⟩, trivial⟩
    exact signedOnce_of_groups _ _ (by decide +kernel) next.groupId
  · intro h
    have hranges := congrArg DirectoryChainStore.segmentRanges h
    revert hranges
    decide +kernel

end Samples

end Exocore.Engine
