import Exocore.CommitBest
import Exocore.ClusterChains

/-! What a node of a cluster reads of a proposal and its votes: the block that a tick finds in its
group, and the status that the chain gives it. -/
namespace Exocore.Engine

open Exocore.Core Exocore.Chain Exocore.Pending Ballots SortedMap

/-- Of the elements of a list, only one gives something. -/
theorem flatMap_eq_of_unique {A B : Type} (f : A → List B) (l : List A) (a : A) (hnodup : l.Nodup)
    (ha : a ∈ l) (hother : ∀ b ∈ l, b ≠ a → f b = []) : l.flatMap f = f a := by
  obtain ⟨front, rest, rfl⟩ := List.append_of_mem ha
  have hnot := List.nodup_middle.mp hnodup
  have hmem : a ∉ front ++ rest := (List.nodup_cons.mp hnot).1
  have hnil (bs : List A) (hsub : ∀ b ∈ bs, b ∈ front ++ rest) : bs.flatMap f = [] := by
    rw [List.flatMap_eq_nil_iff]
    intro b hb
    have hin := hsub b hb
    refine hother b ?_ fun hba => hmem (hba ▸ hin)
    rcases List.mem_append.mp hin with hin | hin
    · exact List.mem_append_left _ hin
    · exact List.mem_append_right _ (List.mem_cons_of_mem a hin)
  rw [List.flatMap_append, List.flatMap_cons, hnil front fun b hb => List.mem_append_left _ hb,
    hnil rest fun b hb => List.mem_append_right _ hb, List.nil_append, List.append_nil]

section Readings
variable [Crates] {op : StoredOperation} {n : NodeId} {p : ℕ}

theorem headerOf_of_proposes {frame : BlockHeaderFrame} {header : BlockHeader}
    (h : Proposes op.frame p frame header) :
    headerFrameOf op = some frame ∧ headerOf op = some header := by
  obtain ⟨n, data, hr, hread, hheader⟩ := h
  have hframe : headerFrameOf op = some frame := by
    simp only [headerFrameOf, hr, OperationBuilder.newBlockProposalFromData, Option.bind_eq_bind,
      Option.bind_some, hread]
  refine ⟨hframe, ?_⟩
  rw [headerOf, hframe]
  exact hheader

theorem headerOf_of_not_proposal (h : IsEntry op.frame ∨ ∃ n p, VoteOf op.frame n p) :
    headerOf op = none := by
  have hframe : headerFrameOf op = none := by
    rcases h with ⟨id, n, data, hr⟩ | ⟨n, p, ⟨id, hr⟩ | ⟨id, hr⟩⟩ <;>
      simp [headerFrameOf, hr, OperationBuilder.newEntry, OperationBuilder.newSignatureForBlock,
        OperationBuilder.newRefusal]
  rw [headerOf, hframe]
  rfl

theorem signatureOf_of_signs (hnode : NodeIdReadsBack n) (h : Signs op.frame n p) :
    signatureOf op = some ⟨n, emptySignature⟩ := by
  obtain ⟨id, hr⟩ := h
  have hparse : Crates.nodeIdFromStr n.str = some n := hnode
  simp [signatureOf, hr, OperationBuilder.newSignatureForBlock, PendingBlockSignature.fromOperation,
    readNodeId, hparse, pure, Except.pure]

theorem refusalOf_of_refuses (hnode : NodeIdReadsBack n) (h : Refuses op.frame n p) :
    refusalOf op = some ⟨n⟩ := by
  obtain ⟨id, hr⟩ := h
  have hparse : Crates.nodeIdFromStr n.str = some n := hnode
  simp [refusalOf, hr, OperationBuilder.newRefusal, PendingBlockRefusal.fromOperation,
    readNodeId, hparse, pure, Except.pure]

variable {c : Cluster} {created : Set OperationFrame}

/-- A signature that is read was cast. -/
theorem signs_of_signatureOf (hl : Ledger c created) (hop : op.frame ∈ created)
    (sig : PendingBlockSignature) (h : signatureOf op = some sig) :
    ∃ p, Signs op.frame sig.nodeId p := by
  rcases hl.kinds _ hop with ⟨id, n, data, hr⟩ | ⟨p, frame, header, n, data, hr, -⟩ |
    ⟨n, p, ⟨id, hr⟩ | ⟨id, hr⟩⟩
  · simp [signatureOf, hr, OperationBuilder.newEntry, PendingBlockSignature.fromOperation] at h
  · simp [signatureOf, hr, OperationBuilder.newBlockProposalFromData,
      PendingBlockSignature.fromOperation] at h
  · have hsigns : Signs op.frame n p := ⟨id, hr⟩
    rw [signatureOf_of_signs (hl.voters _ hop n p (Or.inl hsigns)).2.1 hsigns] at h
    rw [← Option.some.inj h]
    exact ⟨p, hsigns⟩
  · simp [signatureOf, hr, OperationBuilder.newRefusal, PendingBlockSignature.fromOperation] at h

theorem refuses_of_refusalOf (hl : Ledger c created) (hop : op.frame ∈ created)
    (refusal : PendingBlockRefusal) (h : refusalOf op = some refusal) :
    ∃ p, Refuses op.frame refusal.nodeId p := by
  rcases hl.kinds _ hop with ⟨id, n, data, hr⟩ | ⟨p, frame, header, n, data, hr, -⟩ |
    ⟨n, p, ⟨id, hr⟩ | ⟨id, hr⟩⟩
  · simp [refusalOf, hr, OperationBuilder.newEntry, PendingBlockRefusal.fromOperation] at h
  · simp [refusalOf, hr, OperationBuilder.newBlockProposalFromData,
      PendingBlockRefusal.fromOperation] at h
  · simp [refusalOf, hr, OperationBuilder.newSignatureForBlock,
      PendingBlockRefusal.fromOperation] at h
  · have hrefuses : Refuses op.frame n p := ⟨id, hr⟩
    rw [refusalOf_of_refuses (hl.voters _ hop n p (Or.inr hrefuses)).2.1 hrefuses] at h
    rw [← Option.some.inj h]
    exact ⟨p, hrefuses⟩

end Readings

section Groups
variable [Crates] {c : Cluster} {created : Set OperationFrame} {store : MemoryPendingStore}
  {p : ℕ} {ops : List StoredOperation}

/-- The operations of a group are created ones of the group. -/
theorem mem_group (hstored : StoredIn store created)
    (hops : store.getGroupOperations p = some ops) (op : StoredOperation) (hop : op ∈ ops) :
    op.frame ∈ created ∧ store.groupFrame p op.operationId = some op.frame ∧
      frameId op.frame = op.operationId ∧
      ∃ r, op.frame.frame.reader = some r ∧ r.groupId = p := by
  obtain ⟨hframe, -, r, hr, hid, hg, -⟩ := store.mem_getGroupOperations p ops hops op hop
  exact ⟨hstored _ _ _ hframe, hframe, (frameId_of_reader hr).trans hid, r, hr, hg⟩

theorem exists_mem_group {f : OperationFrame} {id : ℕ} (hf : store.groupFrame p id = some f) :
    ∃ ops, store.getGroupOperations p = some ops ∧ ∃ op ∈ ops, op.frame = f := by
  obtain ⟨ops, hops, op, hop, -, heq⟩ := store.getGroupOperations_of_groupFrame p id f hf
  exact ⟨ops, hops, op, hop, heq⟩

theorem vote_in_group {op : StoredOperation} {n : NodeId} {q : ℕ} (hvote : VoteOf op.frame n q)
    (hr : ∃ r, op.frame.frame.reader = some r ∧ r.groupId = p) : q = p := by
  obtain ⟨r, hr, hg⟩ := hr
  rcases hvote with ⟨id, hm⟩ | ⟨id, hm⟩
  · rw [← hg, Option.some.inj (hr.symm.trans hm)]
    rfl
  · rw [← hg, Option.some.inj (hr.symm.trans hm)]
    rfl

/-- A reader of votes finds no node twice in a group. -/
theorem voters_nodup (hl : Ledger c created) (hstored : StoredIn store created)
    (hops : store.getGroupOperations p = some ops) (who : StoredOperation → Option NodeId)
    (hwho : ∀ op ∈ ops, ∀ n, who op = some n → VoteOf op.frame n p) : (ops.filterMap who).Nodup := by
  have hids := store.getGroupOperations_nodup p ops hops
  have hpairs : ops.Pairwise fun a b => ∀ n, who a = some n → ∀ m, who b = some m → n ≠ m := by
    refine hids.imp_of_mem ?_
    rintro a b ha hb hlt n hn m hm rfl
    obtain ⟨hac, -, hai, -⟩ := mem_group hstored hops a ha
    obtain ⟨hbc, -, hbi, -⟩ := mem_group hstored hops b hb
    have heq := hl.once _ hac _ hbc n p (hwho a ha n hn) (hwho b hb n hm)
    rw [← hai, ← hbi, heq] at hlt
    exact lt_irrefl _ hlt
  exact List.Pairwise.filterMap who (fun a b h n hn m hm => h n hn m hm) hpairs

/-- Nodes whose signature stands in the group. -/
theorem mem_signers_iff (hl : Ledger c created) (hstored : StoredIn store created) (n : NodeId) :
    n ∈ signers store p ↔ ∃ id f, store.groupFrame p id = some f ∧ Signs f n p := by
  constructor
  · intro hn
    obtain ⟨sig, hsig, rfl⟩ := List.mem_map.mp hn
    obtain ⟨op, hop, hread⟩ := List.mem_filterMap.mp hsig
    cases hops : store.getGroupOperations p with
    | none =>
      rw [hops] at hop
      exact absurd hop List.not_mem_nil
    | some ops =>
      rw [hops, Option.getD_some] at hop
      obtain ⟨hmem, hframe, -, hr⟩ := mem_group hstored hops op hop
      obtain ⟨q, hsigns⟩ := signs_of_signatureOf hl hmem sig hread
      obtain rfl := vote_in_group (Or.inl hsigns) hr
      exact ⟨_, _, hframe, hsigns⟩
  · rintro ⟨id, f, hf, hsigns⟩
    obtain ⟨ops, hops, op, hop, rfl⟩ := exists_mem_group hf
    have hnode := (hl.voters _ (hstored p id _ hf) n p (Or.inl hsigns)).2.1
    rw [signers, hops, Option.getD_some]
    exact List.mem_map.mpr ⟨⟨n, emptySignature⟩,
      List.mem_filterMap.mpr ⟨op, hop, signatureOf_of_signs hnode hsigns⟩, rfl⟩

/-- Nodes whose refusal stands in the group. -/
def refusers (store : MemoryPendingStore) (groupId : ℕ) : List NodeId :=
  (((store.getGroupOperations groupId).getD []).filterMap refusalOf).map PendingBlockRefusal.nodeId

theorem mem_refusers_iff (hl : Ledger c created) (hstored : StoredIn store created) (n : NodeId) :
    n ∈ refusers store p ↔ RefusedIn store p n := by
  constructor
  · intro hn
    obtain ⟨refusal, hrefusal, rfl⟩ := List.mem_map.mp hn
    obtain ⟨op, hop, hread⟩ := List.mem_filterMap.mp hrefusal
    cases hops : store.getGroupOperations p with
    | none =>
      rw [hops] at hop
      exact absurd hop List.not_mem_nil
    | some ops =>
      rw [hops, Option.getD_some] at hop
      obtain ⟨hmem, hframe, -, hr⟩ := mem_group hstored hops op hop
      obtain ⟨q, hrefuses⟩ := refuses_of_refusalOf hl hmem refusal hread
      obtain rfl := vote_in_group (Or.inr hrefuses) hr
      exact ⟨_, _, hframe, hrefuses⟩
  · rintro ⟨id, f, hf, hrefuses⟩
    obtain ⟨ops, hops, op, hop, rfl⟩ := exists_mem_group hf
    have hnode := (hl.voters _ (hstored p id _ hf) n p (Or.inr hrefuses)).2.1
    rw [refusers, hops, Option.getD_some]
    exact List.mem_map.mpr ⟨⟨n⟩,
      List.mem_filterMap.mpr ⟨op, hop, refusalOf_of_refuses hnode hrefuses⟩, rfl⟩

theorem signers_nodup (hl : Ledger c created) (hstored : StoredIn store created) :
    (signers store p).Nodup := by
  cases hops : store.getGroupOperations p with
  | none =>
    rw [signers, hops]
    exact List.nodup_nil
  | some ops =>
    rw [signers, hops, Option.getD_some, List.map_filterMap]
    refine voters_nodup hl hstored hops _ ?_
    intro op hop n hn
    obtain ⟨sig, hsig, rfl⟩ := Option.map_eq_some_iff.mp hn
    obtain ⟨hmem, -, -, hr⟩ := mem_group hstored hops op hop
    obtain ⟨q, hsigns⟩ := signs_of_signatureOf hl hmem sig hsig
    obtain rfl := vote_in_group (Or.inl hsigns) hr
    exact Or.inl hsigns

theorem refusers_nodup (hl : Ledger c created) (hstored : StoredIn store created) :
    (refusers store p).Nodup := by
  cases hops : store.getGroupOperations p with
  | none =>
    rw [refusers, hops]
    exact List.nodup_nil
  | some ops =>
    rw [refusers, hops, Option.getD_some, List.map_filterMap]
    refine voters_nodup hl hstored hops _ ?_
    intro op hop n hn
    obtain ⟨refusal, hrefusal, rfl⟩ := Option.map_eq_some_iff.mp hn
    obtain ⟨hmem, -, -, hr⟩ := mem_group hstored hops op hop
    obtain ⟨q, hrefuses⟩ := refuses_of_refusalOf hl hmem refusal hrefusal
    obtain rfl := vote_in_group (Or.inr hrefuses) hr
    exact Or.inr hrefuses

/-- The signatures that a commit counts are those of distinct chain nodes. -/
theorem signersCount_of_ledger (hl : Ledger c created) {n : NodeId} (hn : n ∈ c.members)
    (i : TickInput) (s : CommitState DirectoryChainStore)
    (hstored : StoredIn s.pendingStore created) :
    SignersCount (c.engine n).commitManager i s := by
  intro pb next _ _
  refine ⟨⟨(signers_nodup hl hstored).filter _, ?_⟩, fun _ => ?_⟩
  · intro m hm _
    obtain ⟨id, f, hf, hsigns⟩ := (mem_signers_iff hl hstored m).mp hm
    have hmember := (hl.voters f (hstored next.groupId id f hf) m next.groupId (Or.inl hsigns)).1
    exact (c.mem_members_iff n m).mp hmember
  · obtain ⟨node, hnode, hrole⟩ := (c.mem_members_iff n n).mp hn
    have hget : (c.cell n).get (c.cell n).localNode = some node := hnode
    change (c.cell n).localNodeHasRole .chain = true
    rw [Cell.localNodeHasRole, hget]
    exact hrole

/-- A quorum of refusals in a group is a majority of the chain nodes. -/
theorem hasQuorum_refusers_iff (hl : Ledger c created) (hstored : StoredIn store created)
    {n : NodeId} (hn : n ∈ c.members) :
    (c.cell n).hasQuorum (refusers store p).length (some .chain) = true ↔
      Majority c.members (RefusedIn store p) := by
  constructor
  · intro hquorum
    rw [c.majority_iff n]
    refine chainQuorum_of_signatures _ _ (refusers store p) (refusers_nodup hl hstored) ?_ hquorum
    intro m hm
    have hrefused := (mem_refusers_iff hl hstored m).mp hm
    obtain ⟨id, f, hf, hrefuses⟩ := hrefused
    have hmember := (hl.voters f (hstored p id f hf) m p (Or.inr hrefuses)).1
    exact ⟨(c.mem_members_iff n m).mp hmember, id, f, hf, hrefuses⟩
  · rintro ⟨q, hq, hcard⟩
    have hsub : q ⊆ (refusers store p).toFinset := fun m hm =>
      List.mem_toFinset.mpr ((mem_refusers_iff hl hstored m).mpr (hq m hm).2)
    have hlength := (Finset.card_le_card hsub).trans (List.toFinset_card_le _)
    have hpos : 0 < c.members.card := Finset.card_pos.mpr ⟨n, hn⟩
    rw [hasQuorum_chain_iff, ← c.card_members n]
    exact ⟨hpos, by omega⟩

end Groups

section Blocks
variable [Crates] {c : Cluster} {created : Set OperationFrame} {n : NodeId}
  {store : MemoryPendingStore} {chain : DirectoryChainStore} {blocks : List DataBlock}
  {config : CommitManagerConfig} {now p : ℕ} {last : DataBlock} {block : PendingBlock}

/-- The proposal of a block, as its group has it. -/
structure ReadsProposal (created : Set OperationFrame) (block : PendingBlock) (p : ℕ)
    (f : OperationFrame) (frame : BlockHeaderFrame) (header : BlockHeader) : Prop where
  mem : f ∈ created
  proposes : Proposes f p frame header
  operation : block.proposal.operation.frame = f ∧ block.proposal.operation.operationId = p
  getBlock : block.proposal.getBlock = .ok frame
  offset : block.proposal.offset = header.offset
  operations : block.operations = (header.operationsHeader.getD []).map
    BlockOperationHeader.operationId

theorem BlockOf.readsProposal (h : BlockOf config now (c.cell n) store chain last.nextOffset p block)
    (hl : Ledger c created) (hstored : StoredIn store created) :
    ∃ f frame header, ReadsProposal created block p f frame header := by
  obtain ⟨ops, hops, -, -, hoperations, op, hop, rfl, header, hheader, -, hoffset⟩ := h.group
  obtain ⟨hmem, -, hid, r, hr, hg⟩ := mem_group hstored hops _ hop
  -- an operation of the group with a header is the proposal of the group
  have hproposal (x : StoredOperation) (hx : x ∈ ops) (header' : BlockHeader)
      (hheader' : headerOf x = some header') :
      ∃ frame, Proposes x.frame p frame header' ∧ frameId x.frame = p := by
    obtain ⟨hxmem, -, -, r, hr, hg⟩ := mem_group hstored hops x hx
    rcases hl.kinds _ hxmem with hentry | ⟨q, frame, header'', hq⟩ | hvote
    · rw [headerOf_of_not_proposal (Or.inl hentry)] at hheader'
      contradiction
    · have hsame := (headerOf_of_proposes hq).2
      rw [hheader'] at hsame
      obtain rfl := Option.some.inj hsame
      obtain ⟨n', data, hm, -⟩ := id hq
      obtain rfl : q = p := by
        rw [← hg, Option.some.inj (hr.symm.trans hm)]
        rfl
      exact ⟨frame, hq, hq.frameId_eq⟩
    · rw [headerOf_of_not_proposal (Or.inr hvote)] at hheader'
      contradiction
  obtain ⟨frame, hproposes, hframeId⟩ := hproposal _ hop header hheader
  refine ⟨_, frame, header, hmem, hproposes, ⟨rfl, hid.symm.trans hframeId⟩, ?_, hoffset, ?_⟩
  · exact (getBlock_eq_ok_iff _ _).mpr (headerOf_of_proposes hproposes).1
  · have hnodup : ops.Nodup := (store.getGroupOperations_nodup p ops hops).imp
      fun hlt => by
        rintro rfl
        exact lt_irrefl _ hlt
    rw [hoperations, flatMap_eq_of_unique proposedBy ops _ hnodup hop, proposedBy, hheader]
    intro x hx hne
    cases hxh : headerOf x with
    | none => rw [proposedBy, hxh]
    | some header' =>
      exfalso
      obtain ⟨frame', -, hxid⟩ := hproposal x hx header' hxh
      obtain ⟨-, -, hxi, -⟩ := mem_group hstored hops x hx
      have hlt := store.getGroupOperations_nodup p ops hops
      have hinj : x = block.proposal.operation := by
        have hkeys : (ops.map StoredOperation.operationId).Nodup :=
          List.pairwise_map.mpr (hlt.imp fun h => h.ne)
        exact List.inj_on_of_nodup_map hkeys hx hop (by rw [← hxi, ← hid, hxid, hframeId])
      exact hne hinj

theorem BlockOf.signers_eq (h : BlockOf config now (c.cell n) store chain last.nextOffset p block) :
    block.signatures.map PendingBlockSignature.nodeId = signers store p ∧
      block.refusals.map PendingBlockRefusal.nodeId = refusers store p := by
  obtain ⟨ops, hops, hsignatures, hrefusals, -⟩ := h.group
  rw [signers, refusers, hops, hsignatures, hrefusals]
  exact ⟨rfl, rfl⟩

theorem BlockOf.hasMySignature_iff
    (h : BlockOf config now (c.cell n) store chain last.nextOffset p block) :
    block.hasMySignature = true ↔ n ∈ signers store p := by
  rw [h.hasMySignature_eq, ← h.signers_eq.1, List.any_eq_true, List.mem_map]
  simp only [decide_eq_true_eq]
  rfl

theorem BlockOf.hasMyRefusal_iff
    (h : BlockOf config now (c.cell n) store chain last.nextOffset p block) :
    block.hasMyRefusal = true ↔ n ∈ refusers store p := by
  rw [h.hasMyRefusal_eq, ← h.signers_eq.2, List.any_eq_true, List.mem_map]
  simp only [decide_eq_true_eq]
  rfl

/-- A block that may come next is for the end of the chain or behind it, and the node has neither
refused it nor a quorum of refusals. -/
theorem BlockOf.of_nextPotential
    (h : BlockOf config now (c.cell n) store chain last.nextOffset p block)
    (hlast : last.nextOffset = endOf blocks) (hstatus : block.status = .nextPotential) :
    endOf blocks ≤ block.proposal.offset ∧ block.hasMyRefusal = false ∧
      (c.cell n).hasQuorum (refusers store p).length (some .chain) = false := by
  have hread := h.status_eq
  rw [hstatus, blockStatus] at hread
  have hlength : block.refusals.length = (refusers store p).length := by
    rw [← h.signers_eq.2, List.length_map]
  split at hread
  · simp only [bind_eq_ok_iff] at hread
    obtain ⟨id, -, hread⟩ := hread
    split_ifs at hread <;> exact absurd (Except.ok.inj hread) (by simp)
  · contradiction
  · split_ifs at hread
    have hnext := Except.ok.inj hread
    rw [nextStatus] at hnext
    split_ifs at hnext with hrefused hexpired hpast
    rw [Bool.or_eq_true, not_or, hlength] at hrefused
    refine ⟨by omega, ?_, ?_⟩
    · exact Bool.eq_false_iff.mpr hrefused.2
    · exact Bool.eq_false_iff.mpr hrefused.1

/-- A block for the end of the chain or behind it may come next, unless it has expired or was
refused. -/
theorem BlockOf.nextPotential
    (h : BlockOf config now (c.cell n) store chain last.nextOffset p block)
    (hchain : HoldsFramed chain blocks) (hlast : last.nextOffset = endOf blocks)
    (hle : endOf blocks ≤ block.proposal.offset)
    (hexpired : block.proposal.hasExpired config now = false) (hmine : block.hasMyRefusal = false)
    (hquorum : (c.cell n).hasQuorum (refusers store p).length (some .chain) = false) :
    block.status = .nextPotential := by
  have hread := h.status_eq
  have hlength : block.refusals.length = (refusers store p).length := by
    rw [← h.signers_eq.2, List.length_map]
  have hget : ChainStore.getBlock chain block.proposal.offset = .error (.error (.outOfBound
      s!"No segment has block with offset {block.proposal.offset}")) :=
    hchain.getBlock_end _ hle
  simp only [blockStatus, hget, ChainError.isFatal, Bool.false_eq_true, if_false, hlength, hquorum,
    hmine, hexpired, nextStatus, Bool.or_false] at hread
  rw [if_neg (by omega)] at hread
  exact (Except.ok.inj hread).symm

/-- What the cleanup takes is behind the end of the chain. -/
theorem BlockOf.of_past (h : BlockOf config now (c.cell n) store chain last.nextOffset p block)
    (hchain : HoldsFramed chain blocks) (hlast : last.nextOffset = endOf blocks)
    (hstatus : block.status = .pastCommitted ∨ block.status = .pastRefused) :
    block.proposal.offset < endOf blocks := by
  by_contra hnot
  have hread := h.status_eq
  have hget : ChainStore.getBlock chain block.proposal.offset = .error (.error (.outOfBound
      s!"No segment has block with offset {block.proposal.offset}")) :=
    hchain.getBlock_end _ (by omega)
  simp only [blockStatus, hget, ChainError.isFatal, Bool.false_eq_true, if_false, nextStatus]
    at hread
  have hnext := Except.ok.inj hread
  rw [← hnext] at hstatus
  split_ifs at hstatus with hrefused hexpired hpast <;> first | omega | simp at hstatus

end Blocks

end Exocore.Engine
