import Exocore.CommitPanic
import Exocore.ClusterCommit

/-! The proposal of a node of a cluster: it is built from the entries of its pending store, behind
the last block of its chain. -/
namespace Exocore.Engine

open Exocore.Core Exocore.Chain Exocore.Pending Ballots SortedMap

/-- The block of the proposal follows a block of the chain. -/
structure FollowsIn (blocks : List DataBlock) (header : BlockHeader) : Prop where
  follows : ∃ prev ∈ blocks, header.previousOffset = prev.offset ∧ header.offset = prev.nextOffset
  height : 0 < header.height

theorem FollowsIn.mono {blocks blocks' : List DataBlock} {header : BlockHeader}
    (h : FollowsIn blocks header) (hpre : blocks <+: blocks') : FollowsIn blocks' header := by
  obtain ⟨prev, hprev, hlinks⟩ := h.follows
  exact ⟨⟨prev, hpre.subset hprev, hlinks⟩, h.height⟩

section Proposals
variable [Crates] {c : Cluster} {created : Set OperationFrame} {store : MemoryPendingStore}

theorem isEntry_of_type (hl : Ledger c created) {f : OperationFrame} (hf : f ∈ created)
    {r : ChainOperation} (hr : f.frame.reader = some r)
    (htype : r.operation.operationType = .ok .entry) : IsEntry f := by
  rcases hl.kinds f hf with hentry | ⟨p, frame, header, n, data, hm, -⟩ | ⟨n, p, ⟨id, hm⟩ | ⟨id, hm⟩⟩
  · exact hentry
  all_goals
    rw [Option.some.inj (hr.symm.trans hm)] at htype
    simp [OperationBuilder.newBlockProposalFromData, OperationBuilder.newSignatureForBlock,
      OperationBuilder.newRefusal, OperationBody.operationType] at htype

/-- Entries of the store, put in the order of their ids. -/
theorem sorted_entries (hl : Ledger c created) (hstored : StoredIn store created)
    (proposed : List StoredOperation)
    (hsub : proposed.Sublist (store.operations.filter fun op => op.operationType = .entry)) :
    (∀ e ∈ (proposed.insertionSort fun a b => a.operationId ≤ b.operationId).map
        StoredOperation.frame, e ∈ created ∧ IsEntry e) ∧
      Increasing ((proposed.insertionSort fun a b => a.operationId ≤ b.operationId).map
        StoredOperation.frame) ∧
      (framesData ((proposed.insertionSort fun a b => a.operationId ≤ b.operationId).map
        StoredOperation.frame)).length ≤
          (framesData (store.operations.map StoredOperation.frame)).length := by
  have hall := hsub.trans List.filter_sublist
  have hsorted : proposed.Pairwise fun a b => a.operationId < b.operationId :=
    store.operations_sorted.sublist hall
  have hsame : proposed.insertionSort (fun a b => a.operationId ≤ b.operationId) = proposed :=
    (hsorted.imp fun hlt => hlt.le).insertionSort_eq
  have hget (op : StoredOperation) (hop : op ∈ proposed) :
      store.getOperation op.operationId = some op :=
    (store.mem_operations_iff op).mp (hall.subset hop)
  rw [hsame]
  refine ⟨?_, ⟨?_, ?_⟩, ?_⟩
  · intro e he
    obtain ⟨op, hop, rfl⟩ := List.mem_map.mp he
    obtain ⟨hframe, -⟩ := getOperation_frame store _ op (hget op hop)
    obtain ⟨r, hr, -, -, htype⟩ := store.getOperation_reads _ _ (hget op hop)
    have hmem := hstored _ _ _ hframe
    have hentry : op.operationType = .entry := by
      have hfilter := (List.mem_filter.mp (hsub.subset hop)).2
      exact of_decide_eq_true hfilter
    rw [hentry] at htype
    exact ⟨hmem, isEntry_of_type hl hmem hr htype⟩
  · intro e he
    obtain ⟨op, hop, rfl⟩ := List.mem_map.mp he
    obtain ⟨r, hr, -⟩ := store.getOperation_reads _ _ (hget op hop)
    rw [hr]
    rfl
  · rw [List.pairwise_map]
    refine hsorted.imp_of_mem ?_
    intro a b ha hb hlt
    obtain ⟨-, hida⟩ := getOperation_frame store _ a (hget a ha)
    obtain ⟨-, hidb⟩ := getOperation_frame store _ b (hget b hb)
    rw [hida, hidb]
    exact hlt
  · rw [framesData, framesData, List.map_map, List.map_map]
    exact (hall.map _).flatten.length_le

/-- What a proposal that was built is made of, and which block it follows. -/
theorem buildProposal_built (hread : OperationsReadBack) (hh : HeadersReadBack)
    (hl : Ledger c created) (hstored : StoredIn store created) (m : CommitManager) (i : TickInput)
    (pb : PendingBlocks) (chain : DirectoryChainStore) (blocks : List DataBlock)
    (hholds : StoreHolds True chain blocks)
    (hsmall : (framesData (store.operations.map StoredOperation.frame)).length < 2^32)
    (op : NewOperation) (h : m.buildProposal i pb store chain = .ok (some op)) :
    ∃ frame header entries, Proposes op.frame i.proposalTime frame header ∧
      BuiltOfEntries created i.proposalTime frame header entries ∧ FollowsIn blocks header := by
  simp only [CommitManager.buildProposal, bind_eq_ok_iff, liftError_eq_ok_iff,
    orError_eq_ok_iff] at h
  obtain ⟨_, hlast, prev, rfl, operations, hiter, proposed, hproposed, blockOperations, hfrom,
    block, hblock, headers, -, first, -, h⟩ := h
  split_ifs at h
  · exact absurd (Except.ok.inj h) (by simp)
  simp only [bind_eq_ok_iff, liftError_eq_ok_iff] at h
  obtain ⟨built, hbuilt, hsome⟩ := h
  obtain rfl := Option.some.inj (Except.ok.inj hsome)
  rw [store.operationsIter_unbounded, Except.ok.injEq] at hiter
  subst hiter
  obtain ⟨proposed', hproposed', hsub⟩ := operationsToPropose_sublist hholds pb
    (store.operations.filter fun op => op.operationType = .entry)
  obtain rfl := Except.ok.inj (hproposed.symm.trans hproposed')
  obtain ⟨hentries, hincreasing, hlength⟩ := sorted_entries hl hstored proposed hsub
  -- the block behind the last one
  obtain ⟨reader, hreader, hinfo⟩ := (bind_eq_ok_iff _ _ _).mp hblock
  have hdata := (fromOperations_eq_ok _ _ hfrom).1
  obtain ⟨hoffset, -, -, hheader⟩ := (buildWithPrevInfo_eq_ok_iff _ _ _ _ _ _ _ block).mp hinfo
  have hblockSmall : blockOperations.data.length < 2^32 := by
    rw [hdata]
    omega
  have hmade : Built block m.cell blockOperations (builtHeader m.cell prev.nextOffset reader.height
      prev.offset prev.header.multihashBytes i.proposalTime blockOperations
      block.signatures.wholeData.length) := by
    refine ⟨Or.inr ⟨_, hfrom⟩, hblockSmall, reader.height, prev.offset, prev.header.multihashBytes,
      i.proposalTime, ?_, ?_⟩
    · rw [hoffset]
      exact hinfo
    · rw [hoffset]
  obtain ⟨hblockReader, -, -, -, -, -, -, -, hreadHeader, hlen⟩ := built_parts hh _ _ _ _ hmade
  have hmember : prev ∈ blocks := by
    obtain ⟨stop, index, hsegments, -⟩ := hholds
    have hgetLast := getLastBlock_eq chain stop blocks hsegments
    have hsame : blocks.getLast? = some prev := Except.ok.inj (hgetLast.symm.trans hlast)
    exact List.mem_of_getLast? hsame
  refine ⟨block.header, _, _, ⟨m.cell.localNode, block.asDataVec,
    (signAndBuild_eq_ok hread _ _ hbuilt).2, ?_, hblockReader⟩,
    ⟨hentries, hincreasing, block, m.cell, blockOperations, hfrom, hmade, rfl, rfl⟩,
    ⟨prev, hmember, rfl, rfl⟩, Nat.succ_pos _⟩
  -- the data of the proposal starts with the header
  have hwhole : block.header.wholeData = headerBytes (builtHeader m.cell prev.nextOffset
      reader.height prev.offset prev.header.multihashBytes i.proposalTime blockOperations
      block.signatures.wholeData.length) := by
    have hread' := hreadHeader
    rw [readHeaderFrame, liftError_eq_ok_iff] at hread'
    exact hashedFrame_read_built _ _ _ hlen hread'
  obtain ⟨k, hsized⟩ : ∃ k, SizedBy block.header.wholeData k := by
    rw [hwhole]
    exact ⟨_, sizedBytes_sizedBy _ hlen⟩
  rw [DataBlock.asDataVec, List.append_assoc, readHeaderFrame_append _ _ _ hsized, hwhole]
  exact hreadHeader

end Proposals

section Steps
variable [Crates] (m : CommitManager) (p : PendingSynchronizer) (i : TickInput)

/-- A tick without a candidate leaves the stores, or puts the proposal it has built. -/
theorem maybeProposeBlock_cases (pb : PendingBlocks) (s : CommitState DirectoryChainStore) :
    (m.maybeProposeBlock p i pb s).2 = s ∨
      ∃ op, m.buildProposal i pb s.pendingStore s.chainStore = .ok (some op) ∧
        onPending (p.handleNewOperation op) s = (.ok (), (m.maybeProposeBlock p i pb s).2) := by
  rw [CommitManager.maybeProposeBlock, Action.get_bind]
  rcases Action.lift_bind_cases (m.shouldProposeBlock i s.chainStore pb)
    (fun should => if should then m.proposeBlock p i pb else pure ()) s with
      ⟨e, -, hres⟩ | ⟨should, -, hres⟩
  · left
    rw [hres]
  rw [hres]
  cases should with
  | false => exact Or.inl rfl
  | true =>
    simp only [if_true]
    rw [CommitManager.proposeBlock, Action.get_bind]
    cases hbuild : m.buildProposal i pb s.pendingStore s.chainStore with
    | error e => exact Or.inl rfl
    | ok operation =>
      rw [Action.lift_ok_bind]
      cases operation with
      | none => exact Or.inl rfl
      | some op =>
        rcases handleNewOperation_cases p op ⟨s.syncContext, s.pendingStore⟩ with
          ⟨e, he⟩ | ⟨s', hs'⟩
        · left
          simp only [onPending, he]
        · right
          refine ⟨op, rfl, ?_⟩
          simp only [onPending, hs']

end Steps

end Exocore.Engine
