import Exocore.CommitBlock

/-! What the pending blocks say about the pending store and the chain they were read from. -/
namespace Exocore.Engine

open Exocore.Core Exocore.Chain Exocore.Pending SortedMap

section Parts
variable [Crates]

def signatureOf (op : StoredOperation) : Option PendingBlockSignature := do
  let reader ← op.frame.frame.reader
  match PendingBlockSignature.fromOperation reader with
  | .ok signature => some signature
  | .error _ => none

def refusalOf (op : StoredOperation) : Option PendingBlockRefusal := do
  let reader ← op.frame.frame.reader
  match PendingBlockRefusal.fromOperation reader with
  | .ok refusal => some refusal
  | .error _ => none

/-- Frame of the header that the operation proposes. -/
def headerFrameOf (op : StoredOperation) : Option BlockHeaderFrame := do
  let reader ← op.frame.frame.reader
  match reader.operation with
  | .blockPropose (some data) => match readHeaderFrame data with
    | .ok frame => some frame
    | .error _ => none
  | _ => none

def headerOf (op : StoredOperation) : Option BlockHeader := do
  let frame ← headerFrameOf op
  frame.reader

/-- Ids of the operations that the operation proposes. -/
def proposedBy (op : StoredOperation) : List ℕ :=
  match headerOf op with
  | none => []
  | some header => (header.operationsHeader.getD []).map BlockOperationHeader.operationId

/-- The proposal is this operation, for the offset of its header. -/
def ProposalOf (op : StoredOperation) (proposal : PendingBlockProposal) : Prop :=
  proposal.operation = op ∧ ∃ header, headerOf op = some header ∧
    header.operationsHeader.isSome ∧ proposal.offset = header.offset

theorem getBlock_eq_ok_iff (proposal : PendingBlockProposal) (frame : BlockHeaderFrame) :
    proposal.getBlock = .ok frame ↔ headerFrameOf proposal.operation = some frame := by
  simp only [PendingBlockProposal.getBlock, headerFrameOf]
  cases proposal.operation.frame.frame.reader with
  | none => simp [orError]
  | some reader =>
    simp only [orError_some, ok_bind, Option.bind_eq_bind, Option.bind_some]
    cases reader.operation with
    | blockPropose block =>
      cases block with
      | none => simp [orError]
      | some data =>
        simp only [orError_some, ok_bind]
        cases readHeaderFrame data <;> simp
    | entry data => simp
    | blockSign signature => simp
    | blockRefuse => simp
    | notInSchema code => simp

/-- What one operation adds to the parts of its group. -/
theorem groupParts_add_eq_ok (cell : Cell) (parts parts' : GroupParts) (op : StoredOperation)
    (h : parts.add cell op = .ok parts') :
    parts'.signatures = parts.signatures ++ (signatureOf op).toList ∧
      parts'.refusals = parts.refusals ++ (refusalOf op).toList ∧
      parts'.operations = parts.operations ++ proposedBy op ∧
      ((headerOf op = none ∧ parts'.proposal = parts.proposal) ∨
        ∃ proposal, parts'.proposal = some proposal ∧ ProposalOf op proposal) := by
  unfold GroupParts.add at h
  obtain ⟨reader, hreader, h⟩ := (bind_eq_ok_iff _ _ _).mp h
  rw [orError_eq_ok_iff] at hreader
  cases hbody : reader.operation with
  | blockPropose block =>
    simp only [hbody, bind_eq_ok_iff, orError_eq_ok_iff, liftError_eq_ok_iff, pure, Except.pure,
      Except.ok.injEq] at h
    obtain ⟨data, hdata, frame, hframe, header, hheader, headers, hheaders, nodeId, -, rfl⟩ := h
    have hof : headerOf op = some header := by
      simp [headerOf, headerFrameOf, hreader, hbody, hdata, hframe, hheader]
    refine ⟨?_, ?_, ?_, Or.inr ⟨_, rfl, rfl, header, hof, by simp [hheaders], rfl⟩⟩
    · simp [signatureOf, hreader, PendingBlockSignature.fromOperation, hbody]
    · simp [refusalOf, hreader, PendingBlockRefusal.fromOperation, hbody]
    · simp [proposedBy, hof, hheaders]
  | blockSign sig =>
    simp only [hbody, bind_eq_ok_iff, pure, Except.pure, Except.ok.injEq] at h
    obtain ⟨signature, hsig, rfl⟩ := h
    have hof : headerOf op = none := by
      simp [headerOf, headerFrameOf, hreader, hbody]
    refine ⟨?_, ?_, ?_, Or.inl ⟨hof, rfl⟩⟩
    · simp [signatureOf, hreader, hsig]
    · simp [refusalOf, hreader, PendingBlockRefusal.fromOperation, hbody]
    · simp [proposedBy, hof]
  | blockRefuse =>
    simp only [hbody, bind_eq_ok_iff, pure, Except.pure, Except.ok.injEq] at h
    obtain ⟨refusal, href, rfl⟩ := h
    have hof : headerOf op = none := by
      simp [headerOf, headerFrameOf, hreader, hbody]
    refine ⟨?_, ?_, ?_, Or.inl ⟨hof, rfl⟩⟩
    · simp [signatureOf, hreader, PendingBlockSignature.fromOperation, hbody]
    · simp [refusalOf, hreader, href]
    · simp [proposedBy, hof]
  | entry data =>
    simp only [hbody, pure, Except.pure, Except.ok.injEq] at h
    subst h
    have hof : headerOf op = none := by
      simp [headerOf, headerFrameOf, hreader, hbody]
    refine ⟨?_, ?_, ?_, Or.inl ⟨hof, rfl⟩⟩
    · simp [signatureOf, hreader, PendingBlockSignature.fromOperation, hbody]
    · simp [refusalOf, hreader, PendingBlockRefusal.fromOperation, hbody]
    · simp [proposedBy, hof]
  | notInSchema code => simp [hbody] at h

/-- What a whole group adds up to. The proposal is the last one of the group. -/
theorem groupParts_collect_eq_ok (cell : Cell) (ops : List StoredOperation)
    (parts parts' : GroupParts) (h : GroupParts.collect cell ops parts = .ok parts') :
    parts'.signatures = parts.signatures ++ ops.filterMap signatureOf ∧
      parts'.refusals = parts.refusals ++ ops.filterMap refusalOf ∧
      parts'.operations = parts.operations ++ ops.flatMap proposedBy ∧
      ((parts'.proposal = parts.proposal ∧ ∀ op ∈ ops, headerOf op = none) ∨
        ∃ op ∈ ops, ∃ proposal, parts'.proposal = some proposal ∧ ProposalOf op proposal) := by
  induction ops generalizing parts with
  | nil =>
    obtain rfl := Except.ok.inj h
    simp
  | cons op rest ih =>
    obtain ⟨mid, hmid, hrest⟩ := (bind_eq_ok_iff _ _ _).mp h
    obtain ⟨hsigs, hrefs, hops, hprop⟩ := groupParts_add_eq_ok cell parts mid op hmid
    obtain ⟨hsigs', hrefs', hops', hprop'⟩ := ih mid hrest
    refine ⟨?_, ?_, ?_, ?_⟩
    · rw [hsigs', hsigs, List.append_assoc]
      cases hs : signatureOf op <;> simp [hs]
    · rw [hrefs', hrefs, List.append_assoc]
      cases hr : refusalOf op <;> simp [hr]
    · rw [hops', hops, List.append_assoc, List.flatMap_cons]
    · rcases hprop' with ⟨hsame, hnone⟩ | ⟨op', hop', proposal, hp⟩
      · rcases hprop with ⟨hofnone, hkeep⟩ | ⟨proposal, hp, hof⟩
        · left
          refine ⟨hsame.trans hkeep, ?_⟩
          intro x hx
          rcases List.mem_cons.mp hx with rfl | hx
          · exact hofnone
          · exact hnone x hx
        · right
          exact ⟨op, List.mem_cons_self, proposal, hsame.trans hp, hof⟩
      · right
        exact ⟨op', List.mem_cons_of_mem _ hop', proposal, hp⟩

end Parts

section Sets

theorem get_addOperationBlock (groupId : ℕ) (m : Map ℕ (List ℕ)) (operationId id : ℕ) :
    (∃ groups, (addOperationBlock groupId m operationId).get id = some groups) ↔
      id = operationId ∨ ∃ groups, m.get id = some groups := by
  simp only [addOperationBlock, Map.get_insert]
  split_ifs with hid hmem <;> simp [hid]

theorem mem_addOperationBlock (groupId : ℕ) (m : Map ℕ (List ℕ)) (operationId id g : ℕ) :
    g ∈ ((addOperationBlock groupId m operationId).get id).getD [] ↔
      (id = operationId ∧ g = groupId) ∨ g ∈ (m.get id).getD [] := by
  simp only [addOperationBlock, Map.get_insert]
  by_cases hid : id = operationId
  · subst hid
    by_cases hmem : groupId ∈ (m.get id).getD []
    · simp only [if_pos hmem, if_true, Option.getD_some, true_and]
      constructor
      · exact Or.inr
      · rintro (rfl | h)
        · exact hmem
        · exact h
    · simp only [if_neg hmem, if_true, Option.getD_some, true_and, List.mem_append,
        List.mem_singleton]
      exact or_comm
  · simp [hid]

theorem get_foldl_addOperationBlock (groupId : ℕ) (ids : List ℕ) (m : Map ℕ (List ℕ)) (id : ℕ) :
    (∃ groups, (ids.foldl (addOperationBlock groupId) m).get id = some groups) ↔
      id ∈ ids ∨ ∃ groups, m.get id = some groups := by
  induction ids generalizing m with
  | nil => simp
  | cons x rest ih =>
    rw [List.foldl_cons, ih, get_addOperationBlock, List.mem_cons]
    tauto

theorem mem_foldl_addOperationBlock (groupId : ℕ) (ids : List ℕ) (m : Map ℕ (List ℕ))
    (id g : ℕ) : g ∈ ((ids.foldl (addOperationBlock groupId) m).get id).getD [] ↔
      (id ∈ ids ∧ g = groupId) ∨ g ∈ (m.get id).getD [] := by
  induction ids generalizing m with
  | nil => simp
  | cons x rest ih =>
    rw [List.foldl_cons, ih, mem_addOperationBlock, List.mem_cons]
    tauto

end Sets

section Maps
variable [Crates]

/-- The groups of an operation are those of the blocks that list it. -/
theorem mem_mapOperationsBlocks (blocks : Map ℕ PendingBlock) (id g : ℕ) :
    g ∈ ((mapOperationsBlocks blocks).get id).getD [] ↔
      ∃ block ∈ blocks.values, id ∈ block.operations ∧ g = block.groupId := by
  have hfold : ∀ (l : List PendingBlock) (m : Map ℕ (List ℕ)),
      g ∈ ((l.foldl (fun m block =>
        block.operations.foldl (addOperationBlock block.groupId) m) m).get id).getD [] ↔
      (∃ block ∈ l, id ∈ block.operations ∧ g = block.groupId) ∨ g ∈ (m.get id).getD [] := by
    intro l
    induction l with
    | nil => simp
    | cons block rest ih =>
      intro m
      rw [List.foldl_cons, ih, mem_foldl_addOperationBlock]
      simp only [List.mem_cons, exists_eq_or_imp]
      rw [or_left_comm, or_assoc]
  have h := hfold blocks.values .empty
  simpa [mapOperationsBlocks] using h

theorem get_mapOperationsBlocks (blocks : Map ℕ PendingBlock) (id : ℕ) :
    (∃ groups, (mapOperationsBlocks blocks).get id = some groups) ↔
      ∃ block ∈ blocks.values, id ∈ block.operations := by
  have hfold : ∀ (l : List PendingBlock) (m : Map ℕ (List ℕ)),
      (∃ groups, (l.foldl (fun m block =>
        block.operations.foldl (addOperationBlock block.groupId) m) m).get id = some groups) ↔
      (∃ block ∈ l, id ∈ block.operations) ∨ ∃ groups, m.get id = some groups := by
    intro l
    induction l with
    | nil => simp
    | cons block rest ih =>
      intro m
      rw [List.foldl_cons, ih, get_foldl_addOperationBlock]
      simp only [List.mem_cons, exists_eq_or_imp]
      rw [or_left_comm, or_assoc]
  have h := hfold blocks.values .empty
  simpa [mapOperationsBlocks] using h

theorem get_mapBlocksStatus (blocks : Map ℕ PendingBlock) (g : ℕ) :
    (mapBlocksStatus blocks).get g = (blocks.get g).map PendingBlock.status := by
  have hfold : ∀ (l : List (ℕ × PendingBlock)) (m : Map ℕ BlockStatus),
      l.Pairwise (fun a b => a.1 < b.1) →
      (l.foldl (fun m e => m.insert e.1 e.2.status) m).get g =
        ((find g l).map PendingBlock.status).or (m.get g) := by
    intro l
    induction l with
    | nil => simp [find]
    | cons e rest ih =>
      intro m hl
      obtain ⟨k, block⟩ := e
      obtain ⟨hlt, hrest⟩ := List.pairwise_cons.mp hl
      rw [List.foldl_cons, ih _ hrest, find]
      by_cases hg : g = k
      · have hnone : find g rest = none := by
          cases hfind : find g rest with
          | none => rfl
          | some b =>
            have hmem := (find_eq_some_iff rest hrest g b).mp hfind
            exact absurd (hlt _ hmem) (by simp [hg])
        rw [hnone, if_pos hg, Map.get_insert, if_pos hg]
        rfl
      · simp [hg]
  have h := hfold blocks.entries .empty blocks.sorted
  rw [mapBlocksStatus, h, Map.get_empty, Option.or_none, Map.get]

theorem mem_values_iff (blocks : Map ℕ PendingBlock) (block : PendingBlock) :
    block ∈ blocks.values ↔ ∃ g, blocks.get g = some block := by
  simp only [Map.values, List.mem_map, Prod.exists, exists_eq_right, Map.mem_entries_iff]

end Maps

section Order
variable [Crates]

theorem mem_inOrder_iff (pb : PendingBlocks) (hash : Sorting.HashOrder) (block : PendingBlock) :
    block ∈ pb.inOrder hash ↔ ∃ g, pb.blocks.get g = some block := by
  simp only [PendingBlocks.inOrder, List.mem_filterMap, Sorting.HashOrder.mem_order,
    Map.mem_keys_iff]
  constructor
  · rintro ⟨g, -, hg⟩
    exact ⟨g, hg⟩
  · rintro ⟨g, hg⟩
    exact ⟨g, ⟨block, hg⟩, hg⟩

theorem mem_potentialNextBlocks (pb : PendingBlocks) (hash : Sorting.HashOrder)
    (sorter : Sorting.Sorter PendingBlock bestFirst) (potential : List PendingBlock)
    (h : pb.potentialNextBlocks hash sorter = .ok potential) (block : PendingBlock) :
    block ∈ potential ↔
      (∃ g, pb.blocks.get g = some block) ∧ block.status = .nextPotential := by
  have hsort := (orPanic_eq_ok_iff _ _).mp h
  rw [(sorter.perm _ _ hsort).mem_iff, List.mem_filter, mem_inOrder_iff, decide_eq_true_eq]

end Order

section Reading
variable [Crates] {CS : Type} [ChainStore CS]

/-- A block is what its group in the pending store and the chain say. -/
structure BlockOf (config : CommitManagerConfig) (now : ℕ) (cell : Cell)
    (store : MemoryPendingStore) (chain : CS) (nextOffset groupId : ℕ) (block : PendingBlock) :
    Prop where
  groupId_eq : block.groupId = groupId
  group : ∃ ops, store.getGroupOperations groupId = some ops ∧
    block.signatures = ops.filterMap signatureOf ∧ block.refusals = ops.filterMap refusalOf ∧
    block.operations = ops.flatMap proposedBy ∧ ∃ op ∈ ops, ProposalOf op block.proposal
  hasMyRefusal_eq : block.hasMyRefusal = block.refusals.any fun r => r.nodeId = cell.localNode
  hasMySignature_eq :
    block.hasMySignature = block.signatures.any fun s => s.nodeId = cell.localNode
  status_eq : blockStatus chain groupId block.proposal.offset nextOffset
    (cell.hasQuorum block.signatures.length (some .chain))
    (cell.hasQuorum block.refusals.length (some .chain) || block.hasMyRefusal)
    (block.proposal.hasExpired config now) = .ok block.status

theorem pendingBlock_eq_ok (config : CommitManagerConfig) (now : ℕ) (cell : Cell)
    (store : MemoryPendingStore) (chain : CS) (nextOffset groupId : ℕ) (block : PendingBlock)
    (ops : List StoredOperation) (parts : GroupParts)
    (hops : store.getGroupOperations groupId = some ops)
    (hparts : GroupParts.collect cell ops ⟨[], none, [], []⟩ = .ok parts)
    (h : parts.pendingBlock config now cell chain nextOffset groupId = .ok block) :
    BlockOf config now cell store chain nextOffset groupId block := by
  obtain ⟨hsigs, hrefs, hids, hprop⟩ := groupParts_collect_eq_ok cell ops _ parts hparts
  simp only [GroupParts.pendingBlock, bind_eq_ok_iff, orPanic_eq_ok_iff, pure, Except.pure,
    Except.ok.injEq] at h
  obtain ⟨proposal, hproposal, status, hstatus, rfl⟩ := h
  have hof : ∃ op ∈ ops, ProposalOf op proposal := by
    rcases hprop with ⟨hsame, -⟩ | ⟨op, hop, p, hp, hof⟩
    · rw [hproposal] at hsame
      contradiction
    · rw [hproposal] at hp
      exact ⟨op, hop, Option.some.inj hp ▸ hof⟩
  exact ⟨rfl, ⟨ops, hops, by simpa using hsigs, by simpa using hrefs, by simpa using hids, hof⟩,
    rfl, rfl, hstatus⟩

/-- The blocks are those of the groups that the store has. -/
theorem readBlocks_eq_ok (config : CommitManagerConfig) (now : ℕ) (cell : Cell)
    (store : MemoryPendingStore) (chain : CS) (nextOffset : ℕ) (groups : List ℕ)
    (blocks blocks' : Map ℕ PendingBlock)
    (h : readBlocks config now cell store chain nextOffset groups blocks = .ok blocks') :
    (∀ g block, blocks'.get g = some block → blocks.get g = some block ∨
      (g ∈ groups ∧ BlockOf config now cell store chain nextOffset g block)) ∧
    (∀ g, (g ∈ groups ∧ (store.getGroupOperations g).isSome) ∨ (blocks.get g).isSome →
      (blocks'.get g).isSome) := by
  induction groups generalizing blocks with
  | nil =>
    obtain rfl := Except.ok.inj h
    exact ⟨fun g block hg => Or.inl hg, by simp⟩
  | cons groupId rest ih =>
    rw [readBlocks] at h
    split at h
    · rename_i hnone
      obtain ⟨hfrom, hhas⟩ := ih blocks h
      refine ⟨?_, ?_⟩
      · intro g block hg
        rcases hfrom g block hg with hold | ⟨hmem, hof⟩
        · exact Or.inl hold
        · exact Or.inr ⟨List.mem_cons_of_mem _ hmem, hof⟩
      · intro g hg
        apply hhas
        rcases hg with ⟨hmem, hsome⟩ | hold
        · rcases List.mem_cons.mp hmem with rfl | hmem
          · simp [hnone] at hsome
          · exact Or.inl ⟨hmem, hsome⟩
        · exact Or.inr hold
    · rename_i ops hops
      simp only [bind_eq_ok_iff] at h
      obtain ⟨parts, hparts, block, hblock, hrest⟩ := h
      have hof := pendingBlock_eq_ok config now cell store chain nextOffset groupId block ops
        parts hops hparts hblock
      obtain ⟨hfrom, hhas⟩ := ih _ hrest
      refine ⟨?_, ?_⟩
      · intro g b hg
        rcases hfrom g b hg with hold | ⟨hmem, hof'⟩
        · rw [Map.get_insert] at hold
          split_ifs at hold with hid
          · right
            rw [hid]
            exact ⟨List.mem_cons_self, Option.some.inj hold ▸ hof⟩
          · exact Or.inl hold
        · exact Or.inr ⟨List.mem_cons_of_mem _ hmem, hof'⟩
      · intro g hg
        apply hhas
        rw [Map.get_insert]
        by_cases hid : g = groupId
        · simp [hid]
        · rcases hg with ⟨hmem, hsome⟩ | hold
          · rcases List.mem_cons.mp hmem with rfl | hmem
            · exact absurd rfl hid
            · exact Or.inl ⟨hmem, hsome⟩
          · right
            rw [if_neg hid]
            exact hold

/-- The pending blocks at a tick, read off the two stores. -/
structure BlocksOf (config : CommitManagerConfig) (now : ℕ) (cell : Cell)
    (store : MemoryPendingStore) (chain : CS) (pb : PendingBlocks) : Prop where
  last : ∃ last, ChainStore.getLastBlock chain = .ok (some last) ∧
    ∀ g block, pb.blocks.get g = some block →
      BlockOf config now cell store chain last.nextOffset g block
  proposal : ∀ g block, pb.blocks.get g = some block →
    ∃ op, store.getOperation g = some op ∧ op.operationType = .blockPropose
  complete : ∀ g op, store.getOperation g = some op → op.operationType = .blockPropose →
    (store.getGroupOperations g).isSome → (pb.blocks.get g).isSome
  status : ∀ g, pb.blocksStatus.get g = (pb.blocks.get g).map PendingBlock.status
  operations : pb.operationsBlocks = mapOperationsBlocks pb.blocks

theorem pendingBlocks_new_eq_ok (config : CommitManagerConfig) (now : ℕ) (cell : Cell)
    (store : MemoryPendingStore) (chain : CS) (pb : PendingBlocks)
    (h : PendingBlocks.new config now cell store chain = .ok pb) :
    BlocksOf config now cell store chain pb := by
  simp only [PendingBlocks.new, store.operationsIter_unbounded, liftError_ok, ok_bind,
    bind_eq_ok_iff, liftError_eq_ok_iff,
    orError_eq_ok_iff, pure, Except.pure, Except.ok.injEq] at h
  obtain ⟨lastBlock, hlast, last, rfl, blocks, hblocks, rfl⟩ := h
  obtain ⟨hfrom, hhas⟩ := readBlocks_eq_ok config now cell store chain last.nextOffset _ _ _ hblocks
  have hof : ∀ g block, blocks.get g = some block →
      (∃ op, store.getOperation g = some op ∧ op.operationType = .blockPropose) ∧
        BlockOf config now cell store chain last.nextOffset g block := by
    intro g block hg
    rcases hfrom g block hg with hempty | ⟨hmem, hof⟩
    · simp at hempty
    · refine ⟨?_, hof⟩
      obtain ⟨op, hop, rfl⟩ := List.mem_map.mp hmem
      obtain ⟨hmem', htype⟩ := List.mem_filter.mp hop
      exact ⟨op, (store.mem_operations_iff op).mp hmem', of_decide_eq_true htype⟩
  refine ⟨⟨last, hlast, fun g block hg => (hof g block hg).2⟩, fun g block hg => (hof g block hg).1,
    ?_, get_mapBlocksStatus blocks, rfl⟩
  intro g op hop htype hgroup
  apply hhas g
  left
  refine ⟨List.mem_map.mpr ⟨op, ?_, store.getOperation_id g op hop⟩, hgroup⟩
  rw [List.mem_filter, store.mem_operations_iff, store.getOperation_id g op hop]
  exact ⟨hop, decide_eq_true htype⟩

end Reading

end Exocore.Engine
