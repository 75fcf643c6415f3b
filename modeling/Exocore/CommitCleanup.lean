import Exocore.ChainRunsIndex
import Exocore.ChainValidate
import Exocore.CommitLink

/-! What the cleanup of the pending store deletes, and when none of it is lost. -/
namespace Exocore.Engine

open Exocore.Core Exocore.Chain Exocore.Pending SortedMap

section Deleting
variable [Crates]

/-- A deletion at an id takes the operation of that id, and the group of that id. -/
def Takes (s : MemoryPendingStore) (t id : ℕ) : Prop := id = t ∨ (s.groupFrame t id).isSome

instance (s : MemoryPendingStore) (t id : ℕ) : Decidable (Takes s t id) :=
  inferInstanceAs (Decidable (_ ∨ _))

def EntryOf (s : MemoryPendingStore) (id : ℕ) : Prop :=
  ∃ op, s.getOperation id = some op ∧ op.operationType = .entry

theorem getOperation_delete (s : MemoryPendingStore) (t id : ℕ) :
    (s.deleteOperation t).getOperation id = if Takes s t id then none else s.getOperation id :=
  s.getOperation_deleteOperation t id

/-- A deletion takes no more and no less after another, other than what that one took. -/
theorem takes_delete (s : MemoryPendingStore) (t u id : ℕ) :
    Takes s t id ∨ Takes (s.deleteOperation t) u id ↔ Takes s t id ∨ Takes s u id := by
  have hframe := s.groupFrame_deleteOperation t u id
  by_cases hgroup : (s.groupsOperations.get t).isSome
  · rw [if_pos hgroup] at hframe
    by_cases hu : u = t
    · subst hu
      rw [if_pos rfl] at hframe
      simp only [Takes, hframe]
      simp
      tauto
    · rw [if_neg hu] at hframe
      simp only [Takes, hframe]
  · rw [if_neg hgroup] at hframe
    by_cases hgone : s.operationsTimeline.get t = some u ∧ id = t
    · rw [if_pos hgone] at hframe
      simp only [Takes, hgone.2, true_or]
    · rw [if_neg hgone] at hframe
      simp only [Takes, hframe]

theorem getOperation_foldl_delete (ts : List ℕ) (s : MemoryPendingStore) (id : ℕ) :
    ((∃ t ∈ ts, Takes s t id) → (ts.foldl MemoryPendingStore.deleteOperation s).getOperation id =
        none) ∧
      ((∀ t ∈ ts, ¬ Takes s t id) →
        (ts.foldl MemoryPendingStore.deleteOperation s).getOperation id = s.getOperation id ∧
        ∀ u, Takes (ts.foldl MemoryPendingStore.deleteOperation s) u id ↔ Takes s u id) := by
  induction ts generalizing s with
  | nil => simp
  | cons t rest ih =>
    obtain ⟨hgone, hkept⟩ := ih (s.deleteOperation t)
    have hafter (u : ℕ) (ht : ¬ Takes s t id) :
        Takes (s.deleteOperation t) u id ↔ Takes s u id := by
      have h := takes_delete s t u id
      simpa [ht] using h
    rw [List.foldl_cons]
    by_cases ht : Takes s t id
    · refine ⟨?_, ?_⟩
      · intro _
        by_cases hrest : ∃ u ∈ rest, Takes (s.deleteOperation t) u id
        · exact hgone hrest
        · rw [(hkept (by simpa using hrest)).1, getOperation_delete, if_pos ht]
      · intro hnone
        exact absurd ht (hnone t List.mem_cons_self)
    · refine ⟨?_, ?_⟩
      · rintro ⟨u, hu, htakes⟩
        rcases List.mem_cons.mp hu with rfl | hu
        · exact absurd htakes ht
        · exact hgone ⟨u, hu, (hafter u ht).mpr htakes⟩
      · intro hnone
        have hrest : ∀ u ∈ rest, ¬ Takes (s.deleteOperation t) u id := by
          intro u hu
          rw [hafter u ht]
          exact hnone u (List.mem_cons_of_mem _ hu)
        obtain ⟨hget, htakes⟩ := hkept hrest
        refine ⟨?_, ?_⟩
        · rw [hget, getOperation_delete, if_neg ht]
        · intro u
          rw [htakes, hafter u ht]

end Deleting

section Blocks
variable [Crates] {CS : Type}

/-- The proposal was committed or refused, deep enough as its header says. -/
structure CleanedUp (m : CommitManager) (lastHeight : ℕ) (block : PendingBlock) : Prop where
  past : block.status = .pastCommitted ∨ block.status = .pastRefused
  deep : ∃ header, headerOf block.proposal.operation = some header ∧
    m.config.operationsCleanupAfterBlockDepth ≤ lastHeight - header.height

/-- The ids that are deleted for a block. -/
def cleanupIds (m : CommitManager) (lastHeight : ℕ) (block : PendingBlock) : List ℕ :=
  match headerOf block.proposal.operation with
  | none => []
  | some header =>
    if (block.status = .pastCommitted ∨ block.status = .pastRefused) ∧
        m.config.operationsCleanupAfterBlockDepth ≤ lastHeight - header.height then
      block.groupId :: if block.status = .pastCommitted then block.operations else []
    else []

theorem mem_cleanupIds_iff (m : CommitManager) (lastHeight : ℕ) (block : PendingBlock) (t : ℕ) :
    t ∈ cleanupIds m lastHeight block ↔ CleanedUp m lastHeight block ∧
      (t = block.groupId ∨ block.status = .pastCommitted ∧ t ∈ block.operations) := by
  unfold cleanupIds
  cases hheader : headerOf block.proposal.operation with
  | none =>
    simp only [List.not_mem_nil, false_iff, not_and]
    rintro ⟨-, header, hsome, -⟩
    rw [hheader] at hsome
    contradiction
  | some header =>
    have hiff : CleanedUp m lastHeight block ↔
        (block.status = .pastCommitted ∨ block.status = .pastRefused) ∧
          m.config.operationsCleanupAfterBlockDepth ≤ lastHeight - header.height := by
      constructor
      · rintro ⟨hpast, header', hsome, hdeep⟩
        rw [hheader] at hsome
        obtain rfl := Option.some.inj hsome
        exact ⟨hpast, hdeep⟩
      · rintro ⟨hpast, hdeep⟩
        exact ⟨hpast, header, hheader, hdeep⟩
    rw [hiff]
    by_cases hclean : (block.status = .pastCommitted ∨ block.status = .pastRefused) ∧
        m.config.operationsCleanupAfterBlockDepth ≤ lastHeight - header.height
    · simp only [if_pos hclean, List.mem_cons]
      rw [iff_true_intro hclean, true_and]
      by_cases hcommitted : block.status = .pastCommitted
      · rw [if_pos hcommitted, iff_true_intro hcommitted, true_and]
      · rw [if_neg hcommitted, iff_false_intro hcommitted, false_and]
        simp
    · simp only [if_neg hclean, List.not_mem_nil, false_iff]
      exact fun h => hclean h.1

theorem getBlock_of_headerOf (proposal : PendingBlockProposal) (header : BlockHeader)
    (h : headerOf proposal.operation = some header) :
    ∃ frame, proposal.getBlock = .ok frame ∧ frame.reader = some header := by
  simp only [headerOf, Option.bind_eq_bind, Option.bind_eq_some_iff] at h
  obtain ⟨frame, hframe, hreader⟩ := h
  exact ⟨frame, (getBlock_eq_ok_iff _ _).mpr hframe, hreader⟩

theorem cleanupBlock_eq (m : CommitManager) (lastHeight : ℕ) (block : PendingBlock)
    (hreads : (headerOf block.proposal.operation).isSome) (s : CommitState CS) :
    (m.cleanupBlock lastHeight block s).1 = .ok () ∧
      (m.cleanupBlock lastHeight block s).2.chainStore = s.chainStore ∧
      (m.cleanupBlock lastHeight block s).2.pendingStore =
        (cleanupIds m lastHeight block).foldl MemoryPendingStore.deleteOperation s.pendingStore := by
  obtain ⟨header, hheader⟩ := Option.isSome_iff_exists.mp hreads
  obtain ⟨frame, hframe, hreader⟩ := getBlock_of_headerOf _ _ hheader
  rw [CommitManager.cleanupBlock, cleanupIds, hheader]
  by_cases hpast : block.status = .pastCommitted ∨ block.status = .pastRefused
  · rw [if_pos hpast, hframe]
    simp only [Action.lift_ok_bind, hreader, orError_some, hpast, true_and]
    by_cases hdeep : lastHeight - header.height ≥ m.config.operationsCleanupAfterBlockDepth
    · rw [if_pos hdeep, if_pos hdeep]
      by_cases hcommitted : block.status = .pastCommitted
      · simp only [hcommitted, if_true, Action.bind_apply, deleteOperation, deleteOperations_eq,
          setPendingLastCleanupBlock, List.foldl_cons, and_self]
      · simp only [hcommitted, if_false, Action.bind_apply, deleteOperation,
          setPendingLastCleanupBlock, List.foldl_cons, List.foldl_nil, and_self]
    · rw [if_neg hdeep, if_neg hdeep]
      exact ⟨rfl, rfl, rfl⟩
  · have hnot : ¬ ((block.status = .pastCommitted ∨ block.status = .pastRefused) ∧
        m.config.operationsCleanupAfterBlockDepth ≤ lastHeight - header.height) :=
      fun h => hpast h.1
    simp only [if_neg hpast, if_neg hnot]
    exact ⟨rfl, rfl, rfl⟩

theorem cleanupBlocks_eq (m : CommitManager) (lastHeight : ℕ) (blocks : List PendingBlock)
    (hreads : ∀ block ∈ blocks, (headerOf block.proposal.operation).isSome) (s : CommitState CS) :
    (m.cleanupBlocks lastHeight blocks s).1 = .ok () ∧
      (m.cleanupBlocks lastHeight blocks s).2.chainStore = s.chainStore ∧
      (m.cleanupBlocks lastHeight blocks s).2.pendingStore =
        (blocks.flatMap (cleanupIds m lastHeight)).foldl MemoryPendingStore.deleteOperation
          s.pendingStore := by
  induction blocks generalizing s with
  | nil => exact ⟨rfl, rfl, rfl⟩
  | cons block rest ih =>
    obtain ⟨hok, hchain, hstore⟩ := cleanupBlock_eq m lastHeight block
      (hreads block List.mem_cons_self) s
    obtain ⟨hok', hchain', hstore'⟩ := ih (fun b hb => hreads b (List.mem_cons_of_mem _ hb))
      (m.cleanupBlock lastHeight block s).2
    have hbind := Action.bind_of_ok _ (fun _ => m.cleanupBlocks lastHeight rest) s _ _
      (Action.eq_ok_of_fst _ s () hok)
    rw [CommitManager.cleanupBlocks, hbind]
    refine ⟨hok', hchain'.trans hchain, ?_⟩
    rw [hstore', hstore, List.flatMap_cons, List.foldl_append]

end Blocks

section Dangling
variable [Crates]

/-- The operation is in the block, not only its proposal. -/
def Contains (b : DataBlock) (id : ℕ) : Prop :=
  ∃ frames, b.operations = .ok frames ∧ ∃ f ∈ frames, ∃ r, f.frame.reader = some r ∧
    r.operationId = id

/-- The block has the operation, and is that far below the last one. -/
def DeepIn (depth lastHeight : ℕ) (b : DataBlock) (id : ℕ) : Prop :=
  Contains b id ∧ ∃ height, b.getHeight = .ok height ∧ height + depth ≤ lastHeight

/-- The block that the chain store gives for the id, with its height. -/
def FoundAt (chain : DirectoryChainStore) (id : ℕ) (b : DataBlock) (height : ℕ) : Prop :=
  chain.getBlockByOperationId id = .ok (some b) ∧ b.getHeight = .ok height

/-- No proposal lists the id, and the chain has it at what counts as enough depth. -/
def Dangles (m : CommitManager) (i : TickInput) (pb : PendingBlocks) (chain : DirectoryChainStore)
    (lastHeight id : ℕ) : Prop :=
  pb.operationsBlocks.get id = none ∧ ∃ b height depth, FoundAt chain id b height ∧
    blockDepth i.overflowChecks lastHeight height = .ok depth ∧
    m.config.operationsCleanupAfterBlockDepth ≤ depth

theorem framed_getHeight (b : DataBlock) (h : Framed b) : ∃ height, b.getHeight = .ok height := by
  obtain ⟨header, hheader, -⟩ := h.headerAgrees
  refine ⟨header.height, ?_⟩
  simp [DataBlock.getHeight, DataBlock.headerReader, hheader, pure, Except.pure]

theorem storeHolds_framed (strict : Prop) (s : DirectoryChainStore) (blocks : List DataBlock)
    (h : StoreHolds strict s blocks) (b : DataBlock) (hb : b ∈ blocks) : Framed b := by
  obtain ⟨stop, i, hsegs, -⟩ := h
  exact segmentsHold_framed _ _ _ _ hsegs b hb

theorem found_cases (s : DirectoryChainStore) (blocks : List DataBlock)
    (h : StoreHolds True s blocks) (id : ℕ) :
    s.getBlockByOperationId id = .ok none ∨
      ∃ b height, b ∈ blocks ∧ HasOperation b id ∧ FoundAt s id b height := by
  rcases getBlockByOperationId_eq s blocks h id with ⟨b, hb, hid, hget⟩ | ⟨-, hget⟩
  · right
    obtain ⟨height, hheight⟩ := framed_getHeight b (storeHolds_framed _ _ _ h b hb)
    exact ⟨b, height, hb, hid, hget, hheight⟩
  · exact Or.inl hget

/-- The subtraction of heights panics on the block of some operation that no proposal lists. -/
def DepthPanics (i : TickInput) (pb : PendingBlocks) (chain : DirectoryChainStore)
    (lastHeight id : ℕ) : Prop :=
  pb.operationsBlocks.get id = none ∧ ∃ b height, FoundAt chain id b height ∧
    blockDepth i.overflowChecks lastHeight height = .error .panic

omit [Crates] in
theorem blockDepth_cases (overflowChecks : Bool) (lastHeight height : ℕ) :
    blockDepth overflowChecks lastHeight height = .error .panic ∨
      ∃ depth, blockDepth overflowChecks lastHeight height = .ok depth := by
  unfold blockDepth
  split_ifs with hle hchecks
  · exact Or.inr ⟨_, rfl⟩
  · exact Or.inl rfl
  · exact Or.inr ⟨_, rfl⟩

theorem foundAt_unique (chain : DirectoryChainStore) (id : ℕ) (b c : DataBlock) (hb hc : ℕ)
    (h : FoundAt chain id b hb) (h' : FoundAt chain id c hc) : b = c ∧ hb = hc := by
  have hbc : b = c := by
    have heq := h.1.symm.trans h'.1
    exact Option.some.inj (Except.ok.inj heq)
  subst hbc
  exact ⟨rfl, Except.ok.inj (h.2.symm.trans h'.2)⟩

theorem mem_cons_of_not (dangles : ℕ → Prop) (op : StoredOperation) (rest : List StoredOperation)
    (h : ¬ dangles op.operationId) (t : ℕ) :
    (dangles t ∧ ∃ x ∈ op :: rest, x.operationId = t) ↔
      (dangles t ∧ ∃ x ∈ rest, x.operationId = t) := by
  constructor
  · rintro ⟨hd, x, hx, rfl⟩
    rcases List.mem_cons.mp hx with rfl | hx
    · exact absurd hd h
    · exact ⟨hd, x, hx, rfl⟩
  · rintro ⟨hd, x, hx, rfl⟩
    exact ⟨hd, x, List.mem_cons_of_mem _ hx, rfl⟩

/-- What one operation adds: nothing, a panic of the depth, or itself where it dangles. -/
theorem danglingOperations_cons (m : CommitManager) (i : TickInput) (pb : PendingBlocks)
    (chain : DirectoryChainStore) (blocks : List DataBlock) (hchain : StoreHolds True chain blocks)
    (lastHeight : ℕ) (op : StoredOperation) (rest : List StoredOperation) :
    (¬ DepthPanics i pb chain lastHeight op.operationId ∧
        ¬ Dangles m i pb chain lastHeight op.operationId ∧
        danglingOperations m.config i.overflowChecks pb chain lastHeight (op :: rest) =
          danglingOperations m.config i.overflowChecks pb chain lastHeight rest) ∨
      (DepthPanics i pb chain lastHeight op.operationId ∧
        danglingOperations m.config i.overflowChecks pb chain lastHeight (op :: rest) =
          .error .panic) ∨
      ¬ DepthPanics i pb chain lastHeight op.operationId ∧
        Dangles m i pb chain lastHeight op.operationId ∧
        danglingOperations m.config i.overflowChecks pb chain lastHeight (op :: rest) =
          (danglingOperations m.config i.overflowChecks pb chain lastHeight rest >>= fun others =>
            pure (op.operationId :: others)) := by
  rw [danglingOperations]
  cases hlisted : pb.operationsBlocks.get op.operationId with
  | some groups =>
    left
    rw [if_pos (by simp)]
    refine ⟨?_, ?_, rfl⟩
    · rintro ⟨hnone, -⟩
      rw [hlisted] at hnone
      contradiction
    · rintro ⟨hnone, -⟩
      rw [hlisted] at hnone
      contradiction
  | none =>
    rw [if_neg (by simp)]
    rcases found_cases chain blocks hchain op.operationId with hnone | ⟨b, height, -, -, hfound⟩
    · left
      have hnot (b : DataBlock) (height : ℕ) : ¬ FoundAt chain op.operationId b height := by
        rintro ⟨hget, -⟩
        rw [hnone] at hget
        exact absurd (Except.ok.inj hget) (by simp)
      have hlookup : ChainStore.getBlockByOperationId chain op.operationId = .ok none := hnone
      rw [hlookup]
      refine ⟨?_, ?_, rfl⟩
      · rintro ⟨-, b, height, hf, -⟩
        exact hnot b height hf
      · rintro ⟨-, b, height, -, hf, -⟩
        exact hnot b height hf
    · have hlookup : ChainStore.getBlockByOperationId chain op.operationId = .ok (some b) :=
        hfound.1
      rw [hlookup]
      simp only [liftError_ok, ok_bind, hfound.2]
      rcases blockDepth_cases i.overflowChecks lastHeight height with hpanic | ⟨depth, hdepth⟩
      · right
        left
        rw [hpanic]
        exact ⟨⟨hlisted, b, height, hfound, hpanic⟩, rfl⟩
      have hnot : ¬ DepthPanics i pb chain lastHeight op.operationId := by
        rintro ⟨-, c, hc, hf, hpanic⟩
        obtain ⟨-, rfl⟩ := foundAt_unique chain _ _ _ _ _ hfound hf
        rw [hdepth] at hpanic
        contradiction
      rw [hdepth, ok_bind]
      by_cases hdeep : depth ≥ m.config.operationsCleanupAfterBlockDepth
      · right
        right
        refine ⟨hnot, ⟨hlisted, b, height, depth, hfound, hdepth, hdeep⟩, ?_⟩
        simp only [if_pos hdeep]
      · left
        refine ⟨hnot, ?_, ?_⟩
        · rintro ⟨-, c, hc, d, hf, hd, hle⟩
          obtain ⟨-, rfl⟩ := foundAt_unique chain _ _ _ _ _ hfound hf
          rw [hdepth] at hd
          obtain rfl := Except.ok.inj hd
          exact hdeep hle
        · simp only [if_neg hdeep]
          cases danglingOperations m.config i.overflowChecks pb chain lastHeight rest <;> rfl

/-- The pass panics on the first height above the last one, else it lists what dangles. -/
theorem danglingOperations_eq (m : CommitManager) (i : TickInput) (pb : PendingBlocks)
    (chain : DirectoryChainStore) (blocks : List DataBlock) (hchain : StoreHolds True chain blocks)
    (lastHeight : ℕ) (ops : List StoredOperation) :
    ((∃ op ∈ ops, DepthPanics i pb chain lastHeight op.operationId) →
      danglingOperations m.config i.overflowChecks pb chain lastHeight ops = .error .panic) ∧
    ((∀ op ∈ ops, ¬ DepthPanics i pb chain lastHeight op.operationId) →
      ∃ ids, danglingOperations m.config i.overflowChecks pb chain lastHeight ops = .ok ids ∧
        ∀ t, t ∈ ids ↔ Dangles m i pb chain lastHeight t ∧ ∃ op ∈ ops, op.operationId = t) := by
  induction ops with
  | nil =>
    refine ⟨?_, fun _ => ⟨[], rfl, by simp⟩⟩
    rintro ⟨op, hop, -⟩
    contradiction
  | cons op rest ih =>
    obtain ⟨ihpanic, ihok⟩ := ih
    rcases danglingOperations_cons m i pb chain blocks hchain lastHeight op rest with
      ⟨hnot, hskip, heq⟩ | ⟨hpanics, heq⟩ | ⟨hnot, hdangles, heq⟩
    · rw [heq]
      refine ⟨?_, ?_⟩
      · rintro ⟨op', hop', hpanics⟩
        rcases List.mem_cons.mp hop' with rfl | hop'
        · exact absurd hpanics hnot
        · exact ihpanic ⟨op', hop', hpanics⟩
      · intro hnone
        obtain ⟨ids, hids, hmem⟩ := ihok fun x hx => hnone x (List.mem_cons_of_mem _ hx)
        refine ⟨ids, hids, ?_⟩
        intro t
        rw [hmem, mem_cons_of_not _ op rest hskip]
    · rw [heq]
      exact ⟨fun _ => rfl, fun hnone => absurd hpanics (hnone op List.mem_cons_self)⟩
    · rw [heq]
      refine ⟨?_, ?_⟩
      · rintro ⟨op', hop', hpanics⟩
        rcases List.mem_cons.mp hop' with rfl | hop'
        · exact absurd hpanics hnot
        · rw [ihpanic ⟨op', hop', hpanics⟩]
          rfl
      · intro hnone
        obtain ⟨ids, hids, hmem⟩ := ihok fun x hx => hnone x (List.mem_cons_of_mem _ hx)
        refine ⟨op.operationId :: ids, by rw [hids]; rfl, ?_⟩
        intro t
        rw [List.mem_cons, hmem]
        constructor
        · rintro (rfl | ⟨hd, x, hx, rfl⟩)
          · exact ⟨hdangles, op, List.mem_cons_self, rfl⟩
          · exact ⟨hd, x, List.mem_cons_of_mem _ hx, rfl⟩
        · rintro ⟨hd, x, hx, rfl⟩
          rcases List.mem_cons.mp hx with rfl | hx
          · exact Or.inl rfl
          · exact Or.inr ⟨hd, x, hx, rfl⟩

end Dangling

section Cleanup
variable [Crates]

/-- The pending operation is not deleted for a proposal. -/
def Remains (m : CommitManager) (pb : PendingBlocks) (store : MemoryPendingStore)
    (lastHeight id : ℕ) : Prop :=
  (store.getOperation id).isSome ∧ ∀ g block, pb.blocks.get g = some block →
    ∀ t ∈ cleanupIds m lastHeight block, ¬ Takes store t id

/-- The second pass is made, and ends without a panic. -/
def DanglingRuns (m : CommitManager) (i : TickInput) (pb : PendingBlocks)
    (store : MemoryPendingStore) (chain : DirectoryChainStore) (lastHeight : ℕ) : Prop :=
  0 < pb.entriesOperationsCount - pb.operationsBlocks.size ∧
    ∀ t, Remains m pb store lastHeight t → ¬ DepthPanics i pb chain lastHeight t

theorem mem_targets_iff (m : CommitManager) (pb : PendingBlocks) (hash : Sorting.HashOrder)
    (lastHeight t : ℕ) : t ∈ (pb.inOrder hash).flatMap (cleanupIds m lastHeight) ↔
      ∃ g block, pb.blocks.get g = some block ∧ t ∈ cleanupIds m lastHeight block := by
  rw [List.mem_flatMap]
  constructor
  · rintro ⟨block, hblock, ht⟩
    obtain ⟨g, hg⟩ := (mem_inOrder_iff pb hash block).mp hblock
    exact ⟨g, block, hg, ht⟩
  · rintro ⟨g, block, hg, ht⟩
    exact ⟨block, (mem_inOrder_iff pb hash block).mpr ⟨g, hg⟩, ht⟩

theorem exists_operation_iff (s : MemoryPendingStore) (t : ℕ) :
    (∃ op ∈ s.operations, op.operationId = t) ↔ (s.getOperation t).isSome := by
  constructor
  · rintro ⟨op, hop, rfl⟩
    rw [(s.mem_operations_iff op).mp hop]
    rfl
  · intro hsome
    obtain ⟨op, hop⟩ := Option.isSome_iff_exists.mp hsome
    have hid := s.getOperation_id t op hop
    refine ⟨op, (s.mem_operations_iff op).mpr ?_, hid⟩
    rw [hid]
    exact hop

/-- What is left of the store after the first pass. -/
theorem remains_iff (m : CommitManager) (pb : PendingBlocks) (hash : Sorting.HashOrder)
    (store : MemoryPendingStore) (lastHeight t : ℕ) :
    ((((pb.inOrder hash).flatMap (cleanupIds m lastHeight)).foldl MemoryPendingStore.deleteOperation
      store).getOperation t).isSome ↔ Remains m pb store lastHeight t := by
  obtain ⟨hgone, hkept⟩ := getOperation_foldl_delete
    ((pb.inOrder hash).flatMap (cleanupIds m lastHeight)) store t
  by_cases htaken : ∃ u ∈ (pb.inOrder hash).flatMap (cleanupIds m lastHeight), Takes store u t
  · rw [hgone htaken]
    refine iff_of_false (by simp) ?_
    rintro ⟨-, hall⟩
    obtain ⟨u, hu, htakes⟩ := htaken
    obtain ⟨g, block, hg, hmem⟩ := (mem_targets_iff m pb hash lastHeight u).mp hu
    exact hall g block hg u hmem htakes
  · rw [(hkept (by simpa using htaken)).1]
    constructor
    · intro hsome
      refine ⟨hsome, ?_⟩
      intro g block hg u hu htakes
      exact htaken ⟨u, (mem_targets_iff m pb hash lastHeight u).mpr ⟨g, block, hg, hu⟩, htakes⟩
    · intro hremains
      exact hremains.1

/-- What the second pass deletes, of the store that it finds. -/
theorem cleanupDangling_deletes_iff (m : CommitManager) (i : TickInput) (pb : PendingBlocks)
    (s : CommitState DirectoryChainStore) (blocks : List DataBlock) (lastHeight : ℕ)
    (hchain : StoreHolds True s.chainStore blocks) (id : ℕ) :
    (m.cleanupDangling i pb lastHeight s).2.pendingStore.getOperation id = none ↔
      s.pendingStore.getOperation id = none ∨
        (0 < pb.entriesOperationsCount - pb.operationsBlocks.size ∧
          ∀ t, (s.pendingStore.getOperation t).isSome →
            ¬ DepthPanics i pb s.chainStore lastHeight t) ∧
          ∃ t, (s.pendingStore.getOperation t).isSome ∧
            Dangles m i pb s.chainStore lastHeight t ∧ Takes s.pendingStore t id := by
  rw [CommitManager.cleanupDangling]
  by_cases happrox : 0 < pb.entriesOperationsCount - pb.operationsBlocks.size
  · rw [if_pos happrox, Action.get_bind, s.pendingStore.operationsIter_unbounded]
    simp only [liftError_ok, Action.lift_ok_bind, happrox, true_and]
    obtain ⟨hpanic, hok⟩ := danglingOperations_eq m i pb s.chainStore blocks hchain lastHeight
      s.pendingStore.operations
    by_cases hpanics : ∃ op ∈ s.pendingStore.operations,
        DepthPanics i pb s.chainStore lastHeight op.operationId
    · rw [hpanic hpanics]
      obtain ⟨op, hop, hp⟩ := hpanics
      have hsome := (exists_operation_iff s.pendingStore op.operationId).mp ⟨op, hop, rfl⟩
      constructor
      · intro hnone
        exact Or.inl hnone
      · rintro (hnone | ⟨hall, -⟩)
        · exact hnone
        · exact absurd hp (hall _ hsome)
    · obtain ⟨ids, hids, hmem⟩ := hok (by simpa using hpanics)
      rw [hids]
      simp only [Action.lift_ok_bind, deleteOperations_eq]
      have hnever : ∀ t, (s.pendingStore.getOperation t).isSome →
          ¬ DepthPanics i pb s.chainStore lastHeight t := by
        intro t ht hp
        obtain ⟨op, hop, rfl⟩ := (exists_operation_iff s.pendingStore t).mpr ht
        exact hpanics ⟨op, hop, hp⟩
      simp only [exists_operation_iff] at hmem
      obtain ⟨hgone, hkept⟩ := getOperation_foldl_delete ids s.pendingStore id
      by_cases htaken : ∃ t ∈ ids, Takes s.pendingStore t id
      · refine iff_of_true (hgone htaken) (Or.inr ⟨hnever, ?_⟩)
        obtain ⟨t, ht, htakes⟩ := htaken
        obtain ⟨hd, hsome⟩ := (hmem t).mp ht
        exact ⟨t, hsome, hd, htakes⟩
      · rw [(hkept (by simpa using htaken)).1]
        constructor
        · intro hnone
          exact Or.inl hnone
        · rintro (hnone | ⟨-, t, hsome, hd, htakes⟩)
          · exact hnone
          · exact absurd ⟨t, (hmem t).mpr ⟨hd, hsome⟩, htakes⟩ htaken
  · rw [if_neg happrox]
    constructor
    · intro hnone
      exact Or.inl hnone
    · rintro (hnone | ⟨⟨hpos, -⟩, -⟩)
      · exact hnone
      · exact absurd hpos happrox

/-- The second pass starts from the store that the first leaves. -/
theorem maybeCleanupPendingStore_eq {CS : Type} [ChainStore CS] (m : CommitManager)
    (i : TickInput) (pb : PendingBlocks) (s : CommitState CS) (tip : DataBlock) (lastHeight : ℕ)
    (hlast : ChainStore.getLastBlock s.chainStore = .ok (some tip))
    (hheight : tip.getHeight = .ok lastHeight)
    (hreads : ∀ g block, pb.blocks.get g = some block →
      (headerOf block.proposal.operation).isSome) :
    m.maybeCleanupPendingStore i pb s = m.cleanupDangling i pb lastHeight
        (m.cleanupBlocks lastHeight (pb.inOrder i.blocksOrder) s).2 ∧
      (m.cleanupBlocks lastHeight (pb.inOrder i.blocksOrder) s).2.chainStore = s.chainStore ∧
      (m.cleanupBlocks lastHeight (pb.inOrder i.blocksOrder) s).2.pendingStore =
        ((pb.inOrder i.blocksOrder).flatMap (cleanupIds m lastHeight)).foldl
          MemoryPendingStore.deleteOperation s.pendingStore := by
  obtain ⟨hok, hkeep, hstore⟩ := cleanupBlocks_eq m lastHeight (pb.inOrder i.blocksOrder) (by
    intro block hblock
    obtain ⟨g, hg⟩ := (mem_inOrder_iff pb _ block).mp hblock
    exact hreads g block hg) s
  refine ⟨?_, hkeep, hstore⟩
  rw [CommitManager.maybeCleanupPendingStore, Action.get_bind, hlast]
  simp only [liftError_ok, Action.lift_ok_bind, orError_some, hheight]
  exact Action.bind_of_ok _ _ _ _ _ (Action.eq_ok_of_fst _ _ _ hok)

/-- What the cleanup deletes: by the proposals, and then by what dangles. -/
theorem cleanup_deletes_iff (m : CommitManager) (i : TickInput) (pb : PendingBlocks)
    (s : CommitState DirectoryChainStore) (blocks : List DataBlock) (tip : DataBlock)
    (lastHeight : ℕ) (hchain : StoreHolds True s.chainStore (blocks ++ [tip]))
    (hheight : tip.getHeight = .ok lastHeight)
    (hreads : ∀ g block, pb.blocks.get g = some block →
      (headerOf block.proposal.operation).isSome)
    (id : ℕ) (hid : (s.pendingStore.getOperation id).isSome) :
    (m.maybeCleanupPendingStore i pb s).2.pendingStore.getOperation id = none ↔
      (∃ g block, pb.blocks.get g = some block ∧ ∃ t ∈ cleanupIds m lastHeight block,
        Takes s.pendingStore t id) ∨
      (DanglingRuns m i pb s.pendingStore s.chainStore lastHeight ∧
        ∃ t, Remains m pb s.pendingStore lastHeight t ∧
          Dangles m i pb s.chainStore lastHeight t ∧ Takes s.pendingStore t id) := by
  have hlast : s.chainStore.getLastBlock = .ok (some tip) := by
    rw [(storeHolds_readsAs _ _ _ hchain).getLastBlock, List.getLast?_concat]
  obtain ⟨hfirst, hkeep, hstore⟩ :=
    maybeCleanupPendingStore_eq m i pb s tip lastHeight hlast hheight hreads
  have hchain₁ : StoreHolds True
      (m.cleanupBlocks lastHeight (pb.inOrder i.blocksOrder) s).2.chainStore (blocks ++ [tip]) := by
    rw [hkeep]
    exact hchain
  rw [hfirst, cleanupDangling_deletes_iff m i pb _ _ lastHeight hchain₁, hkeep, hstore]
  simp only [remains_iff m pb i.blocksOrder s.pendingStore lastHeight]
  obtain ⟨hgone, hkept⟩ := getOperation_foldl_delete
    ((pb.inOrder i.blocksOrder).flatMap (cleanupIds m lastHeight)) s.pendingStore id
  -- whether the first pass has taken the operation
  by_cases htaken : ∃ t ∈ (pb.inOrder i.blocksOrder).flatMap (cleanupIds m lastHeight),
      Takes s.pendingStore t id
  · refine iff_of_true (Or.inl (hgone htaken)) (Or.inl ?_)
    obtain ⟨t, ht, htakes⟩ := htaken
    obtain ⟨g, block, hg, hmem⟩ := (mem_targets_iff m pb i.blocksOrder lastHeight t).mp ht
    exact ⟨g, block, hg, t, hmem, htakes⟩
  · obtain ⟨hsame, htakes⟩ := hkept (by simpa using htaken)
    rw [hsame]
    simp only [htakes]
    have hnone : s.pendingStore.getOperation id ≠ none := Option.isSome_iff_ne_none.mp hid
    have hfirst : ¬ ∃ g block, pb.blocks.get g = some block ∧
        ∃ t ∈ cleanupIds m lastHeight block, Takes s.pendingStore t id := by
      rintro ⟨g, block, hg, t, ht, htakes⟩
      exact htaken ⟨t, (mem_targets_iff m pb i.blocksOrder lastHeight t).mpr ⟨g, block, hg, ht⟩,
        htakes⟩
    rw [iff_false_intro hnone, iff_false_intro hfirst, false_or, false_or]
    rfl

/-- Where an entry that is deleted was not in the chain as the code takes it to be, the
condition asks that the chain has it elsewhere. -/
structure CleanupFits (m : CommitManager) (i : TickInput) (pb : PendingBlocks)
    (s : CommitState DirectoryChainStore) (blocks : List DataBlock) (lastHeight : ℕ) : Prop where
  /-- An entry stands in the group of a proposal. -/
  group : ∀ g block, pb.blocks.get g = some block → CleanedUp m lastHeight block →
    ∀ id, EntryOf s.pendingStore id → Takes s.pendingStore block.groupId id →
      ∃ b ∈ blocks, DeepIn m.config.operationsCleanupAfterBlockDepth lastHeight b id
  /-- A committed proposal lists an entry that the block at its offset does not have, or that
  is not that deep. -/
  listed : ∀ g block, pb.blocks.get g = some block → CleanedUp m lastHeight block →
    block.status = .pastCommitted → ∀ id ∈ block.operations, EntryOf s.pendingStore id →
      (¬ ∃ b ∈ blocks, b.offset = block.proposal.offset ∧
        DeepIn m.config.operationsCleanupAfterBlockDepth lastHeight b id) →
      ∃ b ∈ blocks, DeepIn m.config.operationsCleanupAfterBlockDepth lastHeight b id
  /-- An entry stands in the group of an operation that a committed proposal lists. -/
  foreign : ∀ g block, pb.blocks.get g = some block → CleanedUp m lastHeight block →
    block.status = .pastCommitted → ∀ t ∈ block.operations, ∀ id, id ≠ t →
      EntryOf s.pendingStore id → Takes s.pendingStore t id →
      ∃ b ∈ blocks, DeepIn m.config.operationsCleanupAfterBlockDepth lastHeight b id
  /-- An entry goes with another operation that dangles, is only the proposal of the block it
  was found for, or that block is above the last height. -/
  dangling : DanglingRuns m i pb s.pendingStore s.chainStore lastHeight →
    ∀ t, Remains m pb s.pendingStore lastHeight t → Dangles m i pb s.chainStore lastHeight t →
      ∀ id, EntryOf s.pendingStore id → Takes s.pendingStore t id →
      (¬ (id = t ∧ ∃ b height, FoundAt s.chainStore id b height ∧ Contains b id ∧
        height ≤ lastHeight)) →
      ∃ b ∈ blocks, DeepIn m.config.operationsCleanupAfterBlockDepth lastHeight b id

/-- The block that is found for a dangling operation is as deep as was counted. -/
theorem dangles_deepIn (m : CommitManager) (i : TickInput) (pb : PendingBlocks)
    (chain : DirectoryChainStore) (blocks : List DataBlock) (hchain : StoreHolds True chain blocks)
    (lastHeight id : ℕ) (hd : Dangles m i pb chain lastHeight id) (b : DataBlock) (height : ℕ)
    (hfound : FoundAt chain id b height) (hin : Contains b id) (hle : height ≤ lastHeight) :
    ∃ b ∈ blocks, DeepIn m.config.operationsCleanupAfterBlockDepth lastHeight b id := by
  obtain ⟨-, c, hc, depth, hf, hdepth, hdeep⟩ := hd
  obtain ⟨rfl, rfl⟩ := foundAt_unique chain _ _ _ _ _ hfound hf
  rcases found_cases chain blocks hchain id with hnone | ⟨c, hc, hmem, -, hf'⟩
  · have hget := hfound.1
    rw [hnone] at hget
    exact absurd (Except.ok.inj hget) (by simp)
  · obtain ⟨rfl, rfl⟩ := foundAt_unique chain _ _ _ _ _ hfound hf'
    refine ⟨b, hmem, hin, height, hfound.2, ?_⟩
    rw [blockDepth, if_pos hle] at hdepth
    have hsub := Except.ok.inj hdepth
    omega

/-- The cleanup deletes no entry but those of deep blocks of the chain if and only if the
entries it reaches in any other way happen to be there too. -/
theorem cleanup_losesNothing_iff (m : CommitManager) (i : TickInput) (pb : PendingBlocks)
    (s : CommitState DirectoryChainStore) (blocks : List DataBlock) (tip : DataBlock)
    (lastHeight : ℕ) (hchain : StoreHolds True s.chainStore (blocks ++ [tip]))
    (hheight : tip.getHeight = .ok lastHeight)
    (hreads : ∀ g block, pb.blocks.get g = some block →
      (headerOf block.proposal.operation).isSome) :
    (∀ id, EntryOf s.pendingStore id →
        (m.maybeCleanupPendingStore i pb s).2.pendingStore.getOperation id = none →
        ∃ b ∈ blocks ++ [tip],
          DeepIn m.config.operationsCleanupAfterBlockDepth lastHeight b id) ↔
      CleanupFits m i pb s (blocks ++ [tip]) lastHeight := by
  have hsome : ∀ id, EntryOf s.pendingStore id → (s.pendingStore.getOperation id).isSome := by
    rintro id ⟨op, hop, -⟩
    rw [hop]
    rfl
  have hdeletes := cleanup_deletes_iff m i pb s blocks tip lastHeight hchain hheight hreads
  constructor
  · intro hsafe
    refine ⟨?_, ?_, ?_, ?_⟩
    · intro g block hg hclean id hid htakes
      apply hsafe id hid
      rw [hdeletes id (hsome id hid)]
      exact Or.inl ⟨g, block, hg, block.groupId,
        (mem_cleanupIds_iff m lastHeight block _).mpr ⟨hclean, Or.inl rfl⟩, htakes⟩
    · intro g block hg hclean hcommitted id hmem hid _
      apply hsafe id hid
      rw [hdeletes id (hsome id hid)]
      exact Or.inl ⟨g, block, hg, id, (mem_cleanupIds_iff m lastHeight block _).mpr
        ⟨hclean, Or.inr ⟨hcommitted, hmem⟩⟩, Or.inl rfl⟩
    · intro g block hg hclean hcommitted t hmem id _ hid htakes
      apply hsafe id hid
      rw [hdeletes id (hsome id hid)]
      exact Or.inl ⟨g, block, hg, t, (mem_cleanupIds_iff m lastHeight block _).mpr
        ⟨hclean, Or.inr ⟨hcommitted, hmem⟩⟩, htakes⟩
    · intro hruns t hremains hd id hid htakes _
      apply hsafe id hid
      rw [hdeletes id (hsome id hid)]
      exact Or.inr ⟨hruns, t, hremains, hd, htakes⟩
  · intro hfits id hid hnone
    rw [hdeletes id (hsome id hid)] at hnone
    rcases hnone with ⟨g, block, hg, t, ht, htakes⟩ | ⟨hruns, t, hremains, hd, htakes⟩
    · obtain ⟨hclean, rfl | ⟨hcommitted, hmem⟩⟩ := (mem_cleanupIds_iff m lastHeight block t).mp ht
      · exact hfits.group g block hg hclean id hid htakes
      · by_cases hother : id = t
        · subst hother
          by_cases hproper : ∃ b ∈ blocks ++ [tip], b.offset = block.proposal.offset ∧
              DeepIn m.config.operationsCleanupAfterBlockDepth lastHeight b id
          · obtain ⟨b, hb, -, hdeep⟩ := hproper
            exact ⟨b, hb, hdeep⟩
          · exact hfits.listed g block hg hclean hcommitted id hmem hid hproper
        · exact hfits.foreign g block hg hclean hcommitted t hmem id hother hid htakes
    · by_cases hproper : id = t ∧ ∃ b height, FoundAt s.chainStore id b height ∧
          Contains b id ∧ height ≤ lastHeight
      · obtain ⟨rfl, b, height, hfound, hin, hle⟩ := hproper
        exact dangles_deepIn m i pb s.chainStore _ hchain lastHeight id hd b height hfound hin hle
      · exact hfits.dangling hruns t hremains hd id hid htakes hproper

/-- The pending blocks of a tick have readable headers. -/
theorem pendingBlocks_headers {CS : Type} [ChainStore CS] (config : CommitManagerConfig)
    (now : ℕ) (cell : Cell) (store : MemoryPendingStore) (chain : CS) (pb : PendingBlocks)
    (h : PendingBlocks.new config now cell store chain = .ok pb) (g : ℕ) (block : PendingBlock)
    (hg : pb.blocks.get g = some block) : (headerOf block.proposal.operation).isSome := by
  obtain ⟨last, -, hof⟩ := (pendingBlocks_new_eq_ok _ _ _ _ _ _ h).last
  obtain ⟨ops, -, -, -, -, op, -, hproposal, header, hheader, -⟩ := (hof g block hg).group
  rw [hproposal, hheader]
  rfl

end Cleanup

section Samples

attribute [local instance] commitCrates

def genesisProposalFrame : OperationFrame :=
  ⟨⟨proposeBytes genesisProposalHeader genesisProposalHeaderMultihash genesisProposalMultihash,
    genesisProposalMultihash,
    some (proposeOperation genesisProposalHeader genesisProposalHeaderMultihash)⟩,
    by decide +kernel⟩

/-- A peer sends a proposal with the id and the offset of the genesis block that lists the
entry. -/
def forgedState : CommitState DirectoryChainStore :=
  ⟨.new ⟨none⟩, fiftyStore.insertOperation genesisProposalFrame
    (proposeOperation genesisProposalHeader genesisProposalHeaderMultihash) .blockPropose
    (by decide +kernel) (by decide +kernel), genesisChain⟩

/-- Blocks are cleaned up once there is one above them. -/
def cleanupManager : CommitManager := ⟨⟨1, 10, 3000000000, 7000000000⟩, twoNodes⟩

theorem fiftyEntry_forged : EntryOf forgedState.pendingStore 50 := by
  refine ⟨⟨50, 50, .entry, .unknown, fiftyFrame⟩, ?_, rfl⟩
  decide +kernel

theorem genesisBlock_operations : genesisBlock.operations = .ok [] := by
  decide +kernel

/-- The entry is deleted by the tick, and is in no block. -/
theorem forgedProposal_loses_entry :
    ¬ ∀ id, EntryOf forgedState.pendingStore id →
      (cleanupManager.tick sampleSynchronizer (tickAt 110) forgedState).2.pendingStore.getOperation
        id = none →
      ∃ b ∈ [genesisBlock], DeepIn cleanupManager.config.operationsCleanupAfterBlockDepth 1 b id := by
  intro hsafe
  have hdeleted : (cleanupManager.tick sampleSynchronizer (tickAt 110)
      forgedState).2.pendingStore.getOperation 50 = none := by
    decide +kernel
  obtain ⟨b, hb, ⟨frames, hframes, f, hf, -⟩, -⟩ := hsafe 50 fiftyEntry_forged hdeleted
  have hops : b.operations = .ok [] := by
    rw [List.mem_singleton.mp hb]
    exact genesisBlock_operations
  rw [Except.ok.inj (hframes.symm.trans hops)] at hf
  exact absurd hf List.not_mem_nil

/-- The entry once more, in a block after the one of the next header. -/
def repeatBlock : DataBlock :=
  { fiftyBlock repeatHeaderMultihash with
    offset := repeatHeader.offset
    header := ⟨sizedBytes (proposedMessage repeatHeader ++ repeatHeaderMultihash),
      repeatHeaderMultihash, some repeatHeader⟩ }

/-- The blocks of two proposals. -/
def committedChain : DirectoryChainStore :=
  ((genesisChain.writeBlock (fiftyBlock nextHeaderMultihash)).2.writeBlock repeatBlock).2

theorem nextFrame_reader :
    nextFrame.frame.reader = some (proposeOperation nextHeader nextHeaderMultihash) := rfl

theorem nextFrame_type :
    (proposeOperation nextHeader nextHeaderMultihash).operation.operationType =
      .ok .blockPropose := rfl

/-- A peer has sent the entry and the first of the two proposals again. -/
def committedState : CommitState DirectoryChainStore :=
  ⟨.new ⟨none⟩, fiftyStore.insertOperation nextFrame
    (proposeOperation nextHeader nextHeaderMultihash) .blockPropose nextFrame_reader
    nextFrame_type, committedChain⟩

theorem committedState_holds : StoreHolds True committedState.chainStore
    ([genesisBlock, fiftyBlock nextHeaderMultihash] ++ [repeatBlock]) := by
  have hfifty : WellFormed (fiftyBlock nextHeaderMultihash) :=
    wellFormedCheck_sound _ (by decide +kernel)
  have hrepeat : WellFormed repeatBlock := wellFormedCheck_sound _ (by decide +kernel)
  obtain ⟨s, hwrite, hholds⟩ := writeBlock_holds True genesisChain [genesisBlock]
    (fiftyBlock nextHeaderMultihash) genesisChain_holds hfifty.toFramed hfifty.indexable
    (by decide +kernel) (by decide +kernel)
  have hs : s = (genesisChain.writeBlock (fiftyBlock nextHeaderMultihash)).2 := by rw [hwrite]
  obtain ⟨s', hwrite', hholds'⟩ := writeBlock_holds True s _ repeatBlock hholds hrepeat.toFramed
    hrepeat.indexable (by decide +kernel) (by rw [hs]; decide +kernel)
  have hs' : committedState.chainStore = s' := by
    simp only [committedState, committedChain]
    rw [← hs, hwrite']
  rw [hs']
  exact hholds'

/-- The proposal, as a tick reads it. -/
def committedProposal : PendingBlock :=
  { signedBlock nextHeader nextFrame with
    status := .pastCommitted
    signatures := []
    hasMySignature := false }

theorem committedState_reads :
    ∃ pb, PendingBlocks.new cleanupManager.config 110 twoNodes committedState.pendingStore
        committedState.chainStore = .ok pb ∧ pb.blocks.entries = [(100, committedProposal)] ∧
      pb.operationsBlocks.size = 1 ∧ pb.entriesOperationsCount = 1 := by
  have hread : (PendingBlocks.new cleanupManager.config 110 twoNodes committedState.pendingStore
      committedState.chainStore).toOption.map (fun pb =>
        (pb.blocks.entries, pb.operationsBlocks.size, pb.entriesOperationsCount)) =
      some ([(100, committedProposal)], 1, 1) := by
    decide +kernel
  obtain ⟨pb, hpb, hvalues⟩ := Option.map_eq_some_iff.mp hread
  simp only [Prod.mk.injEq] at hvalues
  exact ⟨pb, (toOption_eq_some_iff _ _).mp hpb, hvalues⟩

theorem committedState_entry (id : ℕ) (h : EntryOf committedState.pendingStore id) : id = 50 := by
  obtain ⟨op, hop, hentry⟩ := h
  have hget := MemoryPendingStore.getOperation_insertOperation fiftyStore nextFrame
    (proposeOperation nextHeader nextHeaderMultihash) .blockPropose rfl rfl id
  have hfifty := MemoryPendingStore.getOperation_insertOperation MemoryPendingStore.new fiftyFrame
    fiftyOperation .entry rfl rfl id
  rw [committedState, hget] at hop
  split_ifs at hop with hproposal
  · rw [← Option.some.inj hop] at hentry
    contradiction
  · by_contra hne
    have hid : id ≠ fiftyOperation.operationId := hne
    rw [fiftyStore, hfifty, if_neg hid] at hop
    exact absurd hop (by simp [MemoryPendingStore.getOperation, MemoryPendingStore.new])

/-- The block at the offset of the proposal has the entry, one block below the last. -/
theorem fiftyBlock_deep :
    DeepIn cleanupManager.config.operationsCleanupAfterBlockDepth 3
      (fiftyBlock nextHeaderMultihash) 50 := by
  have hvalues : (fiftyBlock nextHeaderMultihash).operations.toOption.any (fun frames =>
        frames.any fun f => f.frame.reader.any fun r => decide (r.operationId = 50)) = true ∧
      (fiftyBlock nextHeaderMultihash).getHeight = .ok 2 := by
    decide +kernel
  obtain ⟨hhas, hheight⟩ := hvalues
  simp only [Option.any_eq_true, List.any_eq_true, decide_eq_true_eq] at hhas
  obtain ⟨frames, hframes, hf⟩ := hhas
  exact ⟨⟨frames, (toOption_eq_some_iff _ _).mp hframes, hf⟩, 2, hheight, le_rfl⟩

/-- The entry of a committed block is deleted with its proposal, and is in that block. -/
theorem cleanup_losesNothing_committed :
    ∃ pb, PendingBlocks.new cleanupManager.config 110 twoNodes committedState.pendingStore
        committedState.chainStore = .ok pb ∧ EntryOf committedState.pendingStore 50 ∧
      (cleanupManager.maybeCleanupPendingStore (tickAt 110) pb
        committedState).2.pendingStore.getOperation 50 = none ∧
      ∀ id, EntryOf committedState.pendingStore id →
        (cleanupManager.maybeCleanupPendingStore (tickAt 110) pb
          committedState).2.pendingStore.getOperation id = none →
        ∃ b ∈ [genesisBlock, fiftyBlock nextHeaderMultihash] ++ [repeatBlock],
          DeepIn cleanupManager.config.operationsCleanupAfterBlockDepth 3 b id := by
  have hvalues : repeatBlock.getHeight = .ok 3 ∧
      headerOf committedProposal.proposal.operation = some nextHeader ∧
      committedState.pendingStore.getOperation 50 = some ⟨50, 50, .entry, .unknown, fiftyFrame⟩ ∧
      (committedState.pendingStore.groupFrame 100 50).isSome = false := by
    decide +kernel
  obtain ⟨hheight, hheader, hfifty, hgroup⟩ := hvalues
  obtain ⟨pb, hpb, hentries, hsize, hcount⟩ := committedState_reads
  have hblocks : ∀ g block, pb.blocks.get g = some block → block = committedProposal := by
    intro g block hg
    rw [Map.get, hentries] at hg
    simp only [find] at hg
    split_ifs at hg
    exact (Option.some.inj hg).symm
  have hget : pb.blocks.get 100 = some committedProposal := by
    rw [Map.get, hentries]
    rfl
  have hreads := pendingBlocks_headers _ _ _ _ _ pb hpb
  have hclean : CleanedUp cleanupManager 3 committedProposal :=
    ⟨Or.inl rfl, nextHeader, hheader, by decide⟩
  refine ⟨pb, hpb, ⟨_, hfifty, rfl⟩, ?_, ?_⟩
  · rw [cleanup_deletes_iff cleanupManager (tickAt 110) pb committedState _ repeatBlock 3
      committedState_holds hheight hreads 50 (by rw [hfifty]; rfl)]
    exact Or.inl ⟨100, committedProposal, hget, 50, (mem_cleanupIds_iff _ _ _ _).mpr
      ⟨hclean, Or.inr ⟨rfl, List.mem_cons_self⟩⟩, Or.inl rfl⟩
  · have hiff := cleanup_losesNothing_iff cleanupManager (tickAt 110) pb committedState
      [genesisBlock, fiftyBlock nextHeaderMultihash] repeatBlock 3 committedState_holds hheight
      hreads
    rw [hiff]
    refine ⟨?_, ?_, ?_, ?_⟩
    · intro g block hg _ id hid htakes
      obtain rfl := hblocks g block hg
      obtain rfl := committedState_entry id hid
      have hother : ¬ Takes committedState.pendingStore 100 50 := by
        rw [Takes, hgroup]
        simp
      exact absurd htakes hother
    · intro g block hg _ _ id _ hid hnot
      obtain rfl := hblocks g block hg
      obtain rfl := committedState_entry id hid
      exact absurd ⟨fiftyBlock nextHeaderMultihash, by simp, rfl, fiftyBlock_deep⟩ hnot
    · intro g block hg _ _ t ht id hne hid _
      obtain rfl := hblocks g block hg
      obtain rfl := committedState_entry id hid
      exact absurd (List.mem_singleton.mp ht).symm hne
    · intro hruns
      have hpos := hruns.1
      rw [hcount, hsize] at hpos
      exact absurd hpos (lt_irrefl _)

end Samples

end Exocore.Engine
