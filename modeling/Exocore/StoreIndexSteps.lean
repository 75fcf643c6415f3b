import Exocore.StoreIndexSpec

/-! The state that one call leaves the two indices of an entity index in. -/
namespace Exocore.Store

open Exocore.Core

namespace EngineHandle

def lastHeight (engine : EngineHandle) : ℕ := (engine.getChainLastBlockInfo.map Prod.snd).getD 0

/-- The mutations of the chain and of the pending store. -/
def mutations (engine : EngineHandle) : List EntityMutation :=
  engine.blocks.flatMap (fun block => block.operations.filterMap Prod.snd) ++
    engine.pending.filterMap EngineOperation.entityMutation

/-- No mutation deletes operations. -/
def NoDeletions (engine : EngineHandle) : Prop :=
  ∀ mutation ∈ engine.mutations, ∀ ids, mutation.mutation ≠ some (.deleteOperations ids)

/-- The operations that the handle reads, of the chain and of the pending store. -/
def Reads (engine : EngineHandle) (op : EngineOperation) : Prop :=
  (∃ block ∈ engine.blocks, op ∈ block.engineOperations) ∨ op ∈ engine.pending

theorem mem_mutations (engine : EngineHandle) (op : EngineOperation) (h : engine.Reads op)
    (mutation : EntityMutation) (hmutation : op.entityMutation = some mutation) :
    mutation ∈ engine.mutations := by
  rw [mutations, List.mem_append]
  rcases h with ⟨block, hblock, hop⟩ | hop
  · left
    obtain ⟨op', hop', rfl⟩ := List.mem_map.mp hop
    exact List.mem_flatMap.mpr ⟨block, hblock, List.mem_filterMap.mpr ⟨op', hop', hmutation⟩⟩
  · right
    exact List.mem_filterMap.mpr ⟨op, hop, hmutation⟩

theorem reads_of_operationsFrom (engine : EngineHandle) (fuel : ℕ) (offset : BlockOffset)
    (op : EngineOperation) (h : op ∈ engine.operationsFrom fuel offset) :
    ∃ block ∈ engine.blocks, op ∈ block.engineOperations := by
  induction fuel generalizing offset with
  | zero => simp [operationsFrom] at h
  | succ fuel ih =>
    rw [operationsFrom] at h
    cases hget : engine.getChainBlock offset with
    | none =>
      rw [hget] at h
      simp at h
    | some block =>
      rw [hget] at h
      rcases List.mem_append.mp h with hop | hop
      · exact ⟨block, List.mem_of_find?_eq_some hget, hop⟩
      · exact ih block.nextOffset hop

end EngineHandle

namespace IndexOperation

/-- A document of the pending index has the id of its operation. -/
theorem document_of_pending (op : EngineOperation) (iop : IndexOperation)
    (hiop : iop ∈ fromPendingEngineOperation op) (doc : MutationMetadata)
    (hdoc : iop.document = some doc) : doc.operationId = op.operationId := by
  rw [fromPendingEngineOperation] at hiop
  cases hmutation : op.entityMutation with
  | none => simp [hmutation] at hiop
  | some mutation =>
    rw [hmutation] at hiop
    simp only at hiop
    split at hiop
    · rename_i trt htrt
      obtain rfl := List.mem_singleton.mp hiop
      cases hmessage : trt.message with
      | none => simp [document, MutationIndex.traitPutToDocument, hmessage, Except.toOption] at hdoc
      | some message =>
        simp only [document, MutationIndex.traitPutToDocument, hmessage, Except.toOption,
          Option.some.injEq] at hdoc
        rw [← hdoc]
    · obtain rfl := List.mem_singleton.mp hiop
      rw [← Option.some.inj hdoc]
    · obtain rfl := List.mem_singleton.mp hiop
      rw [← Option.some.inj hdoc]
    · obtain rfl := List.mem_singleton.mp hiop
      rw [← Option.some.inj hdoc]
    all_goals simp at hiop

theorem document_of_chain (op : EngineOperation) (offset : BlockOffset) (iop : IndexOperation)
    (hiop : iop ∈ (fromChainEngineOperation op offset).1) (doc : MutationMetadata)
    (hdoc : iop.document = some doc) :
    doc.operationId = op.operationId ∧ doc.blockOffset = some offset := by
  rw [fromChainEngineOperation] at hiop
  cases hmutation : op.entityMutation with
  | none => simp [hmutation] at hiop
  | some mutation =>
    rw [hmutation] at hiop
    simp only [fromChainEntityMutation] at hiop
    split at hiop
    · rename_i trt htrt
      obtain rfl := List.mem_singleton.mp hiop
      cases hmessage : trt.message with
      | none => simp [document, MutationIndex.traitPutToDocument, hmessage, Except.toOption] at hdoc
      | some message =>
        simp only [document, MutationIndex.traitPutToDocument, hmessage, Except.toOption,
          Option.some.injEq] at hdoc
        rw [← hdoc]
        exact ⟨rfl, rfl⟩
    · obtain rfl := List.mem_singleton.mp hiop
      rw [← Option.some.inj hdoc]
      exact ⟨rfl, rfl⟩
    · obtain rfl := List.mem_singleton.mp hiop
      rw [← Option.some.inj hdoc]
      exact ⟨rfl, rfl⟩
    · obtain ⟨id, -, rfl⟩ := List.mem_map.mp hiop
      contradiction
    all_goals simp at hiop

/-- Only a list of ids to delete gives the chain index a deletion. -/
theorem not_deletion_of_chain (engine : EngineHandle) (hdeletions : engine.NoDeletions)
    (op : EngineOperation) (hop : engine.Reads op) (offset : BlockOffset) (entityId : String)
    (operationId : OperationId) :
    .deleteEntityOperation entityId operationId ∉ (fromChainEngineOperation op offset).1 := by
  intro hmem
  rw [fromChainEngineOperation] at hmem
  cases hmutation : op.entityMutation with
  | none => simp [hmutation] at hmem
  | some mutation =>
    have hnot := hdeletions mutation (engine.mem_mutations op hop mutation hmutation)
    rw [hmutation] at hmem
    simp only [fromChainEntityMutation] at hmem
    split at hmem
    all_goals first | exact absurd ‹_› (hnot _) | simp at hmem

/-- The pending index gets no deletion. -/
theorem not_deletion_of_pending (op : EngineOperation) (entityId : String)
    (operationId : OperationId) :
    .deleteEntityOperation entityId operationId ∉ fromPendingEngineOperation op := by
  intro hmem
  rw [fromPendingEngineOperation] at hmem
  cases hmutation : op.entityMutation with
  | none => simp [hmutation] at hmem
  | some mutation =>
    rw [hmutation] at hmem
    simp only at hmem
    split at hmem
    all_goals simp at hmem

end IndexOperation

namespace EntityIndex

/-- What was written to the two indices is committed. -/
structure Committed (index : EntityIndex) : Prop where
  pending : index.pendingIndex.written = index.pendingIndex.committed
  chain : index.chainIndex.written = index.chainIndex.committed

def offsetFrom (index : EntityIndex) (engine : EngineHandle) : Option BlockOffset :=
  (index.lastChainIndexedBlock engine).map Prod.fst

/-- The operations of the chain that are due for the chain index. -/
def newEntries (index : EntityIndex) (engine : EngineHandle) :
    List (BlockOffset × EngineOperation) :=
  (engine.getChainOperations (index.offsetFrom engine)).filterMap
    (indexable index.config engine.lastHeight ((index.offsetFrom engine).getD 0))

def chainOperations (entries : List (BlockOffset × EngineOperation)) : List IndexOperation :=
  entries.flatMap fun entry => (IndexOperation.fromChainEngineOperation entry.2 entry.1).1

/-- The chain has blocks, and the last indexed one is deep enough for others to be indexed. -/
structure Proceeds (overflowChecks : Bool) (engine : EngineHandle) (index : EntityIndex) :
    Prop where
  blocks : engine.blocks ≠ []
  deep : isShallow overflowChecks index.config engine.lastHeight
    (index.lastChainIndexedBlock engine) = .ok false

theorem getChainLastBlockInfo_eq (engine : EngineHandle) (h : engine.blocks ≠ []) :
    ∃ offset, engine.getChainLastBlockInfo = some (offset, engine.lastHeight) := by
  have hlast := List.getLast?_eq_some_getLast h
  refine ⟨(engine.blocks.getLast h).offset, ?_⟩
  rw [EngineHandle.lastHeight, EngineHandle.getChainLastBlockInfo, hlast]
  rfl

theorem indexChainNewBlocks_of_not_proceeds (overflowChecks : Bool) (engine : EngineHandle)
    (index : EntityIndex) (h : ¬ Proceeds overflowChecks engine index) :
    (indexChainNewBlocks overflowChecks engine index).2 = index := by
  rw [indexChainNewBlocks]
  by_cases hblocks : engine.blocks = []
  · have hnone : engine.getChainLastBlockInfo = none := by
      rw [EngineHandle.getChainLastBlockInfo, hblocks]
      rfl
    rw [hnone]
    rfl
  · obtain ⟨offset, hlast⟩ := getChainLastBlockInfo_eq engine hblocks
    rw [hlast]
    simp only [orError, Action.lift_ok_bind, Action.get_bind]
    cases hshallow : isShallow overflowChecks index.config engine.lastHeight
        (index.lastChainIndexedBlock engine) with
    | error e => rfl
    | ok shallow => cases shallow with
      | true => rfl
      | false => exact absurd ⟨hblocks, hshallow⟩ h

/-- The call once it goes on: the chain index first, then the pending index and the note of the
last block. -/
theorem indexChainNewBlocks_of_proceeds (overflowChecks : Bool) (engine : EngineHandle)
    (index : EntityIndex) (h : Proceeds overflowChecks engine index) :
    indexChainNewBlocks overflowChecks engine index =
      (do
        let _ ← onChainIndex (MutationIndex.applyOperations
          (chainOperations (index.newEntries engine)))
        let pendingMutations := if index.pendingIndex.highestIndexedBlock.isNone then []
          else (index.newEntries engine).map pendingDeletion
        if pendingMutations.length > 0 then do
          let _ ← onPendingIndex (MutationIndex.applyOperations pendingMutations)
          modify fun index' => { index' with
            chainIndexLastBlock :=
              ((index.newEntries engine).map Prod.fst).max?.or index'.chainIndexLastBlock }
        pure ((engine.getChainOperations (index.offsetFrom engine)).map
          EngineOperation.operationId, pendingMutations.length) :
        Action EntityIndex StoreError (List OperationId × ℕ)) index := by
  obtain ⟨offset, hlast⟩ := getChainLastBlockInfo_eq engine h.blocks
  have hdeep := h.deep
  rw [indexChainNewBlocks, hlast]
  simp only [orError, Action.lift_ok_bind, Action.get_bind, hdeep]
  rfl

/-- The state after blocks were indexed, where all that is applied adds documents. -/
def indexedState (index : EntityIndex) (engine : EngineHandle) : EntityIndex :=
  let entries := index.newEntries engine
  let docs := index.chainIndex.committed ++
    (chainOperations entries).filterMap IndexOperation.document
  let pendingDocs := index.pendingIndex.committed.filter fun doc =>
    doc.operationId ∉ entries.map fun entry => entry.2.operationId
  { index with
    chainIndex := ⟨docs, docs⟩
    pendingIndex := ⟨pendingDocs, pendingDocs⟩
    chainIndexLastBlock :=
      if index.pendingIndex.committed = [] then index.chainIndexLastBlock
      else (entries.map Prod.fst).max?.or index.chainIndexLastBlock }

theorem mem_newEntries (index : EntityIndex) (engine : EngineHandle)
    (entry : BlockOffset × EngineOperation) (h : entry ∈ index.newEntries engine) :
    entry.2 ∈ engine.getChainOperations (index.offsetFrom engine) ∧
      ∃ height, entry.2.status = .committed entry.1 height ∧
        (index.offsetFrom engine).getD 0 < entry.1 ∧
        index.config.chainIndexMinDepth ≤ engine.lastHeight - height := by
  obtain ⟨op, hop, hindexable⟩ := List.mem_filterMap.mp h
  rw [indexable] at hindexable
  split at hindexable
  · rename_i offset height hstatus
    split_ifs at hindexable with hcond
    obtain rfl := Option.some.inj hindexable
    exact ⟨hop, height, hstatus, hcond.1, hcond.2⟩
  · contradiction

/-- The writer takes what indexing the blocks applies. -/
def BlocksTaken (overflowChecks : Bool) (engine : EngineHandle) (index : EntityIndex) : Prop :=
  Proceeds overflowChecks engine index →
    ∀ iop ∈ chainOperations (index.newEntries engine), MutationIndex.Takes iop

theorem chainOperations_documents (engine : EngineHandle) (hdeletions : engine.NoDeletions)
    (index : EntityIndex)
    (htakes : ∀ iop ∈ chainOperations (index.newEntries engine), MutationIndex.Takes iop) :
    ∀ iop ∈ chainOperations (index.newEntries engine), iop.document.isSome := by
  intro iop hiop
  rcases htakes iop hiop with hdoc | ⟨entityId, operationId, rfl⟩
  · exact hdoc
  · obtain ⟨entry, hentry, hiop⟩ := List.mem_flatMap.mp hiop
    have hread := engine.reads_of_operationsFrom _ _ _ (mem_newEntries index engine entry hentry).1
    exact absurd hiop (IndexOperation.not_deletion_of_chain engine hdeletions entry.2
      (Or.inl hread) entry.1 entityId operationId)

/-- The part of the call that is on the pending index. -/
theorem dropIndexed_eq (entries : List (BlockOffset × EngineOperation)) (ids : List OperationId)
    (index : EntityIndex) (hindex : index.pendingIndex.written = index.pendingIndex.committed) :
    (do
      let pendingMutations := if index.pendingIndex.highestIndexedBlock.isNone then []
        else entries.map pendingDeletion
      if pendingMutations.length > 0 then do
        let _ ← onPendingIndex (MutationIndex.applyOperations pendingMutations)
        modify fun index' => { index' with
          chainIndexLastBlock := (entries.map Prod.fst).max?.or index'.chainIndexLastBlock }
      pure (ids, pendingMutations.length) :
      Action EntityIndex StoreError (List OperationId × ℕ)) index =
    (.ok (ids, if index.pendingIndex.committed = [] then 0 else entries.length),
      { index with
        pendingIndex :=
          let docs := index.pendingIndex.committed.filter fun doc =>
            doc.operationId ∉ entries.map fun entry => entry.2.operationId
          ⟨docs, docs⟩
        chainIndexLastBlock :=
          if index.pendingIndex.committed = [] then index.chainIndexLastBlock
          else (entries.map Prod.fst).max?.or index.chainIndexLastBlock }) := by
  obtain ⟨config, ⟨docs, docs'⟩, chainIndex, last⟩ := index
  simp only at hindex
  subst hindex
  have hnone : (MutationIndex.highestIndexedBlock ⟨docs, docs⟩).isNone = decide (docs = []) := by
    rw [Bool.eq_iff_iff, Option.isNone_iff_eq_none, decide_eq_true_eq]
    exact MutationIndex.highestIndexedBlock_eq_none_iff _
  simp only [hnone]
  by_cases hempty : docs = []
  · subst hempty
    simp
  · rcases eq_or_ne entries [] with rfl | hne
    · simp [hempty]
    · have hlength : 0 < entries.length := List.length_pos_of_ne_nil hne
      have happly : MutationIndex.applyOperations (entries.map pendingDeletion) ⟨docs, docs⟩ =
          (.ok entries.length, ⟨docs.filter fun doc =>
            doc.operationId ∉ entries.map fun entry => entry.2.operationId, docs.filter fun doc =>
            doc.operationId ∉ entries.map fun entry => entry.2.operationId⟩) := by
        have hwrite := MutationIndex.writeAll_deletions
          (fun entry : BlockOffset × EngineOperation =>
            (IndexOperation.fromChainEngineOperation entry.2 entry.1).2)
          (fun entry => entry.2.operationId) entries docs
        rw [MutationIndex.applyOperations]
        unfold pendingDeletion
        rw [hwrite]
        simp [hne]
      simp [Action.bind_apply, hempty, hlength, onPendingIndex, happly, modify]

theorem indexChainNewBlocks_eq (overflowChecks : Bool) (engine : EngineHandle)
    (hdeletions : engine.NoDeletions) (index : EntityIndex) (hindex : index.Committed)
    (h : Proceeds overflowChecks engine index)
    (htakes : ∀ iop ∈ chainOperations (index.newEntries engine), MutationIndex.Takes iop) :
    indexChainNewBlocks overflowChecks engine index =
      (.ok ((engine.getChainOperations (index.offsetFrom engine)).map
          EngineOperation.operationId,
        if index.pendingIndex.committed = [] then 0 else (index.newEntries engine).length),
        index.indexedState engine) := by
  have happly : onChainIndex (MutationIndex.applyOperations
      (chainOperations (index.newEntries engine))) index =
      (.ok (chainOperations (index.newEntries engine)).length,
        { index with chainIndex := (index.indexedState engine).chainIndex }) := by
    have hdocs := MutationIndex.applyOperations_documents
      (chainOperations (index.newEntries engine))
      (chainOperations_documents engine hdeletions index htakes) index.chainIndex.committed
    rw [← MutationIndex.eq_of_written index.chainIndex hindex.chain] at hdocs
    rw [onChainIndex, hdocs]
    rfl
  rw [indexChainNewBlocks_of_proceeds overflowChecks engine index h,
    Action.bind_of_ok _ _ _ _ _ happly]
  exact dropIndexed_eq (index.newEntries engine) _
    { index with chainIndex := (index.indexedState engine).chainIndex } hindex.pending

/-- The operations that are read for pending operations of an event. -/
def batchOperations (engine : EngineHandle) (operationIds : List OperationId) :
    List IndexOperation :=
  operationIds.flatMap fun id => match engine.getPendingOperation id with
    | some op => IndexOperation.fromPendingEngineOperation op
    | none => []

/-- The operations that re-indexing the pending store applies. -/
def reindexOperations (engine : EngineHandle) (index : EntityIndex) : List IndexOperation :=
  (unindexedOperations engine ((index.offsetFrom engine).getD 0)).flatMap
    IndexOperation.fromPendingEngineOperation

theorem batchOperations_eq (engine : EngineHandle) (operationIds : List OperationId) :
    batchOperations engine operationIds =
      (operationIds.filterMap engine.getPendingOperation).flatMap
        IndexOperation.fromPendingEngineOperation := by
  induction operationIds with
  | nil => rfl
  | cons id ids ih =>
    rw [batchOperations, List.flatMap_cons, List.filterMap_cons]
    cases engine.getPendingOperation id with
    | none => exact ih
    | some op => exact congrArg _ ih

/-- The writer takes what re-indexing the pending store applies. -/
def ReindexTaken (engine : EngineHandle) (index : EntityIndex) : Prop :=
  ∀ iop ∈ reindexOperations engine index, MutationIndex.Takes iop

/-- The writer takes what the operations of a batch apply. -/
def BatchTaken (engine : EngineHandle) (operationIds : List OperationId) : Prop :=
  ∀ iop ∈ batchOperations engine operationIds, MutationIndex.Takes iop

theorem pendingOperations_documents (ops : List EngineOperation)
    (htakes : ∀ iop ∈ ops.flatMap IndexOperation.fromPendingEngineOperation,
      MutationIndex.Takes iop) :
    ∀ iop ∈ ops.flatMap IndexOperation.fromPendingEngineOperation, iop.document.isSome := by
  intro iop hiop
  rcases htakes iop hiop with hdoc | ⟨entityId, operationId, rfl⟩
  · exact hdoc
  · obtain ⟨op, -, hiop⟩ := List.mem_flatMap.mp hiop
    exact absurd hiop (IndexOperation.not_deletion_of_pending op entityId operationId)

/-- A document of the pending index is of one of the operations it was made from. -/
theorem mem_pendingDocuments (ops : List EngineOperation) (doc : MutationMetadata)
    (h : doc ∈ (ops.flatMap IndexOperation.fromPendingEngineOperation).filterMap
      IndexOperation.document) :
    ∃ op ∈ ops, IndexOperation.fromPendingEngineOperation op ≠ [] ∧
      doc.operationId = op.operationId := by
  obtain ⟨iop, hiop, hdocument⟩ := List.mem_filterMap.mp h
  obtain ⟨op, hop, hiop⟩ := List.mem_flatMap.mp hiop
  exact ⟨op, hop, List.ne_nil_of_mem hiop,
    IndexOperation.document_of_pending op iop hiop doc hdocument⟩

theorem reindexPending_eq (engine : EngineHandle) (index : EntityIndex)
    (htaken : index.ReindexTaken engine) :
    reindexPending engine index =
      (.ok (), { index with
        pendingIndex :=
          let docs := (reindexOperations engine index).filterMap IndexOperation.document
          ⟨docs, docs⟩ }) := by
  have hdocs : ∀ iop ∈ reindexOperations engine index, iop.document.isSome :=
    pendingOperations_documents _ htaken
  have happly := MutationIndex.applyOperations_documents _ hdocs []
  have hstep : onPendingIndex (MutationIndex.applyOperations (reindexOperations engine index))
      { index with pendingIndex := .create } =
      (.ok (reindexOperations engine index).length, { index with
        pendingIndex :=
          let docs := (reindexOperations engine index).filterMap IndexOperation.document
          ⟨docs, docs⟩ }) := by
    rw [onPendingIndex]
    simp only [MutationIndex.create, happly, List.nil_append]
  exact Action.bind_of_ok _ _ _ _ _ hstep

theorem handleChainPendingOperations_eq (engine : EngineHandle) (operationIds : List OperationId)
    (htaken : BatchTaken engine operationIds) (index : EntityIndex)
    (hindex : index.pendingIndex.written = index.pendingIndex.committed) :
    handleChainPendingOperations engine operationIds index =
      (.ok (batchOperations engine operationIds).length, { index with
        pendingIndex :=
          let docs := index.pendingIndex.committed ++
            (batchOperations engine operationIds).filterMap IndexOperation.document
          ⟨docs, docs⟩ }) := by
  have hdocs : ∀ iop ∈ batchOperations engine operationIds, iop.document.isSome := by
    rw [BatchTaken, batchOperations_eq] at htaken
    rw [batchOperations_eq]
    exact pendingOperations_documents _ htaken
  have happly := MutationIndex.applyOperations_documents _ hdocs index.pendingIndex.committed
  rw [← MutationIndex.eq_of_written index.pendingIndex hindex] at happly
  rw [handleChainPendingOperations, onPendingIndex]
  exact congrArg (fun r : Res StoreError ℕ × MutationIndex =>
    (r.1, { index with pendingIndex := r.2 })) happly

/-- A chain index without documents is filled from the note of the last block on. -/
theorem reindexChain_eq (overflowChecks : Bool) (engine : EngineHandle) (index : EntityIndex)
    (hindex : index.Committed) (h : index.chainIndex.highestIndexedBlock = none) :
    reindexChain overflowChecks engine index = ((do
      let _ ← indexChainNewBlocks overflowChecks engine
      reindexPending engine : Action EntityIndex StoreError Unit) index) := by
  have hclear : { index with chainIndex := MutationIndex.create } = index := by
    rw [MutationIndex.highestIndexedBlock_eq_none_iff] at h
    have hempty := MutationIndex.eq_of_written index.chainIndex hindex.chain
    rw [h] at hempty
    rw [MutationIndex.create, ← hempty]
  have hunfold : reindexChain overflowChecks engine index = ((do
      let _ ← indexChainNewBlocks overflowChecks engine
      reindexPending engine : Action EntityIndex StoreError Unit)
        { index with chainIndex := MutationIndex.create }) := rfl
  rw [hunfold, hclear]

end EntityIndex

end Exocore.Store
