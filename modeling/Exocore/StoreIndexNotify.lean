import Exocore.StoreIndexRuns

/-! Which operations a call of the store makes visible, and which it notifies of. -/
namespace Exocore.Store

open Exocore.Core

namespace MutationIndex

/-- What the operations delete is deleted from the documents before them, and what they add does
not depend on these. -/
theorem writeAll_takes (ops : List IndexOperation) (h : ∀ op ∈ ops, Takes op) :
    ∃ kept : OperationId → Bool, ∀ docs, writeAll ops docs =
      (.ok (), docs.filter (fun doc => kept doc.operationId) ++ (writeAll ops []).2) := by
  induction ops with
  | nil => exact ⟨fun _ => true, fun docs => by simp⟩
  | cons op ops ih =>
    obtain ⟨kept, hkept⟩ := ih fun op hop => h op (List.mem_cons_of_mem _ hop)
    rcases h op (by simp) with hdoc | ⟨entityId, operationId, rfl⟩
    · obtain ⟨doc, hdoc⟩ := Option.isSome_iff_exists.mp hdoc
      refine ⟨kept, fun docs => ?_⟩
      rw [writeAll, Action.bind_of_ok _ _ _ _ _ (write_document op doc hdoc docs),
        Action.bind_of_ok _ _ _ _ _ (write_document op doc hdoc []), hkept, hkept ([] ++ [doc]),
        List.filter_append, List.nil_append, List.append_assoc]
    · refine ⟨fun id => kept id && decide (id ≠ operationId), fun docs => ?_⟩
      have hwrite (docs : List MutationMetadata) :
          write (.deleteEntityOperation entityId operationId) docs =
            (.ok (), docs.filter fun doc => doc.operationId ≠ operationId) := rfl
      rw [writeAll, Action.bind_of_ok _ _ _ _ _ (hwrite docs),
        Action.bind_of_ok _ _ _ _ _ (hwrite []), hkept, List.filter_filter, List.filter_nil]

end MutationIndex

namespace EntityIndex

/-- The operations that queries see. -/
def visible (index : EntityIndex) : List OperationId :=
  (index.chainIndex.committed ++ index.pendingIndex.committed).map MutationMetadata.operationId

/-- The documents that the chain index gets from the operations that are due. -/
def newDocuments (index : EntityIndex) (engine : EngineHandle) : List MutationMetadata :=
  (MutationIndex.writeAll (chainOperations (index.newEntries engine)) []).2

theorem mem_writeAll (ops : List IndexOperation) (h : ∀ op ∈ ops, MutationIndex.Takes op)
    (doc : MutationMetadata) (hdoc : doc ∈ (MutationIndex.writeAll ops []).2) :
    ∃ op ∈ ops, op.document = some doc := by
  induction ops with
  | nil => simp at hdoc
  | cons op ops ih =>
    have hrest := fun op hop => h op (List.mem_cons_of_mem _ hop)
    obtain ⟨kept, hkept⟩ := MutationIndex.writeAll_takes ops hrest
    rcases h op (by simp) with hsome | ⟨entityId, operationId, rfl⟩
    · obtain ⟨doc', hdoc'⟩ := Option.isSome_iff_exists.mp hsome
      rw [MutationIndex.writeAll,
        Action.bind_of_ok _ _ _ _ _ (MutationIndex.write_document op doc' hdoc' []), hkept,
        List.mem_append] at hdoc
      rcases hdoc with hdoc | hdoc
      · obtain rfl : doc = doc' := by simpa using List.mem_of_mem_filter hdoc
        exact ⟨op, by simp, hdoc'⟩
      · obtain ⟨op', hop', hdocument⟩ := ih hrest hdoc
        exact ⟨op', List.mem_cons_of_mem _ hop', hdocument⟩
    · obtain ⟨op', hop', hdocument⟩ := ih hrest hdoc
      exact ⟨op', List.mem_cons_of_mem _ hop', hdocument⟩

/-- A new document is of one of the operations that the call goes through. -/
theorem mem_newDocuments (engine : EngineHandle) (index : EntityIndex)
    (htakes : ∀ op ∈ chainOperations (index.newEntries engine), MutationIndex.Takes op)
    (doc : MutationMetadata) (h : doc ∈ index.newDocuments engine) :
    ∃ entry ∈ index.newEntries engine, doc.operationId = entry.2.operationId := by
  obtain ⟨iop, hiop, hdocument⟩ := mem_writeAll _ htakes doc h
  obtain ⟨entry, hentry, hiop⟩ := List.mem_flatMap.mp hiop
  exact ⟨entry, hentry,
    (IndexOperation.document_of_chain entry.2 entry.1 iop hiop doc hdocument).1⟩

/-- What the call does to the documents of the two indices once it goes on. -/
theorem indexChainNewBlocks_documents (overflowChecks : Bool) (engine : EngineHandle)
    (index : EntityIndex) (hindex : index.Committed) (h : Proceeds overflowChecks engine index)
    (htakes : ∀ op ∈ chainOperations (index.newEntries engine), MutationIndex.Takes op) :
    ∃ index', indexChainNewBlocks overflowChecks engine index =
      (.ok ((engine.getChainOperations (index.offsetFrom engine)).map
          EngineOperation.operationId,
        if index.pendingIndex.committed = [] then 0 else (index.newEntries engine).length),
        index') ∧ index'.Committed ∧
      (∃ kept, (∀ doc ∈ kept, doc ∈ index.chainIndex.committed) ∧
        index'.chainIndex.committed = kept ++ index.newDocuments engine) ∧
      ∀ doc ∈ index'.pendingIndex.committed, doc ∈ index.pendingIndex.committed := by
  obtain ⟨kept, hkept⟩ := MutationIndex.writeAll_takes _ htakes
  set docs := index.chainIndex.committed.filter (fun doc => kept doc.operationId) ++
    index.newDocuments engine with hdocs
  have hwrite : MutationIndex.writeAll (chainOperations (index.newEntries engine))
      index.chainIndex.written = (.ok (), docs) := by
    rw [hindex.chain]
    exact hkept _
  have happly : onChainIndex (MutationIndex.applyOperations
      (chainOperations (index.newEntries engine))) index =
      (.ok (chainOperations (index.newEntries engine)).length,
        { index with chainIndex := ⟨docs, docs⟩ }) := by
    rw [onChainIndex, MutationIndex.applyOperations, hwrite]
    split_ifs with hempty
    · -- nothing is written, and the writer holds what is committed
      have hsame : docs = index.chainIndex.written := by
        rw [hempty, MutationIndex.writeAll_nil] at hwrite
        exact (Prod.mk.inj hwrite).2.symm
      rw [hsame, hindex.chain, ← MutationIndex.eq_of_written index.chainIndex hindex.chain]
    · rfl
  rw [indexChainNewBlocks_of_proceeds overflowChecks engine index h,
    Action.bind_of_ok _ _ _ _ _ happly]
  have hdrop := dropIndexed_eq (index.newEntries engine)
    ((engine.getChainOperations (index.offsetFrom engine)).map EngineOperation.operationId)
    { index with chainIndex := ⟨docs, docs⟩ } hindex.pending
  refine ⟨_, hdrop, ⟨rfl, rfl⟩, ⟨_, fun doc hdoc => List.mem_of_mem_filter hdoc, rfl⟩, ?_⟩
  exact fun doc hdoc => List.mem_of_mem_filter hdoc

/-- Every operation that becomes visible is among the affected ones, and one is counted. -/
def Heard (index index' : EntityIndex) (affected : List OperationId) (count : ℕ) : Prop :=
  ∀ id ∈ index'.visible, id ∉ index.visible → id ∈ affected ∧ 0 < count

theorem Heard.trans {a b c : EntityIndex} {affected affected' : List OperationId}
    {count count' : ℕ} (hab : Heard a b affected count) (hbc : Heard b c affected' count') :
    Heard a c (affected ++ affected') (count + count') := by
  intro id hc ha
  by_cases hb : id ∈ b.visible
  · obtain ⟨hmem, hpos⟩ := hab id hb ha
    exact ⟨List.mem_append_left _ hmem, Nat.add_pos_left hpos _⟩
  · obtain ⟨hmem, hpos⟩ := hbc id hc hb
    exact ⟨List.mem_append_right _ hmem, Nat.add_pos_right _ hpos⟩

theorem heard_refl (index : EntityIndex) (affected : List OperationId) (count : ℕ) :
    Heard index index affected count := fun _ h hnot => absurd h hnot

/-- Nothing is counted: nothing may become visible. -/
theorem heard_zero_iff (index index' : EntityIndex) (affected : List OperationId) :
    Heard index index' affected 0 ↔ ∀ id ∈ index'.visible, id ∈ index.visible := by
  constructor
  · intro h id hid
    by_contra hnot
    exact absurd (h id hid hnot).2 (lt_irrefl 0)
  · exact fun h id hid hnot => absurd (h id hid) hnot

theorem mem_visible_iff (index : EntityIndex) (id : OperationId) :
    id ∈ index.visible ↔ (∃ doc ∈ index.chainIndex.committed, doc.operationId = id) ∨
      ∃ doc ∈ index.pendingIndex.committed, doc.operationId = id := by
  rw [visible, List.map_append, List.mem_append, List.mem_map, List.mem_map]

/-- The blocks cannot be indexed: there are none, or the heights are out of order. -/
def FailsIndexing (overflowChecks : Bool) (engine : EngineHandle) (index : EntityIndex) : Prop :=
  engine.blocks = [] ∨ ∃ e, isShallow overflowChecks index.config engine.lastHeight
    (index.lastChainIndexedBlock engine) = .error e

/-- The documents that indexing the blocks adds to the chain index, none where the last indexed
block is not deep enough. -/
def addedDocuments (overflowChecks : Bool) (engine : EngineHandle) (index : EntityIndex) :
    List MutationMetadata :=
  match isShallow overflowChecks index.config engine.lastHeight
      (index.lastChainIndexedBlock engine) with
  | .ok false => index.newDocuments engine
  | _ => []

theorem indexChainNewBlocks_error (overflowChecks : Bool) (engine : EngineHandle)
    (index : EntityIndex) (h : FailsIndexing overflowChecks engine index) :
    ∃ e, indexChainNewBlocks overflowChecks engine index = (.error e, index) := by
  rw [indexChainNewBlocks]
  by_cases hblocks : engine.blocks = []
  · have hnone : engine.getChainLastBlockInfo = none := by
      rw [EngineHandle.getChainLastBlockInfo, hblocks]
      rfl
    rw [hnone]
    exact ⟨_, rfl⟩
  · obtain ⟨offset, hlast⟩ := getChainLastBlockInfo_eq engine hblocks
    obtain ⟨e, he⟩ := h.resolve_left hblocks
    rw [hlast]
    simp only [orError, Action.lift_ok_bind, Action.get_bind, he]
    exact ⟨e, rfl⟩

/-- What indexing the blocks leaves in the two indices. -/
theorem indexChainNewBlocks_ok (overflowChecks : Bool) (engine : EngineHandle)
    (index : EntityIndex) (hindex : index.Committed)
    (htaken : index.BlocksTaken overflowChecks engine)
    (h : ¬ FailsIndexing overflowChecks engine index) :
    ∃ affected count index', indexChainNewBlocks overflowChecks engine index =
        (.ok (affected, count), index') ∧ index'.Committed ∧
      (∃ kept, (∀ doc ∈ kept, doc ∈ index.chainIndex.committed) ∧
        index'.chainIndex.committed = kept ++ addedDocuments overflowChecks engine index) ∧
      (∀ doc ∈ index'.pendingIndex.committed, doc ∈ index.pendingIndex.committed) ∧
      (∀ doc ∈ addedDocuments overflowChecks engine index, doc.operationId ∈ affected) ∧
      (addedDocuments overflowChecks engine index ≠ [] →
        (0 < count ↔ index.pendingIndex.committed ≠ [])) := by
  rw [FailsIndexing, not_or, not_exists] at h
  cases hshallow : isShallow overflowChecks index.config engine.lastHeight
      (index.lastChainIndexedBlock engine) with
  | error e => exact absurd hshallow (h.2 e)
  | ok shallow => cases shallow with
    | true =>
      have hnone : addedDocuments overflowChecks engine index = [] := by
        rw [addedDocuments, hshallow]
      obtain ⟨offset, hlast⟩ := getChainLastBlockInfo_eq engine h.1
      refine ⟨[], 0, index, ?_, hindex, ⟨index.chainIndex.committed, fun _ hdoc => hdoc, ?_⟩,
        fun _ hdoc => hdoc, ?_, fun hne => absurd hnone hne⟩
      · rw [indexChainNewBlocks, hlast]
        simp only [orError, Action.lift_ok_bind, Action.get_bind, hshallow]
        rfl
      · rw [hnone, List.append_nil]
      · rw [hnone]
        simp
    | false =>
      have hadded : addedDocuments overflowChecks engine index = index.newDocuments engine := by
        rw [addedDocuments, hshallow]
      have htakes := htaken ⟨h.1, hshallow⟩
      obtain ⟨index', hresult, hcommitted, hchain, hpending⟩ := indexChainNewBlocks_documents
        overflowChecks engine index hindex ⟨h.1, hshallow⟩ htakes
      refine ⟨_, _, index', hresult, hcommitted, ?_, hpending, ?_, ?_⟩
      · rw [hadded]
        exact hchain
      · intro doc hdoc
        rw [hadded] at hdoc
        obtain ⟨entry, hentry, hid⟩ := mem_newDocuments engine index htakes doc hdoc
        rw [hid]
        exact List.mem_map_of_mem (mem_newEntries index engine entry hentry).1
      · intro hne
        rw [hadded] at hne
        obtain ⟨doc, hdoc⟩ := List.exists_mem_of_ne_nil _ hne
        obtain ⟨entry, hentry, _⟩ := mem_newDocuments engine index htakes doc hdoc
        have hpos := List.length_pos_of_mem hentry
        split_ifs with hempty
        · simp [hempty]
        · exact iff_of_true hpos hempty

/-- The operations that re-indexing the pending store makes visible, with the chain index. -/
theorem mem_visible_reindexed_iff (engine : EngineHandle) (index : EntityIndex)
    (htaken : index.ReindexTaken engine) (id : OperationId) :
    id ∈ (reindexPending engine index).2.visible ↔
      (∃ doc ∈ index.chainIndex.committed, doc.operationId = id) ∨
      ∃ op ∈ unindexedOperations engine ((index.offsetFrom engine).getD 0),
        IndexOperation.fromPendingEngineOperation op ≠ [] ∧ op.operationId = id := by
  rw [reindexPending_eq engine index htaken, mem_visible_iff]
  apply or_congr_right
  constructor
  · rintro ⟨doc, hdoc, rfl⟩
    obtain ⟨op, hop, hne, hid⟩ := mem_pendingDocuments _ doc hdoc
    exact ⟨op, hop, hne, hid.symm⟩
  · rintro ⟨op, hop, hne, rfl⟩
    obtain ⟨iop, hiop⟩ := List.exists_mem_of_ne_nil _ hne
    have hmem : iop ∈ reindexOperations engine index := List.mem_flatMap.mpr ⟨op, hop, hiop⟩
    obtain ⟨doc, hdoc⟩ := Option.isSome_iff_exists.mp (pendingOperations_documents _ htaken iop hmem)
    exact ⟨doc, List.mem_filterMap.mpr ⟨iop, hmem, hdoc⟩,
      IndexOperation.document_of_pending op iop hiop doc hdoc⟩

end EntityIndex

end Exocore.Store
