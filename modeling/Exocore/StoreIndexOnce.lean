import Exocore.LibRun
import Exocore.StoreIndexSteps

/-! Runs of an entity index over a chain that grows: the chain index holds the operations of the
blocks up to one that is deep enough, and the pending index none of them. -/
namespace Exocore.Store

open Exocore.Core
open scoped List

/-- The documents of a block in the chain index. -/
def ChainBlock.documents (block : ChainBlock) : List MutationMetadata :=
  block.engineOperations.flatMap fun op =>
    (IndexOperation.fromChainEngineOperation op block.offset).1.filterMap IndexOperation.document

namespace EngineHandle

/-- The depth of a block is at least the bound. -/
def IsDeep (engine : EngineHandle) (minDepth : ℕ) (block : ChainBlock) : Prop :=
  minDepth ≤ engine.lastHeight - block.height

instance (engine : EngineHandle) (minDepth : ℕ) (block : ChainBlock) :
    Decidable (engine.IsDeep minDepth block) := inferInstanceAs (Decidable (_ ≤ _))

/-- The documents of the blocks after the genesis block up to an offset. -/
def documentsUpTo (engine : EngineHandle) (offset : BlockOffset) : List MutationMetadata :=
  (engine.blocks.filter fun block =>
    decide (0 < block.offset ∧ block.offset ≤ offset)).flatMap ChainBlock.documents

end EngineHandle

/-- The property that the runs keep. -/
structure IndexedOnce (engine : EngineHandle) (index : EntityIndex) : Prop where
  chain : ∃ indexed rest, engine.blocks = indexed ++ rest ∧
    (∀ block ∈ indexed, engine.IsDeep index.config.chainIndexMinDepth block) ∧
    index.chainIndex.committed.Perm
      ((indexed.filter fun block => decide (0 < block.offset)).flatMap ChainBlock.documents)
  apart : ∀ doc ∈ index.chainIndex.committed, ∀ doc' ∈ index.pendingIndex.committed,
    doc.operationId ≠ doc'.operationId

theorem flatMap_filter_eq {A B : Type} (l : List A) (p : A → Bool) (f : A → List B) :
    (l.filter p).flatMap f = l.flatMap fun a => if p a then f a else [] := by
  induction l with
  | nil => rfl
  | cons a l ih =>
    rw [List.filter_cons, List.flatMap_cons, ← ih]
    split_ifs <;> simp

theorem flatMap_filter_congr {A B : Type} (l : List A) (p q : A → Bool) (f : A → List B)
    (h : ∀ a ∈ l, f a ≠ [] → p a = q a) : (l.filter p).flatMap f = (l.filter q).flatMap f := by
  rw [flatMap_filter_eq, flatMap_filter_eq]
  apply List.flatMap_congr
  intro a ha
  rcases eq_or_ne (f a) [] with hnil | hne
  · simp [hnil]
  · rw [h a ha hne]

namespace EngineHandle.Linked

variable {engine : EngineHandle}

theorem height_le (h : engine.Linked) (a b : ChainBlock) (ha : a ∈ engine.blocks)
    (hb : b ∈ engine.blocks) (hab : a.offset ≤ b.offset) : a.height ≤ b.height := by
  obtain ⟨pre, rest, hsplit⟩ := List.append_of_mem hb
  obtain ⟨hpre, hrest⟩ := h.before_after pre rest b hsplit
  rw [hsplit, List.mem_append, List.mem_cons] at ha
  rcases ha with ha | rfl | ha
  · exact (hpre a ha).2.le
  · exact le_rfl
  · exact absurd hab (not_le.mpr (hrest a ha).1)

/-- A block below a deep one is deep. -/
theorem isDeep_of_le (h : engine.Linked) (minDepth : ℕ) (a b : ChainBlock)
    (ha : a ∈ engine.blocks) (hb : b ∈ engine.blocks) (hab : a.offset ≤ b.offset)
    (hdeep : engine.IsDeep minDepth b) : engine.IsDeep minDepth a :=
  hdeep.trans (Nat.sub_le_sub_left (h.height_le a b ha hb hab) _)

/-- The blocks up to one of the chain are its first part. -/
theorem filter_upTo_eq (h : engine.Linked) (pre rest : List ChainBlock) (block : ChainBlock)
    (hsplit : engine.blocks = pre ++ block :: rest) :
    engine.blocks.filter (fun b => decide (b.offset ≤ block.offset)) = pre ++ [block] := by
  obtain ⟨hpre, hrest⟩ := h.before_after pre rest block hsplit
  have hall : pre.filter (fun b => decide (b.offset ≤ block.offset)) = pre := by
    rw [List.filter_eq_self]
    intro b hb
    simpa using (hpre b hb).1.le
  have hnone : rest.filter (fun b => decide (b.offset ≤ block.offset)) = [] := by
    rw [List.filter_eq_nil_iff]
    intro b hb
    simpa using (hrest b hb).1
  rw [hsplit, List.filter_append, hall, List.filter_cons, hnone]
  simp

theorem documentsUpTo_eq (h : engine.Linked) (pre rest : List ChainBlock) (block : ChainBlock)
    (hsplit : engine.blocks = pre ++ block :: rest) :
    engine.documentsUpTo block.offset = ((pre ++ [block]).filter fun b =>
      decide (0 < b.offset)).flatMap ChainBlock.documents := by
  rw [← h.filter_upTo_eq pre rest block hsplit, List.filter_filter, EngineHandle.documentsUpTo]
  simp only [Bool.decide_and]

end EngineHandle.Linked

@[simp] theorem EngineHandle.documentsUpTo_zero (engine : EngineHandle) :
    engine.documentsUpTo 0 = [] := by
  have hnone : (engine.blocks.filter fun block =>
      decide (0 < block.offset ∧ block.offset ≤ 0)) = [] := by
    rw [List.filter_eq_nil_iff]
    intro block _
    simpa using fun h : 0 < block.offset => h.ne'
  rw [EngineHandle.documentsUpTo, hnone, List.flatMap_nil]

theorem ChainBlock.mem_documents (block : ChainBlock) (doc : MutationMetadata)
    (h : doc ∈ block.documents) : doc.blockOffset = some block.offset ∧
      ∃ op ∈ block.engineOperations, doc.operationId = op.operationId := by
  obtain ⟨op, hop, hdoc⟩ := List.mem_flatMap.mp h
  obtain ⟨iop, hiop, hdocument⟩ := List.mem_filterMap.mp hdoc
  obtain ⟨hid, hoffset⟩ := IndexOperation.document_of_chain op block.offset iop hiop doc hdocument
  exact ⟨hoffset, op, hop, hid⟩

namespace EntityIndex

/-- The block that the call takes as the last indexed one: the noted one, or the highest of the
chain index. -/
def lastNoted (index : EntityIndex) : Option BlockOffset :=
  index.chainIndexLastBlock.or index.chainIndex.highestIndexedBlock

def indexedOffset (index : EntityIndex) : BlockOffset := index.lastNoted.getD 0

end EntityIndex

/-- The invariant of the runs. -/
structure InStep (engine : EngineHandle) (index : EntityIndex) : Prop where
  linked : engine.Linked
  deletions : engine.NoDeletions
  committed : index.Committed
  noted : ∀ offset, index.lastNoted = some offset → 0 < offset ∧
    ∃ block ∈ engine.blocks, block.offset = offset ∧
      engine.IsDeep index.config.chainIndexMinDepth block
  documents : index.chainIndex.committed.Perm (engine.documentsUpTo index.indexedOffset)
  apart : ∀ doc ∈ index.chainIndex.committed, ∀ doc' ∈ index.pendingIndex.committed,
    doc.operationId ≠ doc'.operationId

namespace InStep

variable {engine : EngineHandle} {index : EntityIndex}

theorem indexedOnce (h : InStep engine index) : IndexedOnce engine index := by
  refine ⟨?_, h.apart⟩
  have hdocuments := h.documents
  rw [EntityIndex.indexedOffset] at hdocuments
  cases hnoted : index.lastNoted with
  | none =>
    rw [hnoted] at hdocuments
    exact ⟨[], engine.blocks, rfl, by simp, by simpa using hdocuments⟩
  | some offset =>
    obtain ⟨_, block, hblock, rfl, hdeep⟩ := h.noted offset hnoted
    obtain ⟨pre, rest, hsplit⟩ := List.append_of_mem hblock
    rw [hnoted, Option.getD_some, h.linked.documentsUpTo_eq pre rest block hsplit] at hdocuments
    refine ⟨pre ++ [block], rest, by rw [hsplit]; simp, ?_, hdocuments⟩
    intro b hb
    have hle : b.offset ≤ block.offset := by
      rw [← h.linked.filter_upTo_eq pre rest block hsplit] at hb
      simpa using (List.mem_filter.mp hb).2
    have hmem : b ∈ engine.blocks := by
      rw [hsplit]
      rcases List.mem_append.mp hb with hb | hb
      · exact List.mem_append_left _ hb
      · exact List.mem_append_right _ (by simpa using Or.inl (List.mem_singleton.mp hb))
    exact h.linked.isDeep_of_le _ b block hmem hblock hle hdeep

theorem lastChainIndexedBlock_eq (h : InStep engine index) (offset : BlockOffset)
    (hnoted : index.lastNoted = some offset) :
    ∃ block ∈ engine.blocks, block.offset = offset ∧
      index.lastChainIndexedBlock engine = some (offset, block.height) := by
  obtain ⟨_, block, hblock, rfl, _⟩ := h.noted offset hnoted
  refine ⟨block, hblock, rfl, ?_⟩
  have hlast : index.lastChainIndexedBlock engine =
      index.lastNoted.bind engine.getChainBlockInfo := rfl
  rw [hlast, hnoted, Option.bind_some, h.linked.getChainBlockInfo_eq block hblock]

theorem offsetFrom_eq (h : InStep engine index) : index.offsetFrom engine = index.lastNoted := by
  rw [EntityIndex.offsetFrom]
  cases hnoted : index.lastNoted with
  | none =>
    have hlast : index.lastChainIndexedBlock engine =
        index.lastNoted.bind engine.getChainBlockInfo := rfl
    rw [hlast, hnoted]
    rfl
  | some offset =>
    obtain ⟨block, _, _, hlast⟩ := h.lastChainIndexedBlock_eq offset hnoted
    rw [hlast, Option.map_some]

theorem startsAt (h : InStep engine index) :
    engine.StartsAt ((index.offsetFrom engine).getD 0) := by
  rw [h.offsetFrom_eq]
  cases hnoted : index.lastNoted with
  | none => exact Or.inl rfl
  | some offset =>
    obtain ⟨_, block, hblock, hoffset, _⟩ := h.noted offset hnoted
    exact Or.inr ⟨block, hblock, hoffset⟩

/-- Whether a block is above the indexed ones and deep enough. -/
def isDue (engine : EngineHandle) (index : EntityIndex) (block : ChainBlock) : Bool :=
  decide (index.indexedOffset < block.offset ∧
    engine.IsDeep index.config.chainIndexMinDepth block)

theorem newEntries_eq (h : InStep engine index) :
    index.newEntries engine = (engine.blocks.filter (isDue engine index)).flatMap fun block =>
      block.engineOperations.map fun op => (block.offset, op) := by
  rw [EntityIndex.newEntries, h.linked.getChainOperations_eq _ h.startsAt, List.filterMap_flatMap,
    h.offsetFrom_eq, flatMap_filter_eq, flatMap_filter_eq]
  apply List.flatMap_congr
  intro block _
  by_cases hdue : isDue engine index block
  · have hcond : index.lastNoted.getD 0 < block.offset ∧
        engine.IsDeep index.config.chainIndexMinDepth block := of_decide_eq_true hdue
    have hread : ∀ op ∈ block.engineOperations, EntityIndex.indexable index.config
        engine.lastHeight (index.lastNoted.getD 0) op = some (block.offset, op) := by
      intro op hop
      obtain ⟨op', _, rfl⟩ := List.mem_map.mp hop
      exact if_pos hcond
    rw [if_pos hdue, if_pos (decide_eq_true hcond.1.le), ← List.filterMap_eq_map]
    exact List.filterMap_congr hread
  · rw [if_neg hdue]
    split_ifs
    · apply List.filterMap_eq_nil_iff.mpr
      intro op hop
      obtain ⟨op', _, rfl⟩ := List.mem_map.mp hop
      exact if_neg fun hcond => hdue (decide_eq_true hcond)
    · rfl

/-- The documents that the call adds to the chain index. -/
theorem newDocuments_eq (h : InStep engine index) :
    (EntityIndex.chainOperations (index.newEntries engine)).filterMap IndexOperation.document =
      (engine.blocks.filter (isDue engine index)).flatMap ChainBlock.documents := by
  rw [EntityIndex.chainOperations, List.filterMap_flatMap, h.newEntries_eq, List.flatMap_assoc]
  apply List.flatMap_congr
  intro block _
  rw [List.flatMap_map]
  rfl

/-- The documents of the deep blocks. -/
def deepDocuments (engine : EngineHandle) (minDepth : ℕ) : List MutationMetadata :=
  (engine.blocks.filter fun block => decide (0 < block.offset ∧
    engine.IsDeep minDepth block)).flatMap ChainBlock.documents

/-- The blocks up to the last indexed one are deep. -/
theorem isDeep_of_indexed (h : InStep engine index) (block : ChainBlock)
    (hblock : block ∈ engine.blocks) (hpos : 0 < block.offset)
    (hle : block.offset ≤ index.indexedOffset) :
    engine.IsDeep index.config.chainIndexMinDepth block := by
  rw [EntityIndex.indexedOffset] at hle
  cases hnoted : index.lastNoted with
  | none =>
    rw [hnoted, Option.getD_none] at hle
    exact absurd hpos (not_lt.mpr hle)
  | some offset =>
    obtain ⟨_, last, hlast, rfl, hdeep⟩ := h.noted offset hnoted
    rw [hnoted, Option.getD_some] at hle
    exact h.linked.isDeep_of_le _ block last hblock hlast hle hdeep

/-- With the documents of the blocks that are due, the index holds those of the deep blocks. -/
theorem append_due_perm (h : InStep engine index) :
    (index.chainIndex.committed ++
      (engine.blocks.filter (isDue engine index)).flatMap ChainBlock.documents).Perm
        (deepDocuments engine index.config.chainIndexMinDepth) := by
  set deep := engine.blocks.filter fun block => decide (0 < block.offset ∧
    engine.IsDeep index.config.chainIndexMinDepth block) with hdeep
  have hlow : (engine.blocks.filter fun block => decide (0 < block.offset ∧
      block.offset ≤ index.indexedOffset)) =
      deep.filter fun block => decide (block.offset ≤ index.indexedOffset) := by
    rw [hdeep, List.filter_filter]
    apply List.filter_congr
    intro block hblock
    rw [← Bool.decide_and, decide_eq_decide]
    constructor
    · rintro ⟨hpos, hle⟩
      exact ⟨hle, hpos, h.isDeep_of_indexed block hblock hpos hle⟩
    · rintro ⟨hle, hpos, -⟩
      exact ⟨hpos, hle⟩
  have hhigh : engine.blocks.filter (isDue engine index) =
      deep.filter fun block => !decide (block.offset ≤ index.indexedOffset) := by
    rw [hdeep, List.filter_filter]
    apply List.filter_congr
    intro block _
    rw [isDue, ← decide_not, ← Bool.decide_and, decide_eq_decide, not_le]
    constructor
    · rintro ⟨hlt, hd⟩
      exact ⟨hlt, (Fin.zero_le _).trans_lt hlt, hd⟩
    · rintro ⟨hlt, -, hd⟩
      exact ⟨hlt, hd⟩
  have hdocuments := h.documents
  rw [EngineHandle.documentsUpTo, hlow] at hdocuments
  rw [hhigh]
  calc index.chainIndex.committed ++
        (deep.filter fun block => !decide (block.offset ≤ index.indexedOffset)).flatMap
          ChainBlock.documents
      ~ (deep.filter fun block => decide (block.offset ≤ index.indexedOffset)).flatMap
          ChainBlock.documents ++
        (deep.filter fun block => !decide (block.offset ≤ index.indexedOffset)).flatMap
          ChainBlock.documents := hdocuments.append_right _
    _ = (deep.filter (fun block => decide (block.offset ≤ index.indexedOffset)) ++
          deep.filter fun block => !decide (block.offset ≤ index.indexedOffset)).flatMap
          ChainBlock.documents := by rw [List.flatMap_append]
    _ ~ deep.flatMap ChainBlock.documents :=
        (List.filter_append_perm _ deep).flatMap_right _

/-- Where the deep blocks above a deep one have no documents, those up to it have them all. -/
theorem deepDocuments_eq (hlinked : engine.Linked) (minDepth : ℕ) (last : ChainBlock)
    (hlast : last ∈ engine.blocks) (hdeep : engine.IsDeep minDepth last)
    (habove : ∀ block ∈ engine.blocks, engine.IsDeep minDepth block →
      last.offset < block.offset → block.documents = []) :
    deepDocuments engine minDepth = engine.documentsUpTo last.offset := by
  apply flatMap_filter_congr
  intro block hblock hne
  rw [decide_eq_decide, and_congr_right_iff]
  intro _
  constructor
  · intro hblockDeep
    by_contra hlt
    exact hne (habove block hblock hblockDeep (not_le.mp hlt))
  · intro hle
    exact hlinked.isDeep_of_le minDepth block last hblock hlast hle hdeep

theorem mem_newEntries_iff (h : InStep engine index) (entry : BlockOffset × EngineOperation) :
    entry ∈ index.newEntries engine ↔ ∃ block ∈ engine.blocks, isDue engine index block ∧
      entry.1 = block.offset ∧ entry.2 ∈ block.engineOperations := by
  rw [h.newEntries_eq, List.mem_flatMap]
  constructor
  · rintro ⟨block, hblock, hentry⟩
    obtain ⟨hmem, hdue⟩ := List.mem_filter.mp hblock
    obtain ⟨op, hop, rfl⟩ := List.mem_map.mp hentry
    exact ⟨block, hmem, hdue, rfl, hop⟩
  · rintro ⟨block, hmem, hdue, hoffset, hop⟩
    refine ⟨block, List.mem_filter.mpr ⟨hmem, hdue⟩, List.mem_map.mpr ⟨entry.2, hop, ?_⟩⟩
    rw [← hoffset]

/-- The blocks that are due have documents, but the note of the last block is set and would not
be moved to them, since the pending index is empty. -/
structure SkipsNote (engine : EngineHandle) (index : EntityIndex) : Prop where
  noted : index.chainIndexLastBlock ≠ none
  empty : index.pendingIndex.committed = []
  due : ∃ block ∈ engine.blocks, isDue engine index block ∧ block.documents ≠ []

theorem apart_indexedState (h : InStep engine index) :
    ∀ doc ∈ (index.indexedState engine).chainIndex.committed,
      ∀ doc' ∈ (index.indexedState engine).pendingIndex.committed,
        doc.operationId ≠ doc'.operationId := by
  intro doc hdoc doc' hdoc' heq
  obtain ⟨hmem', hkept⟩ := List.mem_filter.mp hdoc'
  have hnew : doc'.operationId ∉ (index.newEntries engine).map fun entry =>
      entry.2.operationId := of_decide_eq_true hkept
  rcases List.mem_append.mp hdoc with hold | hadded
  · exact h.apart doc hold doc' hmem' heq
  · rw [h.newDocuments_eq] at hadded
    obtain ⟨block, hblock, hadded⟩ := List.mem_flatMap.mp hadded
    obtain ⟨hmem, hdue⟩ := List.mem_filter.mp hblock
    obtain ⟨_, op, hop, hid⟩ := block.mem_documents doc hadded
    apply hnew
    rw [← heq, hid]
    exact List.mem_map.mpr ⟨(block.offset, op),
      (h.mem_newEntries_iff _).mpr ⟨block, hmem, hdue, rfl, hop⟩, rfl⟩

/-- A state with the documents of the deep blocks is in step once its last block is the one of
the last of these documents or above it. -/
theorem of_deepDocuments (hlinked : engine.Linked) (hdeletions : engine.NoDeletions)
    (hcommitted : index.Committed)
    (hdocuments : index.chainIndex.committed.Perm
      (deepDocuments engine index.config.chainIndexMinDepth))
    (last : ChainBlock) (hlast : last ∈ engine.blocks)
    (hdeep : engine.IsDeep index.config.chainIndexMinDepth last) (hpos : 0 < last.offset)
    (hnoted : index.lastNoted = some last.offset)
    (habove : ∀ block ∈ engine.blocks, engine.IsDeep index.config.chainIndexMinDepth block →
      last.offset < block.offset → block.documents = [])
    (hapart : ∀ doc ∈ index.chainIndex.committed, ∀ doc' ∈ index.pendingIndex.committed,
      doc.operationId ≠ doc'.operationId) : InStep engine index where
  linked := hlinked
  deletions := hdeletions
  committed := hcommitted
  noted := by
    intro offset hoffset
    obtain rfl := Option.some.inj (hoffset.symm.trans hnoted)
    exact ⟨hpos, last, hlast, rfl, hdeep⟩
  documents := by
    rw [EntityIndex.indexedOffset, hnoted, Option.getD_some,
      ← deepDocuments_eq hlinked _ last hlast hdeep habove]
    exact hdocuments
  apart := hapart

/-- The highest block of an index with the documents of some blocks. -/
theorem highest_of_documents (p : ChainBlock → Bool) (mutationIndex : MutationIndex)
    (hdocuments : mutationIndex.committed.Perm
      ((engine.blocks.filter p).flatMap ChainBlock.documents))
    (hne : mutationIndex.committed ≠ []) :
    ∃ last ∈ engine.blocks, p last ∧ mutationIndex.highestIndexedBlock = some last.offset ∧
      ∀ block ∈ engine.blocks, p block → last.offset < block.offset → block.documents = [] := by
  cases hhighest : mutationIndex.highestIndexedBlock with
  | none => exact absurd ((MutationIndex.highestIndexedBlock_eq_none_iff _).mp hhighest) hne
  | some offset =>
    obtain ⟨⟨doc, hdoc, rfl⟩, hle⟩ := MutationIndex.highestIndexedBlock_spec _ _ hhighest
    obtain ⟨last, hlast, hlastDoc⟩ := List.mem_flatMap.mp (hdocuments.mem_iff.mp hdoc)
    obtain ⟨hlast, hp⟩ := List.mem_filter.mp hlast
    have hoffset := (last.mem_documents doc hlastDoc).1
    refine ⟨last, hlast, hp, by rw [hoffset, Option.getD_some], ?_⟩
    intro block hblock hpblock hlt
    rw [List.eq_nil_iff_forall_not_mem]
    intro doc' hdoc'
    have hmem' : doc' ∈ mutationIndex.committed := by
      apply hdocuments.mem_iff.mpr
      exact List.mem_flatMap.mpr ⟨block, List.mem_filter.mpr ⟨hblock, hpblock⟩, hdoc'⟩
    have hle' := hle doc' hmem'
    rw [(block.mem_documents doc' hdoc').1, hoffset, Option.getD_some, Option.getD_some] at hle'
    exact absurd hlt (not_lt.mpr hle')

/-- The last block of the operations that are due. -/
theorem lastEntry (h : InStep engine index) (hne : index.newEntries engine ≠ []) :
    ∃ last ∈ engine.blocks, isDue engine index last ∧
      ((index.newEntries engine).map Prod.fst).max? = some last.offset ∧
      ∀ block ∈ engine.blocks, engine.IsDeep index.config.chainIndexMinDepth block →
        last.offset < block.offset → block.documents = [] := by
  cases hmax : ((index.newEntries engine).map Prod.fst).max? with
  | none =>
    rw [List.max?_eq_none_iff, List.map_eq_nil_iff] at hmax
    exact absurd hmax hne
  | some offset =>
    obtain ⟨hmem, hle⟩ := List.max?_eq_some_iff.mp hmax
    obtain ⟨entry, hentry, rfl⟩ := List.mem_map.mp hmem
    obtain ⟨last, hlast, hdue, hoffset, _⟩ := (h.mem_newEntries_iff entry).mp hentry
    refine ⟨last, hlast, hdue, by rw [hoffset], ?_⟩
    intro block hblock hdeep hlt
    have hblockDue : isDue engine index block :=
      decide_eq_true ⟨(of_decide_eq_true hdue).1.trans hlt, hdeep⟩
    have hnone : block.engineOperations = [] := by
      rw [List.eq_nil_iff_forall_not_mem]
      intro op hop
      have hentry' := (h.mem_newEntries_iff (block.offset, op)).mpr
        ⟨block, hblock, hblockDue, rfl, hop⟩
      have hle' := hle block.offset (List.mem_map_of_mem (f := Prod.fst) hentry')
      rw [hoffset] at hle'
      exact absurd hlt (not_lt.mpr hle')
    rw [ChainBlock.documents, hnone, List.flatMap_nil]

theorem indexedState_inStep (h : InStep engine index) (hnote : ¬ SkipsNote engine index) :
    InStep engine (index.indexedState engine) := by
  have hdocs : (index.indexedState engine).chainIndex.committed = index.chainIndex.committed ++
      (engine.blocks.filter (isDue engine index)).flatMap ChainBlock.documents := by
    rw [← h.newDocuments_eq]
    rfl
  have hdocuments : (index.indexedState engine).chainIndex.committed.Perm
      (deepDocuments engine index.config.chainIndexMinDepth) := by
    rw [hdocs]
    exact h.append_due_perm
  have hlastBlock : (index.indexedState engine).chainIndexLastBlock =
      if index.pendingIndex.committed = [] then index.chainIndexLastBlock
      else ((index.newEntries engine).map Prod.fst).max?.or index.chainIndexLastBlock := rfl
  by_cases hmoved : index.pendingIndex.committed ≠ [] ∧ index.newEntries engine ≠ []
  · -- the note is moved to the last block of the operations
    obtain ⟨last, hlast, hdue, hmax, habove⟩ := h.lastEntry hmoved.2
    obtain ⟨hlt, hdeep⟩ := of_decide_eq_true hdue
    refine of_deepDocuments h.linked h.deletions ⟨rfl, rfl⟩ hdocuments last hlast hdeep
      ((Fin.zero_le _).trans_lt hlt) ?_ habove h.apart_indexedState
    rw [EntityIndex.lastNoted, hlastBlock, if_neg hmoved.1, hmax]
    rfl
  have hkept : (index.indexedState engine).chainIndexLastBlock = index.chainIndexLastBlock := by
    rw [hlastBlock]
    split_ifs with hempty
    · rfl
    · rw [not_and_not_right.mp hmoved hempty]
      rfl
  by_cases hsilent : (engine.blocks.filter (isDue engine index)).flatMap ChainBlock.documents = []
  · -- no document is added, and the last block stays
    have hsame : (index.indexedState engine).chainIndex.committed =
        index.chainIndex.committed := by rw [hdocs, hsilent, List.append_nil]
    have hnoted : (index.indexedState engine).lastNoted = index.lastNoted := by
      rw [EntityIndex.lastNoted, hkept, MutationIndex.highestIndexedBlock, hsame]
      rfl
    refine ⟨h.linked, h.deletions, ⟨rfl, rfl⟩, ?_, ?_, h.apart_indexedState⟩
    · rw [hnoted]
      exact h.noted
    · rw [EntityIndex.indexedOffset, hnoted, hsame]
      exact h.documents
  · -- the pending index is empty: the last block is read from the chain index
    obtain ⟨block, hblock, hdue, hdoc⟩ : ∃ block ∈ engine.blocks, isDue engine index block ∧
        block.documents ≠ [] := by
      rw [List.flatMap_eq_nil_iff] at hsilent
      push Not at hsilent
      obtain ⟨block, hblock, hdoc⟩ := hsilent
      obtain ⟨hmem, hdue⟩ := List.mem_filter.mp hblock
      exact ⟨block, hmem, hdue, hdoc⟩
    have hentries : index.newEntries engine ≠ [] := by
      intro hnil
      apply hsilent
      rw [← h.newDocuments_eq, hnil]
      rfl
    have hempty : index.pendingIndex.committed = [] := by
      by_contra hne
      exact hmoved ⟨hne, hentries⟩
    have hnone : index.chainIndexLastBlock = none := by
      by_contra hne
      exact hnote ⟨hne, hempty, block, hblock, hdue, hdoc⟩
    have hne : (index.indexedState engine).chainIndex.committed ≠ [] := by
      rw [hdocs]
      exact fun hnil => hsilent (List.append_eq_nil_iff.mp hnil).2
    obtain ⟨last, hlast, hcond, hhighest, habove⟩ := highest_of_documents _
      (index.indexedState engine).chainIndex hdocuments hne
    obtain ⟨hpos, hdeep⟩ := of_decide_eq_true hcond
    refine of_deepDocuments h.linked h.deletions ⟨rfl, rfl⟩ hdocuments last hlast hdeep
      hpos ?_ ?_ h.apart_indexedState
    · rw [EntityIndex.lastNoted, hkept, hnone, hhighest]
      rfl
    · intro block hblock hblockDeep hlt
      exact habove block hblock (decide_eq_true ⟨hpos.trans hlt, hblockDeep⟩) hlt

/-- The chain index alone, without the note of the last block. -/
theorem reopened (h : InStep engine index) :
    InStep engine ⟨index.config, .create,
      ⟨index.chainIndex.committed, index.chainIndex.committed⟩, none⟩ := by
  set docs := index.chainIndex.committed with hdocs
  have hapart : ∀ doc ∈ docs, ∀ doc' ∈ MutationIndex.create.committed,
      doc.operationId ≠ doc'.operationId := by simp [MutationIndex.create]
  rcases eq_or_ne docs [] with hnil | hne
  · rw [hnil] at hapart ⊢
    have hnoted : EntityIndex.lastNoted ⟨index.config, .create, ⟨[], []⟩, none⟩ = none := rfl
    refine ⟨h.linked, h.deletions, ⟨rfl, rfl⟩, ?_, ?_, hapart⟩
    · intro offset hoffset
      rw [hnoted] at hoffset
      contradiction
    · rw [EntityIndex.indexedOffset, hnoted, Option.getD_none, EngineHandle.documentsUpTo_zero]
  · obtain ⟨last, hlast, hcond, hhighest, habove⟩ := highest_of_documents _
      ⟨docs, docs⟩ h.documents hne
    obtain ⟨hpos, hle⟩ := of_decide_eq_true hcond
    have hnoted : EntityIndex.lastNoted ⟨index.config, .create, ⟨docs, docs⟩, none⟩ =
        some last.offset := hhighest
    refine ⟨h.linked, h.deletions, ⟨rfl, rfl⟩, ?_, ?_, hapart⟩
    · intro offset hoffset
      obtain rfl := Option.some.inj (hoffset.symm.trans hnoted)
      exact ⟨hpos, last, hlast, rfl, h.isDeep_of_indexed last hlast hpos hle⟩
    · rw [EntityIndex.indexedOffset, hnoted, Option.getD_some]
      have hsame : engine.documentsUpTo last.offset = engine.documentsUpTo index.indexedOffset := by
        apply flatMap_filter_congr
        intro block hblock hdoc
        rw [decide_eq_decide, and_congr_right_iff]
        intro hblockPos
        refine ⟨fun hblockLe => hblockLe.trans hle, fun hblockLe => ?_⟩
        by_contra hlt
        exact hdoc (habove block hblock (decide_eq_true ⟨hblockPos, hblockLe⟩) (not_le.mp hlt))
      rw [hsame]
      exact h.documents

end InStep

end Exocore.Store
