import Exocore.StoreEntityIndex

/-! What the operations of the entity index do to the documents of its two indices. -/
namespace Exocore.Store

open Exocore.Core

namespace IndexOperation

/-- The document that an operation adds. -/
def document : IndexOperation → Option MutationMetadata
  | .putTrait blockOffset operationId entityId trt =>
    (MutationIndex.traitPutToDocument blockOffset operationId entityId trt).toOption
  | .putTraitTombstone blockOffset operationId entityId traitId =>
    some ⟨operationId, blockOffset, entityId, .traitTombstone traitId⟩
  | .putEntityTombstone blockOffset operationId entityId =>
    some ⟨operationId, blockOffset, entityId, .entityTombstone⟩
  | .pendingDeletionMarker entityId operationId =>
    some ⟨operationId, none, entityId, .pendingDeletion⟩
  | .deleteEntityOperation _ _ => none

end IndexOperation

namespace MutationIndex

@[simp] theorem writeAll_nil (docs : List MutationMetadata) :
    writeAll [] docs = (.ok (), docs) := rfl

theorem write_document (op : IndexOperation) (doc : MutationMetadata)
    (h : op.document = some doc) (docs : List MutationMetadata) :
    write op docs = (.ok (), docs ++ [doc]) := by
  cases op with
  | putTrait blockOffset operationId entityId trt =>
    rw [IndexOperation.document] at h
    cases hd : traitPutToDocument blockOffset operationId entityId trt with
    | ok doc' =>
      rw [hd] at h
      obtain rfl := Option.some.inj h
      simp only [write, hd]
      rfl
    | error e =>
      rw [hd] at h
      contradiction
  | putTraitTombstone blockOffset operationId entityId traitId =>
    obtain rfl := Option.some.inj h
    rfl
  | putEntityTombstone blockOffset operationId entityId =>
    obtain rfl := Option.some.inj h
    rfl
  | pendingDeletionMarker entityId operationId =>
    obtain rfl := Option.some.inj h
    rfl
  | deleteEntityOperation entityId operationId => contradiction

/-- The operation adds a document or deletes by an id: the writer takes it. -/
def Takes (op : IndexOperation) : Prop :=
  op.document.isSome ∨ ∃ entityId operationId, op = .deleteEntityOperation entityId operationId

theorem takes_putTrait_iff (blockOffset : Option BlockOffset) (operationId : OperationId)
    (entityId : String) (trt : Trait) : Takes (.putTrait blockOffset operationId entityId trt) ↔
      (IndexOperation.putTrait blockOffset operationId entityId trt).document.isSome := by
  refine ⟨?_, Or.inl⟩
  rintro (h | ⟨_, _, hop⟩)
  · exact h
  · cases hop

instance : DecidablePred Takes
  | .deleteEntityOperation entityId operationId => isTrue (Or.inr ⟨entityId, operationId, rfl⟩)
  | .putTraitTombstone _ _ _ _ => isTrue (Or.inl rfl)
  | .putEntityTombstone _ _ _ => isTrue (Or.inl rfl)
  | .pendingDeletionMarker _ _ => isTrue (Or.inl rfl)
  | .putTrait blockOffset operationId entityId trt =>
    decidable_of_iff _ (takes_putTrait_iff blockOffset operationId entityId trt).symm

/-- Operations that each add a document add them all, in their order. -/
theorem writeAll_documents (ops : List IndexOperation) (h : ∀ op ∈ ops, op.document.isSome)
    (docs : List MutationMetadata) :
    writeAll ops docs = (.ok (), docs ++ ops.filterMap IndexOperation.document) := by
  induction ops generalizing docs with
  | nil => simp
  | cons op ops ih =>
    obtain ⟨doc, hdoc⟩ := Option.isSome_iff_exists.mp (h op (by simp))
    have hrest := ih (fun op hop => h op (List.mem_cons_of_mem _ hop)) (docs ++ [doc])
    rw [writeAll, Action.bind_of_ok _ _ _ _ _ (write_document op doc hdoc docs), hrest,
      List.filterMap_cons_some hdoc, List.append_assoc, List.singleton_append]

theorem applyOperations_documents (ops : List IndexOperation)
    (h : ∀ op ∈ ops, op.document.isSome) (docs : List MutationMetadata) :
    applyOperations ops ⟨docs, docs⟩ =
      (.ok ops.length, ⟨docs ++ ops.filterMap IndexOperation.document,
        docs ++ ops.filterMap IndexOperation.document⟩) := by
  rw [applyOperations, writeAll_documents ops h docs]
  rcases eq_or_ne ops [] with rfl | hne
  · simp
  · simp only [hne, if_false]

theorem writeAll_deletions {A : Type} (entityId : A → String) (operationId : A → OperationId)
    (entries : List A) (docs : List MutationMetadata) :
    writeAll (entries.map fun entry =>
        .deleteEntityOperation (entityId entry) (operationId entry)) docs =
      (.ok (), docs.filter fun doc => doc.operationId ∉ entries.map operationId) := by
  induction entries generalizing docs with
  | nil => simp
  | cons entry entries ih =>
    have hhead : write (.deleteEntityOperation (entityId entry) (operationId entry)) docs =
        (.ok (), docs.filter fun doc => doc.operationId ≠ operationId entry) := rfl
    rw [List.map_cons, writeAll, Action.bind_of_ok _ _ _ _ _ hhead, ih, List.filter_filter]
    congr 2
    funext doc
    simp only [List.map_cons, List.mem_cons, not_or, Bool.decide_and]
    exact Bool.and_comm _ _

theorem eq_of_written (index : MutationIndex) (h : index.written = index.committed) :
    index = ⟨index.committed, index.committed⟩ := by
  obtain ⟨written, committed⟩ := index
  simp only at h
  rw [h]

theorem highestIndexedBlock_eq_none_iff (index : MutationIndex) :
    index.highestIndexedBlock = none ↔ index.committed = [] := by
  rw [highestIndexedBlock, List.max?_eq_none_iff, List.map_eq_nil_iff]

/-- The highest block is the one of a document, and no document is of a higher one. -/
theorem highestIndexedBlock_spec (index : MutationIndex) (offset : BlockOffset)
    (h : index.highestIndexedBlock = some offset) :
    (∃ doc ∈ index.committed, doc.blockOffset.getD 0 = offset) ∧
      ∀ doc ∈ index.committed, doc.blockOffset.getD 0 ≤ offset := by
  rw [highestIndexedBlock, List.max?_eq_some_iff] at h
  obtain ⟨hmem, hle⟩ := h
  exact ⟨List.mem_map.mp hmem, fun doc hdoc => hle _ (List.mem_map_of_mem hdoc)⟩

end MutationIndex

/-- Earlier in the chain, by its offset and its height. -/
def ChainBlock.Before (a b : ChainBlock) : Prop := a.offset < b.offset ∧ a.height < b.height

instance : Trans ChainBlock.Before ChainBlock.Before ChainBlock.Before :=
  ⟨fun hab hbc => ⟨hab.1.trans hbc.1, hab.2.trans hbc.2⟩⟩

/-- The blocks of a chain that starts with its genesis block. -/
structure EngineHandle.Linked (engine : EngineHandle) : Prop where
  genesis : ∀ block ∈ engine.blocks.head?, block.offset = 0
  sized : ∀ block ∈ engine.blocks, block.offset < block.nextOffset
  follows : engine.blocks.IsChain fun a b => b.offset = a.nextOffset ∧ b.height = a.height + 1

namespace EngineHandle.Linked

variable {engine : EngineHandle}

theorem pairwise (h : engine.Linked) : engine.blocks.Pairwise ChainBlock.Before := by
  apply List.isChain_iff_pairwise.mp
  refine h.follows.imp_of_mem_imp ?_
  intro a b ha _ hab
  refine ⟨?_, ?_⟩
  · rw [hab.1]
    exact h.sized a ha
  · rw [hab.2]
    exact Nat.lt_succ_self _

theorem eq_of_offset (h : engine.Linked) (a b : ChainBlock) (ha : a ∈ engine.blocks)
    (hb : b ∈ engine.blocks) (hoffset : a.offset = b.offset) : a = b := by
  have hnodup : (engine.blocks.map ChainBlock.offset).Nodup :=
    List.pairwise_map.mpr (h.pairwise.imp fun hab => hab.1.ne)
  exact List.inj_on_of_nodup_map hnodup ha hb hoffset

theorem getChainBlock_eq (h : engine.Linked) (block : ChainBlock) (hblock : block ∈ engine.blocks) :
    engine.getChainBlock block.offset = some block := by
  rw [EngineHandle.getChainBlock]
  cases hfind : engine.blocks.find? fun b => b.offset = block.offset with
  | none =>
    have := List.find?_eq_none.mp hfind block hblock
    simp at this
  | some found =>
    have hoffset : found.offset = block.offset := by simpa using List.find?_some hfind
    rw [h.eq_of_offset found block (List.mem_of_find?_eq_some hfind) hblock hoffset]

theorem getChainBlockInfo_eq (h : engine.Linked) (block : ChainBlock)
    (hblock : block ∈ engine.blocks) :
    engine.getChainBlockInfo block.offset = some (block.offset, block.height) := by
  rw [EngineHandle.getChainBlockInfo, h.getChainBlock_eq block hblock, Option.map_some]

/-- The order of a block and the blocks on both sides of it. -/
theorem before_after (h : engine.Linked) (pre rest : List ChainBlock) (block : ChainBlock)
    (hsplit : engine.blocks = pre ++ block :: rest) :
    (∀ b ∈ pre, b.Before block) ∧ ∀ b ∈ rest, block.Before b := by
  have hpairwise := h.pairwise
  rw [hsplit, List.pairwise_append, List.pairwise_cons] at hpairwise
  obtain ⟨_, ⟨hrest, _⟩, hpre⟩ := hpairwise
  exact ⟨fun b hb => hpre b hb block (by simp), hrest⟩

/-- The iterator goes through the blocks of the rest of the chain. -/
theorem operationsFrom_eq (h : engine.Linked) (pre rest : List ChainBlock) (block : ChainBlock)
    (hsplit : engine.blocks = pre ++ block :: rest) (fuel : ℕ) (hfuel : rest.length < fuel) :
    engine.operationsFrom fuel block.offset =
      (block :: rest).flatMap ChainBlock.engineOperations := by
  induction rest generalizing pre block fuel with
  | nil =>
    obtain ⟨fuel, rfl⟩ := Nat.exists_eq_add_one_of_ne_zero (Nat.ne_zero_of_lt hfuel)
    have hmem : block ∈ engine.blocks := by simp [hsplit]
    have hend : engine.getChainBlock block.nextOffset = none := by
      rw [EngineHandle.getChainBlock, List.find?_eq_none]
      intro b hb
      have hle : b.offset ≤ block.offset := by
        rw [hsplit, List.mem_append, List.mem_singleton] at hb
        rcases hb with hb | rfl
        · exact ((h.before_after pre [] block hsplit).1 b hb).1.le
        · exact le_rfl
      simpa using (hle.trans_lt (h.sized block hmem)).ne
    have hstop : engine.operationsFrom fuel block.nextOffset = [] := by
      cases fuel with
      | zero => rfl
      | succ fuel => simp only [EngineHandle.operationsFrom, hend]
    simp only [EngineHandle.operationsFrom, h.getChainBlock_eq block hmem, hstop,
      List.flatMap_cons, List.flatMap_nil]
  | cons next rest ih =>
    obtain ⟨fuel, rfl⟩ := Nat.exists_eq_add_one_of_ne_zero (Nat.ne_zero_of_lt hfuel)
    have hmem : block ∈ engine.blocks := by simp [hsplit]
    have hnext : next.offset = block.nextOffset := by
      have hchain := h.follows
      rw [hsplit, List.isChain_append] at hchain
      exact (List.isChain_cons_cons.mp hchain.2.1).1.1
    have htail := ih (pre ++ [block]) next (by rw [hsplit]; simp) fuel
      (by simpa using hfuel)
    simp only [EngineHandle.operationsFrom, h.getChainBlock_eq block hmem, ← hnext, htail,
      List.flatMap_cons]

end EngineHandle.Linked

/-- An offset from which the iterator starts at a block, or at the start of the chain. -/
def EngineHandle.StartsAt (engine : EngineHandle) (offset : BlockOffset) : Prop :=
  offset = 0 ∨ ∃ block ∈ engine.blocks, block.offset = offset

theorem EngineHandle.Linked.filter_from_eq {engine : EngineHandle} (h : engine.Linked)
    (pre rest : List ChainBlock) (block : ChainBlock)
    (hsplit : engine.blocks = pre ++ block :: rest) :
    engine.blocks.filter (fun b => decide (block.offset ≤ b.offset)) = block :: rest := by
  obtain ⟨hpre, hrest⟩ := h.before_after pre rest block hsplit
  have hnone : pre.filter (fun b => decide (block.offset ≤ b.offset)) = [] := by
    rw [List.filter_eq_nil_iff]
    intro b hb
    simpa using (hpre b hb).1
  have hall : rest.filter (fun b => decide (block.offset ≤ b.offset)) = rest := by
    rw [List.filter_eq_self]
    intro b hb
    simpa using (hrest b hb).1.le
  rw [hsplit, List.filter_append, hnone, List.filter_cons, hall]
  simp

theorem EngineHandle.Linked.getChainOperations_eq {engine : EngineHandle} (h : engine.Linked)
    (fromOffset : Option BlockOffset) (hfrom : engine.StartsAt (fromOffset.getD 0)) :
    engine.getChainOperations fromOffset =
      (engine.blocks.filter fun b => decide (fromOffset.getD 0 ≤ b.offset)).flatMap
        ChainBlock.engineOperations := by
  rw [EngineHandle.getChainOperations]
  generalize fromOffset.getD 0 = offset at hfrom
  rcases eq_or_ne engine.blocks [] with hnil | hne
  · rw [hnil]
    rfl
  · obtain ⟨block, hmem, rfl⟩ : ∃ block ∈ engine.blocks, block.offset = offset := by
      rcases hfrom with rfl | hblock
      · have hhead := List.head?_eq_some_head hne
        exact ⟨engine.blocks.head hne, List.head_mem hne, h.genesis _ hhead⟩
      · exact hblock
    obtain ⟨pre, rest, hsplit⟩ := List.append_of_mem hmem
    rw [h.filter_from_eq pre rest block hsplit]
    refine h.operationsFrom_eq pre rest block hsplit _ ?_
    rw [hsplit, List.length_append, List.length_cons]
    omega

end Exocore.Store
