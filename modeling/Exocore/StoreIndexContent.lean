import Exocore.StoreIndexCalls

/-! Operations whose content the entity index cannot take: which calls they stop, and what the
other calls make visible. -/
namespace Exocore.Store

open Exocore.Core

/-- The call fails because of what an operation holds. -/
def ContentError {A : Type} (r : Res StoreError A) : Prop :=
  ∃ field, r = .error (.error (.protoFieldExpected field))

@[simp] theorem not_contentError_ok {A : Type} (a : A) :
    ¬ ContentError (.ok a : Res StoreError A) := by
  simp [ContentError]

theorem contentError_of_error {A B : Type} (e : Fault StoreError)
    (h : ContentError (.error e : Res StoreError A)) :
    ContentError (.error e : Res StoreError B) := by
  obtain ⟨field, hfield⟩ := h
  exact ⟨field, by rw [Except.error.inj hfield]⟩

/-- Each document that the operations add, and that none of the later ones deletes, is found. -/
def AddedVisible (ops : List IndexOperation) (index : MutationIndex) : Prop :=
  ∀ before op after doc, ops = before ++ op :: after → op.document = some doc →
    (∀ entityId, .deleteEntityOperation entityId doc.operationId ∉ after) →
    doc ∈ index.committed

namespace MutationIndex

theorem write_of_takes (op : IndexOperation) (h : Takes op) (docs : List MutationMetadata) :
    ∃ docs', write op docs = (.ok (), docs') := by
  rcases h with hdoc | ⟨entityId, operationId, rfl⟩
  · obtain ⟨doc, hdoc⟩ := Option.isSome_iff_exists.mp hdoc
    exact ⟨_, write_document op doc hdoc docs⟩
  · exact ⟨_, rfl⟩

/-- A put of a trait without a message fails, and leaves the writer as it is. -/
theorem write_of_not_takes (op : IndexOperation) (h : ¬ Takes op) (docs : List MutationMetadata) :
    write op docs = (.error (.error (.protoFieldExpected "Trait message")), docs) := by
  cases op with
  | putTrait blockOffset operationId entityId trt =>
    cases hmessage : trt.message with
    | none =>
      simp only [write, traitPutToDocument, hmessage]
      rfl
    | some message =>
      refine absurd (Or.inl ?_) h
      simp [IndexOperation.document, traitPutToDocument, hmessage, Except.toOption]
  | putTraitTombstone blockOffset operationId entityId traitId => exact absurd (Or.inl rfl) h
  | putEntityTombstone blockOffset operationId entityId => exact absurd (Or.inl rfl) h
  | pendingDeletionMarker entityId operationId => exact absurd (Or.inl rfl) h
  | deleteEntityOperation entityId operationId =>
    exact absurd (Or.inr ⟨entityId, operationId, rfl⟩) h

theorem writeAll_ok_of_takes (ops : List IndexOperation) (h : ∀ op ∈ ops, Takes op)
    (docs : List MutationMetadata) : ∃ docs', writeAll ops docs = (.ok (), docs') := by
  obtain ⟨kept, hkept⟩ := writeAll_takes ops h
  exact ⟨_, hkept docs⟩

theorem writeAll_contentError (ops : List IndexOperation) (h : ¬ ∀ op ∈ ops, Takes op)
    (docs : List MutationMetadata) : ContentError (writeAll ops docs).1 := by
  induction ops generalizing docs with
  | nil => simp at h
  | cons op ops ih =>
    rw [writeAll]
    by_cases hop : Takes op
    · obtain ⟨docs', hwrite⟩ := write_of_takes op hop docs
      rw [Action.bind_of_ok _ _ _ _ _ hwrite]
      apply ih
      intro hall
      apply h
      intro op' hop'
      rcases List.mem_cons.mp hop' with rfl | htail
      · exact hop
      · exact hall op' htail
    · rw [Action.bind_of_error _ _ _ _ _ (write_of_not_takes op hop docs)]
      exact ⟨_, rfl⟩

/-- A document stays where no operation deletes it. -/
theorem writeAll_keeps (ops : List IndexOperation) (docs docs' : List MutationMetadata)
    (h : writeAll ops docs = (.ok (), docs')) (doc : MutationMetadata) (hdoc : doc ∈ docs)
    (hkept : ∀ entityId, .deleteEntityOperation entityId doc.operationId ∉ ops) : doc ∈ docs' := by
  induction ops generalizing docs with
  | nil =>
    rw [writeAll_nil] at h
    rw [← (Prod.mk.inj h).2]
    exact hdoc
  | cons op ops ih =>
    obtain ⟨_, docs1, hwrite, hrest⟩ := Action.bind_eq_ok _ _ _ _ _ h
    apply ih docs1 hrest
    · by_cases hop : op.document.isSome
      · obtain ⟨doc1, hdoc1⟩ := Option.isSome_iff_exists.mp hop
        rw [write_document op doc1 hdoc1 docs] at hwrite
        rw [← (Prod.mk.inj hwrite).2]
        exact List.mem_append_left _ hdoc
      · by_cases htakes : Takes op
        · obtain ⟨entityId, operationId, rfl⟩ := htakes.resolve_left hop
          have hne : doc.operationId ≠ operationId := by
            intro heq
            apply hkept entityId
            rw [heq]
            exact List.mem_cons_self
          rw [← (Prod.mk.inj hwrite).2]
          exact List.mem_filter.mpr ⟨hdoc, by simpa using hne⟩
        · rw [write_of_not_takes op htakes docs] at hwrite
          exact absurd (Prod.mk.inj hwrite).1 (by simp)
    · exact fun entityId hmem => hkept entityId (List.mem_cons_of_mem _ hmem)

theorem writeAll_append (ops ops' : List IndexOperation) (docs : List MutationMetadata) :
    writeAll (ops ++ ops') docs = (writeAll ops >>= fun _ => writeAll ops') docs := by
  induction ops generalizing docs with
  | nil => rfl
  | cons op ops ih =>
    rw [List.cons_append, writeAll, writeAll, Action.bind_apply, Action.bind_apply,
      Action.bind_apply]
    rcases write op docs with ⟨_ | _, docs'⟩
    · rfl
    · exact ih docs'

theorem visible_of_writeAll (ops : List IndexOperation) (docs docs' : List MutationMetadata)
    (h : writeAll ops docs = (.ok (), docs')) (index : MutationIndex)
    (hindex : index.committed = docs') : AddedVisible ops index := by
  rintro before op after doc rfl hdoc hkept
  rw [writeAll_append] at h
  obtain ⟨_, docs1, -, h⟩ := Action.bind_eq_ok _ _ _ _ _ h
  obtain ⟨_, docs2, hwrite, hrest⟩ := Action.bind_eq_ok _ _ _ _ _ h
  rw [write_document op doc hdoc docs1] at hwrite
  rw [hindex]
  apply writeAll_keeps after docs2 docs' hrest doc _ hkept
  rw [← (Prod.mk.inj hwrite).2]
  exact List.mem_append_right _ (List.mem_singleton.mpr rfl)

/-- The operations are applied: the call ends well, and what they add is found. -/
def Indexes (index : MutationIndex) (ops : List IndexOperation) : Prop :=
  ∃ count index', applyOperations ops index = (.ok count, index') ∧ AddedVisible ops index'

/-- The operations that are applied all have their messages. -/
def AllTaken (_ : MutationIndex) (ops : List IndexOperation) : Prop := ∀ op ∈ ops, Takes op

theorem applyOperations_of_takes (ops : List IndexOperation) (index : MutationIndex)
    (hindex : index.written = index.committed) (h : ∀ op ∈ ops, Takes op) :
    ∃ index', applyOperations ops index = (.ok ops.length, index') ∧
      index'.written = index'.committed ∧ AddedVisible ops index' := by
  obtain ⟨docs, hwrite⟩ := writeAll_ok_of_takes ops h index.written
  rw [applyOperations, hwrite]
  by_cases hempty : ops = []
  · refine ⟨index, ?_, hindex, ?_⟩
    · simp only [if_pos hempty]
    · apply visible_of_writeAll ops index.written docs hwrite
      rw [hempty, writeAll_nil] at hwrite
      rw [← hindex, (Prod.mk.inj hwrite).2]
  · refine ⟨⟨docs, docs⟩, ?_, rfl, visible_of_writeAll ops index.written docs hwrite _ rfl⟩
    simp only [if_neg hempty]

theorem applyOperations_contentError (ops : List IndexOperation) (index : MutationIndex)
    (h : ¬ ∀ op ∈ ops, Takes op) : ContentError (applyOperations ops index).1 := by
  have herror := writeAll_contentError ops h index.written
  rw [applyOperations]
  generalize writeAll ops index.written = written at herror
  obtain ⟨r, docs⟩ := written
  cases r with
  | ok _ => exact absurd herror (not_contentError_ok _)
  | error e => exact contentError_of_error e herror

theorem indexes_of_takes (ops : List IndexOperation) (index : MutationIndex)
    (hindex : index.written = index.committed) (h : AllTaken index ops) : Indexes index ops := by
  obtain ⟨index', hok, -, hvisible⟩ := applyOperations_of_takes ops index hindex h
  exact ⟨_, index', hok, hvisible⟩

end MutationIndex

namespace EntityIndex

section Applied
variable (p : MutationIndex → List IndexOperation → Prop) (overflowChecks : Bool)
  (engine : EngineHandle)

/-- What is applied to the chain index when new blocks are indexed. -/
def AppliesChain (index : EntityIndex) : Prop :=
  Proceeds overflowChecks engine index → p index.chainIndex (chainOperations (index.newEntries engine))

/-- What is applied to the pending index when it is made again. -/
def AppliesPending (index : EntityIndex) : Prop := p .create (reindexOperations engine index)

def AppliesBatch (batched : List OperationId) (index : EntityIndex) : Prop :=
  p index.pendingIndex (batchOperations engine batched)

/-- The pending index is made again after the new blocks are indexed. -/
def AppliesBoth (index : EntityIndex) : Prop :=
  AppliesChain p overflowChecks engine index ∧
    ∀ r index', indexChainNewBlocks overflowChecks engine index = (.ok r, index') →
      AppliesPending p engine index'

def AppliesEvent (index : EntityIndex) : EngineEvent → Prop
  | .started => AppliesBoth p overflowChecks engine index
  | .streamDiscontinuity => AppliesPending p engine index
  | .newChainBlock _ => AppliesChain p overflowChecks engine index
  | .chainDiverged diverged => match index.chainIndex.highestIndexedBlock with
    | some lastIndexed => lastIndexed < diverged → AppliesPending p engine index
    | none => AppliesBoth p overflowChecks engine { index with chainIndex := .create }
  | .newPendingOperation _ => True

/-- What the events of a call make it apply, each in the state that those before it leave. -/
def AppliesEvents : List OperationId → List EngineEvent → EntityIndex → Prop
  | batched, [], index => AppliesBatch p engine batched index
  | batched, .newPendingOperation id :: events, index =>
    AppliesEvents (batched ++ [id]) events index
  | batched, event :: events, index =>
    AppliesBatch p engine batched index ∧
      ∀ count index', applyBatch engine batched index = (.ok count, index') →
        AppliesEvent p overflowChecks engine index' event ∧
          ∀ r index'', handleEvent overflowChecks engine event index' = (.ok r, index'') →
            AppliesEvents [] events index''

end Applied

/-- The call is stopped by what an operation holds exactly where the condition fails. Otherwise it
leaves both indices with all that was written to them committed. -/
structure StoppedUnless {A : Type} (condition : Prop) (x : Action EntityIndex StoreError A)
    (index : EntityIndex) : Prop where
  goes : condition → ¬ ContentError (x index).1 ∧ (x index).2.Committed
  stops : ¬ condition → ContentError (x index).1

theorem StoppedUnless.iff {A : Type} {condition : Prop} {x : Action EntityIndex StoreError A}
    {index : EntityIndex} (h : StoppedUnless condition x index) :
    ¬ ContentError (x index).1 ↔ condition :=
  ⟨fun hno => by_contra fun hnot => hno (h.stops hnot), fun hcondition => (h.goes hcondition).1⟩

theorem StoppedUnless.of_eq {A : Type} {condition condition' : Prop}
    {x y : Action EntityIndex StoreError A} {index index' : EntityIndex}
    (h : StoppedUnless condition y index') (heq : x index = y index')
    (hiff : condition' ↔ condition) : StoppedUnless condition' x index := by
  constructor
  · intro hcondition
    rw [heq]
    exact h.goes (hiff.mp hcondition)
  · intro hnot
    rw [heq]
    exact h.stops fun hcondition => hnot (hiff.mpr hcondition)

theorem stoppedUnless_bind {A B : Type} {condition : Prop} {rest : A → EntityIndex → Prop}
    {x : Action EntityIndex StoreError A} {f : A → Action EntityIndex StoreError B}
    {index : EntityIndex} (hx : StoppedUnless condition x index)
    (hf : condition → ∀ a index', x index = (.ok a, index') → index'.Committed →
      StoppedUnless (rest a index') (f a) index') :
    StoppedUnless (condition ∧ ∀ a index', x index = (.ok a, index') → rest a index') (x >>= f)
      index := by
  constructor
  · rintro ⟨hcondition, hrest⟩
    obtain ⟨hno, hcommitted⟩ := hx.goes hcondition
    rcases Action.bind_cases x f index with ⟨e, index', hfails, hbind⟩ | ⟨a, index', hok, hbind⟩
    · rw [hfails] at hno hcommitted
      rw [hbind]
      exact ⟨fun herror => hno (contentError_of_error e herror), hcommitted⟩
    · rw [hok] at hcommitted
      rw [hbind]
      exact (hf hcondition a index' hok hcommitted).goes (hrest a index' hok)
  · intro hnot
    by_cases hcondition : condition
    · obtain ⟨a, index', hok, hstop⟩ : ∃ a index', x index = (.ok a, index') ∧ ¬ rest a index' := by
        by_contra hnone
        push Not at hnone
        exact hnot ⟨hcondition, hnone⟩
      have hcommitted := (hx.goes hcondition).2
      rw [hok] at hcommitted
      rw [Action.bind_of_ok _ _ _ _ _ hok]
      exact (hf hcondition a index' hok hcommitted).stops hstop
    · have herror := hx.stops hcondition
      rcases Action.bind_cases x f index with ⟨e, index', hfails, hbind⟩ | ⟨a, index', hok, -⟩
      · rw [hfails] at herror
        rw [hbind]
        exact contentError_of_error e herror
      · rw [hok] at herror
        exact absurd herror (not_contentError_ok a)

/-- What follows does not apply anything. -/
theorem stoppedUnless_then {A B : Type} {condition : Prop} {x : Action EntityIndex StoreError A}
    {index : EntityIndex} (hx : StoppedUnless condition x index) (b : A → B) :
    StoppedUnless condition (x >>= fun a => pure (b a)) index := by
  have hbind : StoppedUnless (condition ∧ ∀ a index', x index = (.ok a, index') → True)
      (x >>= fun a => pure (b a)) index :=
    stoppedUnless_bind hx fun _ _ _ _ hcommitted =>
      ⟨fun _ => ⟨not_contentError_ok _, hcommitted⟩, fun hnot => absurd trivial hnot⟩
  exact ⟨fun h => hbind.goes ⟨h, fun _ _ _ => trivial⟩, fun h => hbind.stops fun hboth => h hboth.1⟩

section Calls
variable (overflowChecks : Bool) (engine : EngineHandle) (index : EntityIndex)

theorem stoppedUnless_onPendingIndex (ops : List IndexOperation) (hindex : index.Committed) :
    StoppedUnless (MutationIndex.AllTaken index.pendingIndex ops)
      (onPendingIndex (MutationIndex.applyOperations ops)) index := by
  constructor
  · intro htaken
    obtain ⟨index', hok, hcommitted, -⟩ :=
      MutationIndex.applyOperations_of_takes ops index.pendingIndex hindex.pending htaken
    rw [onPendingIndex, hok]
    exact ⟨not_contentError_ok _, hcommitted, hindex.chain⟩
  · intro hnot
    exact MutationIndex.applyOperations_contentError ops index.pendingIndex hnot

theorem stoppedUnless_onChainIndex (ops : List IndexOperation) (hindex : index.Committed) :
    StoppedUnless (MutationIndex.AllTaken index.chainIndex ops)
      (onChainIndex (MutationIndex.applyOperations ops)) index := by
  constructor
  · intro htaken
    obtain ⟨index', hok, hcommitted, -⟩ :=
      MutationIndex.applyOperations_of_takes ops index.chainIndex hindex.chain htaken
    rw [onChainIndex, hok]
    exact ⟨not_contentError_ok _, hindex.pending, hcommitted⟩
  · intro hnot
    exact MutationIndex.applyOperations_contentError ops index.chainIndex hnot

/-- Without new blocks the call only fails for reasons of its own. -/
theorem indexChainNewBlocks_not_contentError (h : ¬ Proceeds overflowChecks engine index) :
    ¬ ContentError (indexChainNewBlocks overflowChecks engine index).1 := by
  rw [indexChainNewBlocks]
  by_cases hblocks : engine.blocks = []
  · have hnone : engine.getChainLastBlockInfo = none := by
      rw [EngineHandle.getChainLastBlockInfo, hblocks]
      rfl
    rw [hnone]
    rintro ⟨field, hfield⟩
    exact absurd (Except.error.inj hfield) (by simp)
  · obtain ⟨offset, hlast⟩ := getChainLastBlockInfo_eq engine hblocks
    rw [hlast]
    simp only [orError, Action.lift_ok_bind, Action.get_bind]
    cases hshallow : isShallow overflowChecks index.config engine.lastHeight
        (index.lastChainIndexedBlock engine) with
    | error e =>
      rintro ⟨field, hfield⟩
      obtain rfl := Except.error.inj hfield
      -- the subtraction of the heights is all that may fail, with a panic
      cases hlastIndexed : index.lastChainIndexedBlock engine with
      | none => simp [hlastIndexed, isShallow] at hshallow
      | some block =>
        rw [hlastIndexed, isShallow, indexedDepth] at hshallow
        split_ifs at hshallow
        all_goals cases hshallow
    | ok shallow => cases shallow with
      | true => exact not_contentError_ok _
      | false => exact absurd ⟨hblocks, hshallow⟩ h

theorem stoppedUnless_indexChainNewBlocks (hindex : index.Committed) :
    StoppedUnless (AppliesChain MutationIndex.AllTaken overflowChecks engine index)
      (indexChainNewBlocks overflowChecks engine) index := by
  by_cases hproceeds : Proceeds overflowChecks engine index
  · have heq := indexChainNewBlocks_of_proceeds overflowChecks engine index hproceeds
    have hchain := stoppedUnless_onChainIndex index (chainOperations (index.newEntries engine)) hindex
    constructor
    · intro htaken
      obtain ⟨-, hcommitted⟩ := hchain.goes (htaken hproceeds)
      obtain ⟨index', hok, -, -⟩ := MutationIndex.applyOperations_of_takes _ index.chainIndex
        hindex.chain (htaken hproceeds)
      have hstep : onChainIndex (MutationIndex.applyOperations
          (chainOperations (index.newEntries engine))) index =
          (.ok (chainOperations (index.newEntries engine)).length,
            { index with chainIndex := index' }) := by
        rw [onChainIndex, hok]
      rw [hstep] at hcommitted
      have hdrop := dropIndexed_eq (index.newEntries engine)
        ((engine.getChainOperations (index.offsetFrom engine)).map EngineOperation.operationId)
        { index with chainIndex := index' } hindex.pending
      rw [Action.bind_of_ok _ _ _ _ _ hstep] at heq
      rw [heq.trans hdrop]
      exact ⟨not_contentError_ok _, rfl, hcommitted.chain⟩
    · intro hnot
      rw [heq]
      have herror := hchain.stops fun htaken => hnot fun _ => htaken
      generalize onChainIndex (MutationIndex.applyOperations
        (chainOperations (index.newEntries engine))) = x at herror
      rcases Action.bind_cases x _ index with ⟨e, index', hfails, hbind⟩ | ⟨a, index', hok, -⟩
      · rw [hfails] at herror
        rw [hbind]
        exact contentError_of_error e herror
      · rw [hok] at herror
        exact absurd herror (not_contentError_ok a)
  · constructor
    · intro _
      rw [indexChainNewBlocks_of_not_proceeds overflowChecks engine index hproceeds]
      exact ⟨indexChainNewBlocks_not_contentError overflowChecks engine index hproceeds, hindex⟩
    · exact fun hnot => absurd (fun h => absurd h hproceeds) hnot

theorem stoppedUnless_reindexPending (hindex : index.chainIndex.written = index.chainIndex.committed) :
    StoppedUnless (AppliesPending MutationIndex.AllTaken engine index) (reindexPending engine)
      index := by
  have hstep := stoppedUnless_onPendingIndex { index with pendingIndex := .create }
    (reindexOperations engine index) ⟨rfl, hindex⟩
  exact (stoppedUnless_then hstep fun _ => ()).of_eq rfl Iff.rfl

theorem stoppedUnless_both (hindex : index.Committed) :
    StoppedUnless (AppliesBoth MutationIndex.AllTaken overflowChecks engine index)
      (indexChainNewBlocks overflowChecks engine >>= fun _ => reindexPending engine) index :=
  stoppedUnless_bind (stoppedUnless_indexChainNewBlocks overflowChecks engine index hindex)
    fun _ _ index' _ hcommitted => stoppedUnless_reindexPending engine index' hcommitted.chain

theorem stoppedUnless_applyBatch (batched : List OperationId) (hindex : index.Committed) :
    StoppedUnless (AppliesBatch MutationIndex.AllTaken engine batched index)
      (applyBatch engine batched) index := by
  by_cases hempty : batched = []
  · rw [applyBatch, if_pos hempty, hempty]
    exact ⟨fun _ => ⟨not_contentError_ok _, hindex⟩, fun hnot => absurd (by simp [AppliesBatch,
      MutationIndex.AllTaken, batchOperations]) hnot⟩
  · rw [applyBatch, if_neg hempty]
    exact stoppedUnless_onPendingIndex index (batchOperations engine batched) hindex

theorem stoppedUnless_handleEvent (event : EngineEvent)
    (hevent : ∀ id, event ≠ .newPendingOperation id) (hindex : index.Committed) :
    StoppedUnless (AppliesEvent MutationIndex.AllTaken overflowChecks engine index event)
      (handleEvent overflowChecks engine event) index := by
  cases event with
  | started =>
    exact stoppedUnless_bind (stoppedUnless_indexChainNewBlocks overflowChecks engine index hindex)
      fun _ affected index' _ hcommitted =>
        stoppedUnless_then (stoppedUnless_reindexPending engine index' hcommitted.chain)
          fun _ => (affected.1, 0)
  | streamDiscontinuity =>
    exact stoppedUnless_then (stoppedUnless_reindexPending engine index hindex.chain) fun _ => ([], 0)
  | newChainBlock offset =>
    exact stoppedUnless_indexChainNewBlocks overflowChecks engine index hindex
  | chainDiverged diverged =>
    have hcall := Action.get_bind (fun index : EntityIndex => (do
      match index.chainIndex.highestIndexedBlock with
      | some lastIndexed =>
        if lastIndexed < diverged then reindexPending engine
        else Action.lift (.error (.error (.divergedBefore diverged lastIndexed)))
      | none => reindexChain overflowChecks engine
      pure ([], 0) : Action EntityIndex StoreError (List OperationId × ℕ))) index
    cases hhighest : index.chainIndex.highestIndexedBlock with
    | some lastIndexed =>
      simp only [hhighest] at hcall
      simp only [AppliesEvent, hhighest]
      by_cases hlt : lastIndexed < diverged
      · rw [if_pos hlt] at hcall
        exact (stoppedUnless_then (stoppedUnless_reindexPending engine index hindex.chain)
          fun _ => ([], 0)).of_eq hcall (forall_prop_of_true hlt)
      · rw [if_neg hlt] at hcall
        refine ⟨fun _ => ?_, fun hnot => absurd (fun h => absurd h hlt) hnot⟩
        rw [show handleEvent overflowChecks engine (.chainDiverged diverged) index = _ from hcall]
        refine ⟨?_, hindex⟩
        rintro ⟨field, hfield⟩
        exact absurd (Except.error.inj hfield) (by simp)
    | none =>
      simp only [hhighest] at hcall
      simp only [AppliesEvent, hhighest]
      have hcleared : EntityIndex.Committed { index with chainIndex := .create } :=
        ⟨hindex.pending, rfl⟩
      exact (stoppedUnless_then (stoppedUnless_both overflowChecks engine _ hcleared)
        fun _ => ([], 0)).of_eq hcall Iff.rfl
  | newPendingOperation id => exact absurd rfl (hevent id)

theorem stoppedUnless_handleEvents (batched : List OperationId) (events : List EngineEvent)
    (hindex : index.Committed) :
    StoppedUnless (AppliesEvents MutationIndex.AllTaken overflowChecks engine batched events index)
      (handleEvents overflowChecks engine batched events) index := by
  induction events generalizing batched index with
  | nil =>
    exact stoppedUnless_then (stoppedUnless_applyBatch engine index batched hindex)
      fun count => ([], count)
  | cons event events ih =>
    by_cases hevent : ∃ id, event = .newPendingOperation id
    · -- the operation is only collected
      obtain ⟨id, rfl⟩ := hevent
      exact stoppedUnless_then (ih index (batched ++ [id]) hindex)
        fun result => (id :: result.1, result.2)
    · rw [not_exists] at hevent
      rw [AppliesEvents.eq_3 _ _ _ _ _ _ _ hevent, handleEvents.eq_3 _ _ _ _ _ hevent]
      apply stoppedUnless_bind (stoppedUnless_applyBatch engine index batched hindex)
      intro _ count index' _ hcommitted
      apply stoppedUnless_bind
        (stoppedUnless_handleEvent overflowChecks engine index' event hevent hcommitted)
      intro _ result index'' _ hcommitted'
      exact stoppedUnless_then (ih index'' [] hcommitted')
        fun result' => (result.1 ++ result'.1, count + result.2 + result'.2)

theorem stoppedUnless_maybeIndexChainBlocks (hindex : index.Committed) :
    StoppedUnless (AppliesChain MutationIndex.AllTaken overflowChecks engine index)
      (maybeIndexChainBlocks overflowChecks engine) index :=
  stoppedUnless_then (stoppedUnless_indexChainNewBlocks overflowChecks engine index hindex) Prod.fst

end Calls

section Found
variable {overflowChecks : Bool} {engine : EngineHandle} {index : EntityIndex}

/-- Where all operations are taken, those of the new blocks are found in the chain index. -/
theorem AppliesChain.indexes (hindex : index.Committed)
    (h : AppliesChain MutationIndex.AllTaken overflowChecks engine index) :
    AppliesChain MutationIndex.Indexes overflowChecks engine index := fun hproceeds =>
  MutationIndex.indexes_of_takes _ _ hindex.chain (h hproceeds)

theorem AppliesPending.indexes (h : AppliesPending MutationIndex.AllTaken engine index) :
    AppliesPending MutationIndex.Indexes engine index :=
  MutationIndex.indexes_of_takes _ _ rfl h

theorem AppliesBoth.indexes (hindex : index.Committed)
    (h : AppliesBoth MutationIndex.AllTaken overflowChecks engine index) :
    AppliesBoth MutationIndex.Indexes overflowChecks engine index :=
  ⟨h.1.indexes hindex, fun r index' hok => (h.2 r index' hok).indexes⟩

theorem AppliesEvent.indexes (event : EngineEvent) (hindex : index.Committed)
    (h : AppliesEvent MutationIndex.AllTaken overflowChecks engine index event) :
    AppliesEvent MutationIndex.Indexes overflowChecks engine index event := by
  cases event with
  | started => exact AppliesBoth.indexes hindex h
  | streamDiscontinuity => exact AppliesPending.indexes h
  | newChainBlock offset => exact AppliesChain.indexes hindex h
  | chainDiverged diverged =>
    cases hhighest : index.chainIndex.highestIndexedBlock with
    | some lastIndexed =>
      simp only [AppliesEvent, hhighest] at h ⊢
      exact fun hlt => AppliesPending.indexes (h hlt)
    | none =>
      simp only [AppliesEvent, hhighest] at h ⊢
      exact AppliesBoth.indexes ⟨hindex.pending, rfl⟩ h
  | newPendingOperation id => trivial

theorem AppliesEvents.indexes (batched : List OperationId) (events : List EngineEvent)
    (hindex : index.Committed)
    (h : AppliesEvents MutationIndex.AllTaken overflowChecks engine batched events index) :
    AppliesEvents MutationIndex.Indexes overflowChecks engine batched events index := by
  induction events generalizing batched index with
  | nil => exact MutationIndex.indexes_of_takes _ _ hindex.pending h
  | cons event events ih =>
    by_cases hevent : ∃ id, event = .newPendingOperation id
    · obtain ⟨id, rfl⟩ := hevent
      exact ih (batched ++ [id]) hindex h
    · rw [not_exists] at hevent
      rw [AppliesEvents.eq_3 _ _ _ _ _ _ _ hevent] at h ⊢
      obtain ⟨hbatch, hrest⟩ := h
      refine ⟨MutationIndex.indexes_of_takes _ _ hindex.pending hbatch, ?_⟩
      intro count index' hok
      obtain ⟨htaken, hnext⟩ := hrest count index' hok
      -- what is taken leaves the writers committed for what follows
      have hcommitted := ((stoppedUnless_applyBatch engine index batched hindex).goes hbatch).2
      rw [hok] at hcommitted
      refine ⟨htaken.indexes event hcommitted, ?_⟩
      intro r index'' hok'
      have hcommitted' := ((stoppedUnless_handleEvent overflowChecks engine index' event hevent
        hcommitted).goes htaken).2
      rw [hok'] at hcommitted'
      exact ih [] hcommitted' (hnext r index'' hok')

end Found

/-- An index that opens holds what was written to it. -/
theorem openOrCreate_committed (overflowChecks : Bool) (config : EntityIndexConfig)
    (stored : List MutationMetadata) (engine : EngineHandle) (index : EntityIndex)
    (h : openOrCreate overflowChecks config stored engine = (.ok (), index)) :
    index.Committed := by
  let docs := if config.chainIndexInMemory then [] else stored
  let opening : EntityIndex := ⟨config, .create, ⟨docs, docs⟩, none⟩
  have hcall : openOrCreate overflowChecks config stored engine = ((do
      let index ← Action.get
      if index.chainIndex.highestIndexedBlock.isNone && engine.getChainLastBlockInfo.isSome then
        reindexChain overflowChecks engine
      reindexPending engine : Action EntityIndex StoreError Unit) opening) := rfl
  rw [hcall, Action.get_bind] at h
  -- a call that ends well was not stopped, so that it leaves everything committed
  have hends : ∀ condition (x : Action EntityIndex StoreError Unit),
      StoppedUnless condition x opening → x opening = (.ok (), index) → index.Committed := by
    intro condition x hstopped hok
    have hcondition := hstopped.iff.mp (by rw [hok]; exact not_contentError_ok _)
    have hcommitted := (hstopped.goes hcondition).2
    rw [hok] at hcommitted
    exact hcommitted
  split_ifs at h with hempty
  · have hchain : StoppedUnless (AppliesBoth MutationIndex.AllTaken overflowChecks engine
        { opening with chainIndex := .create }) (reindexChain overflowChecks engine) opening :=
      (stoppedUnless_both overflowChecks engine { opening with chainIndex := .create }
        ⟨rfl, rfl⟩).of_eq rfl Iff.rfl
    exact hends _ _ (stoppedUnless_bind hchain fun _ _ index' _ hcommitted =>
      stoppedUnless_reindexPending engine index' hcommitted.chain) h
  · exact hends _ _ (stoppedUnless_reindexPending engine opening rfl) h

end EntityIndex

structure MutationRequest where
  mutations : List EntityMutation
  commonEntityId : Bool
  waitIndexed : Bool
  returnEntities : Bool

/-- What a request is handled with: the generator of ids, and the engine that operations are
written to. -/
structure RequestHandle (H : Type) where
  generatePrefixedId : String → Action H StoreError String
  writeEntryOperation : EntityMutation → Action H StoreError OperationId

namespace RequestHandle

variable {H : Type} (handle : RequestHandle H)

/-- A mutation without an entity gets the one before it, where the request has them in common. -/
def withEntityId (commonEntityId : Bool) (lastEntityId : Option String)
    (mutation : EntityMutation) : Action H StoreError EntityMutation :=
  if mutation.entityId ≠ "" then pure mutation
  else match commonEntityId, lastEntityId with
    | true, some last => pure { mutation with entityId := last }
    | _, _ => do
      let entityId ← handle.generatePrefixedId "et"
      pure { mutation with entityId := entityId }

def withTraitId (mutation : EntityMutation) : Action H StoreError EntityMutation :=
  match mutation.mutation with
  | some (.putTrait (some trt)) =>
    if trt.id ≠ "" then pure mutation
    else do
      let traitId ← handle.generatePrefixedId "trt"
      pure { mutation with mutation := some (.putTrait (some { trt with id := traitId })) }
  | _ => pure mutation

def writeMutations (commonEntityId : Bool) :
    Option String → List EntityMutation → Action H StoreError (List OperationId)
  | _, [] => pure []
  | lastEntityId, mutation :: rest =>
    if mutation.mutation = some .test then
      Action.lift (.error (.error (.protoFieldExpected "mutation")))
    else do
      let mutation ← handle.withEntityId commonEntityId lastEntityId mutation
      let mutation ← handle.withTraitId mutation
      let operationId ← handle.writeEntryOperation mutation
      let operationIds ← writeMutations commonEntityId (some mutation.entityId) rest
      pure (operationId :: operationIds)

/-- The operations that were written, and whether the tracker waits for them to be indexed. -/
def handleMutationRequest (request : MutationRequest) :
    Action H StoreError (List OperationId × Bool) := do
  let operationIds ← handle.writeMutations request.commonEntityId none request.mutations
  pure (operationIds,
    (request.waitIndexed || request.returnEntities) && !request.mutations.isEmpty)

/-- The calls of the handle end well. -/
structure Works : Prop where
  generates : ∀ text s, ∃ id s', handle.generatePrefixedId text s = (.ok id, s')
  writes : ∀ mutation s, ∃ id s', handle.writeEntryOperation mutation s = (.ok id, s')

theorem withEntityId_works (h : handle.Works) (commonEntityId : Bool)
    (lastEntityId : Option String) (mutation : EntityMutation) (s : H) :
    ∃ mutation' s', handle.withEntityId commonEntityId lastEntityId mutation s =
      (.ok mutation', s') := by
  obtain ⟨id, s', hid⟩ := h.generates "et" s
  unfold withEntityId
  by_cases hempty : mutation.entityId ≠ ""
  · exact ⟨_, s, by rw [if_pos hempty]; rfl⟩
  · rw [if_neg hempty]
    cases commonEntityId <;> cases lastEntityId
    · exact ⟨_, _, Action.bind_of_ok _ _ _ _ _ hid⟩
    · exact ⟨_, _, Action.bind_of_ok _ _ _ _ _ hid⟩
    · exact ⟨_, _, Action.bind_of_ok _ _ _ _ _ hid⟩
    · exact ⟨_, s, rfl⟩

theorem withTraitId_works (h : handle.Works) (mutation : EntityMutation) (s : H) :
    ∃ mutation' s', handle.withTraitId mutation s = (.ok mutation', s') := by
  obtain ⟨id, s', hid⟩ := h.generates "trt" s
  obtain ⟨entityId, mutation⟩ := mutation
  rcases mutation with _ | ((_ | trt) | traitId | _ | ids | _)
  · exact ⟨_, s, rfl⟩
  · exact ⟨_, s, rfl⟩
  · simp only [withTraitId]
    split_ifs
    · exact ⟨_, s, rfl⟩
    · exact ⟨_, _, Action.bind_of_ok _ _ _ _ _ hid⟩
  all_goals exact ⟨_, s, rfl⟩

/-- Mutations are accepted whatever is in their traits: only test mutations are refused. -/
theorem handleMutationRequest_accepts (h : handle.Works) (request : MutationRequest)
    (hmutations : ∀ mutation ∈ request.mutations, mutation.mutation ≠ some .test) (s : H) :
    ∃ r s', handle.handleMutationRequest request s = (.ok r, s') := by
  have hwrites : ∀ (mutations : List EntityMutation) (last : Option String) (s : H),
      (∀ mutation ∈ mutations, mutation.mutation ≠ some .test) →
      ∃ ids s', handle.writeMutations request.commonEntityId last mutations s = (.ok ids, s') := by
    intro mutations
    induction mutations with
    | nil => exact fun _ s _ => ⟨_, s, rfl⟩
    | cons mutation rest ih =>
      intro last s hall
      rw [writeMutations, if_neg (hall mutation List.mem_cons_self)]
      obtain ⟨m1, s1, h1⟩ := handle.withEntityId_works h request.commonEntityId last mutation s
      obtain ⟨m2, s2, h2⟩ := handle.withTraitId_works h m1 s1
      obtain ⟨id, s3, h3⟩ := h.writes m2 s2
      obtain ⟨ids, s4, h4⟩ := ih (some m2.entityId) s3
        fun m hm => hall m (List.mem_cons_of_mem _ hm)
      rw [Action.bind_of_ok _ _ _ _ _ h1, Action.bind_of_ok _ _ _ _ _ h2,
        Action.bind_of_ok _ _ _ _ _ h3, Action.bind_of_ok _ _ _ _ _ h4]
      exact ⟨_, s4, rfl⟩
  obtain ⟨ids, s', hids⟩ := hwrites request.mutations none s hmutations
  exact ⟨_, s', Action.bind_of_ok _ _ _ _ _ hids⟩

end RequestHandle

/-- A call of the entity index, with what its handle reads of the engine at that time. -/
inductive IndexCall where
  | events (overflowChecks : Bool) (engine : EngineHandle) (received : List EngineEvent)
  | maybeIndex (overflowChecks : Bool) (engine : EngineHandle)

namespace IndexCall

def step (index : EntityIndex) : IndexCall → EntityIndex
  | .events overflowChecks engine received =>
    (EntityIndex.handleChainEngineEvents overflowChecks engine received index).2
  | .maybeIndex overflowChecks engine =>
    (EntityIndex.maybeIndexChainBlocks overflowChecks engine index).2

/-- The call does not fail because of what an operation holds, and each group of operations that
it goes through is found in its index. -/
def IndexesAll (index : EntityIndex) : IndexCall → Prop
  | .events overflowChecks engine received =>
    ¬ ContentError (EntityIndex.handleChainEngineEvents overflowChecks engine received index).1 ∧
      EntityIndex.AppliesEvents MutationIndex.Indexes overflowChecks engine [] received index
  | .maybeIndex overflowChecks engine =>
    ¬ ContentError (EntityIndex.maybeIndexChainBlocks overflowChecks engine index).1 ∧
      EntityIndex.AppliesChain MutationIndex.Indexes overflowChecks engine index

/-- None of the operations that the call goes through puts a trait without a message. -/
def TakesAll (index : EntityIndex) : IndexCall → Prop
  | .events overflowChecks engine received =>
    EntityIndex.AppliesEvents MutationIndex.AllTaken overflowChecks engine [] received index
  | .maybeIndex overflowChecks engine =>
    EntityIndex.AppliesChain MutationIndex.AllTaken overflowChecks engine index

theorem indexesAll_iff (index : EntityIndex) (call : IndexCall) (hindex : index.Committed) :
    IndexesAll index call ↔ TakesAll index call := by
  cases call with
  | events overflowChecks engine received =>
    have hstopped := EntityIndex.stoppedUnless_handleEvents overflowChecks engine index [] received
      hindex
    constructor
    · exact fun h => hstopped.iff.mp h.1
    · exact fun h => ⟨hstopped.iff.mpr h, h.indexes [] received hindex⟩
  | maybeIndex overflowChecks engine =>
    have hstopped := EntityIndex.stoppedUnless_maybeIndexChainBlocks overflowChecks engine index
      hindex
    constructor
    · exact fun h => hstopped.iff.mp h.1
    · exact fun h => ⟨hstopped.iff.mpr h, h.indexes hindex⟩

theorem step_committed (index : EntityIndex) (call : IndexCall) (hindex : index.Committed)
    (h : TakesAll index call) : (step index call).Committed := by
  cases call with
  | events overflowChecks engine received =>
    exact ((EntityIndex.stoppedUnless_handleEvents overflowChecks engine index [] received
      hindex).goes h).2
  | maybeIndex overflowChecks engine =>
    exact ((EntityIndex.stoppedUnless_maybeIndexChainBlocks overflowChecks engine index
      hindex).goes h).2

end IndexCall

/-- The calls on an index that was opened are not stopped by what an operation holds, and make all
others visible, if and only if no operation that they go through puts a trait without a message. -/
theorem calls_indexAll_iff (overflowChecks : Bool) (config : EntityIndexConfig)
    (stored : List MutationMetadata) (engine : EngineHandle) (index : EntityIndex)
    (hopen : EntityIndex.openOrCreate overflowChecks config stored engine = (.ok (), index))
    (calls : List IndexCall) :
    Run.Allowed IndexCall.step IndexCall.IndexesAll index calls ↔
      Run.Allowed IndexCall.step IndexCall.TakesAll index calls := by
  apply Run.allowed_congr IndexCall.step _ _ EntityIndex.Committed
  · exact fun index call hindex => IndexCall.indexesAll_iff index call hindex
  · intro index call hindex h
    exact IndexCall.step_committed index call hindex ((IndexCall.indexesAll_iff index call hindex).mp h)
  · exact EntityIndex.openOrCreate_committed overflowChecks config stored engine index hopen

section Samples

/-- A put of a trait that has no message. -/
def emptyPut : EntityMutation := ⟨"entity", some (.putTrait (some ⟨"trait", none, none, none⟩))⟩

/-- The pending store takes the operations, with the next ids. -/
def pendingHandle : RequestHandle (List EngineOperation) where
  generatePrefixedId text := fun s => (.ok text, s)
  writeEntryOperation mutation := fun s =>
    let operationId := Fin.ofNat _ (s.length + 1)
    (.ok operationId, s ++ [⟨operationId, .pending, some mutation⟩])

theorem pendingHandle_works : pendingHandle.Works :=
  ⟨fun text s => ⟨text, s, rfl⟩, fun _ _ => ⟨_, _, rfl⟩⟩

/-- The pending store after a request with the empty put and a well-formed one. -/
def emptyPutEngine : EngineHandle :=
  ⟨[genesisBlock], (pendingHandle.handleMutationRequest
    ⟨[emptyPut, samplePut], false, false, false⟩ []).2⟩

def openedIndex : EntityIndex :=
  (EntityIndex.openOrCreate true sampleConfig [] ⟨[genesisBlock], []⟩).2

/-- The request is accepted, and then neither the events of its operations nor a new start of the
pending index make the well-formed one visible. -/
theorem emptyPut_not_indexesAll :
    (pendingHandle.handleMutationRequest ⟨[emptyPut, samplePut], false, false, false⟩ []).1 =
        .ok ([1, 2], false) ∧
      (let batch := IndexCall.events true emptyPutEngine
        [.newPendingOperation 1, .newPendingOperation 2]
      ¬ IndexCall.IndexesAll openedIndex batch ∧
        (IndexCall.step openedIndex batch).visible = []) ∧
      (let restart := IndexCall.events true emptyPutEngine [.streamDiscontinuity]
      ¬ IndexCall.IndexesAll openedIndex restart ∧
        (IndexCall.step openedIndex restart).visible = []) := by
  refine ⟨by decide +kernel, ⟨?_, by decide +kernel⟩, ?_, by decide +kernel⟩
  · intro h
    exact h.1 ⟨"Trait message", by decide +kernel⟩
  · intro h
    exact h.1 ⟨"Trait message", by decide +kernel⟩

/-- An operation without a mutation, a put without a trait, and a well-formed put. -/
def mixedEngine : EngineHandle :=
  ⟨[genesisBlock], [⟨1, .pending, none⟩, ⟨2, .pending, some ⟨"entity", some (.putTrait none)⟩⟩,
    ⟨3, .pending, some samplePut⟩]⟩

theorem mixedEngine_indexesAll :
    Run.Allowed IndexCall.step IndexCall.IndexesAll openedIndex [.events true mixedEngine
        [.newPendingOperation 1, .newPendingOperation 2, .newPendingOperation 3]] ∧
      (IndexCall.step openedIndex (.events true mixedEngine
        [.newPendingOperation 1, .newPendingOperation 2, .newPendingOperation 3])).visible = [3] := by
  refine ⟨(calls_indexAll_iff true sampleConfig [] ⟨[genesisBlock], []⟩ openedIndex
    (Prod.ext (by decide +kernel) rfl) _).mpr ⟨?_, trivial⟩, by decide +kernel⟩
  intro op hop
  have hops : EntityIndex.batchOperations mixedEngine [1, 2, 3] =
      [.putTrait none 3 "entity" ⟨"trait", some ⟨"message", false⟩, none, none⟩] := by
    decide +kernel
  rw [show op = _ from List.mem_singleton.mp (hops ▸ hop)]
  exact Or.inl rfl

end Samples

end Exocore.Store
