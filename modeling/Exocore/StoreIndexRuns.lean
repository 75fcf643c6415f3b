import Exocore.StoreIndexOnce

/-! Runs of an entity index while the chain grows. -/
namespace Exocore.Store

open Exocore.Core

/-- None of the operations that would be indexed in the pending index is in the chain index. -/
def EntityIndex.Unindexed (index : EntityIndex) (ops : List EngineOperation) : Prop :=
  ∀ op ∈ ops, IndexOperation.fromPendingEngineOperation op ≠ [] →
    ∀ doc ∈ index.chainIndex.committed, doc.operationId ≠ op.operationId

/-- The new blocks are taken, and not indexed behind the note of the last block. -/
structure EntityIndex.MeetsBlocks (overflowChecks : Bool) (engine : EngineHandle)
    (index : EntityIndex) : Prop where
  taken : index.BlocksTaken overflowChecks engine
  note : Proceeds overflowChecks engine index → ¬ InStep.SkipsNote engine index

structure EntityIndex.MeetsReindex (engine : EngineHandle) (index : EntityIndex) : Prop where
  taken : index.ReindexTaken engine
  unindexed : index.Unindexed (unindexedOperations engine ((index.offsetFrom engine).getD 0))

instance (index : EntityIndex) (ops : List EngineOperation) : Decidable (index.Unindexed ops) :=
  inferInstanceAs (Decidable (∀ op ∈ ops, IndexOperation.fromPendingEngineOperation op ≠ [] →
    ∀ doc ∈ index.chainIndex.committed, doc.operationId ≠ op.operationId))

structure EntityIndex.MeetsBatch (engine : EngineHandle) (batched : List OperationId)
    (index : EntityIndex) : Prop where
  taken : EntityIndex.BatchTaken engine batched
  unindexed : index.Unindexed (batched.filterMap engine.getPendingOperation)

namespace InStep

variable {engine : EngineHandle} {index : EntityIndex} (overflowChecks : Bool)

theorem indexChainNewBlocks (h : InStep engine index)
    (hmeets : index.MeetsBlocks overflowChecks engine) :
    InStep engine (EntityIndex.indexChainNewBlocks overflowChecks engine index).2 := by
  by_cases hproceeds : EntityIndex.Proceeds overflowChecks engine index
  · rw [EntityIndex.indexChainNewBlocks_eq overflowChecks engine h.deletions index h.committed
      hproceeds (hmeets.taken hproceeds)]
    exact h.indexedState_inStep (hmeets.note hproceeds)
  · rw [EntityIndex.indexChainNewBlocks_of_not_proceeds overflowChecks engine index hproceeds]
    exact h

/-- The chain index alone decides, with the note, what the pending index may hold. -/
theorem withPending (h : InStep engine index) (docs : List MutationMetadata)
    (hapart : ∀ doc ∈ index.chainIndex.committed, ∀ doc' ∈ docs,
      doc.operationId ≠ doc'.operationId) :
    InStep engine { index with pendingIndex := ⟨docs, docs⟩ } :=
  ⟨h.linked, h.deletions, ⟨rfl, h.committed.chain⟩, h.noted, h.documents, hapart⟩

theorem reindexPending (h : InStep engine index) (hmeets : index.MeetsReindex engine) :
    InStep engine (EntityIndex.reindexPending engine index).2 := by
  rw [EntityIndex.reindexPending_eq engine index hmeets.taken]
  apply h.withPending
  intro doc hdoc doc' hdoc'
  obtain ⟨op, hop, hne, hid⟩ := EntityIndex.mem_pendingDocuments _ doc' hdoc'
  rw [hid]
  exact hmeets.unindexed op hop hne doc hdoc

theorem applyBatch (h : InStep engine index) (batched : List OperationId)
    (hmeets : index.MeetsBatch engine batched) :
    InStep engine (EntityIndex.applyBatch engine batched index).2 := by
  rw [EntityIndex.applyBatch]
  split_ifs with hempty
  · exact h
  rw [EntityIndex.handleChainPendingOperations_eq engine batched hmeets.taken index
    h.committed.pending]
  apply h.withPending
  intro doc hdoc doc' hdoc'
  rcases List.mem_append.mp hdoc' with hold | hadded
  · exact h.apart doc hdoc doc' hold
  · rw [EntityIndex.batchOperations_eq] at hadded
    obtain ⟨op, hop, hne, hid⟩ := EntityIndex.mem_pendingDocuments _ doc' hadded
    rw [hid]
    exact hmeets.unindexed op hop hne doc hdoc

end InStep

namespace EntityIndex

/-- What one event must meet in the state it is handled in. -/
def MeetsEvent (overflowChecks : Bool) (engine : EngineHandle) (index : EntityIndex) :
    EngineEvent → Prop
  | .started => index.MeetsBlocks overflowChecks engine ∧
      (indexChainNewBlocks overflowChecks engine index).2.MeetsReindex engine
  | .streamDiscontinuity => index.MeetsReindex engine
  | .newChainBlock _ => index.MeetsBlocks overflowChecks engine
  | .chainDiverged _ => False
  | .newPendingOperation _ => True

/-- What the events must meet, each in the state that those before it leave. -/
def MeetsEvents (overflowChecks : Bool) (engine : EngineHandle) :
    List OperationId → List EngineEvent → EntityIndex → Prop
  | batched, [], index => index.MeetsBatch engine batched
  | batched, .newPendingOperation id :: events, index =>
    MeetsEvents overflowChecks engine (batched ++ [id]) events index
  | batched, event :: events, index => index.MeetsBatch engine batched ∧
    MeetsEvent overflowChecks engine (applyBatch engine batched index).2 event ∧
    MeetsEvents overflowChecks engine [] events
      (handleEvent overflowChecks engine event (applyBatch engine batched index).2).2

end EntityIndex

namespace InStep

variable {engine : EngineHandle} {index : EntityIndex} (overflowChecks : Bool)

theorem handleEvent (h : InStep engine index) (event : EngineEvent)
    (hmeets : index.MeetsEvent overflowChecks engine event) :
    InStep engine (EntityIndex.handleEvent overflowChecks engine event index).2 := by
  cases event with
  | started =>
    have hindexed := h.indexChainNewBlocks overflowChecks hmeets.1
    have hreindexed := hindexed.reindexPending hmeets.2
    exact Action.bind_keeps_snd (InStep engine) _ _ index hindexed fun _ =>
      Action.bind_keeps_snd (InStep engine) _ _ _ hreindexed fun _ => hreindexed
  | streamDiscontinuity =>
    have hreindexed := h.reindexPending hmeets
    exact Action.bind_keeps_snd (InStep engine) _ _ index hreindexed fun _ => hreindexed
  | newChainBlock _ => exact h.indexChainNewBlocks overflowChecks hmeets
  | chainDiverged _ => exact hmeets.elim
  | newPendingOperation _ => exact h

theorem handleEvents (h : InStep engine index) (batched : List OperationId)
    (events : List EngineEvent) (hmeets : index.MeetsEvents overflowChecks engine batched events) :
    InStep engine (EntityIndex.handleEvents overflowChecks engine batched events index).2 := by
  induction events generalizing batched index with
  | nil =>
    have hbatch := h.applyBatch batched hmeets
    exact Action.bind_keeps_snd (InStep engine) _ _ index hbatch fun _ => hbatch
  | cons event events ih =>
    by_cases hevent : ∃ id, event = .newPendingOperation id
    · -- the operation is only collected
      obtain ⟨id, rfl⟩ := hevent
      have hrest := ih h (batched ++ [id]) hmeets
      exact Action.bind_keeps_snd (InStep engine) _ _ index hrest fun _ => hrest
    · rw [not_exists] at hevent
      rw [EntityIndex.MeetsEvents] at hmeets
      · obtain ⟨hbatch, hmeetsEvent, hmeetsRest⟩ := hmeets
        have hbatch := h.applyBatch batched hbatch
        have hhandled := hbatch.handleEvent overflowChecks event hmeetsEvent
        have hrest := ih hhandled [] hmeetsRest
        rw [EntityIndex.handleEvents]
        · refine Action.bind_keeps_snd (InStep engine) _ _ index hbatch fun _ => ?_
          refine Action.bind_keeps_snd (InStep engine) _ _ _ hhandled fun _ => ?_
          exact Action.bind_keeps_snd (InStep engine) _ _ _ hrest fun _ => hrest
        · exact hevent
      · exact hevent

/-- An index that nothing was indexed in. -/
theorem created (config : EntityIndexConfig) (hlinked : engine.Linked)
    (hdeletions : engine.NoDeletions) : InStep engine ⟨config, .create, .create, none⟩ := by
  have hnoted : EntityIndex.lastNoted ⟨config, .create, .create, none⟩ = none := rfl
  refine ⟨hlinked, hdeletions, ⟨rfl, rfl⟩, ?_, ?_, by simp [MutationIndex.create]⟩
  · intro offset hoffset
    rw [hnoted] at hoffset
    contradiction
  · rw [EntityIndex.indexedOffset, hnoted, Option.getD_none, EngineHandle.documentsUpTo_zero]
    exact List.Perm.refl _

end InStep

/-- The chain goes on from another one, and still no mutation deletes operations. -/
structure EngineHandle.Grows (engine engine' : EngineHandle) : Prop where
  linked : engine'.Linked
  extended : engine.blocks <+: engine'.blocks
  deletions : engine'.NoDeletions

theorem EngineHandle.Linked.height_le_lastHeight {engine : EngineHandle} (h : engine.Linked)
    (block : ChainBlock) (hblock : block ∈ engine.blocks) :
    block.height ≤ engine.lastHeight := by
  have hne : engine.blocks ≠ [] := List.ne_nil_of_mem hblock
  have hlast : engine.lastHeight = (engine.blocks.getLast hne).height := by
    rw [EngineHandle.lastHeight, EngineHandle.getChainLastBlockInfo,
      List.getLast?_eq_some_getLast hne]
    rfl
  have hsplit : engine.blocks = engine.blocks.dropLast ++ [engine.blocks.getLast hne] :=
    (List.dropLast_append_getLast hne).symm
  rw [hlast]
  rw [hsplit, List.mem_append, List.mem_singleton] at hblock
  rcases hblock with hblock | rfl
  · exact ((h.before_after _ [] _ hsplit).1 block hblock).2.le
  · exact le_rfl

theorem EngineHandle.Grows.lastHeight_le {engine engine' : EngineHandle}
    (h : engine.Grows engine') (hne : engine.blocks ≠ []) :
    engine.lastHeight ≤ engine'.lastHeight := by
  have hlast : engine.lastHeight = (engine.blocks.getLast hne).height := by
    rw [EngineHandle.lastHeight, EngineHandle.getChainLastBlockInfo,
      List.getLast?_eq_some_getLast hne]
    rfl
  rw [hlast]
  exact h.linked.height_le_lastHeight _ (h.extended.mem (List.getLast_mem hne))

theorem InStep.grows {engine engine' : EngineHandle} {index : EntityIndex}
    (h : InStep engine index) (hgrows : engine.Grows engine') : InStep engine' index where
  linked := hgrows.linked
  deletions := hgrows.deletions
  committed := h.committed
  noted := by
    intro offset hoffset
    obtain ⟨hpos, block, hblock, hblockOffset, hdeep⟩ := h.noted offset hoffset
    refine ⟨hpos, block, hgrows.extended.mem hblock, hblockOffset, ?_⟩
    exact hdeep.trans (Nat.sub_le_sub_right
      (hgrows.lastHeight_le (List.ne_nil_of_mem hblock)) _)
  documents := by
    have hdocuments := h.documents
    rw [EntityIndex.indexedOffset] at hdocuments ⊢
    cases hnoted : index.lastNoted with
    | none =>
      rw [hnoted] at hdocuments
      simpa using hdocuments
    | some offset =>
      obtain ⟨_, block, hblock, rfl, _⟩ := h.noted offset hnoted
      obtain ⟨pre, rest, hsplit⟩ := List.append_of_mem hblock
      obtain ⟨more, hmore⟩ := hgrows.extended
      have hsplit' : engine'.blocks = pre ++ block :: (rest ++ more) := by
        rw [← hmore, hsplit, List.append_assoc, List.cons_append]
      rw [hnoted, Option.getD_some, h.linked.documentsUpTo_eq pre rest block hsplit] at hdocuments
      rw [Option.getD_some, hgrows.linked.documentsUpTo_eq pre _ block hsplit']
      exact hdocuments
  apart := h.apart

/-- An entity index with what its handle reads of the engine. -/
structure IndexWorld where
  engine : EngineHandle
  index : EntityIndex

/-- The engine changes, events are handled, blocks are indexed at an interval, and the index is
opened again over the chain index that is stored. -/
inductive IndexStep where
  | engine (engine : EngineHandle)
  | events (events : List EngineEvent)
  | maybeIndex
  | opened

namespace IndexWorld

def create (config : EntityIndexConfig) (engine : EngineHandle) : IndexWorld :=
  ⟨engine, config, .create, .create, none⟩

def step (overflowChecks : Bool) (w : IndexWorld) : IndexStep → IndexWorld
  | .engine engine => ⟨engine, w.index⟩
  | .events events =>
    ⟨w.engine, (EntityIndex.handleChainEngineEvents overflowChecks w.engine events w.index).2⟩
  | .maybeIndex =>
    ⟨w.engine, (EntityIndex.maybeIndexChainBlocks overflowChecks w.engine w.index).2⟩
  | .opened => ⟨w.engine, (EntityIndex.openOrCreate overflowChecks w.index.config
      w.index.chainIndex.committed w.engine).2⟩

/-- The index as it is opened, with its chain index. -/
def stored (w : IndexWorld) : EntityIndex :=
  let docs := if w.index.config.chainIndexInMemory then [] else w.index.chainIndex.committed
  ⟨w.index.config, .create, ⟨docs, docs⟩, none⟩

/-- The index before its pending store is indexed, when it is opened. -/
def restored (overflowChecks : Bool) (w : IndexWorld) : EntityIndex :=
  if w.stored.chainIndex.highestIndexedBlock.isNone && w.engine.getChainLastBlockInfo.isSome then
    (EntityIndex.indexChainNewBlocks overflowChecks w.engine w.stored).2
  else w.stored

/-- The blocks that are indexed when the index is opened are taken. -/
def RestoresBlocks (overflowChecks : Bool) (w : IndexWorld) : Prop :=
  w.stored.chainIndex.highestIndexedBlock = none →
    w.stored.BlocksTaken overflowChecks w.engine

/-- The steps of the runs: the chain grows, no mutation deletes operations, and no divergence is
announced. -/
def Taken (w : IndexWorld) : IndexStep → Prop
  | .engine engine => w.engine.Grows engine
  | .events events => ∀ offset, .chainDiverged offset ∉ events
  | .maybeIndex => True
  | .opened => True

/-- What the steps must meet besides. -/
def Meets (overflowChecks : Bool) (w : IndexWorld) : IndexStep → Prop
  | .engine _ => True
  | .events events => w.index.MeetsEvents overflowChecks w.engine [] events
  | .maybeIndex => w.index.MeetsBlocks overflowChecks w.engine
  | .opened => w.RestoresBlocks overflowChecks ∧
      (w.restored overflowChecks).MeetsReindex w.engine

theorem stored_inStep (w : IndexWorld) (h : InStep w.engine w.index) :
    InStep w.engine w.stored := by
  rw [stored]
  split_ifs
  · exact InStep.created w.index.config h.linked h.deletions
  · exact h.reopened

theorem restored_inStep (overflowChecks : Bool) (w : IndexWorld) (h : InStep w.engine w.index)
    (htaken : w.RestoresBlocks overflowChecks) : InStep w.engine (w.restored overflowChecks) := by
  have hstored := w.stored_inStep h
  rw [restored]
  split_ifs with hcond
  · have hnone := Option.isNone_iff_eq_none.mp (Bool.and_eq_true_iff.mp hcond).1
    exact hstored.indexChainNewBlocks overflowChecks
      ⟨htaken hnone, fun _ hskips => hskips.noted rfl⟩
  · exact hstored

theorem opened_inStep (overflowChecks : Bool) (w : IndexWorld) (h : InStep w.engine w.index)
    (htaken : w.RestoresBlocks overflowChecks)
    (hmeets : (w.restored overflowChecks).MeetsReindex w.engine) :
    InStep w.engine (w.step overflowChecks .opened).index := by
  have hreindexed := (w.restored_inStep overflowChecks h htaken).reindexPending hmeets
  have hopen : (w.step overflowChecks .opened).index = ((do
      let index ← Action.get
      if index.chainIndex.highestIndexedBlock.isNone &&
          w.engine.getChainLastBlockInfo.isSome then
        EntityIndex.reindexChain overflowChecks w.engine
      EntityIndex.reindexPending w.engine : Action EntityIndex StoreError Unit) w.stored).2 := rfl
  rw [hopen, Action.get_bind]
  by_cases hcond : w.stored.chainIndex.highestIndexedBlock.isNone &&
      w.engine.getChainLastBlockInfo.isSome
  · have hrestored : w.restored overflowChecks =
        (EntityIndex.indexChainNewBlocks overflowChecks w.engine w.stored).2 := if_pos hcond
    rw [hrestored] at hmeets hreindexed
    have hnone := Option.isNone_iff_eq_none.mp (Bool.and_eq_true_iff.mp hcond).1
    have hmeets' : (EntityIndex.reindexPending w.engine
        (EntityIndex.indexChainNewBlocks overflowChecks w.engine w.stored).2).2.MeetsReindex
          w.engine := by
      rw [EntityIndex.reindexPending_eq w.engine _ hmeets.taken]
      exact ⟨hmeets.taken, hmeets.unindexed⟩
    have hchain : InStep w.engine (EntityIndex.reindexChain overflowChecks w.engine w.stored).2 ∧
        (EntityIndex.reindexChain overflowChecks w.engine w.stored).2.MeetsReindex w.engine := by
      have hindexed := w.restored_inStep overflowChecks h htaken
      rw [hrestored] at hindexed
      rw [EntityIndex.reindexChain_eq overflowChecks w.engine w.stored ⟨rfl, rfl⟩ hnone]
      exact Action.bind_keeps_snd
        (fun index => InStep w.engine index ∧ index.MeetsReindex w.engine) _ _ _
        ⟨hindexed, hmeets⟩ fun _ => ⟨hreindexed, hmeets'⟩
    rw [if_pos hcond]
    exact Action.bind_keeps_snd (InStep w.engine) _ _ _ hchain.1 fun _ =>
      hchain.1.reindexPending hchain.2
  · have hrestored : w.restored overflowChecks = w.stored := if_neg hcond
    rw [hrestored] at hreindexed
    rw [if_neg hcond]
    exact hreindexed

theorem step_inStep (overflowChecks : Bool) (w : IndexWorld) (a : IndexStep)
    (h : InStep w.engine w.index) (htaken : w.Taken a) (hmeets : w.Meets overflowChecks a) :
    InStep (w.step overflowChecks a).engine (w.step overflowChecks a).index := by
  cases a with
  | engine engine => exact h.grows htaken
  | events events => exact h.handleEvents overflowChecks [] events hmeets
  | maybeIndex =>
    have hindexed := h.indexChainNewBlocks overflowChecks hmeets
    exact Action.bind_keeps_snd (InStep w.engine) _ _ w.index hindexed fun _ => hindexed
  | opened => exact w.opened_inStep overflowChecks h hmeets.1 hmeets.2

end IndexWorld

/-- In every run whose steps meet the conditions, the operations are indexed once. -/
theorem runs_indexedOnce (overflowChecks : Bool) (config : EntityIndexConfig)
    (engine : EngineHandle) (hlinked : engine.Linked) (hdeletions : engine.NoDeletions)
    (steps : List IndexStep)
    (h : Run.Allowed (IndexWorld.step overflowChecks)
      (fun w a => w.Taken a ∧ w.Meets overflowChecks a) (.create config engine) steps) :
    IndexedOnce (Run.exec (IndexWorld.step overflowChecks) (.create config engine) steps).engine
      (Run.exec (IndexWorld.step overflowChecks) (.create config engine) steps).index := by
  have hinv := Run.exec_invariant (IndexWorld.step overflowChecks)
    (fun w a => w.Taken a ∧ w.Meets overflowChecks a)
    (fun w => InStep w.engine w.index)
    (fun w a hw ha => w.step_inStep overflowChecks a hw ha.1 ha.2) (.create config engine) steps
    (InStep.created config hlinked hdeletions) h
  exact hinv.indexedOnce

section Samples

def samplePut : EntityMutation :=
  ⟨"entity", some (.putTrait (some ⟨"trait", some ⟨"message", false⟩, none, none⟩))⟩

def genesisBlock : ChainBlock := ⟨0, 10, 0, []⟩
def firstBlock : ChainBlock := ⟨10, 20, 1, [(1, some samplePut)]⟩
def secondBlock : ChainBlock := ⟨20, 30, 2, [(2, some samplePut)]⟩

/-- The first operation in the pending store, then in the first block. -/
def pendingEngine : EngineHandle := ⟨[genesisBlock], [⟨1, .pending, some samplePut⟩]⟩
def firstEngine : EngineHandle :=
  ⟨[genesisBlock, firstBlock], [⟨1, .committed 10 1, some samplePut⟩]⟩

/-- The second block is downloaded with its operation. -/
def secondEngine : EngineHandle :=
  ⟨[genesisBlock, firstBlock, secondBlock], [⟨1, .committed 10 1, some samplePut⟩]⟩

def sampleConfig : EntityIndexConfig := ⟨0, 0, false⟩

/-- The first block empties the pending index and is noted; the second is then indexed by both
of the last steps. -/
def skippedNote : List IndexStep :=
  [.opened, .engine pendingEngine, .events [.newPendingOperation 1], .engine firstEngine,
    .events [.newChainBlock 10], .engine secondEngine, .events [.newChainBlock 20], .maybeIndex]

theorem firstEngine_linked : firstEngine.Linked :=
  ⟨by simp [firstEngine, genesisBlock], by decide, by decide⟩

theorem secondEngine_linked : secondEngine.Linked :=
  ⟨by simp [secondEngine, genesisBlock], by decide, by decide⟩

theorem pendingEngine_linked : pendingEngine.Linked :=
  ⟨by simp [pendingEngine, genesisBlock], by decide, by decide⟩

theorem noDeletions_of_samplePut (engine : EngineHandle)
    (h : ∀ m ∈ engine.mutations, m = samplePut) : engine.NoDeletions := by
  intro m hm ids
  rw [h m hm]
  simp [samplePut]

theorem grows_of_samplePut (engine engine' : EngineHandle) (hlinked : engine'.Linked)
    (hextended : engine.blocks <+: engine'.blocks)
    (hmutations : ∀ m ∈ engine'.mutations, m = samplePut) : engine.Grows engine' :=
  ⟨hlinked, hextended, noDeletions_of_samplePut engine' hmutations⟩

/-- A block is indexed twice. -/
theorem skippedNote_not_indexedOnce :
    Run.Allowed (IndexWorld.step true) IndexWorld.Taken
      (.create sampleConfig ⟨[genesisBlock], []⟩) skippedNote ∧
    ¬ IndexedOnce (Run.exec (IndexWorld.step true) (.create sampleConfig ⟨[genesisBlock], []⟩)
        skippedNote).engine
      (Run.exec (IndexWorld.step true) (.create sampleConfig ⟨[genesisBlock], []⟩)
        skippedNote).index := by
  constructor
  · exact ⟨trivial,
      grows_of_samplePut ⟨[genesisBlock], []⟩ _ pendingEngine_linked (by decide) (by decide),
      by simp [IndexWorld.Taken],
      grows_of_samplePut pendingEngine _ firstEngine_linked (by decide) (by decide),
      by simp [IndexWorld.Taken],
      grows_of_samplePut firstEngine _ secondEngine_linked (by decide) (by decide),
      by simp [IndexWorld.Taken], trivial, trivial⟩
  · intro h
    obtain ⟨indexed, rest, hsplit, _, hperm⟩ := h.chain
    have hlength := hperm.length_eq
    have hcount : (Run.exec (IndexWorld.step true) (.create sampleConfig ⟨[genesisBlock], []⟩)
        skippedNote).index.chainIndex.committed.length = 3 := by decide +kernel
    have hshort : ∀ l ∈ secondEngine.blocks.inits,
        ((l.filter fun block => decide (0 < block.offset)).flatMap
          ChainBlock.documents).length < 3 := by decide +kernel
    have hmem : indexed ∈ secondEngine.blocks.inits :=
      (List.mem_inits _ _).mpr ⟨rest, hsplit.symm⟩
    exact absurd (hlength.symm.trans hcount) (hshort indexed hmem).ne

/-- The operation moves from the pending index to the chain index. -/
def promptNote : List IndexStep :=
  [.opened, .engine pendingEngine, .events [.newPendingOperation 1], .engine firstEngine,
    .events [.newChainBlock 10]]

theorem promptNote_meets : Run.Allowed (IndexWorld.step true)
    (fun w a => w.Taken a ∧ w.Meets true a) (.create sampleConfig ⟨[genesisBlock], []⟩)
    promptNote := by
  refine ⟨⟨trivial, ?_, ?_⟩, ⟨?_, trivial⟩, ⟨by simp [IndexWorld.Taken], ?_⟩, ⟨?_, trivial⟩,
    ⟨by simp [IndexWorld.Taken], ?_, ⟨?_, ?_⟩, ?_⟩, trivial⟩
  · intro _ _
    decide +kernel
  · refine ⟨?_, ?_⟩
    · show ∀ iop ∈ _, MutationIndex.Takes iop
      decide +kernel
    · show EntityIndex.Unindexed _ _
      decide +kernel
  · exact grows_of_samplePut ⟨[genesisBlock], []⟩ _ pendingEngine_linked (by decide) (by decide)
  · refine ⟨?_, ?_⟩
    · show ∀ iop ∈ _, MutationIndex.Takes iop
      decide +kernel
    · show EntityIndex.Unindexed _ _
      decide +kernel
  · exact grows_of_samplePut pendingEngine _ firstEngine_linked (by decide) (by decide)
  · refine ⟨?_, ?_⟩
    · show ∀ iop ∈ _, MutationIndex.Takes iop
      decide +kernel
    · show EntityIndex.Unindexed _ _
      decide +kernel
  · intro _
    decide +kernel
  · -- the note is not set yet
    exact fun _ hskips => hskips.noted (by decide +kernel)
  · refine ⟨?_, ?_⟩
    · show ∀ iop ∈ _, MutationIndex.Takes iop
      decide +kernel
    · show EntityIndex.Unindexed _ _
      decide +kernel

theorem promptNote_indexedOnce :
    IndexedOnce (Run.exec (IndexWorld.step true) (.create sampleConfig ⟨[genesisBlock], []⟩)
        promptNote).engine
      (Run.exec (IndexWorld.step true) (.create sampleConfig ⟨[genesisBlock], []⟩)
        promptNote).index :=
  runs_indexedOnce true sampleConfig ⟨[genesisBlock], []⟩
    ⟨by simp [genesisBlock], by decide, by decide⟩
    (noDeletions_of_samplePut _ (by decide)) promptNote promptNote_meets

end Samples

end Exocore.Store
