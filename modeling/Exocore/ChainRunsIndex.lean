import Exocore.ChainRunsReads

/-! The operation index along runs of writes and truncations: the block it gives for an
operation is the one of the chain that has it. -/
namespace Exocore.Chain

open Exocore.Core

section Lookup
variable [Crates]

/-- The steps under which the index keeps to the chain. -/
def ChainStep.ValidClears (st : StoreAndList) (a : ChainStep) : Prop :=
  a.Valid st ∧ a.Aligned st ∧ a.Clears st

theorem mem_written_of_mem_exec (st : StoreAndList) (steps : List ChainStep) (b : DataBlock)
    (hb : b ∈ (Run.exec chainStep st steps).blocks) : b ∈ st.blocks ∨ b ∈ written steps := by
  induction steps generalizing st with
  | nil => exact .inl hb
  | cons a rest ih =>
    rcases ih (chainStep st a) hb with hstep | hrest
    · cases a with
      | write c =>
        rcases List.mem_append.mp hstep with hold | hnew
        · exact .inl hold
        · right
          rw [List.mem_singleton.mp hnew]
          exact List.mem_cons_self
      | truncate offset =>
        left
        exact (List.takeWhile_sublist _).subset hstep
    · right
      cases a with
      | write c => exact List.mem_cons_of_mem _ hrest
      | truncate offset => exact hrest

/-- A store with a strict index gives a block of the chain that has the operation, and only
then. -/
theorem getBlockByOperationId_eq (s : DirectoryChainStore) (blocks : List DataBlock)
    (h : StoreHolds True s blocks) (id : ℕ) :
    (∃ b ∈ blocks, HasOperation b id ∧ s.getBlockByOperationId id = .ok (some b)) ∨
      (∀ b ∈ blocks, ¬ HasOperation b id) ∧ s.getBlockByOperationId id = .ok none := by
  obtain ⟨stop, i, hsegs, hindex, hi⟩ := h
  simp only [DirectoryChainStore.getBlockByOperationId, hindex, orPanic_some, ok_bind]
  cases hget : i.getOperationBlock id with
  | some offset =>
    left
    obtain ⟨b, hb, rfl, hid⟩ := getOperationBlock_sound i blocks stop id offset hi hget
    refine ⟨b, hb, hid, ?_⟩
    simp only [getBlock_eq s stop blocks hsegs b hb, ok_bind]
    rfl
  | none =>
    right
    refine ⟨fun b hb hid => ?_, rfl⟩
    exact getOperationBlock_complete True i blocks stop id hi b hb hid hget

theorem chainRun_holds_strict (config : DirectoryChainStoreConfig) (steps : List ChainStep)
    (hrun : Run.Allowed chainStep ChainStep.ValidClears (freshStore config) steps) :
    StoreHolds True (Run.exec chainStep (freshStore config) steps).store
      (Run.exec chainStep (freshStore config) steps).blocks := by
  refine Run.exec_invariant chainStep ChainStep.ValidClears
    (fun st => StoreHolds True st.store st.blocks) ?_ (freshStore config) steps
    (storeHolds_create True config) hrun
  intro st a hst ha
  exact (chainStep_holds True st a hst ha.1 ha.2.1 fun _ => ha.2.2).2

/-- No two blocks that were written share an id. -/
def DistinctIds (blocks : List DataBlock) : Prop :=
  ∀ b ∈ blocks, ∀ c ∈ blocks, ∀ id, HasOperation b id → HasOperation c id → b = c

/-- What the index should answer for an operation, on the blocks of the chain. -/
def IndexAgrees (st : StoreAndList) (id : ℕ) : Prop :=
  (∀ b ∈ st.blocks, HasOperation b id → st.store.getBlockByOperationId id = .ok (some b)) ∧
    ((∀ b ∈ st.blocks, ¬ HasOperation b id) → st.store.getBlockByOperationId id = .ok none)

/-- After any run whose truncations leave no entry behind, the index agrees with the chain. -/
theorem chainRun_indexAgrees (config : DirectoryChainStoreConfig) (steps : List ChainStep)
    (hrun : Run.Allowed chainStep ChainStep.ValidClears (freshStore config) steps)
    (hdistinct : DistinctIds (written steps)) (id : ℕ) :
    IndexAgrees (Run.exec chainStep (freshStore config) steps) id := by
  have hholds := chainRun_holds_strict config steps hrun
  have hwritten : ∀ b ∈ (Run.exec chainStep (freshStore config) steps).blocks,
      b ∈ written steps := by
    intro b hb
    rcases mem_written_of_mem_exec _ steps b hb with hbad | hb
    · contradiction
    · exact hb
  rcases getBlockByOperationId_eq _ _ hholds id with ⟨b, hb, hid, hget⟩ | ⟨hnone, hget⟩
  · constructor
    · intro c hc hcid
      rw [hget, hdistinct b (hwritten b hb) c (hwritten c hc) id hid hcid]
    · intro hall
      exact absurd hid (hall b hb)
  · constructor
    · intro c hc hcid
      exact absurd hcid (hnone c hc)
    · intro _
      exact hget

end Lookup

/-! The third block is above the part of the chain that is still in memory. -/

def indexTables : Tables :=
  { sampleTables with headers := (thirdMessage, thirdHeader) :: sampleTables.headers }

section Samples

local instance : Crates := indexTables.crates

theorem indexedBlocks_wellFormed :
    WellFormed genesisBlock ∧ WellFormed secondBlock ∧ WellFormed thirdBlock :=
  ⟨wellFormedCheck_sound _ (by decide +kernel), wellFormedCheck_sound _ (by decide +kernel),
    wellFormedCheck_sound _ (by decide +kernel)⟩

theorem indexedBlocks_ids :
    operationIds genesisBlock = [0] ∧ operationIds secondBlock = [100] ∧
      operationIds thirdBlock = [300] := by
  refine ⟨?_, ?_, ?_⟩
  all_goals decide +kernel

theorem indexedBlocks_distinctIds : DistinctIds [genesisBlock, secondBlock, thirdBlock] := by
  obtain ⟨hgenesis, hsecond, hthird⟩ := indexedBlocks_ids
  intro b hb c hc id hbid hcid
  simp only [List.mem_cons, List.not_mem_nil, or_false] at hb hc
  rw [hasOperation_iff_mem] at hbid hcid
  rcases hb with rfl | rfl | rfl <;> rcases hc with rfl | rfl | rfl <;>
    simp_all

/-- One operation in memory at most: the second block flushes the index, the third stays
in memory and is truncated away below it. -/
def staleMemorySteps : List ChainStep :=
  [.write genesisBlock, .write secondBlock, .write thirdBlock, .truncate secondBlock.offset]

/-- The proposal of the third block is gone from the chain, its entry is not. -/
theorem staleMemory_not_indexAgrees :
    Run.Allowed chainStep ChainStep.Succeeds (freshStore ⟨0, 10000, 1⟩) staleMemorySteps ∧
      DistinctIds (written staleMemorySteps) ∧
      ¬ IndexAgrees (Run.exec chainStep (freshStore ⟨0, 10000, 1⟩) staleMemorySteps) 300 := by
  obtain ⟨hgenesis, hsecond, hthird⟩ := indexedBlocks_wellFormed
  refine ⟨?_, indexedBlocks_distinctIds, ?_⟩
  · refine ⟨⟨⟨hgenesis, ?_⟩, ?_⟩, ⟨⟨hsecond, ?_⟩, ?_⟩, ⟨⟨hthird, ?_⟩, ?_⟩,
      ⟨⟨secondBlock, ?_, rfl⟩, ?_⟩, trivial⟩
    all_goals decide +kernel
  · intro h
    have hget := h.2 (by decide +kernel)
    have hbad : (Run.exec chainStep (freshStore ⟨0, 10000, 1⟩)
        staleMemorySteps).store.getBlockByOperationId 300 ≠ .ok none := by
      decide +kernel
    exact hbad hget

/-- Truncated before the third block is written, nothing is in memory. -/
theorem chainRun_indexAgrees_flushed :
    IndexAgrees (Run.exec chainStep (freshStore ⟨0, 10000, 1⟩)
      [.write genesisBlock, .write secondBlock, .truncate secondBlock.offset]) 100 := by
  obtain ⟨hgenesis, hsecond, -⟩ := indexedBlocks_wellFormed
  apply chainRun_indexAgrees
  · refine ⟨⟨⟨hgenesis, ?_⟩, ?_, trivial⟩, ⟨⟨hsecond, ?_⟩, ?_, trivial⟩,
      ⟨⟨secondBlock, ?_, rfl⟩, trivial, ?_⟩, trivial⟩
    all_goals decide +kernel
  · have hsub : ∀ b ∈ written [.write genesisBlock, .write secondBlock,
        .truncate secondBlock.offset], b ∈ [genesisBlock, secondBlock, thirdBlock] := by
      intro b hb
      exact List.mem_append_left [thirdBlock] hb
    intro b hb c hc
    exact indexedBlocks_distinctIds b (hsub b hb) c (hsub c hc)

end Samples

end Exocore.Chain
