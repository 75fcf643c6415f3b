import Exocore.LibNeighbours
import Exocore.StoreCompact

/-! Whether the aggregator is given each mutation of an entity once: an operation that both
indices have is given twice where another one is committed between its two places. -/
namespace Exocore.Store

/-- What the search engine gives for an entity. -/
def firstResults (index : List MutationMetadata) : List MutationMetadata :=
  (index.insertionSort fun a b => a.operationId ≤ b.operationId).take entityMaxTraits

theorem mem_dedupResults (fuel : ℕ) (prev : Option OperationId) (results : List MutationMetadata)
    (m : MutationMetadata) (h : m ∈ dedupResults fuel prev results) : m ∈ results := by
  induction fuel generalizing prev results with
  | zero => exact h
  | succ fuel ih =>
    cases results with
    | nil => exact h
    | cons result rest =>
      rw [dedupResults] at h
      split at h
      · have hmem := ih _ _ h
        have hrest : m ∈ rest := by
          rcases List.mem_append.mp hmem with hlast | hfront
          · exact List.mem_of_getLast? (Option.mem_toList.mp hlast)
          · exact List.dropLast_subset rest hfront
        exact List.mem_cons_of_mem result hrest
      · rcases List.mem_cons.mp h with rfl | h
        · exact List.mem_cons_self
        · exact List.mem_cons_of_mem result (ih _ _ h)

/-- The last one moves to the front. -/
theorem mem_swapRemoved (rest : List MutationMetadata) (m : MutationMetadata) (h : m ∈ rest) :
    m ∈ rest.getLast?.toList ++ rest.dropLast := by
  rcases List.eq_nil_or_concat rest with rfl | ⟨front, last, rfl⟩
  · cases h
  · rw [List.concat_eq_append, List.getLast?_concat, List.dropLast_concat]
    rw [List.concat_eq_append, List.mem_append, List.mem_singleton] at h
    rcases h with h | rfl
    · exact List.mem_append_right _ h
    · exact List.mem_append_left _ (by simp)

theorem swapRemoved_length (rest : List MutationMetadata) :
    (rest.getLast?.toList ++ rest.dropLast).length = rest.length := by
  rcases List.eq_nil_or_concat rest with rfl | ⟨front, last, rfl⟩
  · rfl
  · rw [List.concat_eq_append, List.getLast?_concat, List.dropLast_concat]
    simp

/-- Whichever results the loop takes out, each operation keeps one. -/
theorem dedupResults_keeps (fuel : ℕ) (prev : Option OperationId) (results : List MutationMetadata)
    (hfuel : results.length ≤ fuel) (m : MutationMetadata) (hm : m ∈ results) :
    prev = some m.operationId ∨
      ∃ o ∈ dedupResults fuel prev results, o.operationId = m.operationId := by
  induction fuel generalizing prev results with
  | zero => exact Or.inr ⟨m, by rwa [dedupResults], rfl⟩
  | succ fuel ih =>
    cases results with
    | nil => cases hm
    | cons result rest =>
      rw [List.length_cons] at hfuel
      rw [dedupResults]
      split
      · next hrepeated =>
        rcases List.mem_cons.mp hm with rfl | hm
        · exact Or.inl hrepeated
        · exact ih prev _ (by rw [swapRemoved_length]; omega) (mem_swapRemoved rest m hm)
      · rcases List.mem_cons.mp hm with rfl | hm
        · exact Or.inr ⟨m, List.mem_cons_self, rfl⟩
        · rcases ih (some result.operationId) rest (by omega) hm with hsame | ⟨o, ho, hid⟩
          · exact Or.inr ⟨result, List.mem_cons_self, Option.some.inj hsame⟩
          · exact Or.inr ⟨o, List.mem_cons_of_mem result ho, hid⟩

/-- Fewer results of lower operations than the index gives stand before the mutation. -/
def Reached (index : List MutationMetadata) (m : MutationMetadata) : Prop :=
  m ∈ index ∧ (index.filter fun o => o.operationId < m.operationId).length < entityMaxTraits

theorem mem_firstResults_iff (index : List MutationMetadata) (x : OperationId) :
    (∃ m ∈ firstResults index, m.operationId = x) ↔
      ∃ m, Reached index m ∧ m.operationId = x := by
  let r : MutationMetadata → MutationMetadata → Prop := fun a b => a.operationId ≤ b.operationId
  have htotal : Std.Total r := ⟨fun a b => le_total a.operationId b.operationId⟩
  have htrans : IsTrans MutationMetadata r := ⟨fun _ _ _ hab hbc => le_trans hab hbc⟩
  have hperm := List.perm_insertionSort r index
  have htake := Neighbours.mem_take_iff MutationMetadata.operationId (index.insertionSort r)
    entityMaxTraits (List.pairwise_insertionSort r index) x
  have hlength : ((index.insertionSort r).filter fun o => o.operationId < x).length =
      (index.filter fun o => o.operationId < x).length := (hperm.filter _).length_eq
  rw [hlength] at htake
  simp only [hperm.mem_iff] at htake
  unfold firstResults
  rw [htake]
  constructor
  · rintro ⟨⟨m, hm, rfl⟩, hfew⟩
    exact ⟨m, ⟨hm, hfew⟩, rfl⟩
  · rintro ⟨m, ⟨hm, hfew⟩, rfl⟩
    exact ⟨⟨m, hm, rfl⟩, hfew⟩

theorem reached_of_firstResults (index : List MutationMetadata) (m : MutationMetadata)
    (h : m ∈ firstResults index) : Reached index m := by
  obtain ⟨o, ho, hid⟩ := (mem_firstResults_iff index m.operationId).mp ⟨m, h, rfl⟩
  refine ⟨?_, hid ▸ ho.2⟩
  exact (List.perm_insertionSort _ index).mem_iff.mp (List.mem_of_mem_take h)

theorem reached_of_fetched (index : List MutationMetadata) (m : MutationMetadata)
    (h : m ∈ fetchEntityMutations index) : Reached index m :=
  reached_of_firstResults index m (mem_dedupResults _ _ _ m h)

theorem fetchEntityMutations_names (index : List MutationMetadata) (x : OperationId) :
    (∃ m ∈ fetchEntityMutations index, m.operationId = x) ↔
      ∃ m, Reached index m ∧ m.operationId = x := by
  constructor
  · rintro ⟨m, hm, hid⟩
    exact ⟨m, reached_of_fetched index m hm, hid⟩
  · intro h
    obtain ⟨m, hm, rfl⟩ := (mem_firstResults_iff index x).mpr h
    rcases dedupResults_keeps _ none (firstResults index) le_rfl m hm with hnone | hkept
    · cases hnone
    · exact hkept

section Merge

variable (pendingIndex chainIndex : List MutationMetadata)

def ReachedIn (m : MutationMetadata) : Prop := Reached pendingIndex m ∨ Reached chainIndex m

/-- Every operation is among those that an index gives, and no other one of them is committed
between two places of an operation. -/
structure Fetchable : Prop where
  reached : ∀ m ∈ pendingIndex ++ chainIndex,
    ∃ o, ReachedIn pendingIndex chainIndex o ∧ o.operationId = m.operationId
  together : ∀ a b c, ReachedIn pendingIndex chainIndex a → ReachedIn pendingIndex chainIndex b →
    ReachedIn pendingIndex chainIndex c → a.operationId = b.operationId →
    c.operationId ≠ a.operationId → ¬ (commitKey a < commitKey c ∧ commitKey c < commitKey b)

/-- What the aggregator is given: one mutation for each operation, in the order of commits, with
which its assertion does not fail. -/
structure ReceivedOnce : Prop where
  once : ((fetchEntityMutationsMetadata pendingIndex chainIndex).map
    MutationMetadata.operationId).Nodup
  complete : ∀ x, x ∈ (fetchEntityMutationsMetadata pendingIndex chainIndex).map
    MutationMetadata.operationId ↔ ∃ m ∈ pendingIndex ++ chainIndex, m.operationId = x
  sorted : (fetchEntityMutationsMetadata pendingIndex chainIndex).Pairwise fun a b =>
    commitKey a ≤ commitKey b
  asserted : (EntityAggregator.new
    (fetchEntityMutationsMetadata pendingIndex chainIndex)).isSome = true

/-- The copies of an operation in an index are at one offset. -/
def OneOffset (index : List MutationMetadata) : Prop :=
  ∀ a ∈ index, ∀ b ∈ index, a.operationId = b.operationId → a.blockOffset = b.blockOffset

/-- Both indices' results, in the order of commits. -/
def mergedMutations : List MutationMetadata :=
  (fetchEntityMutations pendingIndex ++ fetchEntityMutations chainIndex).insertionSort
    fun a b => commitKey a ≤ commitKey b

theorem fetchEntityMutationsMetadata_eq : fetchEntityMutationsMetadata pendingIndex chainIndex =
    Neighbours.thin MutationMetadata.operationId (mergedMutations pendingIndex chainIndex) := rfl

theorem mergedMutations_sorted :
    (mergedMutations pendingIndex chainIndex).Pairwise fun a b => commitKey a ≤ commitKey b := by
  let r : MutationMetadata → MutationMetadata → Prop := fun a b => commitKey a ≤ commitKey b
  have htotal : Std.Total r := ⟨fun a b => le_total (commitKey a) (commitKey b)⟩
  have htrans : IsTrans MutationMetadata r := ⟨fun _ _ _ hab hbc => le_trans hab hbc⟩
  exact List.pairwise_insertionSort r _

theorem mem_mergedMutations (m : MutationMetadata) :
    m ∈ mergedMutations pendingIndex chainIndex ↔
      m ∈ fetchEntityMutations pendingIndex ∨ m ∈ fetchEntityMutations chainIndex := by
  unfold mergedMutations
  rw [(List.perm_insertionSort _ _).mem_iff, List.mem_append]

theorem commitKey_operationId (a b : MutationMetadata) (h : commitKey a = commitKey b) :
    a.operationId = b.operationId := congrArg (fun key => (ofLex key).2) h

theorem received_names (x : OperationId) :
    x ∈ (fetchEntityMutationsMetadata pendingIndex chainIndex).map MutationMetadata.operationId ↔
      ∃ o, ReachedIn pendingIndex chainIndex o ∧ o.operationId = x := by
  rw [fetchEntityMutationsMetadata_eq, List.mem_map, Neighbours.thin_names]
  simp only [mem_mergedMutations, or_and_right, exists_or, fetchEntityMutations_names, ReachedIn]

theorem received_sorted : (fetchEntityMutationsMetadata pendingIndex chainIndex).Pairwise
    fun a b => commitKey a ≤ commitKey b :=
  (mergedMutations_sorted pendingIndex chainIndex).sublist (Neighbours.thin_sublist _ _)

/-- The assertion compares neighbours only. -/
theorem run_of_isChain (s : Aggregation) (l : List MutationMetadata)
    (hhead : ∀ m ∈ l.head?, s.prevOperationId ≠ some m.operationId)
    (hchain : l.IsChain fun a b => a.operationId ≠ b.operationId) : ∃ s', s.run l = some s' := by
  induction l generalizing s with
  | nil => exact ⟨s, rfl⟩
  | cons m l ih =>
    obtain ⟨s₁, hstep⟩ : ∃ s₁, s.step m = some s₁ := by
      rw [Aggregation.step, if_neg (hhead m rfl)]
      cases (s.count m).applyMutation m with
      | none => exact ⟨_, rfl⟩
      | some s₁ => exact ⟨_, rfl⟩
    obtain ⟨s', hrun⟩ := ih s₁ (by
      intro o ho heq
      rw [step_prev s s₁ m hstep] at heq
      cases l with
      | nil => cases ho
      | cons c l =>
        obtain rfl : c = o := Option.some.inj ho
        exact hchain.rel (Option.some.inj heq)) hchain.tail
    exact ⟨s', by rw [Aggregation.run, hstep]; exact hrun⟩

theorem received_asserted : (EntityAggregator.new
    (fetchEntityMutationsMetadata pendingIndex chainIndex)).isSome = true := by
  obtain ⟨s, hrun⟩ := run_of_isChain Aggregation.start
    (fetchEntityMutationsMetadata pendingIndex chainIndex) (by simp [Aggregation.start])
    (Neighbours.thin_isChain _ _)
  rw [EntityAggregator.new, hrun]
  rfl

theorem received_once_iff :
    ((fetchEntityMutationsMetadata pendingIndex chainIndex).map
      MutationMetadata.operationId).Nodup ↔
      Neighbours.Together MutationMetadata.operationId commitKey
        (mergedMutations pendingIndex chainIndex) := by
  rw [fetchEntityMutationsMetadata_eq]
  exact Neighbours.thin_nodup_iff _ commitKey _ commitKey_operationId
    (mergedMutations_sorted pendingIndex chainIndex)

/-- Where the copies in an index are at one offset, each that is reached stands for one that is
fetched. -/
theorem exists_fetched (index : List MutationMetadata) (hone : OneOffset index)
    (m : MutationMetadata) (hm : Reached index m) :
    ∃ o ∈ fetchEntityMutations index, o.operationId = m.operationId ∧ commitKey o = commitKey m := by
  obtain ⟨o, ho, hid⟩ := (fetchEntityMutations_names index m.operationId).mpr ⟨m, hm, rfl⟩
  have hoffset := hone o (reached_of_fetched index o ho).1 m hm.1 hid
  exact ⟨o, ho, hid, by rw [commitKey, commitKey, hoffset, hid]⟩

theorem Fetchable.receivedOnce (h : Fetchable pendingIndex chainIndex) :
    ReceivedOnce pendingIndex chainIndex := by
  constructor
  case once =>
    rw [received_once_iff]
    intro a ha b hb c hc
    have hreached (m : MutationMetadata) (hm : m ∈ mergedMutations pendingIndex chainIndex) :
        ReachedIn pendingIndex chainIndex m :=
      ((mem_mergedMutations _ _ m).mp hm).imp (reached_of_fetched _ m) (reached_of_fetched _ m)
    exact h.together a b c (hreached a ha) (hreached b hb) (hreached c hc)
  case complete =>
    intro x
    rw [received_names]
    constructor
    · rintro ⟨o, ho, rfl⟩
      refine ⟨o, ?_, rfl⟩
      rw [List.mem_append]
      exact ho.imp And.left And.left
    · rintro ⟨m, hm, rfl⟩
      exact h.reached m hm
  case sorted => exact received_sorted pendingIndex chainIndex
  case asserted => exact received_asserted pendingIndex chainIndex

theorem ReceivedOnce.fetchable (h : ReceivedOnce pendingIndex chainIndex)
    (hpending : OneOffset pendingIndex) (hchain : OneOffset chainIndex) :
    Fetchable pendingIndex chainIndex := by
  have hfetched (m : MutationMetadata) (hm : ReachedIn pendingIndex chainIndex m) :
      ∃ o ∈ mergedMutations pendingIndex chainIndex,
        o.operationId = m.operationId ∧ commitKey o = commitKey m := by
    rcases hm with hm | hm
    · obtain ⟨o, ho, hsame⟩ := exists_fetched pendingIndex hpending m hm
      exact ⟨o, (mem_mergedMutations _ _ o).mpr (Or.inl ho), hsame⟩
    · obtain ⟨o, ho, hsame⟩ := exists_fetched chainIndex hchain m hm
      exact ⟨o, (mem_mergedMutations _ _ o).mpr (Or.inr ho), hsame⟩
  constructor
  case reached =>
    intro m hm
    exact (received_names _ _ _).mp ((h.complete m.operationId).mpr ⟨m, hm, rfl⟩)
  case together =>
    intro a b c ha hb hc hab hca hbetween
    obtain ⟨a', ha', hida, hkeya⟩ := hfetched a ha
    obtain ⟨b', hb', hidb, hkeyb⟩ := hfetched b hb
    obtain ⟨c', hc', hidc, hkeyc⟩ := hfetched c hc
    refine (received_once_iff _ _).mp h.once a' ha' b' hb' c' hc' ?_ ?_ ?_
    · rw [hida, hidb, hab]
    · rw [hidc, hida]
      exact hca
    · rw [hkeya, hkeyb, hkeyc]
      exact hbetween

/-- The aggregator receives every mutation once where every operation is reached and its copies
stand together. Where the copies in an index are at one offset, it does only there. -/
theorem receivedOnce_iff :
    (Fetchable pendingIndex chainIndex → ReceivedOnce pendingIndex chainIndex) ∧
      (OneOffset pendingIndex → OneOffset chainIndex →
        (ReceivedOnce pendingIndex chainIndex ↔ Fetchable pendingIndex chainIndex)) := by
  refine ⟨fun h => h.receivedOnce, ?_⟩
  intro hpending hchain
  exact ⟨fun h => h.fetchable pendingIndex chainIndex hpending hchain, fun h => h.receivedOnce⟩

end Merge

/-- An operation that is still in the pending index, while the chain has it before another one. -/
theorem committedBehind_not_once :
    ¬ ReceivedOnce [version 1 none] [version 1 (some 1), version 2 (some 2)] := by
  intro h
  have hnot : ¬ ((fetchEntityMutationsMetadata [version 1 none]
      [version 1 (some 1), version 2 (some 2)]).map MutationMetadata.operationId).Nodup := by
    decide +kernel
  exact hnot h.once

end Exocore.Store
