import Exocore.CommitBlockSpec

/-! The order of the candidates for the next block. -/
namespace Exocore.Engine

open Exocore.Core Exocore.Chain Exocore.Pending SortedMap

section Order
variable [Crates]

/-- At most one of the blocks has our signature. -/
def OneSigned (blocks : List PendingBlock) : Prop :=
  ∀ a ∈ blocks, ∀ b ∈ blocks, a.hasMySignature = true → b.hasMySignature = true → a = b

/-- The comparison orders the blocks strictly. A sort compares a block with other ones only. -/
structure StrictOrder (blocks : List PendingBlock) : Prop where
  antisymm : ∀ a ∈ blocks, ∀ b ∈ blocks, a ≠ b →
    PendingBlock.comparePotentialNextBlock b a = (PendingBlock.comparePotentialNextBlock a b).swap
  total : ∀ a ∈ blocks, ∀ b ∈ blocks, a ≠ b → PendingBlock.comparePotentialNextBlock a b ≠ .eq
  trans : ∀ a ∈ blocks, ∀ b ∈ blocks, ∀ c ∈ blocks,
    PendingBlock.comparePotentialNextBlock a b = .gt →
    PendingBlock.comparePotentialNextBlock b c = .gt →
    PendingBlock.comparePotentialNextBlock a c = .gt

/-- The block a node should back: one it has signed, else one with the most signatures, and the
oldest of those. -/
structure Best (blocks : List PendingBlock) (best : PendingBlock) : Prop where
  mem : best ∈ blocks
  signed : (∃ b ∈ blocks, b.hasMySignature = true) → best.hasMySignature = true
  mostSigned : (∀ b ∈ blocks, b.hasMySignature = false) →
    ∀ b ∈ blocks, b.signatures.length ≤ best.signatures.length ∧
      (b.signatures.length = best.signatures.length → best.groupId ≤ b.groupId)

/-- The blocks that are sorted. -/
def PendingBlocks.candidates (pb : PendingBlocks) : List PendingBlock :=
  pb.blocks.values.filter fun block => block.status = .nextPotential

section Compare

/-- A candidate with our signature comes first, then the number of signatures counts, then the
age of the proposal. -/
theorem before_bestFirst_iff (a b : PendingBlock)
    (hmine : ¬ (a.hasMySignature = true ∧ b.hasMySignature = true)) (hne : a.groupId ≠ b.groupId) :
    Sorting.Before bestFirst a b ↔ a.hasMySignature = true ∨ (b.hasMySignature = false ∧
      (b.signatures.length < a.signatures.length ∨
        (a.signatures.length = b.signatures.length ∧ a.groupId < b.groupId))) := by
  unfold Sorting.Before bestFirst
  rw [Ordering.swap_eq_lt, Ordering.swap_eq_gt]
  unfold PendingBlock.comparePotentialNextBlock
  cases ha : a.hasMySignature with
  | true =>
    cases hb : b.hasMySignature with
    | true => exact absurd ⟨ha, hb⟩ hmine
    | false => simp
  | false =>
    cases hb : b.hasMySignature with
    | true => simp
    | false =>
      rcases Nat.lt_trichotomy a.signatures.length b.signatures.length with hlt | heq | hgt
      · rw [Nat.compare_eq_lt.mpr hlt, Nat.compare_eq_gt.mpr hlt]
        simp
        omega
      · rw [Nat.compare_eq_eq.mpr heq, Nat.compare_eq_eq.mpr heq.symm]
        rcases Nat.lt_or_gt_of_ne hne with hg | hg
        · simp [hg, heq, Nat.lt_asymm hg]
        · simp [hg, heq, Nat.lt_asymm hg]
      · rw [Nat.compare_eq_gt.mpr hgt, Nat.compare_eq_lt.mpr hgt]
        simp [hgt]

/-- Blocks with distinct ids, of which one at most has our signature. -/
structure Sortable (blocks : List PendingBlock) : Prop where
  ids : ∀ a ∈ blocks, ∀ b ∈ blocks, a.groupId = b.groupId → a = b
  oneSigned : OneSigned blocks

variable {blocks : List PendingBlock} (h : Sortable blocks)
include h

theorem Sortable.before_iff (a : PendingBlock) (ha : a ∈ blocks) (b : PendingBlock)
    (hb : b ∈ blocks) (hne : a ≠ b) :
    Sorting.Before bestFirst a b ↔ a.hasMySignature = true ∨ (b.hasMySignature = false ∧
      (b.signatures.length < a.signatures.length ∨
        (a.signatures.length = b.signatures.length ∧ a.groupId < b.groupId))) := by
  apply before_bestFirst_iff a b
  · rintro ⟨hma, hmb⟩
    exact hne (h.oneSigned a ha b hb hma hmb)
  · exact fun heq => hne (h.ids a ha b hb heq)

theorem Sortable.before_total (a : PendingBlock) (ha : a ∈ blocks) (b : PendingBlock)
    (hb : b ∈ blocks) (hne : a ≠ b) :
    Sorting.Before bestFirst a b ∨ Sorting.Before bestFirst b a := by
  have hids : a.groupId ≠ b.groupId := fun heq => hne (h.ids a ha b hb heq)
  rw [h.before_iff a ha b hb hne, h.before_iff b hb a ha hne.symm]
  cases hma : a.hasMySignature <;> cases hmb : b.hasMySignature <;> simp
  omega

omit h in
theorem ne_of_before (a b : PendingBlock) (hab : Sorting.Before bestFirst a b) : a ≠ b := by
  rintro rfl
  exact hab.asymm hab

theorem Sortable.before_trans (a : PendingBlock) (ha : a ∈ blocks) (b : PendingBlock)
    (hb : b ∈ blocks) (c : PendingBlock) (hc : c ∈ blocks) (hab : Sorting.Before bestFirst a b)
    (hbc : Sorting.Before bestFirst b c) : Sorting.Before bestFirst a c := by
  have hne : a ≠ c := by
    rintro rfl
    exact hab.asymm hbc
  rw [h.before_iff a ha b hb (ne_of_before a b hab)] at hab
  rw [h.before_iff b hb c hc (ne_of_before b c hbc)] at hbc
  rw [h.before_iff a ha c hc hne]
  rcases hab with hma | ⟨hmb, hab⟩
  · exact Or.inl hma
  · rcases hbc with hmb' | ⟨hmc, hbc⟩
    · rw [hmb] at hmb'
      contradiction
    · exact Or.inr ⟨hmc, by omega⟩

/-- Of two blocks the better one is greater, whichever way it is asked. -/
theorem Sortable.compare_eq_gt_iff (a : PendingBlock) (ha : a ∈ blocks) (b : PendingBlock)
    (hb : b ∈ blocks) (hne : a ≠ b) :
    PendingBlock.comparePotentialNextBlock a b = .gt ↔ Sorting.Before bestFirst a b := by
  constructor
  · intro hgt
    refine (h.before_total a ha b hb hne).resolve_right ?_
    intro hba
    have hlt := Ordering.swap_eq_gt.mp hba.2
    rw [hgt] at hlt
    contradiction
  · exact fun hab => Ordering.swap_eq_lt.mp hab.1

theorem Sortable.strictOrder : StrictOrder blocks := by
  refine ⟨?_, ?_, ?_⟩
  · intro a ha b hb hne
    rcases h.before_total a ha b hb hne with hab | hba
    · rw [Ordering.swap_eq_lt.mp hab.1, Ordering.swap_eq_gt.mp hab.2]
      rfl
    · rw [Ordering.swap_eq_lt.mp hba.1, Ordering.swap_eq_gt.mp hba.2]
      rfl
  · intro a ha b hb hne heq
    rcases h.before_total a ha b hb hne with hab | hba
    · exact absurd (heq.symm.trans (Ordering.swap_eq_lt.mp hab.1)) (by decide)
    · exact absurd (heq.symm.trans (Ordering.swap_eq_gt.mp hba.2)) (by decide)
  · intro a ha b hb c hc hab hbc
    by_cases heq : a = b
    · rw [heq]
      exact hbc
    · by_cases heq' : b = c
      · rw [← heq']
        exact hab
      · have hab' := (h.compare_eq_gt_iff a ha b hb heq).mp hab
        have hbc' := (h.compare_eq_gt_iff b hb c hc heq').mp hbc
        exact Ordering.swap_eq_lt.mp (h.before_trans a ha b hb c hc hab' hbc').1

end Compare

/-- Two blocks with our signature are both greater than the other. -/
theorem StrictOrder.oneSigned {blocks : List PendingBlock} (h : StrictOrder blocks) :
    OneSigned blocks := by
  intro a ha b hb hma hmb
  by_contra hne
  have hgt (x y : PendingBlock) (hx : x.hasMySignature = true) :
      PendingBlock.comparePotentialNextBlock x y = .gt := by
    rw [PendingBlock.comparePotentialNextBlock, if_pos hx]
  have hswap := h.antisymm a ha b hb hne
  rw [hgt a b hma, hgt b a hmb] at hswap
  contradiction

theorem strictOrder_iff (blocks : List PendingBlock)
    (hids : ∀ a ∈ blocks, ∀ b ∈ blocks, a.groupId = b.groupId → a = b) :
    StrictOrder blocks ↔ OneSigned blocks :=
  ⟨StrictOrder.oneSigned, fun hone => Sortable.strictOrder ⟨hids, hone⟩⟩

section Sorted
variable {blocks : List PendingBlock} (h : Sortable blocks)
include h

/-- Sortable blocks that are all different have one sorted order. -/
theorem Sortable.exists_sorted (hnodup : blocks.Nodup) :
    ∃ r : List PendingBlock, r.Perm blocks ∧ r.Pairwise (Sorting.Before bestFirst) := by
  apply Sorting.exists_sorted
  · exact hnodup.imp_of_mem fun {a b} ha hb hne => h.before_total a ha b hb hne
  · exact h.before_trans

/-- The head of the sorted blocks is the best one. -/
theorem Sortable.best_of_sorted (best : PendingBlock) (rest : List PendingBlock)
    (hperm : (best :: rest).Perm blocks)
    (hsorted : (best :: rest).Pairwise (Sorting.Before bestFirst)) : Best blocks best := by
  have hmem : best ∈ blocks := hperm.mem_iff.mp List.mem_cons_self
  have hrank (b : PendingBlock) (hb : b ∈ blocks) (hne : b ≠ best) :
      best.hasMySignature = true ∨ (b.hasMySignature = false ∧
        (b.signatures.length < best.signatures.length ∨
          (best.signatures.length = b.signatures.length ∧ best.groupId < b.groupId))) := by
    have hrest : b ∈ rest := (List.mem_cons.mp (hperm.mem_iff.mpr hb)).resolve_left hne
    exact (h.before_iff best hmem b hb hne.symm).mp ((List.pairwise_cons.mp hsorted).1 b hrest)
  refine ⟨hmem, ?_, ?_⟩
  · rintro ⟨b, hb, hmine⟩
    by_cases heq : b = best
    · rw [← heq]
      exact hmine
    · refine (hrank b hb heq).resolve_right ?_
      rintro ⟨hother, -⟩
      rw [hother] at hmine
      contradiction
  · intro hnone b hb
    by_cases heq : b = best
    · rw [heq]
      exact ⟨le_refl _, fun _ => le_refl _⟩
    · rcases hrank b hb heq with hmine | ⟨-, hrank⟩
      · rw [hnone best hmem] at hmine
        contradiction
      · omega

end Sorted

section Candidates
variable (pb : PendingBlocks)

theorem mem_candidates_iff (block : PendingBlock) :
    block ∈ pb.candidates ↔ (∃ g, pb.blocks.get g = some block) ∧ block.status = .nextPotential := by
  rw [PendingBlocks.candidates, List.mem_filter, mem_values_iff, decide_eq_true_eq]

variable (hkeys : ∀ g block, pb.blocks.get g = some block → block.groupId = g)
include hkeys

/-- The map has one block for an id. -/
theorem values_ids (a : PendingBlock) (ha : a ∈ pb.blocks.values) (b : PendingBlock)
    (hb : b ∈ pb.blocks.values) (heq : a.groupId = b.groupId) : a = b := by
  obtain ⟨g, hg⟩ := (mem_values_iff pb.blocks a).mp ha
  obtain ⟨g', hg'⟩ := (mem_values_iff pb.blocks b).mp hb
  rw [hkeys g a hg, hkeys g' b hg'] at heq
  rw [heq, hg'] at hg
  exact (Option.some.inj hg).symm

theorem candidates_ids (a : PendingBlock) (ha : a ∈ pb.candidates) (b : PendingBlock)
    (hb : b ∈ pb.candidates) (heq : a.groupId = b.groupId) : a = b :=
  values_ids pb hkeys a (List.mem_filter.mp ha).1 b (List.mem_filter.mp hb).1 heq

theorem values_nodup : pb.blocks.values.Nodup := by
  apply List.pairwise_map.mpr
  refine pb.blocks.sorted.imp_of_mem ?_
  intro e f he hf hlt heq
  have hget := hkeys e.1 e.2 ((Map.mem_entries_iff _ _ _).mp he)
  have hget' := hkeys f.1 f.2 ((Map.mem_entries_iff _ _ _).mp hf)
  rw [heq, hget'] at hget
  omega

theorem inOrder_nodup (hash : Sorting.HashOrder) : (pb.inOrder hash).Nodup := by
  have hkeysNodup : (hash.order pb.blocks.keys).Nodup :=
    (hash.perm _).nodup_iff.mpr (pb.blocks.keys_sorted.imp fun hlt => hlt.ne)
  apply List.Pairwise.filterMap _ _ hkeysNodup
  intro g g' hne b hb c hc heq
  apply hne
  rw [← hkeys g b hb, ← hkeys g' c hc, heq]

/-- The order of the hash map decides in which order the sort gets the blocks, no more. -/
theorem inOrder_perm_candidates (hash : Sorting.HashOrder) :
    ((pb.inOrder hash).filter fun block => block.status = .nextPotential).Perm pb.candidates := by
  apply List.Perm.filter
  apply (List.perm_ext_iff_of_nodup (inOrder_nodup pb hkeys hash) (values_nodup pb hkeys)).mpr
  intro block
  rw [mem_inOrder_iff, mem_values_iff]

theorem potentialNextBlocks_sorted (hone : OneSigned pb.candidates) (hash : Sorting.HashOrder)
    (sorter : Sorting.Sorter PendingBlock bestFirst) :
    ∃ potential, pb.potentialNextBlocks hash sorter = .ok potential ∧
      potential.Perm pb.candidates ∧ potential.Pairwise (Sorting.Before bestFirst) := by
  have hsortable : Sortable pb.candidates := ⟨candidates_ids pb hkeys, hone⟩
  have hperm := inOrder_perm_candidates pb hkeys hash
  obtain ⟨r, hr, hsorted⟩ := hsortable.exists_sorted ((values_nodup pb hkeys).filter _)
  obtain ⟨potential, hsort, hpotential⟩ := sorter.sorted _ ⟨r, hr.trans hperm.symm, hsorted⟩
  refine ⟨potential, ?_, (sorter.perm _ _ hsort).trans hperm, hpotential⟩
  rw [PendingBlocks.potentialNextBlocks, hsort, orPanic_some]

end Candidates

end Order

end Exocore.Engine
