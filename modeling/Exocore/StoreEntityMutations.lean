import Mathlib
import Exocore.StoreEntityIterator
import Exocore.ChainHolds

/-! The mutations of a chain, and the order that the iterator over them gives them. -/
namespace Exocore.Store.Export

open Exocore.Core Exocore.Chain Spilled

/-! ## The items of the sort -/

/-- Only the low word of the number is written. -/
theorem readLe32_le32_mod (n : ℕ) (rest : Bytes) :
    readLe32 (le32 n ++ rest) = some (n % 2^32) := by
  simp only [le32, List.cons_append, List.nil_append, readLe32, UInt8.toNat_ofNat']
  congr 1
  omega

theorem readLe64_le64 (n : ℕ) (hn : n < 2^64) (rest : Bytes) :
    readLe64 (le64 n ++ rest) = some (n, rest) := by
  have hlow : readLe32 (le64 n ++ rest) = some (n % 2^32) := by
    rw [le64, List.append_assoc]
    exact readLe32_le32_mod n _
  have hhigh : readLe32 ((le64 n ++ rest).drop 4) = some (n / 2^32) := by
    have hdrop : (le64 n ++ rest).drop 4 = le32 (n / 2^32) ++ rest := rfl
    rw [hdrop]
    exact readLe32_le32_append (n / 2^32) (by omega) rest
  have hrest : (le64 n ++ rest).drop 8 = rest := rfl
  have hsum : n % 2^32 + 2^32 * (n / 2^32) = n := Nat.mod_add_div n (2^32)
  simp only [readLe64, hlow, hhigh, hrest, Option.bind_eq_bind, Option.bind_some, hsum]
  rfl

namespace SortableMutation

theorem decode_encode (codec : Codec) {m : CommittedEntityMutation} (h : codec.Writes m)
    (rest : Bytes) : decode codec (encode codec m ++ rest) = .item m rest := by
  have hread : readLe64 (encode codec m ++ rest) =
      some ((codec.encodeCommitted m).length, codec.encodeCommitted m ++ rest) := by
    rw [encode, List.append_assoc]
    exact readLe64_le64 _ h.short _
  have hlong : ¬ (codec.encodeCommitted m ++ rest).length < (codec.encodeCommitted m).length := by
    rw [List.length_append]
    omega
  rw [decode, hread]
  simp only [if_neg hlong, List.take_left, List.drop_left, h.readsBack]

/-- The entity, the block and the operation of a mutation, compared in this order. -/
def key (m : CommittedEntityMutation) : String ×ₗ (BlockOffset ×ₗ OperationId) :=
  toLex (m.mutation.entityId, toLex (m.blockOffset, m.operationId))

theorem compare_ne_gt_iff (a b : CommittedEntityMutation) : compare a b ≠ .gt ↔ key a ≤ key b := by
  rw [compare, key, key, Prod.Lex.toLex_le_toLex, Prod.Lex.toLex_le_toLex]
  cases hentity : cmp a.mutation.entityId b.mutation.entityId with
  | lt =>
    have hlt := (cmp_eq_lt_iff _ _).mp hentity
    exact iff_of_true (fun h => (by cases h)) (Or.inl hlt)
  | gt =>
    have hgt := (cmp_eq_gt_iff _ _).mp hentity
    refine iff_of_false (fun h => h rfl) ?_
    rintro (hlt | ⟨heq, -⟩)
    · exact lt_asymm hlt hgt
    · exact ne_of_gt hgt heq
  | eq =>
    have heq := (cmp_eq_eq_iff _ _).mp hentity
    simp only [heq, lt_irrefl, true_and, false_or]
    cases hblock : cmp a.blockOffset b.blockOffset with
    | lt =>
      have hlt := (cmp_eq_lt_iff _ _).mp hblock
      exact iff_of_true (fun h => (by cases h)) (Or.inl hlt)
    | gt =>
      have hgt := (cmp_eq_gt_iff _ _).mp hblock
      refine iff_of_false (fun h => h rfl) ?_
      rintro (hlt | ⟨heq, -⟩)
      · exact lt_asymm hlt hgt
      · exact ne_of_gt hgt heq
    | eq =>
      have hsame := (cmp_eq_eq_iff _ _).mp hblock
      simp only [hsame, lt_irrefl, true_and, false_or, ne_eq, cmp_eq_gt_iff, not_lt]

theorem sortable_lawful (codec : Codec) (l : List CommittedEntityMutation)
    (h : ∀ m ∈ l, codec.Writes m) : (sortable codec).Lawful l where
  finishes := rfl
  readsBack m hm := decode_encode codec (h m hm)
  total a b := by
    have htotal := le_total (key a) (key b)
    rw [← compare_ne_gt_iff, ← compare_ne_gt_iff] at htotal
    exact htotal
  trans a b d hab hbd := by
    have hle := ((compare_ne_gt_iff a b).mp hab).trans ((compare_ne_gt_iff b d).mp hbd)
    exact (compare_ne_gt_iff a d).mpr hle

end SortableMutation

/-! ## The mutations that a chain holds -/

section Held
variable [Crates]

/-- An entry holds the mutation that it decodes to, and other operations hold none. -/
inductive OperationHolds (codec : Codec) (block : DataBlock) (operation : OperationFrame) :
    List CommittedEntityMutation → Prop where
  | entry {reader : ChainOperation} {data : Bytes} {mutation : EntityMutation}
      (hreader : operation.frame.reader = some reader)
      (hentry : reader.operation = .entry (some data))
      (hdecode : codec.decode data = some mutation) :
      OperationHolds codec block operation
        [⟨Fin.ofNat _ block.offset, Fin.ofNat _ reader.operationId, mutation⟩]
  | other {reader : ChainOperation} (hreader : operation.frame.reader = some reader)
      (hentry : ∀ data, reader.operation ≠ .entry data)
      (hschema : ∀ code, reader.operation ≠ .notInSchema code) :
      OperationHolds codec block operation []

def BlockHolds (codec : Codec) (block : DataBlock) (mutations : List CommittedEntityMutation) :
    Prop :=
  ∃ operations lists, block.operations = .ok operations ∧
    List.Forall₂ (OperationHolds codec block) operations lists ∧ mutations = lists.flatten

/-- The mutations of the operations of a chain, in the order of the chain. -/
def ChainHolds (codec : Codec) (blocks : List DataBlock)
    (mutations : List CommittedEntityMutation) : Prop :=
  ∃ lists, List.Forall₂ (BlockHolds codec) blocks lists ∧ mutations = lists.flatten

theorem OperationHolds.extracted {codec : Codec} {block : DataBlock} {operation : OperationFrame}
    {mutations : List CommittedEntityMutation}
    (h : OperationHolds codec block operation mutations) :
    operationMutations codec block operation = .ok mutations := by
  cases h with
  | @entry reader data mutation hreader hentry hdecode =>
    simp only [operationMutations, OperationFrame.getReader, hreader, orError_some, liftError_ok,
      ok_bind, hentry, hdecode]
    rfl
  | @other reader hreader hentry hschema =>
    simp only [operationMutations, OperationFrame.getReader, hreader, orError_some, liftError_ok,
      ok_bind]
    cases hbody : reader.operation with
    | entry data => exact absurd hbody (hentry data)
    | notInSchema code => exact absurd hbody (hschema code)
    | _ => rfl

theorem BlockHolds.extracted {codec : Codec} {block : DataBlock}
    {mutations : List CommittedEntityMutation} (h : BlockHolds codec block mutations) :
    extractBlockMutations codec (.ok block) = .ok mutations := by
  obtain ⟨operations, lists, hoperations, hheld, rfl⟩ := h
  have hall : operationsMutations codec block operations = .ok lists.flatten := by
    clear hoperations
    induction hheld with
    | nil => rfl
    | cons hfirst hrest ih =>
      rw [operationsMutations, hfirst.extracted, ok_bind, ih]
      rfl
  rw [extractBlockMutations, liftError_ok, ok_bind, hoperations, liftError_ok, ok_bind, hall]

theorem ChainHolds.extracted {codec : Codec} {blocks : List DataBlock}
    {mutations : List CommittedEntityMutation} (h : ChainHolds codec blocks mutations) :
    extractMutations codec (blocks.map .ok) = .ok mutations := by
  obtain ⟨lists, hheld, rfl⟩ := h
  induction hheld with
  | nil => rfl
  | cons hfirst hrest ih =>
    rw [List.map_cons, extractMutations, hfirst.extracted, ok_bind, ih]
    rfl

/-- The iterator yields the mutations of the chain, in the order of their keys. -/
theorem mutationIterator_sorted (env : Env) {chainStore : DirectoryChainStore}
    {blocks : List DataBlock} {committed : List CommittedEntityMutation}
    (hchain : Holds chainStore blocks) (hcommitted : ChainHolds env.codec blocks committed)
    (hwrites : ∀ m ∈ committed, env.codec.Writes m) :
    ∃ mutations, ChainEntityMutationIterator.new env chainStore = .ok mutations ∧
      mutations.Perm committed ∧
      mutations.Pairwise fun a b => SortableMutation.key a ≤ SortableMutation.key b := by
  have hlawful := SortableMutation.sortable_lawful env.codec committed hwrites
  have hblocks := hchain.blocksIter_zero
  refine ⟨_, ?_, env.sorter.perm _ committed hlawful, ?_⟩
  · rw [ChainEntityMutationIterator.new, hblocks, hcommitted.extracted, ok_bind]
    rfl
  · have hsorted := env.sorter.sorted _ committed hlawful
    exact hsorted.imp fun hab => (SortableMutation.compare_ne_gt_iff _ _).mp hab

end Held

end Exocore.Store.Export
