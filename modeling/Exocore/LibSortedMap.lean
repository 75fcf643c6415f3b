import Mathlib.Data.List.Sort
import Mathlib.Tactic

/-! Maps as strictly sorted lists of entries. The order is carried by the map,
so that two maps with the same bindings are equal and iteration is in key order. -/
namespace SortedMap

structure Map (K V : Type) [LinearOrder K] where
  entries : List (K × V)
  sorted : entries.Pairwise (fun a b => a.1 < b.1)
deriving DecidableEq

section Entries
variable {K V : Type} [LinearOrder K]

def find (k : K) : List (K × V) → Option V
  | [] => none
  | (k', v) :: l => if k = k' then some v else find k l

def insertEntry (k : K) (v : V) : List (K × V) → List (K × V)
  | [] => [(k, v)]
  | (k', v') :: l =>
    if k < k' then (k, v) :: (k', v') :: l
    else if k = k' then (k, v) :: l
    else (k', v') :: insertEntry k v l

theorem mem_insertEntry (k : K) (v : V) (l : List (K × V)) (e : K × V)
    (he : e ∈ insertEntry k v l) : e = (k, v) ∨ e ∈ l := by
  induction l with
  | nil => simpa [insertEntry] using he
  | cons a l ih =>
    obtain ⟨k', v'⟩ := a
    simp only [insertEntry] at he
    split_ifs at he <;> simp only [List.mem_cons] at he ⊢ <;> grind

theorem insertEntry_sorted (k : K) (v : V) (l : List (K × V))
    (hl : l.Pairwise (fun a b => a.1 < b.1)) :
    (insertEntry k v l).Pairwise (fun a b => a.1 < b.1) := by
  induction l with
  | nil => simp [insertEntry]
  | cons a l ih =>
    obtain ⟨k', v'⟩ := a
    obtain ⟨ha, hl'⟩ := List.pairwise_cons.mp hl
    simp only [insertEntry]
    split_ifs with hlt heq
    · refine List.pairwise_cons.mpr ⟨fun e he => ?_, hl⟩
      rcases List.mem_cons.mp he with rfl | he
      · exact hlt
      · exact hlt.trans (ha e he)
    · subst heq
      exact List.pairwise_cons.mpr ⟨ha, hl'⟩
    · refine List.pairwise_cons.mpr ⟨fun e he => ?_, ih hl'⟩
      rcases mem_insertEntry k v l e he with rfl | he
      · exact lt_of_le_of_ne (not_lt.mp hlt) (Ne.symm heq)
      · exact ha e he

theorem find_insertEntry (k k' : K) (v : V) (l : List (K × V)) :
    find k' (insertEntry k v l) = if k' = k then some v else find k' l := by
  induction l with
  | nil => simp [insertEntry, find]
  | cons a l ih =>
    obtain ⟨k₀, v₀⟩ := a
    simp only [insertEntry]
    split_ifs with hlt heq hk hk <;> simp_all [find]

theorem find_eq_some_iff (l : List (K × V)) (hl : l.Pairwise (fun a b => a.1 < b.1))
    (k : K) (v : V) : find k l = some v ↔ (k, v) ∈ l := by
  induction l with
  | nil => simp [find]
  | cons a l ih =>
    obtain ⟨k', v'⟩ := a
    obtain ⟨ha, hl'⟩ := List.pairwise_cons.mp hl
    simp only [find, List.mem_cons, Prod.mk.injEq]
    split_ifs with hk
    · subst hk
      constructor
      · intro h
        exact Or.inl ⟨rfl, (Option.some.inj h).symm⟩
      · rintro (⟨_, rfl⟩ | h)
        · rfl
        · exact absurd (ha _ h) (lt_irrefl _)
    · simp [ih hl', hk]

theorem find_filter (l : List (K × V)) (hl : l.Pairwise (fun a b => a.1 < b.1))
    (p : K → Bool) (k : K) :
    find k (l.filter (fun e => p e.1)) = if p k then find k l else none := by
  apply Option.ext
  intro v
  rw [find_eq_some_iff _ (hl.filter _), List.mem_filter]
  split_ifs with hp
  · simp [hp, find_eq_some_iff l hl]
  · simp [hp]

end Entries

namespace Map
variable {K V : Type} [LinearOrder K]

def empty : Map K V := ⟨[], List.Pairwise.nil⟩

def get (m : Map K V) (k : K) : Option V := find k m.entries

def insert (m : Map K V) (k : K) (v : V) : Map K V :=
  ⟨insertEntry k v m.entries, insertEntry_sorted k v m.entries m.sorted⟩

def filterKeys (m : Map K V) (p : K → Bool) : Map K V :=
  ⟨m.entries.filter (fun e => p e.1), m.sorted.filter _⟩

def erase (m : Map K V) (k : K) : Map K V := m.filterKeys (fun k' => decide (k' ≠ k))

def keys (m : Map K V) : List K := m.entries.map Prod.fst

def values (m : Map K V) : List V := m.entries.map Prod.snd

def size (m : Map K V) : ℕ := m.entries.length

@[simp] theorem get_empty (k : K) : (empty : Map K V).get k = none := rfl

@[simp] theorem get_insert (m : Map K V) (k k' : K) (v : V) :
    (m.insert k v).get k' = if k' = k then some v else m.get k' :=
  find_insertEntry k k' v m.entries

@[simp] theorem get_filterKeys (m : Map K V) (p : K → Bool) (k : K) :
    (m.filterKeys p).get k = if p k then m.get k else none :=
  find_filter m.entries m.sorted p k

@[simp] theorem get_erase (m : Map K V) (k k' : K) :
    (m.erase k).get k' = if k' = k then none else m.get k' := by
  simp only [erase, get_filterKeys, decide_eq_true_eq]
  split_ifs <;> simp_all

theorem mem_entries_iff (m : Map K V) (k : K) (v : V) :
    (k, v) ∈ m.entries ↔ m.get k = some v :=
  (find_eq_some_iff m.entries m.sorted k v).symm

theorem mem_keys_iff (m : Map K V) (k : K) : k ∈ m.keys ↔ ∃ v, m.get k = some v := by
  simp only [keys, List.mem_map, Prod.exists, exists_and_right, exists_eq_right, mem_entries_iff]

theorem mem_values_iff (m : Map K V) (v : V) : v ∈ m.values ↔ ∃ k, m.get k = some v := by
  simp only [values, List.mem_map, Prod.exists, exists_eq_right, mem_entries_iff]

theorem keys_sorted (m : Map K V) : m.keys.Pairwise (· < ·) :=
  List.pairwise_map.mpr m.sorted

/-- A map is determined by its bindings. -/
theorem ext_get (m n : Map K V) (h : ∀ k, m.get k = n.get k) : m = n := by
  have hmem : ∀ e, e ∈ m.entries ↔ e ∈ n.entries := by
    rintro ⟨k, v⟩
    rw [mem_entries_iff, mem_entries_iff, h k]
  have hnodup (m : Map K V) : m.entries.Nodup :=
    m.sorted.imp (fun h he => absurd (congrArg Prod.fst he) (ne_of_lt h))
  have hperm : m.entries.Perm n.entries :=
    (List.perm_ext_iff_of_nodup (hnodup m) (hnodup n)).mpr hmem
  have heq : m.entries = n.entries :=
    List.Perm.eq_of_pairwise (fun a b _ _ hab hba => absurd hab (lt_asymm hba))
      m.sorted n.sorted hperm
  cases m
  cases n
  simpa using heq

theorem eq_empty_iff (m : Map K V) : m = empty ↔ m.entries = [] := by
  constructor
  · rintro rfl
    rfl
  · intro h
    cases m
    simp only at h
    subst h
    rfl

/-- The same keys, each with a value made from its own. -/
def mapValues (m : Map K V) (f : K → V → V) : Map K V :=
  ⟨m.entries.map (fun e => (e.1, f e.1 e.2)), List.pairwise_map.mpr m.sorted⟩

@[simp] theorem get_mapValues (m : Map K V) (f : K → V → V) (k : K) :
    (m.mapValues f).get k = (m.get k).map (f k) := by
  apply Option.ext
  intro v
  rw [← mem_entries_iff, mapValues, Option.map_eq_some_iff]
  simp only [List.mem_map, Prod.exists, Prod.mk.injEq]
  constructor
  · rintro ⟨k', v', hmem, rfl, rfl⟩
    exact ⟨v', (mem_entries_iff m k' v').mp hmem, rfl⟩
  · rintro ⟨v', hget, rfl⟩
    exact ⟨k, v', (mem_entries_iff m k v').mpr hget, rfl, rfl⟩

theorem keys_mapValues (m : Map K V) (f : K → V → V) : (m.mapValues f).keys = m.keys := by
  simp only [keys, mapValues, List.map_map]
  rfl

theorem keys_nodup (m : Map K V) : m.keys.Nodup :=
  m.keys_sorted.imp fun h => ne_of_lt h

section KeySet

/-- The keys as a set, for counting. -/
def keySet (m : Map K V) : Finset K := m.keys.toFinset

theorem mem_keySet_iff (m : Map K V) (k : K) : k ∈ m.keySet ↔ ∃ v, m.get k = some v := by
  rw [keySet, List.mem_toFinset, mem_keys_iff]

theorem card_keySet (m : Map K V) : m.keySet.card = m.size := by
  rw [keySet, List.toFinset_card_of_nodup m.keys_nodup, keys, List.length_map, size]

theorem keySet_insert (m : Map K V) (k : K) (v : V) :
    (m.insert k v).keySet = Insert.insert k m.keySet := by
  ext k'
  rw [Finset.mem_insert, mem_keySet_iff, mem_keySet_iff, get_insert]
  split_ifs with h
  · exact iff_of_true ⟨v, rfl⟩ (Or.inl h)
  · exact (or_iff_right h).symm

theorem keySet_erase (m : Map K V) (k : K) : (m.erase k).keySet = m.keySet.erase k := by
  ext k'
  rw [Finset.mem_erase, mem_keySet_iff, mem_keySet_iff, get_erase]
  split_ifs with h
  · simp [h]
  · exact (and_iff_right h).symm

theorem keySet_mapValues (m : Map K V) (f : K → V → V) : (m.mapValues f).keySet = m.keySet := by
  rw [keySet, keySet, keys_mapValues]

end KeySet

end Map
end SortedMap
