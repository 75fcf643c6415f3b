import Mathlib.Tactic

/-! Binary search over a list: what a search may be relied on for, whichever entries it looks at,
and the search that halves. -/
namespace Search

/-- The entries below come first, those above last. -/
def Sorted (l : List Ordering) : Prop :=
  l.Pairwise fun a b => (b = .lt → a = .lt) ∧ (a = .gt → b = .gt)

/-- A binary search sees how the entries compare. It never makes an entry up, and it finds one
where the comparison sorts the list; which of several it finds is its own choice, and so is what
it misses in a list that is not sorted. -/
class BinarySearcher where
  search : List Ordering → Option ℕ
  search_sound : ∀ l i, search l = some i → l[i]? = some .eq
  search_complete : ∀ l, Sorted l → .eq ∈ l → ∃ i, search l = some i

section Searches
variable [BinarySearcher] {α : Type}

def binarySearchBy (cmp : α → Ordering) (l : List α) : Option ℕ :=
  BinarySearcher.search (l.map cmp)

/-- The entries that compare below stand before the others, those above after. -/
def SortedFor (cmp : α → Ordering) (l : List α) : Prop :=
  l.Pairwise fun a b => (cmp b = .lt → cmp a = .lt) ∧ (cmp a = .gt → cmp b = .gt)

omit [BinarySearcher] in
/-- A list in the order of a key is sorted for the search of any key. -/
theorem sortedFor_key {β : Type} [LinearOrder β] (key : α → β) (k : β) (l : List α)
    (h : l.Pairwise fun a b => key a ≤ key b) : SortedFor (fun x => compare (key x) k) l := by
  apply h.imp
  intro a b hab
  constructor
  · intro hlt
    rw [compare_lt_iff_lt] at hlt ⊢
    exact hab.trans_lt hlt
  · intro hgt
    rw [compare_gt_iff_gt] at hgt ⊢
    exact hgt.trans_le hab

theorem binarySearchBy_sound (cmp : α → Ordering) (l : List α) (i : ℕ)
    (h : binarySearchBy cmp l = some i) : ∃ a, l[i]? = some a ∧ cmp a = .eq := by
  have hget := BinarySearcher.search_sound _ i h
  rwa [List.getElem?_map, Option.map_eq_some_iff] at hget

theorem binarySearchBy_complete (cmp : α → Ordering) (l : List α) (hs : SortedFor cmp l)
    (x : α) (hmem : x ∈ l) (hx : cmp x = .eq) : ∃ i, binarySearchBy cmp l = some i :=
  BinarySearcher.search_complete _ (List.pairwise_map.mpr hs)
    (hx ▸ List.mem_map_of_mem hmem)

end Searches

section Halving

/-- The search between two positions; the fuel bounds the number of halvings. -/
def halve (l : List Ordering) : ℕ → ℕ → ℕ → Option ℕ
  | 0, _, _ => none
  | fuel + 1, left, right =>
    if left < right then
      let mid := left + (right - left) / 2
      match l[mid]? with
      | none => none
      | some .eq => some mid
      | some .lt => halve l fuel (mid + 1) right
      | some .gt => halve l fuel left mid
    else none

theorem halve_sound (l : List Ordering) (fuel left right i : ℕ)
    (h : halve l fuel left right = some i) : l[i]? = some .eq := by
  induction fuel generalizing left right with
  | zero => contradiction
  | succ fuel ih =>
    unfold halve at h
    split_ifs at h with hlt
    simp only at h
    split at h
    · contradiction
    · rename_i heq
      rw [← Option.some.inj h]
      exact heq
    · exact ih _ _ h
    · exact ih _ _ h

theorem sorted_get (l : List Ordering) (hs : Sorted l) (i j : ℕ) (a b : Ordering)
    (hij : i < j) (hi : l[i]? = some a) (hj : l[j]? = some b) :
    (b = .lt → a = .lt) ∧ (a = .gt → b = .gt) := by
  obtain ⟨hil, rfl⟩ := List.getElem?_eq_some_iff.mp hi
  obtain ⟨hjl, rfl⟩ := List.getElem?_eq_some_iff.mp hj
  exact List.pairwise_iff_getElem.mp hs i j hil hjl hij

/-- The halving keeps every entry that compares equal between its bounds. -/
theorem halve_complete (l : List Ordering) (hs : Sorted l) (k : ℕ) (hk : l[k]? = some .eq)
    (fuel left right : ℕ) (hfuel : right - left ≤ fuel) (hleft : left ≤ k) (hright : k < right)
    (hlen : right ≤ l.length) : ∃ i, halve l fuel left right = some i := by
  induction fuel generalizing left right with
  | zero => omega
  | succ fuel ih =>
    have hlt : left < right := by omega
    set mid := left + (right - left) / 2 with hmid
    have hml : mid < l.length := by omega
    have hget : l[mid]? = some l[mid] := List.getElem?_eq_getElem hml
    rw [halve, if_pos hlt]
    simp only [← hmid, hget]
    cases hc : l[mid] with
    | eq => exact ⟨mid, rfl⟩
    | lt =>
      rw [hc] at hget
      have hkm : mid < k := by
        by_contra hle
        rcases Nat.lt_or_eq_of_le (Nat.le_of_not_lt hle) with hlt' | heq
        · have hbad := (sorted_get l hs k mid _ _ hlt' hk hget).1 rfl
          contradiction
        · rw [heq, hget] at hk
          contradiction
      exact ih (mid + 1) right (by omega) (by omega) hright hlen
    | gt =>
      rw [hc] at hget
      have hkm : k < mid := by
        by_contra hle
        rcases Nat.lt_or_eq_of_le (Nat.le_of_not_lt hle) with hlt' | heq
        · have hbad := (sorted_get l hs mid k _ _ hlt' hget hk).2 rfl
          contradiction
        · rw [← heq, hget] at hk
          contradiction
      exact ih left mid (by omega) hleft hkm (by omega)

theorem halve_found (l : List Ordering) (hs : Sorted l) (hmem : .eq ∈ l) :
    ∃ i, halve l l.length 0 l.length = some i := by
  obtain ⟨k, hk⟩ := List.mem_iff_getElem?.mp hmem
  have hkl : k < l.length := (List.getElem?_eq_some_iff.mp hk).1
  exact halve_complete l hs k hk l.length 0 l.length (by omega) (by omega) hkl le_rfl

/-- The search that looks at the middle and goes on in one half. -/
@[reducible] def halving : BinarySearcher where
  search l := halve l l.length 0 l.length
  search_sound l i h := halve_sound l _ _ _ i h
  search_complete := halve_found

end Halving

end Search
