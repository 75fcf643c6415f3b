import Mathlib.Data.List.Sort
import Mathlib.Tactic

/-! Sorting with a comparison that need not be an order, and iteration in an unknown order. -/
namespace Sorting

/-- The comparison puts `a` before `b`, whichever way it is asked. -/
def Before {A : Type} (cmp : A → A → Ordering) (a b : A) : Prop := cmp a b = .lt ∧ cmp b a = .gt

instance {A : Type} (cmp : A → A → Ordering) : DecidableRel (Before cmp) := fun _ _ =>
  inferInstanceAs (Decidable (_ ∧ _))

/-- `sort_by` of a standard library. Where the comparison orders the elements strictly the
result is in that order; elsewhere it is any permutation, or a panic. -/
structure Sorter (A : Type) (cmp : A → A → Ordering) where
  sort : List A → Option (List A)
  perm : ∀ l r, sort l = some r → r.Perm l
  sorted : ∀ l, (∃ r : List A, r.Perm l ∧ r.Pairwise (Before cmp)) →
    ∃ r, sort l = some r ∧ r.Pairwise (Before cmp)

theorem Before.asymm {A : Type} {cmp : A → A → Ordering} {a b : A} (hab : Before cmp a b) :
    ¬ Before cmp b a := by
  intro hba
  have hlt := hab.1
  rw [hba.2] at hlt
  contradiction

/-- The same elements have one sorted order. -/
theorem sorted_unique {A : Type} (cmp : A → A → Ordering) (l l' : List A) (h : l.Perm l')
    (hl : l.Pairwise (Before cmp)) (hl' : l'.Pairwise (Before cmp)) : l = l' :=
  List.Perm.eq_of_pairwise (fun _ _ _ _ hab hba => absurd hba hab.asymm) hl hl' h

/-- Elements that have a sorted order are ordered transitively. -/
theorem before_trans_of_pairwise {A : Type} (cmp : A → A → Ordering) (r : List A)
    (h : r.Pairwise (Before cmp)) (a : A) (ha : a ∈ r) (b : A) (hb : b ∈ r) (c : A) (hc : c ∈ r)
    (hab : Before cmp a b) (hbc : Before cmp b c) : Before cmp a c := by
  induction r with
  | nil => contradiction
  | cons x rest ih =>
    obtain ⟨hhead, hrest⟩ := List.pairwise_cons.mp h
    -- nothing comes before the head
    have hfirst (y : A) (hy : y ∈ x :: rest) : ¬ Before cmp y x := by
      intro hyx
      rcases List.mem_cons.mp hy with rfl | hy
      · exact hyx.asymm hyx
      · exact (hhead y hy).asymm hyx
    have hb' : b ∈ rest := (List.mem_cons.mp hb).resolve_left fun heq => hfirst a ha (heq ▸ hab)
    have hc' : c ∈ rest := (List.mem_cons.mp hc).resolve_left fun heq => hfirst b hb (heq ▸ hbc)
    rcases List.mem_cons.mp ha with rfl | ha
    · exact hhead c hc'
    · exact ih hrest ha hb' hc'

/-- Elements that the comparison orders strictly among each other have a sorted order. -/
theorem exists_sorted {A : Type} (cmp : A → A → Ordering) (l : List A)
    (htotal : l.Pairwise fun a b => Before cmp a b ∨ Before cmp b a)
    (htrans : ∀ a ∈ l, ∀ b ∈ l, ∀ c ∈ l, Before cmp a b → Before cmp b c → Before cmp a c) :
    ∃ r : List A, r.Perm l ∧ r.Pairwise (Before cmp) := by
  induction l with
  | nil => exact ⟨[], .refl _, .nil⟩
  | cons a rest ih =>
    obtain ⟨hhead, hrest⟩ := List.pairwise_cons.mp htotal
    obtain ⟨r, hperm, hsorted⟩ := ih hrest fun x hx y hy z hz =>
      htrans x (List.mem_cons_of_mem _ hx) y (List.mem_cons_of_mem _ hy) z (List.mem_cons_of_mem _ hz)
    have hmem (x : A) (hx : x ∈ r) : x ∈ a :: rest := List.mem_cons_of_mem _ (hperm.mem_iff.mp hx)
    -- the element goes between those before it and those after it
    refine ⟨r.filter (fun x => Before cmp x a) ++ a :: r.filter (fun x => !decide (Before cmp x a)),
      ?_, ?_⟩
    · exact List.perm_middle.trans ((List.filter_append_perm _ r).trans hperm |>.cons a)
    · rw [List.pairwise_append, List.pairwise_cons]
      have hafter : ∀ y ∈ r.filter (fun x => !decide (Before cmp x a)), Before cmp a y := by
        intro y hy
        obtain ⟨hy, hnot⟩ := List.mem_filter.mp hy
        rw [Bool.not_eq_true', decide_eq_false_iff_not] at hnot
        exact (hhead y (hperm.mem_iff.mp hy)).resolve_right hnot
      refine ⟨hsorted.sublist List.filter_sublist, ⟨hafter, hsorted.sublist List.filter_sublist⟩, ?_⟩
      intro x hx y hy
      obtain ⟨hx, hbefore⟩ := List.mem_filter.mp hx
      have hxa : Before cmp x a := of_decide_eq_true hbefore
      rcases List.mem_cons.mp hy with rfl | hy
      · exact hxa
      · exact htrans x (hmem x hx) a List.mem_cons_self y (hmem y (List.mem_filter.mp hy).1) hxa
          (hafter y hy)

/-- The order in which a hash table gives its keys. -/
structure HashOrder where
  order : List ℕ → List ℕ
  perm : ∀ l, (order l).Perm l

def HashOrder.same : HashOrder := ⟨id, fun _ => .refl _⟩

@[simp] theorem HashOrder.mem_order (h : HashOrder) (l : List ℕ) (x : ℕ) :
    x ∈ h.order l ↔ x ∈ l := (h.perm l).mem_iff

/-- The order in which a hash table gives its values. -/
structure ValuesOrder (A : Type) where
  order : List A → List A
  perm : ∀ l, (order l).Perm l

def ValuesOrder.same {A : Type} : ValuesOrder A := ⟨id, fun _ => .refl _⟩

@[simp] theorem ValuesOrder.mem_order {A : Type} (h : ValuesOrder A) (l : List A) (x : A) :
    x ∈ h.order l ↔ x ∈ l := (h.perm l).mem_iff

/-- `max_by_key` of an iterator: the last of the greatest elements. -/
def maxByKey {A : Type} (key : A → ℕ) : List A → Option A
  | [] => none
  | a :: rest => some (rest.foldl (fun best b => if key b < key best then best else b) a)

theorem foldl_maxByKey_mem {A : Type} (key : A → ℕ) (l : List A) (a : A) :
    l.foldl (fun best b => if key b < key best then best else b) a ∈ a :: l := by
  induction l generalizing a with
  | nil => exact List.mem_singleton_self a
  | cons b rest ih =>
    have h := ih (if key b < key a then a else b)
    rw [List.foldl_cons]
    rw [List.mem_cons] at h ⊢
    rcases h with h | h
    · rw [h]
      split_ifs <;> simp
    · exact Or.inr (List.mem_cons_of_mem b h)

theorem maxByKey_mem {A : Type} (key : A → ℕ) (l : List A) (a : A)
    (h : maxByKey key l = some a) : a ∈ l := by
  cases l with
  | nil => simp [maxByKey] at h
  | cons b rest =>
    obtain rfl := Option.some.inj h
    exact foldl_maxByKey_mem key rest b

theorem foldl_maxByKey_le {A : Type} (key : A → ℕ) (l : List A) (a b : A) (hb : b ∈ a :: l) :
    key b ≤ key (l.foldl (fun best b => if key b < key best then best else b) a) := by
  induction l generalizing a b with
  | nil => rw [List.mem_singleton.mp hb, List.foldl_nil]
  | cons c rest ih =>
    rw [List.foldl_cons]
    -- the greater of the first two stands for both
    have hstep := ih (if key c < key a then a else c) _ List.mem_cons_self
    rcases List.mem_cons.mp hb with rfl | hb
    · refine le_trans ?_ hstep
      split_ifs <;> omega
    · rcases List.mem_cons.mp hb with rfl | hb
      · refine le_trans ?_ hstep
        split_ifs <;> omega
      · exact ih _ b (List.mem_cons_of_mem _ hb)

theorem maxByKey_le {A : Type} (key : A → ℕ) (l : List A) (a b : A)
    (h : maxByKey key l = some a) (hb : b ∈ l) : key b ≤ key a := by
  cases l with
  | nil => contradiction
  | cons c rest =>
    obtain rfl := Option.some.inj h
    exact foldl_maxByKey_le key rest c b hb

/-- A sorter that tries the permutations one after the other. -/
def searchSorter {A : Type} (cmp : A → A → Ordering) : Sorter A cmp where
  sort l := some ((l.permutations.find? fun r => decide (r.Pairwise (Before cmp))).getD l)
  perm l r h := by
    obtain rfl := Option.some.inj h
    cases hfind : l.permutations.find? fun r => decide (r.Pairwise (Before cmp)) with
    | none => exact .refl _
    | some r => exact List.mem_permutations.mp (List.mem_of_find?_eq_some hfind)
  sorted l h := by
    obtain ⟨r, hperm, hr⟩ := h
    cases hfind : l.permutations.find? fun r => decide (r.Pairwise (Before cmp)) with
    | none =>
      have hnone := List.find?_eq_none.mp hfind r (List.mem_permutations.mpr hperm)
      exact absurd (decide_eq_true hr) hnone
    | some r' =>
      have hr' := List.find?_some hfind
      exact ⟨r', rfl, of_decide_eq_true hr'⟩

/-- Insertion into a list that is sorted the other way round. -/
theorem pairwise_orderedInsert {A : Type} (cmp : A → A → Ordering) (a : A) (l : List A)
    (htotal : ∀ b ∈ l, Before cmp a b ∨ Before cmp b a)
    (htrans : ∀ b ∈ l, ∀ c ∈ l, Before cmp b c → Before cmp c a → Before cmp b a)
    (h : l.Pairwise fun x y => Before cmp y x) :
    (l.orderedInsert (fun x y => cmp x y ≠ .lt) a).Pairwise fun x y => Before cmp y x := by
  induction l with
  | nil => exact List.pairwise_singleton _ a
  | cons b rest ih =>
    obtain ⟨hb, hrest⟩ := List.pairwise_cons.mp h
    rw [List.orderedInsert_cons]
    split
    · rename_i hge
      have hba : Before cmp b a :=
        (htotal b List.mem_cons_self).resolve_left fun hab => hge hab.1
      refine List.pairwise_cons.mpr ⟨?_, h⟩
      intro c hc
      rcases List.mem_cons.mp hc with rfl | hc
      · exact hba
      · exact htrans c (List.mem_cons_of_mem b hc) b List.mem_cons_self (hb c hc) hba
    · rename_i hlt
      have hab : Before cmp a b := by
        refine (htotal b List.mem_cons_self).resolve_right fun hba => hlt ?_
        rw [hba.2]
        decide
      refine List.pairwise_cons.mpr ⟨?_, ih ?_ ?_ hrest⟩
      · intro c hc
        rcases List.mem_cons.mp ((List.perm_orderedInsert _ a rest).mem_iff.mp hc) with rfl | hc
        · exact hab
        · exact hb c hc
      · exact fun c hc => htotal c (List.mem_cons_of_mem b hc)
      · exact fun c hc d hd => htrans c (List.mem_cons_of_mem b hc) d (List.mem_cons_of_mem b hd)

theorem pairwise_insertionSort {A : Type} (cmp : A → A → Ordering) (l : List A)
    (htotal : l.Pairwise fun a b => Before cmp a b ∨ Before cmp b a)
    (htrans : ∀ a ∈ l, ∀ b ∈ l, ∀ c ∈ l, Before cmp a b → Before cmp b c → Before cmp a c) :
    (l.insertionSort fun x y => cmp x y ≠ .lt).Pairwise fun x y => Before cmp y x := by
  induction l with
  | nil => exact .nil
  | cons a rest ih =>
    obtain ⟨hhead, hrest⟩ := List.pairwise_cons.mp htotal
    have hmem (b : A) (hb : b ∈ rest.insertionSort fun x y => cmp x y ≠ .lt) : b ∈ rest :=
      (List.perm_insertionSort _ rest).mem_iff.mp hb
    rw [List.insertionSort_cons]
    apply pairwise_orderedInsert
    · exact fun b hb => hhead b (hmem b hb)
    · exact fun b hb c hc => htrans b (List.mem_cons_of_mem a (hmem b hb)) c
        (List.mem_cons_of_mem a (hmem c hc)) a List.mem_cons_self
    · exact ih hrest fun x hx y hy z hz => htrans x (List.mem_cons_of_mem a hx) y
        (List.mem_cons_of_mem a hy) z (List.mem_cons_of_mem a hz)

/-- The sorter that puts one element after the other where it belongs among those before it, as
`sort_by` does with a short list. It looks at an element and the one before it only. -/
def insertionSorter {A : Type} (cmp : A → A → Ordering) : Sorter A cmp where
  sort l := some (l.reverse.insertionSort fun x y => cmp x y ≠ .lt).reverse
  perm l r h := by
    obtain rfl := Option.some.inj h
    exact (List.reverse_perm _).trans ((List.perm_insertionSort _ _).trans (List.reverse_perm l))
  sorted l h := by
    obtain ⟨r, hperm, hr⟩ := h
    refine ⟨_, rfl, List.pairwise_reverse.mpr (pairwise_insertionSort cmp l.reverse ?_ ?_)⟩
    · have hsymm : ∀ {a b : A}, Before cmp a b ∨ Before cmp b a → Before cmp b a ∨ Before cmp a b :=
        Or.symm
      exact ((hperm.trans (List.reverse_perm l).symm).pairwise_iff hsymm).mp
        (hr.imp Or.inl)
    · intro a ha b hb c hc
      have hmem (x : A) (hx : x ∈ l.reverse) : x ∈ r :=
        hperm.mem_iff.mpr (List.mem_reverse.mp hx)
      exact before_trans_of_pairwise cmp r hr a (hmem a ha) b (hmem b hb) c (hmem c hc)

end Sorting
