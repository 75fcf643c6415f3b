import Mathlib.Data.List.Sort
import Mathlib.Tactic

/-! A sort that may write its items out and read them back, and what is cut out of a sorted list by
the keys of its items. -/
namespace Spilled

/-! ## Items that are written one behind the other -/

inductive Decoded (A B : Type) where
  | finished
  | panicked
  | item (a : A) (rest : List B)

/-- How items are written, read and compared. -/
structure Sortable (A B : Type) where
  encode : A → List B
  decode : List B → Decoded A B
  compare : A → A → Ordering

namespace Sortable
variable {A B : Type}

def Below (c : Sortable A B) (a b : A) : Prop := c.compare a b ≠ .gt

instance (c : Sortable A B) : DecidableRel c.Below := fun a b =>
  inferInstanceAs (Decidable (c.compare a b ≠ .gt))

/-- What is written of these items reads back whatever is written behind it, and the comparison is
an order. -/
structure Lawful (c : Sortable A B) (l : List A) : Prop where
  finishes : c.decode [] = .finished
  readsBack : ∀ a ∈ l, ∀ rest, c.decode (c.encode a ++ rest) = .item a rest
  total : ∀ a b, c.Below a b ∨ c.Below b a
  trans : ∀ a b d, c.Below a b → c.Below b d → c.Below a d

def decodeAll (c : Sortable A B) : ℕ → List B → List A
  | 0, _ => []
  | fuel + 1, data => match c.decode data with
    | .item a rest => a :: decodeAll c fuel rest
    | _ => []

theorem decodeAll_encoded {c : Sortable A B} (l : List A)
    (h : ∀ a ∈ l, ∀ rest, c.decode (c.encode a ++ rest) = .item a rest) :
    c.decodeAll l.length (l.flatMap c.encode) = l := by
  induction l with
  | nil => rfl
  | cons a l ih =>
    rw [List.flatMap_cons, List.length_cons, decodeAll, h a List.mem_cons_self]
    exact congrArg (List.cons a) (ih fun b hb => h b (List.mem_cons_of_mem a hb))

end Sortable

/-- A sort of whatever items it knows how to write and to compare. -/
structure ExternalSorter (B : Type) where
  sortBy : {A : Type} → Sortable A B → List A → List A
  perm : ∀ {A : Type} (c : Sortable A B) (l : List A), c.Lawful l → (sortBy c l).Perm l
  sorted : ∀ {A : Type} (c : Sortable A B) (l : List A), c.Lawful l →
    (sortBy c l).Pairwise c.Below

/-- The sort that has written all items out before it merges them. -/
def spillingSorter (B : Type) : ExternalSorter B where
  sortBy c l := (c.decodeAll l.length (l.flatMap c.encode)).mergeSort fun a b => c.Below a b
  perm c l h := by
    rw [Sortable.decodeAll_encoded l h.readsBack]
    exact List.mergeSort_perm l _
  sorted c l h := by
    rw [Sortable.decodeAll_encoded l h.readsBack]
    have hsorted := @List.pairwise_mergeSort _ (fun a b => decide (c.Below a b))
      (fun a b d hab hbd => decide_eq_true
        (h.trans a b d (of_decide_eq_true hab) (of_decide_eq_true hbd)))
      (fun a b => by
        rw [Bool.or_eq_true, decide_eq_true_iff, decide_eq_true_iff]
        exact h.total a b) l
    exact hsorted.imp fun hab => of_decide_eq_true hab

/-! ## Runs of one key -/

/-- What is taken from the front is none of the items that are looked for. -/
theorem filter_dropWhile {A : Type} (p q : A → Bool) (h : ∀ x, p x = true → q x = false)
    (l : List A) : (l.dropWhile p).filter q = l.filter q := by
  induction l with
  | nil => rfl
  | cons b l ih =>
    by_cases hb : p b = true
    · have hother : ¬ q b = true := by
        rw [h b hb]
        exact Bool.false_ne_true
      rw [List.dropWhile_cons_of_pos hb, List.filter_cons_of_neg hother, ih]
    · rw [List.dropWhile_cons_of_neg hb]

section Keys
variable {A K : Type} [LinearOrder K] (key : A → K)

/-- In a list that is sorted by its keys, the items with the key of the first one are at the front,
and those behind them have larger keys. -/
theorem span_key (k : K) (p : A → Bool) (hp : ∀ x, p x = true ↔ key x = k) (l : List A)
    (h : l.Pairwise fun x y => key x ≤ key y) (hfront : ∀ x ∈ l, k ≤ key x) :
    l.takeWhile p = l.filter p ∧ ∀ x ∈ l.dropWhile p, k < key x := by
  induction l with
  | nil => exact ⟨rfl, fun x hx => absurd hx List.not_mem_nil⟩
  | cons b l ih =>
    obtain ⟨hb, hrest⟩ := List.pairwise_cons.mp h
    obtain ⟨htake, hdrop⟩ := ih hrest fun x hx => hfront x (List.mem_cons_of_mem b hx)
    by_cases hkey : p b = true
    · rw [List.takeWhile_cons_of_pos hkey, List.filter_cons_of_pos hkey,
        List.dropWhile_cons_of_pos hkey, htake]
      exact ⟨rfl, hdrop⟩
    · have hne : key b ≠ k := fun heq => hkey ((hp b).mpr heq)
      have hlt : k < key b := lt_of_le_of_ne (hfront b List.mem_cons_self) (Ne.symm hne)
      -- nothing further back has the key again
      have hlater : ∀ x ∈ b :: l, k < key x := by
        intro x hx
        rcases List.mem_cons.mp hx with rfl | hx
        · exact hlt
        · exact hlt.trans_le (hb x hx)
      have hnone : (b :: l).filter p = [] := by
        rw [List.filter_eq_nil_iff]
        intro x hx hpx
        exact absurd ((hp x).mp hpx) (ne_of_gt (hlater x hx))
      rw [List.takeWhile_cons_of_neg hkey, List.dropWhile_cons_of_neg hkey, hnone]
      exact ⟨rfl, hlater⟩

end Keys

end Spilled
