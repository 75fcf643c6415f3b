import Mathlib.Data.List.Sort
import Mathlib.Data.Multiset.AddSub
import Mathlib.Tactic

/-! Heaps that give out an item with the greatest key, whichever it is of those that have it. -/

/-- A heap, seen through the items that it holds. -/
structure MaxHeap (E S : Type*) [LinearOrder S] (key : E → S) where
  Heap : Type*
  empty : Heap
  push : E → Heap → Heap
  pop : Heap → Option (E × Heap)
  items : Heap → Multiset E
  items_empty : items empty = 0
  items_push : ∀ a h, items (push a h) = a ::ₘ items h
  pop_none : ∀ h, pop h = none → items h = 0
  pop_some : ∀ h a h', pop h = some (a, h') →
    items h = a ::ₘ items h' ∧ ∀ b ∈ items h', key b ≤ key a

namespace MaxHeap

variable {E S : Type*} [LinearOrder S] {key : E → S}

theorem pop_card (heap : MaxHeap E S key) (h h' : heap.Heap) (a : E)
    (hpop : heap.pop h = some (a, h')) : (heap.items h').card < (heap.items h).card := by
  rw [(heap.pop_some h a h' hpop).1, Multiset.card_cons]
  exact Nat.lt_succ_self _

/-- A list from the greatest key on is a heap. -/
@[reducible] def sorted (key : E → S) : MaxHeap E S key where
  Heap := { items : List E // items.Pairwise fun a b => key b ≤ key a }
  empty := ⟨[], List.Pairwise.nil⟩
  push a h :=
    have : Std.Total fun a b : E => key b ≤ key a := ⟨fun a b => le_total (key b) (key a)⟩
    have : IsTrans E fun a b : E => key b ≤ key a := ⟨fun _ _ _ hab hbc => le_trans hbc hab⟩
    ⟨h.val.orderedInsert (fun a b => key b ≤ key a) a, h.property.orderedInsert a h.val⟩
  pop h := match h with
    | ⟨[], _⟩ => none
    | ⟨a :: items, hitems⟩ => some (a, ⟨items, (List.pairwise_cons.mp hitems).2⟩)
  items h := h.val
  items_empty := rfl
  items_push a h := Multiset.coe_eq_coe.mpr (List.perm_orderedInsert _ a h.val)
  pop_none h hpop := by
    obtain ⟨items, hitems⟩ := h
    cases items with
    | nil => rfl
    | cons a items => cases hpop
  pop_some h a h' hpop := by
    obtain ⟨items, hitems⟩ := h
    cases items with
    | nil => cases hpop
    | cons b items =>
      cases hpop
      exact ⟨rfl, (List.pairwise_cons.mp hitems).1⟩

end MaxHeap
