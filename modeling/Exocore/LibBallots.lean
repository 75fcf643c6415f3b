import Mathlib.Data.Finset.Card
import Mathlib.Tactic

/-! Votes of the members of a group on items that stand for slots. A member votes once on an
item, and signs a second item of a slot only if most members have refused one of the two. Then
no two items of a slot are signed by most members. -/
namespace Ballots

section Majorities
variable {Node : Type}

/-- More than half of the members. -/
def Majority (members : Finset Node) (p : Node → Prop) : Prop :=
  ∃ q : Finset Node, (∀ n ∈ q, n ∈ members ∧ p n) ∧ members.card < 2 * q.card

theorem Majority.mono {members : Finset Node} {p p' : Node → Prop} (h : Majority members p)
    (himp : ∀ n, p n → p' n) : Majority members p' := by
  obtain ⟨q, hq, hcard⟩ := h
  exact ⟨q, fun n hn => ⟨(hq n hn).1, himp n (hq n hn).2⟩, hcard⟩

/-- Two majorities have a member in common. -/
theorem Majority.meet [DecidableEq Node] {members : Finset Node} {p p' : Node → Prop}
    (h : Majority members p) (h' : Majority members p') : ∃ n ∈ members, p n ∧ p' n := by
  obtain ⟨q, hq, hcard⟩ := h
  obtain ⟨q', hq', hcard'⟩ := h'
  have hsub : q ⊆ members := fun n hn => (hq n hn).1
  have hsub' : q' ⊆ members := fun n hn => (hq' n hn).1
  obtain ⟨n, hn⟩ := Finset.inter_nonempty_of_card_lt_card_add_card hsub hsub' (by omega)
  obtain ⟨hnq, hnq'⟩ := Finset.mem_inter.mp hn
  exact ⟨n, hsub hnq, (hq n hnq).2, (hq' n hnq').2⟩

end Majorities

section Votes
variable {Node Item Slot : Type}

/-- The items that were proposed for each slot, and who has signed and who has refused them. -/
@[ext] structure Votes (Node Item Slot : Type) where
  proposed : Item → Slot → Prop
  signed : Node → Item → Prop
  refused : Node → Item → Prop

namespace Votes

def propose (v : Votes Node Item Slot) (x : Item) (slot : Slot) : Votes Node Item Slot :=
  { v with proposed := fun y a => v.proposed y a ∨ (y = x ∧ a = slot) }

def sign (v : Votes Node Item Slot) (n : Node) (x : Item) : Votes Node Item Slot :=
  { v with signed := fun m y => v.signed m y ∨ (m = n ∧ y = x) }

def refuse (v : Votes Node Item Slot) (n : Node) (x : Item) : Votes Node Item Slot :=
  { v with refused := fun m y => v.refused m y ∨ (m = n ∧ y = x) }

/-- Most members have refused the item. -/
def Lost (v : Votes Node Item Slot) (members : Finset Node) (x : Item) : Prop :=
  Majority members fun n => v.refused n x

structure Fair (members : Finset Node) (v : Votes Node Item Slot) : Prop where
  once : ∀ n x, v.signed n x → ¬ v.refused n x
  lost : ∀ n x y a, v.signed n x → v.signed n y → v.proposed x a → v.proposed y a → x ≠ y →
    v.Lost members x ∨ v.Lost members y

variable {members : Finset Node} {v : Votes Node Item Slot}

theorem Fair.propose (h : v.Fair members) (x : Item) (slot : Slot)
    (hnew : ∀ n, ¬ v.signed n x) : (v.propose x slot).Fair members := by
  refine ⟨h.once, ?_⟩
  intro n y z a hy hz hya hza hne
  have hold (w : Item) (hw : v.signed n w) (hwa : (v.propose x slot).proposed w a) :
      v.proposed w a := by
    rcases hwa with hwa | ⟨rfl, -⟩
    · exact hwa
    · exact absurd hw (hnew n)
  exact h.lost n y z a hy hz (hold y hy hya) (hold z hz hza) hne

theorem Fair.refuse (h : v.Fair members) (n : Node) (x : Item) (hnew : ¬ v.signed n x) :
    (v.refuse n x).Fair members := by
  have hmore (y : Item) (hy : v.Lost members y) : (v.refuse n x).Lost members y :=
    hy.mono fun m => Or.inl
  constructor
  · rintro m y hm (hold | ⟨rfl, rfl⟩)
    · exact h.once m y hm hold
    · exact hnew hm
  · intro m y z a hy hz hya hza hne
    exact (h.lost m y z a hy hz hya hza hne).imp (hmore y) (hmore z)

/-- A member that has signed other items of the slot signs one more when those are lost. -/
theorem Fair.sign (h : v.Fair members) (n : Node) (x : Item) (hnew : ¬ v.refused n x)
    (hothers : ∀ y a, v.signed n y → v.proposed y a → v.proposed x a → y ≠ x →
      v.Lost members y) : (v.sign n x).Fair members := by
  constructor
  · rintro m y (hold | ⟨rfl, rfl⟩)
    · exact h.once m y hold
    · exact hnew
  · rintro m y z a (hy | ⟨rfl, rfl⟩) (hz | ⟨hm, rfl⟩) hya hza hne
    · exact h.lost m y z a hy hz hya hza hne
    · subst hm
      exact Or.inl (hothers y a hy hya hza hne)
    · exact Or.inr (hothers z a hz hza hya hne.symm)
    · exact absurd rfl hne

/-- An item that most members have signed is the only one of its slot. -/
theorem Fair.agree [DecidableEq Node] (h : v.Fair members) (x y : Item) (a : Slot)
    (hx : Majority members fun n => v.signed n x) (hy : Majority members fun n => v.signed n y)
    (hxa : v.proposed x a) (hya : v.proposed y a) : x = y := by
  -- an item that is lost was refused by one of those who have signed it
  have hkept (z : Item) (hz : Majority members fun n => v.signed n z) : ¬ v.Lost members z := by
    intro hlost
    obtain ⟨n, -, hsigned, hrefused⟩ := hz.meet hlost
    exact h.once n z hsigned hrefused
  by_contra hne
  obtain ⟨n, -, hnx, hny⟩ := hx.meet hy
  rcases h.lost n x y a hnx hny hxa hya hne with hlost | hlost
  · exact hkept x hx hlost
  · exact hkept y hy hlost

end Votes

end Votes

end Ballots
