import Mathlib.Data.Fintype.Card
import Mathlib.Data.Finite.Defs
import Mathlib.Data.List.Basic
import Mathlib.Logic.Relation
import Mathlib.Order.WellFounded
import Mathlib.Tactic

/-! Recursions that go as deep as a relation does, with fuel for the depth: they end everywhere
exactly where the relation does not lead back; and folds whose steps may fail. -/
namespace Nested

/-! ## Folds whose steps may fail -/

section Folds
variable {A S : Type} {f : S → A → Option S}

theorem foldlM_invariant {I : S → Prop} (l : List A)
    (hstep : ∀ a ∈ l, ∀ s s', I s → f s a = some s' → I s') {s s' : S} (hs : I s)
    (hrun : l.foldlM f s = some s') : I s' := by
  induction l generalizing s with
  | nil =>
    rw [List.foldlM_nil] at hrun
    exact Option.some.inj hrun ▸ hs
  | cons a l ih =>
    rw [List.foldlM_cons] at hrun
    obtain ⟨mid, hfirst, hrest⟩ := Option.bind_eq_some_iff.mp hrun
    have hmid : I mid := hstep a List.mem_cons_self s mid hs hfirst
    exact ih (fun b hb => hstep b (List.mem_cons_of_mem a hb)) hmid hrest

/-- Where it does not depend on the state whether a step fails, neither does it for the fold. -/
theorem foldlM_isSome_iff {P : A → Prop} (l : List A)
    (hstep : ∀ a ∈ l, ∀ s, (f s a).isSome ↔ P a) (s : S) :
    (l.foldlM f s).isSome ↔ ∀ a ∈ l, P a := by
  induction l generalizing s with
  | nil =>
    rw [List.foldlM_nil]
    exact iff_of_true rfl fun a ha => absurd ha List.not_mem_nil
  | cons a l ih =>
    have hfirst := hstep a List.mem_cons_self s
    rw [List.foldlM_cons, List.forall_mem_cons, ← hfirst]
    cases hmid : f s a with
    | none => exact iff_of_false Bool.false_ne_true fun h => Bool.false_ne_true h.1
    | some mid =>
      have hrest := ih (fun b hb => hstep b (List.mem_cons_of_mem a hb)) mid
      exact hrest.trans ⟨fun h => ⟨rfl, h⟩, fun h => h.2⟩

end Folds

/-! ## Fuel for the depth -/

/-- A bound for each member of a list is one for all. -/
theorem exists_common {A : Type} {P : ℕ → A → Prop} (hmono : ∀ n a, P n a → P (n + 1) a)
    (l : List A) (h : ∀ a ∈ l, ∃ n, P n a) : ∃ n, ∀ a ∈ l, P n a := by
  have hle (m n : ℕ) (hmn : m ≤ n) (a : A) (ha : P m a) : P n a := by
    induction n, hmn using Nat.le_induction with
    | base => exact ha
    | succ n _ ih => exact hmono n a ih
  induction l with
  | nil => exact ⟨0, fun a ha => absurd ha List.not_mem_nil⟩
  | cons a l ih =>
    obtain ⟨m, hm⟩ := h a List.mem_cons_self
    obtain ⟨n, hn⟩ := ih fun b hb => h b (List.mem_cons_of_mem a hb)
    refine ⟨max m n, fun b hb => ?_⟩
    rcases List.mem_cons.mp hb with rfl | hb
    · exact hle m (max m n) (le_max_left m n) b hm
    · exact hle n (max m n) (le_max_right m n) b (hn b hb)

section Depth
variable {A : Type} {leads : A → A → Prop} {ends : ℕ → A → Prop}

theorem not_cyclic_of_ends (hzero : ∀ a b, ends 0 a → ¬ leads a b)
    (hsucc : ∀ n a, ends (n + 1) a ↔ ∀ b, leads a b → ends n b) (n : ℕ) (a : A) (h : ends n a) :
    ¬ Relation.TransGen leads a a := by
  induction n generalizing a with
  | zero =>
    intro hcycle
    obtain ⟨b, hb, -⟩ := Relation.TransGen.head'_iff.mp hcycle
    exact hzero a b h hb
  | succ n ih =>
    intro hcycle
    obtain ⟨b, hb, hback⟩ := Relation.TransGen.head'_iff.mp hcycle
    -- the cycle goes through the next one as well, which has less fuel
    exact ih b ((hsucc n a).mp h b hb) (Relation.TransGen.tail' hback hb)

theorem ends_succ (hzero : ∀ a b, ends 0 a → ¬ leads a b)
    (hsucc : ∀ n a, ends (n + 1) a ↔ ∀ b, leads a b → ends n b) (n : ℕ) (a : A) (h : ends n a) :
    ends (n + 1) a := by
  induction n generalizing a with
  | zero => exact (hsucc 0 a).mpr fun b hb => absurd hb (hzero a b h)
  | succ n ih => exact (hsucc (n + 1) a).mpr fun b hb => ih b ((hsucc n a).mp h b hb)

/-- Among finitely many, where the relation does not lead back, some fuel lasts for all. -/
theorem exists_ends_of_not_cyclic (hzero : ∀ a b, ends 0 a → ¬ leads a b)
    (hsucc : ∀ n a, ends (n + 1) a ↔ ∀ b, leads a b → ends n b) (l : List A)
    (hl : ∀ a b, leads a b → b ∈ l) (h : ∀ a, ¬ Relation.TransGen leads a a) :
    ∃ n, ∀ a ∈ l, ends n a := by
  classical
  let below (b a : {a // a ∈ l}) : Prop := Relation.TransGen leads a.1 b.1
  have hfinite : Finite {a // a ∈ l} := List.finite_toSet l
  have htrans : IsTrans {a // a ∈ l} below := ⟨fun c b a hcb hba => hba.trans hcb⟩
  have hirrefl : Std.Irrefl below := ⟨fun a => h a.1⟩
  have hwf : WellFounded below := Finite.wellFounded_of_trans_of_irrefl below
  have hmono := ends_succ hzero hsucc
  refine exists_common hmono l fun a ha => ?_
  have hall : ∀ a : {a // a ∈ l}, ∃ n, ends n a.1 := by
    intro a
    induction a using hwf.induction with
    | _ a ih =>
      have hnext : ∀ b ∈ l, ∃ n, leads a.1 b → ends n b := by
        intro b hb
        by_cases hlead : leads a.1 b
        · obtain ⟨n, hn⟩ := ih ⟨b, hb⟩ (Relation.TransGen.single hlead)
          exact ⟨n, fun _ => hn⟩
        · exact ⟨0, fun hlead' => absurd hlead' hlead⟩
      obtain ⟨n, hn⟩ := exists_common (P := fun n b => leads a.1 b → ends n b)
        (fun n b hb hlead => hmono n b (hb hlead)) l hnext
      exact ⟨n + 1, (hsucc n a.1).mpr fun b hb => hn b (hl a.1 b hb) hb⟩
  exact hall ⟨a, ha⟩

end Depth

end Nested
