import Mathlib

/-! Comparisons that may fail, and their laws where they go by a key in a linear order. -/
namespace Comparison

variable {A K : Type}

/-- The comparison of these items returns, turns round with them, goes on from one to the next, and
calls equal what is the same. -/
structure LawfulAt (comp : A → A → Option Ordering) (same : A → A → Prop) (a b c : A) : Prop where
  returns : (comp a b).isSome
  antisymmetric : comp b a = (comp a b).map Ordering.swap
  transitive : ∀ r s, comp a b = some r → comp b c = some s → r.isLE → s.isLE →
    ∃ t, comp a c = some t ∧ t.isLE ∧ (t = .eq → r = .eq ∧ s = .eq)
  equal : comp a b = some .eq ↔ same a b

variable [LinearOrder K]

theorem cmp_isLE_iff (x y : K) : (cmp x y).isLE ↔ x ≤ y := by
  rw [← Ordering.Compares.ne_gt (cmp_compares x y)]
  cases cmp x y <;> simp

/-- A comparison by keys is lawful where the same items are those of one key. -/
theorem lawfulAt_of_key (comp : A → A → Option Ordering) (same : A → A → Prop) (key : A → K)
    (a b c : A) (hcomp : ∀ x ∈ [a, b, c], ∀ y ∈ [a, b, c], comp x y = some (cmp (key x) (key y)))
    (hsame : same a b ↔ key a = key b) : LawfulAt comp same a b c := by
  have hab := hcomp a (by simp) b (by simp)
  have hba := hcomp b (by simp) a (by simp)
  have hbc := hcomp b (by simp) c (by simp)
  have hac := hcomp a (by simp) c (by simp)
  refine ⟨by rw [hab, Option.isSome_some], ?_, ?_, ?_⟩
  · rw [hab, hba, Option.map_some, cmp_swap]
  · intro r s hr hs hrle hsle
    rw [hab, Option.some.injEq] at hr
    rw [hbc, Option.some.injEq] at hs
    subst hr hs
    rw [cmp_isLE_iff] at hrle hsle
    refine ⟨_, hac, (cmp_isLE_iff _ _).mpr (hrle.trans hsle), fun heq => ?_⟩
    rw [cmp_eq_eq_iff] at heq ⊢
    rw [cmp_eq_eq_iff]
    -- the middle key is between two equal ones
    have hmiddle : key a = key b := le_antisymm hrle (heq ▸ hsle)
    exact ⟨hmiddle, hmiddle.symm.trans heq⟩
  · rw [hab, hsame, Option.some.injEq, cmp_eq_eq_iff]

theorem cmp_then_of_ne {a b : K} (h : a ≠ b) (o : Ordering) : (cmp a b).then o = cmp a b := by
  rcases lt_or_gt_of_ne h with hlt | hlt
  · rw [(cmp_eq_lt_iff a b).mpr hlt, Ordering.lt_then]
  · rw [(cmp_eq_gt_iff a b).mpr hlt, Ordering.gt_then]

/-- Pairs are compared by their first parts, and by the second ones where the first are equal. -/
theorem cmp_toLex {L : Type} [LinearOrder L] (a b : K) (x y : L) :
    cmp (toLex (a, x)) (toLex (b, y)) = (cmp a b).then (cmp x y) := by
  rcases lt_trichotomy a b with h | rfl | h
  · have hlex : toLex (a, x) < toLex (b, y) := Prod.Lex.toLex_lt_toLex.mpr (Or.inl h)
    rw [cmp_then_of_ne (ne_of_lt h), (cmp_eq_lt_iff _ _).mpr hlex, (cmp_eq_lt_iff _ _).mpr h]
  · have hmono : StrictMono fun z : L => toLex (a, z) :=
      fun _ _ hlt => Prod.Lex.toLex_lt_toLex.mpr (Or.inr ⟨rfl, hlt⟩)
    rw [cmp_self_eq_eq]
    exact hmono.cmp_map_eq x y
  · have hlex : toLex (b, y) < toLex (a, x) := Prod.Lex.toLex_lt_toLex.mpr (Or.inl h)
    rw [cmp_then_of_ne (ne_of_gt h), (cmp_eq_gt_iff _ _).mpr hlex, (cmp_eq_gt_iff _ _).mpr h]

end Comparison
