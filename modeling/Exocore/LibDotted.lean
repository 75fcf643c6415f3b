import Mathlib.Data.List.Lex
import Mathlib.Tactic

/-! Names with parts that are separated by a dot, in the order of their characters, where the dot is
below the characters of the parts. -/
namespace Dotted

variable {α : Type} [LinearOrder α] (dot : α)

/-- The name, or one that goes on with further parts. -/
def Within (name other : List α) : Prop := other = name ∨ (name ++ [dot]) <+: other

instance (name other : List α) : Decidable (Within dot name other) :=
  inferInstanceAs (Decidable (_ ∨ _))

variable {dot}

theorem not_lt_of_within {name other : List α} (h : Within dot name other) : ¬ other < name := by
  rcases h with rfl | ⟨rest, rfl⟩
  · exact lt_irrefl _
  · intro hlt
    induction name with
    | nil => exact List.not_lt_nil _ hlt
    | cons a name ih =>
      rcases List.cons_lt_cons_iff.mp hlt with ha | ⟨-, hrest⟩
      · exact lt_irrefl a ha
      · exact ih hrest

omit [LinearOrder α] in
theorem within_cons_iff (a : α) (name other : List α) :
    Within dot (a :: name) (a :: other) ↔ Within dot name other := by
  rw [Within, Within, List.cons.injEq, List.cons_append, List.cons_prefix_cons]
  simp only [true_and]

/-- What is between a name and one within it is within it. -/
theorem within_of_between {name low high : List α} (hlow : ¬ low < name)
    (hhigh : ¬ high < low) (hwithin : Within dot name high) (hdot : ∀ a ∈ low, ¬ a < dot) :
    Within dot name low := by
  induction name generalizing low high with
  | nil =>
    cases low with
    | nil => exact Or.inl rfl
    | cons a low =>
      rcases hwithin with rfl | ⟨rest, rfl⟩
      · exact absurd (List.nil_lt_cons a low) hhigh
      · have hnot : ¬ dot < a := fun hlt => hhigh (List.cons_lt_cons_iff.mpr (Or.inl hlt))
        have hsame : a = dot :=
          le_antisymm (not_lt.mp hnot) (not_lt.mp (hdot a List.mem_cons_self))
        rw [hsame]
        exact Or.inr ⟨low, rfl⟩
  | cons b name ih =>
    cases low with
    | nil => exact absurd (List.nil_lt_cons b name) hlow
    | cons a low =>
      obtain ⟨high', rfl, hin⟩ : ∃ high', high = b :: high' ∧ Within dot name high' := by
        rcases hwithin with rfl | ⟨rest, rfl⟩
        · exact ⟨name, rfl, Or.inl rfl⟩
        · exact ⟨name ++ [dot] ++ rest, rfl, Or.inr ⟨rest, rfl⟩⟩
      have hab : ¬ a < b := fun hlt => hlow (List.cons_lt_cons_iff.mpr (Or.inl hlt))
      have hba : ¬ b < a := fun hlt => hhigh (List.cons_lt_cons_iff.mpr (Or.inl hlt))
      obtain rfl : a = b := le_antisymm (not_lt.mp hba) (not_lt.mp hab)
      have hlow' : ¬ low < name :=
        fun hlt => hlow (List.cons_lt_cons_iff.mpr (Or.inr ⟨rfl, hlt⟩))
      have hhigh' : ¬ high' < low :=
        fun hlt => hhigh (List.cons_lt_cons_iff.mpr (Or.inr ⟨rfl, hlt⟩))
      rw [within_cons_iff]
      exact ih hlow' hhigh' hin fun c hc => hdot c (List.mem_cons_of_mem a hc)

section Range
variable {A : Type} (key : A → List α)

/-- In a list that is sorted by its names, those within a name follow one another: a scan from the
name on finds all of them. -/
theorem takeWhile_within (name : List α) (l : List A) (hsorted : l.Pairwise fun x y => key x < key y)
    (hdot : ∀ x ∈ l, ∀ a ∈ key x, ¬ a < dot) :
    (l.dropWhile fun x => decide (key x < name)).takeWhile (fun x => decide (Within dot name (key x)))
      = l.filter fun x => decide (Within dot name (key x)) := by
  induction l with
  | nil => rfl
  | cons x rest ih =>
    obtain ⟨hfirst, hrest⟩ := List.pairwise_cons.mp hsorted
    have hdot' : ∀ y ∈ rest, ∀ a ∈ key y, ¬ a < dot :=
      fun y hy => hdot y (List.mem_cons_of_mem x hy)
    by_cases hlt : key x < name
    · have hout : ¬ Within dot name (key x) := fun hin => not_lt_of_within hin hlt
      have hdrop : (x :: rest).dropWhile (fun x => decide (key x < name)) =
          rest.dropWhile fun x => decide (key x < name) :=
        List.dropWhile_cons_of_pos (decide_eq_true hlt)
      rw [hdrop, List.filter_cons_of_neg]
      · exact ih hrest hdot'
      · rw [decide_eq_true_eq]
        exact hout
    · have hstop (y : A) (ys : List A) (hy : ¬ key y < name) :
          (y :: ys).dropWhile (fun x => decide (key x < name)) = y :: ys := by
        apply List.dropWhile_cons_of_neg
        rw [decide_eq_true_eq]
        exact hy
      have hbehind : rest.dropWhile (fun x => decide (key x < name)) = rest := by
        cases rest with
        | nil => rfl
        | cons y ys =>
          exact hstop y ys fun hy => hlt ((hfirst y List.mem_cons_self).trans hy)
      rw [hstop x rest hlt]
      by_cases hin : Within dot name (key x)
      · have hrest := ih hrest hdot'
        rw [hbehind] at hrest
        have htake : (x :: rest).takeWhile (fun x => decide (Within dot name (key x))) =
            x :: rest.takeWhile fun x => decide (Within dot name (key x)) :=
          List.takeWhile_cons_of_pos (decide_eq_true hin)
        have hfilter : (x :: rest).filter (fun x => decide (Within dot name (key x))) =
            x :: rest.filter fun x => decide (Within dot name (key x)) :=
          List.filter_cons_of_pos (decide_eq_true hin)
        rw [htake, hfilter, hrest]
      · have htake : (x :: rest).takeWhile (fun x => decide (Within dot name (key x))) = [] := by
          apply List.takeWhile_cons_of_neg
          rw [decide_eq_true_eq]
          exact hin
        rw [htake]
        refine (List.filter_eq_nil_iff.mpr ?_).symm
        intro y hy
        rw [decide_eq_true_eq]
        rcases List.mem_cons.mp hy with rfl | hlater
        · exact hin
        · -- a name further on is not within it either, since this one is between
          intro hwithin
          have hbelow := hfirst y hlater
          exact hin (within_of_between hlt (lt_asymm hbelow) hwithin (hdot x List.mem_cons_self))

end Range

/-- A dotted name has one last part. -/
theorem dotted_inj {α : Type} {dot : α} {p p' last last' : List α} (hlast : dot ∉ last)
    (hlast' : dot ∉ last') (h : p ++ dot :: last = p' ++ dot :: last') : p = p' ∧ last = last' := by
  rcases List.append_eq_append_iff.mp h with ⟨mid, hp, hmid⟩ | ⟨mid, hp, hmid⟩
  · cases mid with
    | nil =>
      rw [List.append_nil] at hp
      exact ⟨hp.symm, (List.cons.inj hmid).2⟩
    | cons a mid =>
      have htail := (List.cons.inj hmid).2
      exact absurd (htail ▸ List.mem_append_right mid List.mem_cons_self) hlast
  · cases mid with
    | nil =>
      rw [List.append_nil] at hp
      exact ⟨hp, (List.cons.inj hmid).2.symm⟩
    | cons a mid =>
      have htail := (List.cons.inj hmid).2
      exact absurd (htail ▸ List.mem_append_right mid List.mem_cons_self) hlast'

end Dotted
