import Mathlib.Tactic

/-! Join of two sorted lists by key: what one side has alone, and what both have. -/
namespace Merge

inductive EitherOrBoth (A B : Type) where
  | left (a : A)
  | right (b : B)
  | both (a : A) (b : B)

section Join
variable {A B K : Type} [LinearOrder K] (keyA : A → K) (keyB : B → K)

/-- The join while `a` is the next of the first list, with `tail` the join of what follows. -/
def joinHead (a : A) (tail : List B → List (EitherOrBoth A B)) : List B → List (EitherOrBoth A B)
  | [] => .left a :: tail []
  | b :: bs =>
    if keyA a < keyB b then .left a :: tail (b :: bs)
    else if keyB b < keyA a then .right b :: joinHead a tail bs
    else .both a b :: tail bs

def mergeJoinBy : List A → List B → List (EitherOrBoth A B)
  | [] => fun bs => bs.map .right
  | a :: as => joinHead keyA keyB a (mergeJoinBy as)

/-- The elements of the second list, each with whether it was met alone. -/
def seconds : List (EitherOrBoth A B) → List (B × Bool)
  | [] => []
  | .left _ :: rest => seconds rest
  | .right b :: rest => (b, true) :: seconds rest
  | .both _ b :: rest => (b, false) :: seconds rest

/-- Whether an element of the first list was met alone. -/
def anyLeft : List (EitherOrBoth A B) → Bool
  | [] => false
  | .left _ :: _ => true
  | .right _ :: rest => anyLeft rest
  | .both _ _ :: rest => anyLeft rest

theorem seconds_map_right (bs : List B) :
    seconds (bs.map (EitherOrBoth.right : B → EitherOrBoth A B)) = bs.map fun b => (b, true) := by
  induction bs with
  | nil => rfl
  | cons b bs ih => simp only [List.map_cons, seconds, ih]

theorem anyLeft_map_right (bs : List B) :
    anyLeft (bs.map (EitherOrBoth.right : B → EitherOrBoth A B)) = false := by
  induction bs with
  | nil => rfl
  | cons b bs ih => simpa only [List.map_cons, anyLeft] using ih

/-- In whatever order the first list is, the second one goes through as it is. -/
theorem seconds_mergeJoinBy_fst (as : List A) (bs : List B) :
    (seconds (mergeJoinBy keyA keyB as bs)).map Prod.fst = bs := by
  induction as generalizing bs with
  | nil =>
    rw [mergeJoinBy, seconds_map_right, List.map_map]
    exact List.map_id bs
  | cons a as ih =>
    rw [mergeJoinBy]
    induction bs with
    | nil =>
      rw [joinHead, seconds]
      exact ih []
    | cons b bs ihb =>
      rw [joinHead]
      split_ifs
      · exact ih (b :: bs)
      · rw [seconds, List.map_cons, ihb]
      · rw [seconds, List.map_cons, ih bs]

/-- The second list goes through in order; an element is met alone when its key is not
in the first list. -/
theorem seconds_mergeJoinBy (as : List A) (bs : List B)
    (ha : as.Pairwise fun x y => keyA x < keyA y) (hb : bs.Pairwise fun x y => keyB x < keyB y) :
    seconds (mergeJoinBy keyA keyB as bs) =
      bs.map fun b => (b, decide (keyB b ∉ as.map keyA)) := by
  induction as generalizing bs with
  | nil => simp [mergeJoinBy, seconds_map_right]
  | cons a as ih =>
    obtain ⟨ha₁, ha₂⟩ := List.pairwise_cons.mp ha
    rw [mergeJoinBy]
    induction bs with
    | nil =>
      rw [joinHead, seconds, ih [] ha₂ List.Pairwise.nil]
      rfl
    | cons b bs ihb =>
      obtain ⟨hb₁, hb₂⟩ := List.pairwise_cons.mp hb
      simp only [joinHead]
      split_ifs with hlt hgt
      · -- every key of the second list is after the key of `a`
        rw [seconds, ih (b :: bs) ha₂ hb]
        apply List.map_congr_left
        intro x hx
        have hax : keyA a < keyB x := by
          rcases List.mem_cons.mp hx with rfl | hx
          · exact hlt
          · exact hlt.trans (hb₁ x hx)
        simp [ne_of_gt hax]
      · have hall : keyB b ∉ (a :: as).map keyA := by
          simp only [List.map_cons, List.mem_cons, List.mem_map, not_or, not_exists, not_and]
          exact ⟨ne_of_lt hgt, fun x hx => ne_of_gt (hgt.trans (ha₁ x hx))⟩
        rw [seconds, ihb hb₂, List.map_cons (l := bs), decide_eq_true hall]
      · have heq : keyA a = keyB b := le_antisymm (not_lt.mp hgt) (not_lt.mp hlt)
        have hin : ¬ keyB b ∉ (a :: as).map keyA := by simp [heq]
        rw [seconds, ih bs ha₂ hb₂, List.map_cons (l := bs), decide_eq_false hin]
        congr 1
        apply List.map_congr_left
        intro x hx
        have hax : keyA a < keyB x := heq ▸ hb₁ x hx
        simp [ne_of_gt hax]

/-- An element of the first list is met alone when its key is not in the second list. -/
theorem anyLeft_mergeJoinBy (as : List A) (bs : List B)
    (ha : as.Pairwise fun x y => keyA x < keyA y) (hb : bs.Pairwise fun x y => keyB x < keyB y) :
    anyLeft (mergeJoinBy keyA keyB as bs) = true ↔ ∃ a ∈ as, keyA a ∉ bs.map keyB := by
  induction as generalizing bs with
  | nil => simp [mergeJoinBy, anyLeft_map_right]
  | cons a as ih =>
    obtain ⟨ha₁, ha₂⟩ := List.pairwise_cons.mp ha
    rw [mergeJoinBy]
    induction bs with
    | nil => simp [joinHead, anyLeft]
    | cons b bs ihb =>
      obtain ⟨hb₁, hb₂⟩ := List.pairwise_cons.mp hb
      simp only [joinHead]
      split_ifs with hlt hgt
      · have halone : keyA a ∉ (b :: bs).map keyB := by
          simp only [List.map_cons, List.mem_cons, List.mem_map, not_or, not_exists, not_and]
          exact ⟨ne_of_lt hlt, fun x hx => ne_of_gt (hlt.trans (hb₁ x hx))⟩
        simp only [anyLeft, true_iff]
        exact ⟨a, List.mem_cons_self, halone⟩
      · rw [anyLeft, ihb hb₂]
        refine exists_congr fun x => and_congr_right fun hx => ?_
        have hbx : keyA x ≠ keyB b := by
          rcases List.mem_cons.mp hx with rfl | hx
          · exact ne_of_gt hgt
          · exact ne_of_gt (hgt.trans (ha₁ x hx))
        simp [hbx]
      · have heq : keyA a = keyB b := le_antisymm (not_lt.mp hgt) (not_lt.mp hlt)
        rw [anyLeft, ih bs ha₂ hb₂]
        constructor
        · rintro ⟨x, hx, hnot⟩
          have hbx : keyA x ≠ keyB b := heq ▸ ne_of_gt (ha₁ x hx)
          exact ⟨x, List.mem_cons_of_mem _ hx, by simpa [hbx] using hnot⟩
        · rintro ⟨x, hx, hnot⟩
          rcases List.mem_cons.mp hx with rfl | hx
          · simp [heq] at hnot
          · have hbx : keyA x ≠ keyB b := heq ▸ ne_of_gt (ha₁ x hx)
            exact ⟨x, hx, by simpa [hbx] using hnot⟩

end Join

end Merge
