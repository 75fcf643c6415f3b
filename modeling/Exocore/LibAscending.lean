import Mathlib.Tactic

/-! Lists that ascend by a key, and how one is extended: an element is added where its key is
above that of the last. -/
namespace Ascending

variable {A K : Type} [LinearOrder K] (key : A → K)

def Ascends (xs : List A) : Prop := xs.Pairwise fun x y => key x < key y

def isAbove (acc : List A) (k : K) : Bool :=
  match acc.getLast? with
  | some last => key last < k
  | none => true

/-- The elements in turn, without those that are not above what is there. -/
def extend : List A → List A → List A
  | acc, [] => acc
  | acc, x :: rest => if isAbove key acc (key x) then extend (acc ++ [x]) rest else extend acc rest

variable {key}

/-- The last element of an ascending list is the highest. -/
theorem isAbove_iff {acc : List A} (h : Ascends key acc) (k : K) :
    isAbove key acc k = true ↔ ∀ x ∈ acc, key x < k := by
  rcases List.eq_nil_or_concat acc with rfl | ⟨l, last, rfl⟩
  · simp [isAbove]
  · rw [List.concat_eq_append] at h ⊢
    rw [isAbove, List.getLast?_concat]
    simp only [decide_eq_true_eq, List.mem_append, List.mem_singleton]
    constructor
    · intro hlast x hx
      rcases hx with hx | rfl
      · exact (List.pairwise_append.mp h).2.2 x hx last List.mem_cons_self |>.trans hlast
      · exact hlast
    · intro hall
      exact hall last (Or.inr rfl)

theorem ascends_snoc {acc : List A} {x : A} (h : Ascends key acc)
    (hx : isAbove key acc (key x) = true) : Ascends key (acc ++ [x]) := by
  rw [Ascends, List.pairwise_append]
  refine ⟨h, List.pairwise_singleton _ _, ?_⟩
  intro y hy z hz
  rw [List.mem_singleton.mp hz]
  exact (isAbove_iff h _).mp hx y hy

theorem ascends_extend {acc : List A} (h : Ascends key acc) (xs : List A) :
    Ascends key (extend key acc xs) := by
  induction xs generalizing acc with
  | nil => exact h
  | cons x rest ih =>
    rw [extend]
    split_ifs with hx
    · exact ih (ascends_snoc h hx)
    · exact ih h

/-- Of an ascending list, what is above all that was there is added. -/
theorem mem_extend_iff {acc xs : List A} (h : Ascends key acc) (hxs : Ascends key xs) (z : A) :
    z ∈ extend key acc xs ↔ z ∈ acc ∨ z ∈ xs ∧ ∀ y ∈ acc, key y < key z := by
  induction xs generalizing acc with
  | nil => simp [extend]
  | cons x rest ih =>
    obtain ⟨hhead, hrest⟩ := List.pairwise_cons.mp hxs
    rw [extend]
    by_cases hx : isAbove key acc (key x) = true
    · rw [if_pos hx, ih (ascends_snoc h hx) hrest]
      have habove := (isAbove_iff h _).mp hx
      constructor
      · rintro (hz | ⟨hz, hlt⟩)
        · rcases List.mem_append.mp hz with hz | hz
          · exact Or.inl hz
          · rw [List.mem_singleton.mp hz]
            exact Or.inr ⟨List.mem_cons_self, habove⟩
        · exact Or.inr ⟨List.mem_cons_of_mem x hz, fun y hy => hlt y (List.mem_append_left _ hy)⟩
      · rintro (hz | ⟨hz, hlt⟩)
        · exact Or.inl (List.mem_append_left _ hz)
        · rcases List.mem_cons.mp hz with rfl | hz
          · exact Or.inl (List.mem_append_right _ List.mem_cons_self)
          · right
            refine ⟨hz, ?_⟩
            intro y hy
            rcases List.mem_append.mp hy with hy | hy
            · exact hlt y hy
            · rw [List.mem_singleton.mp hy]
              exact hhead z hz
    · rw [if_neg hx, ih h hrest]
      -- the element that was left out is not above either
      rw [isAbove_iff h] at hx
      constructor
      · rintro (hz | ⟨hz, hlt⟩)
        · exact Or.inl hz
        · exact Or.inr ⟨List.mem_cons_of_mem x hz, hlt⟩
      · rintro (hz | ⟨hz, hlt⟩)
        · exact Or.inl hz
        · rcases List.mem_cons.mp hz with rfl | hz
          · exact absurd hlt hx
          · exact Or.inr ⟨hz, hlt⟩

/-- In an ascending list an element is found at one place. -/
theorem Ascends.getElem_inj {xs : List A} (h : Ascends key xs) (i j : ℕ) (hi : i < xs.length)
    (hj : j < xs.length) (heq : key xs[i] = key xs[j]) : i = j := by
  have hlt := List.pairwise_iff_getElem.mp h
  rcases lt_trichotomy i j with hij | hij | hij
  · exact absurd heq (hlt i j hi hj hij).ne
  · exact hij
  · exact absurd heq.symm (hlt j i hj hi hij).ne

theorem Ascends.eq_of_key {xs : List A} (h : Ascends key xs) (x y : A) (hx : x ∈ xs) (hy : y ∈ xs)
    (heq : key x = key y) : x = y := by
  obtain ⟨i, hi, rfl⟩ := List.mem_iff_getElem.mp hx
  obtain ⟨j, hj, rfl⟩ := List.mem_iff_getElem.mp hy
  obtain rfl := h.getElem_inj i j hi hj heq
  rfl

/-- The elements up to one of an ascending list are those that are not above it. -/
theorem Ascends.take_eq_filter {xs : List A} (h : Ascends key xs) (j : ℕ) (hj : j < xs.length) :
    xs.take (j + 1) = xs.filter fun x => key x ≤ key xs[j] := by
  have hlt := List.pairwise_iff_getElem.mp h
  have htake : (xs.take (j + 1)).filter (fun x => decide (key x ≤ key xs[j])) = xs.take (j + 1) := by
    apply List.filter_eq_self.mpr
    intro x hx
    obtain ⟨i, hi, rfl⟩ := List.mem_iff_getElem.mp hx
    rw [List.length_take] at hi
    rw [List.getElem_take, decide_eq_true_eq]
    rcases Nat.lt_or_ge i j with hij | hij
    · exact (hlt i j (by omega) hj hij).le
    · obtain rfl : i = j := by omega
      exact le_rfl
  have hdrop : (xs.drop (j + 1)).filter (fun x => decide (key x ≤ key xs[j])) = [] := by
    apply List.filter_eq_nil_iff.mpr
    intro x hx
    obtain ⟨i, hi, rfl⟩ := List.mem_iff_getElem.mp hx
    rw [List.length_drop] at hi
    rw [List.getElem_drop, decide_eq_true_eq, not_le]
    exact hlt j (j + 1 + i) hj (by omega) (by omega)
  calc xs.take (j + 1)
      = (xs.take (j + 1)).filter (fun x => decide (key x ≤ key xs[j])) ++
          (xs.drop (j + 1)).filter fun x => decide (key x ≤ key xs[j]) := by
        rw [htake, hdrop, List.append_nil]
    _ = (xs.take (j + 1) ++ xs.drop (j + 1)).filter fun x => decide (key x ≤ key xs[j]) :=
        (List.filter_append _ _).symm
    _ = xs.filter fun x => decide (key x ≤ key xs[j]) :=
        congrArg _ (List.take_append_drop (j + 1) xs)

/-- What holds between the elements of an ascending list in their order holds in the order of their
keys. -/
theorem Ascends.rel_of_lt {xs : List A} (h : Ascends key xs) {R : A → A → Prop}
    (hR : xs.Pairwise R) {x y : A} (hx : x ∈ xs) (hy : y ∈ xs) (hlt : key x < key y) : R x y := by
  induction xs with
  | nil => exact absurd hx List.not_mem_nil
  | cons a rest ih =>
    obtain ⟨hfirst, hrest⟩ := List.pairwise_cons.mp h
    obtain ⟨hRfirst, hRrest⟩ := List.pairwise_cons.mp hR
    rcases List.mem_cons.mp hx with rfl | hx'
    · rcases List.mem_cons.mp hy with rfl | hy'
      · exact absurd hlt (lt_irrefl _)
      · exact hRfirst y hy'
    · rcases List.mem_cons.mp hy with rfl | hy'
      · exact absurd (hfirst x hx') hlt.asymm
      · exact ih hrest hRrest hx' hy'

theorem Ascends.le_getLast {xs : List A} (h : Ascends key xs) {last : A}
    (hlast : xs.getLast? = some last) (x : A) (hx : x ∈ xs) : key x ≤ key last := by
  rcases List.eq_nil_or_concat xs with rfl | ⟨front, y, rfl⟩
  · exact absurd hx List.not_mem_nil
  · rw [List.concat_eq_append] at h hlast hx
    rw [List.getLast?_concat] at hlast
    obtain rfl := Option.some.inj hlast
    rcases List.mem_append.mp hx with hx | hx
    · exact ((List.pairwise_append.mp h).2.2 x hx y List.mem_cons_self).le
    · rw [List.mem_singleton.mp hx]

/-- An element below all others comes first. -/
theorem Ascends.eq_cons {xs : List A} (h : Ascends key xs) (a : A) (ha : a ∈ xs)
    (hle : ∀ x ∈ xs, key a ≤ key x) : ∃ rest, xs = a :: rest := by
  cases xs with
  | nil => exact absurd ha List.not_mem_nil
  | cons x rest =>
    rcases List.mem_cons.mp ha with rfl | ha
    · exact ⟨rest, rfl⟩
    · have hlt := (List.pairwise_cons.mp h).1 a ha
      exact absurd (hle x List.mem_cons_self) (not_le.mpr hlt)

theorem Ascends.eq_concat {xs : List A} (h : Ascends key xs) (b : A) (hb : b ∈ xs)
    (hle : ∀ x ∈ xs, key x ≤ key b) : ∃ front, xs = front ++ [b] := by
  rcases List.eq_nil_or_concat xs with rfl | ⟨front, x, rfl⟩
  · exact absurd hb List.not_mem_nil
  · rw [List.concat_eq_append] at h hb hle ⊢
    rcases List.mem_append.mp hb with hb | hb
    · have hlt := (List.pairwise_append.mp h).2.2 b hb x List.mem_cons_self
      exact absurd (hle x (by simp)) (not_le.mpr hlt)
    · rw [List.mem_singleton.mp hb]
      exact ⟨front, rfl⟩

theorem countP_lt {xs : List A} {p q : A → Bool} (himp : ∀ x ∈ xs, p x = true → q x = true) (x : A)
    (hx : x ∈ xs) (hp : p x = false) (hq : q x = true) : xs.countP p < xs.countP q := by
  obtain ⟨l, r, rfl⟩ := List.append_of_mem hx
  have hl : l.countP p ≤ l.countP q := by
    apply List.countP_mono_left
    intro y hy
    exact himp y (List.mem_append_left _ hy)
  have hr : r.countP p ≤ r.countP q := by
    apply List.countP_mono_left
    intro y hy
    exact himp y (List.mem_append_right _ (List.mem_cons_of_mem x hy))
  rw [List.countP_append, List.countP_append, List.countP_cons_of_neg (by simp [hp]),
    List.countP_cons_of_pos hq]
  omega

end Ascending
