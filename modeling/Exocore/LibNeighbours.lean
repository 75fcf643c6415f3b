import Mathlib.Data.List.Destutter
import Mathlib.Data.List.Sort
import Mathlib.Tactic

/-! Lists from which the neighbours of one name have been taken, and the front of sorted lists. -/
namespace Neighbours

variable {A I K : Type*} [DecidableEq I] (name : A → I)

/-- One element for each group of neighbours of the same name. -/
def thin (l : List A) : List A := l.destutter fun a b => name a ≠ name b

theorem thin'_names (a : A) (l : List A) (x : I) :
    (∃ b ∈ l.destutter' (fun a b => name a ≠ name b) a, name b = x) ↔
      ∃ b ∈ a :: l, name b = x := by
  induction l generalizing a with
  | nil => rfl
  | cons c l ih =>
    by_cases hne : name a ≠ name c
    · rw [List.destutter'_cons_pos (R := fun a b => name a ≠ name b) l hne]
      simp only [List.mem_cons (l := List.destutter' _ _ _), exists_eq_or_imp, ih,
        List.mem_cons (a := _) (b := a)]
    · rw [List.destutter'_cons_neg (R := fun a b => name a ≠ name b) l hne, ih]
      have heq : name a = name c := not_ne_iff.mp hne
      simp only [List.mem_cons, exists_eq_or_imp, heq]
      tauto

theorem thin_names (l : List A) (x : I) :
    (∃ b ∈ thin name l, name b = x) ↔ ∃ b ∈ l, name b = x := by
  cases l with
  | nil => rfl
  | cons a l => exact thin'_names name a l x

theorem thin_sublist (l : List A) : (thin name l).Sublist l := List.destutter_sublist _ l

theorem thin_isChain (l : List A) : (thin name l).IsChain fun a b => name a ≠ name b :=
  List.isChain_destutter _ l

/-- A name on both sides of another one is there twice. -/
theorem thin'_not_nodup (a : A) (front : List A) (c : A) (rear : List A) (x : I)
    (hfront : ∃ b ∈ a :: front, name b = x) (hc : name c ≠ x) (hrear : ∃ b ∈ rear, name b = x) :
    ¬ (((front ++ c :: rear).destutter' (fun a b => name a ≠ name b) a).map name).Nodup := by
  induction front generalizing a with
  | nil =>
    obtain ⟨b, hb, hbx⟩ := hfront
    rw [List.mem_singleton.mp hb] at hbx
    rw [List.nil_append, List.destutter'_cons_pos rear (by rw [hbx]; exact hc.symm), List.map_cons,
      List.nodup_cons]
    rintro ⟨hnot, _⟩
    have hmem : ∃ b ∈ c :: rear, name b = x := by
      obtain ⟨b, hb, hbx⟩ := hrear
      exact ⟨b, List.mem_cons_of_mem c hb, hbx⟩
    obtain ⟨d, hd, hdx⟩ := (thin'_names name c rear x).mpr hmem
    exact hnot (List.mem_map.mpr ⟨d, hd, by rw [hdx, hbx]⟩)
  | cons d front ih =>
    rw [List.cons_append]
    by_cases hne : name a ≠ name d
    · rw [List.destutter'_cons_pos (front ++ c :: rear) hne, List.map_cons, List.nodup_cons]
      rintro ⟨hnot, hnodup⟩
      by_cases hlater : ∃ b ∈ d :: front, name b = x
      · exact ih d hlater hnodup
      · obtain ⟨b, hb, hbx⟩ := hfront
        rcases List.mem_cons.mp hb with rfl | hb
        · have hmem : ∃ e ∈ d :: (front ++ c :: rear), name e = x := by
            obtain ⟨e, he, hex⟩ := hrear
            exact ⟨e, by simp [he], hex⟩
          obtain ⟨e, he, hex⟩ := (thin'_names name d (front ++ c :: rear) x).mpr hmem
          exact hnot (List.mem_map.mpr ⟨e, he, by rw [hex, hbx]⟩)
        · exact hlater ⟨b, hb, hbx⟩
    · rw [List.destutter'_cons_neg (front ++ c :: rear) hne]
      refine ih a ?_
      obtain ⟨b, hb, hbx⟩ := hfront
      rcases List.mem_cons.mp hb with rfl | hb
      · exact ⟨b, List.mem_cons_self, hbx⟩
      · rcases List.mem_cons.mp hb with rfl | hb
        · exact ⟨a, List.mem_cons_self, (not_ne_iff.mp hne).trans hbx⟩
        · exact ⟨b, List.mem_cons_of_mem a hb, hbx⟩

section Keys

variable [LinearOrder K] (key : A → K)

/-- No element of another name stands strictly between two of one name. -/
def Together (l : List A) : Prop :=
  ∀ a ∈ l, ∀ b ∈ l, ∀ c ∈ l, name a = name b → name c ≠ name a →
    ¬ (key a < key c ∧ key c < key b)

omit [DecidableEq I] in
theorem nodup_of_together (l : List A) (hkey : ∀ a b, key a = key b → name a = name b)
    (hsorted : l.Pairwise fun a b => key a ≤ key b)
    (hchain : l.IsChain fun a b => name a ≠ name b) (htogether : Together name key l) :
    (l.map name).Nodup := by
  induction l with
  | nil => exact List.nodup_nil
  | cons a l ih =>
    obtain ⟨hhead, htail⟩ := List.pairwise_cons.mp hsorted
    have hrest : Together name key l := fun x hx y hy z hz =>
      htogether x (List.mem_cons_of_mem a hx) y (List.mem_cons_of_mem a hy) z
        (List.mem_cons_of_mem a hz)
    rw [List.map_cons, List.nodup_cons]
    refine ⟨?_, ih htail hchain.tail hrest⟩
    intro hmem
    obtain ⟨b, hb, hba⟩ := List.mem_map.mp hmem
    cases l with
    | nil => cases hb
    | cons c l =>
      have hac : name a ≠ name c := hchain.rel
      -- the neighbour has another name, and stands before the one that comes again
      have hcb : key c ≤ key b := by
        rcases List.mem_cons.mp hb with rfl | hb
        · exact le_refl _
        · exact (List.pairwise_cons.mp htail).1 b hb
      have hlt : key a < key c :=
        lt_of_le_of_ne (hhead c List.mem_cons_self) fun h => hac (hkey a c h)
      have hlt' : key c < key b :=
        lt_of_le_of_ne hcb fun h => hac ((hba.symm.trans (hkey c b h).symm))
      exact htogether a List.mem_cons_self b (List.mem_cons_of_mem a hb) c
        (List.mem_cons_of_mem a List.mem_cons_self) hba.symm hac.symm ⟨hlt, hlt'⟩

/-- Of a sorted list, the thinned one has each name once exactly if the elements of one name stand
together. -/
theorem thin_nodup_iff (l : List A) (hkey : ∀ a b, key a = key b → name a = name b)
    (hsorted : l.Pairwise fun a b => key a ≤ key b) :
    ((thin name l).map name).Nodup ↔ Together name key l := by
  have hbefore (l₁ l₂ : List A) (a c : A) (hl : l = l₁ ++ c :: l₂) (ha : a ∈ l)
      (hlt : key a < key c) : a ∈ l₁ := by
    rw [hl] at ha hsorted
    rcases List.mem_append.mp ha with ha | ha
    · exact ha
    · have hle := (List.pairwise_append.mp hsorted).2.1
      rcases List.mem_cons.mp ha with rfl | ha
      · exact absurd hlt (lt_irrefl _)
      · exact absurd ((List.pairwise_cons.mp hle).1 a ha) (not_le.mpr hlt)
  have hbehind (l₁ l₂ : List A) (b c : A) (hl : l = l₁ ++ c :: l₂) (hb : b ∈ l)
      (hlt : key c < key b) : b ∈ l₂ := by
    rw [hl] at hb hsorted
    rcases List.mem_append.mp hb with hb | hb
    · have hle := (List.pairwise_append.mp hsorted).2.2 b hb c List.mem_cons_self
      exact absurd hle (not_le.mpr hlt)
    · rcases List.mem_cons.mp hb with rfl | hb
      · exact absurd hlt (lt_irrefl _)
      · exact hb
  constructor
  · intro hnodup a ha b hb c hc hab hca hbetween
    obtain ⟨l₁, l₂, hl⟩ := List.append_of_mem hc
    have ha' := hbefore l₁ l₂ a c hl ha hbetween.1
    have hb' := hbehind l₁ l₂ b c hl hb hbetween.2
    cases l₁ with
    | nil => cases ha'
    | cons d l₁ =>
      rw [hl] at hnodup
      exact thin'_not_nodup name d l₁ c l₂ (name a) ⟨a, ha', rfl⟩ hca ⟨b, hb', hab.symm⟩ hnodup
  · intro htogether
    have hsub := thin_sublist name l
    refine nodup_of_together name key (thin name l) hkey (hsorted.sublist hsub)
      (thin_isChain name l) ?_
    intro a ha b hb c hc
    exact htogether a (hsub.subset ha) b (hsub.subset hb) c (hsub.subset hc)

/-- An element of a name is in front exactly if fewer stand before that name. -/
theorem mem_take_iff (l : List A) (count : ℕ) (hsorted : l.Pairwise fun a b => key a ≤ key b)
    (x : K) : (∃ a ∈ l.take count, key a = x) ↔
      (∃ a ∈ l, key a = x) ∧ (l.filter fun a => key a < x).length < count := by
  induction l generalizing count with
  | nil => simp
  | cons a l ih =>
    obtain ⟨hhead, htail⟩ := List.pairwise_cons.mp hsorted
    cases count with
    | zero => simp
    | succ count =>
      rw [List.take_succ_cons]
      simp only [List.mem_cons, exists_eq_or_imp, ih count htail]
      by_cases hax : key a < x
      · rw [List.filter_cons_of_pos (by simpa using hax), List.length_cons]
        simp only [hax.ne, false_or, Nat.succ_lt_succ_iff]
      · rw [List.filter_cons_of_neg (by simpa using hax)]
        -- nothing stands before a name that the head has or is above
        have hnone : l.filter (fun b => key b < x) = [] := by
          rw [List.filter_eq_nil_iff]
          intro b hb
          simpa using (not_lt.mp hax).trans (hhead b hb)
        rw [hnone, List.length_nil]
        by_cases hxa : key a = x
        · simp [hxa]
        · have hlt : x < key a := lt_of_le_of_ne (not_lt.mp hax) (Ne.symm hxa)
          have hmissing : ¬ ∃ b ∈ l, key b = x := by
            rintro ⟨b, hb, rfl⟩
            exact absurd (hhead b hb) (not_le.mpr hlt)
          simp only [hxa, hmissing, false_and, or_self]

end Keys

section Front
variable {B : Type*} (r : B → B → Prop) [DecidableRel r]

theorem filter_orderedInsert [IsTrans B r] (p : B → Bool) (b : B) (l : List B)
    (hsorted : l.Pairwise r) : (l.orderedInsert r b).filter p =
      if p b then (l.filter p).orderedInsert r b else l.filter p := by
  induction l with
  | nil => simp [List.filter_cons]
  | cons c l ih =>
    obtain ⟨hhead, htail⟩ := List.pairwise_cons.mp hsorted
    by_cases hbc : r b c
    · rw [List.orderedInsert_cons_of_le r l hbc, List.filter_cons]
      -- the element stands before all that are kept
      have hfirst : ((c :: l).filter p).orderedInsert r b = b :: (c :: l).filter p := by
        cases hkept : (c :: l).filter p with
        | nil => rfl
        | cons d rest =>
          have hd : d ∈ c :: l := by
            apply List.mem_of_mem_filter (p := p)
            rw [hkept]
            exact List.mem_cons_self
          apply List.orderedInsert_cons_of_le
          rcases List.mem_cons.mp hd with rfl | hd
          · exact hbc
          · exact IsTrans.trans b c d hbc (hhead d hd)
      rw [hfirst]
    · rw [List.orderedInsert_of_not_le r l hbc, List.filter_cons, ih htail, List.filter_cons]
      by_cases hc : p c
      · rw [if_pos hc, if_pos hc]
        by_cases hb : p b
        · rw [if_pos hb, if_pos hb, List.orderedInsert_of_not_le r _ hbc]
        · rw [if_neg hb, if_neg hb]
      · rw [if_neg hc, if_neg hc]

variable [Std.Total r] [IsTrans B r]

theorem filter_insertionSort (p : B → Bool) (l : List B) :
    (l.filter p).insertionSort r = (l.insertionSort r).filter p := by
  induction l with
  | nil => rfl
  | cons b l ih =>
    rw [List.insertionSort_cons, filter_orderedInsert r p b _ (List.pairwise_insertionSort r l),
      ← ih, List.filter_cons]
    by_cases hb : p b
    · rw [if_pos hb, if_pos hb, List.insertionSort_cons]
    · rw [if_neg hb, if_neg hb]

/-- What is taken out behind the front leaves the front as it is. -/
theorem take_filter_insertionSort (p : B → Bool) (l : List B) (count : ℕ)
    (h : ∀ b ∈ (l.insertionSort r).take count, p b = true) :
    ((l.filter p).insertionSort r).take count = (l.insertionSort r).take count := by
  rw [filter_insertionSort r p l]
  generalize l.insertionSort r = sorted at h
  induction sorted generalizing count with
  | nil => rfl
  | cons b sorted ih =>
    cases count with
    | zero => rfl
    | succ count =>
      rw [List.take_succ_cons] at h
      rw [List.filter_cons, if_pos (h b List.mem_cons_self), List.take_succ_cons,
        List.take_succ_cons, ih count fun c hc => h c (List.mem_cons_of_mem b hc)]

end Front

end Neighbours
