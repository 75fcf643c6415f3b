import Mathlib.Tactic

/-! Runs of a step function, and invariants along them. -/
namespace Run

variable {S A : Type}

/-- Every step of the run is taken in a state that allows it. -/
def Allowed (step : S → A → S) (ok : S → A → Prop) : S → List A → Prop
  | _, [] => True
  | s, a :: rest => ok s a ∧ Allowed step ok (step s a) rest

instance decidableAllowed (step : S → A → S) (ok : S → A → Prop) [∀ s a, Decidable (ok s a)] :
    ∀ s as, Decidable (Allowed step ok s as)
  | _, [] => isTrue trivial
  | s, a :: rest =>
    have := decidableAllowed step ok (step s a) rest
    inferInstanceAs (Decidable (ok s a ∧ Allowed step ok (step s a) rest))

def exec (step : S → A → S) (s : S) (as : List A) : S := as.foldl step s

@[simp] theorem exec_nil (step : S → A → S) (s : S) : exec step s [] = s := rfl

@[simp] theorem exec_cons (step : S → A → S) (s : S) (a : A) (as : List A) :
    exec step s (a :: as) = exec step (step s a) as := rfl

theorem exec_append (step : S → A → S) (s : S) (as bs : List A) :
    exec step s (as ++ bs) = exec step (exec step s as) bs := List.foldl_append

theorem allowed_true (step : S → A → S) (s : S) (as : List A) :
    Allowed step (fun _ _ => True) s as := by
  induction as generalizing s with
  | nil => trivial
  | cons a as ih => exact ⟨trivial, ih (step s a)⟩

theorem allowed_append_iff (step : S → A → S) (ok : S → A → Prop) (s : S) (as bs : List A) :
    Allowed step ok s (as ++ bs) ↔
      Allowed step ok s as ∧ Allowed step ok (exec step s as) bs := by
  induction as generalizing s with
  | nil => simp [Allowed]
  | cons a as ih => simp only [List.cons_append, Allowed, ih, exec_cons, and_assoc]

theorem allowed_and_iff (step : S → A → S) (ok ok' : S → A → Prop) (s : S) (as : List A) :
    Allowed step (fun s a => ok s a ∧ ok' s a) s as ↔
      Allowed step ok s as ∧ Allowed step ok' s as := by
  induction as generalizing s with
  | nil => exact iff_of_true trivial ⟨trivial, trivial⟩
  | cons a as ih =>
    simp only [Allowed, ih]
    tauto

/-- What one step keeps, the run keeps. -/
theorem exec_invariant (step : S → A → S) (ok : S → A → Prop) (inv : S → Prop)
    (hstep : ∀ s a, inv s → ok s a → inv (step s a)) (s : S) (as : List A) (hs : inv s)
    (hrun : Allowed step ok s as) : inv (exec step s as) := by
  induction as generalizing s with
  | nil => exact hs
  | cons a as ih =>
    obtain ⟨ha, hrest⟩ := hrun
    exact ih (step s a) (hstep s a hs ha) hrest

/-- Where a step keeps the invariant exactly if it is allowed, so does the run. -/
theorem allowed_iff_invariant (step : S → A → S) (ok : S → A → Prop) (inv : S → Prop)
    (hstep : ∀ s a, inv s → (inv (step s a) ↔ ok s a)) (s : S) (as : List A) (hs : inv s) :
    Allowed step ok s as ↔ ∀ before after, as = before ++ after → inv (exec step s before) := by
  induction as generalizing s with
  | nil =>
    refine ⟨?_, fun _ => trivial⟩
    intro _ before after h
    rw [(List.append_eq_nil_iff.mp h.symm).1]
    exact hs
  | cons a as ih =>
    constructor
    · rintro ⟨ha, hrest⟩ before after h
      have hnext := (hstep s a hs).mpr ha
      cases before with
      | nil => exact hs
      | cons b before =>
        obtain ⟨rfl, htail⟩ := List.cons.inj h
        exact (ih (step s a) hnext).mp hrest before after htail
    · intro hall
      have hnext : inv (step s a) := hall [a] as rfl
      refine ⟨(hstep s a hs).mp hnext, (ih (step s a) hnext).mpr ?_⟩
      intro before after h
      exact hall (a :: before) after (by rw [h, List.cons_append])

/-- Where two conditions on a step are the same in the states that the invariant holds of, and the
steps keep it, they allow the same runs. -/
theorem allowed_congr (step : S → A → S) (ok ok' : S → A → Prop) (inv : S → Prop)
    (hiff : ∀ s a, inv s → (ok s a ↔ ok' s a)) (hstep : ∀ s a, inv s → ok s a → inv (step s a))
    (s : S) (as : List A) (hs : inv s) : Allowed step ok s as ↔ Allowed step ok' s as := by
  induction as generalizing s with
  | nil => exact Iff.rfl
  | cons a as ih =>
    constructor
    · rintro ⟨ha, hrest⟩
      exact ⟨(hiff s a hs).mp ha, (ih _ (hstep s a hs ha)).mp hrest⟩
    · rintro ⟨ha, hrest⟩
      have hok := (hiff s a hs).mpr ha
      exact ⟨hok, (ih _ (hstep s a hs hok)).mpr hrest⟩

section Outputs

variable {T O : Type}

/-- What the steps of a run give out. -/
def outputs (step : S → A → O × S) : S → List A → List O
  | _, [] => []
  | s, a :: rest => (step s a).1 :: outputs step (step s a).2 rest

/-- The state that a run with outputs ends in. -/
def final (step : S → A → O × S) (s : S) (as : List A) : S := exec (fun s a => (step s a).2) s as

/-- Two machines give out the same and look the same after every part of a run, exactly if every
step is one that they agree on. -/
theorem outputs_agree_iff (step : S → A → O × S) (step' : T → A → O × T) (rel same : S → T → Prop)
    (ok : S → A → Prop) (hsame : ∀ s t, rel s t → same s t)
    (hstep : ∀ s t a, rel s t →
      ((step s a).1 = (step' t a).1 ∧ same (step s a).2 (step' t a).2 ↔ ok s a))
    (hkeep : ∀ s t a, rel s t → ok s a → rel (step s a).2 (step' t a).2)
    (s : S) (t : T) (as : List A) (hst : rel s t) :
    (∀ before after, as = before ++ after →
      outputs step s before = outputs step' t before ∧
        same (final step s before) (final step' t before)) ↔
      Allowed (fun s a => (step s a).2) ok s as := by
  induction as generalizing s t with
  | nil =>
    refine iff_of_true ?_ trivial
    intro before after h
    rw [(List.append_eq_nil_iff.mp h.symm).1]
    exact ⟨rfl, hsame s t hst⟩
  | cons a as ih =>
    constructor
    · intro hall
      have hone := hall [a] as rfl
      have hok : ok s a := (hstep s t a hst).mp ⟨(List.cons.inj hone.1).1, hone.2⟩
      refine ⟨hok, (ih _ _ (hkeep s t a hst hok)).mp ?_⟩
      intro before after h
      have hmore := hall (a :: before) after (by rw [h, List.cons_append])
      exact ⟨(List.cons.inj hmore.1).2, hmore.2⟩
    · rintro ⟨hok, hrest⟩ before after h
      have hout := ((hstep s t a hst).mpr hok).1
      have hmore := (ih _ _ (hkeep s t a hst hok)).mpr hrest
      cases before with
      | nil => exact ⟨rfl, hsame s t hst⟩
      | cons b before =>
        obtain ⟨rfl, htail⟩ := List.cons.inj h
        have := hmore before after htail
        exact ⟨congrArg₂ List.cons hout this.1, this.2⟩

/-- Where an allowed step gives out the same on both machines and keeps them related, so does a
run. -/
theorem outputs_eq (step : S → A → O × S) (step' : T → A → O × T) (rel : S → T → Prop)
    (ok : S → A → Prop)
    (hstep : ∀ s t a, rel s t → ok s a →
      (step s a).1 = (step' t a).1 ∧ rel (step s a).2 (step' t a).2)
    (s : S) (t : T) (as : List A) (hst : rel s t)
    (hrun : Allowed (fun s a => (step s a).2) ok s as) : outputs step s as = outputs step' t as := by
  induction as generalizing s t with
  | nil => rfl
  | cons a as ih =>
    obtain ⟨hok, hrest⟩ := hrun
    obtain ⟨hout, hrel⟩ := hstep s t a hst hok
    rw [outputs, outputs, hout, ih _ _ hrel hrest]

end Outputs

/-- Steps that come closer to the end every few times reach it. -/
theorem iterate_reaches (step : S → S) (inv done : S → Prop) (left : S → ℕ) (few : ℕ)
    (hround : ∀ s, inv s →
      done (step^[few] s) ∨ inv (step^[few] s) ∧ left (step^[few] s) < left s)
    (s : S) (hs : inv s) : ∃ n ≤ few * (left s + 1), done (step^[n] s) := by
  induction hleft : left s using Nat.strong_induction_on generalizing s with
  | _ more ih =>
    rcases hround s hs with hdone | ⟨hinv, hlt⟩
    · exact ⟨few, Nat.le_mul_of_pos_right few (Nat.succ_pos more), hdone⟩
    · obtain ⟨n, hn, hdone⟩ := ih _ (hleft ▸ hlt) (step^[few] s) hinv rfl
      refine ⟨n + few, ?_, ?_⟩
      · calc n + few ≤ few * (left (step^[few] s) + 1) + few := Nat.add_le_add_right hn few
          _ = few * (left (step^[few] s) + 1 + 1) := (Nat.mul_succ few _).symm
          _ ≤ few * (more + 1) := Nat.mul_le_mul_left few (by omega)
      · rw [Function.iterate_add_apply]
        exact hdone

end Run
