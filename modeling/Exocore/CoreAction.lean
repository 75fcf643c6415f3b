import Exocore.CoreFraming

/-! Calls on mutable state. The state a failed call leaves behind is kept: an error does not
undo what the call did before it. -/
namespace Exocore.Core

/-- A call that may fail, with the state it leaves. -/
def Action (S E A : Type) := S → Res E A × S

namespace Action

variable {S E A B : Type}

protected def bind (x : Action S E A) (f : A → Action S E B) : Action S E B := fun s =>
  match x s with
  | (.ok a, s') => f a s'
  | (.error e, s') => (.error e, s')

instance : Monad (Action S E) where
  pure a := fun s => (.ok a, s)
  bind := Action.bind

/-- A result that does not touch the state. -/
def lift (r : Res E A) : Action S E A := fun s => (r, s)

def get : Action S E S := fun s => (.ok s, s)

def set (s : S) : Action S E Unit := fun _ => (.ok (), s)

@[simp] theorem pure_apply (a : A) (s : S) : (pure a : Action S E A) s = (.ok a, s) := rfl

theorem bind_apply (x : Action S E A) (f : A → Action S E B) (s : S) :
    (x >>= f) s = match x s with
      | (.ok a, s') => f a s'
      | (.error e, s') => (.error e, s') := rfl

@[simp] theorem lift_apply (r : Res E A) (s : S) : (lift r : Action S E A) s = (r, s) := rfl

@[simp] theorem get_apply (s : S) : (get : Action S E S) s = (.ok s, s) := rfl

@[simp] theorem set_apply (s s' : S) : (set s' : Action S E Unit) s = (.ok (), s') := rfl

@[simp] theorem lift_ok_bind (a : A) (f : A → Action S E B) :
    ((lift (.ok a) : Action S E A) >>= f) = f a := rfl

@[simp] theorem lift_error_bind (e : Fault E) (f : A → Action S E B) :
    ((lift (.error e) : Action S E A) >>= f) = lift (.error e) := rfl

theorem pure_bind (a : A) (f : A → Action S E B) : ((pure a : Action S E A) >>= f) = f a := rfl

theorem get_bind (f : S → Action S E B) (s : S) : (get >>= f) s = f s s := rfl

theorem bind_assoc {C : Type} (x : Action S E A) (f : A → Action S E B) (g : B → Action S E C) :
    (x >>= f) >>= g = x >>= fun a => f a >>= g := by
  funext s
  rw [bind_apply, bind_apply, bind_apply]
  rcases x s with ⟨_ | _, s'⟩ <;> rfl

theorem bind_of_ok (x : Action S E A) (f : A → Action S E B) (s s' : S) (a : A)
    (h : x s = (.ok a, s')) : (x >>= f) s = f a s' := by
  rw [bind_apply, h]

theorem bind_of_error (x : Action S E A) (f : A → Action S E B) (s s' : S) (e : Fault E)
    (h : x s = (.error e, s')) : (x >>= f) s = (.error e, s') := by
  rw [bind_apply, h]

theorem eq_ok_of_fst (x : Action S E A) (s : S) (a : A) (h : (x s).1 = .ok a) :
    x s = (.ok a, (x s).2) := Prod.ext h rfl

/-- A sequence that ends well went through the state its first call left. -/
theorem bind_eq_ok (x : Action S E A) (f : A → Action S E B) (s s'' : S) (b : B)
    (h : (x >>= f) s = (.ok b, s'')) : ∃ a s', x s = (.ok a, s') ∧ f a s' = (.ok b, s'') := by
  rw [bind_apply] at h
  cases hx : x s with
  | mk r s' =>
    rw [hx] at h
    cases r with
    | ok a => exact ⟨a, s', rfl, h⟩
    | error e => exact absurd (congrArg Prod.fst h) (by simp)

/-- A sequence ends at its first call, or goes on from the state that call left. -/
theorem bind_cases (x : Action S E A) (f : A → Action S E B) (s : S) :
    (∃ e s', x s = (.error e, s') ∧ (x >>= f) s = (.error e, s')) ∨
      ∃ a s', x s = (.ok a, s') ∧ (x >>= f) s = f a s' := by
  rw [bind_apply]
  cases hs : x s with
  | mk r s' =>
    cases r with
    | ok a => exact Or.inr ⟨a, s', rfl, rfl⟩
    | error e => exact Or.inl ⟨e, s', rfl, rfl⟩

/-- A result that is not of the state either stops the sequence or feeds it. -/
theorem lift_bind_cases (r : Res E A) (f : A → Action S E B) (s : S) :
    (∃ e, r = .error e ∧ ((lift r : Action S E A) >>= f) s = (.error e, s)) ∨
      ∃ a, r = .ok a ∧ ((lift r : Action S E A) >>= f) s = f a s := by
  cases r with
  | ok a => exact Or.inr ⟨a, rfl, rfl⟩
  | error e => exact Or.inl ⟨e, rfl, rfl⟩

/-- What every part of a sequence keeps, the sequence keeps, whether it fails or not. -/
theorem bind_keeps (inv : S → Prop) (x : Action S E A) (f : A → Action S E B) (s : S)
    (hx : inv (x s).2) (hf : ∀ a s', x s = (.ok a, s') → inv (f a s').2) :
    inv ((x >>= f) s).2 := by
  rw [bind_apply]
  cases hs : x s with
  | mk r s' =>
    cases r with
    | ok a => exact hf a s' hs
    | error e =>
      rw [hs] at hx
      exact hx

/-- The same, with what follows taken from the state that the first part left. -/
theorem bind_keeps_snd (inv : S → Prop) (x : Action S E A) (f : A → Action S E B) (s : S)
    (hx : inv (x s).2) (hf : ∀ a, inv (f a (x s).2).2) : inv ((x >>= f) s).2 := by
  apply bind_keeps inv x f s hx
  intro a s' hs
  have hs' : s' = (x s).2 := by rw [hs]
  rw [hs']
  exact hf a

/-- A call that leaves this part of the state as it is, whether it fails or not. -/
def Keeps {V : Type} (view : S → V) (x : Action S E A) : Prop := ∀ s, view (x s).2 = view s

section Keeps
variable {V : Type} (view : S → V)

theorem keeps_pure (a : A) : Keeps view (pure a : Action S E A) := fun _ => rfl

theorem keeps_lift (r : Res E A) : Keeps view (lift r : Action S E A) := fun _ => rfl

theorem keeps_get : Keeps view (get : Action S E S) := fun _ => rfl

theorem keeps_bind (x : Action S E A) (f : A → Action S E B) (hx : Keeps view x)
    (hf : ∀ a, Keeps view (f a)) : Keeps view (x >>= f) := by
  intro s
  apply bind_keeps_snd (fun s' => view s' = view s) x f s (hx s)
  intro a
  rw [hf a, hx s]

end Keeps

end Action

end Exocore.Core
