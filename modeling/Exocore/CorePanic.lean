import Exocore.CoreAction
import Exocore.CoreTypedFrame

/-! Calls that do not panic: the rules for sequences of calls, and the readers of frames. -/
namespace Exocore.Core

/-- The call returns, with a value or with an error. -/
def NoPanic {E A : Type} (r : Res E A) : Prop := r ≠ .error .panic

/-- The call only gives values that have the property. -/
def OnOk {E A : Type} (r : Res E A) (p : A → Prop) : Prop := ∀ a, r = .ok a → p a

instance {E A : Type} (r : Res E A) : Decidable (NoPanic r) :=
  match r with
  | .ok _ => isTrue fun h => nomatch h
  | .error (.error _) => isTrue fun h => nomatch h
  | .error .panic => isFalse fun h => h rfl

instance {E A : Type} (r : Res E A) (p : A → Prop) [DecidablePred p] : Decidable (OnOk r p) :=
  match r with
  | .ok a => decidable_of_iff (p a) ⟨fun h _ ha => Except.ok.inj ha ▸ h, fun h => h a rfl⟩
  | .error _ => isTrue fun _ h => nomatch h

section Results
variable {E E' A B : Type}

@[simp] theorem noPanic_ok (a : A) : NoPanic (.ok a : Res E A) := by simp [NoPanic]

@[simp] theorem noPanic_pure (a : A) : NoPanic (pure a : Res E A) := noPanic_ok a

@[simp] theorem noPanic_error (e : E) : NoPanic (.error (.error e) : Res E A) := by simp [NoPanic]

@[simp] theorem not_noPanic_panic : ¬ NoPanic (.error .panic : Res E A) := by simp [NoPanic]

@[simp] theorem noPanic_orError (e : E) (o : Option A) : NoPanic (orError e o) := by
  cases o <;> simp [orError]

@[simp] theorem noPanic_orPanic (o : Option A) : NoPanic (orPanic o : Res E A) ↔ o.isSome := by
  cases o <;> simp [orPanic, NoPanic]

@[simp] theorem noPanic_liftError (f : E → E') (r : Res E A) :
    NoPanic (liftError f r) ↔ NoPanic r := by
  cases r with
  | ok a => simp
  | error e => cases e <;> simp [Fault.map, NoPanic]

/-- An error is handed on as it is. -/
theorem noPanic_error_of (e : Fault E) (h : NoPanic (.error e : Res E A)) :
    NoPanic (.error e : Res E B) := by
  intro hpanic
  rw [Except.error.inj hpanic] at h
  exact not_noPanic_panic h

theorem noPanic_bind (x : Res E A) (f : A → Res E B) (hx : NoPanic x)
    (hf : ∀ a, x = .ok a → NoPanic (f a)) : NoPanic (x >>= f) := by
  cases x with
  | ok a => exact hf a rfl
  | error e =>
    cases e with
    | error e => simp
    | panic => simp at hx

theorem noPanic_ite (c : Prop) [Decidable c] (x y : Res E A) (hx : c → NoPanic x)
    (hy : ¬ c → NoPanic y) : NoPanic (if c then x else y) := by
  split_ifs with h
  · exact hx h
  · exact hy h

theorem noPanic_mapM {A B : Type} (f : A → Res E B) (l : List A) (h : ∀ a ∈ l, NoPanic (f a)) :
    NoPanic (l.mapM f) := by
  induction l with
  | nil => exact noPanic_ok _
  | cons a rest ih =>
    rw [List.mapM_cons]
    apply noPanic_bind _ _ (h a List.mem_cons_self)
    intro b _
    apply noPanic_bind _ _ (ih fun x hx => h x (List.mem_cons_of_mem _ hx))
    exact fun _ _ => noPanic_pure _

end Results

section Actions
variable {S E A B : Type}

theorem noPanic_action_bind (x : Action S E A) (f : A → Action S E B) (s : S)
    (hx : NoPanic (x s).1) (hf : ∀ a s', x s = (.ok a, s') → NoPanic (f a s').1) :
    NoPanic ((x >>= f) s).1 := by
  rcases Action.bind_cases x f s with ⟨e, s', hs, h⟩ | ⟨a, s', hs, h⟩
  · rw [hs] at hx
    rw [h]
    intro hpanic
    obtain rfl := Except.error.inj hpanic
    exact hx rfl
  · rw [h]
    exact hf a s' hs

theorem noPanic_lift_bind (r : Res E A) (f : A → Action S E B) (s : S) (hr : NoPanic r)
    (hf : ∀ a, r = .ok a → NoPanic (f a s).1) :
    NoPanic (((Action.lift r : Action S E A) >>= f) s).1 := by
  apply noPanic_action_bind _ _ _ hr
  intro a s' h
  obtain ⟨hr', rfl⟩ := Prod.mk.inj h
  exact hf a hr'

end Actions

section Frames
variable {T : Type} (decode : MessageReader T)

theorem noPanic_checkFromSize (needed : ℕ) (data : Bytes) : NoPanic (checkFromSize needed data) := by
  rw [checkFromSize]
  split_ifs <;> simp

theorem noPanic_checkOffsetSubtract (offset subOffset : ℕ) :
    NoPanic (checkOffsetSubtract offset subOffset) := by
  rw [checkOffsetSubtract]
  split_ifs <;> simp

theorem noPanic_sizedFrame_new (data : Bytes) : NoPanic (SizedFrame.new data) := by
  apply noPanic_bind _ _ (noPanic_ok data)
  intro innerData _
  apply noPanic_bind _ _ (noPanic_checkFromSize 4 innerData)
  intro _ _
  apply noPanic_bind _ _ (noPanic_orError _ _)
  intro n _
  exact noPanic_bind _ _ (noPanic_checkFromSize _ _) fun _ _ => noPanic_pure _

theorem noPanic_sizedFrame_newFromNextOffset (data : Bytes) (nextOffset : ℕ) :
    NoPanic (SizedFrame.newFromNextOffset data nextOffset) := by
  apply noPanic_bind _ _ (noPanic_ok data)
  intro innerData _
  apply noPanic_bind _ _ (noPanic_checkOffsetSubtract _ _)
  intro _ _
  apply noPanic_bind _ _ (noPanic_checkFromSize _ _)
  intro _ _
  apply noPanic_bind _ _ (noPanic_orError _ _)
  intro n _
  exact noPanic_bind _ _ (noPanic_checkOffsetSubtract _ _) fun _ _ => noPanic_pure _

/-- A sized frame that stands inside of the data exposes its bytes. -/
theorem sizedFrame_isSome (f : SizedFrame Bytes) (h : f.offset + f.innerSize + 8 ≤ f.inner.length) :
    ∃ data whole, FrameReader.exposedData f = some data ∧ FrameReader.wholeData f = some whole := by
  simp only [FrameReader.exposedData, FrameReader.wholeData, Option.bind_eq_bind, Option.bind_some,
    slice]
  rw [if_pos (by omega), if_pos (by omega)]
  exact ⟨_, _, rfl, rfl⟩

theorem sizedFrame_new_inside (data : Bytes) (f : SizedFrame Bytes)
    (h : SizedFrame.new data = .ok f) : f.offset + f.innerSize + 8 ≤ f.inner.length := by
  obtain ⟨n, -, hlen, rfl⟩ := (sizedFrame_new_eq_ok_iff data f).mp h
  simp only
  omega

theorem sizedFrame_newFromNextOffset_inside (data : Bytes) (nextOffset : ℕ) (f : SizedFrame Bytes)
    (h : SizedFrame.newFromNextOffset data nextOffset = .ok f) :
    f.offset + f.innerSize + 8 ≤ f.inner.length := by
  obtain ⟨n, -, hroom, hlen, rfl⟩ := (sizedFrame_newFromNextOffset_eq_ok_iff data nextOffset f).mp h
  simp only
  omega

theorem noPanic_hashedFrame_ofSized (f : SizedFrame Bytes)
    (h : f.offset + f.innerSize + 8 ≤ f.inner.length) : NoPanic (HashedFrame.ofSized decode f) := by
  obtain ⟨data, whole, hexposed, hwhole⟩ := sizedFrame_isSome f h
  rw [hashedFrame_ofSized_of_data decode f data whole hexposed hwhole]
  split_ifs
  · exact noPanic_error _
  · split
    · exact noPanic_error _
    · exact noPanic_ok _

/-- The typed frame has the bytes of the sized frame that it was read from. -/
theorem paddedTypedFrame_ofSized_length (s : SizedFrame Bytes)
    (hinside : s.offset + s.innerSize + 8 ≤ s.inner.length) (f : PaddedTypedFrame T)
    (h : PaddedTypedFrame.ofSized decode s = .ok f) : f.wholeData.length = s.innerSize + 8 := by
  obtain ⟨data, whole, hexposed, hwhole⟩ := sizedFrame_isSome s hinside
  rw [paddedTypedFrame_ofSized_of_data decode s data whole hexposed hwhole] at h
  simp only [bind_eq_ok_iff, Except.ok.injEq] at h
  obtain ⟨-, -, -, -, -, -, rfl⟩ := h
  simp only [FrameReader.wholeData, Option.bind_eq_bind, Option.bind_some] at hwhole
  have hlen := slice_length _ _ _ _ hwhole
  simp only
  omega

theorem noPanic_paddedTypedFrame_ofSized (f : SizedFrame Bytes)
    (h : f.offset + f.innerSize + 8 ≤ f.inner.length) :
    NoPanic (PaddedTypedFrame.ofSized decode f) := by
  obtain ⟨data, whole, hexposed, hwhole⟩ := sizedFrame_isSome f h
  rw [paddedTypedFrame_ofSized_of_data decode f data whole hexposed hwhole]
  apply noPanic_bind
  · apply noPanic_bind _ _ (noPanic_ok data)
    intro innerData _
    apply noPanic_bind _ _ (noPanic_checkFromSize _ _)
    intro _ _
    apply noPanic_bind _ _ (noPanic_orError _ _)
    intro n _
    exact noPanic_bind _ _ (noPanic_checkFromSize _ _) fun _ _ => noPanic_pure _
  · intro padded hpadded
    -- the padding was checked against the length before it is cut off
    have hsome : (FrameReader.exposedData padded).isSome := by
      simp only [PaddedFrame.new, FrameReader.exposedData, orPanic_some, ok_bind, bind_eq_ok_iff,
        checkFromSize_eq_ok_iff, pure, Except.pure, Except.ok.injEq] at hpadded
      obtain ⟨-, -, n, -, -, hlen, rfl⟩ := hpadded
      simp only [FrameReader.exposedData, Option.bind_eq_bind, Option.bind_some, if_pos hlen, slice]
      rw [if_pos (by omega)]
      rfl
    apply noPanic_bind _ _ ((noPanic_orPanic _).mpr hsome)
    intro message _
    exact noPanic_bind _ _ (noPanic_orError _ _) fun _ _ => noPanic_ok _

theorem noPanic_hashedFrame_read (data : Bytes) : NoPanic (HashedFrame.read decode data) := by
  apply noPanic_bind _ _ (noPanic_sizedFrame_new data)
  intro f hf
  exact noPanic_hashedFrame_ofSized decode f (sizedFrame_new_inside data f hf)

theorem noPanic_hashedFrame_readFromNextOffset (data : Bytes) (nextOffset : ℕ) :
    NoPanic (HashedFrame.readFromNextOffset decode data nextOffset) := by
  apply noPanic_bind _ _ (noPanic_sizedFrame_newFromNextOffset data nextOffset)
  intro f hf
  exact noPanic_hashedFrame_ofSized decode f (sizedFrame_newFromNextOffset_inside data nextOffset f hf)

theorem noPanic_paddedTypedFrame_read (data : Bytes) :
    NoPanic (PaddedTypedFrame.read decode data) := by
  apply noPanic_bind _ _ (noPanic_sizedFrame_new data)
  intro f hf
  exact noPanic_paddedTypedFrame_ofSized decode f (sizedFrame_new_inside data f hf)

theorem noPanic_paddedTypedFrame_readFromNextOffset (data : Bytes) (nextOffset : ℕ) :
    NoPanic (PaddedTypedFrame.readFromNextOffset decode data nextOffset) := by
  apply noPanic_bind _ _ (noPanic_sizedFrame_newFromNextOffset data nextOffset)
  intro f hf
  exact noPanic_paddedTypedFrame_ofSized decode f
    (sizedFrame_newFromNextOffset_inside data nextOffset f hf)

end Frames

end Exocore.Core
