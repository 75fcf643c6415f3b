import Mathlib.Tactic

/-! The framing readers and builders of the core crate, over lists of bytes.
A slice out of range is a panic of the source and is kept apart from an error. -/
namespace Exocore.Core

abbrev Bytes := List UInt8

/-- How a call ends when it does not return `Ok`. A panic unwinds through the
callers, an error is a value they may inspect. -/
inductive Fault (E : Type) where
  | error (e : E)
  | panic
deriving DecidableEq

abbrev Res (E A : Type) := Except (Fault E) A

def orPanic {E A : Type} : Option A → Res E A
  | some a => .ok a
  | none => .error .panic

def orError {E A : Type} (e : E) : Option A → Res E A
  | some a => .ok a
  | none => .error (.error e)

def Fault.map {E E' : Type} (f : E → E') : Fault E → Fault E'
  | .error e => .error (f e)
  | .panic => .panic

/-- The `?` of the source, with the conversion of the error type. -/
def liftError {E E' A : Type} (f : E → E') : Res E A → Res E' A
  | .ok a => .ok a
  | .error e => .error (e.map f)

@[simp] theorem orPanic_some {E A : Type} (a : A) : (orPanic (some a) : Res E A) = .ok a := rfl

@[simp] theorem orError_some {E A : Type} (e : E) (a : A) : orError e (some a) = .ok a := rfl

@[simp] theorem liftError_ok {E E' A : Type} (f : E → E') (a : A) :
    liftError f (.ok a) = .ok a := rfl

@[simp] theorem liftError_error {E E' A : Type} (f : E → E') (e : Fault E) :
    (liftError f (.error e) : Res E' A) = .error (e.map f) := rfl

@[simp] theorem ok_bind {E A B : Type} (a : A) (f : A → Except E B) :
    (Except.ok a >>= f) = f a := rfl

@[simp] theorem error_bind {E A B : Type} (e : E) (f : A → Except E B) :
    ((Except.error e : Except E A) >>= f) = .error e := rfl

/-- A computation that ends well went through its first step. -/
theorem bind_eq_ok_iff {E A B : Type} (x : Except E A) (f : A → Except E B) (b : B) :
    (x >>= f) = .ok b ↔ ∃ a, x = .ok a ∧ f a = .ok b := by
  cases x with
  | error e => simp
  | ok a => simp

theorem toOption_eq_some_iff {E A : Type} (x : Except E A) (a : A) :
    x.toOption = some a ↔ x = .ok a := by
  cases x with
  | error e => exact iff_of_false (fun h => by cases h) (fun h => by cases h)
  | ok b => rw [Except.toOption, Option.some.injEq, Except.ok.injEq]

theorem orPanic_eq_ok_iff {E A : Type} (o : Option A) (a : A) :
    (orPanic o : Res E A) = .ok a ↔ o = some a := by
  cases o <;> simp [orPanic]

theorem orError_eq_ok_iff {E A : Type} (e : E) (o : Option A) (a : A) :
    orError e o = .ok a ↔ o = some a := by
  cases o <;> simp [orError]

theorem liftError_eq_ok_iff {E E' A : Type} (f : E → E') (x : Res E A) (a : A) :
    liftError f x = .ok a ↔ x = .ok a := by
  cases x <;> simp

/-- `&data[start..stop]`, none where it panics. -/
def slice (data : Bytes) (start stop : ℕ) : Option Bytes :=
  if start ≤ stop ∧ stop ≤ data.length then some ((data.take stop).drop start) else none

theorem slice_append (a b c : Bytes) :
    slice (a ++ b ++ c) a.length (a.length + b.length) = some b := by
  have ht : (a ++ b ++ c).take (a.length + b.length) = a ++ b := by
    rw [← List.length_append, List.take_left]
  rw [slice, if_pos (by simp only [List.length_append]; omega), ht, List.drop_left]

theorem slice_length (data s : Bytes) (start stop : ℕ) (h : slice data start stop = some s) :
    s.length = stop - start := by
  unfold slice at h
  split_ifs at h with hb
  obtain rfl := Option.some.inj h
  simp only [List.length_drop, List.length_take]
  omega

def le32 (n : ℕ) : Bytes :=
  [UInt8.ofNat n, UInt8.ofNat (n / 256), UInt8.ofNat (n / 65536), UInt8.ofNat (n / 16777216)]

/-- `read_u32::<LittleEndian>` on a slice, none at an early end of the slice. -/
def readLe32 : Bytes → Option ℕ
  | a :: b :: c :: d :: _ =>
    some (a.toNat + 256 * b.toNat + 65536 * c.toNat + 16777216 * d.toNat)
  | _ => none

@[simp] theorem le32_length (n : ℕ) : (le32 n).length = 4 := rfl

theorem readLe32_le32_append (n : ℕ) (hn : n < 2^32) (rest : Bytes) :
    readLe32 (le32 n ++ rest) = some n := by
  simp only [le32, List.cons_append, List.nil_append, readLe32, UInt8.toNat_ofNat']
  congr 1
  omega

theorem readLe32_eq_none_iff (data : Bytes) : readLe32 data = none ↔ data.length < 4 := by
  rcases data with _ | ⟨a, _ | ⟨b, _ | ⟨c, _ | ⟨d, rest⟩⟩⟩⟩
  all_goals simp [readLe32]

/-- Only the first four bytes are read. -/
theorem readLe32_take (data : Bytes) (n : ℕ) (hn : 4 ≤ n) :
    readLe32 (data.take n) = readLe32 data := by
  obtain ⟨m, rfl⟩ : ∃ m, n = m + 4 := ⟨n - 4, by omega⟩
  rcases data with _ | ⟨a, _ | ⟨b, _ | ⟨c, _ | ⟨d, rest⟩⟩⟩⟩
  all_goals simp [readLe32]

theorem readLe32_append (data rest : Bytes) (n : ℕ) (h : readLe32 data = some n) :
    readLe32 (data ++ rest) = some n := by
  have hlen : ¬ data.length < 4 := by
    rw [← readLe32_eq_none_iff, h]
    exact Option.some_ne_none n
  rw [← readLe32_take data 4 le_rfl] at h
  rw [← readLe32_take (data ++ rest) 4 le_rfl, List.take_append_of_le_length (not_lt.mp hlen)]
  exact h

inductive FramingError where
  | io
  | destinationTooSmall (needed actual : ℕ)
  | sourceTooSmall (needed actual : ℕ)
  | offsetSubtract (offset subOffset : ℕ)
  | capnp
  | multihash
deriving DecidableEq

/-- What every frame gives access to. A frame is read through the data its
inner frame exposes, `none` where the accessor slices out of range. -/
class FrameReader (I : Type) where
  exposedData : I → Option Bytes
  wholeData : I → Option Bytes

instance : FrameReader Bytes := ⟨some, some⟩

def checkFromSize (needed : ℕ) (data : Bytes) : Res FramingError Unit :=
  if data.length < needed then .error (.error (.sourceTooSmall needed data.length)) else .ok ()

def checkOffsetSubtract (offset subOffset : ℕ) : Res FramingError Unit :=
  if subOffset > offset then .error (.error (.offsetSubtract offset subOffset)) else .ok ()

def readU32 (data : Bytes) : Res FramingError ℕ := orError .io (readLe32 data)

theorem checkFromSize_eq_ok_iff (needed : ℕ) (data : Bytes) (u : Unit) :
    checkFromSize needed data = .ok u ↔ needed ≤ data.length := by
  unfold checkFromSize
  split_ifs with h <;> simp <;> omega

theorem checkOffsetSubtract_eq_ok_iff (offset subOffset : ℕ) (u : Unit) :
    checkOffsetSubtract offset subOffset = .ok u ↔ subOffset ≤ offset := by
  unfold checkOffsetSubtract
  split_ifs with h <;> simp <;> omega

structure SizedFrame (I : Type) where
  inner : I
  offset : ℕ
  innerSize : ℕ

structure MultihashFrame (I : Type) where
  inner : I

structure PaddedFrame (I : Type) where
  inner : I
  paddingSize : ℕ

section Readers
variable {I : Type} [FrameReader I]
open FrameReader

def SizedFrame.new (inner : I) : Res FramingError (SizedFrame I) := do
  let innerData ← orPanic (exposedData inner)
  checkFromSize 4 innerData
  let innerSize ← readU32 innerData
  -- reading the size has moved the slice past it
  checkFromSize (4 + innerSize) (innerData.drop 4)
  pure ⟨inner, 0, innerSize⟩

def SizedFrame.newFromNextOffset (inner : I) (nextOffset : ℕ) :
    Res FramingError (SizedFrame I) := do
  let innerData ← orPanic (exposedData inner)
  checkOffsetSubtract nextOffset 4
  checkFromSize (nextOffset - 4) innerData
  let innerSize ← readU32 (innerData.drop (nextOffset - 4))
  let offsetSubtract := 4 + innerSize + 4
  checkOffsetSubtract nextOffset offsetSubtract
  pure ⟨inner, nextOffset - offsetSubtract, innerSize⟩

instance : FrameReader (SizedFrame I) where
  exposedData f := do
    let data ← exposedData f.inner
    slice data (f.offset + 4) (f.offset + 4 + f.innerSize)
  wholeData f := do
    let data ← wholeData f.inner
    slice data f.offset (f.offset + f.innerSize + 8)

/-- `MULTIHASH_CODE_SIZE` and the digest of `Sha3_256`. -/
def multihashSize : ℕ := 2 + 32

def MultihashFrame.new (inner : I) : Res FramingError (MultihashFrame I) := do
  let innerData ← orPanic (exposedData inner)
  checkFromSize multihashSize innerData
  pure ⟨inner⟩

def MultihashFrame.multihashBytes (f : MultihashFrame I) : Option Bytes := do
  let innerData ← exposedData f.inner
  if multihashSize ≤ innerData.length then
    slice innerData (innerData.length - multihashSize) innerData.length
  else none

instance : FrameReader (MultihashFrame I) where
  exposedData f := do
    let innerData ← exposedData f.inner
    if multihashSize ≤ innerData.length then
      slice innerData 0 (innerData.length - multihashSize)
    else none
  wholeData f := wholeData f.inner

def PaddedFrame.new (inner : I) : Res FramingError (PaddedFrame I) := do
  let innerData ← orPanic (exposedData inner)
  checkFromSize 4 innerData
  let paddingSize ← readU32 (innerData.drop (innerData.length - 4))
  checkFromSize (4 + paddingSize) innerData
  pure ⟨inner, paddingSize⟩

instance : FrameReader (PaddedFrame I) where
  exposedData f := do
    let innerData ← exposedData f.inner
    if 4 + f.paddingSize ≤ innerData.length then
      slice innerData 0 (innerData.length - 4 - f.paddingSize)
    else none
  wholeData f := wholeData f.inner

end Readers

/-- `SizedFrameBuilder`: the size stands on both sides of the inner bytes. -/
def sizedBytes (inner : Bytes) : Bytes := le32 inner.length ++ inner ++ le32 inner.length

/-- `PaddedFrameBuilder`, the padding size last. -/
def paddedBytes (inner : Bytes) (minimumSize : ℕ) : Bytes :=
  let paddingSize := minimumSize - inner.length
  inner ++ List.replicate paddingSize 0 ++ le32 paddingSize

theorem sizedFrame_new_eq_ok_iff (data : Bytes) (f : SizedFrame Bytes) :
    SizedFrame.new data = .ok f ↔
      ∃ n, readLe32 data = some n ∧ n + 8 ≤ data.length ∧ f = ⟨data, 0, n⟩ := by
  simp only [SizedFrame.new, FrameReader.exposedData, orPanic_some, ok_bind, bind_eq_ok_iff,
    checkFromSize_eq_ok_iff, readU32, orError_eq_ok_iff, List.length_drop,
    pure, Except.pure, Except.ok.injEq]
  constructor
  · rintro ⟨_, h4, n, hn, _, h8, rfl⟩
    exact ⟨n, hn, by omega, rfl⟩
  · rintro ⟨n, hn, h8, rfl⟩
    exact ⟨(), by omega, n, hn, (), by omega, rfl⟩

theorem sizedFrame_newFromNextOffset_eq_ok_iff (data : Bytes) (next : ℕ) (f : SizedFrame Bytes) :
    SizedFrame.newFromNextOffset data next = .ok f ↔
      ∃ n, readLe32 (data.drop (next - 4)) = some n ∧ n + 8 ≤ next ∧ next ≤ data.length ∧
        f = ⟨data, next - (n + 8), n⟩ := by
  simp only [SizedFrame.newFromNextOffset, FrameReader.exposedData, orPanic_some, ok_bind,
    bind_eq_ok_iff, checkFromSize_eq_ok_iff, checkOffsetSubtract_eq_ok_iff, readU32,
    orError_eq_ok_iff, pure, Except.pure, Except.ok.injEq]
  constructor
  · rintro ⟨_, h4, _, hs, n, hn, _, h8, rfl⟩
    have hlen : 4 ≤ (data.drop (next - 4)).length := by
      by_contra hlt
      rw [(readLe32_eq_none_iff _).mpr (by omega)] at hn
      contradiction
    rw [List.length_drop] at hlen
    exact ⟨n, hn, by omega, by omega, by rw [show 4 + n + 4 = n + 8 by omega]⟩
  · rintro ⟨n, hn, h8, hl, rfl⟩
    exact ⟨(), by omega, (), by omega, n, hn, (), by omega,
      by rw [show 4 + n + 4 = n + 8 by omega]⟩

end Exocore.Core
