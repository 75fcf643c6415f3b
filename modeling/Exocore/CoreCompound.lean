import Exocore.CorePanic

/-! The frames that the chain is not made of: a multihash of any digest, the compound of two
frames, the owned copies of frames, and the iteration over a series of sized frames. -/
namespace Exocore.Core

/-- `MultihashDigestExt`: a digest and the encoding of its multihash, both of another crate. -/
structure Digest where
  size : ℕ
  Multihash : Type
  decEq : DecidableEq Multihash
  toMultihash : Bytes → Multihash
  toBytes : Multihash → Bytes
  fromBytes : Bytes → Option Multihash

def multihashCodeSize : ℕ := 2

def Digest.multihashSize (d : Digest) : ℕ := multihashCodeSize + d.size

structure MultihashFrameOf (d : Digest) (I : Type) where
  inner : I

structure CompoundFrame (I : Type) where
  inner : I
  offsetRight : ℕ

structure CompoundSideReader (I : Type) where
  frame : CompoundFrame I
  left : Bool

section Readers
variable {I : Type} [FrameReader I] (d : Digest)
open FrameReader

def MultihashFrameOf.new (inner : I) : Res FramingError (MultihashFrameOf d I) := do
  let innerData ← orPanic (exposedData inner)
  checkFromSize d.multihashSize innerData
  pure ⟨inner⟩

instance : FrameReader (MultihashFrameOf d I) where
  exposedData f := do
    let innerData ← exposedData f.inner
    if d.multihashSize ≤ innerData.length then
      slice innerData 0 (innerData.length - d.multihashSize)
    else none
  wholeData f := wholeData f.inner

variable {d} in
def MultihashFrameOf.multihashBytes (f : MultihashFrameOf d I) : Option Bytes := do
  let innerData ← exposedData f.inner
  if d.multihashSize ≤ innerData.length then
    slice innerData (innerData.length - d.multihashSize) innerData.length
  else none

variable {d} in
def MultihashFrameOf.verify (f : MultihashFrameOf d I) : Res FramingError Bool := do
  let data ← orPanic (exposedData f)
  let dataMultihash := d.toMultihash data
  let frameMultihashBytes ← orPanic f.multihashBytes
  let frameMultihash ← orError .multihash (d.fromBytes frameMultihashBytes)
  have := d.decEq
  pure (decide (dataMultihash = frameMultihash))

def CompoundFrame.new (inner : I) : Res FramingError (CompoundFrame I) := do
  let innerData ← orPanic (exposedData inner)
  checkFromSize 4 innerData
  let offsetRight ← readU32 (innerData.drop (innerData.length - 4))
  pure ⟨inner, offsetRight⟩

def CompoundFrame.readerLeft (f : CompoundFrame I) : CompoundSideReader I := ⟨f, true⟩

def CompoundFrame.readerRight (f : CompoundFrame I) : CompoundSideReader I := ⟨f, false⟩

instance : FrameReader (CompoundSideReader I) where
  exposedData r := do
    let innerData ← exposedData r.frame.inner
    if r.left then
      slice innerData 0 r.frame.offsetRight
    -- the length minus four is taken before the slice
    else if 4 ≤ innerData.length then
      slice innerData r.frame.offsetRight (innerData.length - 4)
    else none
  wholeData r := wholeData r.frame.inner

end Readers

/-- `to_owned_frame`, none where it slices out of range. -/
class ToOwnedFrame (I : Type) where
  OwnedType : Type
  toOwnedFrame : I → Option OwnedType

instance : ToOwnedFrame Bytes := ⟨Bytes, some⟩

section Owned
variable {I : Type} [FrameReader I]
open FrameReader ToOwnedFrame

/-- The copy is of the whole frame alone, but keeps the offset that the frame had. -/
instance : ToOwnedFrame (SizedFrame I) where
  OwnedType := SizedFrame Bytes
  toOwnedFrame f := (wholeData f).map fun whole => ⟨whole, f.offset, f.innerSize⟩

instance [ToOwnedFrame I] : ToOwnedFrame (PaddedFrame I) where
  OwnedType := PaddedFrame (OwnedType I)
  toOwnedFrame f := (toOwnedFrame f.inner).map fun inner => ⟨inner, f.paddingSize⟩

instance (d : Digest) [ToOwnedFrame I] : ToOwnedFrame (MultihashFrameOf d I) where
  OwnedType := MultihashFrameOf d (OwnedType I)
  toOwnedFrame f := (toOwnedFrame f.inner).map fun inner => ⟨inner⟩

instance : ToOwnedFrame (CompoundSideReader I) where
  OwnedType := Bytes
  toOwnedFrame r := exposedData r

end Owned

section Layers
variable {I : Type} [FrameReader I]
open FrameReader

theorem readU32_eq_ok_iff (data : Bytes) (n : ℕ) : readU32 data = .ok n ↔ readLe32 data = some n :=
  orError_eq_ok_iff _ _ _

theorem length_of_readLe32 (data : Bytes) (n : ℕ) (h : readLe32 data = some n) :
    4 ≤ data.length := by
  by_contra hlt
  rw [(readLe32_eq_none_iff data).mpr (by omega)] at h
  contradiction

theorem sizedFrame_new_ok (inner : I) (f : SizedFrame I) (h : SizedFrame.new inner = .ok f) :
    ∃ data n, exposedData inner = some data ∧ readLe32 data = some n ∧ n + 8 ≤ data.length ∧
      f = ⟨inner, 0, n⟩ := by
  simp only [SizedFrame.new, bind_eq_ok_iff, orPanic_eq_ok_iff, checkFromSize_eq_ok_iff,
    readU32_eq_ok_iff, List.length_drop, pure, Except.pure, Except.ok.injEq] at h
  obtain ⟨data, hdata, -, hfour, n, hn, -, hlen, rfl⟩ := h
  exact ⟨data, n, hdata, hn, by omega, rfl⟩

theorem sizedFrame_newFromNextOffset_ok (inner : I) (nextOffset : ℕ) (f : SizedFrame I)
    (h : SizedFrame.newFromNextOffset inner nextOffset = .ok f) :
    ∃ data n, exposedData inner = some data ∧ readLe32 (data.drop (nextOffset - 4)) = some n ∧
      n + 8 ≤ nextOffset ∧ nextOffset ≤ data.length ∧
        f = ⟨inner, nextOffset - (n + 8), n⟩ := by
  simp only [SizedFrame.newFromNextOffset, bind_eq_ok_iff, orPanic_eq_ok_iff,
    checkFromSize_eq_ok_iff, checkOffsetSubtract_eq_ok_iff, readU32_eq_ok_iff, pure, Except.pure,
    Except.ok.injEq] at h
  obtain ⟨data, hdata, -, hfour, -, hfrom, n, hn, -, hsub, rfl⟩ := h
  have hlen := length_of_readLe32 _ _ hn
  rw [List.length_drop] at hlen
  refine ⟨data, n, hdata, hn, by omega, by omega, ?_⟩
  rw [show 4 + n + 4 = n + 8 by omega]

theorem paddedFrame_new_ok (inner : I) (f : PaddedFrame I) (h : PaddedFrame.new inner = .ok f) :
    ∃ data n, exposedData inner = some data ∧
      readLe32 (data.drop (data.length - 4)) = some n ∧ 4 + n ≤ data.length ∧ f = ⟨inner, n⟩ := by
  simp only [PaddedFrame.new, bind_eq_ok_iff, orPanic_eq_ok_iff, checkFromSize_eq_ok_iff,
    readU32_eq_ok_iff, pure, Except.pure, Except.ok.injEq] at h
  obtain ⟨data, hdata, -, hfour, n, hn, -, hlen, rfl⟩ := h
  exact ⟨data, n, hdata, hn, hlen, rfl⟩

theorem multihashFrameOf_new_ok (d : Digest) (inner : I) (f : MultihashFrameOf d I)
    (h : MultihashFrameOf.new d inner = .ok f) :
    ∃ data, exposedData inner = some data ∧ d.multihashSize ≤ data.length ∧ f = ⟨inner⟩ := by
  simp only [MultihashFrameOf.new, bind_eq_ok_iff, orPanic_eq_ok_iff, checkFromSize_eq_ok_iff,
    pure, Except.pure, Except.ok.injEq] at h
  obtain ⟨data, hdata, -, hlen, rfl⟩ := h
  exact ⟨data, hdata, hlen, rfl⟩

/-- The frames of the chain are those of the digest of 32 bytes. -/
theorem multihashFrameOf_eq (d : Digest) (hsize : d.size = 32) (inner : I) :
    exposedData (⟨inner⟩ : MultihashFrameOf d I) = exposedData (⟨inner⟩ : MultihashFrame I) ∧
      (⟨inner⟩ : MultihashFrameOf d I).multihashBytes =
        (⟨inner⟩ : MultihashFrame I).multihashBytes ∧
      ((∃ f, MultihashFrameOf.new d inner = .ok f) ↔ ∃ f, MultihashFrame.new inner = .ok f) := by
  have hmultihash : d.multihashSize = multihashSize := by
    rw [Digest.multihashSize, hsize]
    rfl
  refine ⟨?_, ?_, ?_⟩
  · simp only [exposedData, hmultihash]
  · simp only [MultihashFrameOf.multihashBytes, MultihashFrame.multihashBytes, hmultihash]
  · simp only [MultihashFrameOf.new, MultihashFrame.new, hmultihash, bind_eq_ok_iff, pure,
      Except.pure, Except.ok.injEq]
    constructor
    · rintro ⟨_, data, hdata, u, hu, -⟩
      exact ⟨⟨inner⟩, data, hdata, u, hu, rfl⟩
    · rintro ⟨_, data, hdata, u, hu, -⟩
      exact ⟨⟨inner⟩, data, hdata, u, hu, rfl⟩

/-- The offset of the right part is read and not checked. -/
theorem compoundFrame_new_ok (inner : I) (f : CompoundFrame I)
    (h : CompoundFrame.new inner = .ok f) :
    ∃ data n, exposedData inner = some data ∧ 4 ≤ data.length ∧
      readLe32 (data.drop (data.length - 4)) = some n ∧ f = ⟨inner, n⟩ := by
  simp only [CompoundFrame.new, bind_eq_ok_iff, orPanic_eq_ok_iff, checkFromSize_eq_ok_iff,
    readU32_eq_ok_iff, pure, Except.pure, Except.ok.injEq] at h
  obtain ⟨data, hdata, -, hlen, n, hn, rfl⟩ := h
  exact ⟨data, n, hdata, hlen, hn, rfl⟩

end Layers

end Exocore.Core
