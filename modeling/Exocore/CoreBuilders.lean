import Exocore.CoreCompound

/-! The builders of frames, in any nesting: what they write to a writer, what they write into a
buffer, what they announce, and what the readers make of it. -/
namespace Exocore.Core

open FrameReader

/-- A digest whose multihashes have the announced size and can be decoded again. -/
structure LawfulDigest extends Digest where
  toBytes_length : ∀ data, (toBytes (toMultihash data)).length = toDigest.multihashSize
  fromBytes_toBytes : ∀ data, fromBytes (toBytes (toMultihash data)) = some (toMultihash data)

inductive FrameBuilder where
  | bytes (data : Bytes)
  | sized (inner : FrameBuilder)
  | multihash (d : LawfulDigest) (inner : FrameBuilder)
  | padded (inner : FrameBuilder) (minimumSize : ℕ)
  | compound (left right : FrameBuilder)

/-- `write_all` to a growing vector. -/
def writeAll (data : Bytes) : Action Bytes FramingError Unit := fun written =>
  (.ok (), written ++ data)

/-- The writing to a vector of its own, whose bytes are returned. -/
def inVec (x : Action Bytes FramingError ℕ) : Action Bytes FramingError Bytes := fun written =>
  match x [] with
  | (.ok _, buffer) => (.ok buffer, written)
  | (.error e, _) => (.error e, written)

def checkIntoSize (needed : ℕ) : Action Bytes FramingError Unit := fun into =>
  if into.length < needed then (.error (.error (.destinationTooSmall needed into.length)), into)
  else (.ok (), into)

/-- A call on `&mut into[start..stop]`. -/
def inPart {A : Type} (start stop : ℕ) (x : Action Bytes FramingError A) :
    Action Bytes FramingError A := fun into =>
  if start ≤ stop ∧ stop ≤ into.length then
    ((x ((into.take stop).drop start)).1,
      into.take start ++ (x ((into.take stop).drop start)).2 ++ into.drop stop)
  else (.error .panic, into)

/-- A call on `&mut into[start..]`. -/
def inTail {A : Type} (start : ℕ) (x : Action Bytes FramingError A) :
    Action Bytes FramingError A := fun into => inPart start into.length x into

/-- `write_all` to a slice: what does not fit is an error, after the slice was filled. -/
def writeSlice (data : Bytes) : Action Bytes FramingError Unit := fun into =>
  (if into.length < data.length then .error (.error .io) else .ok (),
    data.take into.length ++ into.drop data.length)

namespace FrameBuilder

def expectedSize : FrameBuilder → Option ℕ
  | .bytes data => some data.length
  | .sized inner => inner.expectedSize.map fun innerSize => innerSize + 8
  | .multihash d inner => inner.expectedSize.map fun innerSize => innerSize + d.multihashSize
  | .padded inner minimumSize => inner.expectedSize.map fun innerSize =>
    if innerSize < minimumSize then minimumSize + 4 else innerSize + 4
  | .compound left right => do
    let leftSize ← left.expectedSize
    right.expectedSize.map fun rightSize => leftSize + rightSize + 4

def writeTo : FrameBuilder → Action Bytes FramingError ℕ
  | .bytes data => do
    writeAll data
    pure data.length
  | .sized inner =>
    match inner.expectedSize with
    | some innerSize => do
      writeAll (le32 innerSize)
      let writtenSize ← inner.writeTo
      -- `debug_assert_eq!`
      if writtenSize ≠ innerSize then Action.lift (.error .panic)
      writeAll (le32 innerSize)
      pure (4 + innerSize + 4)
    | none => do
      let buffer ← inVec inner.writeTo
      writeAll (le32 buffer.length)
      writeAll buffer
      writeAll (le32 buffer.length)
      pure (4 + buffer.length + 4)
  | .multihash d inner => do
    let buffer ← inVec inner.writeTo
    writeAll buffer
    writeAll (d.toBytes (d.toMultihash buffer))
    pure (buffer.length + d.multihashSize)
  | .padded inner minimumSize => do
    let innerSize ← inner.writeTo
    let paddingSize ←
      if innerSize < minimumSize then do
        let requiredPadding := minimumSize - innerSize
        writeAll (List.replicate requiredPadding 0)
        pure requiredPadding
      else pure 0
    writeAll (le32 paddingSize)
    pure (innerSize + paddingSize + 4)
  | .compound left right => do
    let leftSize ← left.writeTo
    let rightSize ← right.writeTo
    writeAll (le32 leftSize)
    pure (leftSize + rightSize + 4)

def writeInto : FrameBuilder → Action Bytes FramingError ℕ
  | .bytes data => do
    checkIntoSize data.length
    inPart 0 data.length (writeSlice data)
    pure data.length
  | .sized inner => do
    checkIntoSize 8
    let innerSize ← inTail 4 inner.writeInto
    inPart 0 4 (writeSlice (le32 innerSize))
    let totalSize := innerSize + 8
    checkIntoSize totalSize
    inTail (4 + innerSize) (writeSlice (le32 innerSize))
    pure totalSize
  | .multihash d inner => do
    let innerSize ← inner.writeInto
    let into ← Action.get
    let data ← Action.lift (orPanic (slice into 0 innerSize))
    let totalSize := innerSize + d.multihashSize
    checkIntoSize totalSize
    inPart innerSize totalSize (writeSlice (d.toBytes (d.toMultihash data)))
    pure totalSize
  | .padded inner minimumSize => do
    let innerSize ← inner.writeInto
    let paddingSize ←
      if innerSize < minimumSize then do
        let requiredPadding := minimumSize - innerSize
        checkIntoSize (innerSize + requiredPadding)
        inPart innerSize (innerSize + requiredPadding)
          (writeSlice (List.replicate requiredPadding 0))
        pure requiredPadding
      else pure 0
    let totalSize := innerSize + paddingSize + 4
    -- the room for the size of the padding is not checked, the writing of it is
    checkIntoSize paddingSize
    inTail (innerSize + paddingSize) (writeSlice (le32 paddingSize))
    pure totalSize
  | .compound left right => do
    let leftSize ← left.writeInto
    let rightSize ← inTail leftSize right.writeInto
    checkIntoSize (leftSize + rightSize + 4)
    inTail (leftSize + rightSize) (writeSlice (le32 leftSize))
    pure (leftSize + rightSize + 4)

/-- `as_bytes`, none where writing to the vector fails. -/
def asBytes (b : FrameBuilder) : Option Bytes :=
  match b.writeTo [] with
  | (.ok _, buffer) => some buffer
  | (.error _, _) => none

/-- The bytes of a frame: what each builder adds to those of the frames within it. -/
def layout : FrameBuilder → Bytes
  | .bytes data => data
  | .sized inner => sizedBytes inner.layout
  | .multihash d inner => inner.layout ++ d.toBytes (d.toMultihash inner.layout)
  | .padded inner minimumSize => paddedBytes inner.layout minimumSize
  | .compound left right => left.layout ++ right.layout ++ le32 left.layout.length

/-- The readers give back what the builders were given: over a reader that exposes the bytes of a
frame, each layer is constructed and exposes the bytes of the frame within it. -/
def ReadsBack : FrameBuilder → {I : Type} → [FrameReader I] → I → Prop
  | .bytes data, _, _, reader => exposedData reader = some data
  | .sized inner, _, _, reader => ∃ f, SizedFrame.new reader = .ok f ∧
    exposedData f = inner.asBytes ∧ inner.ReadsBack f
  | .multihash d inner, _, _, reader => ∃ f, MultihashFrameOf.new d.toDigest reader = .ok f ∧
    exposedData f = inner.asBytes ∧
    f.multihashBytes = inner.asBytes.map (fun data => d.toBytes (d.toMultihash data)) ∧
    f.verify = .ok true ∧ inner.ReadsBack f
  | .padded inner _, _, _, reader => ∃ f, PaddedFrame.new reader = .ok f ∧
    exposedData f = inner.asBytes ∧ inner.ReadsBack f
  | .compound left right, _, _, reader => ∃ f, CompoundFrame.new reader = .ok f ∧
    exposedData f.readerLeft = left.asBytes ∧ left.ReadsBack f.readerLeft ∧
    exposedData f.readerRight = right.asBytes ∧ right.ReadsBack f.readerRight

theorem layout_sized_length (inner : FrameBuilder) :
    (FrameBuilder.sized inner).layout.length = inner.layout.length + 8 := by
  simp only [layout, sizedBytes, List.length_append, le32_length]
  omega

theorem layout_multihash_length (d : LawfulDigest) (inner : FrameBuilder) :
    (FrameBuilder.multihash d inner).layout.length = inner.layout.length + d.multihashSize := by
  rw [layout, List.length_append, d.toBytes_length]

theorem layout_padded_length (inner : FrameBuilder) (minimumSize : ℕ) :
    (FrameBuilder.padded inner minimumSize).layout.length =
      inner.layout.length + (minimumSize - inner.layout.length) + 4 := by
  simp only [layout, paddedBytes, List.length_append, List.length_replicate, le32_length]

theorem layout_compound_length (left right : FrameBuilder) :
    (FrameBuilder.compound left right).layout.length =
      left.layout.length + right.layout.length + 4 := by
  simp only [layout, List.length_append, le32_length]

theorem expectedSize_eq (b : FrameBuilder) : b.expectedSize = some b.layout.length := by
  induction b with
  | bytes data => rfl
  | sized inner ih => rw [expectedSize, ih, layout_sized_length, Option.map_some]
  | multihash d inner ih => rw [expectedSize, ih, layout_multihash_length, Option.map_some]
  | padded inner minimumSize ih =>
    rw [expectedSize, ih, layout_padded_length, Option.map_some]
    congr 1
    split_ifs <;> omega
  | compound left right ihl ihr =>
    rw [expectedSize, ihl, ihr, layout_compound_length]
    rfl

section Writers
variable {A B : Type}

theorem writeAll_bind (data written : Bytes) (f : Unit → Action Bytes FramingError B) :
    (writeAll data >>= f) written = f () (written ++ data) := rfl

theorem inVec_bind (x : Action Bytes FramingError ℕ) (f : Bytes → Action Bytes FramingError B)
    (n : ℕ) (buffer written : Bytes) (h : x [] = (.ok n, buffer)) :
    (inVec x >>= f) written = f buffer written := by
  apply Action.bind_of_ok
  rw [inVec, h]

end Writers

/-- A vector is extended by the bytes of the frame. -/
theorem writeTo_eq (b : FrameBuilder) (written : Bytes) :
    b.writeTo written = (.ok b.layout.length, written ++ b.layout) := by
  induction b generalizing written with
  | bytes data => rfl
  | sized inner ih =>
    simp only [writeTo, expectedSize_eq]
    rw [writeAll_bind, Action.bind_of_ok _ _ _ _ _ (ih _)]
    simp only [ne_eq, not_true_eq_false, if_false]
    rw [writeAll_bind, layout_sized_length]
    simp only [Action.pure_apply, layout, sizedBytes, List.append_assoc]
    rw [show 4 + inner.layout.length + 4 = inner.layout.length + 8 by omega]
  | multihash d inner ih =>
    rw [writeTo, inVec_bind _ _ _ _ _ (ih []), writeAll_bind, writeAll_bind,
      layout_multihash_length]
    simp only [Action.pure_apply, layout, List.nil_append, List.append_assoc]
  | padded inner minimumSize ih =>
    rw [writeTo, Action.bind_of_ok _ _ _ _ _ (ih _), layout_padded_length]
    by_cases hshort : inner.layout.length < minimumSize
    · simp only [if_pos hshort]
      rw [writeAll_bind, Action.pure_bind, writeAll_bind]
      simp only [Action.pure_apply, layout, paddedBytes, List.append_assoc]
    · have hnone : minimumSize - inner.layout.length = 0 := by omega
      simp only [if_neg hshort]
      rw [Action.pure_bind, writeAll_bind]
      simp only [Action.pure_apply, layout, paddedBytes, hnone, List.replicate_zero,
        List.append_nil, List.append_assoc]
  | compound left right ihl ihr =>
    rw [writeTo, Action.bind_of_ok _ _ _ _ _ (ihl _), Action.bind_of_ok _ _ _ _ _ (ihr _),
      writeAll_bind, layout_compound_length]
    simp only [Action.pure_apply, layout, List.append_assoc]

theorem asBytes_eq (b : FrameBuilder) : b.asBytes = some b.layout := by
  rw [asBytes, writeTo_eq, List.nil_append]

section Slices
variable {A : Type}

theorem exists_append_of_length (data : Bytes) (i j : ℕ) (h : data.length = i + j) :
    ∃ front back, data = front ++ back ∧ front.length = i ∧ back.length = j := by
  refine ⟨data.take i, data.drop i, (List.take_append_drop i data).symm, ?_, ?_⟩
  · rw [List.length_take]
    omega
  · rw [List.length_drop]
    omega

theorem slice_front (front rest : Bytes) : slice (front ++ rest) 0 front.length = some front := by
  have hslice := slice_append [] front rest
  rwa [List.nil_append, List.length_nil, Nat.zero_add] at hslice

theorem checkIntoSize_fits (needed : ℕ) (into : Bytes) (h : needed ≤ into.length) :
    checkIntoSize needed into = (.ok (), into) := by
  rw [checkIntoSize, if_neg (by omega)]

theorem writeSlice_append (data old rest : Bytes) (h : old.length = data.length) :
    writeSlice data (old ++ rest) = (.ok (), data ++ rest) := by
  have hlen : data.length ≤ (old ++ rest).length := by
    rw [List.length_append]
    omega
  rw [writeSlice, if_neg (by omega), List.take_of_length_le hlen, ← h, List.drop_left]

theorem inPart_append (start stop : ℕ) (x : Action Bytes FramingError A) (pre part rest : Bytes)
    (hstart : pre.length = start) (hstop : start + part.length = stop) :
    inPart start stop x (pre ++ part ++ rest) = ((x part).1, pre ++ (x part).2 ++ rest) := by
  have hlen : (pre ++ part).length = stop := by
    rw [List.length_append]
    omega
  have htake : (pre ++ part ++ rest).take stop = pre ++ part := by rw [← hlen, List.take_left]
  have hdrop : (pre ++ part ++ rest).drop stop = rest := by rw [← hlen, List.drop_left]
  have hpart : (pre ++ part).drop start = part := by rw [← hstart, List.drop_left]
  have hpre : (pre ++ part ++ rest).take start = pre := by
    rw [List.append_assoc, ← hstart, List.take_left]
  rw [inPart, htake, hdrop, hpart, hpre, if_pos]
  refine ⟨by omega, ?_⟩
  rw [List.length_append]
  omega

theorem inTail_append (start : ℕ) (x : Action Bytes FramingError A) (pre rest : Bytes)
    (hstart : pre.length = start) :
    inTail start x (pre ++ rest) = ((x rest).1, pre ++ (x rest).2) := by
  have h := inPart_append start (pre ++ rest).length x pre rest [] hstart
    (by rw [List.length_append]; omega)
  rw [List.append_nil, List.append_nil] at h
  exact h

theorem inPart_writeSlice (start stop : ℕ) (data pre part rest : Bytes) (hstart : pre.length = start)
    (hstop : start + part.length = stop) (hpart : part.length = data.length) :
    inPart start stop (writeSlice data) (pre ++ part ++ rest) = (.ok (), pre ++ data ++ rest) := by
  have hwrite := writeSlice_append data part [] hpart
  rw [List.append_nil, List.append_nil] at hwrite
  rw [inPart_append start stop _ pre part rest hstart hstop, hwrite]

theorem inFront_writeSlice (stop : ℕ) (data part rest : Bytes) (hstop : part.length = stop)
    (hpart : part.length = data.length) :
    inPart 0 stop (writeSlice data) (part ++ rest) = (.ok (), data ++ rest) :=
  inPart_writeSlice 0 stop data [] part rest rfl (by rw [Nat.zero_add, hstop]) hpart

theorem inTail_writeSlice (start : ℕ) (data pre part rest : Bytes) (hstart : pre.length = start)
    (hpart : part.length = data.length) :
    inTail start (writeSlice data) (pre ++ (part ++ rest)) = (.ok (), pre ++ (data ++ rest)) := by
  rw [inTail_append start _ pre _ hstart, writeSlice_append data part rest hpart]

end Slices

/-- A buffer with room for the frame: its front becomes the frame, what follows stays. -/
def WritesLayout (b : FrameBuilder) : Prop :=
  ∀ old rest : Bytes, old.length = b.layout.length →
    b.writeInto (old ++ rest) = (.ok b.layout.length, b.layout ++ rest)

theorem writesLayout_bytes (data : Bytes) : (FrameBuilder.bytes data).WritesLayout := by
  intro old rest h
  have hcheck := checkIntoSize_fits data.length (old ++ rest) (by
    rw [List.length_append, h]
    exact Nat.le_add_right _ _)
  have hwrite := inFront_writeSlice data.length data old rest h h
  rw [writeInto, Action.bind_of_ok _ _ _ _ _ hcheck, Action.bind_of_ok _ _ _ _ _ hwrite]
  rfl

theorem writesLayout_sized (inner : FrameBuilder) (ih : inner.WritesLayout) :
    (FrameBuilder.sized inner).WritesLayout := by
  intro old rest h
  rw [layout_sized_length] at h ⊢
  -- `front` is where the leading size goes, `middle` the frame, `tail` the trailing size
  obtain ⟨front, back, rfl, hfront, hback⟩ :=
    exists_append_of_length old 4 (inner.layout.length + 4) (by omega)
  obtain ⟨middle, tail, rfl, hmiddle, htail⟩ :=
    exists_append_of_length back inner.layout.length 4 hback
  have hsmall := checkIntoSize_fits 8 (front ++ (middle ++ tail) ++ rest) (by
    simp only [List.length_append]
    omega)
  have hinner : inTail 4 inner.writeInto (front ++ (middle ++ tail) ++ rest) =
      (.ok inner.layout.length, front ++ (inner.layout ++ (tail ++ rest))) := by
    rw [List.append_assoc, inTail_append 4 _ front _ hfront, List.append_assoc,
      ih middle (tail ++ rest) hmiddle]
  have hleading := inFront_writeSlice 4 (le32 inner.layout.length) front
    (inner.layout ++ (tail ++ rest)) hfront hfront
  have htotal := checkIntoSize_fits (inner.layout.length + 8)
    (le32 inner.layout.length ++ (inner.layout ++ (tail ++ rest))) (by
      simp only [List.length_append, le32_length]
      omega)
  have hpre : (le32 inner.layout.length ++ inner.layout).length = 4 + inner.layout.length := by
    rw [List.length_append, le32_length]
  have htrailing := inTail_writeSlice (4 + inner.layout.length) (le32 inner.layout.length)
    (le32 inner.layout.length ++ inner.layout) tail rest hpre htail
  rw [List.append_assoc (le32 inner.layout.length)] at htrailing
  rw [writeInto, Action.bind_of_ok _ _ _ _ _ hsmall, Action.bind_of_ok _ _ _ _ _ hinner,
    Action.bind_of_ok _ _ _ _ _ hleading, Action.bind_of_ok _ _ _ _ _ htotal,
    Action.bind_of_ok _ _ _ _ _ htrailing]
  simp only [Action.pure_apply, layout, sizedBytes, List.append_assoc]

theorem writesLayout_multihash (d : LawfulDigest) (inner : FrameBuilder) (ih : inner.WritesLayout) :
    (FrameBuilder.multihash d inner).WritesLayout := by
  intro old rest h
  rw [layout_multihash_length] at h ⊢
  obtain ⟨front, back, rfl, hfront, hback⟩ :=
    exists_append_of_length old inner.layout.length d.multihashSize h
  have hinner := ih front (back ++ rest) hfront
  -- the digest is taken of what the frame within has just written
  have hdata := slice_front inner.layout (back ++ rest)
  have htotal := checkIntoSize_fits (inner.layout.length + d.multihashSize)
    (inner.layout ++ (back ++ rest)) (by
      simp only [List.length_append]
      omega)
  have hwrite := inPart_writeSlice inner.layout.length (inner.layout.length + d.multihashSize)
    (d.toBytes (d.toMultihash inner.layout)) inner.layout back rest rfl (by rw [hback])
    (by rw [hback, d.toBytes_length])
  rw [List.append_assoc, writeInto, Action.bind_of_ok _ _ _ _ _ hinner, Action.get_bind, hdata,
    orPanic_some, Action.lift_ok_bind, Action.bind_of_ok _ _ _ _ _ htotal, ← List.append_assoc,
    Action.bind_of_ok _ _ _ _ _ hwrite]
  rfl

theorem writesLayout_padded (inner : FrameBuilder) (minimumSize : ℕ) (ih : inner.WritesLayout) :
    (FrameBuilder.padded inner minimumSize).WritesLayout := by
  intro old rest h
  rw [layout_padded_length] at h ⊢
  -- `front` is where the frame goes, `middle` the padding, `tail` its size
  obtain ⟨front, back, rfl, hfront, hback⟩ := exists_append_of_length old inner.layout.length
    (minimumSize - inner.layout.length + 4) (by omega)
  obtain ⟨middle, tail, rfl, hmiddle, htail⟩ :=
    exists_append_of_length back (minimumSize - inner.layout.length) 4 hback
  have hinner := ih front (middle ++ tail ++ rest) hfront
  have hpadding := inPart_writeSlice inner.layout.length
    (inner.layout.length + (minimumSize - inner.layout.length))
    (List.replicate (minimumSize - inner.layout.length) 0) inner.layout middle (tail ++ rest) rfl
    (by rw [hmiddle]) (by rw [hmiddle, List.length_replicate])
  have hpre : (inner.layout ++ List.replicate (minimumSize - inner.layout.length) 0).length =
      inner.layout.length + (minimumSize - inner.layout.length) := by
    rw [List.length_append, List.length_replicate]
  have htrailing := inTail_writeSlice
    (inner.layout.length + (minimumSize - inner.layout.length))
    (le32 (minimumSize - inner.layout.length))
    (inner.layout ++ List.replicate (minimumSize - inner.layout.length) 0) tail rest hpre htail
  have hroom := checkIntoSize_fits (minimumSize - inner.layout.length)
    (inner.layout ++ List.replicate (minimumSize - inner.layout.length) 0 ++ (tail ++ rest)) (by
      simp only [List.length_append, List.length_replicate]
      omega)
  rw [List.append_assoc, writeInto, Action.bind_of_ok _ _ _ _ _ hinner]
  by_cases hshort : inner.layout.length < minimumSize
  · have hcheck := checkIntoSize_fits
      (inner.layout.length + (minimumSize - inner.layout.length))
      (inner.layout ++ (middle ++ tail ++ rest)) (by
        simp only [List.length_append]
        omega)
    simp only [if_pos hshort]
    rw [Action.bind_of_ok _ _ _ _ _ hcheck, List.append_assoc middle, ← List.append_assoc,
      Action.bind_of_ok _ _ _ _ _ hpadding, Action.pure_bind,
      Action.bind_of_ok _ _ _ _ _ hroom, Action.bind_of_ok _ _ _ _ _ htrailing]
    simp only [Action.pure_apply, layout, paddedBytes, List.append_assoc]
  -- without padding only its size is written
  · have hnone : minimumSize - inner.layout.length = 0 := by omega
    obtain rfl : middle = [] := List.length_eq_zero_iff.mp (by omega)
    rw [hnone, List.replicate_zero, List.append_nil] at hroom htrailing
    simp only [if_neg hshort]
    rw [Action.pure_bind, List.nil_append, Action.bind_of_ok _ _ _ _ _ hroom,
      Action.bind_of_ok _ _ _ _ _ htrailing]
    simp only [Action.pure_apply, layout, paddedBytes, hnone, List.replicate_zero,
      List.append_nil, List.append_assoc]

theorem writesLayout_compound (left right : FrameBuilder) (ihl : left.WritesLayout)
    (ihr : right.WritesLayout) :
    (FrameBuilder.compound left right).WritesLayout := by
  intro old rest h
  rw [layout_compound_length] at h ⊢
  -- `front` is where the left part goes, `middle` the right one, `tail` the offset
  obtain ⟨front, back, rfl, hfront, hback⟩ := exists_append_of_length old left.layout.length
    (right.layout.length + 4) (by omega)
  obtain ⟨middle, tail, rfl, hmiddle, htail⟩ :=
    exists_append_of_length back right.layout.length 4 hback
  have hleft := ihl front (middle ++ tail ++ rest) hfront
  have hright : inTail left.layout.length right.writeInto
      (left.layout ++ (middle ++ tail ++ rest)) =
      (.ok right.layout.length, left.layout ++ (right.layout ++ (tail ++ rest))) := by
    rw [inTail_append _ _ left.layout _ rfl, List.append_assoc, ihr middle (tail ++ rest) hmiddle]
  have hcheck := checkIntoSize_fits (left.layout.length + right.layout.length + 4)
    (left.layout ++ (right.layout ++ (tail ++ rest))) (by
      simp only [List.length_append]
      omega)
  have hoffset := inTail_writeSlice (left.layout.length + right.layout.length)
    (le32 left.layout.length) (left.layout ++ right.layout) tail rest
    (by rw [List.length_append]) htail
  rw [List.append_assoc left.layout right.layout (tail ++ rest)] at hoffset
  rw [List.append_assoc, writeInto, Action.bind_of_ok _ _ _ _ _ hleft,
    Action.bind_of_ok _ _ _ _ _ hright, Action.bind_of_ok _ _ _ _ _ hcheck,
    Action.bind_of_ok _ _ _ _ _ hoffset]
  simp only [Action.pure_apply, layout, List.append_assoc]

theorem writesLayout (b : FrameBuilder) : b.WritesLayout := by
  induction b with
  | bytes data => exact writesLayout_bytes data
  | sized inner ih => exact writesLayout_sized inner ih
  | multihash d inner ih => exact writesLayout_multihash d inner ih
  | padded inner minimumSize ih => exact writesLayout_padded inner minimumSize ih
  | compound left right ihl ihr => exact writesLayout_compound left right ihl ihr

theorem writeInto_fits (b : FrameBuilder) (into : Bytes) (h : b.layout.length ≤ into.length) :
    b.writeInto into = (.ok b.layout.length, b.layout ++ into.drop b.layout.length) := by
  have hfront : (into.take b.layout.length).length = b.layout.length := by
    rw [List.length_take]
    omega
  have hwrite := b.writesLayout _ (into.drop b.layout.length) hfront
  rwa [List.take_append_drop] at hwrite

/-- The call on this buffer returns an error; it does not panic. -/
def Fails {A : Type} (x : Action Bytes FramingError A) (into : Bytes) : Prop :=
  ∃ e, (x into).1 = .error (.error e)

section Failures
variable {A B : Type}

theorem fails_bind (x : Action Bytes FramingError A) (f : A → Action Bytes FramingError B)
    (into : Bytes) (h : Fails x into) : Fails (x >>= f) into := by
  obtain ⟨e, he⟩ := h
  rw [Fails, Action.bind_of_error x f into (x into).2 (.error e) (Prod.ext he rfl)]
  exact ⟨e, rfl⟩

theorem fails_bind_of_ok (x : Action Bytes FramingError A) (f : A → Action Bytes FramingError B)
    (into into' : Bytes) (a : A) (hx : x into = (.ok a, into')) (h : Fails (f a) into') :
    Fails (x >>= f) into := by
  rw [Fails, Action.bind_of_ok x f into into' a hx]
  exact h

theorem fails_checkIntoSize (needed : ℕ) (into : Bytes) (h : into.length < needed) :
    Fails (checkIntoSize needed) into := by
  rw [Fails, checkIntoSize, if_pos h]
  exact ⟨_, rfl⟩

theorem fails_writeSlice (data into : Bytes) (h : into.length < data.length) :
    Fails (writeSlice data) into := by
  rw [Fails, writeSlice, if_pos h]
  exact ⟨_, rfl⟩

theorem fails_inTail (start : ℕ) (x : Action Bytes FramingError A) (pre rest : Bytes)
    (hstart : pre.length = start) (h : Fails x rest) : Fails (inTail start x) (pre ++ rest) := by
  rw [Fails, inTail_append start x pre rest hstart]
  exact h

end Failures

/-- A buffer without room for the frame is an error wherever the room ends. -/
def FailsShort (b : FrameBuilder) : Prop :=
  ∀ into : Bytes, into.length < b.layout.length → Fails b.writeInto into

theorem failsShort_bytes (data : Bytes) : (FrameBuilder.bytes data).FailsShort := by
  intro into h
  rw [writeInto]
  exact fails_bind _ _ _ (fails_checkIntoSize _ _ h)

theorem failsShort_sized (inner : FrameBuilder) (ih : inner.FailsShort) :
    (FrameBuilder.sized inner).FailsShort := by
  intro into h
  rw [layout_sized_length] at h
  rw [writeInto]
  by_cases hsmall : into.length < 8
  · exact fails_bind _ _ _ (fails_checkIntoSize _ _ hsmall)
  apply fails_bind_of_ok _ _ _ _ _ (checkIntoSize_fits 8 into (by omega))
  obtain ⟨front, back, rfl, hfront, hback⟩ :=
    exists_append_of_length into 4 (into.length - 4) (by omega)
  rw [List.length_append] at h hback
  -- the room ends within the frame, or after it and before its trailing size
  by_cases hshort : back.length < inner.layout.length
  · exact fails_bind _ _ _ (fails_inTail 4 _ front back hfront (ih back hshort))
  have hinner : inTail 4 inner.writeInto (front ++ back) = (.ok inner.layout.length,
      front ++ (inner.layout ++ back.drop inner.layout.length)) := by
    rw [inTail_append 4 _ front back hfront, writeInto_fits inner back (by omega)]
  apply fails_bind_of_ok _ _ _ _ _ hinner
  have hleading := inFront_writeSlice 4 (le32 inner.layout.length) front
    (inner.layout ++ back.drop inner.layout.length) hfront hfront
  apply fails_bind_of_ok _ _ _ _ _ hleading
  apply fails_bind _ _ _ (fails_checkIntoSize _ _ _)
  simp only [List.length_append, le32_length, List.length_drop]
  omega

theorem failsShort_multihash (d : LawfulDigest) (inner : FrameBuilder) (ih : inner.FailsShort) :
    (FrameBuilder.multihash d inner).FailsShort := by
  intro into h
  rw [layout_multihash_length] at h
  rw [writeInto]
  by_cases hshort : into.length < inner.layout.length
  · exact fails_bind _ _ _ (ih into hshort)
  apply fails_bind_of_ok _ _ _ _ _ (writeInto_fits inner into (by omega))
  have hdata := slice_front inner.layout (into.drop inner.layout.length)
  rw [Fails, Action.get_bind, hdata, orPanic_some, Action.lift_ok_bind]
  apply fails_bind _ _ _ (fails_checkIntoSize _ _ _)
  simp only [List.length_append, List.length_drop]
  omega

theorem failsShort_padded (inner : FrameBuilder) (minimumSize : ℕ) (ih : inner.FailsShort) :
    (FrameBuilder.padded inner minimumSize).FailsShort := by
  intro into h
  rw [layout_padded_length] at h
  rw [writeInto]
  by_cases hshort : into.length < inner.layout.length
  · exact fails_bind _ _ _ (ih into hshort)
  apply fails_bind_of_ok _ _ _ _ _ (writeInto_fits inner into (by omega))
  have hlen : (inner.layout ++ into.drop inner.layout.length).length = into.length := by
    rw [List.length_append, List.length_drop]
    omega
  by_cases hpadding : inner.layout.length < minimumSize
  · simp only [if_pos hpadding]
    by_cases hroom : into.length < inner.layout.length + (minimumSize - inner.layout.length)
    · exact fails_bind _ _ _ (fails_checkIntoSize _ _ (by rw [hlen]; exact hroom))
    apply fails_bind_of_ok _ _ _ _ _ (checkIntoSize_fits _ _ (by rw [hlen]; omega))
    obtain ⟨middle, tail, hdrop, hmiddle, htail⟩ :=
      exists_append_of_length (into.drop inner.layout.length)
        (minimumSize - inner.layout.length) (into.length - minimumSize)
        (by rw [List.length_drop]; omega)
    rw [hdrop, ← List.append_assoc]
    apply fails_bind_of_ok _ _ _ _ _ (inPart_writeSlice _ _ _ inner.layout middle tail rfl
      (by rw [hmiddle]) (by rw [hmiddle, List.length_replicate]))
    rw [Action.pure_bind]
    -- the check asks for the padding alone, and then its size does not fit
    apply fails_bind_of_ok _ _ _ _ _ (checkIntoSize_fits _ _ _)
    · apply fails_bind _ _ _ (fails_inTail _ _ _ tail _ (fails_writeSlice _ _ _))
      · rw [List.length_append, List.length_replicate]
      · rw [le32_length]
        omega
    · simp only [List.length_append, List.length_replicate]
      omega
  · simp only [if_neg hpadding]
    rw [Action.pure_bind]
    apply fails_bind_of_ok _ _ _ _ _ (checkIntoSize_fits 0 _ (Nat.zero_le _))
    apply fails_bind _ _ _ (fails_inTail _ _ inner.layout _ rfl (fails_writeSlice _ _ _))
    rw [le32_length, List.length_drop]
    omega

theorem failsShort_compound (left right : FrameBuilder) (ihl : left.FailsShort)
    (ihr : right.FailsShort) :
    (FrameBuilder.compound left right).FailsShort := by
  intro into h
  rw [layout_compound_length] at h
  rw [writeInto]
  by_cases hleft : into.length < left.layout.length
  · exact fails_bind _ _ _ (ihl into hleft)
  apply fails_bind_of_ok _ _ _ _ _ (writeInto_fits left into (by omega))
  have hlen : (into.drop left.layout.length).length = into.length - left.layout.length :=
    List.length_drop
  by_cases hright : (into.drop left.layout.length).length < right.layout.length
  · exact fails_bind _ _ _ (fails_inTail _ _ left.layout _ rfl (ihr _ hright))
  have hinner : inTail left.layout.length right.writeInto
      (left.layout ++ into.drop left.layout.length) = (.ok right.layout.length, left.layout ++
        (right.layout ++ (into.drop left.layout.length).drop right.layout.length)) := by
    rw [inTail_append _ _ left.layout _ rfl, writeInto_fits right _ (by omega)]
  apply fails_bind_of_ok _ _ _ _ _ hinner
  apply fails_bind _ _ _ (fails_checkIntoSize _ _ _)
  simp only [List.length_append, List.length_drop]
  omega

theorem failsShort (b : FrameBuilder) : b.FailsShort := by
  induction b with
  | bytes data => exact failsShort_bytes data
  | sized inner ih => exact failsShort_sized inner ih
  | multihash d inner ih => exact failsShort_multihash d inner ih
  | padded inner minimumSize ih => exact failsShort_padded inner minimumSize ih
  | compound left right ihl ihr => exact failsShort_compound left right ihl ihr

section Readers
variable {I : Type} [FrameReader I]

theorem sizedFrame_new_layout (reader : I) (inner : Bytes) (hsize : inner.length < 2^32)
    (h : exposedData reader = some (sizedBytes inner)) :
    SizedFrame.new reader = .ok ⟨reader, 0, inner.length⟩ ∧
      exposedData (⟨reader, 0, inner.length⟩ : SizedFrame I) = some inner := by
  have hsized := sizedBytes_sizedBy inner hsize
  have hlen := hsized.length_eq
  constructor
  · rw [SizedFrame.new, h, orPanic_some, ok_bind]
    simp only [bind_eq_ok_iff, checkFromSize_eq_ok_iff, readU32_eq_ok_iff, List.length_drop]
    exact ⟨(), by omega, _, hsized.leading, (), by omega, rfl⟩
  · simp only [exposedData, h, Option.bind_eq_bind, Option.bind_some]
    rw [slice, if_pos (by omega), Nat.zero_add, sizedBytes_exposed]

theorem paddedFrame_new_layout (reader : I) (inner : Bytes) (minimumSize : ℕ)
    (hsize : (paddedBytes inner minimumSize).length < 2^32)
    (h : exposedData reader = some (paddedBytes inner minimumSize)) :
    PaddedFrame.new reader = .ok ⟨reader, minimumSize - inner.length⟩ ∧
      exposedData (⟨reader, minimumSize - inner.length⟩ : PaddedFrame I) = some inner := by
  obtain ⟨hnew, hexposed⟩ := paddedFrame_built inner minimumSize hsize
  constructor
  · obtain ⟨data, n, hdata, hn, hlen, hf⟩ := paddedFrame_new_ok _ _ hnew
    obtain rfl := Option.some.inj hdata
    obtain ⟨-, rfl⟩ := PaddedFrame.mk.inj hf
    rw [PaddedFrame.new, h, orPanic_some, ok_bind]
    simp only [bind_eq_ok_iff, checkFromSize_eq_ok_iff, readU32_eq_ok_iff]
    exact ⟨(), by omega, _, hn, (), hlen, rfl⟩
  · simp only [exposedData, h, Option.bind_eq_bind, Option.bind_some] at hexposed ⊢
    exact hexposed

theorem multihashFrameOf_new_layout (d : LawfulDigest) (reader : I) (inner : Bytes)
    (h : exposedData reader = some (inner ++ d.toBytes (d.toMultihash inner))) :
    MultihashFrameOf.new d.toDigest reader = .ok ⟨reader⟩ ∧
      exposedData (⟨reader⟩ : MultihashFrameOf d.toDigest I) = some inner ∧
      (⟨reader⟩ : MultihashFrameOf d.toDigest I).multihashBytes =
        some (d.toBytes (d.toMultihash inner)) ∧
      (⟨reader⟩ : MultihashFrameOf d.toDigest I).verify = .ok true := by
  have hlen : (inner ++ d.toBytes (d.toMultihash inner)).length =
      inner.length + d.multihashSize := by
    rw [List.length_append, d.toBytes_length]
  have hsub : inner.length + d.multihashSize - d.multihashSize = inner.length :=
    Nat.add_sub_cancel _ _
  have hexposed : exposedData (⟨reader⟩ : MultihashFrameOf d.toDigest I) = some inner := by
    simp only [exposedData, h, Option.bind_eq_bind, Option.bind_some]
    rw [hlen, if_pos (Nat.le_add_left _ _), hsub, slice, if_pos (by omega), List.take_left,
      List.drop_zero]
  have hbytes : (⟨reader⟩ : MultihashFrameOf d.toDigest I).multihashBytes =
      some (d.toBytes (d.toMultihash inner)) := by
    simp only [MultihashFrameOf.multihashBytes, h, Option.bind_eq_bind, Option.bind_some]
    rw [hlen, if_pos (Nat.le_add_left _ _), hsub, slice, if_pos (by omega), ← hlen,
      List.take_length, List.drop_left]
  refine ⟨?_, hexposed, hbytes, ?_⟩
  · rw [MultihashFrameOf.new, h, orPanic_some, ok_bind]
    simp only [bind_eq_ok_iff, checkFromSize_eq_ok_iff]
    exact ⟨(), by omega, rfl⟩
  · rw [MultihashFrameOf.verify, hexposed, hbytes]
    simp only [orPanic_some, ok_bind, d.fromBytes_toBytes, orError_some]
    simp [pure, Except.pure]

theorem compoundFrame_new_layout (reader : I) (left right : Bytes) (hsize : left.length < 2^32)
    (h : exposedData reader = some (left ++ right ++ le32 left.length)) :
    CompoundFrame.new reader = .ok ⟨reader, left.length⟩ ∧
      exposedData (⟨reader, left.length⟩ : CompoundFrame I).readerLeft = some left ∧
      exposedData (⟨reader, left.length⟩ : CompoundFrame I).readerRight = some right := by
  have hlen : (left ++ right ++ le32 left.length).length = left.length + right.length + 4 := by
    simp only [List.length_append, le32_length]
  have hend : (left ++ right ++ le32 left.length).length - 4 = (left ++ right).length := by
    rw [hlen, List.length_append]
    omega
  have hoffset : readLe32 ((left ++ right ++ le32 left.length).drop
      ((left ++ right ++ le32 left.length).length - 4)) = some left.length := by
    rw [hend, List.drop_left]
    have hread := readLe32_le32_append left.length hsize []
    rwa [List.append_nil] at hread
  refine ⟨?_, ?_, ?_⟩
  · rw [CompoundFrame.new, h, orPanic_some, ok_bind]
    simp only [bind_eq_ok_iff, checkFromSize_eq_ok_iff, readU32_eq_ok_iff]
    exact ⟨(), by omega, _, hoffset, rfl⟩
  · simp only [exposedData, CompoundFrame.readerLeft, h, Option.bind_eq_bind, Option.bind_some,
      if_true]
    rw [slice, if_pos (by omega), List.append_assoc, List.take_left, List.drop_zero]
  · simp only [exposedData, CompoundFrame.readerRight, h, Option.bind_eq_bind, Option.bind_some,
      Bool.false_eq_true, if_false]
    rw [if_pos (by omega), hend, List.length_append]
    exact slice_append left right (le32 left.length)

end Readers

theorem readsBack_of_exposed (b : FrameBuilder) {I : Type} [FrameReader I] (reader : I)
    (hsize : b.layout.length < 2^32) (h : exposedData reader = some b.layout) :
    b.ReadsBack reader := by
  induction b generalizing I with
  | bytes data => exact h
  | sized inner ih =>
    rw [layout_sized_length] at hsize
    have hinner : inner.layout.length < 2^32 := by omega
    obtain ⟨hnew, hexposed⟩ := sizedFrame_new_layout reader inner.layout hinner h
    exact ⟨_, hnew, hexposed.trans (asBytes_eq inner).symm, ih _ hinner hexposed⟩
  | multihash d inner ih =>
    rw [layout_multihash_length] at hsize
    obtain ⟨hnew, hexposed, hbytes, hverify⟩ :=
      multihashFrameOf_new_layout d reader inner.layout h
    refine ⟨_, hnew, hexposed.trans (asBytes_eq inner).symm, ?_, hverify,
      ih _ (by omega) hexposed⟩
    rw [asBytes_eq, Option.map_some, hbytes]
  | padded inner minimumSize ih =>
    have hpadded := hsize
    rw [layout_padded_length] at hsize
    obtain ⟨hnew, hexposed⟩ :=
      paddedFrame_new_layout reader inner.layout minimumSize hpadded h
    exact ⟨_, hnew, hexposed.trans (asBytes_eq inner).symm, ih _ (by omega) hexposed⟩
  | compound left right ihl ihr =>
    rw [layout_compound_length] at hsize
    have hleft : left.layout.length < 2^32 := by omega
    obtain ⟨hnew, hexposedLeft, hexposedRight⟩ :=
      compoundFrame_new_layout reader left.layout right.layout hleft h
    exact ⟨_, hnew, hexposedLeft.trans (asBytes_eq left).symm, ihl _ hleft hexposedLeft,
      hexposedRight.trans (asBytes_eq right).symm, ihr _ (by omega) hexposedRight⟩

/-- Builders and readers agree in every nesting: the same bytes are written to a vector and into a
buffer, their number is what the calls return and what was announced, a shorter buffer is an
error, and the readers give the parts back. -/
theorem builders_readers_agree (b : FrameBuilder)
    (hsize : ∀ size, b.expectedSize = some size → size < 2^32) :
    ∃ bytes, b.asBytes = some bytes ∧
      (∀ written, b.writeTo written = (.ok bytes.length, written ++ bytes)) ∧
      b.expectedSize = some bytes.length ∧
      (∀ into : Bytes, bytes.length ≤ into.length →
        b.writeInto into = (.ok bytes.length, bytes ++ into.drop bytes.length)) ∧
      (∀ into : Bytes, into.length < bytes.length →
        ∃ e, (b.writeInto into).1 = .error (.error e)) ∧
      b.ReadsBack bytes := by
  have hlen := hsize b.layout.length b.expectedSize_eq
  exact ⟨b.layout, b.asBytes_eq, b.writeTo_eq, b.expectedSize_eq, b.writeInto_fits,
    b.failsShort, b.readsBack_of_exposed b.layout hlen rfl⟩

end FrameBuilder

/-- `Sha3_256` on three bytes; no other data is digested here. -/
def sampleMultihash (data : Bytes) : Bytes :=
  if data = [1, 2, 3] then
    [22, 32, 253, 23, 128, 166, 252, 158, 224, 218, 178, 108, 235, 75, 57, 65, 171, 3, 230, 108,
      205, 151, 13, 29, 185, 22, 18, 198, 109, 244, 81, 91, 10, 10]
  else 22 :: 32 :: List.replicate 32 0

theorem sampleMultihash_head (data : Bytes) :
    (sampleMultihash data).length = 34 ∧ (sampleMultihash data).take 2 = [22, 32] := by
  rw [sampleMultihash]
  split_ifs <;> exact ⟨rfl, rfl⟩

def sampleDigest : LawfulDigest where
  size := 32
  Multihash := Bytes
  decEq := inferInstance
  toMultihash := sampleMultihash
  toBytes := id
  fromBytes data := if data.length = 34 ∧ data.take 2 = [22, 32] then some data else none
  toBytes_length data := (sampleMultihash_head data).1
  fromBytes_toBytes data := if_pos (sampleMultihash_head data)

/-- A padded message beside a digested one, sized as a whole. -/
def sampleBuilder : FrameBuilder :=
  .sized (.compound (.padded (.sized (.bytes [5])) 12)
    (.multihash sampleDigest (.bytes [1, 2, 3])))

theorem builders_readers_agree_sample : ∃ bytes, sampleBuilder.asBytes = some bytes ∧
    sampleBuilder.expectedSize = some bytes.length ∧ sampleBuilder.ReadsBack bytes := by
  obtain ⟨bytes, hbytes, -, hsize, -, -, hread⟩ :=
    sampleBuilder.builders_readers_agree (by
      rintro size hsize
      obtain rfl := Option.some.inj hsize
      decide)
  exact ⟨bytes, hbytes, hsize, hread⟩

end Exocore.Core
