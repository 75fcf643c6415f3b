import Exocore.CoreFraming

/-! Messages inside frames. The two stacks the chain is made of are a message, its
multihash and its size, and a message, its padding and its size. -/
namespace Exocore.Core

/-- Reader of a message of another crate, none where the segments are not readable.
The root is decoded on each access and may fail on its own. -/
abbrev MessageReader (T : Type) := Bytes → Option (Option T)

/-- What the accessors of `TypedCapnpFrame<MultihashFrame<SizedFrame<_>>>` return. -/
structure HashedFrame (T : Type) where
  wholeData : Bytes
  multihashBytes : Bytes
  reader : Option T
deriving DecidableEq

/-- What the accessors of `TypedCapnpFrame<PaddedFrame<SizedFrame<_>>>` return. -/
structure PaddedTypedFrame (T : Type) where
  wholeData : Bytes
  reader : Option T
deriving DecidableEq

section Readers
variable {T : Type} (decode : MessageReader T)

def HashedFrame.ofSized (sized : SizedFrame Bytes) : Res FramingError (HashedFrame T) := do
  let frame ← MultihashFrame.new sized
  let data ← orPanic (FrameReader.exposedData frame)
  let reader ← orError .capnp (decode data)
  let wholeData ← orPanic (FrameReader.wholeData frame)
  let multihashBytes ← orPanic frame.multihashBytes
  pure ⟨wholeData, multihashBytes, reader⟩

def PaddedTypedFrame.ofSized (sized : SizedFrame Bytes) :
    Res FramingError (PaddedTypedFrame T) := do
  let frame ← PaddedFrame.new sized
  let data ← orPanic (FrameReader.exposedData frame)
  let reader ← orError .capnp (decode data)
  let wholeData ← orPanic (FrameReader.wholeData frame)
  pure ⟨wholeData, reader⟩

def HashedFrame.read (data : Bytes) : Res FramingError (HashedFrame T) := do
  HashedFrame.ofSized decode (← SizedFrame.new data)

def HashedFrame.readFromNextOffset (data : Bytes) (nextOffset : ℕ) :
    Res FramingError (HashedFrame T) := do
  HashedFrame.ofSized decode (← SizedFrame.newFromNextOffset data nextOffset)

def PaddedTypedFrame.read (data : Bytes) : Res FramingError (PaddedTypedFrame T) := do
  PaddedTypedFrame.ofSized decode (← SizedFrame.new data)

def PaddedTypedFrame.readFromNextOffset (data : Bytes) (nextOffset : ℕ) :
    Res FramingError (PaddedTypedFrame T) := do
  PaddedTypedFrame.ofSized decode (← SizedFrame.newFromNextOffset data nextOffset)

/-- A sized frame that stands at an offset of some data reads as the frame does on its own. -/
theorem sizedFrame_data (pre whole rest : Bytes) (n : ℕ) (hw : whole.length = n + 8) :
    FrameReader.exposedData (⟨pre ++ whole ++ rest, pre.length, n⟩ : SizedFrame Bytes) =
        some ((whole.take (4 + n)).drop 4) ∧
      FrameReader.wholeData (⟨pre ++ whole ++ rest, pre.length, n⟩ : SizedFrame Bytes) =
        some whole := by
  have hdrop : (pre ++ whole ++ rest).drop pre.length = whole ++ rest := by
    rw [List.append_assoc, List.drop_left]
  have htake : ∀ m ≤ n + 8, (pre ++ whole ++ rest).take (pre.length + m) =
      pre ++ whole.take m := by
    intro m hm
    rw [List.append_assoc, List.take_length_add_append, List.take_append_of_le_length (by omega)]
  constructor
  · change slice (pre ++ whole ++ rest) (pre.length + 4) (pre.length + 4 + n) = _
    rw [slice, if_pos (by simp only [List.length_append]; omega), Nat.add_assoc,
      htake (4 + n) (by omega), List.drop_length_add_append]
  · change slice (pre ++ whole ++ rest) pre.length (pre.length + n + 8) = _
    rw [slice, if_pos (by simp only [List.length_append]; omega), Nat.add_assoc,
      htake (n + 8) (by omega), List.drop_left, List.take_of_length_le (by omega)]

theorem multihashFrame_data (s : SizedFrame Bytes) (data : Bytes)
    (he : FrameReader.exposedData s = some data) (hl : multihashSize ≤ data.length) :
    FrameReader.exposedData (⟨s⟩ : MultihashFrame (SizedFrame Bytes)) =
        some (data.take (data.length - multihashSize)) ∧
      (⟨s⟩ : MultihashFrame (SizedFrame Bytes)).multihashBytes =
        some (data.drop (data.length - multihashSize)) := by
  constructor
  · change (FrameReader.exposedData s >>= fun innerData => if multihashSize ≤ innerData.length then
      slice innerData 0 (innerData.length - multihashSize) else none) = _
    rw [he, Option.bind_eq_bind, Option.bind_some, if_pos hl, slice, if_pos (by omega),
      List.drop_zero]
  · change (FrameReader.exposedData s >>= fun innerData => if multihashSize ≤ innerData.length then
      slice innerData (innerData.length - multihashSize) innerData.length else none) = _
    rw [he, Option.bind_eq_bind, Option.bind_some, if_pos hl, slice, if_pos (by omega),
      List.take_length]

/-- The accessors only see the bytes of the frame, wherever it stands. -/
theorem hashedFrame_ofSized_of_data (s : SizedFrame Bytes) (data whole : Bytes)
    (he : FrameReader.exposedData s = some data) (hw : FrameReader.wholeData s = some whole) :
    HashedFrame.ofSized decode s =
      if data.length < multihashSize then
        .error (.error (.sourceTooSmall multihashSize data.length))
      else match decode (data.take (data.length - multihashSize)) with
        | none => .error (.error .capnp)
        | some r => .ok ⟨whole, data.drop (data.length - multihashSize), r⟩ := by
  by_cases hl : data.length < multihashSize
  · rw [HashedFrame.ofSized, MultihashFrame.new, he, if_pos hl]
    simp only [orPanic_some, ok_bind, checkFromSize, if_pos hl, error_bind]
  · have hle : multihashSize ≤ data.length := by omega
    obtain ⟨hexp, hmh⟩ := multihashFrame_data s data he hle
    have hwhole : FrameReader.wholeData (⟨s⟩ : MultihashFrame (SizedFrame Bytes)) = some whole := hw
    rw [HashedFrame.ofSized, MultihashFrame.new, he, if_neg hl]
    simp only [orPanic_some, ok_bind, checkFromSize, if_neg hl, pure, Except.pure, hexp, hmh,
      hwhole]
    cases decode (data.take (data.length - multihashSize)) with
    | none => rfl
    | some r => rfl

/-- Same for the padded frame; the padding size is read at the end of the data. -/
theorem paddedTypedFrame_ofSized_of_data (s : SizedFrame Bytes) (data whole : Bytes)
    (he : FrameReader.exposedData s = some data) (hw : FrameReader.wholeData s = some whole) :
    PaddedTypedFrame.ofSized decode s =
      (PaddedFrame.new data >>= fun padded =>
        orPanic (FrameReader.exposedData padded) >>= fun message =>
        orError .capnp (decode message) >>= fun r => .ok ⟨whole, r⟩) := by
  have hwhole : ∀ p, FrameReader.wholeData (⟨s, p⟩ : PaddedFrame (SizedFrame Bytes)) = some whole :=
    fun _ => hw
  have hexp : ∀ p, FrameReader.exposedData (⟨s, p⟩ : PaddedFrame (SizedFrame Bytes)) =
      FrameReader.exposedData (⟨data, p⟩ : PaddedFrame Bytes) := by
    intro p
    change (FrameReader.exposedData s >>= _) = (some data >>= _)
    rw [he]
  rw [PaddedTypedFrame.ofSized, PaddedFrame.new, PaddedFrame.new, he]
  change (orPanic (some data) >>= _) >>= _ = (orPanic (some data) >>= _) >>= _
  simp only [orPanic_some, ok_bind, bind_assoc, pure, Except.pure, hexp, hwhole]

/-- A sized frame with nothing after it: the size of the inner bytes at both ends. -/
structure SizedBy (whole : Bytes) (n : ℕ) : Prop where
  length_eq : whole.length = n + 8
  leading : readLe32 whole = some n
  trailing : readLe32 (whole.drop (n + 4)) = some n

theorem sizedBytes_sizedBy (inner : Bytes) (hn : inner.length < 2^32) :
    SizedBy (sizedBytes inner) inner.length := by
  refine ⟨?_, ?_, ?_⟩
  · simp only [sizedBytes, List.length_append, le32_length]
    omega
  · rw [sizedBytes, List.append_assoc]
    exact readLe32_le32_append inner.length hn _
  · have hpre : (le32 inner.length ++ inner).length = inner.length + 4 := by
      rw [List.length_append, le32_length, Nat.add_comm]
    rw [sizedBytes, ← hpre, List.drop_left]
    simpa using readLe32_le32_append inner.length hn []

theorem sizedFrame_new_append (whole rest : Bytes) (n : ℕ) (hl : whole.length = n + 8)
    (hn : readLe32 whole = some n) :
    SizedFrame.new (whole ++ rest) = .ok ⟨whole ++ rest, 0, n⟩ := by
  rw [sizedFrame_new_eq_ok_iff]
  exact ⟨n, readLe32_append whole rest n hn, by rw [List.length_append]; omega, rfl⟩

theorem sizedFrame_newFromNextOffset_append (pre whole rest : Bytes) (n : ℕ)
    (hs : SizedBy whole n) :
    SizedFrame.newFromNextOffset (pre ++ whole ++ rest) (pre.length + whole.length) =
      .ok ⟨pre ++ whole ++ rest, pre.length, n⟩ := by
  have hl := hs.length_eq
  have hdrop : (pre ++ whole ++ rest).drop (pre.length + whole.length - 4) =
      whole.drop (n + 4) ++ rest := by
    rw [show pre.length + whole.length - 4 = pre.length + (n + 4) by omega, List.append_assoc,
      List.drop_length_add_append, List.drop_append_of_le_length (by omega)]
  rw [sizedFrame_newFromNextOffset_eq_ok_iff, hdrop]
  refine ⟨n, readLe32_append _ rest n hs.trailing, by omega, ?_, ?_⟩
  · simp only [List.length_append]
    omega
  · rw [show pre.length + whole.length - (n + 8) = pre.length by omega]

theorem sizedFrame_new_self (whole : Bytes) (n : ℕ) (hl : whole.length = n + 8)
    (hn : readLe32 whole = some n) : SizedFrame.new whole = .ok ⟨whole, 0, n⟩ := by
  simpa using sizedFrame_new_append whole [] n hl hn

theorem hashedFrame_ofSized_append (pre whole rest : Bytes) (n : ℕ) (hl : whole.length = n + 8) :
    HashedFrame.ofSized decode ⟨pre ++ whole ++ rest, pre.length, n⟩ =
      HashedFrame.ofSized decode ⟨whole, 0, n⟩ := by
  obtain ⟨he, hw⟩ := sizedFrame_data pre whole rest n hl
  obtain ⟨he', hw'⟩ := sizedFrame_data [] whole [] n hl
  simp only [List.nil_append, List.append_nil, List.length_nil] at he' hw'
  rw [hashedFrame_ofSized_of_data decode _ _ _ he hw,
    hashedFrame_ofSized_of_data decode _ _ _ he' hw']

theorem paddedTypedFrame_ofSized_append (pre whole rest : Bytes) (n : ℕ)
    (hl : whole.length = n + 8) :
    PaddedTypedFrame.ofSized decode ⟨pre ++ whole ++ rest, pre.length, n⟩ =
      PaddedTypedFrame.ofSized decode ⟨whole, 0, n⟩ := by
  obtain ⟨he, hw⟩ := sizedFrame_data pre whole rest n hl
  obtain ⟨he', hw'⟩ := sizedFrame_data [] whole [] n hl
  simp only [List.nil_append, List.append_nil, List.length_nil] at he' hw'
  rw [paddedTypedFrame_ofSized_of_data decode _ _ _ he hw,
    paddedTypedFrame_ofSized_of_data decode _ _ _ he' hw']

theorem hashedFrame_read_append (whole rest : Bytes) (n : ℕ) (hl : whole.length = n + 8)
    (hn : readLe32 whole = some n) :
    HashedFrame.read decode (whole ++ rest) = HashedFrame.read decode whole := by
  rw [HashedFrame.read, sizedFrame_new_append whole rest n hl hn, HashedFrame.read,
    sizedFrame_new_self whole n hl hn]
  exact hashedFrame_ofSized_append decode [] whole rest n hl

theorem hashedFrame_readFromNextOffset_append (pre whole rest : Bytes) (n : ℕ)
    (hs : SizedBy whole n) :
    HashedFrame.readFromNextOffset decode (pre ++ whole ++ rest) (pre.length + whole.length) =
      HashedFrame.read decode whole := by
  rw [HashedFrame.readFromNextOffset, sizedFrame_newFromNextOffset_append pre whole rest n hs,
    HashedFrame.read, sizedFrame_new_self whole n hs.length_eq hs.leading]
  exact hashedFrame_ofSized_append decode pre whole rest n hs.length_eq

theorem paddedTypedFrame_readFromNextOffset_append (pre whole rest : Bytes) (n : ℕ)
    (hs : SizedBy whole n) :
    PaddedTypedFrame.readFromNextOffset decode (pre ++ whole ++ rest)
        (pre.length + whole.length) = PaddedTypedFrame.read decode whole := by
  rw [PaddedTypedFrame.readFromNextOffset,
    sizedFrame_newFromNextOffset_append pre whole rest n hs, PaddedTypedFrame.read,
    sizedFrame_new_self whole n hs.length_eq hs.leading]
  exact paddedTypedFrame_ofSized_append decode pre whole rest n hs.length_eq

theorem hashedFrame_ofSized_wholeData (s : SizedFrame Bytes) (data whole : Bytes)
    (f : HashedFrame T) (he : FrameReader.exposedData s = some data)
    (hw : FrameReader.wholeData s = some whole) (hf : HashedFrame.ofSized decode s = .ok f) :
    f.wholeData = whole := by
  rw [hashedFrame_ofSized_of_data decode s data whole he hw] at hf
  split_ifs at hf with hl
  split at hf
  · contradiction
  · rw [← Except.ok.inj hf]

/-- A frame that was read is the front of the data, and reads the same on its own. -/
theorem hashedFrame_read_eq_ok (data : Bytes) (f : HashedFrame T)
    (hf : HashedFrame.read decode data = .ok f) :
    ∃ n rest, data = f.wholeData ++ rest ∧ f.wholeData.length = n + 8 ∧
      readLe32 f.wholeData = some n ∧ HashedFrame.read decode f.wholeData = .ok f := by
  obtain ⟨s, hs, hof⟩ := (bind_eq_ok_iff _ _ _).mp hf
  obtain ⟨n, hn, hlen, rfl⟩ := (sizedFrame_new_eq_ok_iff data s).mp hs
  have htake : (data.take (n + 8)).length = n + 8 := by
    rw [List.length_take]
    omega
  have hsplit : [] ++ data.take (n + 8) ++ data.drop (n + 8) = data := by
    rw [List.nil_append, List.take_append_drop]
  obtain ⟨he, hw⟩ := sizedFrame_data [] (data.take (n + 8)) (data.drop (n + 8)) n htake
  rw [hsplit] at he hw
  have hwhole := hashedFrame_ofSized_wholeData decode _ _ _ f he hw hof
  have hlead : readLe32 (data.take (n + 8)) = some n := by
    rw [readLe32_take data (n + 8) (by omega), hn]
  refine ⟨n, data.drop (n + 8), ?_, ?_, ?_, ?_⟩
  · rw [hwhole, List.take_append_drop]
  · rw [hwhole, htake]
  · rw [hwhole, hlead]
  · rw [hwhole, ← hashedFrame_read_append decode (data.take (n + 8)) (data.drop (n + 8)) n htake
      hlead, List.take_append_drop, hf]

/-- A padded frame gives back the message it was built around. -/
theorem paddedFrame_built (message : Bytes) (minimumSize : ℕ)
    (hsize : (paddedBytes message minimumSize).length < 2^32) :
    PaddedFrame.new (paddedBytes message minimumSize) =
        .ok ⟨paddedBytes message minimumSize, minimumSize - message.length⟩ ∧
      FrameReader.exposedData (⟨paddedBytes message minimumSize, minimumSize - message.length⟩ :
        PaddedFrame Bytes) = some message := by
  have hlen : (paddedBytes message minimumSize).length =
      message.length + (minimumSize - message.length) + 4 := by
    simp only [paddedBytes, List.length_append, List.length_replicate, le32_length]
  have hfront : (message ++ List.replicate (minimumSize - message.length) 0).length =
      (paddedBytes message minimumSize).length - 4 := by
    rw [hlen, List.length_append, List.length_replicate]
    omega
  have hpadding : readLe32 ((paddedBytes message minimumSize).drop
      ((paddedBytes message minimumSize).length - 4)) = some (minimumSize - message.length) := by
    rw [← hfront, paddedBytes, List.drop_left]
    have hread := readLe32_le32_append (minimumSize - message.length) (by omega) []
    rwa [List.append_nil] at hread
  constructor
  · simp only [PaddedFrame.new, FrameReader.exposedData, orPanic_some, ok_bind, bind_eq_ok_iff,
      checkFromSize_eq_ok_iff, readU32, hpadding, orError_some, pure, Except.pure]
    exact ⟨(), by omega, (), by omega, trivial⟩
  · simp only [FrameReader.exposedData, Option.bind_eq_bind, Option.bind_some]
    rw [if_pos (by omega), slice, if_pos (by omega)]
    have hmessage : (paddedBytes message minimumSize).length - 4 - (minimumSize - message.length) =
        message.length := by omega
    rw [hmessage, paddedBytes, List.append_assoc, List.take_left, List.drop_zero]

theorem sizedBytes_exposed (inner : Bytes) :
    ((sizedBytes inner).take (4 + inner.length)).drop 4 = inner := by
  have hfour : (le32 inner.length).length = 4 := le32_length _
  rw [sizedBytes, List.take_append_of_le_length (by rw [List.length_append]; omega),
    List.take_of_length_le (by rw [List.length_append]; omega), ← hfour, List.drop_left]

theorem paddedTypedFrame_read_built (message : Bytes) (minimumSize : ℕ)
    (hsize : (paddedBytes message minimumSize).length < 2^32) :
    PaddedTypedFrame.read decode (sizedBytes (paddedBytes message minimumSize)) =
      (orError .capnp (decode message) >>= fun r =>
        .ok ⟨sizedBytes (paddedBytes message minimumSize), r⟩) := by
  have hs := sizedBytes_sizedBy _ hsize
  obtain ⟨he, hw⟩ := sizedFrame_data [] (sizedBytes (paddedBytes message minimumSize)) [] _
    hs.length_eq
  simp only [List.nil_append, List.append_nil, List.length_nil] at he hw
  rw [sizedBytes_exposed] at he
  obtain ⟨hnew, hexposed⟩ := paddedFrame_built message minimumSize hsize
  rw [PaddedTypedFrame.read, sizedFrame_new_self _ _ hs.length_eq hs.leading, ok_bind,
    paddedTypedFrame_ofSized_of_data decode _ _ _ he hw, hnew]
  simp only [ok_bind, hexposed, orPanic_some]

end Readers

end Exocore.Core
