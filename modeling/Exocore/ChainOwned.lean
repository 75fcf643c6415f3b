import Exocore.ChainBlockRead
import Exocore.CoreOwned

/-! Owned copies of blocks. A block is here made of the frames themselves, with the positions at
which they stand in what the block was read from. -/
namespace Exocore.Chain

open Exocore.Core FrameReader ToOwnedFrame

instance {I : Type} [ToOwnedFrame I] : ToOwnedFrame (MultihashFrame I) where
  OwnedType := MultihashFrame (OwnedType I)
  toOwnedFrame f := (toOwnedFrame f.inner).map fun inner => ⟨inner⟩

instance {I : Type} [ToOwnedFrame I] [FrameReader (OwnedType I)] :
    FrameReader (OwnedType (MultihashFrame I)) :=
  inferInstanceAs (FrameReader (MultihashFrame (OwnedType I)))

theorem multihashFrame_copiesSame {I : Type} [FrameReader I] [ToOwnedFrame I]
    [FrameReader (OwnedType I)] (inner : I) (h : CopiesSame inner) :
    CopiesSame (⟨inner⟩ : MultihashFrame I) := by
  obtain ⟨copy, hcopy, hsame⟩ := h
  refine ⟨(⟨copy⟩ : MultihashFrame (OwnedType I)), ?_, ?_, hsame.whole⟩
  · exact Option.map_eq_some_iff.mpr ⟨copy, hcopy, rfl⟩
  · show exposedData (⟨copy⟩ : MultihashFrame (OwnedType I)) = _
    simp only [exposedData, hsame.exposed]

/-- The offset of a sized frame that is read from its end is that in the whole buffer. The copy has
only the bytes of the frame, and where they are fewer nothing of it can be read. -/
theorem sizedCopy_exposes_none (data : Bytes) (nextOffset : ℕ) (f copy : SizedFrame Bytes)
    (hnew : SizedFrame.newFromNextOffset data nextOffset = .ok f) (hoffset : 4 < f.offset)
    (hcopy : toOwnedFrame f = some copy) : exposedData copy = none := by
  obtain ⟨n, -, hroom, hlen, rfl⟩ := (sizedFrame_newFromNextOffset_eq_ok_iff _ _ _).mp hnew
  obtain ⟨whole, hwhole, rfl⟩ := Option.map_eq_some_iff.mp hcopy
  have hwholeLength := slice_length _ _ _ _ (show slice data (nextOffset - (n + 8))
    (nextOffset - (n + 8) + n + 8) = some whole from hwhole)
  show slice whole (nextOffset - (n + 8) + 4) (nextOffset - (n + 8) + 4 + n) = none
  rw [slice, if_neg]
  dsimp only at hoffset
  omega

section Frames
variable {T : Type} (decode : MessageReader T)

abbrev HashedStack := TypedCapnpFrame decode (MultihashFrame (SizedFrame Bytes))

abbrev PaddedStack := TypedCapnpFrame decode (PaddedFrame (SizedFrame Bytes))

def hashedStack (sized : SizedFrame Bytes) : Res FramingError (HashedStack decode) := do
  TypedCapnpFrame.new decode (← MultihashFrame.new sized)

def paddedStack (sized : SizedFrame Bytes) : Res FramingError (PaddedStack decode) := do
  TypedCapnpFrame.new decode (← PaddedFrame.new sized)

variable {decode}

/-- What the accessors of the frame return. -/
structure HashedStack.Shows (f : HashedStack decode) (shown : HashedFrame T) : Prop where
  whole : wholeData f = some shown.wholeData
  multihash : f.inner.inner.multihashBytes = some shown.multihashBytes
  reader : f.reader = shown.reader

structure PaddedStack.Shows (f : PaddedStack decode) (shown : PaddedTypedFrame T) : Prop where
  whole : wholeData f = some shown.wholeData
  reader : f.reader = shown.reader

theorem hashedFrame_ofSized_eq_ok_iff (sized : SizedFrame Bytes) (shown : HashedFrame T) :
    HashedFrame.ofSized decode sized = .ok shown ↔
      ∃ f, hashedStack decode sized = .ok f ∧ f.Shows shown := by
  simp only [HashedFrame.ofSized, hashedStack, bind_eq_ok_iff, orPanic_eq_ok_iff,
    orError_eq_ok_iff, pure, Except.pure, Except.ok.injEq, TypedCapnpFrame.new,
    fromCapnp_eq_ok_iff]
  constructor
  · rintro ⟨frame, hnew, data, hdata, reader, hreader, whole, hwhole, multihash, hmultihash, rfl⟩
    exact ⟨⟨⟨frame⟩, reader⟩, ⟨frame, hnew, data, reader, hdata, hreader, rfl⟩,
      ⟨hwhole, hmultihash, rfl⟩⟩
  · rintro ⟨_, ⟨frame, hnew, data, reader, hdata, hreader, rfl⟩, hshows⟩
    refine ⟨frame, hnew, data, hdata, reader, hreader, _, hshows.whole, _, hshows.multihash, ?_⟩
    rw [show reader = shown.reader from hshows.reader]

theorem paddedTypedFrame_ofSized_eq_ok_iff (sized : SizedFrame Bytes)
    (shown : PaddedTypedFrame T) :
    PaddedTypedFrame.ofSized decode sized = .ok shown ↔
      ∃ f, paddedStack decode sized = .ok f ∧ f.Shows shown := by
  simp only [PaddedTypedFrame.ofSized, paddedStack, bind_eq_ok_iff, orPanic_eq_ok_iff,
    orError_eq_ok_iff, pure, Except.pure, Except.ok.injEq, TypedCapnpFrame.new,
    fromCapnp_eq_ok_iff]
  constructor
  · rintro ⟨frame, hnew, data, hdata, reader, hreader, whole, hwhole, rfl⟩
    exact ⟨⟨⟨frame⟩, reader⟩, ⟨frame, hnew, data, reader, hdata, hreader, rfl⟩, ⟨hwhole, rfl⟩⟩
  · rintro ⟨_, ⟨frame, hnew, data, reader, hdata, hreader, rfl⟩, hshows⟩
    refine ⟨frame, hnew, data, hdata, reader, hreader, _, hshows.whole, ?_⟩
    rw [show reader = shown.reader from hshows.reader]

end Frames

section Blocks
variable [Crates]

/-- A block with its frames. -/
structure FramedBlock where
  offset : ℕ
  header : HashedStack Crates.readBlockHeader
  operationsData : Bytes
  signatures : PaddedStack Crates.readBlockSignatures

namespace FramedBlock

def new (kind : DataKind) (data : Bytes) : Res BlockError FramedBlock := do
  let header ← liftError BlockError.ofFraming (do
    hashedStack Crates.readBlockHeader (← SizedFrame.new data))
  let headerReader ← orError BlockError.serialization header.reader
  let headerData ← orPanic (wholeData header)
  let operationsOffset := headerData.length
  let signaturesOffset := operationsOffset + headerReader.operationsSize
  if signaturesOffset ≥ data.length then
    .error (.error (.outOfBound
      s!"Signature offset {signaturesOffset} is after data len {data.length}"))
  else
    let signaturesData ← orPanic (kind.view data signaturesOffset
      (signaturesOffset + headerReader.signaturesSize))
    let signatures ← liftError BlockError.ofFraming (do
      paddedStack Crates.readBlockSignatures (← SizedFrame.new signaturesData))
    let operationsData ← orPanic (kind.view data operationsOffset signaturesOffset)
    pure ⟨headerReader.offset, header, operationsData, signatures⟩

def newFromNextOffset (kind : DataKind) (data : Bytes) (nextOffset : ℕ) :
    Res BlockError FramedBlock := do
  let signatures ← liftError BlockError.ofFraming (do
    paddedStack Crates.readBlockSignatures (← SizedFrame.newFromNextOffset data nextOffset))
  let signaturesReader ← orError BlockError.serialization signatures.reader
  let signaturesWhole ← orPanic (wholeData signatures)
  let signaturesOffset := nextOffset - signaturesWhole.length
  let operationsSize := signaturesReader.operationsSize
  if operationsSize > signaturesOffset then
    .error (.error (.outOfBound
      (s!"Tried to read block from next offset {nextOffset}, but its operations size would " ++
        s!"exceed beginning of file (operations_size={operationsSize} " ++
        s!"signatures_offset={signaturesOffset})")))
  else
    let operationsOffset := signaturesOffset - operationsSize
    let operationsData ← orPanic (kind.view data operationsOffset signaturesOffset)
    let header ← liftError BlockError.ofFraming (do
      hashedStack Crates.readBlockHeader (← SizedFrame.newFromNextOffset data operationsOffset))
    let headerReader ← orError BlockError.serialization header.reader
    pure ⟨headerReader.offset, header, operationsData, signatures⟩

/-- `Block::to_owned`, none where it panics. -/
def toOwned (b : FramedBlock) : Option FramedBlock := do
  let header ← b.header.toOwned
  let signatures ← b.signatures.toOwned
  pure ⟨b.offset, header, b.operationsData, signatures⟩

/-- What the accessors of the block return. -/
structure Shows (b : FramedBlock) (shown : DataBlock) : Prop where
  offset : b.offset = shown.offset
  header : b.header.Shows shown.header
  operationsData : b.operationsData = shown.operationsData
  signatures : b.signatures.Shows shown.signatures

/-- The blocks that are read from the byte after their last. -/
theorem newFromNextOffset_eq_ok_iff (kind : DataKind) (data : Bytes) (nextOffset : ℕ)
    (shown : DataBlock) :
    DataBlock.newFromNextOffset kind data nextOffset = .ok shown ↔
      ∃ b, FramedBlock.newFromNextOffset kind data nextOffset = .ok b ∧ b.Shows shown := by
  simp only [DataBlock.newFromNextOffset, FramedBlock.newFromNextOffset, bind_eq_ok_iff,
    liftError_eq_ok_iff, orPanic_eq_ok_iff, orError_eq_ok_iff,
    readSignaturesFrameFromNextOffset, readHeaderFrameFromNextOffset,
    PaddedTypedFrame.readFromNextOffset, HashedFrame.readFromNextOffset,
    paddedTypedFrame_ofSized_eq_ok_iff]
  constructor
  · rintro ⟨signatures, ⟨sized, hsized, f, hf, hshows⟩, reader, hreader, h⟩
    split_ifs at h with hsize
    simp only [bind_eq_ok_iff, orPanic_eq_ok_iff, liftError_eq_ok_iff, orError_eq_ok_iff,
      hashedFrame_ofSized_eq_ok_iff, pure, Except.pure, Except.ok.injEq] at h
    obtain ⟨ops, hops, header, ⟨sized', hsized', f', hf', hshows'⟩, reader', hreader', rfl⟩ := h
    refine ⟨⟨reader'.offset, f', ops, f⟩, ⟨f, ⟨sized, hsized, hf⟩, reader,
      hshows.reader.trans hreader, _, hshows.whole, ?_⟩, rfl, hshows', rfl, hshows⟩
    rw [if_neg hsize]
    simp only [bind_eq_ok_iff, orPanic_eq_ok_iff, liftError_eq_ok_iff, orError_eq_ok_iff,
      pure, Except.pure, Except.ok.injEq]
    exact ⟨ops, hops, f', ⟨sized', hsized', hf'⟩, reader', hshows'.reader.trans hreader', rfl⟩
  · rintro ⟨b, ⟨f, ⟨sized, hsized, hf⟩, reader, hreader, whole, hwhole, h⟩, hshows⟩
    split_ifs at h with hsize
    simp only [bind_eq_ok_iff, orPanic_eq_ok_iff, liftError_eq_ok_iff, orError_eq_ok_iff,
      pure, Except.pure, Except.ok.injEq] at h
    obtain ⟨ops, hops, f', ⟨sized', hsized', hf'⟩, reader', hreader', rfl⟩ := h
    obtain rfl := Option.some.inj (hshows.signatures.whole.symm.trans hwhole)
    refine ⟨shown.signatures, ⟨sized, hsized, f, hf, hshows.signatures⟩, reader,
      hshows.signatures.reader.symm.trans hreader, ?_⟩
    rw [if_neg hsize]
    simp only [bind_eq_ok_iff, orPanic_eq_ok_iff, liftError_eq_ok_iff, orError_eq_ok_iff,
      hashedFrame_ofSized_eq_ok_iff, pure, Except.pure, Except.ok.injEq]
    refine ⟨ops, hops, shown.header, ⟨sized', hsized', f', hf', hshows.header⟩, reader',
      hshows.header.reader.symm.trans hreader', ?_⟩
    obtain ⟨offset, header, operationsData, signatures⟩ := shown
    rw [show offset = reader'.offset from hshows.offset.symm,
      show operationsData = ops from hshows.operationsData.symm]

/-- The copy of the block has the same bytes. -/
structure SameBlock (copy b : FramedBlock) : Prop where
  header : SameFrame copy.header b.header
  operationsData : copy.operationsData = b.operationsData
  signatures : SameFrame copy.signatures b.signatures

/-- A block that was read from its first byte copies as it is. -/
theorem toOwned_new (kind : DataKind) (data : Bytes) (b : FramedBlock)
    (h : new kind data = .ok b) : ∃ copy, b.toOwned = some copy ∧ copy.SameBlock b := by
  simp only [new, bind_eq_ok_iff, liftError_eq_ok_iff, orPanic_eq_ok_iff, orError_eq_ok_iff,
    hashedStack] at h
  obtain ⟨header, ⟨sized, hsized, hashed, hhashed, hheader⟩, reader, -, whole, -, h⟩ := h
  split_ifs at h with hsize
  simp only [bind_eq_ok_iff, liftError_eq_ok_iff, orPanic_eq_ok_iff, paddedStack, pure,
    Except.pure, Except.ok.injEq] at h
  obtain ⟨signaturesData, -, signatures, ⟨sized', hsized', padded, hpadded, hsignatures⟩, ops, -,
    rfl⟩ := h
  obtain ⟨_, n, -, -, -, rfl⟩ := paddedFrame_new_ok sized' padded hpadded
  simp only [MultihashFrame.new, bind_eq_ok_iff, pure, Except.pure, Except.ok.injEq] at hhashed
  obtain ⟨_, -, _, -, rfl⟩ := hhashed
  obtain ⟨copiedHeader, hcopiedHeader, hsameHeader⟩ := toOwned_same _ header hheader
    (multihashFrame_copiesSame sized (sizedFrame_copiesSame data sized hsized))
  obtain ⟨copiedSignatures, hcopiedSignatures, hsameSignatures⟩ :=
    toOwned_same _ signatures hsignatures
      (paddedFrame_copiesSame sized' n (sizedFrame_copiesSame signaturesData sized' hsized'))
  refine ⟨⟨reader.offset, copiedHeader, ops, copiedSignatures⟩, ?_, hsameHeader, rfl,
    hsameSignatures⟩
  rw [toOwned, hcopiedHeader, hcopiedSignatures]
  rfl

theorem toOwned_newFromNextOffset (kind : DataKind) (data : Bytes) (nextOffset : ℕ)
    (b : FramedBlock) (h : newFromNextOffset kind data nextOffset = .ok b) : b.toOwned = none := by
  simp only [newFromNextOffset, bind_eq_ok_iff, liftError_eq_ok_iff, orPanic_eq_ok_iff,
    orError_eq_ok_iff, paddedStack, TypedCapnpFrame.new, fromCapnp_eq_ok_iff] at h
  obtain ⟨_, ⟨sized, hsized, padded, hpadded, data', message, -, -, rfl⟩, reader, -, whole, hwhole,
    h⟩ := h
  split_ifs at h with hsize
  simp only [bind_eq_ok_iff, liftError_eq_ok_iff, orPanic_eq_ok_iff, orError_eq_ok_iff, pure,
    Except.pure, Except.ok.injEq] at h
  obtain ⟨ops, -, header, ⟨sized', hsized', -⟩, reader', -, rfl⟩ := h
  obtain ⟨_, k, -, -, -, rfl⟩ := paddedFrame_new_ok sized padded hpadded
  -- the header before the signatures has room for its own sizes
  obtain ⟨n, -, hroom, -, hsigned⟩ := (sizedFrame_newFromNextOffset_eq_ok_iff _ _ _).mp hsized
  obtain ⟨m, -, hheader, -, -⟩ := (sizedFrame_newFromNextOffset_eq_ok_iff _ _ _).mp hsized'
  have hwhole' : wholeData sized = some whole := hwhole
  rw [hsigned] at hwhole'
  have hwholeLength := slice_length _ _ _ _ (show slice data (nextOffset - (n + 8))
    (nextOffset - (n + 8) + n + 8) = some whole from hwhole')
  have hoffset : 4 < sized.offset := by
    rw [hsigned]
    show 4 < nextOffset - (n + 8)
    omega
  rw [toOwned, Option.bind_eq_bind, Option.bind_eq_none_iff]
  intro copiedHeader _
  rw [Option.bind_eq_bind, Option.bind_eq_none_iff]
  intro copiedSignatures hcopied
  rw [toOwned_eq_none] at hcopied
  · contradiction
  · intro copy hcopy
    obtain ⟨copy', hcopy', rfl⟩ := Option.map_eq_some_iff.mp hcopy
    have hnone := sizedCopy_exposes_none data nextOffset sized copy' hsized hoffset hcopy'
    show exposedData (⟨copy', k⟩ : PaddedFrame (SizedFrame Bytes)) = none
    simp only [exposedData] at hnone ⊢
    rw [hnone]
    rfl

/-- A block of a segment, read from the byte after its last, cannot be copied. -/
theorem toOwned_of_framed (kind : DataKind) (b : DataBlock) (hb : Framed b)
    (pre rest : Bytes) :
    ∃ framed, newFromNextOffset kind (pre ++ b.asDataVec ++ rest) (pre.length + b.totalSize) =
        .ok framed ∧ framed.Shows b ∧ framed.toOwned = none := by
  have hread := dataBlock_newFromNextOffset_append kind b pre rest hb
  obtain ⟨framed, hframed, hshows⟩ := (newFromNextOffset_eq_ok_iff _ _ _ b).mp hread
  exact ⟨framed, hframed, hshows, toOwned_newFromNextOffset _ _ _ framed hframed⟩

end FramedBlock

/-- Owned copies of frames in any nesting, with a message on top or without, and of the blocks
that are read from the byte after their last. -/
theorem ownedCopies_iff (n : Nesting) (data : Bytes) (r : n.Reader)
    (h : n.construct data = .ok r) :
    (CopiesSame r ↔ n.KeepsWhole data ∧ n.InPlace data) ∧
      (∀ {T : Type} (decode : MessageReader T) (f : TypedCapnpFrame decode n.Reader),
        TypedCapnpFrame.new decode r = .ok f →
          (CopiesSame f ↔ n.KeepsWhole data ∧ n.InPlace data)) ∧
      ∀ (kind : DataKind) (blockData : Bytes) (nextOffset : ℕ) (b : FramedBlock),
        FramedBlock.newFromNextOffset kind blockData nextOffset = .ok b →
          ¬ ∃ copy, b.toOwned = some copy ∧ copy.SameBlock b := by
  refine ⟨n.copiesSame_iff data r h, ?_, ?_⟩
  · intro T decode f hf
    exact (typedCapnpFrame_copiesSame_iff r f hf).trans (n.copiesSame_iff data r h)
  · intro kind blockData nextOffset b hb
    rintro ⟨copy, hcopy, -⟩
    rw [FramedBlock.toOwned_newFromNextOffset kind blockData nextOffset b hb] at hcopy
    contradiction

end Blocks

/-- A padded frame in a sized one, read from its first byte. -/
theorem ownedCopies_sample :
    CopiesSame (I := (Nesting.padded (.sized .bytes)).Reader)
      (⟨⟨([5, 0, 0, 0, 7, 0, 0, 0, 0, 5, 0, 0, 0] : Bytes), 0, 5⟩, 0⟩ :
        PaddedFrame (SizedFrame Bytes)) := by
  have hplace : (Nesting.padded (.sized .bytes)).InPlace [5, 0, 0, 0, 7, 0, 0, 0, 0, 5, 0, 0, 0] := by
    rw [Nesting.InPlace]
    decide
  have : Crates := { Search.halving with
    readChainOperation := fun _ => none, readBlockHeader := fun _ => none
    readBlockSignatures := fun _ => none, writeChainOperation := fun _ => []
    writeBlockHeader := fun _ => [], writeBlockSignatures := fun _ => [], sha3 := id
    multihashToBytes := fun _ => [], multihashFromBytes := fun _ => none
    nodeIdFromStr := fun _ => none }
  exact (ownedCopies_iff (.padded (.sized .bytes)) [5, 0, 0, 0, 7, 0, 0, 0, 0, 5, 0, 0, 0] _
    rfl).1.mpr ⟨trivial, hplace⟩

/-- A frame of one byte, behind another byte. -/
theorem laterFrame_not_copiesSame :
    ∃ r, (Nesting.sizedFromNextOffset 10 .bytes).construct [9, 1, 0, 0, 0, 7, 1, 0, 0, 0] = .ok r ∧
      ¬ CopiesSame r := by
  refine ⟨(⟨([9, 1, 0, 0, 0, 7, 1, 0, 0, 0] : Bytes), 1, 1⟩ : SizedFrame Bytes), rfl, ?_⟩
  rintro ⟨copy, hcopy, hsame⟩
  obtain rfl := Option.some.inj hcopy
  have hwhole := hsame.whole
  contradiction

end Exocore.Chain
