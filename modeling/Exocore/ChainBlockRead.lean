import Exocore.ChainBlock

/-! A well-formed block reads back from its bytes, from its first byte and from the byte
after its last. -/
namespace Exocore.Chain

open Exocore.Core

variable [Crates]

/-- The frames as the builders write them: the sizes of the parts agree with the header and
the signatures. -/
structure Framed (b : DataBlock) : Prop where
  headerSized : ∃ n, SizedBy b.header.wholeData n
  headerReads : readHeaderFrame b.header.wholeData = .ok b.header
  signaturesSized : ∃ n, SizedBy b.signatures.wholeData n
  signaturesReads : readSignaturesFrame b.signatures.wholeData = .ok b.signatures
  headerAgrees : ∃ m, b.header.reader = some m ∧ m.offset = b.offset ∧
    m.operationsSize = b.operationsData.length ∧
    m.signaturesSize = b.signatures.wholeData.length
  signaturesAgree : ∃ m, b.signatures.reader = some m ∧
    m.operationsSize = b.operationsData.length

theorem Framed.totalSize_pos {b : DataBlock} (hb : Framed b) : 0 < b.totalSize := by
  obtain ⟨n, hsized⟩ := hb.headerSized
  have hlen := hsized.length_eq
  rw [DataBlock.totalSize]
  omega

/-- Each operation that the header lists can be read, too. -/
structure WellFormed (b : DataBlock) : Prop extends Framed b where
  operationsRead : ∃ headers, b.operationsHeader = .ok headers ∧
    ∀ h ∈ headers, ∃ f r, h.readFrame b.operationsData = .ok f ∧ f.frame.reader = some r

theorem readHeaderFrame_append (whole rest : Bytes) (n : ℕ) (hs : SizedBy whole n) :
    readHeaderFrame (whole ++ rest) = readHeaderFrame whole := by
  rw [readHeaderFrame, hashedFrame_read_append _ whole rest n hs.length_eq hs.leading,
    readHeaderFrame]

theorem readHeaderFrameFromNextOffset_append (pre whole rest : Bytes) (n : ℕ)
    (hs : SizedBy whole n) :
    readHeaderFrameFromNextOffset (pre ++ whole ++ rest) (pre.length + whole.length) =
      readHeaderFrame whole := by
  rw [readHeaderFrameFromNextOffset, hashedFrame_readFromNextOffset_append _ pre whole rest n hs,
    readHeaderFrame]

theorem readSignaturesFrameFromNextOffset_append (pre whole rest : Bytes) (n : ℕ)
    (hs : SizedBy whole n) :
    readSignaturesFrameFromNextOffset (pre ++ whole ++ rest) (pre.length + whole.length) =
      readSignaturesFrame whole := by
  rw [readSignaturesFrameFromNextOffset,
    paddedTypedFrame_readFromNextOffset_append _ pre whole rest n hs, readSignaturesFrame]

theorem dataBlock_new_append (kind : DataKind) (b : DataBlock) (rest : Bytes)
    (hb : Framed b) : DataBlock.new kind (b.asDataVec ++ rest) = .ok b := by
  obtain ⟨n, hsized⟩ := hb.headerSized
  obtain ⟨k, hsig⟩ := hb.signaturesSized
  obtain ⟨m, hm, hoff, hops, hsize⟩ := hb.headerAgrees
  have hheader : readHeaderFrame (b.asDataVec ++ rest) = .ok b.header := by
    rw [DataBlock.asDataVec, List.append_assoc, List.append_assoc,
      readHeaderFrame_append _ _ n hsized, hb.headerReads]
  have hview : kind.view (b.asDataVec ++ rest) (b.header.wholeData.length + m.operationsSize)
      (b.header.wholeData.length + m.operationsSize + m.signaturesSize) =
      some b.signatures.wholeData := by
    have h := view_append kind (b.header.wholeData ++ b.operationsData) b.signatures.wholeData rest
    rwa [List.length_append, ← hops, ← hsize] at h
  have hopsView : kind.view (b.asDataVec ++ rest) b.header.wholeData.length
      (b.header.wholeData.length + m.operationsSize) = some b.operationsData := by
    have h := view_append kind b.header.wholeData b.operationsData
      (b.signatures.wholeData ++ rest)
    rwa [← List.append_assoc, ← hops] at h
  have hbound : ¬ b.header.wholeData.length + m.operationsSize ≥ (b.asDataVec ++ rest).length := by
    have hk := hsig.length_eq
    rw [List.length_append, DataBlock.asDataVec_length, DataBlock.totalSize, hops]
    omega
  simp only [DataBlock.new, hheader, ok_bind, hm, orError_some, if_neg hbound, hview, orPanic_some,
    hb.signaturesReads, hopsView, pure, Except.pure, hoff]

theorem dataBlock_new_asDataVec (kind : DataKind) (b : DataBlock) (hb : Framed b) :
    DataBlock.new kind b.asDataVec = .ok b := by
  simpa using dataBlock_new_append kind b [] hb

theorem dataBlock_newFromNextOffset_append (kind : DataKind) (b : DataBlock) (pre rest : Bytes)
    (hb : Framed b) :
    DataBlock.newFromNextOffset kind (pre ++ b.asDataVec ++ rest) (pre.length + b.totalSize) =
      .ok b := by
  obtain ⟨n, hsized⟩ := hb.headerSized
  obtain ⟨k, hsig⟩ := hb.signaturesSized
  obtain ⟨m, hm, hoff, -, -⟩ := hb.headerAgrees
  obtain ⟨sm, hsm, hops⟩ := hb.signaturesAgree
  have hdata : pre ++ b.asDataVec ++ rest =
      pre ++ b.header.wholeData ++ b.operationsData ++ b.signatures.wholeData ++ rest := by
    simp only [DataBlock.asDataVec, List.append_assoc]
  have hnext : pre.length + b.totalSize =
      (pre ++ b.header.wholeData ++ b.operationsData).length + b.signatures.wholeData.length := by
    simp only [DataBlock.totalSize, List.length_append]
    omega
  have hsigFrame : readSignaturesFrameFromNextOffset (pre ++ b.asDataVec ++ rest)
      (pre.length + b.totalSize) = .ok b.signatures := by
    rw [hdata, hnext, readSignaturesFrameFromNextOffset_append _ _ rest k hsig,
      hb.signaturesReads]
  have hsigOff : pre.length + b.totalSize - b.signatures.wholeData.length =
      (pre ++ b.header.wholeData).length + b.operationsData.length := by
    simp only [DataBlock.totalSize, List.length_append]
    omega
  have hopsOff : (pre ++ b.header.wholeData).length + b.operationsData.length -
      b.operationsData.length = (pre ++ b.header.wholeData).length := by
    omega
  have hopsView : kind.view (pre ++ b.asDataVec ++ rest) (pre ++ b.header.wholeData).length
      ((pre ++ b.header.wholeData).length + b.operationsData.length) = some b.operationsData := by
    have h := view_append kind (pre ++ b.header.wholeData) b.operationsData
      (b.signatures.wholeData ++ rest)
    rwa [← List.append_assoc, ← hdata] at h
  have hheader : readHeaderFrameFromNextOffset (pre ++ b.asDataVec ++ rest)
      (pre ++ b.header.wholeData).length = .ok b.header := by
    rw [List.length_append, hdata, List.append_assoc _ _ rest, List.append_assoc _ _ (_ ++ rest),
      readHeaderFrameFromNextOffset_append pre _ _ n hsized, hb.headerReads]
  have hbound : ¬ b.operationsData.length >
      (pre ++ b.header.wholeData).length + b.operationsData.length := by
    omega
  simp only [DataBlock.newFromNextOffset, hsigFrame, ok_bind, hsm, orError_some, hops, hsigOff,
    if_neg hbound, hopsOff, hopsView, orPanic_some, hheader, hm, pure, Except.pure, hoff]

end Exocore.Chain
