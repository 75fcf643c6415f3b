import Exocore.ChainBlockRead
import Exocore.ChainTables

/-! Frames that the node builds itself: what they read as, given that the crates read what
they write. -/
namespace Exocore.Chain

open Exocore.Core

section Laws
variable [Crates]

def operationBytes (m : ChainOperation) : Bytes :=
  sizedBytes (hashedBytes (Crates.writeChainOperation m))

/-- An operation that was built, and reads, reads as the message it was built from. -/
def OperationsReadBack : Prop :=
  ∀ m f, readOperationFrame (operationBytes m) = .ok f → f.frame.reader = some m

/-- Signatures fit in a message, which reads as what was written where it reads at all. -/
def SignaturesReadBack : Prop :=
  ∀ m, (Crates.writeBlockSignatures m).length < 2^31 ∧
    ∀ r, Crates.readBlockSignatures (Crates.writeBlockSignatures m) = some r → r = some m

/-- The size of the signatures is a field of two bytes. -/
def SignaturesSizeFits : Prop :=
  ∀ data h, Crates.readBlockHeader data = some (some h) → h.signaturesSize < 2^16

/-- The printed id of the node is parsed to the node. -/
def NodeIdReadsBack (n : NodeId) : Prop := Crates.nodeIdFromStr n.str = some n

instance (n : NodeId) : Decidable (NodeIdReadsBack n) :=
  inferInstanceAs (Decidable (Crates.nodeIdFromStr n.str = some n))

theorem signAndBuild_eq_ok (h : OperationsReadBack) (b : OperationBuilder) (op : NewOperation)
    (hb : b.signAndBuild = .ok op) :
    op.operationId = b.operationId ∧ op.frame.frame.reader = some b.message := by
  simp only [OperationBuilder.signAndBuild, bind_eq_ok_iff, pure, Except.pure,
    Except.ok.injEq] at hb
  obtain ⟨f, hf, rfl⟩ := hb
  exact ⟨rfl, h b.message f hf⟩

theorem readSignaturesFrame_built (h : SignaturesReadBack) (m : SignaturesMessage)
    (minimumSize : ℕ) (hmin : minimumSize < 2^31) (f : SignaturesFrame)
    (hf : readSignaturesFrame (sizedBytes (paddedBytes (Crates.writeBlockSignatures m)
      minimumSize)) = .ok f) :
    f.reader = some m ∧ (∃ n, SizedBy f.wholeData n) ∧
      readSignaturesFrame f.wholeData = .ok f := by
  obtain ⟨hlen, hreads⟩ := h m
  have hsize : (paddedBytes (Crates.writeBlockSignatures m) minimumSize).length < 2^32 := by
    simp only [paddedBytes, List.length_append, List.length_replicate, le32_length]
    omega
  have hread := hf
  rw [readSignaturesFrame, liftError_eq_ok_iff,
    paddedTypedFrame_read_built _ _ _ hsize] at hread
  simp only [bind_eq_ok_iff, orError_eq_ok_iff, Except.ok.injEq] at hread
  obtain ⟨r, hr, rfl⟩ := hread
  exact ⟨hreads r hr, ⟨_, sizedBytes_sizedBy _ hsize⟩, hf⟩

/-- The frame that a block is completed with reads as the signatures it was built from. -/
theorem toFrameForExistingBlock_reads (h : SignaturesReadBack) (signatures : List BlockSignature)
    (header : BlockHeader) (hsize : header.signaturesSize < 2^16) (f : SignaturesFrame)
    (hf : toFrameForExistingBlock signatures header = .ok f) :
    (∃ m, f.reader = some m ∧ m.operationsSize = header.operationsSize) ∧
      (∃ n, SizedBy f.wholeData n) ∧ readSignaturesFrame f.wholeData = .ok f := by
  simp only [toFrameForExistingBlock, bind_eq_ok_iff] at hf
  obtain ⟨frame, hframe, hf⟩ := hf
  split_ifs at hf
  obtain rfl := Except.ok.inj hf
  obtain ⟨hlen, -⟩ := h ⟨header.operationsSize, some (signatures.map BlockSignature.message)⟩
  obtain ⟨hreader, hsized, hreads⟩ := readSignaturesFrame_built h
    ⟨header.operationsSize, some (signatures.map BlockSignature.message)⟩ _ (by
      have hmessage : (signaturesMessageBytes signatures header.operationsSize).length < 2^31 := hlen
      split_ifs <;> omega) frame hframe
  exact ⟨⟨_, hreader, rfl⟩, hsized, hreads⟩

/-- The read of what was written for the message, evaluated. -/
def operationCheck (m : ChainOperation) : Bool :=
  match readOperationFrame (operationBytes m) with
  | .ok f => f.frame.reader = some m
  | .error _ => true

end Laws

/-- Recorded operations read back where each of them does, and nothing reads as the absence
of a record. -/
theorem operationsReadBack_tables (t : Tables) :
    letI := t.crates
    (∀ entry ∈ t.operations, operationCheck entry.2 = true) →
    (readOperationFrame (sizedBytes (hashedBytes []))).toOption.isNone = true →
    OperationsReadBack := by
  let _ : Crates := t.crates
  intro hall hnone m f hf
  cases hfind : t.operations.find? fun entry => decide (entry.2 = m) with
  | none =>
    have hempty : operationBytes m = sizedBytes (hashedBytes []) := by
      change sizedBytes (hashedBytes (encodeIn t.operations m)) = _
      rw [encodeIn, hfind]
      rfl
    rw [hempty] at hf
    rw [hf] at hnone
    simp [Except.toOption] at hnone
  | some entry =>
    have hm : entry.2 = m := of_decide_eq_true (List.find?_some hfind :)
    have hcheck := hall entry (List.mem_of_find?_eq_some hfind)
    rw [hm] at hcheck
    simp only [operationCheck, hf] at hcheck
    exact of_decide_eq_true hcheck

theorem signaturesReadBack_tables (t : Tables) :
    letI := t.crates
    (∀ entry ∈ t.signatures, entry.1.length < 2^31 ∧ ∀ other ∈ t.signatures,
      other.1 = entry.1 → other.2 = entry.2) →
    (∀ entry ∈ t.signatures, entry.1 ≠ []) → SignaturesReadBack := by
  let _ : Crates := t.crates
  intro hall hempty m
  change (encodeIn t.signatures m).length < 2^31 ∧
    ∀ r, decodeIn t.signatures (encodeIn t.signatures m) = some r → r = some m
  have hdecode (data : Bytes) (r : Option SignaturesMessage)
      (hr : decodeIn t.signatures data = some r) :
      ∃ entry ∈ t.signatures, entry.1 = data ∧ r = some entry.2 := by
    obtain ⟨entry, hfind, rfl⟩ := Option.map_eq_some_iff.mp hr
    exact ⟨entry, List.mem_of_find?_eq_some hfind, of_decide_eq_true (List.find?_some hfind :),
      rfl⟩
  cases hfind : t.signatures.find? fun entry => decide (entry.2 = m) with
  | none =>
    have hnil : encodeIn t.signatures m = [] := by
      rw [encodeIn, hfind]
      rfl
    rw [hnil]
    refine ⟨by simp, ?_⟩
    intro r hr
    obtain ⟨entry, hentry, hbytes, -⟩ := hdecode [] r hr
    exact absurd hbytes (hempty entry hentry)
  | some entry =>
    have hm : entry.2 = m := of_decide_eq_true (List.find?_some hfind :)
    have hmem := List.mem_of_find?_eq_some hfind
    have hbytes : encodeIn t.signatures m = entry.1 := by
      rw [encodeIn, hfind]
      rfl
    rw [hbytes]
    obtain ⟨hlen, hsame⟩ := hall entry hmem
    refine ⟨hlen, ?_⟩
    intro r hr
    obtain ⟨other, hother, heq, rfl⟩ := hdecode entry.1 r hr
    rw [hsame other hother heq, hm]

theorem signaturesSizeFits_tables (t : Tables) :
    letI := t.crates
    (∀ entry ∈ t.headers, entry.2.signaturesSize < 2^16) → SignaturesSizeFits := by
  let _ : Crates := t.crates
  intro hall data h hread
  obtain ⟨entry, hfind, heq⟩ := Option.map_eq_some_iff.mp hread
  rw [← Option.some.inj heq]
  exact hall entry (List.mem_of_find?_eq_some hfind)

end Exocore.Chain
