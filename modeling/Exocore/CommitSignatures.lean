import Exocore.CommitEnds

/-! The room for signatures in a block: what is reserved when the block is proposed, and what is
needed when it is committed. -/
namespace Exocore.Engine

open Exocore.Core Exocore.Chain

section Signatures
variable [Crates]

/-- The message is encoded as a faithful codec does. -/
def ReadsAsWritten (m : SignaturesMessage) : Prop :=
  (Crates.writeBlockSignatures m).length < 2^31 ∧
    Crates.readBlockSignatures (Crates.writeBlockSignatures m) = some (some m)

def signaturesContent (signatures : List BlockSignature) (operationsSize : ℕ) : SignaturesMessage :=
  ⟨operationsSize, some (signatures.map BlockSignature.message)⟩

/-- The size of the frame without padding: the message, the size of the padding, and the size of
the frame at both ends. -/
def unpaddedSize (signatures : List BlockSignature) (operationsSize : ℕ) : ℕ :=
  (signaturesMessageBytes signatures operationsSize).length + 4 + 8

/-- The size of the message is the one of that many signatures. -/
def EqualSized (base entry operationsSize : ℕ) (signatures : List BlockSignature) : Prop :=
  (signaturesMessageBytes signatures operationsSize).length = base + entry * signatures.length

/-- What a commit puts in the block: a frame of the size in the header, with these signatures. -/
structure Fits (signatures : List BlockSignature) (header : BlockHeader) (f : SignaturesFrame) :
    Prop where
  frame : toFrameForExistingBlock signatures header = .ok f
  size : f.wholeData.length = header.signaturesSize
  reader : f.reader = some (signaturesContent signatures header.operationsSize)
  reads : readSignaturesFrame f.wholeData = .ok f

/-- The group of a proposal that is accepted for a commit. -/
structure AcceptedGroup (cell : Cell) (block : PendingBlock) (frame : BlockHeaderFrame) : Prop where
  proposal : block.proposal.getBlock = .ok frame
  mine : block.hasMySignature = true
  quorum : cell.hasQuorum (validSignatures cell block).length (some .chain) = true

omit [Crates] in
theorem sizedBytes_padded_length (message : Bytes) (minimumSize : ℕ) :
    (sizedBytes (paddedBytes message minimumSize)).length =
      message.length + (minimumSize - message.length) + 4 + 8 := by
  simp only [sizedBytes, paddedBytes, List.length_append, List.length_replicate, le32_length]
  omega

theorem readSignaturesFrame_padded (m : SignaturesMessage) (minimumSize : ℕ)
    (hmin : minimumSize < 2^31) (hm : ReadsAsWritten m) :
    readSignaturesFrame (sizedBytes (paddedBytes (Crates.writeBlockSignatures m) minimumSize)) =
      .ok ⟨sizedBytes (paddedBytes (Crates.writeBlockSignatures m) minimumSize), some m⟩ := by
  obtain ⟨hlen, hread⟩ := hm
  have hsize : (paddedBytes (Crates.writeBlockSignatures m) minimumSize).length < 2^32 := by
    simp only [paddedBytes, List.length_append, List.length_replicate, le32_length]
    omega
  rw [readSignaturesFrame, paddedTypedFrame_read_built _ _ _ hsize, hread, orError_some, ok_bind,
    liftError_ok]

/-- The padding makes up for what the message is short of, and nothing makes up for more. -/
theorem toFrameForExistingBlock_cases (signatures : List BlockSignature) (header : BlockHeader)
    (hsize : header.signaturesSize < 2^16)
    (hm : ReadsAsWritten (signaturesContent signatures header.operationsSize)) :
    (unpaddedSize signatures header.operationsSize ≤ header.signaturesSize →
        ∃ f, Fits signatures header f) ∧
      (header.signaturesSize < unpaddedSize signatures header.operationsSize →
        ∃ msg, toFrameForExistingBlock signatures header = .error (.error (.integrity msg))) := by
  have hmessage : signaturesMessageBytes signatures header.operationsSize =
      Crates.writeBlockSignatures (signaturesContent signatures header.operationsSize) := rfl
  simp only [unpaddedSize]
  set message := signaturesMessageBytes signatures header.operationsSize with hset
  constructor
  · intro hle
    -- the minimum is the message where it fills the frame exactly
    have hframe (minimumSize : ℕ) (hmin : minimumSize < 2^31)
        (hlen : (sizedBytes (paddedBytes message minimumSize)).length = header.signaturesSize)
        (hminimum : (if message.length + 4 + 8 < header.signaturesSize then
          message.length + (header.signaturesSize - (message.length + 4 + 8)) else 0) = minimumSize) :
        ∃ f, Fits signatures header f := by
      have hread := readSignaturesFrame_padded _ minimumSize hmin hm
      rw [← hmessage] at hread
      refine ⟨⟨sizedBytes (paddedBytes message minimumSize),
        some (signaturesContent signatures header.operationsSize)⟩, ?_, hlen, rfl, hread⟩
      simp only [toFrameForExistingBlock, ← hset, hminimum, hread, ok_bind, hlen, ne_eq,
        not_true_eq_false, if_false]
      rfl
    by_cases hlt : message.length + 4 + 8 < header.signaturesSize
    · refine hframe (message.length + (header.signaturesSize - (message.length + 4 + 8))) (by omega)
        ?_ (if_pos hlt)
      rw [sizedBytes_padded_length]
      omega
    · refine hframe 0 (by norm_num) ?_ (if_neg hlt)
      rw [sizedBytes_padded_length]
      omega
  · intro hgt
    have hread := readSignaturesFrame_padded _ 0 (by norm_num) hm
    rw [← hmessage] at hread
    have hlen := sizedBytes_padded_length message 0
    have hne : (sizedBytes (paddedBytes message 0)).length ≠ header.signaturesSize := by omega
    simp only [toFrameForExistingBlock, ← hset, if_neg (not_lt.mpr hgt.le), hread, ok_bind,
      if_pos hne]
    exact ⟨_, rfl⟩

theorem toFrameForNewBlock_size (signatures : List BlockSignature) (operationsSize : ℕ)
    (hm : ReadsAsWritten (signaturesContent signatures operationsSize)) (f : SignaturesFrame)
    (h : toFrameForNewBlock signatures operationsSize = .ok f) :
    f.wholeData.length = unpaddedSize signatures operationsSize := by
  have hread := readSignaturesFrame_padded _ 0 (by norm_num) hm
  have hf : toFrameForNewBlock signatures operationsSize =
      .ok ⟨sizedBytes (paddedBytes (signaturesMessageBytes signatures operationsSize) 0),
        some (signaturesContent signatures operationsSize)⟩ := hread
  rw [h] at hf
  rw [Except.ok.inj hf, sizedBytes_padded_length, unpaddedSize]
  omega

omit [Crates] in
/-- What is left of a size that does not fit in 16 bits is less than half of it. -/
theorem size_fits_iff (base entry count reserved : ℕ) (hentry : 0 < entry)
    (hquorum : reserved < 2 * count) :
    base + entry * count + 4 + 8 ≤ (base + entry * reserved + 4 + 8) % 2^16 ↔
      count ≤ reserved ∧ base + entry * reserved + 4 + 8 < 2^16 := by
  constructor
  · intro hle
    by_cases hsmall : base + entry * reserved + 4 + 8 < 2^16
    · rw [Nat.mod_eq_of_lt hsmall] at hle
      refine ⟨?_, hsmall⟩
      exact Nat.le_of_mul_le_mul_left (by omega) hentry
    · have hhalf : entry * reserved ≤ 2 * (entry * count) := by
        calc entry * reserved ≤ entry * (2 * count) := Nat.mul_le_mul_left entry hquorum.le
          _ = 2 * (entry * count) := by ring
      omega
  · rintro ⟨hcount, hsmall⟩
    have hmul : entry * count ≤ entry * reserved := Nat.mul_le_mul_left entry hcount
    rw [Nat.mod_eq_of_lt hsmall]
    omega

omit [Crates] in
theorem emptySignaturesForNodes_length (proposer cell : Cell) (h : proposer.nodes.Perm cell.nodes) :
    (emptySignaturesForNodes proposer).length = cell.countWithRole .chain := by
  rw [emptySignaturesForNodes, List.length_map, Cell.countWithRole, Cell.withRole, Cell.withRole]
  exact (h.filter _).length_eq

/-- The valid signatures of a group that is committed fit if and only if they are no more than the
nodes that room was reserved for, and that room has a size of 16 bits. Other signatures are refused
exactly when their frame is larger than the room. -/
theorem signatures_fit_iff (hh : HeadersReadBack) (cell proposer : Cell)
    (hnodes : proposer.nodes.Perm cell.nodes) (proposed : DataBlock) (operations : BlockOperations)
    (header : BlockHeader) (hbuilt : Built proposed proposer operations header)
    (block : PendingBlock) (haccepted : AcceptedGroup cell block proposed.header)
    (base entry : ℕ) (hentry : 0 < entry)
    (hreserved : EqualSized base entry header.operationsSize (emptySignaturesForNodes proposer))
    (hvalid : EqualSized base entry header.operationsSize (validSignatures cell block))
    (hreservedReads : ReadsAsWritten
      (signaturesContent (emptySignaturesForNodes proposer) header.operationsSize))
    (hvalidReads : ReadsAsWritten
      (signaturesContent (validSignatures cell block) header.operationsSize)) :
    ((∃ f, Fits (validSignatures cell block) header f) ↔
        (validSignatures cell block).length ≤ cell.countWithRole .chain ∧
          unpaddedSize (emptySignaturesForNodes proposer) header.operationsSize < 2^16) ∧
      ∀ signatures, ReadsAsWritten (signaturesContent signatures header.operationsSize) →
        ((∃ e, toFrameForExistingBlock signatures header = .error (.error e)) ↔
          header.signaturesSize < unpaddedSize signatures header.operationsSize) := by
  obtain ⟨-, -, hsignatures, -, hops, -, -, hsize, -⟩ :=
    built_parts hh proposed proposer operations header hbuilt
  rw [← hops] at hsignatures
  rw [toFrameForNewBlock_size _ _ hreservedReads _ hsignatures] at hsize
  have hbound : header.signaturesSize < 2^16 := by
    rw [hsize]
    exact Nat.mod_lt _ (by norm_num)
  constructor
  · obtain ⟨hfits, herrs⟩ := toFrameForExistingBlock_cases _ header hbound hvalidReads
    have hquorum := ((hasQuorum_chain_iff cell _).mp haccepted.quorum).2
    have hcount := size_fits_iff base entry (validSignatures cell block).length
      (cell.countWithRole .chain) hentry hquorum
    rw [EqualSized, emptySignaturesForNodes_length proposer cell hnodes] at hreserved
    rw [EqualSized] at hvalid
    rw [unpaddedSize, hreserved] at hsize ⊢
    rw [unpaddedSize, hvalid, hsize] at hfits herrs
    rw [← hcount]
    constructor
    · rintro ⟨f, hf⟩
      by_contra hlarge
      obtain ⟨msg, herr⟩ := herrs (not_le.mp hlarge)
      rw [hf.frame] at herr
      contradiction
    · exact hfits
  · intro signatures hreads
    obtain ⟨hfits, herrs⟩ := toFrameForExistingBlock_cases signatures header hbound hreads
    constructor
    · rintro ⟨e, herr⟩
      by_contra hsmall
      obtain ⟨f, hf⟩ := hfits (not_lt.mp hsmall)
      rw [hf.frame] at herr
      contradiction
    · intro hlarge
      obtain ⟨msg, herr⟩ := herrs hlarge
      exact ⟨_, herr⟩

end Signatures

section Samples

attribute [local instance] builtCrates

/-- The first node has signed twice. -/
def threeSignatures : List PendingBlockSignature := ⟨⟨firstNode⟩, emptySignature⟩ :: bothSigned

/-- The group is accepted, and its signatures do not fit in the room for two. -/
theorem threeSignatures_refused :
    AcceptedGroup twoNodes (proposedBlock nextHeader nextProposal threeSignatures)
        (fiftyBlock nextHeaderMultihash).header ∧
      (validSignatures twoNodes (proposedBlock nextHeader nextProposal threeSignatures)).length = 3 ∧
      ∃ msg, toFrameForExistingBlock
        (validSignatures twoNodes (proposedBlock nextHeader nextProposal threeSignatures))
        nextHeader = .error (.error (.integrity msg)) := by
  have hvalues : (proposedBlock nextHeader nextProposal threeSignatures).proposal.getBlock =
        .ok (fiftyBlock nextHeaderMultihash).header ∧
      (validSignatures twoNodes (proposedBlock nextHeader nextProposal threeSignatures)).length = 3 ∧
      toFrameForExistingBlock
        (validSignatures twoNodes (proposedBlock nextHeader nextProposal threeSignatures))
        nextHeader = .error (.error (.integrity
          ("Block local signatures isn't the same size as expected " ++
            "(this=460 expected=324)"))) := by
    decide +kernel
  obtain ⟨hget, hthree, herr⟩ := hvalues
  exact ⟨⟨hget, rfl, by rw [hthree]; decide⟩, hthree, _, herr⟩

theorem bothSigned_fit : ∃ f,
    Fits (validSignatures twoNodes (proposedBlock nextHeader nextProposal bothSigned)) nextHeader f := by
  have hvalues : (proposedBlock nextHeader nextProposal bothSigned).proposal.getBlock =
        .ok (fiftyBlock nextHeaderMultihash).header ∧
      (validSignatures twoNodes (proposedBlock nextHeader nextProposal bothSigned)).length = 2 ∧
      (validSignatures twoNodes (proposedBlock nextHeader nextProposal bothSigned)).map
        BlockSignature.message = (emptySignaturesForNodes otherCell).map BlockSignature.message := by
    decide +kernel
  obtain ⟨hget, htwo, hsame⟩ := hvalues
  have hmessage : ReadsAsWritten
      (signaturesContent (emptySignaturesForNodes otherCell) nextHeader.operationsSize) ∧
      EqualSized 40 136 nextHeader.operationsSize (emptySignaturesForNodes otherCell) ∧
      unpaddedSize (emptySignaturesForNodes otherCell) nextHeader.operationsSize < 2^16 := by
    simp only [ReadsAsWritten, EqualSized]
    decide +kernel
  obtain ⟨hreads, hsized, hsmall⟩ := hmessage
  have hcontent : signaturesContent
      (validSignatures twoNodes (proposedBlock nextHeader nextProposal bothSigned))
      nextHeader.operationsSize =
      signaturesContent (emptySignaturesForNodes otherCell) nextHeader.operationsSize := by
    rw [signaturesContent, hsame, signaturesContent]
  have hvalid : EqualSized 40 136 nextHeader.operationsSize
      (validSignatures twoNodes (proposedBlock nextHeader nextProposal bothSigned)) := by
    rw [EqualSized] at hsized ⊢
    rw [htwo, signaturesMessageBytes, hsame]
    exact hsized
  have hvalidReads : ReadsAsWritten (signaturesContent
      (validSignatures twoNodes (proposedBlock nextHeader nextProposal bothSigned))
      nextHeader.operationsSize) := by
    rw [hcontent]
    exact hreads
  have hfit := (signatures_fit_iff builtTables_headersReadBack twoNodes otherCell (.refl _)
    (fiftyBlock nextHeaderMultihash) entryOperations nextHeader fiftyBlock_built
    (proposedBlock nextHeader nextProposal bothSigned) ⟨hget, rfl, by rw [htwo]; decide⟩ 40 136
    (by norm_num) hsized hvalid hreads hvalidReads).1
  exact hfit.mpr ⟨by rw [htwo]; decide, hsmall⟩

end Samples

end Exocore.Engine
