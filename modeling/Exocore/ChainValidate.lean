import Exocore.CommitBuild

/-! The validation of a block: what it checks, and what follows from it. -/
namespace Exocore.Chain

open Exocore.Core

/-- The `Debug` text of a multihash. -/
def Multihash.debug (m : Multihash) : String :=
  s!"Multihash \x7b code: {m.code}, size: {m.digest.length}, digest: {m.digest.map UInt8.toNat} \x7d"

/-- `exposed_data` of the frame: the message, between the size and the multihash. -/
def exposedData {T : Type} (f : HashedFrame T) : Bytes :=
  (f.wholeData.drop 4).take (f.wholeData.length - 8 - multihashSize)

/-- What is exposed is what the reader was read from. -/
theorem decode_exposedData {T : Type} (decode : MessageReader T) (data : Bytes)
    (f : HashedFrame T) (h : HashedFrame.read decode data = .ok f) :
    decode (exposedData f) = some f.reader := by
  obtain ⟨n, rest, -, hlen, hlead, hself⟩ := hashedFrame_read_eq_ok decode data f h
  obtain ⟨he, hw⟩ := sizedFrame_data [] f.wholeData [] n hlen
  simp only [List.nil_append, List.append_nil, List.length_nil] at he hw
  rw [HashedFrame.read, sizedFrame_new_self f.wholeData n hlen hlead, ok_bind,
    hashedFrame_ofSized_of_data decode _ _ _ he hw] at hself
  have hsize : ((f.wholeData.take (4 + n)).drop 4).length = n := by
    rw [List.length_drop, List.length_take]
    omega
  split_ifs at hself with hshort
  rw [hsize] at hself hshort
  have hexposed : exposedData f = ((f.wholeData.take (4 + n)).drop 4).take (n - multihashSize) := by
    rw [exposedData, List.drop_take, List.take_take]
    congr 1
    omega
  rw [hexposed]
  split at hself
  · contradiction
  · rename_i r hr
    rw [hr, ← Except.ok.inj hself]

section Validate
variable [Crates]

/-- Whether the multihash in the frame is the one of the message. -/
def verify {T : Type} (f : HashedFrame T) : Res FramingError Bool := do
  let frameMultihash ← orError .multihash (Crates.multihashFromBytes f.multihashBytes)
  pure (toMultihash (exposedData f) = frameMultihash)

namespace DataBlock

def validatePrevious (header : BlockHeader) : Option DataBlock → Res BlockError Unit
  | none => pure ()
  | some previous => do
    let previousHash ← orError .serialization header.previousHash
    if previous.header.multihashBytes ≠ previousHash then
      .error (.error (.integrity "Hash of previous block doesn't match current block hash"))
    else pure ()

def validateSizes (b : DataBlock) (header : BlockHeader) : Res BlockError Unit :=
  let sigSizeStored := b.signatures.wholeData.length
  let opsSizeStored := b.operationsData.length
  if header.signaturesSize ≠ sigSizeStored then
    .error (.error (.integrity (s!"Signatures size don't match: sig_size_header=" ++
      s!"{header.signaturesSize}, sig_size_stored={sigSizeStored}")))
  else if header.operationsSize ≠ opsSizeStored then
    .error (.error (.integrity (s!"Operations size don't match: ops_size_header=" ++
      s!"{header.operationsSize}, ops_size_stored={opsSizeStored}")))
  else pure ()

/-- The text of the error of the multihash crate is left out. -/
def validateOperations (b : DataBlock) (header : BlockHeader) : Res BlockError Unit := do
  let operations ← b.operations
  let opsHashStored := BlockOperations.hashOperations operations
  let hashBytes ← orError .serialization header.operationsHash
  let opsHashHeader ← orError (.integrity "Hash in block header couldn't be decoded")
    (Crates.multihashFromBytes hashBytes)
  if opsHashStored ≠ opsHashHeader then
    .error (.error (.integrity (s!"Operations hash don't match: ops_hash_header=" ++
      s!"{opsHashHeader.debug}, ops_hash_stored={opsHashStored.debug}")))
  else pure ()

/-- The answer of the verification is not looked at, only its error is. -/
def validate (b : DataBlock) (previousBlock : Option DataBlock) : Res BlockError Unit := do
  let header ← b.headerReader
  let _ ← liftError BlockError.framing (verify b.header)
  validatePrevious header previousBlock
  b.validateSizes header
  if header.operationsSize > 0 then b.validateOperations header else pure ()

end DataBlock

/-- What a block that was validated is taken to be. -/
structure Sound (b : DataBlock) (previousBlock : Option DataBlock) (header : BlockHeader) : Prop where
  reader : b.header.reader = some header
  multihash : Crates.multihashFromBytes b.header.multihashBytes =
    some (toMultihash (exposedData b.header))
  previousHash : ∀ previous, previousBlock = some previous →
    header.previousHash = some previous.header.multihashBytes
  signaturesSize : header.signaturesSize = b.signatures.wholeData.length
  operationsSize : header.operationsSize = b.operationsData.length
  operations : ∃ headers frames hashBytes, header.operationsHeader = some headers ∧
    List.Forall₂ (fun h f => h.readFrame b.operationsData = .ok f) headers frames ∧
    header.operationsHash = some hashBytes ∧
    Crates.multihashFromBytes hashBytes = some (BlockOperations.hashOperations frames)

/-- The checks that `validate` makes without their answer, or not at all. -/
structure PassesSkipped (b : DataBlock) (header : BlockHeader) : Prop where
  verified : verify b.header = .ok true
  reads : ∃ headers, header.operationsHeader = some headers ∧
    ∀ h ∈ headers, ∃ f, h.readFrame b.operationsData = .ok f
  empty : header.operationsSize = 0 → ∃ hashBytes, header.operationsHash = some hashBytes ∧
    Crates.multihashFromBytes hashBytes = some (BlockOperations.hashOperations [])

theorem verify_eq_ok_iff {T : Type} (f : HashedFrame T) (verified : Bool) :
    verify f = .ok verified ↔ ∃ m, Crates.multihashFromBytes f.multihashBytes = some m ∧
      verified = decide (toMultihash (exposedData f) = m) := by
  simp only [verify, bind_eq_ok_iff, orError_eq_ok_iff, pure, Except.pure, Except.ok.injEq]
  simp only [eq_comm]

theorem iterOperations_of_reads (operationsData : Bytes) (headers : List BlockOperationHeader)
    (frames : List OperationFrame)
    (h : List.Forall₂ (fun x f => x.readFrame operationsData = .ok f) headers frames) :
    DataBlock.iterOperations operationsData headers = .ok frames := by
  induction h with
  | nil => rfl
  | cons hread hrest ih =>
    simp only [DataBlock.iterOperations, hread, ih, ok_bind, pure, Except.pure]

/-- The frames of operations that all read. -/
theorem exists_frames_iff (operationsData : Bytes) (headers : List BlockOperationHeader) :
    (∃ frames, List.Forall₂ (fun x f => x.readFrame operationsData = .ok f) headers frames) ↔
      ∀ x ∈ headers, ∃ f, x.readFrame operationsData = .ok f := by
  induction headers with
  | nil => simp
  | cons x rest ih =>
    simp only [List.forall₂_cons_left_iff, List.mem_cons, forall_eq_or_imp, ← ih]
    constructor
    · rintro ⟨frames, f, rest', hf, hrest, -⟩
      exact ⟨⟨f, hf⟩, rest', hrest⟩
    · rintro ⟨⟨f, hf⟩, rest', hrest⟩
      exact ⟨f :: rest', f, rest', hf, hrest, rfl⟩

/-- Nothing reads from no bytes. -/
theorem readFrame_empty (x : BlockOperationHeader) (f : OperationFrame) : x.readFrame [] ≠ .ok f := by
  intro h
  simp only [BlockOperationHeader.readFrame, bind_eq_ok_iff, orPanic_eq_ok_iff,
    liftError_eq_ok_iff] at h
  obtain ⟨data, hdata, hread⟩ := h
  obtain ⟨n, rest, hsplit, hlen, -⟩ := hashedFrame_read_eq_ok _ _ _
    ((readOperationFrame_eq_ok_iff data f).mp hread)
  have hshort : data.length ≤ 0 := by
    unfold slice at hdata
    split_ifs at hdata with hrange
    obtain rfl := Option.some.inj hdata
    simp
  rw [hsplit, List.length_append] at hshort
  omega

omit [Crates] in
theorem validateSizes_eq_ok_iff (b : DataBlock) (header : BlockHeader) :
    b.validateSizes header = .ok () ↔ header.signaturesSize = b.signatures.wholeData.length ∧
      header.operationsSize = b.operationsData.length := by
  simp only [DataBlock.validateSizes]
  split_ifs with hsigs hops
  · simp [hsigs]
  · simp [hops]
  · simp only [pure, Except.pure, true_iff]
    exact ⟨not_not.mp hsigs, not_not.mp hops⟩

omit [Crates] in
theorem validatePrevious_eq_ok_iff (header : BlockHeader) (previousBlock : Option DataBlock) :
    DataBlock.validatePrevious header previousBlock = .ok () ↔
      ∀ previous, previousBlock = some previous →
        header.previousHash = some previous.header.multihashBytes := by
  cases previousBlock with
  | none => simp [DataBlock.validatePrevious, pure, Except.pure]
  | some previous =>
    simp only [DataBlock.validatePrevious, bind_eq_ok_iff, orError_eq_ok_iff, Option.some.injEq,
      forall_eq']
    constructor
    · rintro ⟨previousHash, hhash, h⟩
      split_ifs at h with hne
      rw [hhash, not_not.mp hne]
    · intro hhash
      refine ⟨_, hhash, ?_⟩
      rw [if_neg (not_not.mpr rfl)]
      rfl

theorem validateOperations_eq_ok_iff (b : DataBlock) (header : BlockHeader) :
    b.validateOperations header = .ok () ↔ ∃ frames hashBytes, b.operations = .ok frames ∧
      header.operationsHash = some hashBytes ∧
      Crates.multihashFromBytes hashBytes = some (BlockOperations.hashOperations frames) := by
  simp only [DataBlock.validateOperations, bind_eq_ok_iff, orError_eq_ok_iff]
  constructor
  · rintro ⟨frames, hframes, hashBytes, hbytes, hash, hhash, h⟩
    split_ifs at h with hne
    exact ⟨frames, hashBytes, hframes, hbytes, by rw [hhash, not_not.mp hne]⟩
  · rintro ⟨frames, hashBytes, hframes, hbytes, hhash⟩
    refine ⟨frames, hframes, hashBytes, hbytes, _, hhash, ?_⟩
    rw [if_neg (not_not.mpr rfl)]
    rfl

theorem validate_eq_ok_iff (b : DataBlock) (previousBlock : Option DataBlock) :
    b.validate previousBlock = .ok () ↔ ∃ header verified, b.header.reader = some header ∧
      verify b.header = .ok verified ∧
      DataBlock.validatePrevious header previousBlock = .ok () ∧ b.validateSizes header = .ok () ∧
      (0 < header.operationsSize → b.validateOperations header = .ok ()) := by
  simp only [DataBlock.validate, DataBlock.headerReader, bind_eq_ok_iff, orError_eq_ok_iff,
    liftError_eq_ok_iff]
  constructor
  · rintro ⟨header, hreader, verified, hverified, ⟨⟩, hprevious, ⟨⟩, hsizes, hops⟩
    refine ⟨header, verified, hreader, hverified, hprevious, hsizes, ?_⟩
    intro hpos
    rwa [if_pos hpos] at hops
  · rintro ⟨header, verified, hreader, hverified, hprevious, hsizes, hops⟩
    refine ⟨header, hreader, verified, hverified, (), hprevious, (), hsizes, ?_⟩
    split_ifs with hpos
    · exact hops hpos
    · rfl

/-- A block that passes is sound if and only if it would have passed what was skipped. -/
theorem validate_sound_iff (b : DataBlock) (previousBlock : Option DataBlock)
    (h : b.validate previousBlock = .ok ()) : ∃ header, b.header.reader = some header ∧
      (Sound b previousBlock header ↔ PassesSkipped b header) := by
  obtain ⟨header, verified, hreader, hverified, hprevious, hsizes, hops⟩ :=
    (validate_eq_ok_iff b previousBlock).mp h
  rw [validatePrevious_eq_ok_iff] at hprevious
  rw [validateSizes_eq_ok_iff] at hsizes
  rw [validateOperations_eq_ok_iff] at hops
  refine ⟨header, hreader, ?_, ?_⟩
  · intro hsound
    obtain ⟨headers, frames, hashBytes, hheaders, hall, hbytes, hhash⟩ := hsound.operations
    refine ⟨?_, ⟨headers, hheaders, (exists_frames_iff _ _).mp ⟨frames, hall⟩⟩, ?_⟩
    · rw [verify_eq_ok_iff]
      exact ⟨_, hsound.multihash, by simp⟩
    · intro hzero
      -- without data nothing reads, so nothing is listed
      have hdata : b.operationsData = [] := List.length_eq_zero_iff.mp (hsizes.2.symm.trans hzero)
      cases hall with
      | nil => exact ⟨hashBytes, hbytes, hhash⟩
      | cons hread hrest =>
        rw [hdata] at hread
        exact absurd hread (readFrame_empty _ _)
  · intro hskipped
    obtain ⟨headers, hheaders, hreads⟩ := hskipped.reads
    obtain ⟨frames, hframes⟩ := (exists_frames_iff b.operationsData headers).mpr hreads
    obtain ⟨m, hm, hdigest⟩ := (verify_eq_ok_iff _ _).mp hskipped.verified
    have hdigest : toMultihash (exposedData b.header) = m := of_decide_eq_true hdigest.symm
    refine ⟨hreader, by rw [hm, hdigest], hprevious, hsizes.1, hsizes.2, headers, frames, ?_⟩
    by_cases hpos : 0 < header.operationsSize
    · obtain ⟨frames', hashBytes, hoperations, hbytes, hhash⟩ := hops hpos
      simp only [DataBlock.operations, DataBlock.operationsHeader, DataBlock.headerReader, hreader,
        hheaders, orError_some, ok_bind, iterOperations_of_reads _ _ _ hframes,
        Except.ok.injEq] at hoperations
      subst hoperations
      exact ⟨hashBytes, hheaders, hframes, hbytes, hhash⟩
    · obtain ⟨hashBytes, hbytes, hhash⟩ := hskipped.empty (by omega)
      have hdata : b.operationsData = [] := List.length_eq_zero_iff.mp (by omega)
      cases hframes with
      | nil => exact ⟨hashBytes, hheaders, .nil, hbytes, hhash⟩
      | cons hread hrest =>
        rw [hdata] at hread
        exact absurd hread (readFrame_empty _ _)

end Validate

section Samples

open Exocore.Engine

/-- With the digest of the header's message. -/
def validateTables : Tables :=
  { commitTables with
    digests := (proposedMessage nextHeader, nextHeaderMultihash.drop 2) :: commitTables.digests }

local instance validateCrates : Crates := validateTables.crates

/-- A block of one operation, with a multihash behind the message of its header. -/
def fiftyBlock (multihash : Bytes) : DataBlock :=
  ⟨254, ⟨sizedBytes (proposedMessage nextHeader ++ multihash), multihash, some nextHeader⟩, fiftyBytes,
    ⟨sizedBytes (paddedBytes (emptySignatures 170 [(firstNode, firstNodeText),
      (otherNode, otherNodeText)]).1 0),
      some (emptySignatures 170 [(firstNode, firstNodeText), (otherNode, otherNodeText)]).2⟩⟩

/-- The multihash of another header: the block is read and validated all the same. -/
theorem wrongMultihash_not_sound :
    DataBlock.new .bytes (fiftyBlock repeatHeaderMultihash).asDataVec =
        .ok (fiftyBlock repeatHeaderMultihash) ∧
      (fiftyBlock repeatHeaderMultihash).validate (some genesisBlock) = .ok () ∧
      ∀ header, ¬ Sound (fiftyBlock repeatHeaderMultihash) (some genesisBlock) header := by
  have hvalues : DataBlock.new .bytes (fiftyBlock repeatHeaderMultihash).asDataVec =
        .ok (fiftyBlock repeatHeaderMultihash) ∧
      (fiftyBlock repeatHeaderMultihash).validate (some genesisBlock) = .ok () ∧
      Crates.multihashFromBytes (fiftyBlock repeatHeaderMultihash).header.multihashBytes ≠
        some (toMultihash (exposedData (fiftyBlock repeatHeaderMultihash).header)) := by
    decide +kernel
  exact ⟨hvalues.1, hvalues.2.1, fun header hsound => hvalues.2.2 hsound.multihash⟩

/-- With its own multihash the block is what it was validated for. -/
theorem validate_sound_fifty :
    Sound (fiftyBlock nextHeaderMultihash) (some genesisBlock) nextHeader := by
  have hvalues : (fiftyBlock nextHeaderMultihash).validate (some genesisBlock) = .ok () ∧
      verify (fiftyBlock nextHeaderMultihash).header = .ok true ∧
      readableCheck fiftyBytes ⟨50, 0, 170⟩ = true := by
    decide +kernel
  obtain ⟨hvalidate, hverified, hreadable⟩ := hvalues
  obtain ⟨header, hreader, hiff⟩ :=
    validate_sound_iff (fiftyBlock nextHeaderMultihash) (some genesisBlock) hvalidate
  obtain rfl : nextHeader = header := Option.some.inj hreader
  apply hiff.mpr
  refine ⟨hverified, ⟨[⟨50, 0, 170⟩], rfl, ?_⟩, ?_⟩
  · intro x hx
    obtain rfl := List.mem_singleton.mp hx
    obtain ⟨f, -, hread, -⟩ := readableCheck_sound fiftyBytes ⟨50, 0, 170⟩ hreadable
    exact ⟨f, hread⟩
  · intro hzero
    exact absurd hzero (by decide)

end Samples

end Exocore.Chain
