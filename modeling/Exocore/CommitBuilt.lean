import Exocore.ChainValidate

/-! The blocks that a node builds itself: what their header says of them, given that a header
reads as it was written. -/
namespace Exocore.Engine

open Exocore.Core Exocore.Chain

section Built
variable [Crates]

def headerBytes (m : BlockHeader) : Bytes :=
  sizedBytes (hashedBytes (Crates.writeBlockHeader m))

/-- A header fits in its frame, and reads as it was written where it reads at all. Operations of
less than 4 GiB are less than 2^27, each with its frame. -/
def HeadersReadBack : Prop :=
  ∀ m headers, m.operationsHeader = some headers → headers.length < 2^27 →
    (hashedBytes (Crates.writeBlockHeader m)).length < 2^32 ∧
      ∀ f, readHeaderFrame (headerBytes m) = .ok f → f.reader = some m

/-- The header that is written for a block. -/
def builtHeader (cell : Cell) (offset height previousOffset : ℕ) (previousHash : Bytes)
    (proposedOperationId : ℕ) (operations : BlockOperations) (signaturesSize : ℕ) : BlockHeader :=
  { offset := offset
    height := height + 1
    previousOffset := previousOffset
    previousHash := some previousHash
    proposedOperationId := proposedOperationId
    proposedNodeId := some cell.localNode.str
    operationsSize := operations.data.length % 2^32
    operationsHeader := some operations.headers
    operationsHash := some (Crates.multihashToBytes operations.hash)
    signaturesSize := signaturesSize % 2^16 }

/-- Operations that were put together for a block. -/
def Gathered (operations : BlockOperations) : Prop :=
  operations = .empty ∨ ∃ frames, BlockOperations.fromOperations frames = .ok operations

/-- The block was built by a node, of less than 4 GiB of operations. -/
structure Built (b : DataBlock) (cell : Cell) (operations : BlockOperations)
    (header : BlockHeader) : Prop where
  gathered : Gathered operations
  small : operations.data.length < 2^32
  built : ∃ height previousOffset previousHash proposedOperationId,
    BlockBuilder.buildWithPrevInfo cell b.offset height previousOffset previousHash
        proposedOperationId operations = .ok b ∧
      header = builtHeader cell b.offset height previousOffset previousHash proposedOperationId
        operations b.signatures.wholeData.length

theorem buildWithPrevInfo_eq_ok_iff (cell : Cell) (offset height previousOffset : ℕ)
    (previousHash : Bytes) (proposedOperationId : ℕ) (operations : BlockOperations)
    (b : DataBlock) :
    BlockBuilder.buildWithPrevInfo cell offset height previousOffset previousHash
        proposedOperationId operations = .ok b ↔
      b.offset = offset ∧ b.operationsData = operations.data ∧
        toFrameForNewBlock (emptySignaturesForNodes cell) (operations.data.length % 2^32) =
          .ok b.signatures ∧
        readHeaderFrame (headerBytes (builtHeader cell offset height previousOffset previousHash
          proposedOperationId operations b.signatures.wholeData.length)) = .ok b.header := by
  simp only [BlockBuilder.buildWithPrevInfo, bind_eq_ok_iff, pure, Except.pure, Except.ok.injEq]
  constructor
  · rintro ⟨signatures, hsignatures, frame, hframe, rfl⟩
    exact ⟨rfl, rfl, hsignatures, hframe⟩
  · rintro ⟨rfl, hdata, hsignatures, hframe⟩
    refine ⟨b.signatures, hsignatures, b.header, hframe, ?_⟩
    rw [← hdata]

omit [Crates] in
/-- A frame that was built is read whole. -/
theorem hashedFrame_read_built {T : Type} (decode : MessageReader T) (inner : Bytes)
    (f : HashedFrame T) (hsize : inner.length < 2^32)
    (h : HashedFrame.read decode (sizedBytes inner) = .ok f) : f.wholeData = sizedBytes inner := by
  have hs := sizedBytes_sizedBy inner hsize
  obtain ⟨n, rest, hsplit, hlen, hlead, -⟩ := hashedFrame_read_eq_ok decode _ f h
  have hleading := hs.leading
  rw [hsplit, readLe32_append _ rest n hlead] at hleading
  obtain rfl := Option.some.inj hleading
  have hlength := hs.length_eq
  rw [hsplit, List.length_append, hlen] at hlength
  have hrest : rest = [] := List.length_eq_zero_iff.mp (by omega)
  rw [hsplit, hrest, List.append_nil]

omit [Crates] in
/-- There is room for a multihash in a frame that reads. -/
theorem hashedFrame_read_length {T : Type} (decode : MessageReader T) (data : Bytes)
    (f : HashedFrame T) (h : HashedFrame.read decode data = .ok f) :
    multihashSize + 8 ≤ f.wholeData.length := by
  obtain ⟨n, rest, -, hlen, hlead, hself⟩ := hashedFrame_read_eq_ok decode data f h
  obtain ⟨he, hw⟩ := sizedFrame_data [] f.wholeData [] n hlen
  simp only [List.nil_append, List.append_nil, List.length_nil] at he hw
  rw [HashedFrame.read, sizedFrame_new_self f.wholeData n hlen hlead, ok_bind,
    hashedFrame_ofSized_of_data decode _ _ _ he hw] at hself
  split_ifs at hself with hshort
  rw [List.length_drop, List.length_take] at hshort
  omega

theorem positions_length (frames : List OperationFrame) (offset : ℕ) :
    (positions frames offset).length = frames.length := by
  induction frames generalizing offset with
  | nil => rfl
  | cons f rest ih => rw [positions, List.length_cons, List.length_cons, ih]

theorem framesData_cons (f : OperationFrame) (rest : List OperationFrame) :
    framesData (f :: rest) = f.wholeData ++ framesData rest := by
  rw [framesData, framesData, List.map_cons, List.flatten_cons]

theorem framesData_length (frames : List OperationFrame) :
    32 * frames.length ≤ (framesData frames).length := by
  induction frames with
  | nil => exact Nat.zero_le _
  | cons f rest ih =>
    have hf := hashedFrame_read_length _ _ _ f.reads
    have hwhole : f.wholeData = f.frame.wholeData := rfl
    rw [framesData_cons, List.length_append, List.length_cons, hwhole]
    simp only [multihashSize] at hf
    omega

theorem gathered_headers (operations : BlockOperations) (h : Gathered operations)
    (hsmall : operations.data.length < 2^32) : operations.headers.length < 2^27 := by
  rcases h with rfl | ⟨frames, hframes⟩
  · exact Nat.two_pow_pos 27
  · obtain ⟨hdata, hheaders, -⟩ := fromOperations_eq_ok frames operations hframes
    have hroom := framesData_length frames
    rw [hdata] at hsmall
    rw [hheaders, positions_length]
    omega

/-- What there is to know of a block that was built. -/
theorem built_parts (hh : HeadersReadBack) (b : DataBlock) (cell : Cell)
    (operations : BlockOperations) (header : BlockHeader) (h : Built b cell operations header) :
    b.header.reader = some header ∧ b.operationsData = operations.data ∧
      toFrameForNewBlock (emptySignaturesForNodes cell) operations.data.length =
        .ok b.signatures ∧
      header.offset = b.offset ∧ header.operationsSize = operations.data.length ∧
      header.operationsHeader = some operations.headers ∧
      header.operationsHash = some (Crates.multihashToBytes operations.hash) ∧
      header.signaturesSize = b.signatures.wholeData.length % 2^16 ∧
      readHeaderFrame (headerBytes header) = .ok b.header ∧
      (hashedBytes (Crates.writeBlockHeader header)).length < 2^32 := by
  obtain ⟨height, previousOffset, previousHash, id, hbuild, rfl⟩ := h.built
  obtain ⟨-, hdata, hsignatures, hframe⟩ := (buildWithPrevInfo_eq_ok_iff _ _ _ _ _ _ _ b).mp hbuild
  have hmod : operations.data.length % 2^32 = operations.data.length := Nat.mod_eq_of_lt h.small
  obtain ⟨hsize, hreads⟩ := hh (builtHeader cell b.offset height previousOffset previousHash id
    operations b.signatures.wholeData.length) operations.headers rfl
    (gathered_headers operations h.gathered h.small)
  rw [hmod] at hsignatures
  exact ⟨hreads b.header hframe, hdata, hsignatures, rfl, hmod, rfl, rfl, rfl, hframe, hsize⟩

/-- The read of what was written for a header, evaluated. -/
def headerCheck (entry : Bytes × BlockHeader) : Bool :=
  (hashedBytes entry.1).length < 2^32 &&
    match readHeaderFrame (sizedBytes (hashedBytes entry.1)) with
    | .ok f => decide (f.reader = some entry.2)
    | .error _ => true

theorem headerCheck_sound (entry : Bytes × BlockHeader) (h : headerCheck entry = true) :
    (hashedBytes entry.1).length < 2^32 ∧
      ∀ f, readHeaderFrame (sizedBytes (hashedBytes entry.1)) = .ok f → f.reader = some entry.2 := by
  rw [headerCheck, Bool.and_eq_true, decide_eq_true_eq] at h
  refine ⟨h.1, ?_⟩
  intro f hf
  have hmatch := h.2
  rw [hf] at hmatch
  exact of_decide_eq_true hmatch

end Built

/-- Recorded headers read back where each of them does, and nothing reads as the absence of a
record. -/
theorem headersReadBack_tables (t : Tables) :
    letI := t.crates
    t.headers.all headerCheck = true → (hashedBytes []).length < 2^32 →
    (readHeaderFrame (sizedBytes (hashedBytes []))).toOption.isNone = true → HeadersReadBack := by
  let _ : Crates := t.crates
  intro hall hsmall hnone m headers _ _
  rw [List.all_eq_true] at hall
  have hwrite : Crates.writeBlockHeader m = encodeIn t.headers m := rfl
  cases hfind : t.headers.find? fun entry => decide (entry.2 = m) with
  | none =>
    have hempty : Crates.writeBlockHeader m = [] := by
      rw [hwrite, encodeIn, hfind]
      rfl
    rw [headerBytes, hempty]
    refine ⟨hsmall, ?_⟩
    intro f hf
    rw [hf] at hnone
    simp [Except.toOption] at hnone
  | some entry =>
    have hentry : Crates.writeBlockHeader m = entry.1 := by
      rw [hwrite, encodeIn, hfind]
      rfl
    have hm : entry.2 = m := of_decide_eq_true (List.find?_some hfind :)
    rw [headerBytes, hentry, ← hm]
    exact headerCheck_sound entry (hall entry (List.mem_of_find?_eq_some hfind))

section Samples

deriving instance DecidableEq for BlockOperations

/-- The header of the block with the one entry, that counts one byte less than the entry has. -/
def miscountedHeader : BlockHeader :=
  { proposedHeader 254 2 0 500 170 genesisMultihash with operationsSize := 169 }

def miscountedHeaderMultihash : Bytes := ofNats
    [22, 32, 66, 34, 211, 71, 101, 102, 26, 117, 0, 207, 219, 226, 94, 8, 250, 225, 66, 131, 70,
    237, 175, 214, 215, 236, 44, 151, 144, 254, 84, 33, 215, 64]

def miscountedMultihash : Bytes := ofNats
    [22, 32, 26, 88, 64, 50, 119, 137, 162, 18, 111, 114, 138, 52, 37, 11, 105, 83, 110, 103, 74,
    69, 52, 202, 81, 140, 167, 237, 46, 29, 198, 45, 9, 118]

def builtTables : Tables :=
  { validateTables with
    operations := (proposeMessage miscountedHeader miscountedHeaderMultihash,
      proposeOperation miscountedHeader miscountedHeaderMultihash) :: validateTables.operations
    headers := (proposedMessage miscountedHeader, miscountedHeader) :: validateTables.headers
    signatures :=
      emptySignatures 169 [(firstNode, firstNodeText), (otherNode, otherNodeText)] ::
      emptySignatures 170 [(firstNode, firstNodeText), (firstNode, firstNodeText),
        (otherNode, otherNodeText)] :: validateTables.signatures }

@[reducible] def builtCrates : Crates := builtTables.crates

attribute [local instance] builtCrates

theorem builtTables_headersReadBack : HeadersReadBack :=
  headersReadBack_tables builtTables (by decide +kernel) (by decide +kernel) (by decide +kernel)

theorem builtTables_signaturesReadBack : SignaturesReadBack :=
  signaturesReadBack_tables builtTables (by decide +kernel) (by decide +kernel)

/-- The entry, with the crates of these tables. -/
def entryFrame : OperationFrame :=
  ⟨⟨fiftyBytes, fiftyMultihash, some fiftyOperation⟩, by decide +kernel⟩

def entryOperations : BlockOperations := ⟨toMultihash fiftyMultihash, [⟨50, 0, 170⟩], fiftyBytes⟩

theorem entryOperations_eq : BlockOperations.fromOperations [entryFrame] = .ok entryOperations := by
  decide +kernel

/-- The node that proposes the block. -/
def otherCell : Cell := { twoNodes with localNode := ⟨otherNode⟩ }

theorem fiftyBlock_built :
    Built (fiftyBlock nextHeaderMultihash) otherCell entryOperations nextHeader := by
  refine ⟨Or.inr ⟨_, entryOperations_eq⟩, by decide +kernel, 1, 0, genesisMultihash, 100, ?_, ?_⟩
  · decide +kernel
  · decide +kernel

end Samples

end Exocore.Engine
