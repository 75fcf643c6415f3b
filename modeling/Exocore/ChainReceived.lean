import Exocore.ChainValidate
import Exocore.CorePanic

/-! Blocks out of bytes that another node has sent: where the readers panic, and when the kind
of data they are given makes a difference. -/
namespace Exocore.Chain

open Exocore.Core

/-- The operation stands inside of the data of the block. -/
def BlockOperationHeader.Inside (h : BlockOperationHeader) (operationsData : Bytes) : Prop :=
  h.dataOffset + h.dataSize ≤ operationsData.length

instance (h : BlockOperationHeader) (operationsData : Bytes) : Decidable (h.Inside operationsData) :=
  inferInstanceAs (Decidable (_ ≤ _))

theorem view_of_le (kind : DataKind) (data : Bytes) (start stop : ℕ) (hle : start ≤ stop)
    (hstop : stop ≤ data.length) : kind.view data start stop = some ((data.take stop).drop start) := by
  cases kind with
  | bytes => exact if_pos ⟨hle, hstop⟩
  | ref =>
    rw [DataKind.view, min_eq_left hstop]
    exact if_pos ⟨hle, hstop⟩

section Received
variable [Crates]

/-- The signatures that the header announces stand inside of the bytes, where they start inside. -/
def SignaturesInside (data : Bytes) : Prop :=
  ∀ header m, readHeaderFrame data = .ok header → header.reader = some m →
    header.wholeData.length + m.operationsSize < data.length →
    header.wholeData.length + m.operationsSize + m.signaturesSize ≤ data.length

/-- The operations stand inside of the data up to the first that does not read. -/
def IterInside (operationsData : Bytes) : List BlockOperationHeader → Prop
  | [] => True
  | h :: rest => h.Inside operationsData ∧
    ((∃ f, h.readFrame operationsData = .ok f) → IterInside operationsData rest)

/-- The operations of a block stand inside of its data, those that the iterator gets to and
those that a search by id ends at. -/
structure OperationsInside (b : DataBlock) : Prop where
  iterated : ∀ headers, b.operationsHeader = .ok headers → IterInside b.operationsData headers
  searched : ∀ headers id index h, b.operationsHeader = .ok headers →
    Search.binarySearchBy (fun x => compare x.operationId id) headers = some index →
    headers[index]? = some h → h.Inside b.operationsData

/-- Whatever is asked from the block is answered, or is an error. -/
structure ReadsSafely (b : DataBlock) : Prop where
  operations : NoPanic b.operations
  getOperation : ∀ id, NoPanic (b.getOperation id)
  validate : ∀ previousBlock, NoPanic (b.validate previousBlock)

theorem noPanic_readHeaderFrame (data : Bytes) : NoPanic (readHeaderFrame data) := by
  rw [readHeaderFrame, noPanic_liftError]
  exact noPanic_hashedFrame_read _ data

theorem noPanic_readSignaturesFrame (data : Bytes) : NoPanic (readSignaturesFrame data) := by
  rw [readSignaturesFrame, noPanic_liftError]
  exact noPanic_paddedTypedFrame_read _ data

theorem noPanic_readOperationFrame (data : Bytes) : NoPanic (readOperationFrame data) := by
  have h := noPanic_hashedFrame_read Crates.readChainOperation data
  unfold readOperationFrame
  split
  · simp
  · rename_i e he
    rw [he] at h
    cases e with
    | error e => simp [Fault.map]
    | panic => simp at h

/-- A range is only checked by the slice itself. -/
theorem noPanic_readFrame_iff (h : BlockOperationHeader) (operationsData : Bytes) :
    NoPanic (h.readFrame operationsData) ↔ h.Inside operationsData := by
  rw [BlockOperationHeader.readFrame, BlockOperationHeader.Inside, slice]
  by_cases hinside : h.dataOffset + h.dataSize ≤ operationsData.length
  · rw [if_pos ⟨by omega, hinside⟩, orPanic_some, ok_bind, noPanic_liftError]
    exact ⟨fun _ => hinside, fun _ => noPanic_readOperationFrame _⟩
  · rw [if_neg fun hrange => hinside hrange.2]
    constructor
    · intro hno
      exact absurd rfl hno
    · intro hin
      exact absurd hin hinside

theorem noPanic_iterOperations_iff (operationsData : Bytes) (headers : List BlockOperationHeader) :
    NoPanic (DataBlock.iterOperations operationsData headers) ↔ IterInside operationsData headers := by
  induction headers with
  | nil => simp [DataBlock.iterOperations, IterInside]
  | cons h rest ih =>
    rw [DataBlock.iterOperations, IterInside, ← ih, ← noPanic_readFrame_iff h]
    cases hread : h.readFrame operationsData with
    | ok frame =>
      constructor
      · intro hno
        refine ⟨noPanic_ok _, fun _ hpanic => ?_⟩
        rw [hpanic] at hno
        exact hno rfl
      · rintro ⟨-, hrest⟩
        exact noPanic_bind _ _ (hrest ⟨frame, rfl⟩) fun _ _ => noPanic_pure _
    | error e =>
      cases e with
      | error e => simp
      | panic => simp

omit [Crates] in
theorem noPanic_operationsHeader (b : DataBlock) : NoPanic b.operationsHeader :=
  noPanic_bind _ _ (noPanic_orError _ _) fun _ _ => noPanic_orError _ _

theorem noPanic_operations_iff (b : DataBlock) : NoPanic b.operations ↔
    ∀ headers, b.operationsHeader = .ok headers → IterInside b.operationsData headers := by
  simp only [← noPanic_iterOperations_iff]
  constructor
  · intro hno headers hheaders
    rwa [DataBlock.operations, hheaders, ok_bind] at hno
  · intro h
    exact noPanic_bind _ _ (noPanic_operationsHeader b) h

theorem noPanic_getOperation_iff (b : DataBlock) (id : ℕ) : NoPanic (b.getOperation id) ↔
    ∀ headers index h, b.operationsHeader = .ok headers →
      Search.binarySearchBy (fun x => compare x.operationId id) headers = some index →
      headers[index]? = some h → h.Inside b.operationsData := by
  simp only [← noPanic_readFrame_iff]
  constructor
  · intro hno headers index h hheaders hindex hget hpanic
    have hlt := (List.getElem?_eq_some_iff.mp hget).1
    rw [DataBlock.getOperation, hheaders, ok_bind, hindex] at hno
    simp only [if_neg (not_lt.mpr hlt.le), hget, orPanic_some, ok_bind, hpanic] at hno
    exact hno rfl
  · intro h
    apply noPanic_bind _ _ (noPanic_operationsHeader b)
    intro headers hheaders
    split
    · exact noPanic_pure _
    · rename_i index hindex
      -- the search answers a position of the list, so that only the read can panic
      obtain ⟨x, hget, -⟩ := Search.binarySearchBy_sound _ _ _ hindex
      apply noPanic_ite _ _ _ (fun _ => noPanic_error _)
      intro _
      rw [hget, orPanic_some, ok_bind]
      exact noPanic_bind _ _ (h headers index x hheaders hindex hget) fun _ _ => noPanic_pure _

theorem noPanic_verify {T : Type} (f : HashedFrame T) : NoPanic (verify f) :=
  noPanic_bind _ _ (noPanic_orError _ _) fun _ _ => noPanic_pure _

/-- The validation reads no more than the iterator does. -/
theorem noPanic_validate (b : DataBlock) (previousBlock : Option DataBlock)
    (h : NoPanic b.operations) : NoPanic (b.validate previousBlock) := by
  apply noPanic_bind _ _ (noPanic_orError _ _)
  intro header _
  apply noPanic_bind _ _ ((noPanic_liftError _ _).mpr (noPanic_verify _))
  intro _ _
  apply noPanic_bind
  · cases previousBlock with
    | none => exact noPanic_pure _
    | some previous =>
      apply noPanic_bind _ _ (noPanic_orError _ _)
      intro previousHash _
      exact noPanic_ite _ _ _ (fun _ => noPanic_error _) fun _ => noPanic_pure _
  intro _ _
  apply noPanic_bind
  · apply noPanic_ite _ _ _ (fun _ => noPanic_error _)
    intro _
    exact noPanic_ite _ _ _ (fun _ => noPanic_error _) fun _ => noPanic_pure _
  intro _ _
  apply noPanic_ite _ _ _ _ fun _ => noPanic_pure _
  intro _
  apply noPanic_bind _ _ h
  intro operations _
  apply noPanic_bind _ _ (noPanic_orError _ _)
  intro hashBytes _
  apply noPanic_bind _ _ (noPanic_orError _ _)
  intro opsHashHeader _
  exact noPanic_ite _ _ _ (fun _ => noPanic_error _) fun _ => noPanic_pure _

theorem readsSafely_iff (b : DataBlock) : ReadsSafely b ↔ OperationsInside b := by
  constructor
  · intro h
    refine ⟨(noPanic_operations_iff b).mp h.operations, ?_⟩
    intro headers id
    exact (noPanic_getOperation_iff b id).mp (h.getOperation id) headers
  · intro h
    have hoperations := (noPanic_operations_iff b).mpr h.iterated
    refine ⟨hoperations, ?_, fun previousBlock => noPanic_validate b previousBlock hoperations⟩
    intro id
    exact (noPanic_getOperation_iff b id).mpr fun headers index x => h.searched headers id index x

theorem noPanic_new_ref (data : Bytes) : NoPanic (DataBlock.new .ref data) := by
  apply noPanic_bind _ _ (noPanic_readHeaderFrame data)
  intro header _
  apply noPanic_bind _ _ (noPanic_orError _ _)
  intro m _
  apply noPanic_ite _ _ _ (fun _ => noPanic_error _)
  intro hbound
  -- the end of the signatures is cut at the end of the data
  apply noPanic_bind
  · rw [noPanic_orPanic, DataKind.view, slice, if_pos (by omega)]
    rfl
  intro signaturesData _
  apply noPanic_bind _ _ (noPanic_readSignaturesFrame _)
  intro signatures _
  rw [view_of_le .ref data _ _ (by omega) (by omega), orPanic_some, ok_bind]
  exact noPanic_pure _

theorem new_bytes_eq_ref (data : Bytes) (h : SignaturesInside data) :
    DataBlock.new .bytes data = DataBlock.new .ref data := by
  unfold DataBlock.new
  cases hheader : readHeaderFrame data with
  | error e => rfl
  | ok header =>
    cases hm : header.reader with
    | none => simp only [ok_bind, hm, orError, error_bind]
    | some m =>
      simp only [ok_bind, hm, orError_some]
      split_ifs with hbound
      · rfl
      · have hinside := h header m hheader hm (by omega)
        simp only [view_of_le _ data _ _ (Nat.le_add_right _ _) hinside,
          view_of_le _ data _ _ (Nat.le_add_right _ _) (not_le.mp hbound).le]

theorem new_bytes_panics (data : Bytes) (h : ¬ SignaturesInside data) :
    DataBlock.new .bytes data = .error .panic := by
  simp only [SignaturesInside, not_forall] at h
  obtain ⟨header, m, hheader, hm, hstart, hstop⟩ := h
  simp only [DataBlock.new, hheader, hm, ok_bind, orError_some, if_neg (not_le.mpr hstart),
    DataKind.view, slice, if_neg fun hrange : _ ∧ _ => hstop hrange.2]
  rfl

/-- The frame ends where it was looked for, inside of the bytes. -/
theorem readSignaturesFrameFromNextOffset_inside (data : Bytes) (nextOffset : ℕ)
    (f : SignaturesFrame) (h : readSignaturesFrameFromNextOffset data nextOffset = .ok f) :
    f.wholeData.length ≤ nextOffset ∧ nextOffset ≤ data.length := by
  rw [readSignaturesFrameFromNextOffset, liftError_eq_ok_iff] at h
  obtain ⟨s, hs, hof⟩ := (bind_eq_ok_iff _ _ _).mp h
  have hsize := paddedTypedFrame_ofSized_length _ s
    (sizedFrame_newFromNextOffset_inside data nextOffset s hs) f hof
  obtain ⟨n, -, hroom, hlen, rfl⟩ :=
    (sizedFrame_newFromNextOffset_eq_ok_iff data nextOffset s).mp hs
  simp only at hsize
  exact ⟨by omega, hlen⟩

theorem newFromNextOffset_bytes_eq_ref (data : Bytes) (nextOffset : ℕ) :
    DataBlock.newFromNextOffset .bytes data nextOffset =
      DataBlock.newFromNextOffset .ref data nextOffset := by
  unfold DataBlock.newFromNextOffset
  cases hf : readSignaturesFrameFromNextOffset data nextOffset with
  | error e => rfl
  | ok f =>
    obtain ⟨hle, hlen⟩ := readSignaturesFrameFromNextOffset_inside data nextOffset f hf
    cases hm : f.reader with
    | none => simp only [ok_bind, hm, orError, error_bind]
    | some m =>
      simp only [ok_bind, hm, orError_some]
      split_ifs with hbound
      · rfl
      · have hstop : nextOffset - f.wholeData.length ≤ data.length := by omega
        simp only [view_of_le _ data _ _ (Nat.sub_le _ _) hstop]

theorem noPanic_newFromNextOffset (kind : DataKind) (data : Bytes) (nextOffset : ℕ) :
    NoPanic (DataBlock.newFromNextOffset kind data nextOffset) := by
  apply noPanic_bind
  · rw [readSignaturesFrameFromNextOffset, noPanic_liftError]
    exact noPanic_paddedTypedFrame_readFromNextOffset _ data nextOffset
  intro f hf
  obtain ⟨hle, hlen⟩ := readSignaturesFrameFromNextOffset_inside data nextOffset f hf
  apply noPanic_bind _ _ (noPanic_orError _ _)
  intro m _
  apply noPanic_ite _ _ _ (fun _ => noPanic_error _)
  intro hbound
  simp only [view_of_le kind data _ _ (Nat.sub_le _ _) (show nextOffset - f.wholeData.length ≤
    data.length by omega), orPanic_some, ok_bind]
  apply noPanic_bind
  · rw [readHeaderFrameFromNextOffset, noPanic_liftError]
    exact noPanic_hashedFrame_readFromNextOffset _ data _
  intro header _
  exact noPanic_bind _ _ (noPanic_orError _ _) fun _ _ => noPanic_pure _

/-- Reading from the start is safe, and the same for all kinds of data, if and only if the
announced signatures are there. Reading from the end always is. A block is safe if and only if
the operations that are asked for stand inside of its data. -/
theorem received_safe_iff (data : Bytes) :
    (((∀ kind, NoPanic (DataBlock.new kind data)) ∧
        DataBlock.new .bytes data = DataBlock.new .ref data) ↔ SignaturesInside data) ∧
      (∀ nextOffset, (∀ kind, NoPanic (DataBlock.newFromNextOffset kind data nextOffset)) ∧
        DataBlock.newFromNextOffset .bytes data nextOffset =
          DataBlock.newFromNextOffset .ref data nextOffset) ∧
      ∀ b, ReadsSafely b ↔ OperationsInside b := by
  refine ⟨⟨?_, ?_⟩, ?_, readsSafely_iff⟩
  · rintro ⟨hno, -⟩
    by_contra hinside
    exact hno .bytes (new_bytes_panics data hinside)
  · intro hinside
    have hsame := new_bytes_eq_ref data hinside
    refine ⟨?_, hsame⟩
    intro kind
    cases kind with
    | bytes =>
      rw [hsame]
      exact noPanic_new_ref data
    | ref => exact noPanic_new_ref data
  · intro nextOffset
    exact ⟨fun kind => noPanic_newFromNextOffset kind data nextOffset,
      newFromNextOffset_bytes_eq_ref data nextOffset⟩

end Received

section Samples

open Exocore.Engine

/-- The range of the one operation ends one byte after the data. -/
def farHeader : BlockHeader := proposedHeader 254 2 0 100 171 genesisMultihash

def receivedTables : Tables :=
  { validateTables with headers := (proposedMessage farHeader, farHeader) :: validateTables.headers }

local instance receivedCrates : Crates := receivedTables.crates

def farBlock : DataBlock :=
  { fiftyBlock nextHeaderMultihash with
    header := ⟨sizedBytes (proposedMessage farHeader ++ nextHeaderMultihash), nextHeaderMultihash,
      some farHeader⟩ }

/-- A block that is cut short by a byte panics where owned bytes are read, and is an error on a
reference. A block with a range that is too long is read, and panics when it is used. -/
theorem received_panics :
    DataBlock.new .bytes (fiftyBlock nextHeaderMultihash).asDataVec.dropLast = .error .panic ∧
      NoPanic (DataBlock.new .ref (fiftyBlock nextHeaderMultihash).asDataVec.dropLast) ∧
      DataBlock.new .bytes farBlock.asDataVec = .ok farBlock ∧ ¬ NoPanic farBlock.operations ∧
      ¬ NoPanic (farBlock.getOperation 50) ∧ ¬ NoPanic (farBlock.validate none) := by
  have hvalues : DataBlock.new .bytes (fiftyBlock nextHeaderMultihash).asDataVec.dropLast =
        .error .panic ∧ DataBlock.new .bytes farBlock.asDataVec = .ok farBlock ∧
      farBlock.operations = .error .panic ∧ farBlock.getOperation 50 = .error .panic ∧
      farBlock.validate none = .error .panic := by
    decide +kernel
  obtain ⟨hcut, hnew, hoperations, hget, hvalidate⟩ := hvalues
  exact ⟨hcut, noPanic_new_ref _, hnew, fun h => h hoperations, fun h => h hget, fun h => h hvalidate⟩

end Samples

end Exocore.Chain
