import Exocore.CommitBuilt

/-! The operations of a block that was built: they come back out of it in their order, and by
their ids. -/
namespace Exocore.Engine

open Exocore.Core Exocore.Chain

section Operations
variable [Crates]

/-- The id in the message of the frame, zero where the message does not read. -/
def frameId (f : OperationFrame) : ℕ := (f.frame.reader.map ChainOperation.operationId).getD 0

/-- Frames that a block can be built of: their messages read, and their ids increase. -/
structure Increasing (frames : List OperationFrame) : Prop where
  reads : ∀ f ∈ frames, f.frame.reader.isSome
  sorted : frames.Pairwise fun f g => frameId f < frameId g

theorem increasing_inj (frames : List OperationFrame) (h : Increasing frames)
    (f g : OperationFrame) (hf : f ∈ frames) (hg : g ∈ frames) (hid : frameId f = frameId g) :
    f = g := by
  obtain ⟨i, hi, rfl⟩ := List.getElem_of_mem hf
  obtain ⟨j, hj, rfl⟩ := List.getElem_of_mem hg
  have hsorted := List.pairwise_iff_getElem.mp h.sorted
  rcases Nat.lt_trichotomy i j with hlt | heq | hgt
  · exact absurd hid (hsorted i j hi hj hlt).ne
  · simp only [heq]
  · exact absurd hid (hsorted j i hj hi hgt).ne'

theorem fromOperationsLoop_increasing (frames : List OperationFrame) (last : ℕ) (hasher : Bytes)
    (headers : List BlockOperationHeader) (data : Bytes) (h : Increasing frames)
    (hlast : ∀ f ∈ frames, last ≤ frameId f) :
    ∃ operations, fromOperationsLoop frames last hasher headers data = .ok operations := by
  induction frames generalizing last hasher headers data with
  | nil => exact ⟨_, rfl⟩
  | cons f rest ih =>
    obtain ⟨reader, hreader⟩ := Option.isSome_iff_exists.mp (h.reads f List.mem_cons_self)
    have hid : frameId f = reader.operationId := by rw [frameId, hreader, Option.map_some,
      Option.getD_some]
    obtain ⟨hfirst, hrest⟩ := List.pairwise_cons.mp h.sorted
    have hle := hlast f List.mem_cons_self
    simp only [fromOperationsLoop, hreader, orError_some, ok_bind]
    rw [if_neg (by omega)]
    apply ih
    · exact ⟨fun g hg => h.reads g (List.mem_cons_of_mem _ hg), hrest⟩
    · intro g hg
      have hlt := hfirst g hg
      omega

theorem fromOperations_increasing (frames : List OperationFrame) (h : Increasing frames) :
    ∃ operations, BlockOperations.fromOperations frames = .ok operations :=
  fromOperationsLoop_increasing frames 0 [] [] [] h fun _ _ => Nat.zero_le _

/-- Each position has the id of its frame, and cuts its bytes out of all of them. -/
theorem positions_read (frames : List OperationFrame) (before : Bytes)
    (hsmall : (before ++ framesData frames).length < 2^32) :
    List.Forall₂ (fun x f => x.operationId = frameId f ∧
        x.readFrame (before ++ framesData frames) = .ok f)
      (positions frames before.length) frames := by
  induction frames generalizing before with
  | nil => exact .nil
  | cons f rest ih =>
    have hdata : before ++ framesData (f :: rest) = before ++ f.wholeData ++ framesData rest := by
      rw [framesData_cons, List.append_assoc]
    rw [hdata] at hsmall ⊢
    have hlength : (before ++ f.wholeData ++ framesData rest).length =
        before.length + f.wholeData.length + (framesData rest).length := by
      rw [List.length_append, List.length_append]
    have hrest := ih (before ++ f.wholeData) hsmall
    rw [List.length_append] at hrest
    rw [positions, Nat.mod_eq_of_lt (by omega), Nat.mod_eq_of_lt (by omega)]
    refine .cons ⟨rfl, ?_⟩ hrest
    exact readFrame_of_slice _ _ f (slice_append before f.wholeData (framesData rest))

/-- The search of an id ends at the position of the one frame that has it, if there is one. -/
theorem search_positions (frames : List OperationFrame) (id index : ℕ)
    (x : BlockOperationHeader) (f : OperationFrame)
    (hindex : Search.binarySearchBy (fun x => compare x.operationId id) (positions frames 0) =
      some index) (hx : (positions frames 0)[index]? = some x)
    (hf : frames[index]? = some f) : x.operationId = id ∧ x.operationId = frameId f := by
  obtain ⟨y, hy, hcmp⟩ := Search.binarySearchBy_sound _ _ _ hindex
  rw [hx] at hy
  obtain rfl := Option.some.inj hy
  refine ⟨Nat.compare_eq_eq.mp hcmp, ?_⟩
  have hids := congrArg (fun l => l[index]?) (positions_ids frames 0)
  simpa [hx, hf, frameId] using hids

theorem getOperation_of_positions (b : DataBlock) (frames : List OperationFrame)
    (h : Increasing frames) (hheaders : b.operationsHeader = .ok (positions frames 0))
    (hread : List.Forall₂ (fun x f => x.operationId = frameId f ∧
      x.readFrame b.operationsData = .ok f) (positions frames 0) frames) (id : ℕ) :
    b.getOperation id = .ok (frames.find? fun f => frameId f = id) := by
  have hsorted : Search.SortedFor (fun x => compare x.operationId id) (positions frames 0) := by
    apply Search.sortedFor_key
    have hids : ((positions frames 0).map BlockOperationHeader.operationId).Pairwise (· ≤ ·) := by
      rw [positions_ids, List.pairwise_map]
      exact h.sorted.imp fun hlt => hlt.le
    exact List.pairwise_map.mp hids
  rw [DataBlock.getOperation, hheaders, ok_bind]
  cases hindex : Search.binarySearchBy (fun x => compare x.operationId id) (positions frames 0) with
  | none =>
    -- the search is complete, so that no frame has the id
    have hnone : (frames.find? fun f => frameId f = id) = none := by
      rw [List.find?_eq_none]
      intro f hf hid
      have hmem : frameId f ∈ (positions frames 0).map BlockOperationHeader.operationId := by
        rw [positions_ids]
        exact List.mem_map_of_mem hf
      obtain ⟨x, hx, hxid⟩ := List.mem_map.mp hmem
      obtain ⟨i, hi⟩ := Search.binarySearchBy_complete _ _ hsorted x hx
        (Nat.compare_eq_eq.mpr (hxid.trans (of_decide_eq_true hid)))
      rw [hindex] at hi
      contradiction
    rw [hnone]
    rfl
  | some index =>
    obtain ⟨x, hx, -⟩ := Search.binarySearchBy_sound _ _ _ hindex
    obtain ⟨hlt, rfl⟩ := List.getElem?_eq_some_iff.mp hx
    have hltf : index < frames.length := by rwa [positions_length] at hlt
    obtain ⟨hid, hfid⟩ := search_positions frames id index _ frames[index] hindex hx
      (List.getElem?_eq_getElem hltf)
    have hreadIndex := (List.forall₂_iff_get.mp hread).2 index hlt hltf
    simp only [List.get_eq_getElem] at hreadIndex
    have hfind : (frames.find? fun f => frameId f = id) = some frames[index] := by
      rw [List.find?_eq_some_iff_getElem]
      refine ⟨by rw [decide_eq_true_eq, ← hfid, hid], index, hltf, rfl, ?_⟩
      intro j hj
      have hlt' := List.pairwise_iff_getElem.mp h.sorted j index (by omega) hltf hj
      rw [Bool.not_eq_true', decide_eq_false_iff_not]
      omega
    simp only [if_neg (not_lt.mpr hlt.le), hx, orPanic_some, ok_bind, hreadIndex.2, hfind, pure,
      Except.pure]

/-- The frames come back out of the block in their order, and each by its id; and the block is
valid as to its operations. -/
theorem built_operations (hh : HeadersReadBack) (hmh : MultihashReadsBack)
    (frames : List OperationFrame) (h : Increasing frames)
    (hsmall : (framesData frames).length < 2^32) :
    ∃ operations, BlockOperations.fromOperations frames = .ok operations ∧
      ∀ cell offset height previousOffset previousHash proposedOperationId b,
        BlockBuilder.buildWithPrevInfo cell offset height previousOffset previousHash
          proposedOperationId operations = .ok b →
        b.operations = .ok frames ∧
          (∀ f ∈ frames, b.getOperation (frameId f) = .ok (some f)) ∧
          (∀ id, (∀ f ∈ frames, frameId f ≠ id) → b.getOperation id = .ok none) ∧
          BlockOperations.hashOperations frames = operations.hash ∧
          ∃ header, b.header.reader = some header ∧
            header.operationsSize = b.operationsData.length ∧
            b.validateOperations header = .ok () := by
  obtain ⟨operations, hops⟩ := fromOperations_increasing frames h
  obtain ⟨hdata, hpositions, hhash⟩ := fromOperations_eq_ok frames operations hops
  refine ⟨operations, hops, ?_⟩
  intro cell offset height previousOffset previousHash id b hbuild
  have hoff := ((buildWithPrevInfo_eq_ok_iff _ _ _ _ _ _ _ b).mp hbuild).1
  rw [← hoff] at hbuild
  obtain ⟨hreader, hbdata, -, -, hsize, hheader, hbytes, -⟩ := built_parts hh b cell operations _
    ⟨Or.inr ⟨frames, hops⟩, hdata ▸ hsmall, height, previousOffset, previousHash, id, hbuild, rfl⟩
  have hheaders : b.operationsHeader = .ok (positions frames 0) := by
    simp only [DataBlock.operationsHeader, DataBlock.headerReader, hreader, hheader, hpositions,
      orError_some, ok_bind]
  have hread := positions_read frames [] hsmall
  rw [List.nil_append, ← hdata, ← hbdata, List.length_nil] at hread
  have hiter : b.operations = .ok frames := by
    rw [DataBlock.operations, hheaders, ok_bind]
    exact iterOperations_of_reads _ _ _ (hread.imp fun _ _ hx => hx.2)
  have hget := getOperation_of_positions b frames h hheaders hread
  refine ⟨hiter, ?_, ?_, hhash.symm, _, hreader, by rw [hsize, hbdata], ?_⟩
  · intro f hf
    rw [hget]
    cases hfind : frames.find? fun g => frameId g = frameId f with
    | none => exact absurd (List.find?_eq_none.mp hfind f hf) (by simp)
    | some g =>
      have hg := List.mem_of_find?_eq_some hfind
      have hid : frameId g = frameId f := of_decide_eq_true (List.find?_some hfind :)
      rw [increasing_inj frames h g f hg hf hid]
  · intro id hno
    rw [hget, List.find?_eq_none.mpr]
    intro f hf
    simpa using hno f hf
  · rw [validateOperations_eq_ok_iff]
    refine ⟨frames, _, hiter, hbytes, ?_⟩
    rw [hhash]
    exact hmh _

end Operations

section Samples

def sixtyMessage : Bytes := operationMessage 60 60 0 firstNodeText (dataContent [2])

def sixtyMultihash : Bytes := ofNats
    [22, 32, 237, 234, 7, 69, 56, 101, 23, 179, 64, 68, 103, 33, 24, 193, 234, 191, 102, 202, 189,
    186, 72, 253, 164, 70, 154, 103, 59, 68, 218, 110, 46, 194]

def sixtyOperation : ChainOperation := ⟨60, 60, some firstNode, .entry (some [2])⟩

/-- The hash of the operations of a block with the two entries. -/
def pairHash : Bytes := ofNats
    [22, 32, 161, 41, 110, 9, 92, 188, 219, 170, 142, 46, 100, 80, 212, 147, 138, 230, 70, 24, 232,
    236, 198, 40, 40, 227, 234, 148, 243, 201, 170, 192, 36, 246]

def pairHeader : BlockHeader :=
  { proposedHeader 254 2 0 100 170 genesisMultihash with
    operationsSize := 340
    operationsHeader := some [⟨50, 0, 170⟩, ⟨60, 170, 170⟩]
    operationsHash := some pairHash }

def pairHeaderMultihash : Bytes := ofNats
    [22, 32, 55, 229, 233, 111, 135, 249, 117, 163, 192, 173, 159, 193, 132, 88, 139, 128, 145, 21,
    46, 218, 105, 58, 230, 229, 78, 177, 93, 101, 233, 72, 36, 177]

def pairTables : Tables where
  operations := [(fiftyMessage, fiftyOperation), (sixtyMessage, sixtyOperation)]
  headers := [(proposedMessage pairHeader, pairHeader)]
  signatures := [emptySignatures 340 [(firstNode, firstNodeText), (otherNode, otherNodeText)]]
  digests := [(fiftyMultihash ++ sixtyMultihash, pairHash.drop 2),
    (proposedMessage pairHeader, pairHeaderMultihash.drop 2)]
  nodeIds := [firstNode, otherNode]

local instance pairCrates : Crates := pairTables.crates

def pairFrames : List OperationFrame :=
  [⟨⟨fiftyBytes, fiftyMultihash, some fiftyOperation⟩, by decide +kernel⟩,
    ⟨⟨sizedBytes (sixtyMessage ++ sixtyMultihash), sixtyMultihash, some sixtyOperation⟩,
      by decide +kernel⟩]

theorem pairTables_headersReadBack : HeadersReadBack :=
  headersReadBack_tables pairTables (by decide +kernel) (by decide +kernel) (by decide +kernel)

theorem pairTables_multihashReadsBack : MultihashReadsBack :=
  multihashReadsBack_tables pairTables (by decide +kernel)

/-- The block that the other node builds of the two entries after the genesis block. -/
def buildPair (operations : BlockOperations) : Res BlockError DataBlock :=
  BlockBuilder.buildWithPrevInfo otherCell 254 1 0 genesisMultihash 100 operations

/-- Two entries come back out of their block in their order, each by its id, and no other does. -/
theorem built_operations_pair :
    ∃ operations b, BlockOperations.fromOperations pairFrames = .ok operations ∧
      buildPair operations = .ok b ∧ b.operations = .ok pairFrames ∧
      b.operationsHeader = .ok [⟨50, 0, 170⟩, ⟨60, 170, 170⟩] ∧
      (∀ f ∈ pairFrames, b.getOperation (frameId f) = .ok (some f)) ∧
      b.getOperation 55 = .ok none := by
  have hvalues : (pairFrames.all fun f => f.frame.reader.isSome) = true ∧
      pairFrames.Pairwise (fun f g => frameId f < frameId g) ∧
      (∀ f ∈ pairFrames, frameId f ≠ 55) ∧ (framesData pairFrames).length < 2^32 := by
    decide +kernel
  obtain ⟨hreads, hsorted, hnone, hsmall⟩ := hvalues
  obtain ⟨operations, hops, hbuilt⟩ := built_operations pairTables_headersReadBack
    pairTables_multihashReadsBack pairFrames ⟨List.all_eq_true.mp hreads, hsorted⟩ hsmall
  have hbuild : ((BlockOperations.fromOperations pairFrames).toOption.bind fun operations =>
      (buildPair operations).toOption).any (fun b =>
        b.operationsHeader.toOption = some [⟨50, 0, 170⟩, ⟨60, 170, 170⟩]) = true := by
    decide +kernel
  rw [hops, Option.any_eq_true] at hbuild
  obtain ⟨b, hb, hheaders⟩ := hbuild
  have hb' : buildPair operations = .ok b := (toOption_eq_some_iff _ _).mp hb
  obtain ⟨hiter, hget, hno, -⟩ := hbuilt _ _ _ _ _ _ _ hb'
  exact ⟨operations, b, hops, hb', hiter,
    (toOption_eq_some_iff _ _).mp (of_decide_eq_true hheaders), hget, hno 55 hnone⟩

end Samples

end Exocore.Engine
