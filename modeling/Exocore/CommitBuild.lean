import Exocore.CommitQuorum

/-! The block that a commit builds from a proposal and from the operations of the pending
store: what it holds, and when its header fits it. -/
namespace Exocore.Engine

open Exocore.Core Exocore.Chain Exocore.Pending SortedMap

section Frames
variable [Crates]

/-- Positions of the frames when they stand one after the other, from an offset on. -/
def positions : List OperationFrame → ℕ → List BlockOperationHeader
  | [], _ => []
  | f :: rest, offset =>
    ⟨(f.frame.reader.map ChainOperation.operationId).getD 0, offset % 2^32,
      f.wholeData.length % 2^32⟩ :: positions rest (offset + f.wholeData.length)

theorem positions_ids (frames : List OperationFrame) (offset : ℕ) :
    (positions frames offset).map BlockOperationHeader.operationId =
      frames.map fun f => (f.frame.reader.map ChainOperation.operationId).getD 0 := by
  induction frames generalizing offset with
  | nil => rfl
  | cons f rest ih => rw [positions, List.map_cons, List.map_cons, ih]

def framesData (frames : List OperationFrame) : Bytes :=
  (frames.map OperationFrame.wholeData).flatten

theorem fromOperationsLoop_eq_ok (frames : List OperationFrame) (last : ℕ) (hasher : Bytes)
    (headers : List BlockOperationHeader) (data : Bytes) (ops : BlockOperations)
    (h : fromOperationsLoop frames last hasher headers data = .ok ops) :
    ops.data = data ++ framesData frames ∧ ops.headers = headers ++ positions frames data.length ∧
      ops.hash = toMultihash (hasher ++ (frames.map OperationFrame.multihashBytes).flatten) := by
  induction frames generalizing last hasher headers data with
  | nil =>
    obtain rfl := Except.ok.inj h
    simp [framesData, positions]
  | cons f rest ih =>
    rw [fromOperationsLoop] at h
    obtain ⟨reader, hreader, h⟩ := (bind_eq_ok_iff _ _ _).mp h
    rw [orError_eq_ok_iff] at hreader
    simp only at h
    split_ifs at h
    obtain ⟨hdata, hheaders, hhash⟩ := ih _ _ _ _ h
    refine ⟨?_, ?_, ?_⟩
    · rw [hdata, framesData, framesData, List.map_cons, List.flatten_cons, List.append_assoc]
    · rw [hheaders, positions, List.append_assoc, List.length_append, hreader]
      rfl
    · rw [hhash, List.map_cons, List.flatten_cons, List.append_assoc]

theorem fromOperations_eq_ok (frames : List OperationFrame) (ops : BlockOperations)
    (h : BlockOperations.fromOperations frames = .ok ops) :
    ops.data = framesData frames ∧ ops.headers = positions frames 0 ∧
      ops.hash = BlockOperations.hashOperations frames := by
  obtain ⟨hdata, hheaders, hhash⟩ := fromOperationsLoop_eq_ok frames 0 [] [] [] ops h
  exact ⟨by simpa using hdata, by simpa using hheaders,
    by simpa [BlockOperations.hashOperations] using hhash⟩

/-- The operations of a block, in the order of their ids. -/
def storedFrames (store : MemoryPendingStore) (ids : List ℕ) : List OperationFrame :=
  ((ids.filterMap store.getOperation).insertionSort fun a b => a.operationId ≤ b.operationId).map
    StoredOperation.frame

theorem getBlockOperations_eq_ok_iff (block : PendingBlock) (store : MemoryPendingStore)
    (operations : List StoredOperation) :
    getBlockOperations block store = .ok operations ↔
      (∀ id ∈ block.operations, (store.getOperation id).isSome) ∧
        operations = (block.operations.filterMap store.getOperation).insertionSort
          fun a b => a.operationId ≤ b.operationId := by
  have hmap : ∀ (ids : List ℕ) (l : List StoredOperation),
      ids.mapM (fun id => orError (EngineError.commitManager (.missingOperation id))
        (store.getOperation id)) = .ok l ↔
      (∀ id ∈ ids, (store.getOperation id).isSome) ∧ l = ids.filterMap store.getOperation := by
    intro ids
    induction ids with
    | nil =>
      intro l
      simp only [List.mapM_nil, pure, Except.pure, Except.ok.injEq, List.not_mem_nil,
        false_implies, implies_true, List.filterMap_nil, true_and]
      exact eq_comm
    | cons id rest ih =>
      intro l
      simp only [List.mapM_cons, bind_eq_ok_iff, orError_eq_ok_iff, pure, Except.pure,
        Except.ok.injEq, List.mem_cons, forall_eq_or_imp]
      constructor
      · rintro ⟨op, hop, l', hl', rfl⟩
        obtain ⟨hall, rfl⟩ := (ih l').mp hl'
        exact ⟨⟨by simp [hop], hall⟩, by simp [hop]⟩
      · rintro ⟨⟨hsome, hall⟩, rfl⟩
        obtain ⟨op, hop⟩ := Option.isSome_iff_exists.mp hsome
        exact ⟨op, hop, _, (ih _).mpr ⟨hall, rfl⟩, by simp [hop]⟩
  simp only [getBlockOperations, bind_eq_ok_iff, hmap, pure, Except.pure, Except.ok.injEq]
  constructor
  · rintro ⟨l, ⟨hall, rfl⟩, rfl⟩
    exact ⟨hall, rfl⟩
  · rintro ⟨hall, rfl⟩
    exact ⟨_, ⟨hall, rfl⟩, rfl⟩

end Frames

section Build
variable [Crates] {CS : Type} [ChainStore CS]

/-- The signatures of a block that go into the chain. -/
def validSignatures (cell : Cell) (block : PendingBlock) : List BlockSignature :=
  (block.signatures.filter (block.validateSignature cell)).map fun s => ⟨s.nodeId, s.signature⟩

/-- What the checks of a commit let through, and the parts of the block they give. -/
structure Builds (cell : Cell) (block : PendingBlock) (store : MemoryPendingStore) (chain : CS)
    (b : DataBlock) (header : BlockHeader) (ops : BlockOperations) : Prop where
  offset : b.offset = block.proposal.offset
  frame : block.proposal.getBlock = .ok b.header
  reader : b.header.reader = some header
  present : ∀ id ∈ block.operations, (store.getOperation id).isSome
  operations : BlockOperations.fromOperations (storedFrames store block.operations) = .ok ops
  hash : ∃ bytes, header.operationsHash = some bytes ∧
    Crates.multihashFromBytes bytes = some ops.hash
  data : b.operationsData = ops.data
  previous : validateBlockPreviousHash header chain = .ok ()
  signatures : toFrameForExistingBlock (validSignatures cell block) header = .ok b.signatures

theorem buildChainBlock_eq_ok_iff (cell : Cell) (block : PendingBlock)
    (store : MemoryPendingStore) (chain : CS) (b : DataBlock) (header : BlockHeader)
    (ops : BlockOperations) :
    buildChainBlock cell block store chain = .ok (b, header, ops) ↔
      Builds cell block store chain b header ops := by
  simp only [buildChainBlock, bind_eq_ok_iff, orError_eq_ok_iff, liftError_eq_ok_iff,
    getBlockOperations_eq_ok_iff]
  constructor
  · rintro ⟨frame, hframe, reader, hreader, operations, ⟨hpresent, rfl⟩, bytes, hbytes, hash,
      hhash, blockOps, hops, h⟩
    split_ifs at h with heq
    simp only [bind_eq_ok_iff, liftError_eq_ok_iff, pure, Except.pure, Except.ok.injEq,
      Prod.mk.injEq] at h
    obtain ⟨u, hprev, sigs, hsigs, rfl, rfl, rfl⟩ := h
    exact ⟨rfl, hframe, hreader, hpresent, hops,
      ⟨bytes, hbytes, by rw [hhash, not_not.mp heq]⟩, rfl, hprev, hsigs⟩
  · rintro ⟨hoff, hframe, hreader, hpresent, hops, ⟨bytes, hbytes, hhash⟩, hdata, hprev, hsigs⟩
    refine ⟨b.header, hframe, header, hreader, _, ⟨hpresent, rfl⟩, bytes, hbytes, ops.hash, hhash,
      ops, hops, ?_⟩
    rw [if_neg (not_not.mpr rfl)]
    simp only [bind_eq_ok_iff, liftError_eq_ok_iff, pure, Except.pure, Except.ok.injEq,
      Prod.mk.injEq]
    refine ⟨(), hprev, b.signatures, hsigs, ?_⟩
    rw [← hoff, ← hdata]
    exact ⟨rfl, trivial⟩

/-- A commit that returns well has written the block that it built. -/
theorem commitBlock_eq_ok (m : CommitManager) (block : PendingBlock) (s s' : CommitState CS)
    (h : m.commitBlock block s = (.ok (), s')) :
    ∃ b header ops next, Builds m.cell block s.pendingStore s.chainStore b header ops ∧
      ChainStore.writeBlock s.chainStore b = (.ok next, s'.chainStore) := by
  rcases commitBlock_chainStore m block s with ⟨⟨e, hbuild⟩, -⟩ | ⟨b, header, ops, hbuild, hchain⟩
  · rw [CommitManager.commitBlock, Action.get_bind, hbuild] at h
    exact absurd (congrArg Prod.fst h) (by simp)
  · refine ⟨b, header, ops, ?_⟩
    rw [h] at hchain
    rw [CommitManager.commitBlock, Action.get_bind, hbuild] at h
    simp only [Action.lift_ok_bind] at h
    cases hwrite : ChainStore.writeBlock s.chainStore b with
    | mk res chainStore =>
      rw [hwrite] at hchain
      simp only [hwrite] at h
      cases res with
      | error e =>
        cases e with
        | panic => exact absurd (congrArg Prod.fst h) (by simp [Action.bind_apply])
        | error e => cases e <;> exact absurd (congrArg Prod.fst h) (by simp [Action.bind_apply])
      | ok next =>
        refine ⟨next, (buildChainBlock_eq_ok_iff _ _ _ _ _ _ _).mp hbuild, ?_⟩
        exact Prod.ext rfl hchain.symm

end Build

section SelfConsistent
variable [Crates]

/-- The block and its header agree, and each operation the header lists is the one that the
pending store has. -/
def SelfConsistent (store : MemoryPendingStore) (b : DataBlock) : Prop :=
  ∃ header hs, b.header.reader = some header ∧ header.operationsHeader = some hs ∧
    header.operationsSize = b.operationsData.length ∧
    (∀ h ∈ hs, ∃ op, store.getOperation h.operationId = some op ∧
      slice b.operationsData h.dataOffset (h.dataOffset + h.dataSize) = some op.frame.wholeData ∧
      b.getOperation h.operationId = .ok (some op.frame)) ∧
    b.operations = .ok (hs.filterMap fun h =>
      (store.getOperation h.operationId).map StoredOperation.frame)

/-- The header of a proposal is the one of these frames: the size is the one of them all, each
range cuts out the operation it stands for, and the search by id finds each id. -/
def HeaderFits (store : MemoryPendingStore) (ids : List ℕ) (header : BlockHeader) : Prop :=
  ∃ hs, header.operationsHeader = some hs ∧
    header.operationsSize = (framesData (storedFrames store ids)).length ∧
    ∀ h ∈ hs, (∃ op, store.getOperation h.operationId = some op ∧
      slice (framesData (storedFrames store ids)) h.dataOffset (h.dataOffset + h.dataSize) =
        some op.frame.wholeData) ∧
      (Search.binarySearchBy (fun x => compare x.operationId h.operationId) hs).isSome

theorem readFrame_of_slice (h : BlockOperationHeader) (data : Bytes) (f : OperationFrame)
    (hs : slice data h.dataOffset (h.dataOffset + h.dataSize) = some f.wholeData) :
    h.readFrame data = .ok f := by
  simp only [BlockOperationHeader.readFrame, hs, orPanic_some, ok_bind,
    readOperationFrame_wholeData, liftError_ok]

theorem iterOperations_of_slices (data : Bytes) (frameOf : ℕ → Option OperationFrame)
    (hs : List BlockOperationHeader)
    (h : ∀ x ∈ hs, ∃ f, frameOf x.operationId = some f ∧
      slice data x.dataOffset (x.dataOffset + x.dataSize) = some f.wholeData) :
    DataBlock.iterOperations data hs = .ok (hs.filterMap fun x => frameOf x.operationId) := by
  induction hs with
  | nil => rfl
  | cons x rest ih =>
    obtain ⟨f, hf, hslice⟩ := h x List.mem_cons_self
    have hrest := ih fun y hy => h y (List.mem_cons_of_mem _ hy)
    rw [DataBlock.iterOperations, readFrame_of_slice x data f hslice]
    simp only [hrest, ok_bind, pure, Except.pure, List.filterMap_cons, hf]

/-- The search finds an entry of the id, which may be listed twice. -/
theorem getOperation_of_search (b : DataBlock) (header : BlockHeader)
    (hs : List BlockOperationHeader) (id : ℕ) (f : OperationFrame)
    (hreader : b.header.reader = some header) (hhs : header.operationsHeader = some hs)
    (hall : ∀ x ∈ hs, x.operationId = id →
      slice b.operationsData x.dataOffset (x.dataOffset + x.dataSize) = some f.wholeData)
    (hfound : (Search.binarySearchBy (fun x => compare x.operationId id) hs).isSome) :
    b.getOperation id = .ok (some f) := by
  obtain ⟨index, hindex⟩ := Option.isSome_iff_exists.mp hfound
  obtain ⟨x, hget, hcmp⟩ := Search.binarySearchBy_sound _ _ _ hindex
  obtain ⟨hlt, hx⟩ := List.getElem?_eq_some_iff.mp hget
  have hmem : x ∈ hs := hx ▸ List.getElem_mem hlt
  have hid : x.operationId = id := Nat.compare_eq_eq.mp hcmp
  have hread := readFrame_of_slice x b.operationsData f (hall x hmem hid)
  simp only [DataBlock.getOperation, DataBlock.operationsHeader, DataBlock.headerReader, hreader,
    orError_some, ok_bind, hhs, hindex, if_neg (not_lt.mpr hlt.le), hget, orPanic_some, hread,
    pure, Except.pure]

theorem search_of_getOperation (b : DataBlock) (header : BlockHeader)
    (hs : List BlockOperationHeader) (id : ℕ) (f : OperationFrame)
    (hreader : b.header.reader = some header) (hhs : header.operationsHeader = some hs)
    (h : b.getOperation id = .ok (some f)) :
    (Search.binarySearchBy (fun x => compare x.operationId id) hs).isSome := by
  cases hindex : Search.binarySearchBy (fun x => compare x.operationId id) hs with
  | some index => rfl
  | none =>
    simp [DataBlock.getOperation, DataBlock.operationsHeader, DataBlock.headerReader, hreader,
      hhs, hindex, pure, Except.pure] at h

variable {CS : Type} [ChainStore CS]

theorem builds_data (cell : Cell) (block : PendingBlock) (store : MemoryPendingStore)
    (chain : CS) (b : DataBlock) (header : BlockHeader) (ops : BlockOperations)
    (h : Builds cell block store chain b header ops) :
    b.operationsData = framesData (storedFrames store block.operations) := by
  rw [h.data, (fromOperations_eq_ok _ _ h.operations).1]

theorem selfConsistent_iff_headerFits (cell : Cell) (block : PendingBlock)
    (store : MemoryPendingStore) (chain : CS) (b : DataBlock) (header : BlockHeader)
    (ops : BlockOperations) (h : Builds cell block store chain b header ops) :
    SelfConsistent store b ↔ HeaderFits store block.operations header := by
  have hdata := builds_data cell block store chain b header ops h
  constructor
  · rintro ⟨header', hs, hreader, hhs, hsize, hall, -⟩
    rw [h.reader] at hreader
    obtain rfl := Option.some.inj hreader
    refine ⟨hs, hhs, by rw [hsize, hdata], ?_⟩
    intro x hx
    obtain ⟨op, hop, hslice, hget⟩ := hall x hx
    rw [hdata] at hslice
    exact ⟨⟨op, hop, hslice⟩, search_of_getOperation b header hs _ _ h.reader hhs hget⟩
  · rintro ⟨hs, hhs, hsize, hall⟩
    rw [← hdata] at hsize hall
    refine ⟨header, hs, h.reader, hhs, hsize, ?_, ?_⟩
    · intro x hx
      obtain ⟨⟨op, hop, hslice⟩, hfound⟩ := hall x hx
      refine ⟨op, hop, hslice, getOperation_of_search b header hs _ _ h.reader hhs ?_ hfound⟩
      intro y hy hid
      obtain ⟨⟨op', hop', hslice'⟩, -⟩ := hall y hy
      rw [hid, hop] at hop'
      obtain rfl := Option.some.inj hop'
      exact hslice'
    · have hiter := iterOperations_of_slices b.operationsData
        (fun id => (store.getOperation id).map StoredOperation.frame) hs (by
          intro x hx
          obtain ⟨⟨op, hop, hslice⟩, -⟩ := hall x hx
          exact ⟨op.frame, by simp [hop], hslice⟩)
      simp only [DataBlock.operations, DataBlock.operationsHeader, DataBlock.headerReader, h.reader,
        orError_some, ok_bind, hhs, hiter]

/-- A commit that returns well has written a block that agrees with its header and with the
pending store if and only if the header of the proposal fits the operations. -/
theorem commitBlock_selfConsistent_iff (m : CommitManager) (block : PendingBlock)
    (s s' : CommitState CS) (h : m.commitBlock block s = (.ok (), s')) :
    ∃ b header next, ChainStore.writeBlock s.chainStore b = (.ok next, s'.chainStore) ∧
      block.proposal.getBlock = .ok b.header ∧ b.header.reader = some header ∧
      (SelfConsistent s.pendingStore b ↔
        HeaderFits s.pendingStore block.operations header) := by
  obtain ⟨b, header, ops, next, hbuilds, hwrite⟩ := commitBlock_eq_ok m block s s' h
  exact ⟨b, header, next, hwrite, hbuilds.frame, hbuilds.reader,
    selfConsistent_iff_headerFits _ _ _ _ _ _ _ hbuilds⟩

end SelfConsistent

section Samples

attribute [local instance] commitCrates

def fiftyFrame : OperationFrame :=
  ⟨⟨fiftyBytes, fiftyMultihash, some fiftyOperation⟩, by decide +kernel⟩

def nextFrame : OperationFrame :=
  ⟨⟨proposeBytes nextHeader nextHeaderMultihash proposalMultihash, proposalMultihash,
    some (proposeOperation nextHeader nextHeaderMultihash)⟩, by decide +kernel⟩

def shortFrame : OperationFrame :=
  ⟨⟨proposeBytes shortHeader shortHeaderMultihash shortMultihash, shortMultihash,
    some (proposeOperation shortHeader shortHeaderMultihash)⟩, by decide +kernel⟩

/-- The block of a proposal that both nodes have signed. -/
def signedBlock (header : BlockHeader) (frame : OperationFrame) : PendingBlock :=
  ⟨header.proposedOperationId, .nextPotential, ⟨some ⟨otherNode⟩, header.offset,
      ⟨header.proposedOperationId, header.proposedOperationId, .blockPropose, .unknown, frame⟩⟩,
    [], [⟨⟨firstNode⟩, emptySignature⟩, ⟨⟨otherNode⟩, emptySignature⟩], false, true, [50]⟩

theorem fiftyOperation_type : fiftyOperation.operation.operationType = .ok .entry := rfl

def fiftyStore : MemoryPendingStore :=
  MemoryPendingStore.new.insertOperation fiftyFrame fiftyOperation .entry rfl fiftyOperation_type

def fiftyState : CommitState DirectoryChainStore := ⟨.new ⟨none⟩, fiftyStore, genesisChain⟩

theorem fiftyStore_getOperation :
    fiftyStore.getOperation 50 = some ⟨50, 50, .entry, .unknown, fiftyFrame⟩ := by
  decide +kernel

/-- The range of the entry is one byte short: the commit succeeds all the same. -/
theorem shortRange_not_selfConsistent :
    (firstEngine.commitManager.commitBlock (signedBlock shortHeader shortFrame) fiftyState).1 =
        .ok () ∧
      ∀ b header ops, buildChainBlock twoNodes (signedBlock shortHeader shortFrame) fiftyStore
        genesisChain = .ok (b, header, ops) → ¬ SelfConsistent fiftyStore b := by
  refine ⟨by decide +kernel, ?_⟩
  intro b header ops hbuild hself
  have hbuilds := (buildChainBlock_eq_ok_iff _ _ _ _ _ _ _).mp hbuild
  have hheader : header = shortHeader := by
    have hframe := hbuilds.frame
    have hget : (signedBlock shortHeader shortFrame).proposal.getBlock =
        .ok ⟨sizedBytes (proposedMessage shortHeader ++ shortHeaderMultihash),
          shortHeaderMultihash, some shortHeader⟩ := by
      decide +kernel
    rw [hget] at hframe
    have hreader := hbuilds.reader
    rw [← Except.ok.inj hframe] at hreader
    exact (Option.some.inj hreader).symm
  obtain ⟨hs, hhs, -, hall⟩ := (selfConsistent_iff_headerFits _ _ _ _ _ _ _ hbuilds).mp hself
  rw [hheader] at hhs
  obtain rfl := Option.some.inj hhs
  obtain ⟨⟨op, hop, hslice⟩, -⟩ := hall ⟨50, 0, 169⟩ List.mem_cons_self
  rw [fiftyStore_getOperation] at hop
  obtain rfl := Option.some.inj hop
  have hlen := slice_length _ _ _ _ hslice
  revert hlen
  decide +kernel

/-- With the range that the proposer computes, the block that is written is consistent. -/
theorem commitBlock_selfConsistent_fitting :
    ∃ b next, ChainStore.writeBlock fiftyState.chainStore b = (.ok next,
        (firstEngine.commitManager.commitBlock (signedBlock nextHeader nextFrame)
          fiftyState).2.chainStore) ∧
      SelfConsistent fiftyState.pendingStore b := by
  have hok := Action.eq_ok_of_fst (firstEngine.commitManager.commitBlock
    (signedBlock nextHeader nextFrame)) fiftyState () (by decide +kernel)
  obtain ⟨b, header, next, hwrite, hframe, hreader, hiff⟩ :=
    commitBlock_selfConsistent_iff firstEngine.commitManager (signedBlock nextHeader nextFrame)
      fiftyState _ hok
  have hget : (signedBlock nextHeader nextFrame).proposal.getBlock =
      .ok ⟨sizedBytes (proposedMessage nextHeader ++ nextHeaderMultihash), nextHeaderMultihash,
        some nextHeader⟩ := by
    decide +kernel
  rw [hget] at hframe
  rw [← Except.ok.inj hframe] at hreader
  obtain rfl := Option.some.inj hreader
  refine ⟨b, next, hwrite, hiff.mpr ⟨[⟨50, 0, 170⟩], rfl, by decide +kernel, ?_⟩⟩
  intro x hx
  obtain rfl := List.mem_singleton.mp hx
  exact ⟨⟨_, fiftyStore_getOperation, by decide +kernel⟩, by decide +kernel⟩

end Samples

end Exocore.Engine
