import Exocore.ChainSyncLinks
import Exocore.ChainValidate
import Exocore.CorePanic

/-! Where a block that was received ends: by its header, by its frames, and in the store. -/
namespace Exocore.Engine

open Exocore.Core Exocore.Chain

/-- A chain store that keeps each block that was written, with the store that it left. -/
structure Observed (CS : Type) where
  store : CS
  writes : List (DataBlock × CS)

section Observed
variable [Crates] {CS : Type}

def Observed.writeBlock [ChainStore CS] (o : Observed CS) (b : DataBlock) :
    Res ChainError ℕ × Observed CS :=
  match ChainStore.writeBlock o.store b with
  | (.ok next, store) => (.ok next, ⟨store, o.writes ++ [(b, store)]⟩)
  | (.error e, store) => (.error e, ⟨store, o.writes⟩)

instance [ChainRangeStore CS] : ChainRangeStore (Observed CS) where
  getLastBlock o := ChainStore.getLastBlock o.store
  getBlock o := ChainStore.getBlock o.store
  getBlockByOperationId o := ChainStore.getBlockByOperationId o.store
  writeBlock := Observed.writeBlock
  segments o := ChainRangeStore.segments o.store
  blocksIter o := ChainRangeStore.blocksIter o.store
  blocksIterReverse o := ChainRangeStore.blocksIterReverse o.store
  getBlockFromNextOffset o := ChainRangeStore.getBlockFromNextOffset o.store

variable [ChainRangeStore CS]

/-- A block is written from the bytes it was read from. -/
def WriteKeeps (property : DataBlock → CS → Prop) : Prop :=
  ∀ bytes b store next store', DataBlock.new .ref bytes = .ok b →
    ChainStore.writeBlock store b = (.ok next, store') → property b store'

theorem writeIncomingBlocks_observed (property : DataBlock → CS → Prop)
    (hproperty : WriteKeeps property) (datas : List (Option Bytes)) (last : Option BlockMetadata)
    (s : ChainSyncState (Observed CS)) (h : ∀ w ∈ s.store.writes, property w.1 w.2) :
    ∀ w ∈ (ChainSynchronizer.writeIncomingBlocks datas last s).2.store.writes,
      property w.1 w.2 := by
  induction datas generalizing last s with
  | nil => exact h
  | cons data rest ih =>
    rw [ChainSynchronizer.writeIncomingBlocks]
    cases data with
    | none => exact h
    | some bytes =>
      simp only [orError_some, Action.lift_ok_bind]
      cases hnew : DataBlock.new .ref bytes with
      | error e => cases e <;> exact h
      | ok b =>
        simp only [liftError_ok, Action.lift_ok_bind]
        split_ifs
        · rw [Action.bind_apply, ChainSynchronizer.pushChainEvent]
          simp only [Action.bind_apply, ChainSynchronizer.writeChainBlock]
          cases hwrite : ChainStore.writeBlock s.store.store b with
          | mk r store =>
            cases r with
            | error e =>
              have hcall : ChainStore.writeBlock s.store b = (.error e, ⟨store, s.store.writes⟩) := by
                change Observed.writeBlock s.store b = _
                rw [Observed.writeBlock, hwrite]
              simp only [hcall]
              exact h
            | ok next =>
              have hcall : ChainStore.writeBlock s.store b =
                  (.ok next, ⟨store, s.store.writes ++ [(b, store)]⟩) := by
                change Observed.writeBlock s.store b = _
                rw [Observed.writeBlock, hwrite]
              have hwrites : ∀ w ∈ s.store.writes ++ [(b, store)], property w.1 w.2 := by
                intro w hw
                rcases List.mem_append.mp hw with hold | hlast
                · exact h w hold
                · rw [List.mem_singleton.mp hlast]
                  exact hproperty bytes b s.store.store next store hnew hwrite
              simp only [hcall]
              cases BlockMetadata.fromStoredBlock b with
              | error e => exact hwrites
              | ok m => exact ih (some m) _ hwrites
        · exact h

/-- The responses write all blocks there are to write: no step of the run is a write itself. -/
def ChainSyncStep.Synchronizes : ChainSyncStep → Prop
  | .writeBlock _ => False
  | _ => True

/-- A run keeps what holds of each block that it writes. -/
theorem run_observed (property : DataBlock → CS → Prop) (hproperty : WriteKeeps property)
    (config : ChainSyncConfig) (cell : Cell) (store : CS) (steps : List ChainSyncStep)
    (hsteps : ∀ a ∈ steps, a.Synchronizes) :
    ∀ w ∈ (Run.exec ChainSyncNode.step ⟨.new config cell, (⟨store, []⟩ : Observed CS)⟩
      steps).store.writes, property w.1 w.2 := by
  have hallowed : ∀ (n : ChainSyncNode (Observed CS)),
      Run.Allowed ChainSyncNode.step (fun _ a => a.Synchronizes) n steps := by
    induction steps with
    | nil => exact fun _ => trivial
    | cons a rest ih =>
      exact fun n => ⟨hsteps a List.mem_cons_self,
        ih (fun a' ha' => hsteps a' (List.mem_cons_of_mem _ ha')) _⟩
  have hend := Run.exec_invariant ChainSyncNode.step (fun _ a => a.Synchronizes)
    (fun n => n.synchronizer.Consistent ∧ ∀ w ∈ n.store.writes, property w.1 w.2) ?_
    ⟨.new config cell, (⟨store, []⟩ : Observed CS)⟩ steps
    ⟨ChainSynchronizer.consistent_new config cell, by simp⟩ (hallowed _)
  · exact hend.2
  · rintro n a ⟨hconsistent, hwrites⟩ ha
    refine ⟨chainSyncNode_step_consistent n a hconsistent, ?_⟩
    cases a with
    | tick i =>
      have hstore : (n.step (.tick i)).store = n.store := (ChainSynchronizer.tick_watches i
        ⟨n.synchronizer, .new ⟨none⟩, n.store⟩ hconsistent.keyed).store
      rw [hstore]
      exact hwrites
    | syncRequest overflowChecks fromNode request =>
      have hstore : (n.step (.syncRequest overflowChecks fromNode request)).store = n.store :=
        (ChainSynchronizer.handleSyncRequest_quiet overflowChecks fromNode request
          ⟨n.synchronizer, .new ⟨none⟩, n.store⟩).store
      rw [hstore]
      exact hwrites
    | syncResponse overflowChecks fromNode response =>
      cases response with
      | none => exact hwrites
      | some response =>
        apply handleSyncResponse_store_keeps
          (fun o : Observed CS => ∀ w ∈ o.writes, property w.1 w.2) overflowChecks fromNode response
          ⟨n.synchronizer, .new ⟨none⟩, n.store⟩ hwrites
        intro _ _ last datas _ _
        exact writeIncomingBlocks_observed property hproperty datas last _ hwrites
    | resetState => exact hwrites
    | writeBlock b => exact ha.elim

end Observed

section Positions
variable [Crates]

/-- The end of the last segment of the store. -/
def storeEnd (store : DirectoryChainStore) : ℕ :=
  (store.segmentRanges.getLast?.map Segment.stop).getD 0

/-- The block ends at one position for the synchronizer, for itself and for the store. -/
def SamePosition (b : DataBlock) (store : DirectoryChainStore) : Prop :=
  ∃ m, BlockMetadata.fromStoredBlock b = .ok m ∧ m.nextOffset = b.nextOffset ∧
    b.nextOffset = storeEnd store

/-- The signatures of the block are as long as its header says, and the header has the fields
that its metadata are made of. -/
def AsAnnounced (b : DataBlock) : Prop :=
  ∃ m, b.header.reader = some m ∧ m.previousHash.isSome ∧
    b.signatures.wholeData.length = m.signaturesSize ∧ b.header.wholeData.length < 2^32

/-- The signatures of a block that was read are at most as long as its header says. -/
theorem dataBlock_new_ref_parts (data : Bytes) (b : DataBlock)
    (h : DataBlock.new .ref data = .ok b) : readHeaderFrame data = .ok b.header ∧
      ∃ m, b.header.reader = some m ∧ m.offset = b.offset ∧
        b.operationsData.length = m.operationsSize ∧
        b.signatures.wholeData.length ≤ m.signaturesSize := by
  simp only [DataBlock.new, bind_eq_ok_iff, orError_eq_ok_iff] at h
  obtain ⟨header, hheader, m, hm, h⟩ := h
  split_ifs at h with hbound
  simp only [bind_eq_ok_iff, orPanic_eq_ok_iff, pure, Except.pure, Except.ok.injEq] at h
  obtain ⟨sigData, hsigData, sigs, hsigs, ops, hops, rfl⟩ := h
  refine ⟨hheader, m, hm, rfl, ?_, ?_⟩
  · have hlen := slice_length _ _ _ _ hops
    simp only
    omega
  · have hlen := slice_length _ _ _ _ hsigData
    rw [readSignaturesFrame, liftError_eq_ok_iff] at hsigs
    obtain ⟨s, hs, hof⟩ := (bind_eq_ok_iff _ _ _).mp hsigs
    have hsize := paddedTypedFrame_ofSized_length _ s (sizedFrame_new_inside sigData s hs) sigs hof
    obtain ⟨n, -, hroom, rfl⟩ := (sizedFrame_new_eq_ok_iff sigData s).mp hs
    simp only at hsize ⊢
    omega

theorem writeBlock_storeEnd (store : DirectoryChainStore) (b : DataBlock) (next : ℕ)
    (store' : DirectoryChainStore) (hheader : ∃ m, b.header.reader = some m ∧ m.offset = b.offset)
    (h : store.writeBlock b = (.ok next, store')) : storeEnd store' = b.nextOffset := by
  obtain ⟨m, hm, hoff⟩ := hheader
  have hend : ∀ segments, store.writeSegment b = (.ok (), segments) →
      ∃ front seg, segments = front ++ [seg] ∧ seg.nextBlockOffset = b.nextOffset := by
    intro segments hsegments
    rw [DirectoryChainStore.writeSegment] at hsegments
    split_ifs at hsegments with hnew
    · simp only at hsegments
      split at hsegments
      · exact absurd (Prod.mk.inj hsegments).1 (by simp)
      · rename_i seg hcreate
        obtain ⟨-, rfl⟩ := Prod.mk.inj hsegments
        refine ⟨_, _, rfl, ?_⟩
        simp only [DirectorySegment.create, hm, orPanic_some, ok_bind] at hcreate
        split_ifs at hcreate
        obtain ⟨file, -, hseg⟩ := (bind_eq_ok_iff _ _ _).mp hcreate
        obtain rfl := Except.ok.inj hseg
        simp only [DataBlock.nextOffset, hoff]
    · split at hsegments
      · exact absurd (Prod.mk.inj hsegments).1 (by simp)
      · rename_i seg hlast
        split at hsegments
        · exact absurd (Prod.mk.inj hsegments).1 (by simp)
        · rename_i seg' hwrite
          obtain ⟨-, rfl⟩ := Prod.mk.inj hsegments
          refine ⟨_, _, rfl, ?_⟩
          simp only [DirectorySegment.writeBlock] at hwrite
          split_ifs at hwrite with hne
          obtain ⟨file, -, hseg⟩ := (bind_eq_ok_iff _ _ _).mp hwrite
          obtain rfl := Except.ok.inj hseg
          have hensure : (seg.ensureFileSize store.config b.totalSize).nextBlockOffset =
              seg.nextBlockOffset := by
            rw [DirectorySegment.ensureFileSize]
            split_ifs <;> rfl
          simp only [DataBlock.nextOffset, hensure, not_not.mp hne]
  rw [DirectoryChainStore.writeBlock] at h
  split at h
  · exact absurd (Prod.mk.inj h).1 (by simp)
  · rename_i segments hsegments
    obtain ⟨front, seg, rfl, hseg⟩ := hend segments hsegments
    simp only at h
    split at h
    · split at h
      · exact absurd (Prod.mk.inj h).1 (by simp)
      · obtain ⟨-, rfl⟩ := Prod.mk.inj h
        rw [storeEnd, DirectoryChainStore.segmentRanges, List.map_append, List.map_singleton,
          List.getLast?_concat, Option.map_some, Option.getD_some, hseg]
    · exact absurd (Prod.mk.inj h).1 (by simp)

/-- A header of 4 GiB would be too short by more than the signatures can make up for. -/
theorem samePosition_iff (hsizes : SignaturesSizeFits) :
    WriteKeeps fun b (store : DirectoryChainStore) => SamePosition b store ↔ AsAnnounced b := by
  intro bytes b store next store' hnew hwrite
  obtain ⟨hframe, m, hm, hoff, hops, hsigs⟩ := dataBlock_new_ref_parts bytes b hnew
  have hend := writeBlock_storeEnd store b next store' ⟨m, hm, hoff⟩ hwrite
  have hsize : m.signaturesSize < 2^16 := by
    rw [readHeaderFrame, liftError_eq_ok_iff] at hframe
    have hdecode := decode_exposedData _ _ _ hframe
    rw [hm] at hdecode
    exact hsizes _ _ hdecode
  have hnext : b.nextOffset = b.offset + (b.header.wholeData.length + m.operationsSize +
      b.signatures.wholeData.length) := by
    rw [DataBlock.nextOffset, DataBlock.totalSize, hops]
  constructor
  · rintro ⟨metadata, hmetadata, hsame, -⟩
    simp only [BlockMetadata.fromStoredBlock, hm, orError_some, ok_bind, bind_eq_ok_iff,
      orError_eq_ok_iff, pure, Except.pure, Except.ok.injEq] at hmetadata
    obtain ⟨previousHash, hprevious, rfl⟩ := hmetadata
    simp only [BlockMetadata.nextOffset] at hsame
    rw [hnext] at hsame
    have hmod := Nat.mod_le b.header.wholeData.length (2^32)
    have hsmall : b.header.wholeData.length < 2^32 := by
      by_contra hlarge
      have hlt := Nat.mod_lt b.header.wholeData.length (show 0 < 2^32 by norm_num)
      have hsub := Nat.mod_eq_sub_mod (not_lt.mp hlarge)
      have hle := Nat.mod_le (b.header.wholeData.length - 2^32) (2^32)
      omega
    rw [Nat.mod_eq_of_lt hsmall] at hsame
    exact ⟨m, hm, by rw [hprevious]; rfl, by omega, hsmall⟩
  · rintro ⟨m', hm', hprevious, hsigsEq, hsmall⟩
    rw [hm] at hm'
    obtain rfl := Option.some.inj hm'
    obtain ⟨previousHash, hhash⟩ := Option.isSome_iff_exists.mp hprevious
    have hmetadata : ∃ metadata, BlockMetadata.fromStoredBlock b = .ok metadata ∧
        metadata.nextOffset = b.offset + b.header.wholeData.length % 2^32 + m.operationsSize +
          m.signaturesSize := by
      simp only [BlockMetadata.fromStoredBlock, hm, orError_some, ok_bind, hhash]
      exact ⟨_, rfl, rfl⟩
    obtain ⟨metadata, hread, hsum⟩ := hmetadata
    refine ⟨metadata, hread, ?_, hend.symm⟩
    rw [hsum, hnext, Nat.mod_eq_of_lt hsmall, hsigsEq]
    omega

/-- Along every run: a block that a response writes ends where the next is expected if and only
if it has the signatures that its header announces. -/
theorem run_samePosition_iff (hsizes : SignaturesSizeFits) (config : ChainSyncConfig) (cell : Cell)
    (store : DirectoryChainStore) (steps : List ChainSyncStep)
    (hsteps : ∀ a ∈ steps, a.Synchronizes) :
    ∀ w ∈ (Run.exec ChainSyncNode.step
        ⟨.new config cell, (⟨store, []⟩ : Observed DirectoryChainStore)⟩ steps).store.writes,
      SamePosition w.1 w.2 ↔ AsAnnounced w.1 :=
  run_observed _ (samePosition_iff hsizes) config cell store steps hsteps

end Positions

/-- The second block with a header that announces eight more bytes of signatures. -/
def roomyMessage : Bytes := secondMessage.set 52 60

def roomyMultihash : Bytes := ofNats
    [22, 32, 197, 248, 154, 243, 190, 173, 120, 235, 187, 140, 247, 78, 59, 223, 183, 28, 105, 103,
    85, 50, 165, 137, 0, 47, 90, 213, 170, 93, 32, 1, 55, 167]

def roomyHeader : BlockHeader := { secondHeader with signaturesSize := 60 }

def roomyBlock : DataBlock := emptyBlock roomyMessage roomyMultihash roomyHeader

def roomyTables : Tables :=
  { strayTables with headers := (roomyMessage, roomyHeader) :: strayTables.headers }

section Samples

local instance roomyCrates : Crates := roomyTables.crates

theorem roomyTables_sizesFit : SignaturesSizeFits :=
  signaturesSizeFits_tables roomyTables (by decide +kernel)

theorem sendsBlock_synchronizes (block : DataBlock) : ∀ a ∈ sendsBlock block, a.Synchronizes := by
  intro a ha
  simp only [sendsBlock, electsLead, List.cons_append, List.nil_append, List.mem_cons,
    List.not_mem_nil, or_false] at ha
  rcases ha with rfl | rfl | rfl | rfl <;> trivial

/-- The ends of the blocks that the lead node gets through: by the metadata, by the frames, and in
the store. -/
def writtenEnds (block : DataBlock) : List (Option ℕ × ℕ × ℕ) :=
  (Run.exec ChainSyncNode.step ⟨.new .default downloadCell,
    (⟨genesisStore, []⟩ : Observed DirectoryChainStore)⟩ (sendsBlock block)).store.writes.map fun w =>
      ((BlockMetadata.fromStoredBlock w.1).toOption.map BlockMetadata.nextOffset, w.1.nextOffset,
        storeEnd w.2)

/-- The block is written, and the next is expected eight bytes behind the end of the chain. -/
theorem roomy_not_samePosition :
    writtenEnds roomyBlock = [(some 556, 548, 548)] ∧ ∃ w ∈ (Run.exec ChainSyncNode.step
        ⟨.new .default downloadCell, (⟨genesisStore, []⟩ : Observed DirectoryChainStore)⟩
        (sendsBlock roomyBlock)).store.writes, ¬ SamePosition w.1 w.2 := by
  have hends : writtenEnds roomyBlock = [(some 556, 548, 548)] := by decide +kernel
  refine ⟨hends, ?_⟩
  obtain ⟨w, hw, hvalues⟩ := List.mem_map.mp (show (some 556, 548, 548) ∈ writtenEnds roomyBlock by
    rw [hends]; exact List.mem_singleton.mpr rfl)
  refine ⟨w, hw, ?_⟩
  rintro ⟨m, hm, hnext, -⟩
  simp only [hm, Except.toOption, Option.map_some, Prod.mk.injEq, Option.some.injEq] at hvalues
  omega

/-- The second block as it is ends where the next is expected. -/
theorem second_samePosition : ∃ w ∈ (Run.exec ChainSyncNode.step
    ⟨.new .default downloadCell, (⟨genesisStore, []⟩ : Observed DirectoryChainStore)⟩
    (sendsBlock secondBlock)).store.writes, SamePosition w.1 w.2 := by
  have hwrites : (Run.exec ChainSyncNode.step ⟨.new .default downloadCell,
      (⟨genesisStore, []⟩ : Observed DirectoryChainStore)⟩ (sendsBlock secondBlock)).store.writes.map
        Prod.fst = [secondBlock] := by
    decide +kernel
  obtain ⟨w, hw, hblock⟩ := List.mem_map.mp (show secondBlock ∈ (Run.exec ChainSyncNode.step
      ⟨.new .default downloadCell, (⟨genesisStore, []⟩ : Observed DirectoryChainStore)⟩
      (sendsBlock secondBlock)).store.writes.map Prod.fst by
    rw [hwrites]; exact List.mem_singleton.mpr rfl)
  refine ⟨w, hw, (run_samePosition_iff roomyTables_sizesFit .default downloadCell genesisStore
    (sendsBlock secondBlock) (sendsBlock_synchronizes secondBlock) w hw).mpr ?_⟩
  rw [hblock]
  exact ⟨secondHeader, rfl, by decide +kernel, by decide +kernel, by decide +kernel⟩

end Samples

end Exocore.Engine
