import Exocore.CommitBuilt

/-! A block in a buffer, read from its first byte and from the byte after its last. -/
namespace Exocore.Engine

open Exocore.Core Exocore.Chain

/-- The parts of a block that a read of its bytes has to give back. -/
structure SameParts (b b' : DataBlock) : Prop where
  offset : b'.offset = b.offset
  header : b'.header.wholeData = b.header.wholeData
  operationsData : b'.operationsData = b.operationsData
  signatures : b'.signatures.wholeData = b.signatures.wholeData

section Ends
variable [Crates]

/-- Wherever the block is copied to in a buffer, it is read from there, and from its end. -/
def ReadsBack (b : DataBlock) : Prop :=
  ∀ kind (buffer image : Bytes) (start : ℕ), start ≤ buffer.length →
    b.copyDataInto (buffer.drop start) = some image →
    let copied := buffer.take start ++ image
    let stop := start + b.asDataVec.length
    (∃ b', DataBlock.new kind (copied.drop start) = .ok b' ∧ SameParts b b') ∧
      (∃ b', DataBlock.newFromNextOffset kind copied stop = .ok b' ∧ SameParts b b') ∧
      b.totalSize = stop - start

/-- The header is of the block it stands in: it has its size at its end, and the offset and the
size of the operations of the block. -/
structure HeaderOf (b : DataBlock) (header : BlockHeader) : Prop where
  trailing : readLe32 (b.header.wholeData.drop (b.header.wholeData.length - 4)) =
    some (b.header.wholeData.length - 8)
  offset : header.offset = b.offset
  operationsSize : header.operationsSize = b.operationsData.length

theorem framed_readsBack (b : DataBlock) (hb : Framed b) : ReadsBack b := by
  intro kind buffer image start hstart hcopy copied stop
  have himage : image = b.asDataVec ++ (buffer.drop start).drop b.totalSize := by
    rw [DataBlock.copyDataInto] at hcopy
    split_ifs at hcopy
    exact (Option.some.inj hcopy).symm
  have htake : (buffer.take start).length = start := List.length_take_of_le hstart
  have hcopied : copied = buffer.take start ++ b.asDataVec ++ (buffer.drop start).drop b.totalSize := by
    rw [List.append_assoc, ← himage]
  have hdrop : copied.drop start = b.asDataVec ++ (buffer.drop start).drop b.totalSize := by
    have hleft : (buffer.take start ++ image).drop (buffer.take start).length = image :=
      List.drop_left
    rw [htake] at hleft
    rw [← himage]
    exact hleft
  have hstop : stop = (buffer.take start).length + b.totalSize := by
    rw [htake, ← DataBlock.asDataVec_length]
  refine ⟨⟨b, ?_, rfl, rfl, rfl, rfl⟩, ⟨b, ?_, rfl, rfl, rfl, rfl⟩, ?_⟩
  · rw [hdrop]
    exact dataBlock_new_append kind b _ hb
  · rw [hcopied, hstop]
    exact dataBlock_newFromNextOffset_append kind b _ _ hb
  · rw [hstop, htake, Nat.add_sub_cancel_left]

/-- A header frame that was found from its end has its size there. -/
theorem readHeaderFrameFromNextOffset_trailing (data : Bytes) (nextOffset : ℕ)
    (f : BlockHeaderFrame) (h : readHeaderFrameFromNextOffset data nextOffset = .ok f) :
    readLe32 (f.wholeData.drop (f.wholeData.length - 4)) = some (f.wholeData.length - 8) := by
  rw [readHeaderFrameFromNextOffset, liftError_eq_ok_iff] at h
  obtain ⟨s, hs, hof⟩ := (bind_eq_ok_iff _ _ _).mp h
  obtain ⟨n, htrail, hroom, hlen, rfl⟩ := (sizedFrame_newFromNextOffset_eq_ok_iff _ _ s).mp hs
  have hwhole : FrameReader.wholeData (⟨data, nextOffset - (n + 8), n⟩ : SizedFrame Bytes) =
      some ((data.take nextOffset).drop (nextOffset - (n + 8))) := by
    simp only [FrameReader.wholeData, Option.bind_eq_bind, Option.bind_some, slice]
    rw [if_pos (by omega), show nextOffset - (n + 8) + n + 8 = nextOffset by omega]
  have hexposed : FrameReader.exposedData (⟨data, nextOffset - (n + 8), n⟩ : SizedFrame Bytes) =
      some ((data.take (nextOffset - (n + 8) + 4 + n)).drop (nextOffset - (n + 8) + 4)) := by
    simp only [FrameReader.exposedData, Option.bind_eq_bind, Option.bind_some, slice]
    rw [if_pos (by omega)]
  have hf := hashedFrame_ofSized_wholeData _ _ _ _ f hexposed hwhole hof
  have hlength : f.wholeData.length = n + 8 := by
    rw [hf, List.length_drop, List.length_take]
    omega
  rw [hlength, hf, List.drop_drop, List.drop_take,
    show nextOffset - (n + 8) + (n + 8 - 4) = nextOffset - 4 by omega,
    readLe32_take _ _ (by omega), htrail, Nat.add_sub_cancel]

/-- The header frame of a block that reads back is the size of the block's at its end. -/
theorem readsBack_headerOf (b : DataBlock) (header : BlockHeader) (h : ReadsBack b)
    (hreader : b.header.reader = some header)
    (hreads : readHeaderFrame b.header.wholeData = .ok b.header) : HeaderOf b header := by
  have hcopy : b.copyDataInto ((List.replicate b.totalSize 0).drop 0) = some b.asDataVec := by
    rw [List.drop_zero, DataBlock.copyDataInto, if_pos (by rw [List.length_replicate]),
      List.drop_of_length_le (by rw [List.length_replicate]), List.append_nil]
  obtain ⟨⟨b', hnew, hsame⟩, ⟨b'', hback, hsame'⟩, -⟩ :=
    h .bytes (List.replicate b.totalSize 0) b.asDataVec 0 (Nat.zero_le _) hcopy
  rw [List.take_zero, List.nil_append, List.drop_zero] at hnew
  rw [List.take_zero, List.nil_append] at hback
  have hfront : readHeaderFrame b.asDataVec = .ok b.header := by
    rw [readHeaderFrame, liftError_eq_ok_iff] at hreads
    obtain ⟨n, -, -, hlen, hlead, -⟩ := hashedFrame_read_eq_ok _ _ _ hreads
    rw [readHeaderFrame, DataBlock.asDataVec, List.append_assoc,
      hashedFrame_read_append _ _ _ n hlen hlead, hreads, liftError_ok]
  simp only [DataBlock.new, hfront, hreader, ok_bind, orError_some] at hnew
  split_ifs at hnew
  simp only [bind_eq_ok_iff, orPanic_eq_ok_iff, pure, Except.pure, Except.ok.injEq] at hnew
  obtain ⟨sigs, -, frame, -, ops, hops, rfl⟩ := hnew
  have hsize := slice_length _ _ _ _ hops
  refine ⟨?_, hsame.offset, ?_⟩
  · rw [DataBlock.newFromNextOffset] at hback
    simp only [bind_eq_ok_iff] at hback
    obtain ⟨f, -, m, -, hback⟩ := hback
    split_ifs at hback
    simp only [bind_eq_ok_iff, pure, Except.pure, Except.ok.injEq] at hback
    obtain ⟨_, -, frame', hheader, _, -, rfl⟩ := hback
    have htrail := readHeaderFrameFromNextOffset_trailing _ _ _ hheader
    rwa [show frame'.wholeData = b.header.wholeData from hsame'.header] at htrail
  · rw [← hsame.operationsData, hsize, Nat.add_sub_cancel_left]

omit [Crates] in
theorem sizedBy_trailing (whole : Bytes) (n : ℕ) (h : SizedBy whole n) :
    readLe32 (whole.drop (whole.length - 4)) = some (whole.length - 8) := by
  have hlen := h.length_eq
  rw [hlen, Nat.add_sub_cancel, show n + 8 - 4 = n + 4 by omega]
  exact h.trailing

omit [Crates] in
theorem sizedBy_of_trailing (whole : Bytes) (n : ℕ) (hlen : whole.length = n + 8)
    (hlead : readLe32 whole = some n)
    (htrail : readLe32 (whole.drop (whole.length - 4)) = some (whole.length - 8)) :
    SizedBy whole n := by
  rw [hlen, Nat.add_sub_cancel, show n + 8 - 4 = n + 4 by omega] at htrail
  exact ⟨hlen, hlead, htrail⟩

/-- With its signatures as they were reserved, a block that was built reads back. -/
theorem built_framed (hh : HeadersReadBack) (hs : SignaturesReadBack) (b : DataBlock) (cell : Cell)
    (operations : BlockOperations) (header : BlockHeader) (h : Built b cell operations header)
    (hsig : b.signatures.wholeData.length < 2^16) : Framed b := by
  obtain ⟨hreader, hdata, hsignatures, hoff, hops, -, -, hsize, hframe, hsmall⟩ :=
    built_parts hh b cell operations header h
  obtain ⟨hsreader, hssized, hsreads⟩ := readSignaturesFrame_built hs _ 0 (by norm_num) _ hsignatures
  have hwhole : b.header.wholeData = headerBytes header :=
    hashedFrame_read_built _ _ _ hsmall ((liftError_eq_ok_iff _ _ _).mp hframe)
  refine ⟨?_, ?_, hssized, hsreads, ⟨header, hreader, hoff, ?_, ?_⟩, ⟨_, hsreader, ?_⟩⟩
  · rw [hwhole]
    exact ⟨_, sizedBytes_sizedBy _ hsmall⟩
  · rw [hwhole]
    exact hframe
  · rw [hops, hdata]
  · rw [hsize, Nat.mod_eq_of_lt hsig]
  · rw [hdata]

variable {CS : Type} [ChainStore CS]

/-- The header of a proposal is read before its signatures are added. -/
theorem builds_headerReads (cell : Cell) (block : PendingBlock) (store : Pending.MemoryPendingStore)
    (chain : CS) (b : DataBlock) (header : BlockHeader) (ops : BlockOperations)
    (h : Builds cell block store chain b header ops) :
    readHeaderFrame b.header.wholeData = .ok b.header ∧ ∃ n, b.header.wholeData.length = n + 8 ∧
      readLe32 b.header.wholeData = some n := by
  have hget := h.frame
  simp only [PendingBlockProposal.getBlock, bind_eq_ok_iff] at hget
  obtain ⟨reader, -, hget⟩ := hget
  split at hget
  · simp only [bind_eq_ok_iff, liftError_eq_ok_iff] at hget
    obtain ⟨data, -, hread⟩ := hget
    rw [readHeaderFrame, liftError_eq_ok_iff] at hread
    obtain ⟨n, -, -, hlen, hlead, hself⟩ := hashedFrame_read_eq_ok _ _ _ hread
    refine ⟨?_, n, hlen, hlead⟩
    rw [readHeaderFrame, hself, liftError_ok]
  · contradiction
  · contradiction

theorem builds_framed (hs : SignaturesReadBack) (cell : Cell) (block : PendingBlock)
    (store : Pending.MemoryPendingStore) (chain : CS) (b : DataBlock) (header : BlockHeader)
    (ops : BlockOperations) (h : Builds cell block store chain b header ops)
    (hsig : b.signatures.wholeData.length < 2^16) (hheader : HeaderOf b header) : Framed b := by
  obtain ⟨hreads, n, hlen, hlead⟩ := builds_headerReads cell block store chain b header ops h
  have hsignatures := h.signatures
  have hsize : b.signatures.wholeData.length = header.signaturesSize := by
    simp only [toFrameForExistingBlock, bind_eq_ok_iff] at hsignatures
    obtain ⟨frame, -, hframe⟩ := hsignatures
    split_ifs at hframe with hne
    obtain rfl := Except.ok.inj hframe
    exact not_not.mp hne
  obtain ⟨⟨m, hm, hops⟩, hssized, hsreads⟩ :=
    toFrameForExistingBlock_reads hs _ header (hsize ▸ hsig) _ hsignatures
  exact ⟨⟨n, sizedBy_of_trailing _ n hlen hlead hheader.trailing⟩, hreads, hssized, hsreads,
    ⟨header, h.reader, hheader.offset, hheader.operationsSize, hsize.symm⟩,
    ⟨m, hm, by rw [hops, hheader.operationsSize]⟩⟩

/-- A block that was built reads back. A block that was committed reads back if and only if the
header of its proposal is the header of the block, as it is where the proposal was built. -/
theorem readsBack_iff (hh : HeadersReadBack) (hs : SignaturesReadBack) (b : DataBlock)
    (header : BlockHeader) (hsig : b.signatures.wholeData.length < 2^16) :
    (∀ cell operations, Built b cell operations header → ReadsBack b) ∧
      ∀ cell block (store : Pending.MemoryPendingStore) (chain : CS) ops,
        Builds cell block store chain b header ops →
        (ReadsBack b ↔ HeaderOf b header) ∧
          ∀ proposed proposer operations, Built proposed proposer operations header →
            proposed.signatures.wholeData.length < 2^16 → proposed.header = b.header →
            proposed.offset = b.offset → proposed.operationsData = b.operationsData →
            ReadsBack b := by
  constructor
  · intro cell operations hbuilt
    exact framed_readsBack b (built_framed hh hs b cell operations header hbuilt hsig)
  · intro cell block store chain ops hbuilds
    have hiff : ReadsBack b ↔ HeaderOf b header := by
      constructor
      · intro hback
        exact readsBack_headerOf b header hback hbuilds.reader
          (builds_headerReads cell block store chain b header ops hbuilds).1
      · intro hheader
        exact framed_readsBack b
          (builds_framed hs cell block store chain b header ops hbuilds hsig hheader)
    refine ⟨hiff, ?_⟩
    intro proposed proposer operations hbuilt hpsig hframe hoff hdata
    obtain ⟨⟨n, hsized⟩, -, -, -, ⟨m, hm, hmoff, hmops, -⟩, -⟩ :=
      built_framed hh hs proposed proposer operations header hbuilt hpsig
    rw [hframe] at hsized
    rw [hframe, hbuilds.reader] at hm
    obtain rfl := Option.some.inj hm
    apply hiff.mpr
    exact ⟨sizedBy_trailing _ n hsized, by rw [hmoff, hoff], by rw [hmops, hdata]⟩

end Ends

section Samples

attribute [local instance] builtCrates

def nextProposal : OperationFrame :=
  ⟨⟨proposeBytes nextHeader nextHeaderMultihash proposalMultihash, proposalMultihash,
    some (proposeOperation nextHeader nextHeaderMultihash)⟩, by decide +kernel⟩

def miscountedProposal : OperationFrame :=
  ⟨⟨proposeBytes miscountedHeader miscountedHeaderMultihash miscountedMultihash,
    miscountedMultihash, some (proposeOperation miscountedHeader miscountedHeaderMultihash)⟩,
    by decide +kernel⟩

/-- The block of a proposal, with the signatures of the group. -/
def proposedBlock (header : BlockHeader) (frame : OperationFrame)
    (signatures : List PendingBlockSignature) : PendingBlock :=
  ⟨header.proposedOperationId, .nextPotential, ⟨some ⟨otherNode⟩, header.offset,
      ⟨header.proposedOperationId, header.proposedOperationId, .blockPropose, .unknown, frame⟩⟩,
    [], signatures, false, true, [50]⟩

def bothSigned : List PendingBlockSignature :=
  [⟨⟨firstNode⟩, emptySignature⟩, ⟨⟨otherNode⟩, emptySignature⟩]

def entryStore : Pending.MemoryPendingStore :=
  Pending.MemoryPendingStore.new.insertOperation entryFrame fiftyOperation .entry rfl
    fiftyOperation_type

/-- The entry with a header that counts one byte less. -/
def miscountedBlock : DataBlock :=
  ⟨254, ⟨sizedBytes (proposedMessage miscountedHeader ++ miscountedHeaderMultihash),
    miscountedHeaderMultihash, some miscountedHeader⟩, fiftyBytes,
    ⟨sizedBytes (paddedBytes (emptySignatures 169 [(firstNode, firstNodeText),
      (otherNode, otherNodeText)]).1 0),
      some (emptySignatures 169 [(firstNode, firstNodeText), (otherNode, otherNodeText)]).2⟩⟩

theorem entry_buildChainBlock :
    buildChainBlock twoNodes (proposedBlock nextHeader nextProposal bothSigned) entryStore
        genesisChain = .ok (fiftyBlock nextHeaderMultihash, nextHeader, entryOperations) ∧
      buildChainBlock twoNodes (proposedBlock miscountedHeader miscountedProposal bothSigned)
        entryStore genesisChain = .ok (miscountedBlock, miscountedHeader, entryOperations) := by
  decide +kernel

/-- The miscounted block is committed, and its bytes give back less than its operations. -/
theorem miscounted_not_readsBack :
    Builds twoNodes (proposedBlock miscountedHeader miscountedProposal bothSigned) entryStore
        genesisChain miscountedBlock miscountedHeader entryOperations ∧
      ¬ ReadsBack miscountedBlock := by
  have hbuilds := (buildChainBlock_eq_ok_iff _ _ _ _ _ _ _).mp entry_buildChainBlock.2
  refine ⟨hbuilds, ?_⟩
  intro hback
  have hheader := readsBack_headerOf miscountedBlock miscountedHeader hback hbuilds.reader
    (builds_headerReads _ _ _ _ _ _ _ hbuilds).1
  have hsize := hheader.operationsSize
  revert hsize
  decide +kernel

theorem readsBack_fifty : ReadsBack (fiftyBlock nextHeaderMultihash) ∧
    HeaderOf (fiftyBlock nextHeaderMultihash) nextHeader := by
  have hsig : (fiftyBlock nextHeaderMultihash).signatures.wholeData.length < 2^16 := by
    decide +kernel
  have hbuilds := (buildChainBlock_eq_ok_iff _ _ _ _ _ _ _).mp entry_buildChainBlock.1
  obtain ⟨hbuilt, hcommitted⟩ := @readsBack_iff _ DirectoryChainStore _
    builtTables_headersReadBack builtTables_signaturesReadBack (fiftyBlock nextHeaderMultihash)
    nextHeader hsig
  obtain ⟨hiff, hproposed⟩ := hcommitted twoNodes _ entryStore genesisChain entryOperations hbuilds
  have hback : ReadsBack (fiftyBlock nextHeaderMultihash) :=
    hproposed _ otherCell entryOperations fiftyBlock_built hsig rfl rfl rfl
  exact ⟨hbuilt otherCell entryOperations fiftyBlock_built, hiff.mp hback⟩

end Samples

end Exocore.Engine
