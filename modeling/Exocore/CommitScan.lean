import Exocore.ChainReceived
import Exocore.CommitBlockSpec

/-! The scan of the pending store that a tick starts with: the groups that it gets through, and
those that it stops at. -/
namespace Exocore.Engine

open Exocore.Core Exocore.Chain Exocore.Pending SortedMap

section Operations
variable [Crates]

/-- The operation reads, as far as the scan looks into it. -/
def ReadsInGroup (op : StoredOperation) : Prop :=
  ∃ reader, op.frame.frame.reader = some reader ∧ match reader.operation with
    | .blockPropose _ => (∃ header, headerOf op = some header ∧ header.operationsHeader.isSome) ∧
        ∃ nodeId, readNodeId reader = .ok nodeId
    | .blockSign _ => (signatureOf op).isSome
    | .blockRefuse => (refusalOf op).isSome
    | .entry _ => True
    | .notInSchema _ => False

/-- The proposal of a group is the last of its operations that propose a block. -/
def proposalOf : List StoredOperation → Option StoredOperation
  | [] => none
  | op :: rest => (proposalOf rest).or (if (headerOf op).isSome then some op else none)

theorem signatureOf_isSome_iff (op : StoredOperation) (reader : ChainOperation)
    (hreader : op.frame.frame.reader = some reader) : (signatureOf op).isSome ↔
      ∃ signature, PendingBlockSignature.fromOperation reader = .ok signature := by
  simp only [signatureOf, hreader, Option.bind_eq_bind, Option.bind_some]
  cases PendingBlockSignature.fromOperation reader <;> simp

theorem refusalOf_isSome_iff (op : StoredOperation) (reader : ChainOperation)
    (hreader : op.frame.frame.reader = some reader) : (refusalOf op).isSome ↔
      ∃ refusal, PendingBlockRefusal.fromOperation reader = .ok refusal := by
  simp only [refusalOf, hreader, Option.bind_eq_bind, Option.bind_some]
  cases PendingBlockRefusal.fromOperation reader <;> simp

theorem groupParts_add_isOk_iff (cell : Cell) (parts : GroupParts) (op : StoredOperation) :
    (∃ parts', parts.add cell op = .ok parts') ↔ ReadsInGroup op := by
  unfold GroupParts.add ReadsInGroup
  cases hreader : op.frame.frame.reader with
  | none => simp [orError]
  | some reader =>
    simp only [orError_some, ok_bind, Option.some.injEq, exists_eq_left']
    cases hbody : reader.operation with
    | blockPropose block =>
      simp only [bind_eq_ok_iff, orError_eq_ok_iff, liftError_eq_ok_iff, pure, Except.pure,
        Except.ok.injEq]
      constructor
      · rintro ⟨_, data, rfl, frame, hframe, header, hheader, headers, hheaders, nodeId, hnode, -⟩
        have hof : headerOf op = some header := by
          simp [headerOf, headerFrameOf, hreader, hbody, hframe, hheader]
        exact ⟨⟨header, hof, by simp [hheaders]⟩, nodeId, hnode⟩
      · rintro ⟨⟨header, hof, hheaders⟩, nodeId, hnode⟩
        obtain ⟨headers, hheaders⟩ := Option.isSome_iff_exists.mp hheaders
        cases block with
        | none => simp [headerOf, headerFrameOf, hreader, hbody] at hof
        | some data =>
          cases hframe : readHeaderFrame data with
          | error e => simp [headerOf, headerFrameOf, hreader, hbody, hframe] at hof
          | ok frame =>
            simp only [headerOf, headerFrameOf, hreader, hbody, hframe, Option.bind_eq_bind,
              Option.bind_some] at hof
            exact ⟨_, data, rfl, frame, hframe, header, hof, headers, hheaders, nodeId, hnode, rfl⟩
    | blockSign sig =>
      rw [signatureOf_isSome_iff op reader hreader]
      simp [bind_eq_ok_iff, pure, Except.pure]
    | blockRefuse =>
      rw [refusalOf_isSome_iff op reader hreader]
      simp [bind_eq_ok_iff, pure, Except.pure]
    | entry data => simp [pure, Except.pure]
    | notInSchema code => simp

theorem noPanic_readNodeId (reader : ChainOperation) : NoPanic (readNodeId reader) :=
  noPanic_bind _ _ (noPanic_orError _ _) fun _ _ => noPanic_orError _ _

theorem noPanic_signature_fromOperation (reader : ChainOperation) :
    NoPanic (PendingBlockSignature.fromOperation reader) := by
  unfold PendingBlockSignature.fromOperation
  split
  · apply noPanic_bind _ _ (noPanic_orError _ _)
    intro signatureReader _
    apply noPanic_bind _ _ (noPanic_readNodeId reader)
    intro nodeId _
    exact noPanic_bind _ _ (noPanic_orError _ _) fun _ _ => noPanic_pure _
  · exact noPanic_error _
  · exact noPanic_error _

theorem noPanic_refusal_fromOperation (reader : ChainOperation) :
    NoPanic (PendingBlockRefusal.fromOperation reader) := by
  unfold PendingBlockRefusal.fromOperation
  split
  · exact noPanic_bind _ _ (noPanic_readNodeId reader) fun _ _ => noPanic_pure _
  · exact noPanic_error _
  · exact noPanic_error _

theorem noPanic_groupParts_add (cell : Cell) (parts : GroupParts) (op : StoredOperation) :
    NoPanic (parts.add cell op) := by
  apply noPanic_bind _ _ (noPanic_orError _ _)
  intro reader _
  split
  · apply noPanic_bind _ _ (noPanic_orError _ _)
    intro data _
    apply noPanic_bind _ _
    · rw [noPanic_liftError]
      exact noPanic_readHeaderFrame data
    intro frame _
    apply noPanic_bind _ _ (noPanic_orError _ _)
    intro header _
    apply noPanic_bind _ _ (noPanic_orError _ _)
    intro headers _
    exact noPanic_bind _ _ (noPanic_readNodeId reader) fun _ _ => noPanic_pure _
  · exact noPanic_bind _ _ (noPanic_signature_fromOperation reader) fun _ _ => noPanic_pure _
  · exact noPanic_bind _ _ (noPanic_refusal_fromOperation reader) fun _ _ => noPanic_pure _
  · exact noPanic_pure _
  · exact noPanic_error _

theorem noPanic_groupParts_collect (cell : Cell) (ops : List StoredOperation)
    (parts : GroupParts) : NoPanic (GroupParts.collect cell ops parts) := by
  induction ops generalizing parts with
  | nil => exact noPanic_pure _
  | cons op rest ih =>
    exact noPanic_bind _ _ (noPanic_groupParts_add cell parts op) fun parts' _ => ih parts'

theorem groupParts_collect_isOk_iff (cell : Cell) (ops : List StoredOperation)
    (parts : GroupParts) : (∃ parts', GroupParts.collect cell ops parts = .ok parts') ↔
      ∀ op ∈ ops, ReadsInGroup op := by
  induction ops generalizing parts with
  | nil => simp [GroupParts.collect, pure, Except.pure]
  | cons op rest ih =>
    simp only [GroupParts.collect, bind_eq_ok_iff, List.forall_mem_cons]
    rw [← groupParts_add_isOk_iff cell parts op]
    constructor
    · rintro ⟨parts', mid, hadd, hrest⟩
      exact ⟨⟨mid, hadd⟩, (ih mid).mp ⟨parts', hrest⟩⟩
    · rintro ⟨⟨mid, hadd⟩, hrest⟩
      obtain ⟨parts', hcollect⟩ := (ih mid).mpr hrest
      exact ⟨parts', mid, hadd, hcollect⟩

/-- The proposal that a group adds up to, for the offset of its header. -/
theorem groupParts_collect_proposal (cell : Cell) (ops : List StoredOperation)
    (parts parts' : GroupParts) (h : GroupParts.collect cell ops parts = .ok parts') :
    (proposalOf ops = none ∧ parts'.proposal = parts.proposal) ∨
      ∃ op proposal header, proposalOf ops = some op ∧ parts'.proposal = some proposal ∧
        headerOf op = some header ∧ proposal.offset = header.offset := by
  induction ops generalizing parts with
  | nil =>
    obtain rfl := Except.ok.inj h
    exact Or.inl ⟨rfl, rfl⟩
  | cons op rest ih =>
    obtain ⟨mid, hmid, hrest⟩ := (bind_eq_ok_iff _ _ _).mp h
    rw [proposalOf]
    rcases ih mid hrest with ⟨hnone, hsame⟩ | ⟨last, proposal, header, hlast, hproposal⟩
    · obtain ⟨-, -, -, hadded⟩ := groupParts_add_eq_ok cell parts mid op hmid
      rw [hnone, Option.none_or, hsame]
      rcases hadded with ⟨hof, hkeep⟩ | ⟨proposal, hproposal, -, header, hof, -, hoffset⟩
      · exact Or.inl ⟨by simp [hof], hkeep⟩
      · exact Or.inr ⟨op, proposal, header, by simp [hof], hproposal, hof, hoffset⟩
    · rw [hlast, Option.some_or]
      exact Or.inr ⟨last, proposal, header, rfl, hproposal⟩

end Operations

end Exocore.Engine

namespace Exocore.Chain

open Exocore.Core

section Blocks
variable [Crates]

/-- A block that reads has the message of its header. -/
theorem dataBlock_new_reader (kind : DataKind) (data : Bytes) (b : DataBlock)
    (h : DataBlock.new kind data = .ok b) : ∃ header, b.header.reader = some header := by
  simp only [DataBlock.new, bind_eq_ok_iff, orError_eq_ok_iff] at h
  obtain ⟨frame, -, header, hheader, h⟩ := h
  split_ifs at h
  simp only [bind_eq_ok_iff, pure, Except.pure, Except.ok.injEq] at h
  obtain ⟨_, -, _, -, _, -, rfl⟩ := h
  exact ⟨header, hheader⟩

theorem segmentFile_getBlock_cases (f : SegmentFile) (offset : ℕ) :
    f.getBlock offset = .error .panic ∨ (∃ e, f.getBlock offset = .error (.error (.block e))) ∨
      ∃ b header, f.getBlock offset = .ok b ∧ b.header.reader = some header := by
  have hread (kind : DataKind) (data : Bytes) :
      liftError ChainError.block (DataBlock.new kind data) = .error .panic ∨
        (∃ e, liftError ChainError.block (DataBlock.new kind data) = .error (.error (.block e))) ∨
        ∃ b header, liftError ChainError.block (DataBlock.new kind data) = .ok b ∧
          b.header.reader = some header := by
    cases hnew : DataBlock.new kind data with
    | ok b =>
      obtain ⟨header, hheader⟩ := dataBlock_new_reader kind data b hnew
      exact Or.inr (Or.inr ⟨b, header, rfl, hheader⟩)
    | error e =>
      cases e with
      | error e => exact Or.inr (Or.inl ⟨e, rfl⟩)
      | panic => exact Or.inl rfl
  rw [SegmentFile.getBlock]
  cases f.mmap with
  | write =>
    cases slice f.data offset f.data.length with
    | none => exact Or.inl rfl
    | some data =>
      simp only [orPanic_some, ok_bind]
      rcases hread .ref data with hpanic | ⟨e, he⟩ | ⟨b, -, hb, -⟩
      · exact Or.inl (by rw [hpanic, error_bind])
      · exact Or.inr (Or.inl ⟨e, by rw [he, error_bind]⟩)
      · rw [hb, ok_bind]
        exact hread .bytes b.asDataVec
  | read =>
    cases slice f.data offset f.currentSize with
    | none => exact Or.inl rfl
    | some data => exact hread .ref data

/-- A look up at an offset does not end in a fatal error. -/
theorem directory_getBlock_cases (s : DirectoryChainStore) (offset : ℕ) :
    s.getBlock offset = .error .panic ∨
      (∃ e, s.getBlock offset = .error (.error e) ∧ e.isFatal = false) ∨
      ∃ b header, s.getBlock offset = .ok b ∧ b.header.reader = some header := by
  rw [DirectoryChainStore.getBlock]
  cases s.getSegmentForBlockOffset offset with
  | none => exact Or.inr (Or.inl ⟨_, rfl, rfl⟩)
  | some seg =>
    simp only [DirectorySegment.getBlock]
    split_ifs
    · exact Or.inr (Or.inl ⟨_, rfl, rfl⟩)
    · exact Or.inr (Or.inl ⟨_, rfl, rfl⟩)
    · rcases segmentFile_getBlock_cases seg.segmentFile (offset - seg.firstBlockOffset) with
        hpanic | ⟨e, he⟩ | hok
      · exact Or.inl hpanic
      · exact Or.inr (Or.inl ⟨_, he, rfl⟩)
      · exact Or.inr (Or.inr hok)

end Blocks

end Exocore.Chain

namespace Exocore.Engine

open Exocore.Core Exocore.Chain Exocore.Pending SortedMap

section Scan
variable [Crates]

/-- A group that the scan gets through: every operation reads, one of them proposes a block, and
the chain store answers at the offset of the last such proposal. -/
structure GroupReads (chain : DirectoryChainStore) (ops : List StoredOperation) : Prop where
  operations : ∀ op ∈ ops, ReadsInGroup op
  proposal : ∃ op header, proposalOf ops = some op ∧ headerOf op = some header ∧
    NoPanic (chain.getBlock header.offset)

/-- The groups with the ids of the proposals. The group of a proposal may be another one. -/
def GroupsRead (store : MemoryPendingStore) (chain : DirectoryChainStore) : Prop :=
  ∀ g op ops, store.getOperation g = some op → op.operationType = .blockPropose →
    store.getGroupOperations g = some ops → GroupReads chain ops

theorem blockStatus_isOk_iff (chain : DirectoryChainStore)
    (groupId offset expectedNextOffset : ℕ) (hasSigsQuorum refused expired : Bool) :
    (∃ status, blockStatus chain groupId offset expectedNextOffset hasSigsQuorum refused expired =
      .ok status) ↔ NoPanic (chain.getBlock offset) := by
  unfold blockStatus
  have hget : ChainStore.getBlock chain offset = chain.getBlock offset := rfl
  rw [hget]
  rcases directory_getBlock_cases chain offset with hpanic | ⟨e, he, hfatal⟩ | ⟨b, header, hb, hheader⟩
  · rw [hpanic]
    simp
  · rw [he]
    simp [hfatal, pure, Except.pure]
  · have hid : b.getProposedOperationId = .ok header.proposedOperationId := by
      simp [DataBlock.getProposedOperationId, DataBlock.headerReader, hheader, pure, Except.pure]
    rw [hb]
    simp only [hid, liftError_ok, ok_bind, noPanic_ok, iff_true]
    split_ifs <;> exact ⟨_, rfl⟩

theorem blockStatus_error (chain : DirectoryChainStore)
    (groupId offset expectedNextOffset : ℕ) (hasSigsQuorum refused expired : Bool)
    (e : Fault EngineError) (h : blockStatus chain groupId offset expectedNextOffset hasSigsQuorum
      refused expired = .error e) : e = .panic := by
  have hpanics : ¬ NoPanic (chain.getBlock offset) := by
    rw [← blockStatus_isOk_iff chain groupId offset expectedNextOffset hasSigsQuorum refused expired]
    rintro ⟨status, hstatus⟩
    rw [h] at hstatus
    contradiction
  have hget : ChainStore.getBlock chain offset = .error .panic := by_contra hpanics
  rw [blockStatus, hget] at h
  exact (Except.error.inj h).symm

variable (config : CommitManagerConfig) (now : ℕ) (cell : Cell) (chain : DirectoryChainStore)
  (expectedNextOffset : ℕ)

theorem group_isOk_iff (groupId : ℕ) (ops : List StoredOperation) :
    (∃ parts block, GroupParts.collect cell ops ⟨[], none, [], []⟩ = .ok parts ∧
      parts.pendingBlock config now cell chain expectedNextOffset groupId = .ok block) ↔
      GroupReads chain ops := by
  simp only [GroupParts.pendingBlock, bind_eq_ok_iff, orPanic_eq_ok_iff, pure, Except.pure,
    Except.ok.injEq]
  constructor
  · rintro ⟨parts, block, hcollect, proposal, hproposal, status, hstatus, -⟩
    refine ⟨(groupParts_collect_isOk_iff cell ops _).mp ⟨parts, hcollect⟩, ?_⟩
    rcases groupParts_collect_proposal cell ops _ parts hcollect with
      ⟨-, hnone⟩ | ⟨op, proposal', header, hop, hproposal', hheader, hoffset⟩
    · rw [hproposal] at hnone
      contradiction
    · obtain rfl := Option.some.inj (hproposal.symm.trans hproposal')
      rw [hoffset] at hstatus
      exact ⟨op, header, hop, hheader, (blockStatus_isOk_iff chain _ _ _ _ _ _).mp ⟨status, hstatus⟩⟩
  · rintro ⟨hoperations, op, header, hop, hheader, hanswers⟩
    obtain ⟨parts, hcollect⟩ := (groupParts_collect_isOk_iff cell ops ⟨[], none, [], []⟩).mpr
      hoperations
    rcases groupParts_collect_proposal cell ops _ parts hcollect with
      ⟨hnone, -⟩ | ⟨op', proposal, header', hop', hproposal, hheader', hoffset⟩
    · rw [hop] at hnone
      contradiction
    · obtain rfl := Option.some.inj (hop.symm.trans hop')
      obtain rfl := Option.some.inj (hheader.symm.trans hheader')
      rw [← hoffset] at hanswers
      obtain ⟨status, hstatus⟩ := (blockStatus_isOk_iff chain groupId proposal.offset
        expectedNextOffset (cell.hasQuorum parts.signatures.length (some .chain))
        (cell.hasQuorum parts.refusals.length (some .chain) ||
          parts.refusals.any fun r => r.nodeId = cell.localNode)
        (proposal.hasExpired config now)).mpr hanswers
      exact ⟨parts, _, hcollect, proposal, hproposal, status, hstatus, rfl⟩

/-- The scan stops at the first group that does not read. -/
theorem readBlocks_isOk_iff (store : MemoryPendingStore) (groups : List ℕ)
    (blocks : Map ℕ PendingBlock) :
    (∃ blocks', readBlocks config now cell store chain expectedNextOffset groups blocks =
      .ok blocks') ↔
      ∀ g ∈ groups, ∀ ops, store.getGroupOperations g = some ops → GroupReads chain ops := by
  induction groups generalizing blocks with
  | nil => simp [readBlocks, pure, Except.pure]
  | cons g rest ih =>
    rw [readBlocks, List.forall_mem_cons]
    cases hops : store.getGroupOperations g with
    | none => simp [ih]
    | some ops =>
      simp only [bind_eq_ok_iff, Option.some.injEq, forall_eq']
      rw [← group_isOk_iff config now cell chain expectedNextOffset g ops]
      constructor
      · rintro ⟨blocks', parts, hparts, block, hblock, hrest⟩
        exact ⟨⟨parts, block, hparts, hblock⟩, (ih _).mp ⟨blocks', hrest⟩⟩
      · rintro ⟨⟨parts, block, hparts, hblock⟩, hrest⟩
        obtain ⟨blocks', hblocks'⟩ := (ih (blocks.insert g block)).mpr hrest
        exact ⟨blocks', parts, hparts, block, hblock, hblocks'⟩

theorem groupParts_pendingBlock_error (groupId : ℕ) (parts : GroupParts) (e : Fault EngineError)
    (h : parts.pendingBlock config now cell chain expectedNextOffset groupId = .error e) :
    e = .panic := by
  rw [GroupParts.pendingBlock] at h
  cases hproposal : parts.proposal with
  | none =>
    rw [hproposal] at h
    exact (Except.error.inj h).symm
  | some proposal =>
    simp only [hproposal, orPanic_some, ok_bind] at h
    cases hstatus : blockStatus chain groupId proposal.offset expectedNextOffset
      (cell.hasQuorum parts.signatures.length (some .chain))
      (cell.hasQuorum parts.refusals.length (some .chain) ||
        parts.refusals.any fun r => r.nodeId = cell.localNode)
      (proposal.hasExpired config now) with
    | ok status =>
      rw [hstatus] at h
      contradiction
    | error e' =>
      rw [hstatus] at h
      obtain rfl := Except.error.inj h
      exact blockStatus_error chain _ _ _ _ _ _ _ hstatus

/-- A group that the scan panics on: its operations read, but none of them proposes a block, or the
chain store does not answer at the offset of the last that does. -/
def GroupPanics (chain : DirectoryChainStore) (ops : List StoredOperation) : Prop :=
  (∀ op ∈ ops, ReadsInGroup op) ∧ ¬ GroupReads chain ops

/-- The first of the groups that does not read is one that the scan panics on. -/
def FirstPanics (store : MemoryPendingStore) (chain : DirectoryChainStore) (groups : List ℕ) :
    Prop :=
  ∃ before g rest ops, groups = before ++ g :: rest ∧ store.getGroupOperations g = some ops ∧
    GroupPanics chain ops ∧
    ∀ g' ∈ before, ∀ ops', store.getGroupOperations g' = some ops' → GroupReads chain ops'

omit config now cell expectedNextOffset in
theorem firstPanics_cons (store : MemoryPendingStore) (g : ℕ) (rest : List ℕ) :
    FirstPanics store chain (g :: rest) ↔
      (∃ ops, store.getGroupOperations g = some ops ∧ GroupPanics chain ops) ∨
        (∀ ops, store.getGroupOperations g = some ops → GroupReads chain ops) ∧
          FirstPanics store chain rest := by
  constructor
  · rintro ⟨before, g', rest', ops, hgroups, hops, hpanics, hbefore⟩
    cases before with
    | nil =>
      obtain ⟨rfl, rfl⟩ := List.cons.inj hgroups
      exact Or.inl ⟨ops, hops, hpanics⟩
    | cons first before =>
      obtain ⟨rfl, rfl⟩ := List.cons.inj hgroups
      rw [List.forall_mem_cons] at hbefore
      exact Or.inr ⟨hbefore.1, before, g', rest', ops, rfl, hops, hpanics, hbefore.2⟩
  · rintro (⟨ops, hops, hpanics⟩ | ⟨hreads, before, g', rest', ops, rfl, hops, hpanics, hbefore⟩)
    · exact ⟨[], g, rest, ops, rfl, hops, hpanics, fun _ h => absurd h List.not_mem_nil⟩
    · refine ⟨g :: before, g', rest', ops, rfl, hops, hpanics, ?_⟩
      rw [List.forall_mem_cons]
      exact ⟨hreads, hbefore⟩

theorem readBlocks_noPanic_iff (store : MemoryPendingStore) (groups : List ℕ)
    (blocks : Map ℕ PendingBlock) :
    NoPanic (readBlocks config now cell store chain expectedNextOffset groups blocks) ↔
      ¬ FirstPanics store chain groups := by
  induction groups generalizing blocks with
  | nil =>
    refine iff_of_true (noPanic_pure _) ?_
    rintro ⟨before, g, rest, ops, hgroups, -⟩
    simp at hgroups
  | cons g rest ih =>
    rw [readBlocks, firstPanics_cons]
    cases hops : store.getGroupOperations g with
    | none => simp [ih]
    | some ops =>
      simp only [Option.some.injEq, exists_eq_left', forall_eq']
      by_cases hreads : GroupReads chain ops
      · obtain ⟨parts, block, hcollect, hblock⟩ :=
          (group_isOk_iff config now cell chain expectedNextOffset g ops).mpr hreads
        simp only [hcollect, hblock, ok_bind, ih, GroupPanics, hreads, not_true_eq_false, and_false,
          false_or, true_and]
      · simp only [hreads, false_and, or_false]
        have hgroup := group_isOk_iff config now cell chain expectedNextOffset g ops
        cases hcollect : GroupParts.collect cell ops ⟨[], none, [], []⟩ with
        | error e =>
          have hno := noPanic_groupParts_collect cell ops ⟨[], none, [], []⟩
          rw [hcollect] at hno
          refine iff_of_true (noPanic_error_of e hno) ?_
          rintro ⟨hall, -⟩
          obtain ⟨parts, hparts⟩ := (groupParts_collect_isOk_iff cell ops _).mpr hall
          rw [hcollect] at hparts
          contradiction
        | ok parts =>
          rw [ok_bind]
          cases hblock : parts.pendingBlock config now cell chain expectedNextOffset g with
          | ok block => exact absurd (hgroup.mp ⟨parts, block, hcollect, hblock⟩) hreads
          | error e =>
            obtain rfl := groupParts_pendingBlock_error config now cell chain expectedNextOffset g
              parts e hblock
            refine iff_of_false not_noPanic_panic ?_
            rw [not_not]
            exact ⟨(groupParts_collect_isOk_iff cell ops _).mp ⟨parts, hcollect⟩, hreads⟩

/-- The scan ends with the pending blocks if and only if every group reads. -/
theorem pendingBlocks_new_isOk_iff (store : MemoryPendingStore) (last : DataBlock)
    (hlast : chain.getLastBlock = .ok (some last)) :
    (∃ pb, PendingBlocks.new config now cell store chain = .ok pb) ↔ GroupsRead store chain := by
  have hlast' : ChainStore.getLastBlock chain = .ok (some last) := hlast
  simp only [PendingBlocks.new, store.operationsIter_unbounded, hlast', liftError_ok, orError_some,
    ok_bind, bind_eq_ok_iff,
    pure, Except.pure, Except.ok.injEq]
  have hgroups : GroupsRead store chain ↔
      ∀ g ∈ (store.operations.filter fun op => op.operationType = .blockPropose).map
        StoredOperation.operationId, ∀ ops, store.getGroupOperations g = some ops →
          GroupReads chain ops := by
    simp only [List.mem_map, List.mem_filter, store.mem_operations_iff, decide_eq_true_eq]
    constructor
    · rintro h g ⟨op, ⟨hop, htype⟩, rfl⟩ ops
      exact h op.operationId op ops hop htype
    · intro h g op ops hop htype
      have hid := store.getOperation_id g op hop
      exact h g ⟨op, ⟨by rw [hid]; exact hop, htype⟩, hid⟩ ops
  rw [hgroups, ← readBlocks_isOk_iff config now cell chain last.nextOffset store _ .empty]
  constructor
  · rintro ⟨pb, blocks, hblocks, -⟩
    exact ⟨blocks, hblocks⟩
  · rintro ⟨blocks, hblocks⟩
    exact ⟨_, blocks, hblocks, rfl⟩

/-- The groups that the scan looks into, in its order. -/
def proposalIds (store : MemoryPendingStore) : List ℕ :=
  (store.operations.filter fun op => op.operationType = .blockPropose).map
    StoredOperation.operationId

theorem pendingBlocks_new_noPanic_iff (store : MemoryPendingStore) (last : DataBlock)
    (hlast : chain.getLastBlock = .ok (some last)) :
    NoPanic (PendingBlocks.new config now cell store chain) ↔
      ¬ FirstPanics store chain (proposalIds store) := by
  have hlast' : ChainStore.getLastBlock chain = .ok (some last) := hlast
  have hread := readBlocks_noPanic_iff config now cell chain last.nextOffset store
    (proposalIds store) .empty
  simp only [PendingBlocks.new, store.operationsIter_unbounded, hlast', liftError_ok, orError_some,
    ok_bind]
  rw [← hread, proposalIds]
  cases readBlocks config now cell store chain last.nextOffset _ .empty with
  | ok blocks => simp
  | error e => exact ⟨noPanic_error_of e, noPanic_error_of e⟩

end Scan

end Exocore.Engine
