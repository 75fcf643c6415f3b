import Exocore.ChainValidate
import Exocore.CommitOnce

/-! The block up to which the pending store was cleaned up, along the ticks of a node. -/
namespace Exocore.Engine

open Exocore.Core Exocore.Chain Exocore.Pending SortedMap

section Heights
variable {CS : Type} [ChainStore CS]

/-- Height of the block at the offset, none where the chain has none there. -/
def heightAt (chain : CS) (offset : ℕ) : Option ℕ :=
  match ChainStore.getBlock chain offset with
  | .ok block => block.getHeight.toOption
  | .error _ => none

def lastBlockHeight (chain : CS) : Option ℕ :=
  match ChainStore.getLastBlock chain with
  | .ok (some block) => block.getHeight.toOption
  | _ => none

/-- The later chain has the blocks of the earlier one, and does not end below it. -/
structure Grows (c c' : CS) : Prop where
  keeps : ∀ offset height, heightAt c offset = some height → heightAt c' offset = some height
  last : ∀ height, lastBlockHeight c = some height →
    ∃ height', lastBlockHeight c' = some height' ∧ height ≤ height'

theorem Grows.refl (c : CS) : Grows c c :=
  ⟨fun _ _ h => h, fun height h => ⟨height, h, le_rfl⟩⟩

/-- What the pending store was last cleaned up to is a block that is deep in the chain. -/
def MarkFits (depth : ℕ) (chain : CS) (mark : Option (ℕ × ℕ)) : Prop :=
  ∀ offset height, mark = some (offset, height) → heightAt chain offset = some height ∧
    ∃ last, lastBlockHeight chain = some last ∧ height + depth ≤ last

theorem MarkFits.grows {depth : ℕ} {c c' : CS} {mark : Option (ℕ × ℕ)}
    (h : MarkFits depth c mark) (hgrows : Grows c c') : MarkFits depth c' mark := by
  intro offset height hmark
  obtain ⟨hat, last, hlast, hdeep⟩ := h offset height hmark
  obtain ⟨last', hlast', hle⟩ := hgrows.last last hlast
  exact ⟨hgrows.keeps offset height hat, last', hlast', hdeep.trans hle⟩

/-- The height did not get lower. -/
def NotBelow (old new : Option (ℕ × ℕ)) : Prop :=
  ∀ offset height, old = some (offset, height) →
    ∃ offset' height', new = some (offset', height') ∧ height ≤ height'

theorem NotBelow.refl (mark : Option (ℕ × ℕ)) : NotBelow mark mark :=
  fun offset height h => ⟨offset, height, h, le_rfl⟩

end Heights

section Marks
variable [Crates] {CS : Type} (m : CommitManager)

def cleanupMark (s : CommitState CS) : Option (ℕ × ℕ) :=
  s.syncContext.syncState.pendingLastCleanupBlock

/-- The header of the proposal, where the cleanup takes the block. -/
def cleanedHeader (last : ℕ) (block : PendingBlock) : Option BlockHeader :=
  if block.status = .pastCommitted ∨ block.status = .pastRefused then
    (headerOf block.proposal.operation).filter fun header =>
      m.config.operationsCleanupAfterBlockDepth ≤ last - header.height
  else none

/-- The header of the last block that the cleanup takes. -/
def lastCleaned (last : ℕ) (blocks : List PendingBlock) : Option BlockHeader :=
  (blocks.filterMap (cleanedHeader m last)).getLast?

def markOf (header : BlockHeader) : ℕ × ℕ := (header.offset, header.height)

theorem cleanupBlock_mark (last : ℕ) (block : PendingBlock)
    (hreads : (headerOf block.proposal.operation).isSome) (s : CommitState CS) :
    cleanupMark (m.cleanupBlock last block s).2 =
      ((cleanedHeader m last block).map markOf).or (cleanupMark s) := by
  obtain ⟨header, hheader⟩ := Option.isSome_iff_exists.mp hreads
  obtain ⟨frame, hframe, hreader⟩ := getBlock_of_headerOf _ _ hheader
  rw [CommitManager.cleanupBlock, cleanedHeader, hheader]
  by_cases hpast : block.status = .pastCommitted ∨ block.status = .pastRefused
  · rw [if_pos hpast, if_pos hpast, hframe]
    simp only [Action.lift_ok_bind, hreader, orError_some, Option.filter_some, decide_eq_true_eq]
    by_cases hdeep : m.config.operationsCleanupAfterBlockDepth ≤ last - header.height
    · rw [if_pos hdeep, if_pos hdeep]
      by_cases hcommitted : block.status = .pastCommitted
      · simp only [hcommitted, if_true, Action.bind_apply, deleteOperation, deleteOperations_eq,
          setPendingLastCleanupBlock]
        rfl
      · simp only [hcommitted, if_false, Action.bind_apply, deleteOperation,
          setPendingLastCleanupBlock]
        rfl
    · rw [if_neg hdeep, if_neg hdeep]
      rfl
  · rw [if_neg hpast, if_neg hpast]
    rfl

/-- Each block that is cleaned up overwrites what the ones before it have left. -/
theorem cleanupBlocks_mark (last : ℕ) (blocks : List PendingBlock)
    (hreads : ∀ block ∈ blocks, (headerOf block.proposal.operation).isSome)
    (s : CommitState CS) :
    cleanupMark (m.cleanupBlocks last blocks s).2 =
      ((lastCleaned m last blocks).map markOf).or (cleanupMark s) := by
  induction blocks generalizing s with
  | nil => rfl
  | cons block rest ih =>
    have hblock := hreads block List.mem_cons_self
    have hmark := cleanupBlock_mark m last block hblock s
    obtain ⟨hok, -, -⟩ := cleanupBlock_eq m last block hblock s
    have hbind := Action.bind_of_ok _ (fun _ => m.cleanupBlocks last rest) s _ _
      (Action.eq_ok_of_fst _ s () hok)
    rw [CommitManager.cleanupBlocks, hbind, ih (fun b hb => hreads b (List.mem_cons_of_mem _ hb)),
      hmark, lastCleaned, lastCleaned]
    cases hcleaned : cleanedHeader m last block with
    | none =>
      rw [List.filterMap_cons_none hcleaned]
      rfl
    | some header =>
      rw [List.filterMap_cons_some hcleaned, List.getLast?_cons]
      cases (rest.filterMap (cleanedHeader m last)).getLast? <;> rfl

theorem keeps_deleteOperations (ids : List ℕ) :
    Action.Keeps cleanupMark (deleteOperations ids : Action (CommitState CS) EngineError Unit) := by
  intro s
  rw [deleteOperations_eq]
  rfl

variable [ChainStore CS]

theorem keeps_cleanupDangling (i : TickInput) (pb : PendingBlocks) (last : ℕ) :
    Action.Keeps cleanupMark
      (m.cleanupDangling i pb last : Action (CommitState CS) EngineError Unit) := by
  rw [CommitManager.cleanupDangling]
  split_ifs
  · apply Action.keeps_bind _ _ _ (Action.keeps_get _)
    intro s
    apply Action.keeps_bind _ _ _ (Action.keeps_lift _ _)
    intro operations
    apply Action.keeps_bind _ _ _ (Action.keeps_lift _ _)
    intro toDelete
    exact keeps_deleteOperations toDelete
  · exact Action.keeps_pure _ ()

/-- What the cleanup leaves, where the chain has a last block to count the depth from. -/
theorem maybeCleanupPendingStore_mark (i : TickInput) (pb : PendingBlocks)
    (hreads : ∀ g block, pb.blocks.get g = some block →
      (headerOf block.proposal.operation).isSome) (s : CommitState CS) :
    cleanupMark (m.maybeCleanupPendingStore i pb s).2 =
      (((lastBlockHeight s.chainStore).bind fun last =>
        lastCleaned m last (pb.inOrder i.blocksOrder)).map markOf).or (cleanupMark s) := by
  rw [CommitManager.maybeCleanupPendingStore, Action.get_bind, lastBlockHeight]
  cases ChainStore.getLastBlock s.chainStore with
  | error e => rfl
  | ok lastBlock =>
    cases lastBlock with
    | none => rfl
    | some lastStoredBlock =>
      simp only [liftError_ok, Action.lift_ok_bind, orError_some]
      cases hheight : lastStoredBlock.getHeight with
      | error e => rfl
      | ok last =>
        have hall : ∀ block ∈ pb.inOrder i.blocksOrder,
            (headerOf block.proposal.operation).isSome := by
          intro block hblock
          obtain ⟨g, hg⟩ := (mem_inOrder_iff pb _ block).mp hblock
          exact hreads g block hg
        simp only [liftError_ok, Action.lift_ok_bind, Except.toOption, Option.bind_some]
        rw [← cleanupBlocks_mark m last _ hall s]
        apply Action.bind_keeps_snd (fun s' => cleanupMark s' = _)
        · rfl
        · intro _
          exact keeps_cleanupDangling m i pb last _

end Marks

section BeforeCleanup
variable [Crates] {CS : Type} [ChainStore CS] (m : CommitManager) (p : PendingSynchronizer)
  (i : TickInput)

/-- A tick up to its cleanup, with the blocks that are handed to it. -/
def CommitManager.beforeCleanup : Action (CommitState CS) EngineError PendingBlocks := do
  let s ← Action.get
  let pendingBlocks ← Action.lift
    (PendingBlocks.new m.config i.now m.cell s.pendingStore s.chainStore)
  let potential ← Action.lift (pendingBlocks.potentialNextBlocks i.blocksOrder i.sorter)
  match potential.head? with
  | some nextBlock => do
    let nextBlock ← m.signNextBlock p i pendingBlocks nextBlock
    m.maybeCommitBlock nextBlock
    pure (pendingBlocks.setBlock nextBlock)
  | none => do
    m.maybeProposeBlock p i pendingBlocks
    pure pendingBlocks

theorem tick_eq_cleanup (s : CommitState CS) :
    m.tick p i s = (m.beforeCleanup p i >>= m.maybeCleanupPendingStore i) s := by
  rw [CommitManager.tick, CommitManager.beforeCleanup, Action.bind_assoc, Action.get_bind,
    Action.get_bind, Action.bind_assoc]
  cases PendingBlocks.new m.config i.now m.cell s.pendingStore s.chainStore with
  | error e => rfl
  | ok pb =>
    simp only [Action.lift_ok_bind, Action.bind_assoc]
    cases pb.potentialNextBlocks i.blocksOrder i.sorter with
    | error e => rfl
    | ok potential =>
      simp only [Action.lift_ok_bind]
      cases potential.head? with
      | none => rw [Action.bind_assoc]; rfl
      | some next => simp only [Action.bind_assoc]; rfl

/-- A call of the synchronizer leaves what the cleanup has noted. -/
theorem keeps_handleNewOperation (operation : NewOperation) :
    Action.Keeps (fun st : PendingState => st.syncContext.syncState)
      (p.handleNewOperation operation) := by
  have hsend (id : ℕ) (nodes : List NodeId) :
      Action.Keeps (fun st : PendingState => st.syncContext.syncState)
        (p.sendNewOperation id nodes) := by
    induction nodes with
    | nil => exact Action.keeps_pure _ ()
    | cons node rest ih =>
      apply Action.keeps_bind _ _ _ (Action.keeps_get _)
      intro st
      apply Action.keeps_bind _ _ _ (Action.keeps_lift _ _)
      intro request
      exact Action.keeps_bind _ _ _ (fun _ => rfl) fun _ => ih
  have hput : Action.Keeps (fun st : PendingState => st.syncContext.syncState)
      (putOperation operation) := by
    intro st
    rw [putOperation]
    cases st.store.putOperation operation <;> rfl
  apply Action.keeps_bind _ _ _ (Action.keeps_lift _ _)
  intro reader
  apply Action.keeps_bind _ _ _ hput
  intro existed
  exact Action.keeps_bind _ _ _ (fun _ => rfl) fun _ => hsend _ _

omit [ChainStore CS] in
theorem keeps_onPending {A : Type} (x : Action PendingState EngineError A)
    (h : Action.Keeps (fun st : PendingState => st.syncContext.syncState) x) :
    Action.Keeps cleanupMark (onPending x : Action (CommitState CS) EngineError A) := by
  intro s
  exact congrArg SyncState.pendingLastCleanupBlock (h ⟨s.syncContext, s.pendingStore⟩)

omit [ChainStore CS] in
theorem keeps_updateCommitStatuses (status : CommitStatus) (ids : List ℕ) :
    Action.Keeps cleanupMark
      (updateCommitStatuses status ids : Action (CommitState CS) EngineError Unit) := by
  have hupdate (id : ℕ) : Action.Keeps cleanupMark
      (updateOperationCommitStatus id status : Action (CommitState CS) EngineError Unit) := by
    intro s
    rw [updateOperationCommitStatus]
    cases s.pendingStore.updateOperationCommitStatus id status <;> rfl
  induction ids with
  | nil => exact Action.keeps_pure _ ()
  | cons id rest ih => exact Action.keeps_bind _ _ _ (hupdate id) fun _ => ih

theorem keeps_maybeCommitBlock (block : PendingBlock) :
    Action.Keeps cleanupMark
      (m.maybeCommitBlock block : Action (CommitState CS) EngineError Unit) := by
  rw [CommitManager.maybeCommitBlock]
  split_ifs
  · intro s
    rw [CommitManager.commitBlock, Action.get_bind]
    cases buildChainBlock m.cell block s.pendingStore s.chainStore with
    | error e => rfl
    | ok r =>
      obtain ⟨b, header, ops⟩ := r
      simp only [Action.lift_ok_bind]
      rcases ChainStore.writeBlock s.chainStore b with ⟨(e | _) | next, chainStore⟩
      · cases e <;> rfl
      · rfl
      · exact Action.keeps_bind cleanupMark _ _
          (keeps_updateCommitStatuses _ (ops.headers.map BlockOperationHeader.operationId))
          (fun _ _ => rfl) { s with chainStore := chainStore }
  · exact Action.keeps_pure _ ()

theorem keeps_beforeCleanup :
    Action.Keeps cleanupMark
      (m.beforeCleanup p i : Action (CommitState CS) EngineError PendingBlocks) := by
  have hput (operation : NewOperation) : Action.Keeps cleanupMark
      (onPending (p.handleNewOperation operation) : Action (CommitState CS) EngineError Unit) :=
    keeps_onPending _ (keeps_handleNewOperation p operation)
  apply Action.keeps_bind _ _ _ (Action.keeps_get _)
  intro s
  apply Action.keeps_bind _ _ _ (Action.keeps_lift _ _)
  intro pb
  apply Action.keeps_bind _ _ _ (Action.keeps_lift _ _)
  intro potential
  split
  · apply Action.keeps_bind _ _ _ (keeps_signNextBlock m p i hput pb _)
    intro signed
    exact Action.keeps_bind _ _ _ (keeps_maybeCommitBlock m signed) fun _ => Action.keeps_pure _ _
  · exact Action.keeps_bind _ _ _ (keeps_maybeProposeBlock m p i hput pb) fun _ =>
      Action.keeps_pure _ _

omit [ChainStore CS] in
/-- A signature or a refusal is added to the block, its proposal stays. -/
theorem signOutcome_proposal [ChainStore CS] (pb : PendingBlocks) (next signed : PendingBlock)
    (s s₁ : CommitState CS) (h : SignOutcome m p i pb next s signed s₁) :
    signed.proposal = next.proposal := by
  cases h with
  | same => rfl
  | signed op block s₁ mine check created put =>
    simp only [createBlockSignature, bind_eq_ok_iff, pure, Except.pure, Except.ok.injEq,
      Prod.mk.injEq] at created
    obtain ⟨-, -, -, -, -, -, sig, -, -, rfl⟩ := created
    rfl
  | refused op block s₁ mine created put =>
    simp only [createBlockRefusal, bind_eq_ok_iff, pure, Except.pure, Except.ok.injEq,
      Prod.mk.injEq] at created
    obtain ⟨-, -, -, -, refusal, -, -, rfl⟩ := created
    rfl

/-- The cleanup is handed proposals with headers that read. -/
theorem beforeCleanup_reads (s s₁ : CommitState CS) (pb : PendingBlocks)
    (h : m.beforeCleanup p i s = (.ok pb, s₁)) (g : ℕ) (block : PendingBlock)
    (hg : pb.blocks.get g = some block) : (headerOf block.proposal.operation).isSome := by
  rw [CommitManager.beforeCleanup, Action.get_bind] at h
  obtain ⟨pb₀, s', hlift, h⟩ := Action.bind_eq_ok _ _ _ _ _ h
  obtain ⟨hnew, rfl⟩ := Prod.mk.inj hlift
  obtain ⟨potential, s', hlift, h⟩ := Action.bind_eq_ok _ _ _ _ _ h
  obtain ⟨hpot, rfl⟩ := Prod.mk.inj hlift
  obtain ⟨last, -, hof⟩ := (pendingBlocks_new_eq_ok _ _ _ _ _ _ hnew).last
  have hreads (g : ℕ) (block : PendingBlock) (hg : pb₀.blocks.get g = some block) :
      (headerOf block.proposal.operation).isSome := by
    obtain ⟨ops, -, -, -, -, op, -, hproposal, header, hheader, -⟩ := (hof g block hg).group
    rw [hproposal, hheader]
    rfl
  cases hhead : potential.head? with
  | none =>
    rw [hhead] at h
    obtain ⟨u, s', -, h⟩ := Action.bind_eq_ok _ _ _ _ _ h
    obtain rfl := Except.ok.inj (Prod.mk.inj h).1
    exact hreads g block hg
  | some next =>
    rw [hhead] at h
    obtain ⟨signed, s', hsign, h⟩ := Action.bind_eq_ok _ _ _ _ _ h
    obtain ⟨u, s'', -, h⟩ := Action.bind_eq_ok _ _ _ _ _ h
    obtain rfl := Except.ok.inj (Prod.mk.inj h).1
    rw [PendingBlocks.setBlock, Map.get_insert] at hg
    split_ifs at hg
    · obtain rfl := Option.some.inj hg
      rw [signOutcome_proposal m p i pb₀ next _ _ _ (signNextBlock_eq_ok m p i pb₀ next _ _ _ hsign)]
      obtain ⟨⟨g, hnext⟩, -⟩ := (mem_potentialNextBlocks pb₀ _ _ _ hpot next).mp
        (List.mem_of_mem_head? hhead)
      exact hreads g next hnext
    · exact hreads g block hg

end BeforeCleanup

section Ticks
variable [Crates] {CS : Type}

/-- The results with which the node takes the state of the synchronization back. -/
def SavesState : Res EngineError Unit → Prop
  | .ok _ => True
  | .error (.error .outOfSync) => True
  | .error _ => False

instance (r : Res EngineError Unit) : Decidable (SavesState r) := by
  unfold SavesState
  split <;> infer_instance

def Node.cleanupMark (n : Node CS) : Option (ℕ × ℕ) := n.syncState.pendingLastCleanupBlock

theorem node_call_mark (n : Node CS) (x : Action (CommitState CS) EngineError Unit) :
    (n.call x).cleanupMark =
      if SavesState (x n.state).1 then Engine.cleanupMark (x n.state).2 else n.cleanupMark := by
  rw [Node.cleanupMark, Node.call]
  rcases x n.state with ⟨(e | _) | u, s⟩
  · cases e <;> rfl
  · rfl
  · rfl

/-- A tick of the commit manager, with what the two stores have by then. -/
structure CleanupTick (CS : Type) where
  input : TickInput
  pendingStore : MemoryPendingStore
  chainStore : CS

def CleanupTick.start (t : CleanupTick CS) (n : Node CS) : Node CS :=
  ⟨n.syncState, t.pendingStore, t.chainStore⟩

variable [ChainStore CS] (e : Inner)

/-- What a cleanup that ends on this header leaves is in the chain, deep enough, and not below what
was left before. -/
structure HeaderMoves (depth : ℕ) (old : Option (ℕ × ℕ)) (chain : CS) (last : ℕ)
    (header : BlockHeader) : Prop where
  inChain : heightAt chain header.offset = some header.height
  notBelow : ∀ offset height, old = some (offset, height) → height ≤ header.height
  /-- A proposal from above the chain only counts as deep where no depth is asked for. -/
  notAbove : depth = 0 → header.height ≤ last

def Inner.cleanupDepth : ℕ := e.commitManager.config.operationsCleanupAfterBlockDepth

def cleanupStep (n : Node CS) (t : CleanupTick CS) : Node CS :=
  e.step (t.start n) (.commitTick t.input)

/-- The chain only grows up to the tick, and in it. -/
structure ChainGrows (n : Node CS) (t : CleanupTick CS) : Prop where
  before : Grows n.chainStore t.chainStore
  during : Grows t.chainStore (cleanupStep e n t).chainStore

/-- The mark does not move back, and is that of a deep block of the chain. -/
structure MarkMoves (n : Node CS) (t : CleanupTick CS) : Prop where
  notBelow : NotBelow n.cleanupMark (cleanupStep e n t).cleanupMark
  fits : MarkFits e.cleanupDepth (cleanupStep e n t).chainStore (cleanupStep e n t).cleanupMark

/-- Of the proposals that the cleanup takes, the last in the order of the hash map does not move
the mark to where it must not be. -/
def CleansForward (n : Node CS) (t : CleanupTick CS) : Prop :=
  ∀ pb s₁, e.commitManager.beforeCleanup e.pendingSynchronizer t.input (t.start n).state =
      (.ok pb, s₁) →
    SavesState (e.commitManager.tick e.pendingSynchronizer t.input (t.start n).state).1 →
    ∀ last header, lastBlockHeight s₁.chainStore = some last →
      lastCleaned e.commitManager last (pb.inOrder t.input.blocksOrder) = some header →
      HeaderMoves e.cleanupDepth n.cleanupMark s₁.chainStore last header

theorem lastCleaned_deep (m : CommitManager) (last : ℕ) (blocks : List PendingBlock)
    (header : BlockHeader) (h : lastCleaned m last blocks = some header) :
    m.config.operationsCleanupAfterBlockDepth ≤ last - header.height := by
  obtain ⟨block, -, hblock⟩ := List.mem_filterMap.mp (List.mem_of_getLast? h)
  rw [cleanedHeader] at hblock
  split_ifs at hblock
  exact of_decide_eq_true (Option.filter_eq_some_iff.mp hblock).2

omit [Crates] in
/-- The new mark is as it must be if and only if the header it is read from is. -/
theorem headerMoves_iff (depth : ℕ) (old : Option (ℕ × ℕ)) (chain : CS) (last : ℕ)
    (header : BlockHeader) (hlast : lastBlockHeight chain = some last)
    (hdeep : depth ≤ last - header.height) :
    NotBelow old (some (markOf header)) ∧ MarkFits depth chain (some (markOf header)) ↔
      HeaderMoves depth old chain last header := by
  constructor
  · rintro ⟨hnot, hfits⟩
    obtain ⟨hat, last', hlast', hle⟩ := hfits header.offset header.height rfl
    obtain rfl := Option.some.inj (hlast.symm.trans hlast')
    refine ⟨hat, ?_, ?_⟩
    · intro offset height hold
      obtain ⟨offset', height', hnew, hle⟩ := hnot offset height hold
      obtain ⟨-, rfl⟩ := Prod.mk.inj (Option.some.inj hnew)
      exact hle
    · intro _
      omega
  · intro h
    refine ⟨?_, ?_⟩
    · intro offset height hold
      exact ⟨header.offset, header.height, rfl, h.notBelow offset height hold⟩
    · intro offset height hnew
      obtain ⟨rfl, rfl⟩ := Prod.mk.inj (Option.some.inj hnew)
      refine ⟨h.inChain, last, hlast, ?_⟩
      by_cases hzero : depth = 0
      · have hle := h.notAbove hzero
        omega
      · omega

theorem cleanupStep_moves_iff (n : Node CS) (t : CleanupTick CS)
    (hn : MarkFits e.cleanupDepth n.chainStore n.cleanupMark) (hgrows : ChainGrows e n t) :
    MarkMoves e n t ↔ CleansForward e n t := by
  have hsame (h : (cleanupStep e n t).cleanupMark = n.cleanupMark) : MarkMoves e n t := by
    refine ⟨?_, ?_⟩
    · rw [h]
      exact NotBelow.refl _
    · rw [h]
      exact (hn.grows hgrows.before).grows hgrows.during
  have hmark := node_call_mark (t.start n)
    (e.commitManager.tick e.pendingSynchronizer t.input : Action (CommitState CS) _ _)
  have hchain : (cleanupStep e n t).chainStore =
      (e.commitManager.tick e.pendingSynchronizer t.input (t.start n).state).2.chainStore := rfl
  have hkeeps := keeps_beforeCleanup e.commitManager e.pendingSynchronizer t.input
    (t.start n).state
  have htick := tick_eq_cleanup e.commitManager e.pendingSynchronizer t.input (t.start n).state
  rcases Action.bind_cases (e.commitManager.beforeCleanup e.pendingSynchronizer t.input)
    (e.commitManager.maybeCleanupPendingStore t.input) (t.start n).state with
    ⟨err, s₁, hbefore, hbind⟩ | ⟨pb, s₁, hbefore, hbind⟩
  · -- the tick ends before its cleanup
    refine iff_of_true (hsame ?_) ?_
    · rw [htick, hbind] at hmark
      rw [hbefore] at hkeeps
      exact hmark.trans (by rw [hkeeps]; exact ite_self _)
    · intro pb s₁' h
      rw [hbefore] at h
      exact absurd (congrArg Prod.fst h) (by simp)
  · rw [hbefore] at hkeeps
    have hold : cleanupMark s₁ = n.cleanupMark := hkeeps
    have hnew := maybeCleanupPendingStore_mark e.commitManager t.input pb
      (beforeCleanup_reads e.commitManager e.pendingSynchronizer t.input _ _ pb hbefore) s₁
    rw [hold] at hnew
    have hstays : (cleanupStep e n t).chainStore = s₁.chainStore := by
      rw [hchain, htick, hbind]
      exact maybeCleanupPendingStore_keepsChain e.commitManager t.input pb s₁
    by_cases hsaves : SavesState
        (e.commitManager.tick e.pendingSynchronizer t.input (t.start n).state).1
    · rw [if_pos hsaves, htick, hbind] at hmark
      have hstep : (cleanupStep e n t).cleanupMark = _ := hmark.trans hnew
      cases hcleaned : (lastBlockHeight s₁.chainStore).bind fun last =>
          lastCleaned e.commitManager last (pb.inOrder t.input.blocksOrder) with
      | none =>
        rw [hcleaned] at hstep
        refine iff_of_true (hsame hstep) ?_
        intro pb' s' hbefore' _ last header hlast hheader
        obtain ⟨hpb, rfl⟩ := Prod.mk.inj (hbefore.symm.trans hbefore')
        obtain rfl := Except.ok.inj hpb
        rw [hlast, Option.bind_some, hheader] at hcleaned
        contradiction
      | some header =>
        rw [hcleaned] at hstep
        have hstep' : (cleanupStep e n t).cleanupMark = some (markOf header) := hstep
        obtain ⟨last, hlast, hheader⟩ := Option.bind_eq_some_iff.mp hcleaned
        have hiff := headerMoves_iff e.cleanupDepth n.cleanupMark s₁.chainStore last header hlast
          (lastCleaned_deep e.commitManager last _ header hheader)
        rw [← hstays, ← hstep'] at hiff
        constructor
        · intro hmoves pb' s' hbefore' _ last' header' hlast' hheader'
          obtain ⟨hpb, rfl⟩ := Prod.mk.inj (hbefore.symm.trans hbefore')
          obtain rfl := Except.ok.inj hpb
          obtain rfl := Option.some.inj (hlast.symm.trans hlast')
          obtain rfl := Option.some.inj (hheader.symm.trans hheader')
          rw [← hstays]
          exact hiff.mp ⟨hmoves.notBelow, hmoves.fits⟩
        · intro hforward
          have hheader := hforward pb s₁ hbefore hsaves last header hlast hheader
          rw [← hstays] at hheader
          obtain ⟨hnot, hfits⟩ := hiff.mpr hheader
          exact ⟨hnot, hfits⟩
    · rw [if_neg hsaves] at hmark
      refine iff_of_true (hsame hmark) ?_
      intro pb' s' _ hsaves'
      exact absurd hsaves' hsaves

/-- Over a chain that only grows, no tick moves the mark back or off the deep blocks of the chain
if and only if each ends its cleanup on a header that does not. -/
theorem cleanupMark_moves_iff (n : Node CS)
    (hn : MarkFits e.cleanupDepth n.chainStore n.cleanupMark) (ticks : List (CleanupTick CS))
    (hgrows : Run.Allowed (cleanupStep e) (ChainGrows e) n ticks) :
    Run.Allowed (cleanupStep e) (MarkMoves e) n ticks ↔
      Run.Allowed (cleanupStep e) (CleansForward e) n ticks := by
  have hiff := Run.allowed_congr (cleanupStep e) (fun n t => ChainGrows e n t ∧ MarkMoves e n t)
    (fun n t => ChainGrows e n t ∧ CleansForward e n t)
    (fun n => MarkFits e.cleanupDepth n.chainStore n.cleanupMark)
    (fun n t hn => and_congr_right fun h => cleanupStep_moves_iff e n t hn h)
    (fun n t _ h => h.2.fits) n ticks hn
  rw [Run.allowed_and_iff, Run.allowed_and_iff] at hiff
  exact (and_congr_right_iff.mp hiff) hgrows

/-- A tick that has no candidate leaves the chain. -/
theorem chainGrows_of_none (n : Node CS) (t : CleanupTick CS)
    (hsame : t.chainStore = n.chainStore)
    (hnone : bestNextBlock e.commitManager t.input (t.start n).state = none) :
    ChainGrows e n t := by
  have hchain : (cleanupStep e n t).chainStore = t.chainStore := by
    rcases tick_chainStore e.commitManager e.pendingSynchronizer t.input (t.start n).state with
      h | ⟨pb, next, rest, -, -, -, -, -, hnew, hpot, -⟩
    · exact h
    · simp only [bestNextBlock, hnew, hpot, List.head?_cons, Option.map_some] at hnone
      contradiction
  refine ⟨?_, ?_⟩
  · rw [hsame]
    exact Grows.refl _
  · rw [hchain]
    exact Grows.refl _

end Ticks

section Samples

attribute [local instance] commitCrates

/-- The proposals are cleaned up as soon as their block is in the chain. -/
def promptEngine : Inner := ⟨sampleSynchronizer, ⟨⟨0, 10, 3000000000, 7000000000⟩, twoNodes⟩⟩

def nextStore : MemoryPendingStore :=
  MemoryPendingStore.new.insertOperation nextFrame
    (proposeOperation nextHeader nextHeaderMultihash) .blockPropose nextFrame_reader
    nextFrame_type

/-- The last block was the last to be cleaned up. -/
def committedNode : Node DirectoryChainStore := ⟨⟨some (1038, 3)⟩, .new, committedChain⟩

/-- A peer that has not cleaned up yet has sent the first of the two proposals again. -/
def sentAgain : CleanupTick DirectoryChainStore := ⟨tickAt 310, nextStore, committedChain⟩

/-- What the tick reads in the chain, that it has no candidate, and the mark it leaves. -/
theorem sentAgain_reads :
    heightAt committedChain 1038 = some 3 ∧ lastBlockHeight committedChain = some 3 ∧
      (bestNextBlock promptEngine.commitManager sentAgain.input
        (sentAgain.start committedNode).state).isNone ∧
      (cleanupStep promptEngine committedNode sentAgain).cleanupMark = some (254, 2) := by
  decide +kernel

theorem committedNode_fits :
    MarkFits promptEngine.cleanupDepth committedNode.chainStore committedNode.cleanupMark := by
  obtain ⟨hat, hlast, -⟩ := sentAgain_reads
  intro offset height hmark
  obtain ⟨rfl, rfl⟩ := Prod.mk.inj (Option.some.inj hmark)
  simp only [committedNode]
  exact ⟨hat, 3, hlast, le_rfl⟩

theorem sentAgain_grows : ChainGrows promptEngine committedNode sentAgain := by
  obtain ⟨-, -, hnone, -⟩ := sentAgain_reads
  apply chainGrows_of_none promptEngine committedNode sentAgain
  · simp only [sentAgain, committedNode]
  · exact Option.isNone_iff_eq_none.mp hnone

/-- The mark goes back from the third block to the second. -/
theorem sentAgain_goes_back : ¬ MarkMoves promptEngine committedNode sentAgain := by
  intro hmoves
  obtain ⟨-, -, -, hmark⟩ := sentAgain_reads
  obtain ⟨offset, height, hnew, hle⟩ := hmoves.notBelow 1038 3 rfl
  rw [hmark] at hnew
  obtain ⟨-, rfl⟩ := Prod.mk.inj (Option.some.inj hnew)
  omega

theorem sentAgain_moves_back :
    MarkFits promptEngine.cleanupDepth committedNode.chainStore committedNode.cleanupMark ∧
      Run.Allowed (cleanupStep promptEngine) (ChainGrows promptEngine) committedNode [sentAgain] ∧
      ¬ Run.Allowed (cleanupStep promptEngine) (MarkMoves promptEngine) committedNode
        [sentAgain] :=
  ⟨committedNode_fits, ⟨sentAgain_grows, trivial⟩, fun h => sentAgain_goes_back h.1⟩

/-- The condition fails at that tick as well. -/
theorem sentAgain_not_forward :
    ¬ Run.Allowed (cleanupStep promptEngine) (CleansForward promptEngine) committedNode
      [sentAgain] := by
  rw [← cleanupMark_moves_iff promptEngine committedNode committedNode_fits [sentAgain]
    ⟨sentAgain_grows, trivial⟩]
  exact fun h => sentAgain_goes_back h.1

end Samples

end Exocore.Engine
