import Exocore.CommitBlockSpec
import Exocore.CommitManager

/-! What each call of the commit manager does to the pending store and to the chain. -/
namespace Exocore.Engine

open Exocore.Core Exocore.Chain Exocore.Pending SortedMap

section PendingCalls
variable [Crates]

theorem sendNewOperation_store (p : PendingSynchronizer) (operationId : ℕ) (nodes : List NodeId)
    (st : PendingState) : (p.sendNewOperation operationId nodes st).2.store = st.store := by
  induction nodes generalizing st with
  | nil => rfl
  | cons node rest ih =>
    rw [PendingSynchronizer.sendNewOperation, Action.get_bind]
    rcases Action.lift_bind_cases (p.createSyncRequestForRange st.syncContext st.store
      (.included operationId, .unbounded) (PendingSynchronizer.newOperationDetails operationId))
      (fun request => do
        pushPendingSyncRequest node request
        p.sendNewOperation operationId rest) st with ⟨e, -, h⟩ | ⟨request, -, h⟩
    · rw [h]
    · rw [h]
      exact ih _

/-- A new operation is put in the store, or the call has failed and the store is as before. -/
theorem handleNewOperation_store (p : PendingSynchronizer) (operation : NewOperation)
    (st : PendingState) :
    ((∃ e, (p.handleNewOperation operation st).1 = .error e) ∧
        (p.handleNewOperation operation st).2.store = st.store) ∨
      ∃ existed store', st.store.putOperation operation = .ok (existed, store') ∧
        (p.handleNewOperation operation st).2.store = store' := by
  rw [PendingSynchronizer.handleNewOperation]
  rcases Action.lift_bind_cases (liftError .operation operation.frame.getReader) (fun reader => do
      let _ ← putOperation operation
      pushEvent (.newPendingOperation reader.operationId)
      p.sendNewOperation reader.operationId p.otherChainNodes) st with ⟨e, -, h⟩ | ⟨reader, -, h⟩
  · left
    rw [h]
    exact ⟨⟨e, rfl⟩, rfl⟩
  · rw [h, Action.bind_apply, putOperation]
    cases hput : st.store.putOperation operation with
    | error e =>
      left
      exact ⟨⟨e.map .pendingStore, rfl⟩, rfl⟩
    | ok r =>
      obtain ⟨existed, store'⟩ := r
      right
      refine ⟨existed, store', rfl, ?_⟩
      exact sendNewOperation_store p reader.operationId p.otherChainNodes _

end PendingCalls

section Calls
variable [Crates] {CS : Type}

@[simp] theorem onPending_chainStore {A : Type} (x : Action PendingState EngineError A)
    (s : CommitState CS) : (onPending x s).2.chainStore = s.chainStore := rfl

theorem onPending_pendingStore {A : Type} (x : Action PendingState EngineError A)
    (s : CommitState CS) :
    (onPending x s).2.pendingStore = (x ⟨s.syncContext, s.pendingStore⟩).2.store := rfl

theorem deleteOperations_eq (ids : List ℕ) (s : CommitState CS) :
    deleteOperations ids s = (.ok (), { s with
      pendingStore := ids.foldl MemoryPendingStore.deleteOperation s.pendingStore }) := by
  induction ids generalizing s with
  | nil => rfl
  | cons id rest ih =>
    rw [deleteOperations, Action.bind_apply]
    exact ih _

theorem updateCommitStatuses_chainStore (status : CommitStatus) (ids : List ℕ)
    (s : CommitState CS) : (updateCommitStatuses status ids s).2.chainStore = s.chainStore := by
  induction ids generalizing s with
  | nil => rfl
  | cons id rest ih =>
    rw [updateCommitStatuses, Action.bind_apply, updateOperationCommitStatus]
    cases s.pendingStore.updateOperationCommitStatus id status with
    | error e => rfl
    | ok store => exact ih _

end Calls

section Manager
variable [Crates] {CS : Type} [ChainStore CS] (m : CommitManager) (p : PendingSynchronizer)
  (i : TickInput)

/-- The signature or the refusal of a candidate, with the candidate that has it. -/
def createAnswer (sign : Bool) (next : PendingBlock) : Res EngineError (NewOperation × PendingBlock) :=
  if sign then createBlockSignature m.cell.localNode i.signatureTime next
  else createBlockRefusal m.cell.localNode i.signatureTime next

def putAnswer (answer : Res EngineError (NewOperation × PendingBlock)) :
    Action (CommitState CS) EngineError PendingBlock := do
  let created ← Action.lift answer
  onPending (p.handleNewOperation created.1)
  pure created.2

/-- A candidate is left as it is, or the check of it stops the tick, or it gets its answer. -/
theorem signNextBlock_cases (pb : PendingBlocks) (next : PendingBlock) (s : CommitState CS) :
    m.signNextBlock p i pb next s = (.ok next, s) ∨
      next.hasMySignature = false ∧ next.hasMyRefusal = false ∧
        ((∃ e, checkShouldSignBlock pb s.chainStore s.pendingStore i.operationBlocksOrder
            next.groupId = .error e ∧ m.signNextBlock p i pb next s = (.error e, s)) ∨
          ∃ sign, checkShouldSignBlock pb s.chainStore s.pendingStore i.operationBlocksOrder
              next.groupId = .ok sign ∧
            m.signNextBlock p i pb next s = putAnswer p (createAnswer m i sign next) s) := by
  rw [CommitManager.signNextBlock]
  split_ifs with hunknown
  · rw [Bool.and_eq_true, Bool.not_eq_true', Bool.not_eq_true'] at hunknown
    rw [CommitManager.signOrRefuseBlock, Action.get_bind]
    cases checkShouldSignBlock pb s.chainStore s.pendingStore i.operationBlocksOrder
        next.groupId with
    | ok sign =>
      right
      refine ⟨hunknown.1, hunknown.2, Or.inr ⟨sign, rfl, ?_⟩⟩
      cases sign <;> rfl
    | error e =>
      cases e with
      | panic => exact Or.inr ⟨hunknown.1, hunknown.2, Or.inl ⟨_, rfl, rfl⟩⟩
      | error e =>
        simp only
        split_ifs
        · exact Or.inr ⟨hunknown.1, hunknown.2, Or.inl ⟨_, rfl, rfl⟩⟩
        · exact Or.inl rfl
  · exact Or.inl rfl

section Keeps
variable {V : Type} {view : CommitState CS → V}
  (hput : ∀ operation, Action.Keeps view (onPending (p.handleNewOperation operation)))

include hput in
/-- What a new operation leaves as it is, a signature or a refusal does. -/
theorem keeps_signNextBlock (pb : PendingBlocks) (block : PendingBlock) :
    Action.Keeps view (m.signNextBlock p i pb block) := by
  have hanswer (answer : Res EngineError (NewOperation × PendingBlock)) :
      Action.Keeps view (putAnswer p answer) := by
    apply Action.keeps_bind _ _ _ (Action.keeps_lift _ _)
    intro created
    exact Action.keeps_bind _ _ _ (hput _) fun _ => Action.keeps_pure _ _
  intro s
  rcases signNextBlock_cases m p i pb block s with h | ⟨-, -, ⟨e, -, h⟩ | ⟨sign, -, h⟩⟩
  · rw [h]
  · rw [h]
  · rw [h, hanswer]

include hput in
theorem keeps_maybeProposeBlock (pb : PendingBlocks) :
    Action.Keeps view (m.maybeProposeBlock p i pb) := by
  apply Action.keeps_bind _ _ _ (Action.keeps_get _)
  intro s
  apply Action.keeps_bind _ _ _ (Action.keeps_lift _ _)
  intro shouldPropose
  split_ifs
  · apply Action.keeps_bind _ _ _ (Action.keeps_get _)
    intro s
    apply Action.keeps_bind _ _ _ (Action.keeps_lift _ _)
    intro operation
    cases operation with
    | none => exact Action.keeps_pure _ ()
    | some operation => exact hput operation
  · exact Action.keeps_pure _ ()

end Keeps

theorem signNextBlock_keepsChain (pb : PendingBlocks) (block : PendingBlock) :
    Action.Keeps (CommitState.chainStore : CommitState CS → CS) (m.signNextBlock p i pb block) :=
  keeps_signNextBlock m p i (fun _ _ => rfl) pb block

theorem maybeProposeBlock_keepsChain (pb : PendingBlocks) :
    Action.Keeps (CommitState.chainStore : CommitState CS → CS) (m.maybeProposeBlock p i pb) :=
  keeps_maybeProposeBlock m p i (fun _ _ => rfl) pb

/-- What the cleanup does to the state: it deletes operations, and notes the block. -/
structure OnlyDeletes (s s' : CommitState CS) : Prop where
  chainStore : s'.chainStore = s.chainStore
  events : s'.syncContext.events = s.syncContext.events
  messages : s'.syncContext.messages = s.syncContext.messages
  pendingStore : ∃ ids : List ℕ,
    s'.pendingStore = ids.foldl MemoryPendingStore.deleteOperation s.pendingStore

section Cleanup
omit [ChainStore CS]

theorem OnlyDeletes.refl (s : CommitState CS) : OnlyDeletes s s := ⟨rfl, rfl, rfl, [], rfl⟩

theorem OnlyDeletes.trans {s s' s'' : CommitState CS} (h : OnlyDeletes s s')
    (h' : OnlyDeletes s' s'') : OnlyDeletes s s'' := by
  obtain ⟨ids, hids⟩ := h.pendingStore
  obtain ⟨ids', hids'⟩ := h'.pendingStore
  refine ⟨h'.chainStore.trans h.chainStore, h'.events.trans h.events,
    h'.messages.trans h.messages, ids ++ ids', ?_⟩
  rw [hids', hids, List.foldl_append]

theorem OnlyDeletes.bind {A B : Type} (x : Action (CommitState CS) EngineError A)
    (f : A → Action (CommitState CS) EngineError B) (s : CommitState CS)
    (hx : OnlyDeletes s (x s).2) (hf : ∀ a s', OnlyDeletes s' (f a s').2) :
    OnlyDeletes s ((x >>= f) s).2 :=
  Action.bind_keeps_snd (OnlyDeletes s) x f s hx fun a => hx.trans (hf a _)

theorem onlyDeletes_deleteOperations (ids : List ℕ) (s : CommitState CS) :
    OnlyDeletes s (deleteOperations ids s).2 := by
  rw [deleteOperations_eq]
  exact ⟨rfl, rfl, rfl, ids, rfl⟩

end Cleanup

omit [ChainStore CS] in
theorem cleanupBlock_onlyDeletes (lastHeight : ℕ) (block : PendingBlock) (s : CommitState CS) :
    OnlyDeletes s (m.cleanupBlock lastHeight block s).2 := by
  rw [CommitManager.cleanupBlock]
  split
  · refine OnlyDeletes.bind _ _ s (.refl s) fun frame s => ?_
    refine OnlyDeletes.bind _ _ s (.refl s) fun header s => ?_
    split
    · refine OnlyDeletes.bind _ _ s ⟨rfl, rfl, rfl, [block.groupId], rfl⟩ fun _ s => ?_
      split
      · exact OnlyDeletes.bind _ _ s (onlyDeletes_deleteOperations block.operations s)
          fun _ _ => ⟨rfl, rfl, rfl, [], rfl⟩
      -- the operations of a refused block stay
      · exact ⟨rfl, rfl, rfl, [], rfl⟩
    · exact .refl s
  · exact .refl s

omit [ChainStore CS] in
theorem cleanupBlocks_onlyDeletes (lastHeight : ℕ) (blocks : List PendingBlock)
    (s : CommitState CS) : OnlyDeletes s (m.cleanupBlocks lastHeight blocks s).2 := by
  induction blocks generalizing s with
  | nil => exact .refl s
  | cons block rest ih =>
    exact OnlyDeletes.bind _ _ s (cleanupBlock_onlyDeletes m lastHeight block s) fun _ => ih

theorem maybeCleanupPendingStore_onlyDeletes (pb : PendingBlocks) (s : CommitState CS) :
    OnlyDeletes s (m.maybeCleanupPendingStore i pb s).2 := by
  refine OnlyDeletes.bind _ _ s (.refl s) fun _ s => ?_
  refine OnlyDeletes.bind _ _ s (.refl s) fun _ s => ?_
  refine OnlyDeletes.bind _ _ s (.refl s) fun _ s => ?_
  refine OnlyDeletes.bind _ _ s (.refl s) fun height s => ?_
  refine OnlyDeletes.bind _ _ s (cleanupBlocks_onlyDeletes m height _ s) fun _ s => ?_
  rw [CommitManager.cleanupDangling]
  split_ifs
  · refine OnlyDeletes.bind _ _ s (.refl s) fun _ s => ?_
    refine OnlyDeletes.bind _ _ s (.refl s) fun _ s => ?_
    exact OnlyDeletes.bind _ _ s (.refl s) fun ids s => onlyDeletes_deleteOperations ids s
  · exact .refl s

theorem maybeCleanupPendingStore_keepsChain (pb : PendingBlocks) :
    Action.Keeps (CommitState.chainStore : CommitState CS → CS)
      (m.maybeCleanupPendingStore i pb) :=
  fun s => (maybeCleanupPendingStore_onlyDeletes m i pb s).chainStore

/-- A commit leaves the chain, or hands the block it has built to the chain store. -/
theorem commitBlock_chainStore (block : PendingBlock) (s : CommitState CS) :
    ((∃ e, buildChainBlock m.cell block s.pendingStore s.chainStore = .error e) ∧
        (m.commitBlock block s).2 = s) ∨
      ∃ b header ops,
        buildChainBlock m.cell block s.pendingStore s.chainStore = .ok (b, header, ops) ∧
        (m.commitBlock block s).2.chainStore = (ChainStore.writeBlock s.chainStore b).2 := by
  rw [CommitManager.commitBlock, Action.get_bind]
  cases hbuild : buildChainBlock m.cell block s.pendingStore s.chainStore with
  | error e =>
    left
    exact ⟨⟨e, rfl⟩, rfl⟩
  | ok r =>
    obtain ⟨b, header, ops⟩ := r
    right
    refine ⟨b, header, ops, rfl, ?_⟩
    simp only [Action.lift_ok_bind]
    cases hwrite : ChainStore.writeBlock s.chainStore b with
    | mk res chainStore =>
      cases res with
      | error e =>
        cases e with
        | panic => rfl
        | error e =>
          cases e <;> rfl
      | ok next =>
        exact Action.keeps_bind CommitState.chainStore _ _ (updateCommitStatuses_chainStore _ _)
          (fun _ _ => rfl) { s with chainStore := chainStore }

theorem maybeCommitBlock_chainStore (block : PendingBlock) (s : CommitState CS) :
    (m.maybeCommitBlock block s).2.chainStore = s.chainStore ∨
      block.hasMySignature = true ∧
      m.cell.hasQuorum (block.signatures.filter (block.validateSignature m.cell)).length
        (some .chain) = true ∧
      ∃ b header ops,
        buildChainBlock m.cell block s.pendingStore s.chainStore = .ok (b, header, ops) ∧
        (m.maybeCommitBlock block s).2.chainStore = (ChainStore.writeBlock s.chainStore b).2 := by
  rw [CommitManager.maybeCommitBlock]
  split_ifs with hcommit
  · rw [Bool.and_eq_true] at hcommit
    rcases commitBlock_chainStore m block s with ⟨-, hsame⟩ | ⟨b, header, ops, hbuild, hwrite⟩
    · left
      rw [hsame]
    · right
      exact ⟨hcommit.1, hcommit.2, b, header, ops, hbuild, hwrite⟩
  · left
    rfl

/-- A tick writes at most one block: the best of the next blocks, signed by this node and by
enough others, as it was built from the two stores. -/
theorem tick_chainStore (s : CommitState CS) :
    (m.tick p i s).2.chainStore = s.chainStore ∨
      ∃ pb next rest signed s₁ b header ops,
        PendingBlocks.new m.config i.now m.cell s.pendingStore s.chainStore = .ok pb ∧
        pb.potentialNextBlocks i.blocksOrder i.sorter = .ok (next :: rest) ∧
        m.signNextBlock p i pb next s = (.ok signed, s₁) ∧ s₁.chainStore = s.chainStore ∧
        signed.hasMySignature = true ∧
        m.cell.hasQuorum (signed.signatures.filter (signed.validateSignature m.cell)).length
          (some .chain) = true ∧
        buildChainBlock m.cell signed s₁.pendingStore s.chainStore = .ok (b, header, ops) ∧
        (m.tick p i s).2.chainStore = (ChainStore.writeBlock s.chainStore b).2 := by
  rw [CommitManager.tick, Action.get_bind]
  cases hnew : PendingBlocks.new m.config i.now m.cell s.pendingStore s.chainStore with
  | error e => exact Or.inl rfl
  | ok pb =>
    simp only [Action.lift_ok_bind]
    cases hpot : pb.potentialNextBlocks i.blocksOrder i.sorter with
    | error e => exact Or.inl rfl
    | ok potential =>
      simp only [Action.lift_ok_bind]
      cases potential with
      | nil =>
        left
        exact Action.keeps_bind _ _ _ (maybeProposeBlock_keepsChain m p i pb)
          (fun _ => maybeCleanupPendingStore_keepsChain m i pb) s
      | cons next rest =>
        have hkeep : (m.signNextBlock p i pb next s).2.chainStore = s.chainStore :=
          signNextBlock_keepsChain m p i pb next s
        simp only [List.head?_cons]
        rcases Action.bind_cases (m.signNextBlock p i pb next) (fun nextBlock => do
          m.maybeCommitBlock nextBlock
          m.maybeCleanupPendingStore i (pb.setBlock nextBlock)) s with
          ⟨e, s₁, hsign, h⟩ | ⟨signed, s₁, hsign, h⟩
        · left
          rw [hsign] at hkeep
          rw [h]
          exact hkeep
        · rw [hsign] at hkeep
          rw [h]
          have hclean : ((m.maybeCommitBlock signed >>= fun _ =>
              m.maybeCleanupPendingStore i (pb.setBlock signed)) s₁).2.chainStore =
              (m.maybeCommitBlock signed s₁).2.chainStore := by
            rcases Action.bind_cases (m.maybeCommitBlock signed) (fun _ =>
              m.maybeCleanupPendingStore i (pb.setBlock signed)) s₁ with
              ⟨e, s₂, hcommit, h⟩ | ⟨u, s₂, hcommit, h⟩
            · rw [h, hcommit]
            · rw [h, hcommit]
              exact maybeCleanupPendingStore_keepsChain m i _ s₂
          rw [hclean]
          rcases maybeCommitBlock_chainStore m signed s₁ with
            hsame | ⟨hmine, hquorum, b, header, ops, hbuild, hwrite⟩
          · left
            rw [hsame]
            exact hkeep
          · right
            rw [hkeep] at hbuild hwrite
            exact ⟨pb, next, rest, signed, s₁, b, header, ops, rfl, hpot, hsign, hkeep, hmine,
              hquorum, hbuild, hwrite⟩

end Manager

end Exocore.Engine
