import Exocore.EngineAnnounce
import Exocore.CommitCleanup

/-! What the commit manager puts in the context of a tick: an event for each operation that it
signs, refuses or proposes with, and for each block that it writes. -/
namespace Exocore.Engine

open Exocore.Core Exocore.Chain Exocore.Pending

variable [Crates] {CS A B : Type} {known : NodeId → Prop}

def CommitState.view (s : CommitState (Recorded CS)) : View :=
  ⟨s.syncContext, s.pendingStore, s.chainStore.written⟩

/-- A call that leaves the events, the messages and the chain, and puts nothing in the store. -/
def OnlyRemoves (x : Action (CommitState (Recorded CS)) EngineError A) : Prop :=
  ∀ s, (x s).2.syncContext.events = s.syncContext.events ∧
    (x s).2.syncContext.messages = s.syncContext.messages ∧
    (x s).2.chainStore = s.chainStore ∧
    ∀ id, ((x s).2.pendingStore.getOperation id).isSome = true →
      (s.pendingStore.getOperation id).isSome = true

theorem OnlyRemoves.announcing {x : Action (CommitState (Recorded CS)) EngineError A}
    (h : OnlyRemoves x) : Announcing known CommitState.view x := by
  intro s _
  obtain ⟨hevents, hmessages, hchain, hstore⟩ := h s
  refine announces_of_same hevents hstore (congrArg Recorded.written hchain) ?_
  intro m hm
  have hm' : m ∈ (x s).2.syncContext.messages := hm
  rw [hmessages] at hm'
  exact Or.inl hm'

theorem announcing_onPending (x : Action PendingState EngineError A)
    (hx : ∀ written, Announcing known (PendingState.view written) x) :
    Announcing known CommitState.view
      (onPending x : Action (CommitState (Recorded CS)) EngineError A) :=
  fun s hend => hx s.chainStore.written ⟨s.syncContext, s.pendingStore⟩ hend

/-- A change of the commit status leaves which operations there are. -/
theorem onlyRemoves_updateCommitStatuses (status : CommitStatus) (ids : List ℕ) :
    OnlyRemoves (updateCommitStatuses status ids :
      Action (CommitState (Recorded CS)) EngineError Unit) := by
  induction ids with
  | nil => exact fun s => ⟨rfl, rfl, rfl, fun _ h => h⟩
  | cons id rest ih =>
    intro s
    rw [updateCommitStatuses, Action.bind_apply, updateOperationCommitStatus]
    cases hupdate : s.pendingStore.updateOperationCommitStatus id status with
    | error e => exact ⟨rfl, rfl, rfl, fun _ h => h⟩
    | ok store =>
      obtain ⟨-, -, hget⟩ := s.pendingStore.updateOperationCommitStatus_eq_ok store id status hupdate
      obtain ⟨hevents, hmessages, hchain, hstore⟩ := ih { s with pendingStore := store }
      refine ⟨hevents, hmessages, hchain, ?_⟩
      intro t hsome
      have hmid := hstore t hsome
      have hmap := congrArg Option.isSome (hget t)
      simp only [Option.isSome_map] at hmap
      rwa [hmap] at hmid

/-- The errors of the pending store are not those of a chain that is out of sync. -/
theorem updateCommitStatuses_not_endsWell (status : CommitStatus) (ids : List ℕ)
    (s : CommitState CS) (e : Fault EngineError) (s' : CommitState CS)
    (h : updateCommitStatuses status ids s = (.error e, s')) :
    ¬ EndsWell (.error e : Res EngineError Unit) := by
  induction ids generalizing s with
  | nil => exact absurd (congrArg Prod.fst h) (by simp [updateCommitStatuses])
  | cons id rest ih =>
    rw [updateCommitStatuses, Action.bind_apply, updateOperationCommitStatus] at h
    cases hupdate : s.pendingStore.updateOperationCommitStatus id status with
    | error e' =>
      simp only [hupdate] at h
      have he : Fault.map EngineError.pendingStore e' = e := Except.error.inj (congrArg Prod.fst h)
      rintro (⟨a, ha⟩ | hout)
      · contradiction
      · rw [← he] at hout
        cases e' <;> simp [Fault.map] at hout
    | ok store =>
      simp only [hupdate] at h
      exact ih _ h

section Manager
variable [ChainRangeStore CS] (m : CommitManager) (p : PendingSynchronizer) (i : TickInput)

theorem announcing_signNextBlock (hnodes : ∀ node ∈ p.otherChainNodes, known node)
    (pb : PendingBlocks) (block : PendingBlock) :
    Announcing known (CommitState.view : CommitState (Recorded CS) → View)
      (m.signNextBlock p i pb block) := by
  have hput : ∀ (created : Res EngineError (NewOperation × PendingBlock)),
      Announcing known (CommitState.view : CommitState (Recorded CS) → View) (do
        let signed ← Action.lift created
        onPending (p.handleNewOperation signed.1)
        pure signed.2) := by
    intro created
    apply announcing_bind _ _ (announcing_lift _)
    intro signed
    exact announcing_bind _ _
      (announcing_onPending _ fun _ => announcing_handleNewOperation p signed.1 hnodes)
      fun _ => announcing_pure _
  rw [CommitManager.signNextBlock]
  split_ifs
  · rw [CommitManager.signOrRefuseBlock]
    apply announcing_bind _ _ announcing_get
    intro s
    split
    · exact hput _
    · exact hput _
    · exact announcing_lift _
    · split_ifs
      · exact announcing_lift _
      · exact announcing_pure _
  · exact announcing_pure _

theorem announcing_maybeProposeBlock (hnodes : ∀ node ∈ p.otherChainNodes, known node)
    (pb : PendingBlocks) :
    Announcing known (CommitState.view : CommitState (Recorded CS) → View)
      (m.maybeProposeBlock p i pb) := by
  rw [CommitManager.maybeProposeBlock]
  apply announcing_bind _ _ announcing_get
  intro s
  apply announcing_bind _ _ (announcing_lift _)
  intro shouldPropose
  split_ifs
  · rw [CommitManager.proposeBlock]
    apply announcing_bind _ _ announcing_get
    intro s
    apply announcing_bind _ _ (announcing_lift _)
    intro proposal
    cases proposal with
    | none => exact announcing_pure _
    | some operation =>
      exact announcing_onPending _ fun _ => announcing_handleNewOperation p operation hnodes
  · exact announcing_pure _

/-- The block is in the chain before its event is in the context: a commit that fails between
the two has announced nothing. -/
theorem announcing_commitBlock (block : PendingBlock) :
    Announcing known (CommitState.view : CommitState (Recorded CS) → View)
      (m.commitBlock block) := by
  intro s hend
  rw [CommitManager.commitBlock, Action.get_bind] at hend ⊢
  cases hbuild : buildChainBlock m.cell block s.pendingStore s.chainStore with
  | error e => exact Announces.refl _
  | ok built =>
    obtain ⟨b, header, ops⟩ := built
    simp only [hbuild, Action.lift_ok_bind] at hend ⊢
    have hoffset := ((buildChainBlock_eq_ok_iff _ _ _ _ _ _ _).mp hbuild).offset
    rcases recorded_writeBlock_cases s.chainStore b with
      ⟨next, store, -, hwrite⟩ | ⟨e, store, -, hwrite⟩
    · simp only [hwrite] at hend ⊢
      have hset : ∀ (s1 : CommitState (Recorded CS))
          (f : Unit → Action (CommitState (Recorded CS)) EngineError Unit),
          (Action.set s1 >>= f) s = f () s1 := fun _ _ => rfl
      rw [hset] at hend ⊢
      obtain ⟨hevents, hmessages, hchain, hstore⟩ := onlyRemoves_updateCommitStatuses
        (.committed block.proposal.offset header.height)
        (ops.headers.map BlockOperationHeader.operationId)
        { s with chainStore := (⟨store, s.chainStore.written ++ [b]⟩ : Recorded CS) }
      rw [Action.bind_apply] at hend ⊢
      cases hupdate : updateCommitStatuses (.committed block.proposal.offset header.height)
          (ops.headers.map BlockOperationHeader.operationId)
          { s with chainStore := (⟨store, s.chainStore.written ++ [b]⟩ : Recorded CS) } with
      | mk r s2 =>
        rw [hupdate] at hend hevents hmessages hchain hstore
        cases r with
        | error e => exact absurd hend (updateCommitStatuses_not_endsWell _ _ _ e s2 hupdate)
        | ok _ =>
          refine ⟨?_, ?_, ⟨[b], congrArg Recorded.written hchain, ?_⟩, ?_⟩
          · exact hevents ▸ List.prefix_append _ _
          · intro id hnone hsome
            have hold := hstore id hsome
            have hnone' : s.pendingStore.getOperation id = none := hnone
            simp only [hnone'] at hold
            contradiction
          · intro x hx
            rw [List.mem_singleton.mp hx, hoffset]
            exact List.mem_append_right _ (List.mem_singleton_self _)
          · intro x hx
            have hx' : x ∈ s2.syncContext.messages := hx
            rw [hmessages] at hx'
            exact Or.inl hx'
    · simp only [hwrite] at hend ⊢
      have hsame : Announces known s.view
          ({ s with chainStore := (⟨store, s.chainStore.written⟩ : Recorded CS) }).view :=
        announces_of_same rfl (fun _ h => h) rfl fun _ hm => Or.inl hm
      cases e with
      | panic => exact hsame
      | error e => cases e <;> exact hsame

theorem onlyRemoves_maybeCleanupPendingStore (pb : PendingBlocks) :
    OnlyRemoves (m.maybeCleanupPendingStore i pb :
      Action (CommitState (Recorded CS)) EngineError Unit) := by
  intro s
  have hdeletes := maybeCleanupPendingStore_onlyDeletes m i pb s
  obtain ⟨ids, hids⟩ := hdeletes.pendingStore
  refine ⟨hdeletes.events, hdeletes.messages, hdeletes.chainStore, ?_⟩
  intro id hsome
  rw [hids] at hsome
  obtain ⟨htaken, hleft⟩ := getOperation_foldl_delete ids s.pendingStore id
  by_cases h : ∃ t ∈ ids, Takes s.pendingStore t id
  · rw [htaken h] at hsome
    contradiction
  · have hnot : ∀ t ∈ ids, ¬ Takes s.pendingStore t id := fun t ht htakes => h ⟨t, ht, htakes⟩
    rwa [(hleft hnot).1] at hsome

theorem announcing_maybeCleanupPendingStore (pb : PendingBlocks) :
    Announcing known (CommitState.view : CommitState (Recorded CS) → View)
      (m.maybeCleanupPendingStore i pb) :=
  (onlyRemoves_maybeCleanupPendingStore m i pb).announcing

/-- A tick of the commit manager that ends well has announced all it stored. -/
theorem announcing_commitTick (hnodes : ∀ node ∈ p.otherChainNodes, known node) :
    Announcing known (CommitState.view : CommitState (Recorded CS) → View) (m.tick p i) := by
  rw [CommitManager.tick]
  apply announcing_bind _ _ announcing_get
  intro s
  apply announcing_bind _ _ (announcing_lift _)
  intro pb
  apply announcing_bind _ _ (announcing_lift _)
  intro potential
  cases potential with
  | nil =>
    exact announcing_bind _ _ (announcing_maybeProposeBlock m p i hnodes pb)
      fun _ => announcing_maybeCleanupPendingStore m i pb
  | cons next rest =>
    apply announcing_bind _ _ (announcing_signNextBlock m p i hnodes pb next)
    intro signed
    refine announcing_bind _ _ ?_ fun _ => announcing_maybeCleanupPendingStore m i _
    rw [CommitManager.maybeCommitBlock]
    split_ifs
    · exact announcing_commitBlock m signed
    · exact announcing_pure _

end Manager

end Exocore.Engine
