import Exocore.ClusterPropose

/-! What the calls of a node of a cluster lead to: a new operation is created and stored, an
operation arrives, a block is committed, operations are deleted. -/
namespace Exocore.Engine

open Exocore.Core Exocore.Chain Exocore.Pending Ballots SortedMap

section Stages
variable [Crates]

/-- What the node has after some of its calls, with the operations that are created by then. -/
structure Advances (c : Cluster) (n : NodeId) (created : Set OperationFrame)
    (blocks : List DataBlock) (created' : Set OperationFrame) (store' : MemoryPendingStore)
    (chain' : DirectoryChainStore) (blocks' : List DataBlock) : Prop where
  sub : created ⊆ created'
  held : ∀ f ∈ created', f ∈ created ∨ f ∈ storeFrames store'
  ledger : Ledger c created'
  sound : NodeSound c created' n store' chain' blocks'
  others : ∀ m, m ≠ n → ∀ store chain bs, NodeSound c created m store chain bs →
    NodeSound c created' m store chain bs
  grows : blocks <+: blocks'
  follows : ∀ f ∈ created', ∀ p frame header, Proposes f p frame header →
    f ∈ created ∨ FollowsIn blocks header

variable {c : Cluster} {n : NodeId} {created : Set OperationFrame} {store store' : MemoryPendingStore}
  {chain : DirectoryChainStore} {blocks : List DataBlock}

theorem advances_refl (hl : Ledger c created) (h : NodeSound c created n store chain blocks) :
    Advances c n created blocks created store chain blocks where
  sub := subset_rfl
  held _ hf := Or.inl hf
  ledger := hl
  sound := h
  others _ _ _ _ _ hsound := hsound
  grows := List.prefix_rfl
  follows _ hf _ _ _ _ := Or.inl hf

/-- The store is another one that keeps the groups of the live proposals and the new operations. -/
theorem Advances.restore {created' : Set OperationFrame} {blocks' : List DataBlock}
    (h : Advances c n created blocks created' store chain blocks')
    (hkeeps : KeepsLive created' blocks' store store') (hstored : StoredIn store' created')
    (hframes : ∀ f, f ∈ storeFrames store → f ∈ storeFrames store') :
    Advances c n created blocks created' store' chain blocks' where
  sub := h.sub
  held f hf := (h.held f hf).imp_right (hframes f)
  ledger := h.ledger
  sound := h.sound.restore hkeeps hstored
  others := h.others
  grows := h.grows
  follows := h.follows

/-- A new operation is put in the store. -/
theorem put_new (blocks : List DataBlock) {f : OperationFrame} (hl : Ledger c (insert f created))
    (hstored : StoredIn store created) (id : ℕ) (existed : Bool)
    (hput : store.putOperation ⟨id, f⟩ = .ok (existed, store')) :
    KeepsLive (insert f created) blocks store store' ∧ StoredIn store' (insert f created) ∧
      f ∈ storeFrames store' ∧
      ∀ r, f.frame.reader = some r → store'.groupFrame r.groupId r.operationId = some f := by
  have hsub : created ⊆ insert f created := Set.subset_insert f created
  obtain ⟨hframes, hproposals, hstored', hf⟩ := put_adds hl
    (fun g id k hk => hsub (hstored g id k hk)) id f (Set.mem_insert f created) existed hput
  refine ⟨⟨?_, ?_⟩, hstored', ?_, hf⟩
  · intro P hP p frame header hp hlive id k hk
    exact hframes p id k hk
  · intro P hP p frame header hp hlive hhas
    exact hproposals P hP p hhas
  · obtain ⟨r, type, hr, -⟩ := store.putOperation_eq_ok ⟨id, f⟩ _ hput
    exact (mem_storeFrames_iff store' f).mpr ⟨_, _, hf r hr⟩

theorem held_insert {f : OperationFrame} (hf : f ∈ storeFrames store') (g : OperationFrame)
    (hg : g ∈ insert f created) : g ∈ created ∨ g ∈ storeFrames store' := by
  rcases hg with rfl | hg
  · exact Or.inr hf
  · exact Or.inl hg

/-- An operation that is no vote is created and stored. -/
theorem advances_create (hl : Ledger c created) (h : NodeSound c created n store chain blocks)
    (f : OperationFrame) (hl' : Ledger c (insert f created))
    (hid : ∀ g ∈ created, frameId g ≠ frameId f) (hnot : ∀ m p, ¬ VoteOf f m p)
    (hfollows : ∀ p frame header, Proposes f p frame header → FollowsIn blocks header) (id : ℕ)
    (existed : Bool) (hput : store.putOperation ⟨id, f⟩ = .ok (existed, store')) :
    Advances c n created blocks (insert f created) store' chain blocks := by
  obtain ⟨hkeeps, hstored, hf, -⟩ := put_new blocks hl' h.stored id existed hput
  refine ⟨Set.subset_insert f created, held_insert hf, hl',
    (h.grow hl f hid (hnot n)).restore hkeeps hstored, ?_, List.prefix_rfl, ?_⟩
  · intro m hm store chain bs hsound
    exact hsound.grow hl f hid (hnot m)
  · intro g hg p frame header hp
    rcases hg with rfl | hg
    · exact Or.inr (hfollows p frame header hp)
    · exact Or.inl hg

/-- The node votes on a proposal that it has not voted on, as `NodeSound.vote` asks. -/
theorem advances_vote (hl : Ledger c created) (h : NodeSound c created n store chain blocks)
    (hn : n ∈ c.members) (hnode : NodeIdReadsBack n) (f P : OperationFrame) (p : ℕ)
    (frame : BlockHeaderFrame) (header : BlockHeader)
    (hid : ∀ g ∈ created, frameId g ≠ frameId f)
    (hinitial : ∀ b ∈ c.initial, ¬ HasOperation b (frameId f)) (hvote : VoteOf f n p)
    (hnew : ∀ g ∈ created, ¬ VoteOf g n p) (hP : P ∈ created) (hp : Proposes P p frame header)
    (hhas : HasProposal store p P) (hlive : endOf blocks ≤ header.offset)
    (hplace : Signs f n p → header.offset ≤ endOf blocks)
    (hlost : Signs f n p → ∀ q, (votesOf created).signed n q →
      (votesOf created).proposed q header.offset → q ≠ p →
        Majority c.members (RefusedIn store q)) (id : ℕ) (existed : Bool)
    (hput : store.putOperation ⟨id, f⟩ = .ok (existed, store')) :
    Advances c n created blocks (insert f created) store' chain blocks := by
  have hfair : (votesOf (insert f created)).Fair c.members := by
    rcases hvote with hs | hr
    · rw [votesOf_insert_signature hs]
      refine hl.fair.sign n p ?_ ?_
      · rintro ⟨g, hg, hr⟩
        exact hnew g hg (Or.inr hr)
      · rintro q a hq hqa ⟨Q, hQ, frame', header', hproposes, rfl⟩ hne
        obtain ⟨-, -, rfl⟩ := hl.proposal_eq hQ hP hproposes hp
        exact lost_of_refusedIn h.stored (hlost hs q hq hqa hne)
    · rw [votesOf_insert_refusal hr]
      refine hl.fair.refuse n p ?_
      rintro ⟨g, hg, hs⟩
      exact hnew g hg (Or.inl hs)
  have hl' : Ledger c (insert f created) := by
    refine hl.insert f (Or.inr (Or.inr ⟨n, p, hvote⟩)) hid hinitial ?_ ?_ hfair
    · intro m q hv
      obtain ⟨rfl, rfl⟩ := hvote.unique hv
      exact ⟨hn, hnode, ⟨P, hP, frame, header, hp⟩, hnew⟩
    · intro q frame' header' hq
      exact absurd hq hvote.not_proposes
  obtain ⟨hkeeps, hstored, hf, hgroup⟩ := put_new blocks hl' h.stored id existed hput
  have hframe : store'.groupFrame p (frameId f) = some f := by
    have hkind := hvote
    rcases hkind with ⟨k, hr⟩ | ⟨k, hr⟩
    · rw [frameId_of_reader hr]
      exact hgroup _ hr
    · rw [frameId_of_reader hr]
      exact hgroup _ hr
  refine ⟨Set.subset_insert f created, held_insert hf, hl',
    h.vote hl f P p frame header hid hvote hP hp hhas
      (hkeeps.subset (Set.subset_insert f created)) hstored hframe hlive hplace hlost, ?_,
    List.prefix_rfl, ?_⟩
  · intro m hm store chain bs hsound
    refine hsound.grow hl f hid ?_
    intro q hv
    exact hm (hvote.unique hv).1.symm
  · intro g hg q frame' header' hq
    rcases hg with rfl | hg
    · exact absurd hq hvote.not_proposes
    · exact Or.inl hg

/-- A certified block is written at the end of the chain. -/
theorem Advances.commit {created' : Set OperationFrame} {blocks' : List DataBlock}
    (h : Advances c n created blocks created' store chain blocks') (b : DataBlock)
    (hwell : WellFormed b) (hoffset : b.offset = endOf blocks') (hcertified : Certified c created' b) :
    Advances c n created blocks created' store (chain.writeBlock b).2 (blocks' ++ [b]) := by
  obtain ⟨chain', hwrite, hholds⟩ := writeBlock_holds True chain blocks' b h.sound.holds hwell.toFramed
    hwell.indexable hoffset fun seg hseg _ => h.sound.inStep seg hseg
  have hinStep := writeBlock_inStep True chain blocks' b h.sound.holds h.sound.inStep
  rw [hwrite] at hinStep ⊢
  exact ⟨h.sub, h.held, h.ledger, h.sound.commit b chain' hholds hinStep hcertified hoffset
    (.refl store) h.sound.stored, h.others, h.grows.trans (List.prefix_append blocks' [b]),
    h.follows⟩

end Stages

section Frames
variable [Crates] {store store' store'' : MemoryPendingStore}

/-- The stores have the same operations, up to their commit statuses. -/
structure SameFrames (store store' : MemoryPendingStore) : Prop where
  groups : ∀ g id, store'.groupFrame g id = store.groupFrame g id
  found : ∀ id, (store'.getOperation id).map StoredOperation.frame =
    (store.getOperation id).map StoredOperation.frame

theorem SameFrames.refl (store : MemoryPendingStore) : SameFrames store store :=
  ⟨fun _ _ => rfl, fun _ => rfl⟩

theorem SameFrames.trans (h : SameFrames store store') (h' : SameFrames store' store'') :
    SameFrames store store'' :=
  ⟨fun g id => (h'.groups g id).trans (h.groups g id), fun id => (h'.found id).trans (h.found id)⟩

theorem SameFrames.keepsLive (h : SameFrames store store') (created : Set OperationFrame)
    (blocks : List DataBlock) : KeepsLive created blocks store store' where
  frames P hP p frame header hp hlive id f hf := by
    rw [h.groups, hf]
  proposal P hP p frame header hp hlive hhas := by
    obtain ⟨op, hop, rfl⟩ := hhas
    have hfound := h.found p
    rw [hop, Option.map_some] at hfound
    exact Option.map_eq_some_iff.mp hfound

theorem SameFrames.storedIn (h : SameFrames store store') {created : Set OperationFrame}
    (hstored : StoredIn store created) : StoredIn store' created := by
  intro g id f hf
  rw [h.groups] at hf
  exact hstored g id f hf

theorem SameFrames.mem_storeFrames (h : SameFrames store store') (f : OperationFrame)
    (hf : f ∈ storeFrames store) : f ∈ storeFrames store' := by
  obtain ⟨g, id, hg⟩ := (mem_storeFrames_iff store f).mp hf
  exact (mem_storeFrames_iff store' f).mpr ⟨g, id, by rw [h.groups, hg]⟩

theorem sameFrames_updateCommitStatus (id : ℕ) (status : CommitStatus)
    (h : store.updateOperationCommitStatus id status = .ok store') : SameFrames store store' := by
  obtain ⟨hgroups, -, hfound⟩ := MemoryPendingStore.updateOperationCommitStatus_eq_ok store store'
    id status h
  refine ⟨hgroups, ?_⟩
  intro k
  have hmap := congrArg (Option.map fun x : ℕ × OperationType × OperationFrame => x.2.2) (hfound k)
  rw [Option.map_map, Option.map_map] at hmap
  exact hmap

variable {CS : Type}

theorem sameFrames_updateCommitStatuses (status : CommitStatus) (ids : List ℕ)
    (s : CommitState CS) :
    SameFrames s.pendingStore (updateCommitStatuses status ids s).2.pendingStore := by
  induction ids generalizing s with
  | nil => exact .refl _
  | cons id rest ih =>
    have hfirst : SameFrames s.pendingStore
        (updateOperationCommitStatus id status s).2.pendingStore := by
      rw [updateOperationCommitStatus]
      cases hupdate : s.pendingStore.updateOperationCommitStatus id status with
      | error e => exact .refl _
      | ok store => exact sameFrames_updateCommitStatus id status hupdate
    exact Action.bind_keeps_snd (fun st : CommitState CS => SameFrames s.pendingStore st.pendingStore) _ _ s hfirst
      fun _ => hfirst.trans (ih _)

variable [ChainStore CS] (m : CommitManager)

/-- A commit changes the statuses of operations in the pending store, nothing else. -/
theorem sameFrames_commitBlock (block : PendingBlock) (s : CommitState CS) :
    SameFrames s.pendingStore (m.commitBlock block s).2.pendingStore := by
  rw [CommitManager.commitBlock, Action.get_bind]
  rcases Action.lift_bind_cases (buildChainBlock m.cell block s.pendingStore s.chainStore) _ s with
    ⟨e, -, hres⟩ | ⟨⟨b, header, ops⟩, -, hres⟩
  · rw [hres]
    exact .refl _
  rw [hres]
  simp only
  rcases ChainStore.writeBlock s.chainStore b with ⟨(e | _) | next, chain⟩
  · cases e <;> exact .refl _
  · exact .refl _
  · refine Action.bind_keeps_snd (fun st : CommitState CS => SameFrames s.pendingStore st.pendingStore) _ _ _
      (.refl _) fun _ => ?_
    have hstatuses := sameFrames_updateCommitStatuses
      (.committed block.proposal.offset header.height)
      (ops.headers.map BlockOperationHeader.operationId) { s with chainStore := chain }
    exact Action.bind_keeps_snd (fun st : CommitState CS => SameFrames s.pendingStore st.pendingStore) _ _ _
      hstatuses fun _ => hstatuses

theorem sameFrames_maybeCommitBlock (block : PendingBlock) (s : CommitState CS) :
    SameFrames s.pendingStore (m.maybeCommitBlock block s).2.pendingStore := by
  simp only [CommitManager.maybeCommitBlock]
  split_ifs
  · exact sameFrames_commitBlock m block s
  · exact .refl _

end Frames

end Exocore.Engine
