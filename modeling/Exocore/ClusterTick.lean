import Exocore.ClusterSign

/-! A tick of a node of a cluster up to its cleanup: it votes on its best candidate, and commits it
once most chain nodes have signed it, or it proposes a block. -/
namespace Exocore.Engine

open Exocore.Core Exocore.Chain Exocore.Pending Ballots SortedMap

section Cases
variable [Crates] (m : CommitManager) (p : PendingSynchronizer) (i : TickInput)

/-- The call fails and leaves the state, or it ends well. -/
def FailsClean {S A : Type} (x : Action S EngineError A) : Prop :=
  ∀ s, (∃ e, x s = (.error e, s)) ∨ ∃ a s', x s = (.ok a, s')

/-- A vote that cannot be created or stored leaves the state. -/
theorem failsClean_vote {A : Type} (r : Res EngineError (NewOperation × A)) :
    FailsClean ((Action.lift r >>= fun x => onPending (p.handleNewOperation x.1) >>= fun _ =>
      pure x.2) : Action (CommitState DirectoryChainStore) EngineError A) := by
  intro s
  cases r with
  | error e => exact Or.inl ⟨e, rfl⟩
  | ok x =>
    rw [Action.lift_ok_bind]
    rcases handleNewOperation_cases p x.1 ⟨s.syncContext, s.pendingStore⟩ with ⟨e, he⟩ | ⟨s', hs'⟩
    · left
      refine ⟨e, ?_⟩
      rw [Action.bind_apply, onPending, he]
    · right
      refine ⟨x.2, { s with syncContext := s'.syncContext, pendingStore := s'.store }, ?_⟩
      rw [Action.bind_apply, onPending, hs']
      rfl

theorem failsClean_signNextBlock (pb : PendingBlocks) (next : PendingBlock) :
    FailsClean (m.signNextBlock p i pb next :
      Action (CommitState DirectoryChainStore) EngineError PendingBlock) := by
  intro s
  rw [CommitManager.signNextBlock]
  split_ifs
  · rw [CommitManager.signOrRefuseBlock, Action.get_bind]
    rcases checkShouldSignBlock pb s.chainStore s.pendingStore i.operationBlocksOrder
      next.groupId with (e | _) | (_ | _)
    · simp only
      split_ifs
      · exact Or.inl ⟨_, rfl⟩
      · exact Or.inr ⟨_, _, rfl⟩
    · exact Or.inl ⟨_, rfl⟩
    · exact failsClean_vote p _ s
    · exact failsClean_vote p _ s
  · exact Or.inr ⟨_, _, rfl⟩

/-- A tick stops with an error where it is, handles its best candidate, or may propose. -/
theorem beforeCleanup_cases (s : CommitState DirectoryChainStore) :
    (∃ e, m.beforeCleanup p i s = (.error e, s)) ∨
      ∃ pb, PendingBlocks.new m.config i.now m.cell s.pendingStore s.chainStore = .ok pb ∧
        ((∃ next rest signed s₁, pb.potentialNextBlocks i.blocksOrder i.sorter = .ok (next :: rest) ∧
            m.signNextBlock p i pb next s = (.ok signed, s₁) ∧
            (m.beforeCleanup p i s).2 = (m.maybeCommitBlock signed s₁).2 ∧
            ∀ pb', (m.beforeCleanup p i s).1 = .ok pb' → pb' = pb.setBlock signed) ∨
          ((m.beforeCleanup p i s).2 = (m.maybeProposeBlock p i pb s).2 ∧
            ∀ pb', (m.beforeCleanup p i s).1 = .ok pb' → pb' = pb)) := by
  rw [CommitManager.beforeCleanup, Action.get_bind]
  cases hnew : PendingBlocks.new m.config i.now m.cell s.pendingStore s.chainStore with
  | error e => exact Or.inl ⟨e, rfl⟩
  | ok pb =>
    rw [Action.lift_ok_bind]
    cases hpot : pb.potentialNextBlocks i.blocksOrder i.sorter with
    | error e => exact Or.inl ⟨e, rfl⟩
    | ok potential =>
      rw [Action.lift_ok_bind]
      cases potential with
      | nil =>
        right
        refine ⟨pb, rfl, Or.inr ?_⟩
        simp only [List.head?_nil]
        rcases Action.bind_cases (m.maybeProposeBlock p i pb)
          (fun _ => pure pb) s with ⟨e, s', hx, h⟩ | ⟨u, s', hx, h⟩
        · rw [h, hx]
          exact ⟨rfl, fun pb' hpb => by contradiction⟩
        · rw [h, hx]
          exact ⟨rfl, fun pb' hpb => (Except.ok.inj hpb).symm⟩
      | cons next rest =>
        simp only [List.head?_cons]
        rcases failsClean_signNextBlock m p i pb next s with ⟨e, hsign⟩ | ⟨signed, s₁, hsign⟩
        · left
          exact ⟨e, Action.bind_of_error _ _ _ _ _ hsign⟩
        right
        refine ⟨pb, rfl, Or.inl ⟨next, rest, signed, s₁, hpot, hsign, ?_⟩⟩
        rw [Action.bind_of_ok _ _ _ _ _ hsign]
        rcases Action.bind_cases (m.maybeCommitBlock signed)
          (fun _ => pure (pb.setBlock signed)) s₁ with ⟨e, s', hx, h⟩ | ⟨u, s', hx, h⟩
        · rw [h, hx]
          exact ⟨rfl, fun pb' hpb => by contradiction⟩
        · rw [h, hx]
          exact ⟨rfl, fun pb' hpb => (Except.ok.inj hpb).symm⟩

/-- What a new operation is put into. -/
theorem put_of_onPending (operation : NewOperation) (s s₁ : CommitState DirectoryChainStore)
    (h : onPending (p.handleNewOperation operation) s = (.ok (), s₁)) :
    s₁.chainStore = s.chainStore ∧
      ∃ existed, s.pendingStore.putOperation operation = .ok (existed, s₁.pendingStore) := by
  have hstore := onPending_pendingStore (p.handleNewOperation operation) s
  have hchain := onPending_chainStore (p.handleNewOperation operation) s
  have hok : (p.handleNewOperation operation ⟨s.syncContext, s.pendingStore⟩).1 = .ok () :=
    congrArg Prod.fst h
  rw [h] at hstore hchain
  refine ⟨hchain, ?_⟩
  rcases handleNewOperation_store p operation ⟨s.syncContext, s.pendingStore⟩ with
    ⟨⟨e, he⟩, -⟩ | ⟨existed, store', hput, hafter⟩
  · rw [hok] at he
    contradiction
  · rw [hafter] at hstore
    exact ⟨existed, hstore ▸ hput⟩

end Cases

section Votes
variable [Crates] {c : Cluster} {n : NodeId} {created : Set OperationFrame}
  {s s₁ : CommitState DirectoryChainStore} {blocks : List DataBlock} {i : TickInput}
  {pb : PendingBlocks} {next signed : PendingBlock} {rest : List PendingBlock}

theorem ReadsProposal.mono {created' : Set OperationFrame} {block : PendingBlock} {p : ℕ}
    {f : OperationFrame} {frame : BlockHeaderFrame} {header : BlockHeader}
    (h : ReadsProposal created block p f frame header) (hsub : created ⊆ created') :
    ReadsProposal created' block p f frame header :=
  ⟨hsub h.mem, h.proposes, h.operation, h.getBlock, h.offset, h.operations⟩

/-- A candidate with the vote of the node on it: its signatures are votes that were cast. -/
structure Voted (created : Set OperationFrame) (blocks : List DataBlock) (signed : PendingBlock)
    (p : ℕ) (f : OperationFrame) (frame : BlockHeaderFrame) (header : BlockHeader) : Prop where
  reads : ReadsProposal created signed p f frame header
  groupId : signed.groupId = p
  status : signed.status = .nextPotential
  place : signed.hasMySignature = true → header.offset = endOf blocks
  signers : (signed.signatures.map PendingBlockSignature.nodeId).Nodup
  votes : ∀ m ∈ signed.signatures.map PendingBlockSignature.nodeId, (votesOf created).signed m p

/-- Where the chain nodes that count have signed in a quorum, most chain nodes have. -/
theorem Voted.majority (hl : Ledger c created) {p : ℕ} {f : OperationFrame}
    {frame : BlockHeaderFrame} {header : BlockHeader}
    (h : Voted created blocks signed p f frame header)
    (hquorum : (c.cell n).hasQuorum
      (signed.signatures.filter (signed.validateSignature (c.cell n))).length (some .chain) = true) :
    Majority c.members fun m => (votesOf created).signed m p := by
  rw [c.majority_iff n]
  have hvalid := map_filter_validateSignature signed (c.cell n) frame h.reads.getBlock
    signed.signatures
  apply chainQuorum_of_signatures (c.cell n) _
    ((signed.signatures.filter (signed.validateSignature (c.cell n))).map
      PendingBlockSignature.nodeId)
  · rw [hvalid]
    exact h.signers.filter _
  · intro m hm
    rw [hvalid] at hm
    have hsigned := h.votes m (List.mem_of_mem_filter hm)
    obtain ⟨g, hg, hs⟩ := id hsigned
    exact ⟨(c.mem_members_iff n m).mp (hl.voters g hg m p (Or.inl hs)).1, hsigned⟩
  · rw [List.length_map]
    exact hquorum

/-- The store of a tick has the proposal of each of its blocks. -/
theorem hasProposal_of_reads (hl : Ledger c created)
    (h : NodeSound c created n s.pendingStore s.chainStore blocks)
    (hblocks : BlocksOf (c.commitConfig n) i.now (c.cell n) s.pendingStore s.chainStore pb) {p : ℕ}
    {f : OperationFrame} {frame : BlockHeaderFrame} {header : BlockHeader}
    (hget : pb.blocks.get p = some next) (hreads : ReadsProposal created next p f frame header) :
    HasProposal s.pendingStore p f := by
  obtain ⟨op, hop, -⟩ := hblocks.proposal p next hget
  obtain ⟨hframe, hid⟩ := getOperation_frame s.pendingStore p op hop
  refine ⟨op, hop, ?_⟩
  refine hl.unique op.frame (h.stored _ _ _ hframe) f hreads.mem ?_
  rw [hid, hreads.proposes.frameId_eq]

/-- A tick votes on its best candidate where it has not, and keeps what holds of the cluster. -/
theorem signOutcome_advances (hread : OperationsReadBack) (hl : Ledger c created)
    (h : NodeSound c created n s.pendingStore s.chainStore blocks) (hn : n ∈ c.members)
    (hnode : NodeIdReadsBack n)
    (hfollows : ∀ f ∈ created, ∀ p frame header, Proposes f p frame header →
      ∃ m store chain bs, NodeSound c created m store chain bs ∧ FollowsIn bs header)
    (htime : ∀ g ∈ created, frameId g ≠ i.signatureTime)
    (hinitial : ∀ b ∈ c.initial, ¬ HasOperation b i.signatureTime)
    (hlives : ∀ f ∈ created, ∀ p frame header, Proposes f p frame header →
      (votesOf created).signed n p → endOf blocks ≤ header.offset →
        ¬ Majority c.members (RefusedIn s.pendingStore p) →
          i.now < p + (c.commitConfig n).blockProposalTimeout)
    (hnew : PendingBlocks.new (c.commitConfig n) i.now (c.cell n) s.pendingStore s.chainStore =
      .ok pb)
    (hpot : pb.potentialNextBlocks i.blocksOrder i.sorter = .ok (next :: rest))
    (hsign : SignOutcome (c.engine n).commitManager (c.engine n).pendingSynchronizer i pb next s
      signed s₁) :
    ∃ created' f frame header,
      Advances c n created blocks created' s₁.pendingStore s₁.chainStore blocks ∧
        Voted created' blocks signed next.groupId f frame header := by
  have hblocks := pendingBlocks_new_eq_ok _ _ _ _ _ _ hnew
  obtain ⟨last, hlast, hof⟩ := h.blockOf hblocks
  obtain ⟨⟨p, hget⟩, hstatus⟩ :=
    (mem_potentialNextBlocks pb _ _ _ hpot next).mp List.mem_cons_self
  have hblock := hof p next hget
  obtain rfl := hblock.groupId_eq
  obtain ⟨hlive, -, -⟩ := hblock.of_nextPotential hlast hstatus
  obtain ⟨f, frame, header, hreads⟩ := hblock.readsProposal hl h.stored
  rw [hreads.offset] at hlive
  have hmine := hasMySignature_iff_signed hl h hblock hreads hlive
  have hrefused := hasMyRefusal_iff_refused hl h hblock hreads hlive
  have hproposed : (votesOf created).proposed next.groupId header.offset :=
    ⟨f, hreads.mem, frame, header, hreads.proposes, rfl⟩
  have hsigners := hblock.signers_eq.1
  have hnodup : (next.signatures.map PendingBlockSignature.nodeId).Nodup := by
    rw [hsigners]
    exact signers_nodup hl h.stored
  have hvotes : ∀ m ∈ next.signatures.map PendingBlockSignature.nodeId,
      (votesOf created).signed m next.groupId := by
    intro m hm
    rw [hsigners, mem_signers_iff hl h.stored] at hm
    obtain ⟨id, g, hg, hs⟩ := hm
    exact ⟨g, h.stored _ id g hg, hs⟩
  have hunvoted (mine : next.hasMySignature = false ∧ next.hasMyRefusal = false) :
      ∀ g ∈ created, ¬ VoteOf g n next.groupId := by
    rintro g hg (hs | hr)
    · rw [hmine.mpr ⟨g, hg, hs⟩] at mine
      exact absurd mine.1 (by simp)
    · rw [hrefused.mpr ⟨g, hg, hr⟩] at mine
      exact absurd mine.2 (by simp)
  have hhas := hasProposal_of_reads hl h hblocks hget hreads
  cases hsign with
  | same =>
    refine ⟨created, f, frame, header, advances_refl hl h, hreads, rfl, hstatus, ?_, hnodup, hvotes⟩
    intro hsignature
    have hend := h.inPlace _ _ (hmine.mp hsignature) hproposed
    omega
  | signed op block s₁ mine check vote put =>
    obtain ⟨hreader, hadd⟩ := createBlockSignature_eq_ok hread n hnode _ _ _ _ vote
    obtain ⟨hchain, existed, hput⟩ := put_of_onPending _ _ _ _ put
    have hsigns : Signs op.frame n next.groupId := ⟨_, hreader⟩
    have hid : frameId op.frame = i.signatureTime := frameId_of_reader hreader
    -- all that the node has signed for the offset is lost
    have hlost : ∀ q, (votesOf created).signed n q →
        (votesOf created).proposed q header.offset →
          Majority c.members (RefusedIn s.pendingStore q) := by
      intro q hq hqo
      rcases candidate_or_lost hl h hn hblocks hlives q header.offset hq hqo hlive with
        ⟨other, hother, -, hsignature⟩ | hlost
      · have hbest := signed_of_best hl h hn hblocks hpot other hother hsignature
        rw [hbest] at mine
        exact absurd mine.1 (by simp)
      · exact hlost
    obtain ⟨m, store', chain', bs, hsound, hfollowsIn⟩ :=
      hfollows f hreads.mem _ frame header hreads.proposes
    have hplace := offset_le_of_check hl h hsound hfollowsIn hget hreads _ check
    have hadvances := advances_vote hl h hn hnode op.frame f next.groupId frame header
      (by rw [hid]; exact htime) (by rw [hid]; exact hinitial) (Or.inl hsigns) (hunvoted mine)
      hreads.mem hreads.proposes hhas hlive (fun _ => hplace) (fun _ q hq hqo _ => hlost q hq hqo)
      op.operationId existed hput
    rw [hadd, hchain]
    have hnot : n ∉ next.signatures.map PendingBlockSignature.nodeId := by
      intro hin
      obtain ⟨g, hg, hs⟩ := hvotes n hin
      exact hunvoted mine g hg (Or.inl hs)
    refine ⟨_, f, frame, header, hadvances, ?_⟩
    have hreads' := hreads.mono hadvances.sub
    refine ⟨⟨hreads'.mem, hreads'.proposes, hreads'.operation, hreads'.getBlock, hreads'.offset,
      hreads'.operations⟩, rfl, hstatus, fun _ => by omega, ?_, ?_⟩
    · rw [PendingBlock.addMySignature, List.map_append, List.map_singleton]
      exact List.nodup_append.mpr ⟨hnodup, List.nodup_singleton n, by
        intro a ha b hb
        rw [List.mem_singleton.mp hb]
        rintro rfl
        exact hnot ha⟩
    · intro m hm
      rw [PendingBlock.addMySignature, List.map_append, List.map_singleton, List.mem_append,
        List.mem_singleton] at hm
      rcases hm with hm | rfl
      · exact signed_mono hadvances.sub (hvotes m hm)
      · exact ⟨op.frame, Set.mem_insert _ _, hsigns⟩
  | refused op block s₁ mine vote put =>
    obtain ⟨hreader, hadd⟩ := createBlockRefusal_eq_ok hread n hnode _ _ _ _ vote
    obtain ⟨hchain, existed, hput⟩ := put_of_onPending _ _ _ _ put
    have hrefuses : Refuses op.frame n next.groupId := ⟨_, hreader⟩
    have hid : frameId op.frame = i.signatureTime := frameId_of_reader hreader
    have hadvances := advances_vote hl h hn hnode op.frame f next.groupId frame header
      (by rw [hid]; exact htime) (by rw [hid]; exact hinitial) (Or.inr hrefuses) (hunvoted mine)
      hreads.mem hreads.proposes hhas hlive (fun hs => absurd hrefuses hs.not_refuses) (fun hs => absurd hrefuses hs.not_refuses)
      op.operationId existed hput
    rw [hadd, hchain]
    refine ⟨_, f, frame, header, hadvances, ?_⟩
    have hreads' := hreads.mono hadvances.sub
    refine ⟨⟨hreads'.mem, hreads'.proposes, hreads'.operation, hreads'.getBlock, hreads'.offset,
      hreads'.operations⟩, rfl, hstatus, ?_, hnodup,
      fun m hm => signed_mono hadvances.sub (hvotes m hm)⟩
    intro hsignature
    rw [PendingBlock.addMyRefusal, mine.1] at hsignature
    contradiction

/-- A candidate is committed only with the signatures of most chain nodes. -/
theorem commit_advances (hh : HeadersReadBack) (hsigs : SignaturesReadBack)
    (hsize : SignaturesSizeFits) {created' : Set OperationFrame} {p : ℕ} {f : OperationFrame}
    {frame : BlockHeaderFrame} {header : BlockHeader}
    (h : Advances c n created blocks created' s₁.pendingStore s₁.chainStore blocks)
    (hvoted : Voted created' blocks signed p f frame header) :
    ∃ blocks', Advances c n created blocks created'
      ((c.engine n).commitManager.maybeCommitBlock signed s₁).2.pendingStore
      ((c.engine n).commitManager.maybeCommitBlock signed s₁).2.chainStore blocks' := by
  have hsame := sameFrames_maybeCommitBlock (c.engine n).commitManager signed s₁
  have hstored := hsame.storedIn h.sound.stored
  rcases maybeCommitBlock_chainStore (c.engine n).commitManager signed s₁ with
    hkeep | ⟨hmine, hquorum, b, header', ops, hbuild, hwrite⟩
  · refine ⟨blocks, ?_⟩
    rw [hkeep]
    exact h.restore (hsame.keepsLive _ _) hstored hsame.mem_storeFrames
  · have hbuilds := (buildChainBlock_eq_ok_iff _ _ _ _ _ _ _).mp hbuild
    obtain ⟨hwell, hoffset, hcertified⟩ := builds_certified hh hsigs hsize h.ledger h.sound.stored
      hvoted.reads hbuilds (hvoted.majority h.ledger hquorum)
    have hcommit := h.commit b hwell (hoffset.trans (hvoted.place hmine)) hcertified
    refine ⟨blocks ++ [b], ?_⟩
    rw [hwrite]
    exact hcommit.restore (hsame.keepsLive _ _) hstored hsame.mem_storeFrames

/-- A proposal with a new id is made of created entries, and no node has voted on it. -/
theorem propose_advances (hread : OperationsReadBack) (hh : HeadersReadBack)
    (hl : Ledger c created) (h : NodeSound c created n s.pendingStore s.chainStore blocks)
    (htime : ∀ g ∈ created, frameId g ≠ i.proposalTime)
    (hinitial : ∀ b ∈ c.initial, ¬ HasOperation b i.proposalTime)
    (hsmall : (framesData (s.pendingStore.operations.map StoredOperation.frame)).length < 2^32) :
    ∃ created', Advances c n created blocks created'
      ((c.engine n).commitManager.maybeProposeBlock (c.engine n).pendingSynchronizer i pb
        s).2.pendingStore
      ((c.engine n).commitManager.maybeProposeBlock (c.engine n).pendingSynchronizer i pb
        s).2.chainStore blocks := by
  rcases maybeProposeBlock_cases (c.engine n).commitManager (c.engine n).pendingSynchronizer i pb s
    with hsame | ⟨op, hbuild, hput⟩
  · rw [hsame]
    exact ⟨created, advances_refl hl h⟩
  obtain ⟨frame, header, entries, hproposes, hbuilt, hfollows⟩ := buildProposal_built hread hh hl
    h.stored _ i pb s.chainStore blocks h.holds hsmall op hbuild
  obtain ⟨hchain, existed, hstore⟩ := put_of_onPending _ _ _ _ hput
  have hid := hproposes.frameId_eq
  have hnot : ∀ m p, ¬ VoteOf op.frame m p := fun m p hv => hv.not_proposes hproposes
  have hunsigned : ∀ m, ¬ (votesOf created).signed m i.proposalTime := by
    rintro m ⟨g, hg, hs⟩
    obtain ⟨-, -, P, hP, frame', header', hp⟩ := hl.voters g hg m _ (Or.inl hs)
    exact htime P hP hp.frameId_eq
  have hfair : (votesOf (insert op.frame created)).Fair c.members := by
    rw [votesOf_insert_proposal hproposes]
    exact hl.fair.propose _ _ hunsigned
  have hl' : Ledger c (insert op.frame created) := by
    refine hl.insert op.frame (Or.inr (Or.inl ⟨_, frame, header, hproposes⟩)) ?_ ?_ ?_ ?_ hfair
    · rw [hid]
      exact htime
    · rw [hid]
      exact hinitial
    · intro m p hv
      exact absurd hv (hnot m p)
    · intro p frame' header' hp
      obtain ⟨rfl, rfl, rfl⟩ := hproposes.unique hp
      exact ⟨entries, hbuilt⟩
  rw [hchain]
  refine ⟨_, advances_create hl h op.frame hl' ?_ hnot ?_ op.operationId existed hstore⟩
  · rw [hid]
    exact htime
  · intro p frame' header' hp
    obtain ⟨-, -, rfl⟩ := hproposes.unique hp
    exact hfollows

end Votes

theorem endOf_le_of_prefix {blocks blocks' : List DataBlock} {stop : ℕ}
    (hl : Linked 0 blocks' stop) (h : blocks <+: blocks') : endOf blocks ≤ endOf blocks' := by
  obtain ⟨added, rfl⟩ := h
  obtain ⟨mid, hfront, hrear⟩ := (linked_append_iff blocks added 0 stop).mp hl
  rw [linked_endOf _ stop hl, linked_endOf blocks mid hfront]
  have hstop := linked_stop added mid stop hrear
  omega

section Ticks
variable [Crates] {c : Cluster} {n : NodeId} {cs : ClusterState} {blocks : List DataBlock}
  {i : TickInput}

/-- The blocks that a cleanup takes are those of proposals that the chain has passed. -/
def PastBelow (created : Set OperationFrame) (blocks : List DataBlock) (pb : PendingBlocks) :
    Prop :=
  ∀ g block, pb.blocks.get g = some block →
    block.status = .pastCommitted ∨ block.status = .pastRefused →
      ∃ f frame header, ReadsProposal created block g f frame header ∧ block.groupId = g ∧
        header.offset < endOf blocks

theorem PastBelow.mono {created created' : Set OperationFrame} {blocks' : List DataBlock}
    {pb : PendingBlocks} (h : PastBelow created blocks pb) (hsub : created ⊆ created')
    (hend : endOf blocks ≤ endOf blocks') : PastBelow created' blocks' pb := by
  intro g block hg hpast
  obtain ⟨f, frame, header, hreads, hid, hlt⟩ := h g block hg hpast
  exact ⟨f, frame, header, hreads.mono hsub, hid, lt_of_lt_of_le hlt hend⟩

/-- What was a candidate is not taken. -/
theorem PastBelow.setBlock {created : Set OperationFrame} {pb : PendingBlocks}
    {block : PendingBlock} (h : PastBelow created blocks pb)
    (hstatus : block.status = .nextPotential) : PastBelow created blocks (pb.setBlock block) := by
  intro g b hg hpast
  rw [PendingBlocks.setBlock, Map.get_insert] at hg
  split_ifs at hg
  · obtain rfl := Option.some.inj hg
    rw [hstatus] at hpast
    simp at hpast
  · exact h g b hg hpast

theorem pastBelow_of_blocks {created : Set OperationFrame} {store : MemoryPendingStore}
    {chain : DirectoryChainStore} {pb : PendingBlocks} (hl : Ledger c created)
    (h : NodeSound c created n store chain blocks)
    (hblocks : BlocksOf (c.commitConfig n) i.now (c.cell n) store chain pb) :
    PastBelow created blocks pb := by
  intro g block hg hpast
  obtain ⟨last, hlast, hof⟩ := h.blockOf hblocks
  obtain ⟨f, frame, header, hreads⟩ := (hof g block hg).readsProposal hl h.stored
  have hlt := (hof g block hg).of_past h.toHoldsFramed hlast hpast
  rw [hreads.offset] at hlt
  exact ⟨f, frame, header, hreads, (hof g block hg).groupId_eq, hlt⟩

/-- The operations that were created so far. -/
def ClusterState.made (cs : ClusterState) : Set OperationFrame := { f | f ∈ cs.created }

/-- A tick keeps what holds of the cluster, up to its cleanup. -/
theorem beforeCleanup_advances (hread : OperationsReadBack) (hh : HeadersReadBack)
    (hsigs : SignaturesReadBack) (hsize : SignaturesSizeFits) (hl : Ledger c cs.made)
    (h : NodeSound c cs.made n (cs.node n).pendingStore (cs.node n).chainStore blocks)
    (hn : n ∈ c.members) (hnode : NodeIdReadsBack n)
    (hfollows : ∀ f ∈ cs.made, ∀ p frame header, Proposes f p frame header →
      ∃ m store chain bs, NodeSound c cs.made m store chain bs ∧ FollowsIn bs header)
    (hallowed : c.TickAllowed cs n i) :
    ∃ created' blocks', Advances c n cs.made blocks created'
        ((c.engine n).commitManager.beforeCleanup (c.engine n).pendingSynchronizer i
          (cs.node n).state).2.pendingStore
        ((c.engine n).commitManager.beforeCleanup (c.engine n).pendingSynchronizer i
          (cs.node n).state).2.chainStore blocks' ∧
      ∀ pb, ((c.engine n).commitManager.beforeCleanup (c.engine n).pendingSynchronizer i
        (cs.node n).state).1 = .ok pb → PastBelow created' blocks' pb := by
  have hlives : ∀ f ∈ cs.made, ∀ p frame header, Proposes f p frame header →
      (votesOf cs.made).signed n p → endOf blocks ≤ header.offset →
        ¬ Majority c.members (RefusedIn (cs.node n).pendingStore p) →
          i.now < p + (c.commitConfig n).blockProposalTimeout := by
    intro f hf p frame header hp hsigned hahead hopen
    refine hallowed.lives f hf p frame header hp ⟨hsigned, ?_, ?_⟩
    · rw [h.toHoldsFramed.chainOf_eq]
      exact hahead
    · rw [← c.majority_iff n]
      exact hopen
  rcases beforeCleanup_cases (c.engine n).commitManager (c.engine n).pendingSynchronizer i
    (cs.node n).state with ⟨e, hres⟩ | ⟨pb, hnew, ⟨next, rest, signed, s₁, hpot, hsign, hres, hok⟩ |
      ⟨hres, hok⟩⟩
  · rw [hres]
    exact ⟨cs.made, blocks, advances_refl hl h, fun pb hpb => by contradiction⟩
  · have hpast := pastBelow_of_blocks hl h (pendingBlocks_new_eq_ok _ _ _ _ _ _ hnew)
    obtain ⟨created', f, frame, header, hadvances, hvoted⟩ := signOutcome_advances hread hl h hn
      hnode hfollows hallowed.signatureTime.1 hallowed.signatureTime.2 hlives hnew hpot
      (signNextBlock_eq_ok _ _ _ _ _ _ _ _ hsign)
    obtain ⟨blocks', hcommit⟩ := commit_advances hh hsigs hsize hadvances hvoted
    rw [hres]
    refine ⟨created', blocks', hcommit, ?_⟩
    intro pb' hpb
    obtain rfl := hok pb' hpb
    have hend := endOf_le_of_prefix hcommit.sound.toHoldsFramed.linked hcommit.grows
    exact (hpast.mono hadvances.sub hend).setBlock hvoted.status
  · have hpast := pastBelow_of_blocks hl h (pendingBlocks_new_eq_ok _ _ _ _ _ _ hnew)
    obtain ⟨created', hadvances⟩ := propose_advances (s := (cs.node n).state) hread hh hl h
      hallowed.proposalTime.1 hallowed.proposalTime.2 hallowed.small
    rw [hres]
    refine ⟨created', blocks, hadvances, ?_⟩
    intro pb' hpb
    obtain rfl := hok pb' hpb
    exact hpast.mono hadvances.sub le_rfl

end Ticks

end Exocore.Engine
