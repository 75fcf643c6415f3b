import Exocore.ClusterCleanup
import Exocore.EngineStatuses

/-! The chains of a cluster agree: whatever arrives where and when, of the chains of two nodes one
continues the other, as long as no node finds a proposal expired that it has signed. -/
namespace Exocore.Engine

open Exocore.Core Exocore.Chain Exocore.Pending Ballots SortedMap

section Stages
variable [Crates] {c : Cluster} {n : NodeId} {created : Set OperationFrame}
  {store store' : MemoryPendingStore} {chain : DirectoryChainStore} {blocks : List DataBlock}

/-- Nothing is created, and the groups of the live proposals are kept. -/
theorem advances_restore (hl : Ledger c created) (h : NodeSound c created n store chain blocks)
    (hkeeps : KeepsLive created blocks store store') (hstored : StoredIn store' created) :
    Advances c n created blocks created store' chain blocks where
  sub := subset_rfl
  held _ hf := Or.inl hf
  ledger := hl
  sound := h.restore hkeeps hstored
  others _ _ _ _ _ hsound := hsound
  grows := List.prefix_rfl
  follows _ hf _ _ _ _ := Or.inl hf

/-- Operations that arrive are put in the store. -/
theorem receive_advances (hl : Ledger c created) (h : NodeSound c created n store chain blocks)
    (p : PendingSynchronizer) (fromNode : NodeId) (request : Option PendingSyncRequest)
    (context : SyncContext)
    (hsent : ∀ r, request = some r → ∀ ranges, r.ranges.get = .ok ranges → ∀ range ∈ ranges,
      ∀ frames, range.operationsFrames.get = .ok frames →
        ∀ frame reader, FrameBrings frames frame reader → frame ∈ created) :
    Advances c n created blocks created
      (p.handleIncomingSyncRequest fromNode request ⟨context, store⟩).2.store chain blocks := by
  cases request with
  | none => exact advances_refl hl h
  | some r =>
    cases hranges : r.ranges.get with
    | error e =>
      have hsame : (p.handleIncomingSyncRequest fromNode (some r) ⟨context, store⟩).2.store =
          store := by
        rw [PendingSynchronizer.handleIncomingSyncRequest, orError_some, Action.lift_ok_bind,
          Action.get_bind, hranges]
        rfl
      rw [hsame]
      exact advances_refl hl h
    | ok ranges =>
      rw [handleIncomingSyncRequest_store p fromNode r ranges hranges]
      obtain ⟨hkeeps, hstored⟩ := handleIncomingSyncRangesLoop_keeps
        (fun st => KeepsLive created blocks store st ∧ StoredIn st created) _ ranges false
        (.new p.config) ⟨context, store⟩ ⟨.refl store, h.stored⟩ (by
          rintro range hrange frames hframes frame reader hbrings st existed st' ⟨hlive, hin⟩ hput
          have hmem := hsent r rfl ranges hranges range hrange frames hframes frame reader hbrings
          obtain ⟨hgroups, hproposals, hin', -⟩ := put_adds hl hin _ frame hmem existed hput
          exact ⟨hlive.trans ⟨fun P hP p frame header hp hle => hgroups p,
            fun P hP p frame header hp hle => hproposals P hP p⟩, hin'⟩)
      exact advances_restore hl h hkeeps hstored

/-- A new entry. -/
theorem ledger_enter (hl : Ledger c created) {f : OperationFrame} {id : ℕ} (hf : Enters f id)
    (hid : ∀ g ∈ created, frameId g ≠ id) (hinitial : ∀ b ∈ c.initial, ¬ HasOperation b id) :
    Ledger c (insert f created) := by
  have hentry : IsEntry f := ⟨id, hf⟩
  refine hl.insert f (Or.inl hentry) ?_ ?_ ?_ ?_ ?_
  · rw [hf.frameId_eq]
    exact hid
  · rw [hf.frameId_eq]
    exact hinitial
  · exact fun m p hv => absurd hv hentry.not_vote
  · exact fun p frame header hp => absurd hp hentry.not_proposes
  · rw [votesOf_insert_entry hentry]
    exact hl.fair

theorem enter_advances (hl : Ledger c created) (h : NodeSound c created n store chain blocks)
    (p : PendingSynchronizer) (operation : NewOperation) (context : SyncContext) (id : ℕ)
    (hf : Enters operation.frame id) (hid : ∀ g ∈ created, frameId g ≠ id)
    (hinitial : ∀ b ∈ c.initial, ¬ HasOperation b id) :
    ∃ created', Advances c n created blocks created'
      (p.handleNewOperation operation ⟨context, store⟩).2.store chain blocks := by
  have hentry : IsEntry operation.frame := ⟨id, hf⟩
  rcases handleNewOperation_store p operation ⟨context, store⟩ with
    ⟨-, hsame⟩ | ⟨existed, store', hput, hafter⟩
  · rw [hsame]
    exact ⟨created, advances_refl hl h⟩
  · rw [hafter]
    refine ⟨_, advances_create hl h operation.frame (ledger_enter hl hf hid hinitial) ?_
      (fun m p => hentry.not_vote) (fun p frame header hp => absurd hp hentry.not_proposes)
      operation.operationId existed hput⟩
    rw [hf.frameId_eq]
    exact hid

end Stages

section Runs
variable [Crates] {c : Cluster} {cs : ClusterState}

/-- What holds of the nodes of a cluster, and of all that they have created. -/
structure ClusterSound (c : Cluster) (cs : ClusterState) : Prop where
  ledger : Ledger c cs.made
  node : ∀ n, NodeSound c cs.made n (cs.node n).pendingStore (cs.node n).chainStore
    (chainOf (cs.node n).chainStore)
  follows : ∀ f ∈ cs.made, ∀ p frame header, Proposes f p frame header →
    ∃ m, FollowsIn (chainOf (cs.node m).chainStore) header

theorem clusterSound_start (h : c.Starts cs) : ClusterSound c cs := by
  have hmade : cs.made = ∅ := by
    ext f
    simp [ClusterState.made, h.created]
  refine ⟨hmade ▸ ledger_empty c, ?_, ?_⟩
  · intro n
    have hholds : HoldsFramed (cs.node n).chainStore c.initial := ⟨(h.holds n).loose, h.inStep n⟩
    have hstored : StoredIn (cs.node n).pendingStore ∅ := by
      intro g id f hf
      obtain ⟨ops, -, hops, -⟩ := (MemoryPendingStore.groupFrame_eq_some_iff _ g id f).mp hf
      rw [h.empty n] at hops
      simp [MemoryPendingStore.new] at hops
    have hunsigned (p : ℕ) : ¬ (votesOf ∅).signed n p := by
      rintro ⟨f, hf, -⟩
      exact hf
    rw [hmade, hholds.chainOf_eq]
    exact ⟨h.holds n, h.inStep n, ⟨[], (List.append_nil _).symm, by simp⟩, hstored,
      fun f hf => hf.elim, fun p offset hp => absurd hp (hunsigned p),
      fun p q offset hp => absurd hp (hunsigned p)⟩
  · intro f hf
    rw [hmade] at hf
    exact hf.elim

/-- One call of a node creates what it puts in its store, and keeps what holds of the node. -/
theorem ClusterSound.advances (hread : OperationsReadBack) (hh : HeadersReadBack)
    (hsigs : SignaturesReadBack) (hsize : SignaturesSizeFits) (h : ClusterSound c cs)
    (a : ClusterStep) (ha : c.Allows cs a) :
    ∃ created' blocks' chain', Advances c a.node cs.made (chainOf (cs.node a.node).chainStore)
        created' ((c.engine a.node).storeBeforeCleanup (cs.node a.node) a.step) chain' blocks' ∧
      NodeSound c created' a.node ((c.engine a.node).step (cs.node a.node) a.step).pendingStore
        ((c.engine a.node).step (cs.node a.node) a.step).chainStore blocks' := by
  obtain ⟨n, step⟩ := a
  obtain ⟨hn, hnode, hstep⟩ := ha
  have hsound := h.node n
  cases step with
  | pendingSyncRequest fromNode request =>
    have hadvances := receive_advances h.ledger hsound (c.engine n).pendingSynchronizer fromNode
      request (.new (cs.node n).syncState) hstep
    exact ⟨_, _, _, hadvances, hadvances.sound⟩
  | newOperation operation =>
    obtain ⟨id, hf, hid, hinitial⟩ := hstep
    obtain ⟨created', hadvances⟩ := enter_advances h.ledger hsound
      (c.engine n).pendingSynchronizer operation (.new (cs.node n).syncState) id hf hid hinitial
    exact ⟨created', _, _, hadvances, hadvances.sound⟩
  | pendingTick canSendRequest =>
    have hsame : ((c.engine n).pendingSynchronizer.tick canSendRequest
        ⟨.new (cs.node n).syncState, (cs.node n).pendingStore⟩).2.store =
          (cs.node n).pendingStore := pendingTick_store _ _ _
    have hadvances := advances_refl h.ledger hsound
    rw [← hsame] at hadvances
    exact ⟨_, _, _, hadvances, hadvances.sound⟩
  | commitTick i =>
    refine tick_advances hread hh hsigs hsize h.ledger hsound ((c.mem_members_iff n n).mpr hn)
      hnode ?_ hstep
    intro f hf p frame header hp
    obtain ⟨m, hfollows⟩ := h.follows f hf p frame header hp
    exact ⟨m, _, _, _, h.node m, hfollows⟩

/-- A step keeps what holds of the cluster, and no chain loses a block. -/
theorem ClusterSound.step (hread : OperationsReadBack) (hh : HeadersReadBack)
    (hsigs : SignaturesReadBack) (hsize : SignaturesSizeFits) (h : ClusterSound c cs)
    (a : ClusterStep) (ha : c.Allows cs a) :
    ClusterSound c (c.step cs a) ∧ ∀ n, chainOf (cs.node n).chainStore <+:
      chainOf ((c.step cs a).node n).chainStore := by
  obtain ⟨created', blocks', chain', hadvances, hafter⟩ :=
    h.advances hread hh hsigs hsize a ha
  have hmade : (c.step cs a).made = created' := by
    ext f
    have hmem : f ∈ (c.step cs a).made ↔ f ∈ cs.made ∨
        f ∈ storeFrames ((c.engine a.node).storeBeforeCleanup (cs.node a.node) a.step) :=
      List.mem_append
    rw [hmem]
    constructor
    · rintro (hf | hf)
      · exact hadvances.sub hf
      · obtain ⟨g, id, hg⟩ := (mem_storeFrames_iff _ f).mp hf
        exact hadvances.sound.stored g id f hg
    · exact hadvances.held f
  have hnode : (c.step cs a).node a.node = (c.engine a.node).step (cs.node a.node) a.step :=
    Function.update_self _ _ _
  have hother (n : NodeId) (hn : n ≠ a.node) : (c.step cs a).node n = cs.node n :=
    Function.update_of_ne hn _ _
  have hchain : chainOf ((c.step cs a).node a.node).chainStore = blocks' := by
    rw [hnode]
    exact hafter.toHoldsFramed.chainOf_eq
  have hgrows (n : NodeId) : chainOf (cs.node n).chainStore <+:
      chainOf ((c.step cs a).node n).chainStore := by
    by_cases hn : n = a.node
    · subst hn
      rw [hchain]
      exact hadvances.grows
    · rw [hother n hn]
  refine ⟨⟨?_, ?_, ?_⟩, hgrows⟩
  · rw [hmade]
    exact hadvances.ledger
  · intro n
    rw [hmade]
    by_cases hn : n = a.node
    · subst hn
      rw [hchain, hnode]
      exact hafter
    · rw [hother n hn]
      exact hadvances.others n hn _ _ _ (h.node n)
  · intro f hf p frame header hp
    rw [hmade] at hf
    rcases hadvances.follows f hf p frame header hp with hold | hnew
    · obtain ⟨m, hfollows⟩ := h.follows f hold p frame header hp
      exact ⟨m, hfollows.mono (hgrows m)⟩
    · exact ⟨a.node, hnew.mono (hgrows a.node)⟩

theorem ClusterSound.run (hread : OperationsReadBack) (hh : HeadersReadBack)
    (hsigs : SignaturesReadBack) (hsize : SignaturesSizeFits) (h : ClusterSound c cs)
    (steps : List ClusterStep) (hrun : Run.Allowed c.step c.Allows cs steps) :
    ClusterSound c (Run.exec c.step cs steps) ∧ ∀ n, chainOf (cs.node n).chainStore <+:
      chainOf ((Run.exec c.step cs steps).node n).chainStore := by
  refine Run.exec_invariant c.step c.Allows (fun s => ClusterSound c s ∧
    ∀ n, chainOf (cs.node n).chainStore <+: chainOf (s.node n).chainStore) ?_ cs steps
    ⟨h, fun n => List.prefix_rfl⟩ hrun
  rintro s a ⟨hs, hgrown⟩ ha
  obtain ⟨hsound, hgrows⟩ := hs.step hread hh hsigs hsize a ha
  exact ⟨hsound, fun n => (hgrown n).trans (hgrows n)⟩

/-- The chain of a node, up to the signatures that the node has put with each block. -/
def ClusterState.contents (cs : ClusterState) (n : NodeId) : List BlockContent :=
  (chainOf (cs.node n).chainStore).map contentOf

/-- The nodes of a cluster agree: the chain of a node at any moment, and that of another node then
or later, have the same blocks in the same order as far as both go. -/
theorem chains_agree (hread : OperationsReadBack) (hh : HeadersReadBack)
    (hsigs : SignaturesReadBack) (hsize : SignaturesSizeFits) (c : Cluster) (start : ClusterState)
    (hstart : c.Starts start) (before after : List ClusterStep)
    (hrun : Run.Allowed c.step c.Allows start (before ++ after)) (n m : NodeId) :
    (Run.exec c.step start before).contents n <+:
        (Run.exec c.step start (before ++ after)).contents m ∨
      (Run.exec c.step start (before ++ after)).contents m <+:
        (Run.exec c.step start before).contents n := by
  obtain ⟨hfirst, hrest⟩ := (Run.allowed_append_iff _ _ _ _ _).mp hrun
  obtain ⟨hmid, -⟩ := (clusterSound_start hstart).run hread hh hsigs hsize before hfirst
  obtain ⟨hsound, hgrown⟩ := hmid.run hread hh hsigs hsize after hrest
  rw [Run.exec_append]
  have hown : (Run.exec c.step start before).contents n <+:
      (Run.exec c.step (Run.exec c.step start before) after).contents n := (hgrown n).map contentOf
  rcases (hsound.node n).prefixes (hsound.node m) hsound.ledger with hle | hge
  · exact Or.inl (hown.trans hle)
  · exact List.prefix_or_prefix_of_prefix hown hge

end Runs

section Checks
variable [Crates] (c : Cluster) (cs : ClusterState)

/-- The id is new, evaluated. -/
def Cluster.isNew (id : ℕ) : Bool :=
  cs.created.all (fun f => decide (frameId f ≠ id)) &&
    c.initial.all fun b => decide (¬ HasOperation b id)

/-- The frame reads as one that was created, or does not read. -/
def ClusterState.isSent (data : Option Bytes) : Bool :=
  match data.map readOperationFrame with
  | some (.ok frame) => decide (frame ∈ cs.created)
  | _ => true

/-- Whether a step may happen, evaluated: ticks in the time of the first proposals. -/
def Cluster.checks (a : ClusterStep) : Bool :=
  decide (IsChainNode (c.cell a.node) a.node) && decide (NodeIdReadsBack a.node) &&
    match a.step with
    | .pendingSyncRequest _ request =>
      ((request.map fun r => (r.ranges.get.toOption.getD [])).getD []).all fun range =>
        (range.operationsFrames.get.toOption.getD []).all cs.isSent
    | .newOperation operation =>
      match operation.frame.frame.reader with
      | some ⟨_, id, some node, .entry (some data)⟩ =>
        decide (operation.frame.frame.reader =
          some (OperationBuilder.newEntry id ⟨node⟩ data).message) && c.isNew cs id
      | _ => false
    | .pendingTick _ => true
    | .commitTick i => c.isNew cs i.signatureTime && c.isNew cs i.proposalTime &&
        decide (i.now < (c.commitConfig a.node).blockProposalTimeout) &&
        decide ((framesData ((cs.node a.node).pendingStore.operations.map
          StoredOperation.frame)).length < 2^32)

theorem Cluster.new_of_isNew (id : ℕ) (h : c.isNew cs id = true) : c.New cs id := by
  simp only [isNew, Bool.and_eq_true, List.all_eq_true, decide_eq_true_eq] at h
  exact h

theorem Cluster.allows_of_checks (a : ClusterStep) (h : c.checks cs a = true) : c.Allows cs a := by
  obtain ⟨n, step⟩ := a
  simp only [checks, Bool.and_eq_true, decide_eq_true_eq] at h
  obtain ⟨⟨hn, hnode⟩, hstep⟩ := h
  refine ⟨hn, hnode, ?_⟩
  cases step with
  | pendingSyncRequest fromNode request =>
    rintro r rfl ranges hranges range hrange frames hframes frame reader ⟨data, hdata, hread, -⟩
    simp only [Option.map_some, Option.getD_some, hranges, Except.toOption,
      List.all_eq_true] at hstep
    have hframe := hstep range hrange (some data) (by simp only [hframes, Option.getD_some, hdata])
    simp only [ClusterState.isSent, Option.map_some, hread, decide_eq_true_eq] at hframe
    exact hframe
  | newOperation operation =>
    simp only at hstep
    split at hstep
    · rename_i g id node data hreader
      simp only [Bool.and_eq_true, decide_eq_true_eq] at hstep
      exact ⟨id, ⟨⟨node⟩, data, hstep.1⟩, c.new_of_isNew cs id hstep.2⟩
    · contradiction
  | pendingTick canSendRequest => trivial
  | commitTick i =>
    simp only [Bool.and_eq_true, decide_eq_true_eq] at hstep
    obtain ⟨⟨⟨hsignature, hproposal⟩, hearly⟩, hsmall⟩ := hstep
    refine ⟨c.new_of_isNew cs _ hsignature, c.new_of_isNew cs _ hproposal, ?_, hsmall⟩
    intro f hf p frame header hp hbound
    exact lt_of_lt_of_le hearly (Nat.le_add_left _ p)

theorem Cluster.allowed_of_checks (steps : List ClusterStep)
    (h : Run.Allowed c.step (fun cs a => c.checks cs a = true) cs steps) :
    Run.Allowed c.step c.Allows cs steps := by
  induction steps generalizing cs with
  | nil => trivial
  | cons a rest ih => exact ⟨c.allows_of_checks cs a h.1, ih _ h.2⟩

end Checks

section Samples

/-- The entry, its proposal and the two signatures, as the nodes make them. -/
def clusterTables : Tables where
  operations := [(fiftyMessage, fiftyOperation),
    (proposeMessage nextHeader nextHeaderMultihash, proposeOperation nextHeader nextHeaderMultihash),
    (signMessage 100 103 otherNodeText, signOperation 100 103 otherNode),
    (signMessage 100 110 firstNodeText, signOperation 100 110 firstNode)]
  headers := [(genesisMessage, genesisHeader), (proposedMessage nextHeader, nextHeader)]
  signatures := [(emptySignaturesMessage, ⟨0, some []⟩),
    emptySignatures 170 [(firstNode, firstNodeText), (otherNode, otherNodeText)],
    emptySignatures 170 [(otherNode, otherNodeText), (firstNode, firstNodeText)]]
  digests := [(fiftyMultihash, fiftyHash.drop 2),
    (proposedMessage nextHeader, nextHeaderMultihash.drop 2),
    (proposeMessage nextHeader nextHeaderMultihash, proposalMultihash.drop 2),
    (signMessage 100 103 otherNodeText, sign103Multihash.drop 2),
    (signMessage 100 110 firstNodeText, sign110Multihash.drop 2),
    (fiftyMultihash ++ proposalMultihash ++ sign103Multihash, signedHash.drop 2)]
  nodeIds := [firstNode, otherNode]

@[reducible] def clusterCrates : Crates := clusterTables.crates

attribute [local instance] clusterCrates

def enteredFrame : OperationFrame :=
  ⟨⟨fiftyBytes, fiftyMultihash, some fiftyOperation⟩, by decide +kernel⟩

theorem pairNodes_nodup :
    (([⟨⟨firstNode⟩, [.chain]⟩, ⟨⟨otherNode⟩, [.chain]⟩] : List CellNode).map
      CellNode.id).Nodup := by decide

/-- Two chain nodes that propose as soon as there is an entry. -/
def pairCluster : Cluster where
  nodes := [⟨⟨firstNode⟩, [.chain]⟩, ⟨⟨otherNode⟩, [.chain]⟩]
  nodup := pairNodes_nodup
  commitConfig _ := { CommitManagerConfig.default with commitMaximumPendingStoreCount := 1 }
  syncConfig _ := ⟨30, 2⟩
  initial := [genesisBlock]

def pairChain : DirectoryChainStore :=
  ((DirectoryChainStore.create ⟨0, 10000, 10⟩).writeBlock genesisBlock).2

def pairStart : ClusterState := ⟨fun _ => ⟨⟨none⟩, .new, pairChain⟩, []⟩

theorem pairStart_starts : pairCluster.Starts pairStart := by
  have hgenesis : WellFormed genesisBlock := wellFormedCheck_sound _ (by decide +kernel)
  have hholds := (holds_create ⟨0, 10000, 10⟩).writeBlock genesisBlock hgenesis rfl
  obtain ⟨s', hwrite, hstrict⟩ := writeBlock_holds True (DirectoryChainStore.create ⟨0, 10000, 10⟩)
    [] genesisBlock (storeHolds_create True _) hgenesis.toFramed hgenesis.indexable rfl
    (by decide +kernel)
  have hinStep : CursorsInStep pairChain := hholds.2.inStep
  have hstored : StoreHolds True pairChain [genesisBlock] := by
    rw [pairChain, hwrite]
    exact hstrict
  have hchain (n : NodeId) : (pairStart.node n).chainStore = pairChain := by
    simp only [pairStart]
  refine ⟨fun _ => rfl, rfl, fun n => ?_, fun n => ?_⟩
  · rw [hchain]
    exact hstored
  · rw [hchain]
    exact hinStep

def clockAt (time : ℕ) : TickInput :=
  ⟨time, time, time, time, .same, fun _ => .same, Sorting.searchSorter bestFirst,
    fun a b => a / b, false⟩

/-- The frames arrive in one range. -/
def arrives (fromNode : String) (hash : Bytes) (frames : List Bytes) : NodeStep :=
  .pendingSyncRequest ⟨fromNode⟩ (some
    ⟨.list [⟨0, false, 0, false, some hash, frames.length, .list (frames.map some), .null⟩], 0⟩)

/-- The second node proposes the entry and signs it, and the first node commits. -/
def pairCommits : List ClusterStep :=
  [⟨⟨otherNode⟩, .newOperation ⟨50, enteredFrame⟩⟩, ⟨⟨otherNode⟩, .commitTick (clockAt 100)⟩,
    ⟨⟨otherNode⟩, .commitTick (clockAt 103)⟩,
    ⟨⟨firstNode⟩, arrives otherNode signedHash [fiftyBytes,
      proposeBytes nextHeader nextHeaderMultihash proposalMultihash,
      signBytes 100 103 otherNodeText sign103Multihash]⟩,
    ⟨⟨firstNode⟩, .commitTick (clockAt 110)⟩]

/-- The signature of the first node gets to the second. -/
def pairFollows : List ClusterStep :=
  [⟨⟨otherNode⟩, arrives firstNode sign110Hash [signBytes 100 110 firstNodeText sign110Multihash]⟩,
    ⟨⟨otherNode⟩, .commitTick (clockAt 120)⟩]

theorem clusterTables_operations : OperationsReadBack :=
  operationsReadBack_tables clusterTables (by decide +kernel) (by decide +kernel)

theorem clusterTables_headers : HeadersReadBack :=
  headersReadBack_tables clusterTables (by decide +kernel) (by decide +kernel) (by decide +kernel)

theorem clusterTables_signatures : SignaturesReadBack :=
  signaturesReadBack_tables clusterTables (by decide +kernel) (by decide +kernel)

theorem clusterTables_sizes : SignaturesSizeFits :=
  signaturesSizeFits_tables clusterTables (by decide +kernel)

/-- Each step of the run may happen, and both nodes commit a block. -/
theorem pairRun_checks :
    Run.Allowed pairCluster.step (fun cs a => pairCluster.checks cs a = true) pairStart
        (pairCommits ++ pairFollows) ∧
      ((Run.exec pairCluster.step pairStart pairCommits).contents ⟨firstNode⟩).length = 2 ∧
      ((Run.exec pairCluster.step pairStart (pairCommits ++ pairFollows)).contents
        ⟨otherNode⟩).length = 2 := by
  decide +kernel

/-- The first node has the block before its signature gets to the second, which then follows. -/
theorem chains_agree_pair :
    (Run.exec pairCluster.step pairStart pairCommits).contents ⟨firstNode⟩ <+:
        (Run.exec pairCluster.step pairStart (pairCommits ++ pairFollows)).contents ⟨otherNode⟩ ∨
      (Run.exec pairCluster.step pairStart (pairCommits ++ pairFollows)).contents ⟨otherNode⟩ <+:
        (Run.exec pairCluster.step pairStart pairCommits).contents ⟨firstNode⟩ :=
  chains_agree clusterTables_operations clusterTables_headers clusterTables_signatures
    clusterTables_sizes pairCluster pairStart pairStart_starts pairCommits pairFollows
    (pairCluster.allowed_of_checks pairStart _ pairRun_checks.1) ⟨firstNode⟩ ⟨otherNode⟩

end Samples

end Exocore.Engine
