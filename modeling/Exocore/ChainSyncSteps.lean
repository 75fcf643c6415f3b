import Exocore.ChainSync

/-! What each part of a tick of the chain synchronizer does to its state. -/
namespace Exocore.Engine

open Exocore.Core Exocore.Chain

namespace ChainSynchronizer

@[simp] theorem nodeInfo_createNodeInfo (s : ChainSynchronizer) (nodeId id : NodeId) :
    (s.createNodeInfo nodeId).nodeInfo id = s.nodeInfo id := by
  rw [createNodeInfo]
  split_ifs with hmem
  · rfl
  · have hnone : s.nodesInfo.lookup nodeId = none := AList.lookup_eq_none.mpr hmem
    by_cases hid : id = nodeId
    · rw [hid, nodeInfo, nodeInfo, AList.lookup_insert, hnone]
      rfl
    · rw [nodeInfo, nodeInfo, AList.lookup_insert_ne hid]

theorem nodeInfo_setNodeInfo (s : ChainSynchronizer) (info : NodeSyncInfo) (id : NodeId) :
    (s.setNodeInfo info).nodeInfo id = if id = info.nodeId then info else s.nodeInfo id := by
  split_ifs with hid
  · rw [hid, setNodeInfo, nodeInfo, AList.lookup_insert]
    rfl
  · rw [setNodeInfo, nodeInfo, nodeInfo, AList.lookup_insert_ne hid]

@[simp] theorem nodeInfo_new (config : ChainSyncConfig) (cell : Cell) (id : NodeId) :
    (new config cell).nodeInfo id = .new id := rfl

@[simp] theorem nodeInfo_resetState (s : ChainSynchronizer) (id : NodeId) :
    s.resetState.nodeInfo id = .new id := rfl

theorem createNodeInfo_eq (s : ChainSynchronizer) (nodeId : NodeId) :
    (s.createNodeInfo nodeId).config = s.config ∧ (s.createNodeInfo nodeId).cell = s.cell ∧
      (s.createNodeInfo nodeId).status = s.status ∧ (s.createNodeInfo nodeId).leader = s.leader := by
  rw [createNodeInfo]
  split_ifs <;> simp

/-- The infos of the two are the same, and what they were made for. -/
structure SameInfos (s s' : ChainSynchronizer) : Prop where
  config : s'.config = s.config
  cell : s'.cell = s.cell
  infos : ∀ id, s'.nodeInfo id = s.nodeInfo id

theorem SameInfos.refl (s : ChainSynchronizer) : SameInfos s s := ⟨rfl, rfl, fun _ => rfl⟩

theorem SameInfos.trans {a b c : ChainSynchronizer} (h : SameInfos a b) (h' : SameInfos b c) :
    SameInfos a c :=
  ⟨h'.config.trans h.config, h'.cell.trans h.cell, fun id => (h'.infos id).trans (h.infos id)⟩

theorem sameInfos_createNodeInfo (s : ChainSynchronizer) (nodeId : NodeId) :
    SameInfos s (s.createNodeInfo nodeId) := by
  obtain ⟨hconfig, hcell, -, -⟩ := s.createNodeInfo_eq nodeId
  exact ⟨hconfig, hcell, fun id => s.nodeInfo_createNodeInfo nodeId id⟩

/-- Every info is the one of the node it is kept for. -/
def Keyed (s : ChainSynchronizer) : Prop := ∀ id, (s.nodeInfo id).nodeId = id

theorem SameInfos.keyed {s s' : ChainSynchronizer} (h : SameInfos s s') (hs : s.Keyed) :
    s'.Keyed := fun id => (congrArg _ (h.infos id)).trans (hs id)

theorem keyed_setNodeInfo (s : ChainSynchronizer) (info : NodeSyncInfo) (hs : s.Keyed) :
    (s.setNodeInfo info).Keyed := by
  intro id
  rw [nodeInfo_setNodeInfo]
  split_ifs with hid
  · exact hid.symm
  · exact hs id

/-- A node of the cell that counts as synchronized. -/
def isMetadataSync (s : ChainSynchronizer) (node : CellNode) : Bool :=
  node.id = s.cell.localNode || (s.nodeInfo node.id).lastCommonIsKnown

/-- The chain nodes whose last common block is known, the local one included. -/
def nodesMetadataSync (s : ChainSynchronizer) : ℕ :=
  ((s.cell.withRole .chain).filter s.isMetadataSync).length

theorem SameInfos.nodesMetadataSync {s s' : ChainSynchronizer} (h : SameInfos s s') :
    s'.nodesMetadataSync = s.nodesMetadataSync := by
  have hsame : s'.isMetadataSync = s.isMetadataSync := by
    funext node
    rw [isMetadataSync, isMetadataSync, h.cell, h.infos]
  rw [ChainSynchronizer.nodesMetadataSync, hsame, h.cell]
  rfl

/-- What `check_status` leaves of an info: only the mark of the common block may go. -/
structure Checked (s s' : ChainSynchronizer) : Prop where
  config : s'.config = s.config
  cell : s'.cell = s.cell
  status : s'.status = s.status
  leader : s'.leader = s.leader
  infos : ∀ id, s'.nodeInfo id = s.nodeInfo id ∨
    s'.nodeInfo id = { s.nodeInfo id with lastCommonIsKnown := false }

theorem Checked.refl (s : ChainSynchronizer) : Checked s s :=
  ⟨rfl, rfl, rfl, rfl, fun _ => Or.inl rfl⟩

theorem Checked.trans {a b c : ChainSynchronizer} (h : Checked a b) (h' : Checked b c) :
    Checked a c := by
  refine ⟨h'.config.trans h.config, h'.cell.trans h.cell, h'.status.trans h.status,
    h'.leader.trans h.leader, ?_⟩
  intro id
  rcases h.infos id with hb | hb <;> rcases h'.infos id with hc | hc
  · exact Or.inl (hc.trans hb)
  · exact Or.inr (by rw [hc, hb])
  · exact Or.inr (by rw [hc, hb])
  · exact Or.inr (by rw [hc, hb])

theorem Checked.keyed {s s' : ChainSynchronizer} (h : Checked s s') (hs : s.Keyed) : s'.Keyed := by
  intro id
  rcases h.infos id with hid | hid <;> rw [hid]
  · exact hs id
  · exact hs id

/-- One node of the loop of `check_nodes_status`. -/
def checkNode (i : ChainSyncInput) (s : ChainSynchronizer) (nodeId : NodeId) : ChainSynchronizer :=
  let s := s.createNodeInfo nodeId
  s.setNodeInfo ((s.nodeInfo nodeId).checkStatus s.config (i.responseFailureCount nodeId))

theorem nodeInfo_checkNode (i : ChainSyncInput) (s : ChainSynchronizer) (hs : s.Keyed)
    (nodeId id : NodeId) :
    (checkNode i s nodeId).nodeInfo id =
      if id = nodeId then (s.nodeInfo nodeId).checkStatus s.config (i.responseFailureCount nodeId)
      else s.nodeInfo id := by
  obtain ⟨hconfig, -⟩ := s.createNodeInfo_eq nodeId
  rw [checkNode, nodeInfo_setNodeInfo, nodeInfo_createNodeInfo, hconfig, nodeInfo_createNodeInfo]
  have hid : ((s.nodeInfo nodeId).checkStatus s.config (i.responseFailureCount nodeId)).nodeId =
      nodeId := hs nodeId
  rw [hid]

theorem checkNode_checked (i : ChainSyncInput) (s : ChainSynchronizer) (hs : s.Keyed)
    (nodeId : NodeId) : Checked s (checkNode i s nodeId) := by
  obtain ⟨hconfig, hcell, hstatus, hleader⟩ := s.createNodeInfo_eq nodeId
  refine ⟨hconfig, hcell, hstatus, hleader, ?_⟩
  intro id
  rw [nodeInfo_checkNode i s hs]
  split_ifs with hid
  · rw [hid, NodeSyncInfo.checkStatus]
    cases hknown : (s.nodeInfo nodeId).lastCommonIsKnown &&
        !decide (i.responseFailureCount nodeId ≥ s.config.metaSyncMaxFailures)
    · exact Or.inr rfl
    · have hset := (Bool.and_eq_true_iff.mp hknown).1
      left
      rw [← hset]
  · exact Or.inl rfl

theorem status_eq_iff (info : NodeSyncInfo) :
    info.status = .synchronized ↔ info.lastCommonIsKnown = true := by
  rw [NodeSyncInfo.status]
  split_ifs with h <;> simp [h]

theorem checkStatuses_other (i : ChainSyncInput) (node : CellNode) (rest : List CellNode)
    (count : ℕ) (s : ChainSynchronizer) (hs : s.Keyed) (hother : node.id ≠ s.cell.localNode) :
    checkStatuses i (node :: rest) count s =
      checkStatuses i rest
        (if ((checkNode i s node.id).nodeInfo node.id).lastCommonIsKnown then count + 1 else count)
        (checkNode i s node.id) := by
  obtain ⟨hconfig, -⟩ := s.createNodeInfo_eq node.id
  have hinfo : (checkNode i s node.id).nodeInfo node.id =
      ((s.createNodeInfo node.id).nodeInfo node.id).checkStatus (s.createNodeInfo node.id).config
        (i.responseFailureCount node.id) := by
    rw [nodeInfo_checkNode i s hs, if_pos rfl, nodeInfo_createNodeInfo, hconfig]
  rw [checkStatuses, if_neg hother, hinfo]
  simp only [status_eq_iff]
  rfl

/-- The loop counts the nodes whose last common block is known once it is through. -/
theorem checkStatuses_spec (i : ChainSyncInput) (nodes : List CellNode) (count : ℕ)
    (s : ChainSynchronizer) (hs : s.Keyed) (hnodup : (nodes.map CellNode.id).Nodup) :
    Checked s (checkStatuses i nodes count s).2 ∧
      (∀ id, id ∉ nodes.map CellNode.id →
        (checkStatuses i nodes count s).2.nodeInfo id = s.nodeInfo id) ∧
      (checkStatuses i nodes count s).1 =
        count + (nodes.filter (checkStatuses i nodes count s).2.isMetadataSync).length := by
  induction nodes generalizing count s with
  | nil => exact ⟨.refl s, fun _ _ => rfl, rfl⟩
  | cons node rest ih =>
    rw [List.map_cons, List.nodup_cons] at hnodup
    by_cases hlocal : node.id = s.cell.localNode
    · rw [checkStatuses, if_pos hlocal]
      obtain ⟨hchecked, hrest, hcount⟩ := ih (count + 1) s hs hnodup.2
      refine ⟨hchecked, fun id hid => hrest id (fun h => hid (List.mem_cons_of_mem _ h)), ?_⟩
      have hsync : (checkStatuses i rest (count + 1) s).2.isMetadataSync node = true := by
        rw [isMetadataSync, hchecked.cell]
        simp [hlocal]
      rw [hcount, List.filter_cons_of_pos hsync, List.length_cons]
      omega
    · rw [checkStatuses_other i node rest count s hs hlocal]
      have hnext := checkNode_checked i s hs node.id
      obtain ⟨hchecked, hrest, hcount⟩ := ih
        (if ((checkNode i s node.id).nodeInfo node.id).lastCommonIsKnown then count + 1 else count)
        (checkNode i s node.id) (hnext.keyed hs) hnodup.2
      refine ⟨hnext.trans hchecked, ?_, ?_⟩
      · intro id hid
        rw [List.map_cons, List.mem_cons, not_or] at hid
        rw [hrest id hid.2, nodeInfo_checkNode i s hs, if_neg hid.1]
      · -- the info of the node is not touched again
        have hstays := hrest node.id hnodup.1
        rw [hcount, List.filter_cons, isMetadataSync, hchecked.cell, hnext.cell, hstays]
        simp only [hlocal, decide_false, Bool.false_or]
        split_ifs
        · rw [List.length_cons]
          omega
        · rfl

/-- The infos after the loop: those of the nodes are checked, the others as they were. -/
theorem checkStatuses_nodeInfo (i : ChainSyncInput) (nodes : List CellNode) (count : ℕ)
    (s : ChainSynchronizer) (hs : s.Keyed) (hnodup : (nodes.map CellNode.id).Nodup) (id : NodeId) :
    (checkStatuses i nodes count s).2.nodeInfo id =
      if id ∈ nodes.map CellNode.id ∧ id ≠ s.cell.localNode then
        (s.nodeInfo id).checkStatus s.config (i.responseFailureCount id)
      else s.nodeInfo id := by
  induction nodes generalizing count s with
  | nil => simp [checkStatuses]
  | cons node rest ih =>
    rw [List.map_cons, List.nodup_cons] at hnodup
    simp only [List.map_cons, List.mem_cons]
    by_cases hlocal : node.id = s.cell.localNode
    · rw [checkStatuses, if_pos hlocal, ih (count + 1) s hs hnodup.2]
      by_cases hid : id = s.cell.localNode
      · rw [if_neg fun h => h.2 hid, if_neg fun h => h.2 hid]
      · have hne : id ≠ node.id := fun h => hid (h.trans hlocal)
        simp only [hne, false_or]
    · have hnext := checkNode_checked i s hs node.id
      rw [checkStatuses_other i node rest count s hs hlocal,
        ih _ (checkNode i s node.id) (hnext.keyed hs) hnodup.2, nodeInfo_checkNode i s hs,
        hnext.config, hnext.cell]
      by_cases hid : id = node.id
      · rw [if_neg fun h => hnodup.1 (hid ▸ h.1), if_pos hid,
          if_pos ⟨Or.inl hid, fun h => hlocal (hid.symm.trans h)⟩, hid]
      · simp only [hid, false_or, if_false]

theorem checkNodesStatus_nodeInfo (i : ChainSyncInput) (s : ChainSynchronizer) (hs : s.Keyed)
    (id : NodeId) :
    (checkNodesStatus i s).2.nodeInfo id =
      if id ∈ s.otherChainNodes then
        (s.nodeInfo id).checkStatus s.config (i.responseFailureCount id)
      else s.nodeInfo id := by
  have hnodup : ((s.cell.withRole .chain).map CellNode.id).Nodup :=
    s.cell.nodup.sublist (List.Sublist.map _ List.filter_sublist)
  have hmem : id ∈ s.otherChainNodes ↔
      id ∈ (s.cell.withRole .chain).map CellNode.id ∧ id ≠ s.cell.localNode := by
    rw [otherChainNodes, List.mem_map, List.mem_map]
    constructor
    · rintro ⟨node, hnode, rfl⟩
      rw [List.mem_filter] at hnode
      exact ⟨⟨node, hnode.1, rfl⟩, by simpa using hnode.2⟩
    · rintro ⟨⟨node, hnode, rfl⟩, hne⟩
      exact ⟨node, List.mem_filter.mpr ⟨hnode, by simpa using hne⟩, rfl⟩
  rw [checkNodesStatus, checkStatuses_nodeInfo i _ 0 s hs hnodup]
  simp only [hmem]

theorem checkNodesStatus_spec (i : ChainSyncInput) (s : ChainSynchronizer) (hs : s.Keyed) :
    Checked s (checkNodesStatus i s).2 ∧
      (checkNodesStatus i s).1 = (checkNodesStatus i s).2.nodesMetadataSync := by
  have hnodup : ((s.cell.withRole .chain).map CellNode.id).Nodup :=
    s.cell.nodup.sublist (List.Sublist.map _ List.filter_sublist)
  obtain ⟨hchecked, -, hcount⟩ := checkStatuses_spec i (s.cell.withRole .chain) 0 s hs hnodup
  refine ⟨hchecked, ?_⟩
  rw [checkNodesStatus, hcount, nodesMetadataSync, hchecked.cell, Nat.zero_add]

/-- A candidate is the info of a node whose chain is known. -/
theorem findMaybeLeader_spec (i : ChainSyncInput) (s : ChainSynchronizer) (info : NodeSyncInfo)
    (height : ℕ) (h : findMaybeLeader i s = some (info, height)) :
    ∃ id known, s.nodeInfo id = info ∧ info.lastKnownBlock = some known ∧ known.height = height ∧
      info.lastCommonIsKnown = true := by
  have hmem := Sorting.maxByKey_mem _ _ _ h
  rw [List.mem_filterMap] at hmem
  obtain ⟨info', hinfo', hcandidate⟩ := hmem
  rw [Sorting.ValuesOrder.mem_order, List.mem_map] at hinfo'
  obtain ⟨entry, hentry, rfl⟩ := hinfo'
  have hlookup : s.nodesInfo.lookup entry.1 = some entry.2 := AList.mem_lookup_iff.mpr hentry
  have hnode : s.nodeInfo entry.1 = entry.2 := by
    rw [nodeInfo, hlookup]
    rfl
  rw [leaderCandidate] at hcandidate
  cases hknown : entry.2.lastKnownBlock with
  | none => simp [hknown] at hcandidate
  | some known =>
    rw [hknown] at hcandidate
    by_cases hstatus : entry.2.status = .synchronized
    · simp only [if_pos hstatus, Option.some.injEq, Prod.mk.injEq] at hcandidate
      refine ⟨entry.1, known, hnode.trans hcandidate.1, ?_, hcandidate.2, ?_⟩
      · rw [← hcandidate.1, hknown]
      · rw [← hcandidate.1]
        exact (status_eq_iff entry.2).mp hstatus
    · simp [if_neg hstatus] at hcandidate

/-- No other node whose chain is known has a higher last block than the candidate. -/
theorem findMaybeLeader_le (i : ChainSyncInput) (s : ChainSynchronizer) (info : NodeSyncInfo)
    (height : ℕ) (h : findMaybeLeader i s = some (info, height)) (id : NodeId)
    (known : BlockMetadata) (hknown : (s.nodeInfo id).lastKnownBlock = some known)
    (hsync : (s.nodeInfo id).lastCommonIsKnown = true) : known.height ≤ height := by
  have hlookup : s.nodesInfo.lookup id = some (s.nodeInfo id) := by
    cases hfound : s.nodesInfo.lookup id with
    | none =>
      rw [nodeInfo, hfound] at hknown
      simp [NodeSyncInfo.new] at hknown
    | some found =>
      rw [nodeInfo, hfound]
      rfl
  have hentry : (⟨id, s.nodeInfo id⟩ : Sigma fun _ : NodeId => NodeSyncInfo) ∈
      s.nodesInfo.entries := AList.mem_lookup_iff.mp hlookup
  refine Sorting.maxByKey_le Prod.snd _ _ (s.nodeInfo id, known.height) h ?_
  rw [List.mem_filterMap]
  refine ⟨s.nodeInfo id, ?_, ?_⟩
  · rw [Sorting.ValuesOrder.mem_order, List.mem_map]
    exact ⟨_, hentry, rfl⟩
  · rw [leaderCandidate, hknown]
    simp only
    rw [if_pos ((status_eq_iff _).mpr hsync)]

theorem electLeader_cases (localNode : NodeId) (lastBlock : Option DataBlock)
    (maybeLeader : Option (NodeSyncInfo × ℕ)) (id : NodeId)
    (h : electLeader localNode lastBlock maybeLeader = .ok (some id)) :
    id = localNode ∨ ∃ info height, maybeLeader = some (info, height) ∧ id = info.nodeId := by
  cases maybeLeader with
  | none =>
    cases lastBlock with
    | none => simp [electLeader] at h
    | some block =>
      simp only [electLeader, Option.map_some, Except.ok.injEq, Option.some.injEq] at h
      exact Or.inl h.symm
  | some candidate =>
    obtain ⟨info, height⟩ := candidate
    cases lastBlock with
    | none =>
      simp only [electLeader, Except.ok.injEq, Option.some.injEq] at h
      exact Or.inr ⟨info, height, rfl, h.symm⟩
    | some block =>
      rw [electLeader, bind_eq_ok_iff] at h
      obtain ⟨localHeight, -, h⟩ := h
      have hid := Option.some.inj (Except.ok.inj h)
      split_ifs at hid with hgt
      · exact Or.inl hid.symm
      · exact Or.inr ⟨info, height, rfl, hid.symm⟩

section Actions
variable {CS : Type}

/-- A call that leaves the store, the infos, the status and the lead node as they are. -/
structure Quiet (s s' : ChainSyncState CS) : Prop where
  store : s'.store = s.store
  infos : SameInfos s.synchronizer s'.synchronizer
  status : s'.synchronizer.status = s.synchronizer.status
  leader : s'.synchronizer.leader = s.synchronizer.leader

theorem Quiet.refl (s : ChainSyncState CS) : Quiet s s := ⟨rfl, .refl _, rfl, rfl⟩

theorem Quiet.trans {a b c : ChainSyncState CS} (h : Quiet a b) (h' : Quiet b c) : Quiet a c :=
  ⟨h'.store.trans h.store, h.infos.trans h'.infos, h'.status.trans h.status,
    h'.leader.trans h.leader⟩

theorem getOrCreateNodeInfo_eq (nodeId : NodeId) (s : ChainSyncState CS) :
    getOrCreateNodeInfo nodeId s = (.ok (s.synchronizer.nodeInfo nodeId),
      { s with synchronizer := s.synchronizer.createNodeInfo nodeId }) := by
  rw [getOrCreateNodeInfo, nodeInfo_createNodeInfo]

theorem getOrCreateNodeInfo_bind {A : Type} (nodeId : NodeId)
    (f : NodeSyncInfo → Action (ChainSyncState CS) EngineError A) (s : ChainSyncState CS) :
    (getOrCreateNodeInfo nodeId >>= f) s = f (s.synchronizer.nodeInfo nodeId)
      { s with synchronizer := s.synchronizer.createNodeInfo nodeId } :=
  Action.bind_of_ok _ _ _ _ _ (getOrCreateNodeInfo_eq nodeId s)

theorem quiet_createNodeInfo (s : ChainSyncState CS) (nodeId : NodeId) :
    Quiet s { s with synchronizer := s.synchronizer.createNodeInfo nodeId } := by
  obtain ⟨-, -, hstatus, hleader⟩ := s.synchronizer.createNodeInfo_eq nodeId
  exact ⟨rfl, sameInfos_createNodeInfo s.synchronizer nodeId, hstatus, hleader⟩

theorem synchronizeNodesMetadata_quiet (i : ChainSyncInput) (nodes : List NodeId)
    (s : ChainSyncState CS) :
    (synchronizeNodesMetadata i nodes s).1 = .ok () ∧
      Quiet s (synchronizeNodesMetadata i nodes s).2 := by
  induction nodes generalizing s with
  | nil => exact ⟨rfl, .refl s⟩
  | cons nodeId rest ih =>
    rw [synchronizeNodesMetadata, getOrCreateNodeInfo_bind]
    have hquiet := quiet_createNodeInfo s nodeId
    split_ifs with hsend
    · obtain ⟨hok, hrest⟩ := ih { s with
        synchronizer := s.synchronizer.createNodeInfo nodeId
        syncContext := s.syncContext.pushChainSyncRequest nodeId
          (createSyncRequest (s.synchronizer.nodeInfo nodeId) .headers none) }
      refine ⟨hok, hquiet.trans ?_⟩
      exact ⟨hrest.store, hrest.infos, hrest.status, hrest.leader⟩
    · obtain ⟨hok, hrest⟩ := ih { s with
        synchronizer := s.synchronizer.createNodeInfo nodeId }
      exact ⟨hok, hquiet.trans hrest⟩

/-- The end of a synchronized state drops the lead node with the status. -/
theorem loseLeader_cases (i : ChainSyncInput) (s : ChainSyncState CS) :
    Quiet s (loseLeader i s).2 ∨
      ((loseLeader i s).1 = .ok () ∧ (loseLeader i s).2.store = s.store ∧
        SameInfos s.synchronizer (loseLeader i s).2.synchronizer ∧
        s.synchronizer.status = .synchronized ∧
        (loseLeader i s).2.synchronizer.status = .unknown ∧
        (loseLeader i s).2.synchronizer.leader = none) := by
  rw [loseLeader, Action.get_bind]
  split_ifs with hsync
  · cases hleader : s.synchronizer.leader with
    | none => exact Or.inl (.refl s)
    | some leaderNodeId =>
      simp only [getOrCreateNodeInfo_bind]
      have hquiet := quiet_createNodeInfo s leaderNodeId
      cases (s.synchronizer.nodeInfo leaderNodeId).commonBlocksHeightDelta i.overflowChecks with
      | error e => exact Or.inl hquiet
      | ok delta =>
        simp only [Action.lift_ok_bind]
        split_ifs with hlost
        · exact Or.inr ⟨rfl, rfl, ⟨hquiet.infos.config, hquiet.infos.cell, hquiet.infos.infos⟩,
            hsync.1, rfl, rfl⟩
        · exact Or.inl hquiet
  · exact Or.inl (.refl s)

theorem initiateDownload_cases (i : ChainSyncInput) (leader : NodeId) (info : NodeSyncInfo)
    (s : ChainSyncState CS) :
    Quiet s (initiateDownload i leader info s).2 ∨
      initiateDownload i leader info s = (.ok (), { s with
        synchronizer := { s.synchronizer with status := .downloading }
        syncContext := s.syncContext.pushChainSyncRequest leader (createSyncRequest info .blocks
          (some ((info.lastKnownBlock.map BlockMetadata.offset).getD 0))) }) := by
  rw [initiateDownload, Action.get_bind]
  split_ifs
  · exact Or.inl (.refl s)
  · exact Or.inl (.refl s)
  · exact Or.inr rfl

variable [ChainRangeStore CS]

theorem countNonDivergent_quiet (nodes : List NodeId) (count : ℕ) (s : ChainSyncState CS) :
    Quiet s (countNonDivergent nodes count s).2 := by
  induction nodes generalizing count s with
  | nil => exact .refl s
  | cons nodeId rest ih =>
    rw [countNonDivergent, getOrCreateNodeInfo_bind, Action.get_bind]
    have hquiet := quiet_createNodeInfo s nodeId
    cases (s.synchronizer.nodeInfo nodeId).isDivergent s.store with
    | error e => exact hquiet
    | ok isDivergent => exact hquiet.trans (ih _ _)

/-- An election sets the lead node to the local one, to one whose last block is known, or to
none. -/
theorem findLeaderNode_cases (i : ChainSyncInput) (s : ChainSyncState CS)
    (hkeyed : s.synchronizer.Keyed) :
    (findLeaderNode i s).2 = s ∨
      ∃ leader, findLeaderNode i s = (.ok (), { s with
          synchronizer := { s.synchronizer with leader := leader } }) ∧
        ∀ id, leader = some id → id ≠ s.synchronizer.cell.localNode →
          (s.synchronizer.nodeInfo id).lastKnownBlock.isSome = true := by
  rw [findLeaderNode, Action.get_bind, Action.bind_apply, lastLocalBlock]
  cases liftError EngineError.chainStore (ChainStore.getLastBlock s.store) with
  | error e => exact Or.inl rfl
  | ok lastBlock =>
    simp only
    cases helect : electLeader s.synchronizer.cell.localNode lastBlock
        (findMaybeLeader i s.synchronizer) with
    | error e => exact Or.inl rfl
    | ok leader =>
      refine Or.inr ⟨leader, rfl, ?_⟩
      rintro id rfl hother
      rcases electLeader_cases _ _ _ _ helect with hid | ⟨info, height, hcandidate, hid⟩
      · exact absurd hid hother
      · obtain ⟨id', known, hinfo, hknown, -, -⟩ := findMaybeLeader_spec i _ _ _ hcandidate
        have hsame : id' = id := by
          rw [hid, ← hinfo]
          exact (hkeyed id').symm
        rw [← hsame, hinfo, hknown]
        rfl

/-- Only the status changes: to synchronized with a lead node that has nothing more, or to
downloading from another one. -/
theorem startLeaderDownloading_cases (i : ChainSyncInput) (s : ChainSyncState CS) :
    Quiet s (startLeaderDownloading i s).2 ∨
      ((startLeaderDownloading i s).2.store = s.store ∧
        SameInfos s.synchronizer (startLeaderDownloading i s).2.synchronizer ∧
        (startLeaderDownloading i s).2.synchronizer.leader = s.synchronizer.leader ∧
        (((startLeaderDownloading i s).2.synchronizer.status = .downloading ∧
            s.synchronizer.leader.isSome = true) ∨
          (startLeaderDownloading i s).2.synchronizer.status = .synchronized ∧
            (s.synchronizer.leader = some s.synchronizer.cell.localNode ∨
              ∃ leader, s.synchronizer.leader = some leader ∧
                (s.synchronizer.nodeInfo leader).chainFullyDownloaded = true))) := by
  have hsame : ∀ status, SameInfos s.synchronizer { s.synchronizer with status := status } :=
    fun _ => ⟨rfl, rfl, fun _ => rfl⟩
  rw [startLeaderDownloading, Action.get_bind]
  split_ifs with him
  · have hleader : s.synchronizer.leader = some s.synchronizer.cell.localNode :=
      of_decide_eq_true him
    exact Or.inr ⟨rfl, hsame _, rfl, Or.inr ⟨rfl, Or.inl hleader⟩⟩
  · cases hleader : s.synchronizer.leader with
    | none => exact Or.inl (.refl s)
    | some leader =>
      simp only [getOrCreateNodeInfo_bind]
      have hquiet := quiet_createNodeInfo s leader
      have hleader' := hquiet.leader.trans hleader
      split_ifs with hfull
      · exact Or.inr ⟨rfl, ⟨hquiet.infos.config, hquiet.infos.cell, hquiet.infos.infos⟩, hleader',
          Or.inr ⟨rfl, Or.inr ⟨leader, rfl, hfull⟩⟩⟩
      · cases divergedBlock (s.synchronizer.nodeInfo leader) s.store with
        | error e => exact Or.inl hquiet
        | ok diverged =>
          simp only [Action.lift_ok_bind]
          split_ifs
          · exact Or.inl hquiet
          · rcases initiateDownload_cases i leader (s.synchronizer.nodeInfo leader) { s with
              synchronizer := s.synchronizer.createNodeInfo leader } with h | h
            · exact Or.inl (hquiet.trans h)
            · right
              rw [h]
              exact ⟨rfl, ⟨hquiet.infos.config, hquiet.infos.cell, hquiet.infos.infos⟩, hleader',
                Or.inl ⟨rfl, rfl⟩⟩

/-- A tick that elects: it fails where it is, or elects and downloads. -/
theorem electAndDownload_eq (i : ChainSyncInput) (s : ChainSyncState CS) :
    electAndDownload i s =
      match countNonDivergent s.synchronizer.otherChainNodes 1 s with
      | (.error e, s1) => (.error e, s1)
      | (.ok nbNonDivergent, s1) =>
        if s.synchronizer.cell.hasQuorum nbNonDivergent (some .chain) then
          if s.synchronizer.leader.isNone then
            (findLeaderNode i >>= fun _ => startLeaderDownloading i) s1
          else startLeaderDownloading i s1
        else (.error (.error (.chainSync (.diverged
          (s!"Our local chain is divergent with a majority of nodes (only {nbNonDivergent} " ++
            s!"non divergent out of {s.synchronizer.otherChainNodes.length + 1})")))), s1) := by
  rw [electAndDownload, Action.get_bind, Action.bind_apply]
  cases countNonDivergent s.synchronizer.otherChainNodes 1 s with
  | mk r s1 =>
    cases r with
    | error e => rfl
    | ok nbNonDivergent =>
      simp only
      split_ifs <;> rfl

/-- The synchronizer of a tick once the nodes are checked, with their number. -/
theorem tick_eq (i : ChainSyncInput) (s : ChainSyncState CS) :
    tick i s =
      let checked := checkNodesStatus i s.synchronizer
      let majority := checked.2.cell.hasQuorum checked.1 (some .chain)
      match liftError EngineError.chainStore (ChainStore.getLastBlock s.store) with
      | .error e => (.error e, { s with synchronizer := checked.2 })
      | .ok _ => match loseLeader i { s with synchronizer := loseMajority majority checked.2 } with
        | (.error e, s1) => (.error e, s1)
        | (.ok _, s1) =>
          if s1.synchronizer.status ≠ .synchronized ∧ majority then
            match electAndDownload i s1 with
            | (.error e, s2) => (.error e, s2)
            | (.ok _, s2) => synchronizeNodesMetadata i s1.synchronizer.otherChainNodes s2
          else synchronizeNodesMetadata i s1.synchronizer.otherChainNodes s1 := by
  rw [tick, Action.get_bind]
  simp only [Action.bind_apply, update, lastLocalBlock]
  cases liftError EngineError.chainStore (ChainStore.getLastBlock s.store) with
  | error e => rfl
  | ok lastBlock =>
    simp only
    generalize loseLeader i _ = lost
    obtain ⟨r, s1⟩ := lost
    cases r with
    | error e => rfl
    | ok _ =>
      simp only [Action.get_apply]
      split_ifs
      · rw [Action.bind_apply]
        rcases electAndDownload i s1 with ⟨_ | _, s2⟩ <;> rfl
      · rfl

end Actions

end ChainSynchronizer

end Exocore.Engine
