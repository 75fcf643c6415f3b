import Exocore.LibRun
import Exocore.ChainSyncSteps

/-! The status of the chain synchronizer, its lead node and the infos of the nodes, along
every run of its calls. -/
namespace Exocore.Engine

open Exocore.Core Exocore.Chain

namespace MetadataScan

section Scan
variable {CS : Type} [ChainRangeStore CS]

/-- What every check of a header keeps, the loop over the headers keeps. -/
theorem scanHeaders_keeps (inv : MetadataScan → Prop) (overflowChecks : Bool) (store : CS)
    (headers : List BlockPartialHeader)
    (hcontiguous : ∀ header ∈ headers, ∀ scan, inv scan →
      inv (checkContiguous overflowChecks header.height scan).2)
    (hcommon : ∀ header ∈ headers, ∀ scan, inv scan → inv (checkCommon store header scan).2)
    (hknown : ∀ header ∈ headers, ∀ scan, inv scan → inv (checkKnown header scan).2)
    (scan : MetadataScan) (h : inv scan) :
    inv (scanHeaders overflowChecks store headers scan).2 := by
  induction headers generalizing scan with
  | nil => exact h
  | cons header rest ih =>
    have hmem := List.mem_cons_self (a := header) (l := rest)
    rw [scanHeaders]
    refine Action.bind_keeps inv _ _ _ (hcontiguous header hmem scan h) ?_
    intro _ scan1 h1
    have hscan1 : inv scan1 := by simpa [h1] using hcontiguous header hmem scan h
    refine Action.bind_keeps inv _ _ _ (hcommon header hmem scan1 hscan1) ?_
    intro _ scan2 h2
    have hscan2 : inv scan2 := by simpa [h2] using hcommon header hmem scan1 hscan1
    refine Action.bind_keeps inv _ _ _ (hknown header hmem scan2 hscan2) ?_
    intro _ scan3 h3
    have hscan3 : inv scan3 := by simpa [h3] using hknown header hmem scan2 hscan2
    exact ih (fun x hx => hcontiguous x (List.mem_cons_of_mem _ hx))
      (fun x hx => hcommon x (List.mem_cons_of_mem _ hx))
      (fun x hx => hknown x (List.mem_cons_of_mem _ hx)) scan3 hscan3

theorem checkContiguous_info (overflowChecks : Bool) (height : ℕ) (scan : MetadataScan) :
    (checkContiguous overflowChecks height scan).2.info = scan.info := by
  rw [checkContiguous]
  cases scan.lastBlockHeight with
  | none => rfl
  | some last =>
    simp only
    cases wordSucc overflowChecks last <;> rfl

/-- What the check of a header against the local chain does to the scan. -/
theorem checkCommon_eq (store : CS) (header : BlockPartialHeader) (scan : MetadataScan) :
    (checkCommon store header scan).2 = scan ∨
      (checkCommon store header scan).2 =
        { scan with firstNonCommonBlock := some header.offset } ∨
      ∃ localBlock block, scan.firstNonCommonBlock = none ∧
        ChainStore.getBlock store header.offset = .ok localBlock ∧
        header.blockHash = some localBlock.header.multihashBytes ∧
        isLatestOffset scan.info.lastCommonBlock header.offset = true ∧
        BlockMetadata.fromBlockPartialMetadataReader header = .ok block ∧
        checkCommon store header scan = (.ok (), { scan with
          info := { scan.info with lastCommonBlock := some block }
          hasNewCommonBlock := true }) := by
  rw [checkCommon]
  cases hfirst : scan.firstNonCommonBlock with
  | some offset => exact Or.inl rfl
  | none =>
    simp only [Option.isSome_none, Bool.false_eq_true, if_false]
    cases hblock : ChainStore.getBlock store header.offset with
    | error fault =>
      cases fault with
      | panic => exact Or.inl rfl
      | error e =>
        simp only
        split_ifs
        · exact Or.inl rfl
        · exact Or.inr (Or.inl rfl)
    | ok localBlock =>
      simp only
      cases hhash : header.blockHash with
      | none => exact Or.inl rfl
      | some blockHash =>
        simp only
        split_ifs with heq hlatest
        · cases hread : BlockMetadata.fromBlockPartialMetadataReader header with
          | error e => exact Or.inl rfl
          | ok block =>
            exact Or.inr (Or.inr ⟨localBlock, block, trivial, rfl, by rw [heq], hlatest, rfl, rfl⟩)
        · exact Or.inl rfl
        · exact Or.inr (Or.inl rfl)

/-- The check of a header leaves the common block, or sets it to the header it found here. -/
theorem checkCommon_cases (store : CS) (header : BlockPartialHeader) (scan : MetadataScan) :
    (checkCommon store header scan).2.info = scan.info ∨
      ∃ localBlock block, scan.firstNonCommonBlock = none ∧
        ChainStore.getBlock store header.offset = .ok localBlock ∧
        header.blockHash = some localBlock.header.multihashBytes ∧
        isLatestOffset scan.info.lastCommonBlock header.offset = true ∧
        BlockMetadata.fromBlockPartialMetadataReader header = .ok block ∧
        checkCommon store header scan = (.ok (), { scan with
          info := { scan.info with lastCommonBlock := some block }
          hasNewCommonBlock := true }) := by
  rcases checkCommon_eq store header scan with hsame | hfirst | hset
  · exact Or.inl (by rw [hsame])
  · exact Or.inl (by rw [hfirst])
  · exact Or.inr hset

theorem checkKnown_cases (header : BlockPartialHeader) (scan : MetadataScan) :
    (checkKnown header scan).2 = scan ∨
      ∃ block, isLatestOffset scan.info.lastKnownBlock header.offset = true ∧
        BlockMetadata.fromBlockPartialMetadataReader header = .ok block ∧
        checkKnown header scan =
          (.ok (), { scan with info := { scan.info with lastKnownBlock := some block } }) := by
  rw [checkKnown]
  split_ifs with hlatest
  · cases hread : BlockMetadata.fromBlockPartialMetadataReader header with
    | error e => exact Or.inl rfl
    | ok block => exact Or.inr ⟨block, hlatest, rfl, rfl⟩
  · exact Or.inl rfl

/-- The loop keeps whose info it is, its mark, and that a block is known. -/
theorem scanHeaders_info (overflowChecks : Bool) (store : CS) (headers : List BlockPartialHeader)
    (scan : MetadataScan) :
    (scanHeaders overflowChecks store headers scan).2.info.nodeId = scan.info.nodeId ∧
      (scanHeaders overflowChecks store headers scan).2.info.lastCommonIsKnown =
        scan.info.lastCommonIsKnown ∧
      (scan.info.lastKnownBlock.isSome = true →
        (scanHeaders overflowChecks store headers scan).2.info.lastKnownBlock.isSome = true) := by
  refine scanHeaders_keeps (fun scan' => scan'.info.nodeId = scan.info.nodeId ∧
    scan'.info.lastCommonIsKnown = scan.info.lastCommonIsKnown ∧
    (scan.info.lastKnownBlock.isSome = true → scan'.info.lastKnownBlock.isSome = true))
    overflowChecks store headers ?_ ?_ ?_ scan ⟨rfl, rfl, id⟩
  · intro header _ scan' h
    rw [checkContiguous_info]
    exact h
  · intro header _ scan' h
    rcases checkCommon_cases store header scan' with hsame | ⟨_, _, -, -, -, -, -, hset⟩
    · rw [hsame]
      exact h
    · rw [hset]
      exact h
  · intro header _ scan' h
    rcases checkKnown_cases header scan' with hsame | ⟨block, -, -, hset⟩
    · rw [hsame]
      exact h
    · rw [hset]
      exact ⟨h.1, h.2.1, fun _ => rfl⟩

/-- The first block that is not in common is one of the headers. -/
theorem checkCommon_first (store : CS) (header : BlockPartialHeader)
    (scan : MetadataScan) :
    (checkCommon store header scan).2.firstNonCommonBlock = scan.firstNonCommonBlock ∨
      (checkCommon store header scan).2.firstNonCommonBlock =
        some header.offset := by
  rcases checkCommon_eq store header scan with hsame | hfirst | ⟨_, _, -, -, -, -, -, hset⟩
  · exact Or.inl (by rw [hsame])
  · exact Or.inr (by rw [hfirst])
  · exact Or.inl (by rw [hset])

theorem checkContiguous_first (overflowChecks : Bool) (height : ℕ) (scan : MetadataScan) :
    (checkContiguous overflowChecks height scan).2.firstNonCommonBlock =
      scan.firstNonCommonBlock := by
  rw [checkContiguous]
  cases scan.lastBlockHeight with
  | none => rfl
  | some last =>
    simp only
    cases wordSucc overflowChecks last <;> rfl

end Scan

end MetadataScan

namespace ChainSynchronizer

/-- A status other than unknown comes with a lead node, and another node that leads with its
last block. -/
structure Consistent (s : ChainSynchronizer) : Prop where
  keyed : s.Keyed
  hasLeader : s.status ≠ .unknown → s.leader.isSome = true
  leaderKnown : ∀ id, s.leader = some id → id ≠ s.cell.localNode →
    (s.nodeInfo id).lastKnownBlock.isSome = true

theorem consistent_new (config : ChainSyncConfig) (cell : Cell) : (new config cell).Consistent :=
  ⟨fun _ => rfl, fun h => absurd rfl h, fun _ h => absurd h (by simp [new])⟩

theorem consistent_resetState (s : ChainSynchronizer) : s.resetState.Consistent :=
  ⟨fun _ => rfl, fun h => absurd rfl h, fun _ h => absurd h (by simp [resetState])⟩

theorem Consistent.of_sameInfos {s s' : ChainSynchronizer} (h : s.Consistent)
    (hsame : SameInfos s s') (hleader : s'.leader = s.leader)
    (hstatus : s'.status ≠ .unknown → s.leader.isSome = true) : s'.Consistent := by
  refine ⟨hsame.keyed h.keyed, ?_, ?_⟩
  · intro hknown
    rw [hleader]
    exact hstatus hknown
  · intro id hid hother
    rw [hsame.infos]
    rw [hsame.cell] at hother
    exact h.leaderKnown id (hleader ▸ hid) hother

theorem Consistent.of_lost {s s' : ChainSynchronizer} (h : s.Consistent) (hsame : SameInfos s s')
    (hstatus : s'.status = .unknown) (hleader : s'.leader = none) : s'.Consistent :=
  ⟨hsame.keyed h.keyed, fun hne => absurd hstatus hne, fun id hid => by simp [hleader] at hid⟩

theorem Consistent.checked {s s' : ChainSynchronizer} (h : s.Consistent) (hc : Checked s s') :
    s'.Consistent := by
  refine ⟨hc.keyed h.keyed, ?_, ?_⟩
  · rw [hc.status, hc.leader]
    exact h.hasLeader
  · intro id hid hother
    rw [hc.leader] at hid
    rw [hc.cell] at hother
    rcases hc.infos id with hinfo | hinfo <;> rw [hinfo] <;> exact h.leaderKnown id hid hother

/-- A new info of a node, which still has a last block where it had one. -/
theorem Consistent.setNodeInfo {s : ChainSynchronizer} (h : s.Consistent) (info : NodeSyncInfo)
    (hknown : (s.nodeInfo info.nodeId).lastKnownBlock.isSome = true →
      info.lastKnownBlock.isSome = true) : (s.setNodeInfo info).Consistent := by
  refine ⟨keyed_setNodeInfo s info h.keyed, h.hasLeader, ?_⟩
  intro id hid hother
  have hold := h.leaderKnown id hid hother
  rw [nodeInfo_setNodeInfo]
  split_ifs with heq
  · rw [heq] at hold
    exact hknown hold
  · exact hold

theorem consistent_loseMajority (majority : Bool) (s : ChainSynchronizer) (h : s.Consistent) :
    (loseMajority majority s).Consistent := by
  rw [loseMajority]
  split_ifs
  · exact h.of_lost ⟨rfl, rfl, fun _ => rfl⟩ rfl rfl
  · exact h

theorem sameInfos_loseMajority (majority : Bool) (s : ChainSynchronizer) :
    SameInfos s (loseMajority majority s) := by
  rw [loseMajority]
  split_ifs
  · exact ⟨rfl, rfl, fun _ => rfl⟩
  · exact .refl s

theorem loseMajority_status (majority : Bool) (s : ChainSynchronizer) (h : majority = false) :
    (loseMajority majority s).status ≠ .synchronized := by
  rw [loseMajority]
  split_ifs with hlost
  · simp
  · simpa [h] using hlost

section Calls
variable {CS : Type}

theorem loseLeader_status (i : ChainSyncInput) (s : ChainSyncState CS) :
    SameInfos s.synchronizer (loseLeader i s).2.synchronizer ∧
      ((loseLeader i s).2.synchronizer.status = .synchronized →
        s.synchronizer.status = .synchronized) := by
  rcases loseLeader_cases i s with hquiet | ⟨-, -, hsame, hsync, -, -⟩
  · exact ⟨hquiet.infos, fun h => hquiet.status ▸ h⟩
  · exact ⟨hsame, fun _ => hsync⟩

theorem Quiet.consistent {s s' : ChainSyncState CS} (h : Quiet s s')
    (hs : s.synchronizer.Consistent) : s'.synchronizer.Consistent :=
  hs.of_sameInfos h.infos h.leader fun hne => hs.hasLeader (h.status ▸ hne)

theorem loseLeader_consistent (i : ChainSyncInput) (s : ChainSyncState CS)
    (h : s.synchronizer.Consistent) : (loseLeader i s).2.synchronizer.Consistent := by
  rcases loseLeader_cases i s with hquiet | ⟨-, -, hsame, -, hstatus, hleader⟩
  · exact hquiet.consistent h
  · exact h.of_lost hsame hstatus hleader

theorem continueDownload_cases (info : NodeSyncInfo) (s : ChainSyncState CS) :
    (continueDownload info s).1 = .ok () ∧ (continueDownload info s).2.store = s.store ∧
      (((continueDownload info s).2.synchronizer = s.synchronizer.setNodeInfo info ∧
          info.chainFullyDownloaded = false) ∨
        ((continueDownload info s).2.synchronizer =
            { s.synchronizer.setNodeInfo info with status := .synchronized } ∧
          info.chainFullyDownloaded = true)) := by
  rw [continueDownload]
  split_ifs with hfull
  · exact ⟨rfl, rfl, Or.inr ⟨rfl, hfull⟩⟩
  · exact ⟨rfl, rfl, Or.inl ⟨rfl, by simpa using hfull⟩⟩

variable [ChainRangeStore CS]

theorem startLeaderDownloading_consistent (i : ChainSyncInput) (s : ChainSyncState CS)
    (h : s.synchronizer.Consistent) :
    (startLeaderDownloading i s).2.synchronizer.Consistent := by
  rcases startLeaderDownloading_cases i s with hquiet | ⟨-, hsame, hleader, hnew⟩
  · exact hquiet.consistent h
  · refine h.of_sameInfos hsame hleader fun _ => ?_
    rcases hnew with ⟨-, hsome⟩ | ⟨-, hlocal | ⟨leader, hsome, -⟩⟩
    · exact hsome
    · rw [hlocal]
      rfl
    · rw [hsome]
      rfl

theorem findLeaderNode_consistent (i : ChainSyncInput) (s : ChainSyncState CS)
    (h : s.synchronizer.Consistent) (hnone : s.synchronizer.leader = none) :
    SameInfos s.synchronizer (findLeaderNode i s).2.synchronizer ∧
      (findLeaderNode i s).2.synchronizer.Consistent := by
  rcases findLeaderNode_cases i s h.keyed with hsame | ⟨leader, helect, hknown⟩
  · rw [hsame]
    exact ⟨.refl _, h⟩
  · rw [helect]
    refine ⟨⟨rfl, rfl, fun _ => rfl⟩, h.keyed, ?_, hknown⟩
    -- there was no lead node, so the status is unknown
    intro hne
    have hsome := h.hasLeader hne
    rw [hnone] at hsome
    exact absurd hsome Bool.false_ne_true

theorem electAndDownload_consistent (i : ChainSyncInput) (s : ChainSyncState CS)
    (h : s.synchronizer.Consistent) :
    SameInfos s.synchronizer (electAndDownload i s).2.synchronizer ∧
      (electAndDownload i s).2.synchronizer.Consistent := by
  have hstart : ∀ s1 : ChainSyncState CS, s1.synchronizer.Consistent →
      SameInfos s1.synchronizer (startLeaderDownloading i s1).2.synchronizer := by
    intro s1 _
    rcases startLeaderDownloading_cases i s1 with hquiet | ⟨-, hsame, -⟩
    · exact hquiet.infos
    · exact hsame
  rw [electAndDownload_eq]
  have hcount := countNonDivergent_quiet s.synchronizer.otherChainNodes 1 s
  cases hrun : countNonDivergent s.synchronizer.otherChainNodes 1 s with
  | mk r s1 =>
    rw [hrun] at hcount
    have h1 : s1.synchronizer.Consistent := hcount.consistent h
    cases r with
    | error e => exact ⟨hcount.infos, h1⟩
    | ok nbNonDivergent =>
      simp only
      split_ifs with hquorum hleader
      · have hnone : s1.synchronizer.leader = none :=
          hcount.leader.trans (Option.isNone_iff_eq_none.mp hleader)
        obtain ⟨hsame, h2⟩ := findLeaderNode_consistent i s1 h1 hnone
        rcases Action.bind_cases (findLeaderNode i) (fun _ => startLeaderDownloading i) s1 with
          ⟨e, s2, hx, hrest⟩ | ⟨_, s2, hx, hrest⟩
        · rw [hrest]
          rw [hx] at hsame h2
          exact ⟨hcount.infos.trans hsame, h2⟩
        · rw [hrest]
          rw [hx] at hsame h2
          exact ⟨(hcount.infos.trans hsame).trans (hstart s2 h2),
            startLeaderDownloading_consistent i s2 h2⟩
      · exact ⟨hcount.infos.trans (hstart s1 h1), startLeaderDownloading_consistent i s1 h1⟩
      · exact ⟨hcount.infos, h1⟩

/-- A tick keeps the synchronizer consistent, and where it ends synchronized the last common
blocks of a majority are known. -/
theorem tick_consistent (i : ChainSyncInput) (s : ChainSyncState CS)
    (h : s.synchronizer.Consistent) :
    (tick i s).2.synchronizer.Consistent ∧
      ((tick i s).1 = .ok () → (tick i s).2.synchronizer.status = .synchronized →
        (tick i s).2.synchronizer.cell.hasQuorum
          (tick i s).2.synchronizer.nodesMetadataSync (some .chain) = true) := by
  obtain ⟨hchecked, hcount⟩ := checkNodesStatus_spec i s.synchronizer h.keyed
  have h0 := h.checked hchecked
  rw [tick_eq]
  generalize checkNodesStatus i s.synchronizer = checked at hcount h0
  simp only
  cases liftError EngineError.chainStore (ChainStore.getLastBlock s.store) with
  | error e => exact ⟨h0, fun herr => by simp at herr⟩
  | ok lastBlock =>
    simp only
    have h1 := consistent_loseMajority
      (checked.2.cell.hasQuorum checked.1 (some .chain)) checked.2 h0
    have hsame1 := sameInfos_loseMajority
      (checked.2.cell.hasQuorum checked.1 (some .chain)) checked.2
    have hlost := loseMajority_status (checked.2.cell.hasQuorum checked.1 (some .chain)) checked.2
    generalize loseMajority (checked.2.cell.hasQuorum checked.1 (some .chain)) checked.2 = s1
      at h1 hsame1 hlost
    have h2 := loseLeader_consistent i { s with synchronizer := s1 } h1
    obtain ⟨hsame2, hkept⟩ := loseLeader_status i { s with synchronizer := s1 }
    cases hrun : loseLeader i { s with synchronizer := s1 } with
    | mk r s2 =>
      rw [hrun] at h2 hsame2 hkept
      have hsame : SameInfos checked.2 s2.synchronizer := hsame1.trans hsame2
      -- the count of the tick is the one of every state that has its infos
      have hquorum : ∀ s' : ChainSynchronizer, SameInfos checked.2 s' →
          checked.2.cell.hasQuorum checked.1 (some .chain) = true →
          s'.cell.hasQuorum s'.nodesMetadataSync (some .chain) = true := by
        intro s' hs' hmajority
        rw [hs'.cell, hs'.nodesMetadataSync, ← hcount]
        exact hmajority
      cases r with
      | error e => exact ⟨h2, fun herr => by simp at herr⟩
      | ok _ =>
        simp only
        split_ifs with helect
        · obtain ⟨hsame3, h3⟩ := electAndDownload_consistent i s2 h2
          cases hdown : electAndDownload i s2 with
          | mk r s3 =>
            rw [hdown] at hsame3 h3
            cases r with
            | error e => exact ⟨h3, fun herr => by simp at herr⟩
            | ok _ =>
              obtain ⟨-, hquiet⟩ := synchronizeNodesMetadata_quiet i
                s2.synchronizer.otherChainNodes s3
              exact ⟨hquiet.consistent h3, fun _ _ =>
                hquorum _ ((hsame.trans hsame3).trans hquiet.infos) helect.2⟩
        · obtain ⟨-, hquiet⟩ := synchronizeNodesMetadata_quiet i
            s2.synchronizer.otherChainNodes s2
          refine ⟨hquiet.consistent h2, fun _ hsync => ?_⟩
          rw [hquiet.status] at hsync
          apply hquorum _ (hsame.trans hquiet.infos)
          by_contra hminority
          exact hlost (by simpa using hminority) (hkept hsync)

/-- A request is answered from the chain, which stays as it is. -/
theorem handleSyncRequest_quiet (overflowChecks : Bool) (fromNode : NodeId)
    (request : Option ChainSyncRequest) (s : ChainSyncState CS) :
    Quiet s (handleSyncRequest overflowChecks fromNode request s).2 := by
  rw [handleSyncRequest]
  cases request with
  | none => exact .refl s
  | some request =>
    simp only [orError_some, Action.lift_ok_bind]
    have hquiet := quiet_createNodeInfo s fromNode
    cases request.requestedDetails with
    | notInSchema code => exact .refl s
    | headers =>
      simp only [getOrCreateNodeInfo_bind, Action.get_bind]
      cases BlockMetadata.fromStore overflowChecks s.store (offsetOpt request.fromOffset)
          (offsetOpt request.toOffset) (s.synchronizer.createNodeInfo fromNode).config with
      | error e => exact hquiet
      | ok blocksMetadata => exact ⟨rfl, hquiet.infos, hquiet.status, hquiet.leader⟩
    | blocks =>
      simp only [getOrCreateNodeInfo_bind, Action.get_bind]
      cases createSyncResponseForBlocks (s.synchronizer.createNodeInfo fromNode).config
          request.fromOffset request.toOffset
          ((ChainRangeStore.blocksIter s.store request.fromOffset).filter
            (inBlocksRange request.toOffset)) with
      | error e => exact hquiet
      | ok response => exact ⟨rfl, hquiet.infos, hquiet.status, hquiet.leader⟩

/-- The call only sends a response. -/
theorem handleSyncRequest_messages (overflowChecks : Bool) (fromNode : NodeId)
    (request : Option ChainSyncRequest) (s : ChainSyncState CS) :
    (handleSyncRequest overflowChecks fromNode request s).2.syncContext = s.syncContext ∨
      ∃ response, (handleSyncRequest overflowChecks fromNode request s).2.syncContext =
        s.syncContext.pushChainSyncResponse fromNode response := by
  rw [handleSyncRequest]
  cases request with
  | none => exact Or.inl rfl
  | some request =>
    simp only [orError_some, Action.lift_ok_bind]
    cases request.requestedDetails with
    | notInSchema code => exact Or.inl rfl
    | headers =>
      simp only [getOrCreateNodeInfo_bind, Action.get_bind]
      cases BlockMetadata.fromStore overflowChecks s.store (offsetOpt request.fromOffset)
          (offsetOpt request.toOffset) (s.synchronizer.createNodeInfo fromNode).config with
      | error e => exact Or.inl rfl
      | ok blocksMetadata => exact Or.inr ⟨_, rfl⟩
    | blocks =>
      simp only [getOrCreateNodeInfo_bind, Action.get_bind]
      cases createSyncResponseForBlocks (s.synchronizer.createNodeInfo fromNode).config
          request.fromOffset request.toOffset
          ((ChainRangeStore.blocksIter s.store request.fromOffset).filter
            (inBlocksRange request.toOffset)) with
      | error e => exact Or.inl rfl
      | ok response => exact Or.inr ⟨_, rfl⟩

theorem handleSyncResponseMetadata_consistent (overflowChecks : Bool) (fromNode : NodeId)
    (response : ChainSyncResponse) (s : ChainSyncState CS) (h : s.synchronizer.Consistent) :
    (handleSyncResponseMetadata overflowChecks fromNode response s).2.synchronizer.Consistent := by
  have hquiet := quiet_createNodeInfo s fromNode
  have h1 := hquiet.consistent h
  rw [handleSyncResponseMetadata, getOrCreateNodeInfo_bind]
  cases response.headers.get with
  | error e => exact h1
  | ok headers =>
    simp only [Action.lift_ok_bind, Action.get_bind]
    obtain ⟨hid, -, hknown⟩ := MetadataScan.scanHeaders_info overflowChecks s.store headers
      ⟨s.synchronizer.nodeInfo fromNode, false, none, none, true⟩
    generalize MetadataScan.scanHeaders overflowChecks s.store headers
      ⟨s.synchronizer.nodeInfo fromNode, false, none, none, true⟩ = scanned at hid hknown
    obtain ⟨result, scan⟩ := scanned
    simp only at hid hknown ⊢
    rw [h.keyed fromNode] at hid
    have h2 : ((s.synchronizer.createNodeInfo fromNode).setNodeInfo scan.info).Consistent := by
      apply h1.setNodeInfo
      rw [hid]
      simpa using hknown
    cases result with
    | error e => exact h2
    | ok _ =>
      change (((if _ then _ else _ : Action (ChainSyncState CS) EngineError Unit) _).2).synchronizer.Consistent
      split_ifs
      · exact h2
      · refine h2.setNodeInfo { scan.info with lastCommonIsKnown := true } ?_
        rw [nodeInfo_setNodeInfo, if_pos rfl]
        exact id
      · exact h2

/-- The status was set to synchronized: by the local node that leads, or with a lead node that
has nothing more to download. -/
def SetSynchronized (s s' : ChainSynchronizer) : Prop :=
  s.status ≠ .synchronized → s'.status = .synchronized →
    s'.leader = some s'.cell.localNode ∨
      ∃ leader, s'.leader = some leader ∧ (s'.nodeInfo leader).chainFullyDownloaded = true

theorem electAndDownload_setSynchronized (i : ChainSyncInput) (s : ChainSyncState CS)
    (h : s.synchronizer.Consistent) :
    SetSynchronized s.synchronizer (electAndDownload i s).2.synchronizer := by
  have hstart : ∀ s1 : ChainSyncState CS,
      SetSynchronized s1.synchronizer (startLeaderDownloading i s1).2.synchronizer := by
    intro s1 hne hsync
    rcases startLeaderDownloading_cases i s1 with hquiet | ⟨-, hsame, hleader, hnew⟩
    · exact absurd (hquiet.status ▸ hsync) hne
    · rw [hleader, hsame.cell]
      rcases hnew with ⟨hdown, -⟩ | ⟨-, hlocal | ⟨leader, hsome, hfull⟩⟩
      · rw [hdown] at hsync
        contradiction
      · exact Or.inl hlocal
      · exact Or.inr ⟨leader, hsome, by rw [hsame.infos]; exact hfull⟩
  intro hne
  rw [electAndDownload_eq]
  have hcount := countNonDivergent_quiet s.synchronizer.otherChainNodes 1 s
  cases hrun : countNonDivergent s.synchronizer.otherChainNodes 1 s with
  | mk r s1 =>
    rw [hrun] at hcount
    have hne1 : s1.synchronizer.status ≠ .synchronized := hcount.status ▸ hne
    cases r with
    | error e => exact fun hsync => absurd hsync hne1
    | ok nbNonDivergent =>
      simp only
      split_ifs
      · -- an election does not change the status
        rcases findLeaderNode_cases i s1 (hcount.infos.keyed h.keyed) with hsame |
          ⟨leader, helect, -⟩
        · rcases Action.bind_cases (findLeaderNode i) (fun _ => startLeaderDownloading i) s1 with
            ⟨e, s2, hx, hrest⟩ | ⟨_, s2, hx, hrest⟩
          · rw [hx] at hsame
            rw [hrest]
            simp only at hsame
            rw [hsame]
            exact fun hsync => absurd hsync hne1
          · rw [hx] at hsame
            rw [hrest]
            simp only at hsame
            rw [hsame]
            exact hstart s1 hne1
        · rw [Action.bind_of_ok _ _ _ _ _ helect]
          exact hstart { s1 with
            synchronizer := { s1.synchronizer with leader := leader } } hne1
      · exact hstart s1 hne1
      · exact fun hsync => absurd hsync hne1

theorem tick_setSynchronized (i : ChainSyncInput) (s : ChainSyncState CS)
    (h : s.synchronizer.Consistent) :
    SetSynchronized s.synchronizer (tick i s).2.synchronizer := by
  intro hne
  obtain ⟨hchecked, -⟩ := checkNodesStatus_spec i s.synchronizer h.keyed
  have h0 := h.checked hchecked
  have hne0 : (checkNodesStatus i s.synchronizer).2.status ≠ .synchronized := hchecked.status ▸ hne
  rw [tick_eq]
  generalize checkNodesStatus i s.synchronizer = checked at h0 hne0
  simp only
  cases liftError EngineError.chainStore (ChainStore.getLastBlock s.store) with
  | error e => exact fun hsync => absurd hsync hne0
  | ok lastBlock =>
    have hkept : loseMajority (checked.2.cell.hasQuorum checked.1 (some .chain)) checked.2 =
        checked.2 := by
      rw [loseMajority, if_neg fun hlost => hne0 hlost.1]
    have hlose : loseLeader i ({ s with synchronizer := checked.2 } : ChainSyncState CS) =
        (.ok (), { s with synchronizer := checked.2 }) := by
      rw [loseLeader, Action.get_bind, if_neg fun hlost => hne0 hlost.1]
      rfl
    simp only [hkept, hlose]
    split_ifs
    · have hset := electAndDownload_setSynchronized i { s with synchronizer := checked.2 } h0 hne0
      cases hdown : electAndDownload i ({ s with synchronizer := checked.2 } :
          ChainSyncState CS) with
      | mk r s2 =>
        rw [hdown] at hset
        cases r with
        | error e => exact hset
        | ok _ =>
          obtain ⟨-, hquiet⟩ := synchronizeNodesMetadata_quiet i checked.2.otherChainNodes s2
          intro hsync
          rw [hquiet.status] at hsync
          rw [hquiet.leader, hquiet.infos.cell]
          rcases hset hsync with hlocal | ⟨leader, hleader, hfull⟩
          · exact Or.inl hlocal
          · exact Or.inr ⟨leader, hleader, by rw [hquiet.infos.infos]; exact hfull⟩
    · obtain ⟨-, hquiet⟩ := synchronizeNodesMetadata_quiet i checked.2.otherChainNodes
        ({ s with synchronizer := checked.2 } : ChainSyncState CS)
      intro hsync
      rw [hquiet.status] at hsync
      exact absurd hsync hne0

theorem handleSyncResponseMetadata_status (overflowChecks : Bool) (fromNode : NodeId)
    (response : ChainSyncResponse) (s : ChainSyncState CS) :
    (handleSyncResponseMetadata overflowChecks fromNode response s).2.synchronizer.status =
        s.synchronizer.status ∧
      (handleSyncResponseMetadata overflowChecks fromNode response s).2.synchronizer.leader =
        s.synchronizer.leader ∧
      (handleSyncResponseMetadata overflowChecks fromNode response s).2.synchronizer.cell =
        s.synchronizer.cell ∧
      (handleSyncResponseMetadata overflowChecks fromNode response s).2.store = s.store := by
  obtain ⟨-, hcell, hstatus, hleader⟩ := s.synchronizer.createNodeInfo_eq fromNode
  rw [handleSyncResponseMetadata, getOrCreateNodeInfo_bind]
  cases response.headers.get with
  | error e => exact ⟨hstatus, hleader, hcell, rfl⟩
  | ok headers =>
    simp only [Action.lift_ok_bind, Action.get_bind]
    generalize MetadataScan.scanHeaders overflowChecks s.store headers
      ⟨s.synchronizer.nodeInfo fromNode, false, none, none, true⟩ = scanned
    obtain ⟨result, scan⟩ := scanned
    cases result with
    | error e => exact ⟨hstatus, hleader, hcell, rfl⟩
    | ok _ =>
      simp only [Action.bind_apply, update, Action.lift_apply]
      split_ifs <;> exact ⟨hstatus, hleader, hcell, rfl⟩

end Calls

section Writes
variable [Crates] {CS : Type} [ChainRangeStore CS]

theorem writeIncomingBlocks_synchronizer (blocks : List (Option Bytes))
    (last : Option BlockMetadata) (s : ChainSyncState CS) :
    (writeIncomingBlocks blocks last s).2.synchronizer = s.synchronizer := by
  induction blocks generalizing last s with
  | nil => rfl
  | cons data rest ih =>
    rw [writeIncomingBlocks]
    cases orError EngineError.serialization data with
    | error e => rfl
    | ok bytes =>
      simp only [Action.lift_ok_bind]
      cases liftError EngineError.block (DataBlock.new .ref bytes) with
      | error e => rfl
      | ok block =>
        simp only [Action.lift_ok_bind]
        split_ifs
        · rw [Action.bind_apply, pushChainEvent]
          simp only [Action.bind_apply, writeChainBlock]
          rcases ChainStore.writeBlock s.store block with ⟨_ | _, store⟩
          · rfl
          · simp only
            cases BlockMetadata.fromStoredBlock block with
            | error e => rfl
            | ok newBlock => exact ih _ _
        · rfl

/-- A response with blocks is refused, or fails before any block is written, or its blocks are
written, as far as they can be. -/
theorem handleSyncResponseBlocks_cases (fromNode : NodeId) (response : ChainSyncResponse)
    (s : ChainSyncState CS) :
    (∃ e, handleSyncResponseBlocks fromNode response s = (.error e, s) ∨
        handleSyncResponseBlocks fromNode response s = (.error e, { s with
          synchronizer := s.synchronizer.createNodeInfo fromNode })) ∨
      ∃ last blocks r s', s.synchronizer.leader = some fromNode ∧
        lastLocalMetadata s.store = .ok last ∧ response.blocks.get = .ok blocks ∧
        writeIncomingBlocks blocks last { s with
          synchronizer := s.synchronizer.createNodeInfo fromNode } = (r, s') ∧
        s'.synchronizer = s.synchronizer.createNodeInfo fromNode ∧
        ((∃ e, r = .error e ∧
            handleSyncResponseBlocks fromNode response s = (.error e, s')) ∨
          ∃ last', r = .ok last' ∧ handleSyncResponseBlocks fromNode response s =
            continueDownload
              { s.synchronizer.nodeInfo fromNode with lastCommonBlock := last' } s') := by
  rw [handleSyncResponseBlocks, Action.get_bind]
  split_ifs with hlead
  · exact Or.inl ⟨_, Or.inl rfl⟩
  · have hleader : s.synchronizer.leader = some fromNode := by simpa [isLeader] using hlead
    simp only [getOrCreateNodeInfo_bind]
    cases hlast : lastLocalMetadata s.store with
    | error e => exact Or.inl ⟨e, Or.inr rfl⟩
    | ok last =>
      simp only [Action.lift_ok_bind]
      cases hblocks : response.blocks.get with
      | error e => exact Or.inl ⟨e, Or.inr rfl⟩
      | ok blocks =>
        simp only [Action.lift_ok_bind]
        have hsync := writeIncomingBlocks_synchronizer blocks last { s with
          synchronizer := s.synchronizer.createNodeInfo fromNode }
        cases hwrite : writeIncomingBlocks blocks last { s with
            synchronizer := s.synchronizer.createNodeInfo fromNode } with
        | mk r s' =>
          rw [hwrite] at hsync
          refine Or.inr ⟨last, blocks, r, s', hleader, rfl, rfl, hwrite, hsync, ?_⟩
          cases r with
          | error e => exact Or.inl ⟨e, rfl, Action.bind_of_error _ _ _ _ _ hwrite⟩
          | ok last' => exact Or.inr ⟨last', rfl, Action.bind_of_ok _ _ _ _ _ hwrite⟩

theorem handleSyncResponseBlocks_consistent (fromNode : NodeId) (response : ChainSyncResponse)
    (s : ChainSyncState CS) (h : s.synchronizer.Consistent) :
    (handleSyncResponseBlocks fromNode response s).2.synchronizer.Consistent := by
  have h1 := (quiet_createNodeInfo s fromNode).consistent h
  rcases handleSyncResponseBlocks_cases fromNode response s with
    ⟨e, hres | hres⟩ | ⟨last, blocks, r, s', hleader, -, -, -, hsync, ⟨e, -, hres⟩ |
      ⟨last', -, hres⟩⟩
  · rw [hres]
    exact h
  · rw [hres]
    exact h1
  · rw [hres]
    simp only [hsync]
    exact h1
  · rw [hres]
    have h2 : (s'.synchronizer.setNodeInfo
        { s.synchronizer.nodeInfo fromNode with lastCommonBlock := last' }).Consistent := by
      rw [hsync]
      refine h1.setNodeInfo _ ?_
      rw [nodeInfo_createNodeInfo, h.keyed fromNode]
      exact id
    obtain ⟨-, -, ⟨hnew, -⟩ | ⟨hnew, -⟩⟩ := continueDownload_cases
      { s.synchronizer.nodeInfo fromNode with lastCommonBlock := last' } s'
    · rw [hnew]
      exact h2
    · rw [hnew]
      -- the node is the lead node, so the status may be set
      refine h2.of_sameInfos ⟨rfl, rfl, fun _ => rfl⟩ rfl fun _ => ?_
      have hlead : (s'.synchronizer.setNodeInfo { s.synchronizer.nodeInfo fromNode with
          lastCommonBlock := last' }).leader = some fromNode := by
        rw [hsync]
        exact (s.synchronizer.createNodeInfo_eq fromNode).2.2.2.trans hleader
      rw [hlead]
      rfl

theorem handleSyncResponseBlocks_setSynchronized (fromNode : NodeId)
    (response : ChainSyncResponse) (s : ChainSyncState CS) (h : s.synchronizer.Keyed) :
    SetSynchronized s.synchronizer
        (handleSyncResponseBlocks fromNode response s).2.synchronizer ∧
      (handleSyncResponseBlocks fromNode response s).2.synchronizer.leader =
        s.synchronizer.leader := by
  obtain ⟨-, hcell, hstatus, hleader'⟩ := s.synchronizer.createNodeInfo_eq fromNode
  rcases handleSyncResponseBlocks_cases fromNode response s with
    ⟨e, hres | hres⟩ | ⟨last, blocks, r, s', hleader, -, -, -, hsync, ⟨e, -, hres⟩ |
      ⟨last', -, hres⟩⟩
  · rw [hres]
    exact ⟨fun hne hs => absurd hs hne, rfl⟩
  · rw [hres]
    exact ⟨fun hne hs => absurd (hstatus ▸ hs) hne, hleader'⟩
  · rw [hres]
    simp only [hsync]
    exact ⟨fun hne hs => absurd (hstatus ▸ hs) hne, hleader'⟩
  · rw [hres]
    obtain ⟨-, -, ⟨hnew, -⟩ | ⟨hnew, hfull⟩⟩ := continueDownload_cases
      { s.synchronizer.nodeInfo fromNode with lastCommonBlock := last' } s'
    · rw [hnew, hsync]
      exact ⟨fun hne hs => absurd (hstatus ▸ hs) hne, hleader'⟩
    · rw [hnew, hsync]
      refine ⟨fun _ _ => Or.inr ⟨fromNode, hleader'.trans hleader, ?_⟩, hleader'⟩
      have hinfo := nodeInfo_setNodeInfo (s.synchronizer.createNodeInfo fromNode)
        { s.synchronizer.nodeInfo fromNode with lastCommonBlock := last' } fromNode
      rw [if_pos (h fromNode).symm] at hinfo
      change ((((s.synchronizer.createNodeInfo fromNode).setNodeInfo _).nodeInfo
        fromNode).chainFullyDownloaded) = true
      rw [hinfo]
      exact hfull

/-- Only a response with blocks touches the chain. -/
theorem handleSyncResponse_store (overflowChecks : Bool) (fromNode : NodeId)
    (response : ChainSyncResponse) (s : ChainSyncState CS) :
    (handleSyncResponse overflowChecks fromNode (some response) s).2.store =
      if response.blocks.has then
        (handleSyncResponseBlocks fromNode response s).2.store
      else s.store := by
  have hend : ∀ x : Action (ChainSyncState CS) EngineError Unit,
      ((x >>= fun _ => getOrCreateNodeInfo fromNode >>= fun _ => pure ())
        s).2.store = (x s).2.store := by
    intro x
    rcases Action.bind_cases x
      (fun _ => getOrCreateNodeInfo fromNode >>= fun _ => pure ()) s with
      ⟨e, s', hs', hrest⟩ | ⟨_, s', hs', hrest⟩
    · rw [hrest, hs']
    · rw [hrest, getOrCreateNodeInfo_bind, hs']
      rfl
  rw [handleSyncResponse]
  simp only [orError_some, Action.lift_ok_bind]
  split_ifs
  · exact hend _
  · rw [hend]
    exact (handleSyncResponseMetadata_status overflowChecks fromNode response
      s).2.2.2
  · exact hend (pure ())

theorem handleSyncResponse_consistent (overflowChecks : Bool) (fromNode : NodeId)
    (response : Option ChainSyncResponse) (s : ChainSyncState CS) (h : s.synchronizer.Consistent) :
    (handleSyncResponse overflowChecks fromNode response s).2.synchronizer.Consistent := by
  have hend : ∀ (x : Action (ChainSyncState CS) EngineError Unit) (s : ChainSyncState CS),
      (x s).2.synchronizer.Consistent →
      ((x >>= fun _ => getOrCreateNodeInfo fromNode >>= fun _ => pure ()) s).2.synchronizer.Consistent := by
    intro x s hx
    rcases Action.bind_cases x (fun _ => getOrCreateNodeInfo fromNode >>= fun _ => pure ()) s with
      ⟨e, s', hs', hrest⟩ | ⟨_, s', hs', hrest⟩
    · rw [hrest]
      rw [hs'] at hx
      exact hx
    · rw [hrest, getOrCreateNodeInfo_bind]
      rw [hs'] at hx
      exact (quiet_createNodeInfo s' fromNode).consistent hx
  rw [handleSyncResponse]
  cases response with
  | none => exact h
  | some response =>
    simp only [orError_some, Action.lift_ok_bind]
    split_ifs
    · exact hend _ _ (handleSyncResponseBlocks_consistent fromNode response s h)
    · exact hend _ _ (handleSyncResponseMetadata_consistent overflowChecks fromNode response s h)
    · exact hend (pure ()) s h

theorem handleSyncResponse_setSynchronized (overflowChecks : Bool) (fromNode : NodeId)
    (response : Option ChainSyncResponse) (s : ChainSyncState CS) (h : s.synchronizer.Keyed) :
    SetSynchronized s.synchronizer
      (handleSyncResponse overflowChecks fromNode response s).2.synchronizer := by
  have hend : ∀ (x : Action (ChainSyncState CS) EngineError Unit),
      SetSynchronized s.synchronizer (x s).2.synchronizer →
      SetSynchronized s.synchronizer
        ((x >>= fun _ => getOrCreateNodeInfo fromNode >>= fun _ => pure ()) s).2.synchronizer := by
    intro x hx
    rcases Action.bind_cases x (fun _ => getOrCreateNodeInfo fromNode >>= fun _ => pure ()) s with
      ⟨e, s', hs', hrest⟩ | ⟨_, s', hs', hrest⟩
    · rw [hrest]
      rw [hs'] at hx
      exact hx
    · rw [hrest, getOrCreateNodeInfo_bind]
      rw [hs'] at hx
      have hquiet := quiet_createNodeInfo s' fromNode
      intro hne hsync
      rw [Action.pure_apply] at hsync ⊢
      rw [hquiet.status] at hsync
      rw [hquiet.leader, hquiet.infos.cell]
      rcases hx hne hsync with hlocal | ⟨leader, hleader, hfull⟩
      · exact Or.inl hlocal
      · exact Or.inr ⟨leader, hleader, by rw [hquiet.infos.infos]; exact hfull⟩
  rw [handleSyncResponse]
  cases response with
  | none => exact fun hne hsync => absurd hsync hne
  | some response =>
    simp only [orError_some, Action.lift_ok_bind]
    split_ifs
    · exact hend _ (handleSyncResponseBlocks_setSynchronized fromNode response s h).1
    · refine hend _ ?_
      intro hne hsync
      rw [(handleSyncResponseMetadata_status overflowChecks fromNode response s).1] at hsync
      exact absurd hsync hne
    · exact hend (pure ()) fun hne hsync => absurd hsync hne

end Writes

end ChainSynchronizer

/-- The chain synchronizer of a node, with the chain it works on. -/
structure ChainSyncNode (CS : Type) where
  synchronizer : ChainSynchronizer
  store : CS

inductive ChainSyncStep where
  | tick (i : ChainSyncInput)
  | syncRequest (overflowChecks : Bool) (fromNode : NodeId) (request : Option ChainSyncRequest)
  | syncResponse (overflowChecks : Bool) (fromNode : NodeId) (response : Option ChainSyncResponse)
  | resetState
  | writeBlock (block : DataBlock)

section Runs
variable [Crates] {CS : Type}

/-- A call in a context of its own. -/
def ChainSyncNode.call (n : ChainSyncNode CS) (x : Action (ChainSyncState CS) EngineError Unit) :
    Res EngineError Unit × List SyncContextMessage × ChainSyncNode CS :=
  match x ⟨n.synchronizer, .new ⟨none⟩, n.store⟩ with
  | (r, s) => (r, s.syncContext.messages, ⟨s.synchronizer, s.store⟩)

variable [ChainRangeStore CS]

def ChainSyncNode.step (n : ChainSyncNode CS) : ChainSyncStep → ChainSyncNode CS
  | .tick i => (n.call (ChainSynchronizer.tick i)).2.2
  | .syncRequest overflowChecks fromNode request =>
    (n.call (ChainSynchronizer.handleSyncRequest overflowChecks fromNode request)).2.2
  | .syncResponse overflowChecks fromNode response =>
    (n.call (ChainSynchronizer.handleSyncResponse overflowChecks fromNode response)).2.2
  | .resetState => { n with synchronizer := n.synchronizer.resetState }
  | .writeBlock block => { n with store := (ChainStore.writeBlock n.store block).2 }

theorem chainSyncNode_step_consistent (n : ChainSyncNode CS) (a : ChainSyncStep)
    (h : n.synchronizer.Consistent) : (n.step a).synchronizer.Consistent := by
  cases a with
  | tick i => exact (ChainSynchronizer.tick_consistent i ⟨n.synchronizer, _, n.store⟩ h).1
  | syncRequest overflowChecks fromNode request =>
    exact (ChainSynchronizer.handleSyncRequest_quiet overflowChecks fromNode request
      ⟨n.synchronizer, _, n.store⟩).consistent h
  | syncResponse overflowChecks fromNode response =>
    exact ChainSynchronizer.handleSyncResponse_consistent overflowChecks fromNode response
      ⟨n.synchronizer, _, n.store⟩ h
  | resetState => exact n.synchronizer.consistent_resetState
  | writeBlock block => exact h

/-- Along every run: a status other than unknown has a lead node, a tick that ends well and
synchronized knew the last common blocks of a quorum, and the last block of another node that
leads is known. -/
theorem chainSync_run_status (config : ChainSyncConfig) (cell : Cell) (store : CS)
    (steps : List ChainSyncStep) :
    let n := Run.exec ChainSyncNode.step ⟨.new config cell, store⟩ steps
    (n.synchronizer.status = .synchronized ∨ n.synchronizer.status = .downloading →
        n.synchronizer.leader.isSome = true) ∧
      (∀ i messages n', n.call (ChainSynchronizer.tick i) = (.ok (), messages, n') →
        n'.synchronizer.status = .synchronized →
        n'.synchronizer.cell.hasQuorum n'.synchronizer.nodesMetadataSync (some .chain) = true) ∧
      ∀ id, n.synchronizer.leader = some id → id ≠ n.synchronizer.cell.localNode →
        (n.synchronizer.nodeInfo id).lastKnownBlock.isSome = true := by
  intro n
  have hn : n.synchronizer.Consistent :=
    Run.exec_invariant ChainSyncNode.step (fun _ _ => True)
      (fun n : ChainSyncNode CS => n.synchronizer.Consistent)
      (fun n a h _ => chainSyncNode_step_consistent n a h) _ steps
      (ChainSynchronizer.consistent_new config cell) (Run.allowed_true _ _ steps)
  refine ⟨?_, ?_, hn.leaderKnown⟩
  · intro hstatus
    apply hn.hasLeader
    rcases hstatus with h | h <;> simp [h]
  · intro i messages n' hcall hsync
    obtain ⟨-, hquorum⟩ := ChainSynchronizer.tick_consistent i
      ⟨n.synchronizer, .new ⟨none⟩, n.store⟩ hn
    have hok : (ChainSynchronizer.tick i
        (⟨n.synchronizer, .new ⟨none⟩, n.store⟩ : ChainSyncState CS)).1 = .ok () :=
      congrArg Prod.fst hcall
    have hn' : n' = ⟨_, _⟩ := (congrArg (fun r => r.2.2) hcall).symm
    subst hn'
    exact hquorum hok hsync

end Runs

end Exocore.Engine
