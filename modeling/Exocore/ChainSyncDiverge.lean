import Exocore.ChainSyncStale

/-! Where a tick takes the node for divergent: the election and the download go wrong on infos
that are older than the own chain. -/
namespace Exocore.Engine

open Exocore.Core Exocore.Chain

def Diverges {A : Type} (r : Res EngineError A) : Prop :=
  ∃ msg, r = .error (.error (.chainSync (.diverged msg)))

namespace ChainSynchronizer

/-- The node counts as synchronized, once its failed requests were looked at. -/
def inReach (i : ChainSyncInput) (s : ChainSynchronizer) (id : NodeId) : Bool :=
  (s.nodeInfo id).lastCommonIsKnown &&
    (id ∉ s.otherChainNodes || i.responseFailureCount id < s.config.metaSyncMaxFailures)

def reachesMajority (i : ChainSyncInput) (s : ChainSynchronizer) : Bool :=
  s.cell.hasQuorum ((s.cell.withRole .chain).filter fun node =>
    node.id = s.cell.localNode || inReach i s node.id).length (some .chain)

/-- A synchronized state whose lead node is in reach and not too far ahead. -/
def KeepsLead (i : ChainSyncInput) (s : ChainSynchronizer) : Prop :=
  s.status = .synchronized ∧ (s.imLeader = true ∨ ∀ lead, s.leader = some lead →
    inReach i s lead = true ∧ ∀ delta,
      (s.nodeInfo lead).commonBlocksHeightDelta i.overflowChecks = .ok delta →
        delta.getD 0 ≤ s.config.maxLeaderCommonBlockHeightDelta)

/-- The nodes among which the lead node is elected: in reach, no lower than the others in
reach, and no lower than the own chain. -/
structure Candidate (i : ChainSyncInput) (s : ChainSynchronizer) (own : List DataBlock)
    (lead : NodeId) : Prop where
  reached : inReach i s lead = true
  highest : ∃ known, (s.nodeInfo lead).lastKnownBlock = some known ∧
    (∀ id k, inReach i s id = true → (s.nodeInfo id).lastKnownBlock = some k →
      k.height ≤ known.height) ∧
    ∀ last, own.getLast? = some last → heightOf last ≤ known.height

/-- The lead node of a download, or one that may be elected. -/
def MayLead (i : ChainSyncInput) (s : ChainSynchronizer) (own : List DataBlock) (lead : NodeId) :
    Prop :=
  (s.status ≠ .synchronized ∧ s.leader = some lead) ∨
    ((s.status = .synchronized ∨ s.leader = none) ∧ Candidate i s own lead)

/-- Where a tick elects or downloads, the infos of a quorum are as new as the own chain, and so
is the one of the lead node. -/
def Informed (i : ChainSyncInput) (s : ChainSynchronizer) (own : List DataBlock) : Prop :=
  reachesMajority i s = true → KeepsLead i s ∨
    (s.cell.hasQuorum (1 + (s.otherChainNodes.filter fun id =>
        !isStale own (s.nodeInfo id)).length) (some .chain) = true ∧
      ∀ lead, lead ≠ s.cell.localNode → MayLead i s own lead →
        isStale own (s.nodeInfo lead) = false)

theorem checkNodesStatus_inReach (i : ChainSyncInput) (s : ChainSynchronizer) (hs : s.Keyed)
    (id : NodeId) :
    ((checkNodesStatus i s).2.nodeInfo id).lastCommonIsKnown = inReach i s id := by
  rw [checkNodesStatus_nodeInfo i s hs, inReach]
  split_ifs with hother
  · simp only [NodeSyncInfo.checkStatus, hother, not_true_eq_false, decide_false, Bool.false_or]
    simp only [ge_iff_le, ← Nat.not_lt, decide_not, Bool.not_not]
  · simp [hother]

theorem checkNodesStatus_majority (i : ChainSyncInput) (s : ChainSynchronizer) (hs : s.Keyed) :
    (checkNodesStatus i s).2.cell.hasQuorum (checkNodesStatus i s).1 (some .chain) =
      reachesMajority i s := by
  obtain ⟨hchecked, hcount⟩ := checkNodesStatus_spec i s hs
  rw [hcount, nodesMetadataSync, reachesMajority, hchecked.cell]
  congr 2
  apply List.filter_congr
  intro node _
  rw [isMetadataSync, hchecked.cell, checkNodesStatus_inReach i s hs]

end ChainSynchronizer

section Calls
variable {CS : Type} [ChainRangeStore CS]

/-- What the nodes are taken for, in a state. -/
def Judges (s : ChainSyncState CS) (stale : NodeId → Bool) : Prop :=
  ∀ id, (s.synchronizer.nodeInfo id).isDivergent s.store = .ok (stale id)

theorem Judges.quiet {s s' : ChainSyncState CS} {stale : NodeId → Bool} (h : Judges s stale)
    (hstore : s'.store = s.store)
    (hinfos : ∀ id, s'.synchronizer.nodeInfo id = s.synchronizer.nodeInfo id) :
    Judges s' stale := by
  intro id
  rw [hinfos, hstore]
  exact h id

theorem countNonDivergent_judged (nodes : List NodeId) (count : ℕ) (s : ChainSyncState CS)
    (stale : NodeId → Bool) (h : Judges s stale) :
    ∃ s', ChainSynchronizer.countNonDivergent nodes count s =
        (.ok (count + (nodes.filter fun id => !stale id).length), s') ∧
      ChainSynchronizer.Quiet s s' := by
  induction nodes generalizing count s with
  | nil => exact ⟨s, rfl, .refl s⟩
  | cons node rest ih =>
    have hquiet := ChainSynchronizer.quiet_createNodeInfo s node
    rw [ChainSynchronizer.countNonDivergent, ChainSynchronizer.getOrCreateNodeInfo_bind,
      Action.get_bind]
    have hnode : (s.synchronizer.nodeInfo node).isDivergent s.store = .ok (stale node) := h node
    simp only [hnode, Action.lift_ok_bind]
    obtain ⟨s', hs', hquiet'⟩ := ih (if stale node = true then count else count + 1)
      { s with synchronizer := s.synchronizer.createNodeInfo node }
      (h.quiet rfl hquiet.infos.infos)
    refine ⟨s', ?_, hquiet.trans hquiet'⟩
    rw [hs', List.filter_cons]
    cases stale node with
    | true => simp
    | false =>
      simp only [Bool.not_false, if_true, List.length_cons, Bool.false_eq_true, if_false]
      rw [Nat.add_assoc, Nat.add_comm 1]

theorem startLeaderDownloading_not_diverges (i : ChainSyncInput) (s : ChainSyncState CS)
    (stale : NodeId → Bool) (h : Judges s stale)
    (hlead : ∀ lead, s.synchronizer.leader = some lead → lead ≠ s.synchronizer.cell.localNode →
      stale lead = false) :
    ¬ Diverges (ChainSynchronizer.startLeaderDownloading i s).1 := by
  rw [ChainSynchronizer.startLeaderDownloading, Action.get_bind]
  split_ifs with him
  · rintro ⟨msg, hmsg⟩
    contradiction
  · cases hleader : s.synchronizer.leader with
    | none =>
      rintro ⟨msg, hmsg⟩
      contradiction
    | some lead =>
      have hother : lead ≠ s.synchronizer.cell.localNode := by
        intro heq
        rw [heq] at hleader
        exact him (by simp [ChainSynchronizer.imLeader, ChainSynchronizer.isLeader, hleader])
      have hnode : (s.synchronizer.nodeInfo lead).isDivergent s.store = .ok false := by
        rw [h lead, hlead lead hleader hother]
      simp only [ChainSynchronizer.getOrCreateNodeInfo_bind, ChainSynchronizer.divergedBlock, hnode,
        ok_bind]
      split_ifs with hfull
      · rintro ⟨msg, hmsg⟩
        contradiction
      · contradiction
      · rintro ⟨msg, hmsg⟩
        change (ChainSynchronizer.initiateDownload i lead (s.synchronizer.nodeInfo lead) { s with
          synchronizer := s.synchronizer.createNodeInfo lead }).1 = _ at hmsg
        rw [ChainSynchronizer.initiateDownload, Action.get_bind] at hmsg
        split_ifs at hmsg
        · simp at hmsg
        · cases hmsg

omit [ChainRangeStore CS] in
theorem loseLeader_not_diverges (i : ChainSyncInput) (s : ChainSyncState CS) :
    ¬ Diverges (ChainSynchronizer.loseLeader i s).1 := by
  rw [ChainSynchronizer.loseLeader, Action.get_bind]
  split_ifs
  · cases s.synchronizer.leader with
    | none =>
      rintro ⟨msg, hmsg⟩
      contradiction
    | some lead =>
      simp only [ChainSynchronizer.getOrCreateNodeInfo_bind]
      -- only the subtraction of the heights may fail, with a panic
      have hdelta : ∀ e, (s.synchronizer.nodeInfo lead).commonBlocksHeightDelta i.overflowChecks =
          .error e → e = .panic := by
        intro e he
        rw [NodeSyncInfo.commonBlocksHeightDelta] at he
        split at he
        · rename_i common known _ _
          rw [wordSub] at he
          split_ifs at he
          · contradiction
          · exact (Except.error.inj he).symm
          · contradiction
        · contradiction
      cases hd : (s.synchronizer.nodeInfo lead).commonBlocksHeightDelta i.overflowChecks with
      | error e =>
        rw [hdelta e hd]
        rintro ⟨msg, hmsg⟩
        simp at hmsg
      | ok delta =>
        simp only [Action.lift_ok_bind]
        split_ifs
        · rintro ⟨msg, hmsg⟩
          contradiction
        · rintro ⟨msg, hmsg⟩
          contradiction
  · rintro ⟨msg, hmsg⟩
    contradiction

omit [ChainRangeStore CS] in
/-- Another node is only elected where the own chain is no higher. -/
theorem electLeader_other (localNode : NodeId) (lastBlock : Option DataBlock)
    (maybeLeader : Option (NodeSyncInfo × ℕ)) (id : NodeId)
    (h : ChainSynchronizer.electLeader localNode lastBlock maybeLeader = .ok (some id))
    (hother : id ≠ localNode) :
    ∃ info height, maybeLeader = some (info, height) ∧ id = info.nodeId ∧
      ∀ last, lastBlock = some last → ∃ own, last.getHeight = .ok own ∧ own ≤ height := by
  rcases ChainSynchronizer.electLeader_cases _ _ _ _ h with hlocal | ⟨info, height, rfl, hid⟩
  · exact absurd hlocal hother
  · refine ⟨info, height, rfl, hid, ?_⟩
    rintro last rfl
    rw [ChainSynchronizer.electLeader, bind_eq_ok_iff] at h
    obtain ⟨own, hown, h⟩ := h
    have helected := Option.some.inj (Except.ok.inj h)
    split_ifs at helected with hgt
    · exact absurd helected.symm hother
    · exact ⟨own, (liftError_eq_ok_iff _ _ _).mp hown, by omega⟩

/-- The lead node of an election is another one only where it is a candidate. -/
theorem findLeaderNode_elects (i : ChainSyncInput) (s s' : ChainSyncState CS)
    (hkeyed : s.synchronizer.Keyed)
    (h : ChainSynchronizer.findLeaderNode i s = (.ok (), s')) :
    ∃ leader lastBlock, liftError EngineError.chainStore (ChainStore.getLastBlock s.store) =
        .ok lastBlock ∧
      s' = { s with synchronizer := { s.synchronizer with leader := leader } } ∧
      ∀ lead, leader = some lead → lead ≠ s.synchronizer.cell.localNode →
        ∃ known, (s.synchronizer.nodeInfo lead).lastKnownBlock = some known ∧
          (s.synchronizer.nodeInfo lead).lastCommonIsKnown = true ∧
          (∀ id k, (s.synchronizer.nodeInfo id).lastCommonIsKnown = true →
            (s.synchronizer.nodeInfo id).lastKnownBlock = some k → k.height ≤ known.height) ∧
          ∀ last, lastBlock = some last → ∃ height, last.getHeight = .ok height ∧
            height ≤ known.height := by
  rw [ChainSynchronizer.findLeaderNode, Action.get_bind, Action.bind_apply,
    ChainSynchronizer.lastLocalBlock] at h
  cases hlast : liftError EngineError.chainStore (ChainStore.getLastBlock s.store) with
  | error e =>
    simp only [hlast] at h
    exact absurd (congrArg Prod.fst h) (by simp)
  | ok lastBlock =>
    simp only [hlast] at h
    cases helect : ChainSynchronizer.electLeader s.synchronizer.cell.localNode lastBlock
        (ChainSynchronizer.findMaybeLeader i s.synchronizer) with
    | error e =>
      rw [helect] at h
      exact absurd (congrArg Prod.fst h) (by simp)
    | ok leader =>
      rw [helect, Action.lift_ok_bind] at h
      refine ⟨leader, lastBlock, rfl, (congrArg Prod.snd h).symm, ?_⟩
      intro lead hleader hother
      rw [hleader] at helect
      obtain ⟨info, height, hcandidate, hid, hheight⟩ :=
        electLeader_other _ _ _ _ helect hother
      obtain ⟨id, known, hinfo, hknown, hknownHeight, hreached⟩ :=
        ChainSynchronizer.findMaybeLeader_spec i _ _ _ hcandidate
      have hsame : id = lead := by
        rw [hid, ← hinfo]
        exact (hkeyed id).symm
      rw [← hsame, hinfo]
      refine ⟨known, hknown, hreached, ?_, ?_⟩
      · intro id' k hk hkKnown
        rw [hknownHeight]
        exact ChainSynchronizer.findMaybeLeader_le i _ _ _ hcandidate id' k hkKnown hk
      · rw [hknownHeight]
        exact hheight

theorem findLeaderNode_not_diverges (i : ChainSyncInput) (s : ChainSyncState CS) :
    ¬ Diverges (ChainSynchronizer.findLeaderNode i s).1 := by
  rintro ⟨msg, hmsg⟩
  rw [ChainSynchronizer.findLeaderNode, Action.get_bind, Action.bind_apply,
    ChainSynchronizer.lastLocalBlock] at hmsg
  cases hlast : ChainStore.getLastBlock s.store with
  | error e => cases e <;> simp [hlast, liftError, Fault.map] at hmsg
  | ok lastBlock =>
    simp only [hlast, liftError_ok] at hmsg
    cases hcandidate : ChainSynchronizer.findMaybeLeader i s.synchronizer with
    | none => cases lastBlock <;> simp [hcandidate, ChainSynchronizer.electLeader,
        ChainSynchronizer.update, Action.bind_apply] at hmsg
    | some candidate =>
      obtain ⟨info, height⟩ := candidate
      cases lastBlock with
      | none => simp [hcandidate, ChainSynchronizer.electLeader, ChainSynchronizer.update,
          Action.bind_apply] at hmsg
      | some block =>
        cases hheight : block.getHeight with
        | error e => cases e <;> simp [hcandidate, ChainSynchronizer.electLeader, hheight, liftError,
            Fault.map] at hmsg
        | ok own =>
          simp only [hcandidate, ChainSynchronizer.electLeader, hheight, liftError_ok,
            ok_bind] at hmsg
          cases hmsg

/-- A quorum of the nodes is not behind, and the lead node is not either. -/
theorem electAndDownload_not_diverges (i : ChainSyncInput) (s : ChainSyncState CS)
    (hkeyed : s.synchronizer.Keyed) (stale : NodeId → Bool) (h : Judges s stale)
    (hquorum : s.synchronizer.cell.hasQuorum (1 + (s.synchronizer.otherChainNodes.filter fun id =>
      !stale id).length) (some .chain) = true)
    (hlead : ∀ lead, s.synchronizer.leader = some lead → lead ≠ s.synchronizer.cell.localNode →
      stale lead = false)
    (helected : s.synchronizer.leader = none → ∀ s₁ s₂, ChainSynchronizer.Quiet s s₁ →
      ChainSynchronizer.findLeaderNode i s₁ = (.ok (), s₂) →
      ∀ lead, s₂.synchronizer.leader = some lead → lead ≠ s.synchronizer.cell.localNode →
        stale lead = false) :
    ¬ Diverges (ChainSynchronizer.electAndDownload i s).1 := by
  rw [ChainSynchronizer.electAndDownload_eq]
  obtain ⟨s₁, hcount, hquiet⟩ := countNonDivergent_judged s.synchronizer.otherChainNodes 1 s stale h
  have h₁ : Judges s₁ stale := h.quiet hquiet.store hquiet.infos.infos
  rw [hcount]
  simp only
  rw [if_pos hquorum]
  split_ifs with hnone
  · have hleader : s.synchronizer.leader = none := Option.isNone_iff_eq_none.mp hnone
    rcases Action.bind_cases (ChainSynchronizer.findLeaderNode i)
        (fun _ => ChainSynchronizer.startLeaderDownloading i) s₁ with
      ⟨e, s₂, hs₂, hres⟩ | ⟨_, s₂, hs₂, hres⟩
    · rw [hres]
      have hfind := findLeaderNode_not_diverges i s₁
      rw [hs₂] at hfind
      exact hfind
    · rw [hres]
      have hsame : s₂.store = s₁.store ∧
          (∀ id, s₂.synchronizer.nodeInfo id = s₁.synchronizer.nodeInfo id) ∧
          s₂.synchronizer.cell = s₁.synchronizer.cell := by
        obtain ⟨leader, -, -, rfl, -⟩ := findLeaderNode_elects i s₁ s₂ (hquiet.infos.keyed hkeyed) hs₂
        exact ⟨rfl, fun _ => rfl, rfl⟩
      refine startLeaderDownloading_not_diverges i s₂ stale (h₁.quiet hsame.1 hsame.2.1) ?_
      intro lead hl hother
      rw [hsame.2.2, hquiet.infos.cell] at hother
      exact helected hleader s₁ s₂ hquiet hs₂ lead hl hother
  · refine startLeaderDownloading_not_diverges i s₁ stale h₁ ?_
    intro lead hl hother
    rw [hquiet.leader] at hl
    rw [hquiet.infos.cell] at hother
    exact hlead lead hl hother

omit [ChainRangeStore CS] in
theorem loseLeader_keeps (i : ChainSyncInput) (s : ChainSyncState CS)
    (h : s.synchronizer.imLeader = true ∨ ∀ lead, s.synchronizer.leader = some lead →
      (s.synchronizer.nodeInfo lead).lastCommonIsKnown = true ∧ ∀ delta,
        (s.synchronizer.nodeInfo lead).commonBlocksHeightDelta i.overflowChecks = .ok delta →
          delta.getD 0 ≤ s.synchronizer.config.maxLeaderCommonBlockHeightDelta) :
    (ChainSynchronizer.loseLeader i s).2.synchronizer.status = s.synchronizer.status := by
  rw [ChainSynchronizer.loseLeader, Action.get_bind]
  split_ifs with hsync
  · have hlead := h.resolve_left (by simpa using hsync.2)
    cases hleader : s.synchronizer.leader with
    | none => rfl
    | some lead =>
      obtain ⟨hknown, hdelta⟩ := hlead lead hleader
      have hstatus := (ChainSynchronizer.status_eq_iff _).mpr hknown
      simp only [ChainSynchronizer.getOrCreateNodeInfo_bind]
      have hquiet := ChainSynchronizer.quiet_createNodeInfo s lead
      cases hd : (s.synchronizer.nodeInfo lead).commonBlocksHeightDelta i.overflowChecks with
      | error e => exact hquiet.status
      | ok delta =>
        simp only [Action.lift_ok_bind]
        rw [if_neg]
        · exact hquiet.status
        · rintro (hne | hgt)
          · exact hne hstatus
          · have hle := hdelta delta hd
            omega
  · rfl

end Calls

section Tick
variable [Crates]

omit [Crates] in
/-- A synchronized state that keeps its lead node does not lose it. -/
theorem loseLeader_stays (i : ChainSyncInput) (s : ChainSyncState DirectoryChainStore)
    (checked : ChainSynchronizer) (hchecked : ChainSynchronizer.Checked s.synchronizer checked)
    (hreach : ∀ id, (checked.nodeInfo id).lastCommonIsKnown =
      ChainSynchronizer.inReach i s.synchronizer id)
    (hdelta : ∀ id, (checked.nodeInfo id).commonBlocksHeightDelta i.overflowChecks =
      (s.synchronizer.nodeInfo id).commonBlocksHeightDelta i.overflowChecks)
    (hkeeps : ChainSynchronizer.KeepsLead i s.synchronizer) (s₂ : ChainSyncState DirectoryChainStore)
    (hlose : ChainSynchronizer.loseLeader i ⟨checked, s.syncContext, s.store⟩ = (.ok (), s₂)) :
    s₂.synchronizer.status = .synchronized := by
  obtain ⟨hsync, hkeeps⟩ := hkeeps
  have hstays := loseLeader_keeps i (⟨checked, s.syncContext, s.store⟩ :
    ChainSyncState DirectoryChainStore) ?_
  · rw [hlose] at hstays
    exact (hstays.trans hchecked.status).trans hsync
  · rcases hkeeps with him | hlead
    · left
      rw [ChainSynchronizer.imLeader, ChainSynchronizer.isLeader] at him ⊢
      rw [hchecked.leader, hchecked.cell]
      exact him
    · right
      intro lead hleader
      obtain ⟨hreached, hdeltas⟩ := hlead lead (hchecked.leader ▸ hleader)
      refine ⟨(hreach lead).trans hreached, ?_⟩
      intro delta hd
      rw [hdelta lead] at hd
      rw [hchecked.config]
      exact hdeltas delta hd

omit [Crates] in
/-- A lead node that is there after the lead node may have been lost is the one from before. -/
theorem loseLeader_leader (i : ChainSyncInput) (s : ChainSyncState DirectoryChainStore)
    (checked : ChainSynchronizer) (hchecked : ChainSynchronizer.Checked s.synchronizer checked)
    (s₂ : ChainSyncState DirectoryChainStore)
    (hlose : ChainSynchronizer.loseLeader i ⟨checked, s.syncContext, s.store⟩ = (.ok (), s₂))
    (hstatus : s₂.synchronizer.status ≠ .synchronized) :
    s₂.store = s.store ∧ ChainSynchronizer.SameInfos checked s₂.synchronizer ∧
      (∀ lead, s₂.synchronizer.leader = some lead → s.synchronizer.status ≠ .synchronized ∧
        s.synchronizer.leader = some lead) ∧
      (s₂.synchronizer.leader = none →
        s.synchronizer.status = .synchronized ∨ s.synchronizer.leader = none) := by
  have hcases := ChainSynchronizer.loseLeader_cases i (⟨checked, s.syncContext, s.store⟩ :
    ChainSyncState DirectoryChainStore)
  rw [hlose] at hcases
  rcases hcases with hquiet | ⟨-, hstore, hinfos, hsync, -, hnone⟩
  · refine ⟨hquiet.store, hquiet.infos, ?_, ?_⟩
    · intro lead hlead
      rw [← hchecked.status, ← hchecked.leader]
      exact ⟨fun h => hstatus (hquiet.status.trans h), hquiet.leader.symm.trans hlead⟩
    · intro hnone
      rw [← hchecked.leader]
      exact Or.inr (hquiet.leader.symm.trans hnone)
  · refine ⟨hstore, hinfos, ?_, ?_⟩
    · intro lead hlead
      rw [hnone] at hlead
      contradiction
    · intro _
      exact Or.inl (hchecked.status ▸ hsync)

/-- The election of a tick, in the state it is taken in. -/
theorem electAndDownload_informed (i : ChainSyncInput) (s : ChainSyncState DirectoryChainStore)
    (own : List DataBlock) (hholds : Holds s.store own) (hkeyed : s.synchronizer.Keyed)
    (hjudges : Judges s fun id => isStale own (s.synchronizer.nodeInfo id))
    (checked : ChainSynchronizer) (hchecked : ChainSynchronizer.Checked s.synchronizer checked)
    (hreach : ∀ id, (checked.nodeInfo id).lastCommonIsKnown =
      ChainSynchronizer.inReach i s.synchronizer id)
    (hinfo : ∀ id, checked.nodeInfo id = if id ∈ s.synchronizer.otherChainNodes then
      (s.synchronizer.nodeInfo id).checkStatus s.synchronizer.config (i.responseFailureCount id)
      else s.synchronizer.nodeInfo id)
    (hinformed : ChainSynchronizer.KeepsLead i s.synchronizer ∨
      (s.synchronizer.cell.hasQuorum (1 + (s.synchronizer.otherChainNodes.filter fun id =>
          !isStale own (s.synchronizer.nodeInfo id)).length) (some .chain) = true ∧
        ∀ lead, lead ≠ s.synchronizer.cell.localNode →
          ChainSynchronizer.MayLead i s.synchronizer own lead →
            isStale own (s.synchronizer.nodeInfo lead) = false))
    (s₂ : ChainSyncState DirectoryChainStore)
    (hlose : ChainSynchronizer.loseLeader i ⟨checked, s.syncContext, s.store⟩ = (.ok (), s₂))
    (hstatus : s₂.synchronizer.status ≠ .synchronized) :
    ¬ Diverges (ChainSynchronizer.electAndDownload i s₂).1 := by
  have hsame : ∀ id, (checked.nodeInfo id).lastKnownBlock =
        (s.synchronizer.nodeInfo id).lastKnownBlock ∧
      (checked.nodeInfo id).commonBlocksHeightDelta i.overflowChecks =
        (s.synchronizer.nodeInfo id).commonBlocksHeightDelta i.overflowChecks ∧
      (checked.nodeInfo id).isDivergent s.store =
        (s.synchronizer.nodeInfo id).isDivergent s.store := by
    intro id
    rw [hinfo]
    split_ifs <;> exact ⟨rfl, rfl, rfl⟩
  rcases hinformed with hkeeps | ⟨hquorum, hleads⟩
  · -- a synchronized state that keeps its lead node does not elect
    exact absurd (loseLeader_stays i s checked hchecked hreach (fun id => (hsame id).2.1) hkeeps s₂
      hlose) hstatus
  · obtain ⟨hstore, hinfos, hleader, hnoLeader⟩ :=
      loseLeader_leader i s checked hchecked s₂ hlose hstatus
    have hcell : s₂.synchronizer.cell = s.synchronizer.cell := hinfos.cell.trans hchecked.cell
    have hothers : s₂.synchronizer.otherChainNodes = s.synchronizer.otherChainNodes := by
      rw [ChainSynchronizer.otherChainNodes, ChainSynchronizer.otherChainNodes, hcell]
    have hkeyed₂ := hinfos.keyed (hchecked.keyed hkeyed)
    refine electAndDownload_not_diverges i s₂ hkeyed₂
      (fun id => isStale own (s.synchronizer.nodeInfo id)) ?_ ?_ ?_ ?_
    · intro id
      rw [hinfos.infos, hstore, (hsame id).2.2]
      exact hjudges id
    · rw [hcell, hothers]
      exact hquorum
    · intro lead hlead hother
      exact hleads lead (hcell ▸ hother) (Or.inl (hleader lead hlead))
    · intro hnone s₁ s₃ hquiet hfind lead hlead hother
      refine hleads lead (hcell ▸ hother) (Or.inr ⟨hnoLeader hnone, ?_⟩)
      obtain ⟨leader, lastBlock, hlast, rfl, helected⟩ :=
        findLeaderNode_elects i s₁ s₃ (hquiet.infos.keyed hkeyed₂) hfind
      have hnode : ∀ id, s₁.synchronizer.nodeInfo id = checked.nodeInfo id :=
        fun id => (hquiet.infos.infos id).trans (hinfos.infos id)
      rw [hquiet.infos.cell] at helected
      obtain ⟨known, hknown, hreached, hhighest, hownHeight⟩ := helected lead hlead hother
      rw [hnode, (hsame lead).1] at hknown
      rw [hnode, hreach] at hreached
      refine ⟨hreached, known, hknown, ?_, ?_⟩
      · intro id k hid hk
        refine hhighest id k ?_ ?_
        · rw [hnode, hreach]
          exact hid
        · rw [hnode, (hsame id).1]
          exact hk
      · intro last hlastOwn
        have hget : ChainStore.getLastBlock s.store = .ok own.getLast? := hholds.getLastBlock
        rw [hquiet.store, hstore, hget, liftError_ok] at hlast
        obtain ⟨height, hheight, hle⟩ := hownHeight last ((Except.ok.inj hlast).symm.trans hlastOwn)
        rw [← getHeight_eq_ok last height hheight]
        exact hle

/-- On infos that are as new as the own chain where it matters, a tick does not find the node
divergent. -/
theorem tick_not_diverges (i : ChainSyncInput) (s : ChainSyncState DirectoryChainStore)
    (own : List DataBlock) (hholds : Holds s.store own) (hkeyed : s.synchronizer.Keyed)
    (hjudges : Judges s fun id => isStale own (s.synchronizer.nodeInfo id))
    (hinformed : s.synchronizer.Informed i own) :
    ¬ Diverges (ChainSynchronizer.tick i s).1 := by
  obtain ⟨hchecked, -⟩ := ChainSynchronizer.checkNodesStatus_spec i s.synchronizer hkeyed
  have hreach := ChainSynchronizer.checkNodesStatus_inReach i s.synchronizer hkeyed
  have hinfo := ChainSynchronizer.checkNodesStatus_nodeInfo i s.synchronizer hkeyed
  have hlast : liftError EngineError.chainStore (ChainStore.getLastBlock s.store) =
      .ok own.getLast? := by
    have hget : ChainStore.getLastBlock s.store = .ok own.getLast? := hholds.getLastBlock
    rw [hget, liftError_ok]
  have hasked : ∀ nodes (s' : ChainSyncState DirectoryChainStore),
      ¬ Diverges (ChainSynchronizer.synchronizeNodesMetadata i nodes s').1 := by
    rintro nodes s' ⟨msg, hmsg⟩
    rw [(ChainSynchronizer.synchronizeNodesMetadata_quiet i nodes s').1] at hmsg
    contradiction
  rw [ChainSynchronizer.tick_eq]
  simp only
  rw [ChainSynchronizer.checkNodesStatus_majority i s.synchronizer hkeyed, hlast]
  generalize (ChainSynchronizer.checkNodesStatus i s.synchronizer).2 = checked at *
  simp only
  have hlost := loseLeader_not_diverges i (⟨ChainSynchronizer.loseMajority
    (ChainSynchronizer.reachesMajority i s.synchronizer) checked, s.syncContext, s.store⟩ :
      ChainSyncState DirectoryChainStore)
  cases hlose : ChainSynchronizer.loseLeader i (⟨ChainSynchronizer.loseMajority
      (ChainSynchronizer.reachesMajority i s.synchronizer) checked, s.syncContext, s.store⟩ :
        ChainSyncState DirectoryChainStore) with
  | mk r s₂ =>
    rw [hlose] at hlost
    cases r with
    | error e => exact hlost
    | ok _ =>
      simp only
      split_ifs with helects
      · obtain ⟨hstatus, hmajority⟩ := helects
        have hkeeps : ChainSynchronizer.loseMajority
            (ChainSynchronizer.reachesMajority i s.synchronizer) checked = checked := by
          rw [hmajority, ChainSynchronizer.loseMajority]
          simp
        rw [hkeeps] at hlose
        have hnot := electAndDownload_informed i s own hholds hkeyed hjudges checked hchecked hreach
          hinfo (hinformed hmajority) s₂ hlose hstatus
        cases helect : ChainSynchronizer.electAndDownload i s₂ with
        | mk r₃ s₃ =>
          rw [helect] at hnot
          cases r₃ with
          | error e => exact hnot
          | ok _ => exact hasked _ s₃
      · exact hasked _ s₂

/-- The blocks that are committed are higher than those before them. -/
def WorldStep.Rises (w : SyncWorld) : WorldStep → Prop
  | .commit block => ∀ c ∈ w.own, heightOf c < heightOf block
  | .peerCommit id block => ∀ c ∈ w.chain id, heightOf c < heightOf block
  | _ => True

def WorldStep.Informed (w : SyncWorld) : WorldStep → Prop
  | .tick i => w.node.synchronizer.Informed i w.own
  | _ => True

/-- The world of a node among honest nodes, in which every chain rises. -/
structure WorldRises (w : SyncWorld) : Prop where
  fits : WorldFits (fun _ => true) w
  own : HeightsGrow w.own
  peers : ∀ id, HeightsGrow (w.chain id)

omit [Crates] in
theorem call_peers (w : SyncWorld)
    (x : Action (ChainSyncState DirectoryChainStore) EngineError Unit) :
    (w.call x).peers = w.peers := by
  rw [SyncWorld.call]
  rcases w.node.call x with ⟨_ | _, messages, node⟩ <;> rfl

/-- The chain of another node only changes with a commit on it. -/
theorem step_chain (w : SyncWorld) (h : WorldFits (fun _ => true) w) (a : WorldStep)
    (ha : a.Fits (fun _ => true) w) (id : NodeId) :
    (w.step a).chain id = w.chain id ∨
      ∃ block, a = .peerCommit id block ∧ (w.step a).chain id = w.chain id ++ [block] := by
  have hcall : ∀ x, (w.call x).chain id = w.chain id := by
    intro x
    rw [SyncWorld.chain, call_peers]
    rfl
  cases a with
  | tick i => exact Or.inl (hcall _)
  | syncRequest overflowChecks fromNode request => exact Or.inl (hcall _)
  | foreign overflowChecks fromNode response => exact Or.inl (hcall _)
  | answer overflowChecks index =>
    rw [SyncWorld.step]
    cases w.requests[index]? with
    | none => exact Or.inl rfl
    | some sent => exact Or.inl (answer_chain overflowChecks sent.1 id sent.2)
  | deliver overflowChecks index =>
    rw [SyncWorld.step]
    cases w.responses[index]? with
    | none => exact Or.inl rfl
    | some sent => exact Or.inl (hcall _)
  | commit block => exact Or.inl rfl
  | resetState => exact Or.inl rfl
  | peerCommit id' block =>
    obtain ⟨hnext, -⟩ := ha rfl
    obtain ⟨hholds, hhonest⟩ := h.peers id' rfl
    obtain ⟨hwrite, -⟩ := nextBlock_write hholds hhonest.headerFits block hnext
    simp only [SyncWorld.chain, SyncWorld.step, SyncWorld.setPeer, Function.update_apply]
    split_ifs with heq
    · right
      rw [heq]
      exact ⟨block, rfl, hwrite.chainOf_eq⟩
    · exact Or.inl rfl

theorem step_rises (w : SyncWorld) (a : WorldStep) (h : WorldRises w)
    (ha : a.Fits (fun _ => true) w) (hrises : a.Rises w) : WorldRises (w.step a) := by
  have hsnoc : ∀ (chain : List DataBlock) (block : DataBlock), HeightsGrow chain →
      (∀ c ∈ chain, heightOf c < heightOf block) → HeightsGrow (chain ++ [block]) := by
    intro chain block hchain hblock
    refine List.pairwise_append.mpr ⟨hchain, List.pairwise_singleton _ _, ?_⟩
    intro c hc b hb
    rw [List.mem_singleton.mp hb]
    exact hblock c hc
  obtain ⟨hfits, hown, -⟩ := step_fits h.fits a ha
  refine ⟨hfits, ?_, ?_⟩
  · rcases hown with hsame | ⟨lead, -, -, -, halong⟩ | ⟨block, rfl, hcommit⟩
    · rw [hsame]
      exact h.own
    · exact (h.peers lead).sublist halong.sublist
    · rw [hcommit]
      exact hsnoc w.own block h.own hrises
  · intro id
    rcases step_chain w h.fits a ha id with hsame | ⟨block, rfl, hcommit⟩
    · rw [hsame]
      exact h.peers id
    · rw [hcommit]
      exact hsnoc (w.chain id) block (h.peers id) hrises

/-- Along every run of a node among honest nodes whose chains are not forked, no tick that is
informed finds the node divergent. -/
theorem run_not_diverges (config : ChainSyncConfig) (cell : Cell) (w : SyncWorld)
    (hnew : w.node.synchronizer = .new config cell) (hrequests : w.requests = [])
    (hresponses : w.responses = []) (hown : Holds w.node.store w.own)
    (hsizes : ∀ b ∈ w.own, b.header.wholeData.length < 2^32)
    (hpeers : ∀ id, Holds (w.peers id).store (w.chain id))
    (hpeersSizes : ∀ id, ∀ b ∈ w.chain id, b.header.wholeData.length < 2^32)
    (hunforked : ∀ id, Unforked w.own (w.chain id))
    (hpeersUnforked : ∀ id id', Unforked (w.chain id) (w.chain id'))
    (hheights : HeightsGrow w.own) (hpeersHeights : ∀ id, HeightsGrow (w.chain id))
    (steps : List WorldStep)
    (hrun : Run.Allowed SyncWorld.step
      (fun w a => a.Fits (fun _ => true) w ∧ a.Rises w ∧ a.Informed w) w steps)
    (before : List WorldStep) (i : ChainSyncInput) (after : List WorldStep)
    (hsteps : steps = before ++ .tick i :: after) :
    ¬ Diverges (ChainSynchronizer.tick i
      ⟨(Run.exec SyncWorld.step w before).node.synchronizer, .new ⟨none⟩,
        (Run.exec SyncWorld.step w before).node.store⟩).1 := by
  have hstart : WorldRises w :=
    ⟨worldFits_start config cell hnew hrequests hresponses hown hsizes
      (fun id _ => ⟨hpeers id, Holds.honest (hpeers id) (hpeersSizes id)⟩)
      (fun id _ => hunforked id) (fun id id' _ _ => hpeersUnforked id id'), hheights, hpeersHeights⟩
  rw [hsteps, Run.allowed_append_iff] at hrun
  have hrises := Run.exec_invariant SyncWorld.step _ WorldRises
    (fun w a h ha => step_rises w a h ha.1 ha.2.1) w before hstart hrun.1
  have hinformed := hrun.2.1.2.2
  generalize Run.exec SyncWorld.step w before = w' at hrises hinformed
  refine tick_not_diverges i _ w'.own hrises.fits.node.holds hrises.fits.node.keyed ?_ hinformed
  intro id
  exact isDivergent_eq_isStale w'.node.store hrises.fits.node.holds hrises.fits.node.honest
    (hrises.fits.peers id rfl).2 hrises.own (hrises.peers id) _
    (hrises.fits.node.infos id (w'.chain id) ((chains_eq_some_iff id _).mpr ⟨rfl, rfl⟩))

omit [Crates] in
/-- What is not recorded is not behind. -/
theorem isStale_of_keys (s : ChainSynchronizer) (own : List DataBlock)
    (h : ∀ id ∈ s.nodesInfo.keys, isStale own (s.nodeInfo id) = false) (id : NodeId) :
    isStale own (s.nodeInfo id) = false := by
  by_cases hid : id ∈ s.nodesInfo.keys
  · exact h id hid
  · have hnone : s.nodesInfo.lookup id = none := AList.lookup_eq_none.mpr hid
    rw [ChainSynchronizer.nodeInfo, hnone]
    rfl

end Tick

/-! Four nodes, three of them with the same chain. The node that is behind downloads the first
block that it lacks from one of them; until the two others have answered again, it takes itself
for divergent from the majority. -/

def behindNodes : List NodeId :=
  [leadNode, ⟨"12D3KooWCwqdEmFUVVDc1KRuBuojiBd6Fm2hR5YYMafgMznuzYJ9"⟩,
    ⟨"12D3KooWBUgHbe6m3PX4kneJeKmYhiv7cW1BfdP8qE3yvreorpSw"⟩]

def behindCell : Cell :=
  ⟨localNode, (localNode :: behindNodes).map fun id => ⟨id, [.chain]⟩, by decide⟩

/-- One block in each response. -/
def oneBlockConfig : ChainSyncConfig := { ChainSyncConfig.default with blocksMaxSendSize := 1 }

section Samples

attribute [local instance] syncCrates

def behindWorld : SyncWorld where
  node := ⟨.new oneBlockConfig behindCell, firstStore⟩
  peers _ := ⟨.new oneBlockConfig behindCell, thirdStore⟩
  requests := []
  responses := []

/-- The headers of the three nodes, then one block of the lead node. -/
def behindSteps : List WorldStep :=
  [.tick promptInput, .answer true 0, .answer true 1, .answer true 2, .deliver true 0,
    .deliver true 1, .deliver true 2, .tick promptInput, .answer true 3, .deliver true 3]

theorem behind_diverges :
    behindWorld.own = [genesisBlock] ∧
      (∀ id, behindWorld.chain id = [genesisBlock, secondBlock, thirdBlock]) ∧
      Run.Allowed SyncWorld.step (fun w a => a.Fits (fun _ => true) w ∧ a.Rises w) behindWorld
        behindSteps ∧
      Diverges (ChainSynchronizer.tick promptInput
        ⟨(Run.exec SyncWorld.step behindWorld behindSteps).node.synchronizer, .new ⟨none⟩,
          (Run.exec SyncWorld.step behindWorld behindSteps).node.store⟩).1 := by
  refine ⟨?_, ?_, ?_, ?_⟩
  · simp only [SyncWorld.own, behindWorld]
    exact firstStore_holds.chainOf_eq
  · intro id
    simp only [SyncWorld.chain, behindWorld]
    exact thirdStore_holds.chainOf_eq
  · refine ⟨⟨trivial, trivial⟩, ⟨trivial, trivial⟩, ⟨trivial, trivial⟩, ⟨trivial, trivial⟩,
      ⟨?_, trivial⟩, ⟨?_, trivial⟩, ⟨?_, trivial⟩, ⟨trivial, trivial⟩, ⟨trivial, trivial⟩,
      ⟨?_, trivial⟩, trivial⟩
    all_goals exact fun _ _ _ _ => rfl
  · refine ⟨"Our local chain is divergent with a majority of nodes (only 2 non divergent out of 4)",
      ?_⟩
    decide +kernel

theorem run_not_diverges_two_nodes :
    ¬ Diverges (ChainSynchronizer.tick promptInput
      ⟨(Run.exec SyncWorld.step downloadWorld (downloadSteps.take 3)).node.synchronizer,
        .new ⟨none⟩,
        (Run.exec SyncWorld.step downloadWorld (downloadSteps.take 3)).node.store⟩).1 := by
  have hown : downloadWorld.own = [genesisBlock] := by
    simp only [SyncWorld.own, downloadWorld]
    exact firstStore_holds.chainOf_eq
  have hchain : ∀ id, downloadWorld.chain id = [genesisBlock, secondBlock, thirdBlock] := by
    intro id
    simp only [SyncWorld.chain, downloadWorld]
    exact thirdStore_holds.chainOf_eq
  refine run_not_diverges .default downloadCell downloadWorld (by simp only [downloadWorld])
    (by simp only [downloadWorld]) (by simp only [downloadWorld]) ?_ ?_ ?_ ?_ ?_ ?_ ?_ ?_
    (downloadSteps.take 4) ?_ (downloadSteps.take 3) promptInput [] (by rfl)
  · rw [hown]
    simp only [downloadWorld]
    exact firstStore_holds
  · rw [hown]
    decide +kernel
  · intro id
    rw [hchain]
    simp only [downloadWorld]
    exact thirdStore_holds
  · intro id
    rw [hchain]
    decide +kernel
  · intro id
    rw [hown, hchain]
    exact Or.inl (List.prefix_append _ _)
  · intro id id'
    rw [hchain, hchain]
    exact Or.inl List.prefix_rfl
  · rw [hown]
    exact List.pairwise_singleton _ _
  · intro id
    rw [hchain, HeightsGrow]
    decide +kernel
  · refine ⟨⟨trivial, trivial, ?_⟩, ⟨trivial, trivial, trivial⟩,
      ⟨fun _ _ _ _ => rfl, trivial, trivial⟩, ⟨trivial, trivial, ?_⟩, trivial⟩
    · intro hmajority
      exact absurd hmajority (by decide +kernel)
    · intro _
      exact Or.inr ⟨by decide +kernel, fun lead _ _ =>
        isStale_of_keys _ _ (by decide +kernel) lead⟩

end Samples

end Exocore.Engine
