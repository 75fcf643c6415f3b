import Exocore.ChainSyncAnswer

/-! What a node knows of the chains of honest nodes, and that its calls keep it true. -/
namespace Exocore.Engine

open Exocore.Core Exocore.Chain

namespace ChainSynchronizer

section Tick
variable {CS : Type}

/-- The requests of a tick, made from what is known of their receiver. -/
def InfoRequest (s : ChainSynchronizer) (message : SyncContextMessage) : Prop :=
  ∃ id, message = .chainSyncRequest id (createSyncRequest (s.nodeInfo id) .headers none) ∨
    message = .chainSyncRequest id (createSyncRequest (s.nodeInfo id) .blocks
      (some (((s.nodeInfo id).lastKnownBlock.map BlockMetadata.offset).getD 0)))

/-- A part of a tick: the chain stays, of the infos at most the marks go, and the requests
are made from the infos. -/
structure Watches (s s' : ChainSyncState CS) : Prop where
  store : s'.store = s.store
  cell : s'.synchronizer.cell = s.synchronizer.cell
  config : s'.synchronizer.config = s.synchronizer.config
  infos : ∀ id, s'.synchronizer.nodeInfo id = s.synchronizer.nodeInfo id ∨
    s'.synchronizer.nodeInfo id =
      { s.synchronizer.nodeInfo id with lastCommonIsKnown := false }
  messages : ∀ message ∈ s'.syncContext.messages, message ∈ s.syncContext.messages ∨
    InfoRequest s.synchronizer message

theorem Watches.refl (s : ChainSyncState CS) : Watches s s :=
  ⟨rfl, rfl, rfl, fun _ => Or.inl rfl, fun _ h => Or.inl h⟩

theorem Watches.infoRequest {s s' : ChainSyncState CS} (h : Watches s s')
    (message : SyncContextMessage) (hm : InfoRequest s'.synchronizer message) :
    InfoRequest s.synchronizer message := by
  obtain ⟨id, hid⟩ := hm
  refine ⟨id, ?_⟩
  rcases h.infos id with hinfo | hinfo <;> rw [hinfo] at hid <;> exact hid

theorem Watches.trans {a b c : ChainSyncState CS} (h : Watches a b) (h' : Watches b c) :
    Watches a c := by
  refine ⟨h'.store.trans h.store, h'.cell.trans h.cell, h'.config.trans h.config, ?_, ?_⟩
  · intro id
    rcases h.infos id with hb | hb <;> rcases h'.infos id with hc | hc
    · exact Or.inl (hc.trans hb)
    · exact Or.inr (by rw [hc, hb])
    · exact Or.inr (by rw [hc, hb])
    · exact Or.inr (by rw [hc, hb])
  · intro message hmessage
    rcases h'.messages message hmessage with hold | hnew
    · exact h.messages message hold
    · exact Or.inr (h.infoRequest message hnew)

theorem watches_sameInfos {s s' : ChainSyncState CS} (hstore : s'.store = s.store)
    (hinfos : SameInfos s.synchronizer s'.synchronizer)
    (hmessages : s'.syncContext.messages = s.syncContext.messages) : Watches s s' :=
  ⟨hstore, hinfos.cell, hinfos.config, fun id => Or.inl (hinfos.infos id),
    fun _ h => Or.inl (hmessages ▸ h)⟩

theorem watches_createNodeInfo (s : ChainSyncState CS) (nodeId : NodeId) :
    Watches s { s with synchronizer := s.synchronizer.createNodeInfo nodeId } :=
  watches_sameInfos rfl (sameInfos_createNodeInfo s.synchronizer nodeId) rfl

theorem watches_push (s : ChainSyncState CS) (nodeId : NodeId) (request : ChainSyncRequest)
    (h : InfoRequest s.synchronizer (.chainSyncRequest nodeId request)) :
    Watches s { s with syncContext := s.syncContext.pushChainSyncRequest nodeId request } := by
  refine ⟨rfl, rfl, rfl, fun _ => Or.inl rfl, ?_⟩
  intro message hmessage
  rcases List.mem_append.mp hmessage with hold | hnew
  · exact Or.inl hold
  · rw [List.mem_singleton.mp hnew]
    exact Or.inr h

theorem synchronizeNodesMetadata_watches (i : ChainSyncInput) (nodes : List NodeId)
    (s : ChainSyncState CS) : Watches s (synchronizeNodesMetadata i nodes s).2 := by
  induction nodes generalizing s with
  | nil => exact .refl s
  | cons nodeId rest ih =>
    rw [synchronizeNodesMetadata, getOrCreateNodeInfo_bind]
    have hcreate := watches_createNodeInfo s nodeId
    split_ifs with hsend
    · have hpush := watches_push { s with synchronizer := s.synchronizer.createNodeInfo nodeId }
        nodeId (createSyncRequest (s.synchronizer.nodeInfo nodeId) .headers none)
        ⟨nodeId, Or.inl (by rw [nodeInfo_createNodeInfo])⟩
      exact (hcreate.trans hpush).trans (ih _)
    · exact hcreate.trans (ih _)

theorem loseLeader_watches (i : ChainSyncInput) (s : ChainSyncState CS) :
    Watches s (loseLeader i s).2 := by
  rw [loseLeader, Action.get_bind]
  split_ifs with hsync
  · cases s.synchronizer.leader with
    | none => exact .refl s
    | some leaderNodeId =>
      simp only [getOrCreateNodeInfo_bind]
      have hcreate := watches_createNodeInfo s leaderNodeId
      cases (s.synchronizer.nodeInfo leaderNodeId).commonBlocksHeightDelta i.overflowChecks with
      | error e => exact hcreate
      | ok delta =>
        simp only [Action.lift_ok_bind]
        split_ifs with hlost
        · exact hcreate.trans (watches_sameInfos rfl ⟨rfl, rfl, fun _ => rfl⟩ rfl)
        · exact hcreate
  · exact .refl s

variable [ChainRangeStore CS]

theorem countNonDivergent_watches (nodes : List NodeId) (count : ℕ) (s : ChainSyncState CS) :
    Watches s (countNonDivergent nodes count s).2 := by
  induction nodes generalizing count s with
  | nil => exact .refl s
  | cons nodeId rest ih =>
    rw [countNonDivergent, getOrCreateNodeInfo_bind, Action.get_bind]
    have hcreate := watches_createNodeInfo s nodeId
    cases (s.synchronizer.nodeInfo nodeId).isDivergent s.store with
    | error e => exact hcreate
    | ok isDivergent => exact hcreate.trans (ih _ _)

theorem findLeaderNode_watches (i : ChainSyncInput) (s : ChainSyncState CS) :
    Watches s (findLeaderNode i s).2 := by
  rw [findLeaderNode, Action.get_bind, Action.bind_apply, lastLocalBlock]
  cases liftError EngineError.chainStore (ChainStore.getLastBlock s.store) with
  | error e => exact .refl s
  | ok lastBlock =>
    simp only
    cases electLeader s.synchronizer.cell.localNode lastBlock
        (findMaybeLeader i s.synchronizer) with
    | error e => exact .refl s
    | ok leader => exact watches_sameInfos rfl ⟨rfl, rfl, fun _ => rfl⟩ rfl

theorem startLeaderDownloading_watches (i : ChainSyncInput) (s : ChainSyncState CS) :
    Watches s (startLeaderDownloading i s).2 := by
  rw [startLeaderDownloading, Action.get_bind]
  split_ifs with him
  · exact watches_sameInfos rfl ⟨rfl, rfl, fun _ => rfl⟩ rfl
  · cases s.synchronizer.leader with
    | none => exact .refl s
    | some leader =>
      simp only [getOrCreateNodeInfo_bind]
      have hcreate := watches_createNodeInfo s leader
      split_ifs with hfull
      · exact hcreate.trans (watches_sameInfos rfl ⟨rfl, rfl, fun _ => rfl⟩ rfl)
      · cases divergedBlock (s.synchronizer.nodeInfo leader) s.store with
        | error e => exact hcreate
        | ok diverged =>
          simp only [Action.lift_ok_bind]
          split_ifs
          · exact hcreate
          · refine hcreate.trans ?_
            rw [initiateDownload, Action.get_bind]
            split_ifs
            · exact .refl _
            · exact .refl _
            · have hpush := watches_push
                { s with synchronizer := s.synchronizer.createNodeInfo leader } leader
                (createSyncRequest (s.synchronizer.nodeInfo leader) .blocks (some
                  (((s.synchronizer.nodeInfo leader).lastKnownBlock.map
                    BlockMetadata.offset).getD 0)))
                ⟨leader, Or.inr (by rw [nodeInfo_createNodeInfo])⟩
              exact hpush.trans (watches_sameInfos rfl ⟨rfl, rfl, fun _ => rfl⟩ rfl)

theorem electAndDownload_watches (i : ChainSyncInput) (s : ChainSyncState CS) :
    Watches s (electAndDownload i s).2 := by
  rw [electAndDownload_eq]
  have hcount := countNonDivergent_watches s.synchronizer.otherChainNodes 1 s
  cases hrun : countNonDivergent s.synchronizer.otherChainNodes 1 s with
  | mk r s1 =>
    rw [hrun] at hcount
    cases r with
    | error e => exact hcount
    | ok nbNonDivergent =>
      simp only
      split_ifs
      · refine hcount.trans ?_
        have hfind := findLeaderNode_watches i s1
        rcases Action.bind_cases (findLeaderNode i) (fun _ => startLeaderDownloading i) s1 with
          ⟨e, s2, hx, hrest⟩ | ⟨_, s2, hx, hrest⟩
        · rw [hrest]
          rw [hx] at hfind
          exact hfind
        · rw [hrest]
          rw [hx] at hfind
          exact hfind.trans (startLeaderDownloading_watches i s2)
      · exact hcount.trans (startLeaderDownloading_watches i s1)
      · exact hcount

/-- A tick does not touch the chain, and asks for what is not known yet. -/
theorem tick_watches (i : ChainSyncInput) (s : ChainSyncState CS) (hs : s.synchronizer.Keyed) :
    Watches s (tick i s).2 := by
  obtain ⟨hchecked, -⟩ := checkNodesStatus_spec i s.synchronizer hs
  have hwatch : Watches s { s with synchronizer := (checkNodesStatus i s.synchronizer).2 } :=
    ⟨rfl, hchecked.cell, hchecked.config, hchecked.infos, fun _ h => Or.inl h⟩
  rw [tick_eq]
  generalize checkNodesStatus i s.synchronizer = checked at hwatch
  simp only
  cases liftError EngineError.chainStore (ChainStore.getLastBlock s.store) with
  | error e => exact hwatch
  | ok lastBlock =>
    simp only
    have hsame := sameInfos_loseMajority
      (checked.2.cell.hasQuorum checked.1 (some .chain)) checked.2
    generalize loseMajority (checked.2.cell.hasQuorum checked.1 (some .chain)) checked.2 = s1
      at hsame
    have hmajority : Watches { s with synchronizer := checked.2 } { s with synchronizer := s1 } :=
      watches_sameInfos rfl hsame rfl
    have hlose := loseLeader_watches i { s with synchronizer := s1 }
    cases hrun : loseLeader i { s with synchronizer := s1 } with
    | mk r s2 =>
      rw [hrun] at hlose
      have h2 : Watches s s2 := (hwatch.trans hmajority).trans hlose
      cases r with
      | error e => exact h2
      | ok _ =>
        simp only
        split_ifs
        · have helect := electAndDownload_watches i s2
          cases hdown : electAndDownload i s2 with
          | mk r s3 =>
            rw [hdown] at helect
            cases r with
            | error e => exact h2.trans helect
            | ok _ => exact (h2.trans helect).trans (synchronizeNodesMetadata_watches i _ s3)
        · exact h2.trans (synchronizeNodesMetadata_watches i _ s2)

end Tick

end ChainSynchronizer

/-- Of two chains that are not forked one starts with the other. -/
def Unforked (a b : List DataBlock) : Prop := a <+: b ∨ b <+: a

/-- What is known of the chain of a node is true. -/
structure InfoFits (own peer : List DataBlock) (info : NodeSyncInfo) : Prop where
  known : ∀ m, info.lastKnownBlock = some m → MetadataIn peer m
  common : ∀ m, info.lastCommonBlock = some m →
    ∃ b, b ∈ own ∧ b ∈ peer ∧ BlockMetadata.fromStoredBlock b = .ok m

theorem infoFits_new (own peer : List DataBlock) (id : NodeId) : InfoFits own peer (.new id) :=
  ⟨fun m h => by simp [NodeSyncInfo.new] at h, fun m h => by simp [NodeSyncInfo.new] at h⟩

theorem InfoFits.mono {own own' peer peer' : List DataBlock} {info : NodeSyncInfo}
    (h : InfoFits own peer info) (hown : own <+: own') (hpeer : peer <+: peer') :
    InfoFits own' peer' info := by
  refine ⟨fun m hm => (h.known m hm).mono fun b hb => hpeer.subset hb, ?_⟩
  intro m hm
  obtain ⟨b, hb, hb', heq⟩ := h.common m hm
  exact ⟨b, hown.subset hb, hpeer.subset hb', heq⟩

section Chains
variable [Crates]

/-- A chain as honest nodes write it. The header frames fit the size that a message has for
them. -/
structure HonestChain (chain : List DataBlock) : Prop where
  linked : Linked 0 chain (endOf chain)
  wellFormed : ∀ b ∈ chain, WellFormed b
  headerFits : ∀ b ∈ chain, b.header.wholeData.length < 2^32

theorem HonestChain.size_pos {chain : List DataBlock} (h : HonestChain chain) (b : DataBlock)
    (hb : b ∈ chain) : 0 < b.totalSize := (h.wellFormed b hb).totalSize_pos

theorem HonestChain.offset_lt {chain : List DataBlock} (h : HonestChain chain) (b : DataBlock)
    (hb : b ∈ chain) : b.offset < endOf chain ∧ b.nextOffset ≤ endOf chain :=
  (linked_offset_lt chain b _ _ h.linked hb (h.size_pos b hb)).2

/-- A block of another chain that starts inside of the own one is a block of both. -/
theorem HonestChain.mem_own {own peer : List DataBlock} (h : HonestChain peer)
    (hun : Unforked own peer) (b : DataBlock) (hb : b ∈ peer) (hlt : b.offset < endOf own) :
    b ∈ own := by
  rcases hun with hpre | hpre
  · exact mem_of_offset_lt h.linked h.size_pos hpre b hb hlt
  · exact hpre.subset hb

/-- A block of another chain at the end of the own one continues it. -/
theorem HonestChain.extends {own peer : List DataBlock} (hown : HonestChain own)
    (h : HonestChain peer) (hun : Unforked own peer) (b : DataBlock) (hb : b ∈ peer)
    (hoff : b.offset = endOf own) : own ++ [b] <+: peer := by
  rcases hun with hpre | hpre
  · obtain ⟨rest, rfl⟩ := hpre
    obtain ⟨mid, hl, hr⟩ := (linked_append_iff own rest 0 _).mp h.linked
    have hmid := linked_endOf own mid hl
    have hmem : b ∈ rest := by
      rcases List.mem_append.mp hb with hb' | hb'
      · have hlt := hown.offset_lt b hb'
        omega
      · exact hb'
    -- the first block of the rest is the only one at this offset
    obtain ⟨front, back, rfl⟩ := List.append_of_mem hmem
    cases front with
    | nil => exact ⟨back, by simp⟩
    | cons c front =>
      obtain ⟨hc, hrest⟩ := hr
      obtain ⟨hb', -⟩ := linked_middle front back b _ _ hrest
      have hpos := h.size_pos c (by simp)
      have hnext : c.nextOffset = c.offset + c.totalSize := rfl
      omega
  · have hlt := hown.offset_lt b (hpre.subset hb)
    omega

/-- Two blocks of a chain at one offset are the same. -/
theorem HonestChain.eq_of_offset {chain : List DataBlock} (h : HonestChain chain) (b c : DataBlock)
    (hb : b ∈ chain) (hc : c ∈ chain) (hoff : b.offset = c.offset) : b = c := by
  obtain ⟨l, r, rfl⟩ := List.append_of_mem hb
  obtain ⟨-, hl, hr⟩ := linked_middle l r b _ _ h.linked
  have hnext : b.nextOffset = b.offset + b.totalSize := rfl
  have hpos := h.size_pos b hb
  rcases List.mem_append.mp hc with hc' | hc'
  · have hlt := linked_offset_lt l c _ _ hl hc' (h.size_pos c hc)
    omega
  · rcases List.mem_cons.mp hc' with rfl | hc'
    · rfl
    · have hlt := linked_offset_lt r c _ _ hr hc' (h.size_pos c hc)
      omega

theorem Holds.honest {s : DirectoryChainStore} {chain : List DataBlock} (h : Holds s chain)
    (hfits : ∀ b ∈ chain, b.header.wholeData.length < 2^32) : HonestChain chain :=
  ⟨h.linked, h.wellFormed, hfits⟩

/-- The end of a block is the same by its metadata. -/
theorem fromStoredBlock_nextOffset {b : DataBlock} {m : BlockMetadata} (hb : WellFormed b)
    (hfits : b.header.wholeData.length < 2^32) (h : BlockMetadata.fromStoredBlock b = .ok m) :
    m.nextOffset = b.nextOffset := by
  obtain ⟨header, hreader, -, hops, hsigs⟩ := hb.headerAgrees
  rw [BlockMetadata.fromStoredBlock, hreader, orError_some, ok_bind] at h
  obtain ⟨hash, -, h⟩ := (bind_eq_ok_iff _ _ _).mp h
  rw [← Except.ok.inj h, BlockMetadata.nextOffset, DataBlock.nextOffset, DataBlock.totalSize]
  simp only [Nat.mod_eq_of_lt hfits, hops, hsigs]
  omega

theorem boundary_metadata {chain : List DataBlock} (h : HonestChain chain) {m : BlockMetadata}
    (hm : MetadataIn chain m) : Boundary chain m.offset ∧ Boundary chain m.nextOffset := by
  obtain ⟨b, hb, heq⟩ := hm
  rw [fromStoredBlock_offset heq,
    fromStoredBlock_nextOffset (h.wellFormed b hb) (h.headerFits b hb) heq]
  exact boundary_block h.linked b hb

theorem createSyncRequest_fits {own peer : List DataBlock} {info : NodeSyncInfo}
    (hpeer : HonestChain peer) (h : InfoFits own peer info) (details : RequestedDetails)
    (toOffset : Option ℕ) (hto : Boundary peer (toOffset.getD 0)) :
    RequestFits peer (ChainSynchronizer.createSyncRequest info details toOffset) := by
  refine ⟨?_, hto⟩
  rw [ChainSynchronizer.createSyncRequest]
  cases hcommon : info.lastCommonBlock with
  | none => exact boundary_zero peer
  | some m =>
    obtain ⟨b, -, hb, heq⟩ := h.common m hcommon
    obtain ⟨hoff, hnext⟩ := boundary_metadata hpeer ⟨b, hb, heq⟩
    simp only
    split_ifs
    · exact hoff
    · exact hnext

theorem boundary_lastKnown {own peer : List DataBlock} {info : NodeSyncInfo}
    (hpeer : HonestChain peer) (h : InfoFits own peer info) :
    Boundary peer ((info.lastKnownBlock.map BlockMetadata.offset).getD 0) := by
  cases hknown : info.lastKnownBlock with
  | none => exact boundary_zero peer
  | some m => exact (boundary_metadata hpeer (h.known m hknown)).1

/-- Where nothing is left to download the last block known is in the own chain. -/
theorem InfoFits.fullyDownloaded {own peer : List DataBlock} {info : NodeSyncInfo}
    (h : InfoFits own peer info) (hpeer : HonestChain peer)
    (hfull : info.chainFullyDownloaded = true) :
    ∃ m b, info.lastKnownBlock = some m ∧ b ∈ own ∧ BlockMetadata.fromStoredBlock b = .ok m := by
  rw [NodeSyncInfo.chainFullyDownloaded, Bool.and_eq_true, decide_eq_true_eq] at hfull
  obtain ⟨hsome, hoffsets⟩ := hfull
  obtain ⟨m, hm⟩ := Option.isSome_iff_exists.mp hsome
  rw [hm, Option.map_some] at hoffsets
  obtain ⟨m', hm', hoff⟩ := Option.map_eq_some_iff.mp hoffsets.symm
  obtain ⟨b, hb, heq⟩ := h.known m hm
  obtain ⟨c, hcown, hcpeer, hceq⟩ := h.common m' hm'
  have hsame : b = c := by
    apply hpeer.eq_of_offset b c hb hcpeer
    rw [← fromStoredBlock_offset heq, ← fromStoredBlock_offset hceq, hoff]
  exact ⟨m, b, hm, hsame ▸ hcown, heq⟩

/-- The requests to the nodes that are honest fit their chains. -/
def MessageFits (chains : NodeId → Option (List DataBlock)) : SyncContextMessage → Prop
  | .chainSyncRequest id request => ∀ chain, chains id = some chain → RequestFits chain request
  | _ => True

/-- A node whose chain is `own`, among honest nodes with the chains they have. -/
structure NodeFits (chains : NodeId → Option (List DataBlock)) (own : List DataBlock)
    (s : ChainSyncState DirectoryChainStore) : Prop where
  holds : Holds s.store own
  headerFits : ∀ b ∈ own, b.header.wholeData.length < 2^32
  keyed : s.synchronizer.Keyed
  infos : ∀ id chain, chains id = some chain → InfoFits own chain (s.synchronizer.nodeInfo id)
  messages : ∀ message ∈ s.syncContext.messages, MessageFits chains message

theorem NodeFits.honest {chains : NodeId → Option (List DataBlock)} {own : List DataBlock}
    {s : ChainSyncState DirectoryChainStore} (h : NodeFits chains own s) : HonestChain own :=
  Holds.honest h.holds h.headerFits

theorem infoRequest_fits {chains : NodeId → Option (List DataBlock)} {own : List DataBlock}
    {s : ChainSyncState DirectoryChainStore} (h : NodeFits chains own s)
    (hchains : ∀ id chain, chains id = some chain → HonestChain chain)
    (message : SyncContextMessage) (hm : s.synchronizer.InfoRequest message) :
    MessageFits chains message := by
  obtain ⟨id, rfl | rfl⟩ := hm
  · intro chain hchain
    exact createSyncRequest_fits (hchains id chain hchain) (h.infos id chain hchain) _ _
      (boundary_zero chain)
  · intro chain hchain
    exact createSyncRequest_fits (hchains id chain hchain) (h.infos id chain hchain) _ _
      (boundary_lastKnown (hchains id chain hchain) (h.infos id chain hchain))

theorem NodeFits.watches {chains : NodeId → Option (List DataBlock)} {own : List DataBlock}
    {s s' : ChainSyncState DirectoryChainStore} (h : NodeFits chains own s)
    (hchains : ∀ id chain, chains id = some chain → HonestChain chain)
    (hw : ChainSynchronizer.Watches s s') : NodeFits chains own s' := by
  refine ⟨hw.store ▸ h.holds, h.headerFits, ?_, ?_, ?_⟩
  · intro id
    rcases hw.infos id with hinfo | hinfo <;> rw [hinfo] <;> exact h.keyed id
  · intro id chain hchain
    have hfits := h.infos id chain hchain
    rcases hw.infos id with hinfo | hinfo <;> rw [hinfo]
    · exact hfits
    · exact ⟨hfits.known, hfits.common⟩
  · intro message hmessage
    rcases hw.messages message hmessage with hold | hnew
    · exact h.messages message hold
    · exact infoRequest_fits h hchains message hnew

theorem tick_fits {chains : NodeId → Option (List DataBlock)} {own : List DataBlock}
    {s : ChainSyncState DirectoryChainStore} (h : NodeFits chains own s)
    (hchains : ∀ id chain, chains id = some chain → HonestChain chain) (i : ChainSyncInput) :
    NodeFits chains own (ChainSynchronizer.tick i s).2 :=
  h.watches hchains (ChainSynchronizer.tick_watches i s h.keyed)

/-- The headers of an honest node leave a true info of it. -/
theorem scanHeaders_fits {own peer : List DataBlock} (store : DirectoryChainStore)
    (hown : Holds store own) (hpeer : HonestChain peer) (hun : Unforked own peer)
    (overflowChecks : Bool) (headers : List BlockPartialHeader)
    (hheaders : ∀ header ∈ headers, ∃ m, MetadataIn peer m ∧ header = m.copyIntoBuilder)
    (scan : MetadataScan) (h : InfoFits own peer scan.info)
    (hfirst : Boundary peer (scan.firstNonCommonBlock.getD 0)) :
    InfoFits own peer (MetadataScan.scanHeaders overflowChecks store headers scan).2.info ∧
      Boundary peer
        ((MetadataScan.scanHeaders overflowChecks store headers scan).2.firstNonCommonBlock.getD
          0) := by
  refine MetadataScan.scanHeaders_keeps (fun scan => InfoFits own peer scan.info ∧
    Boundary peer (scan.firstNonCommonBlock.getD 0)) overflowChecks store headers ?_ ?_ ?_ scan
    ⟨h, hfirst⟩
  · intro header _ scan hscan
    rw [MetadataScan.checkContiguous_info, MetadataScan.checkContiguous_first]
    exact hscan
  · intro header hheader scan hscan
    obtain ⟨m, ⟨b, hb, hm⟩, rfl⟩ := hheaders header hheader
    constructor
    · rcases MetadataScan.checkCommon_cases store m.copyIntoBuilder scan with hsame |
        ⟨localBlock, block, -, hread, -, -, hblock, hset⟩
      · rw [hsame]
        exact hscan.1
      · rw [hset]
        refine ⟨hscan.1.known, ?_⟩
        intro m' hm'
        rw [BlockMetadata.fromBlockPartialMetadataReader_copyIntoBuilder] at hblock
        rw [← Except.ok.inj hblock] at hm'
        obtain rfl := Option.some.inj hm'
        -- what is read at the offset is inside of the own chain
        have hlt : b.offset < endOf own := by
          by_contra hge
          have hoff : m.copyIntoBuilder.offset = b.offset := fromStoredBlock_offset hm
          have hend := hown.getBlock_end b.offset (Nat.le_of_not_lt hge)
          have hread' : store.getBlock b.offset = .ok localBlock := by
            rw [← hoff]
            exact hread
          rw [hend] at hread'
          simp at hread'
        exact ⟨b, hpeer.mem_own hun b hb hlt, hb, hm⟩
    · rcases MetadataScan.checkCommon_first store m.copyIntoBuilder scan with hsame | hset
      · rw [hsame]
        exact hscan.2
      · rw [hset]
        exact (boundary_metadata hpeer ⟨b, hb, hm⟩).1
  · intro header hheader scan hscan
    obtain ⟨m, hm, rfl⟩ := hheaders header hheader
    rcases MetadataScan.checkKnown_cases m.copyIntoBuilder scan with hsame | ⟨block, -, hblock, hset⟩
    · rw [hsame]
      exact hscan
    · rw [hset]
      refine ⟨⟨?_, hscan.1.common⟩, hscan.2⟩
      intro m' hm'
      rw [BlockMetadata.fromBlockPartialMetadataReader_copyIntoBuilder] at hblock
      rw [← Except.ok.inj hblock] at hm'
      obtain rfl := Option.some.inj hm'
      exact hm

end Chains

end Exocore.Engine
