import Exocore.ChainSyncFits

/-! Responses of honest nodes: the infos stay true, and the blocks that are written continue
the own chain along theirs. -/
namespace Exocore.Engine

open Exocore.Core Exocore.Chain

/-- The metadata kept beside the chain while blocks are written are those of its last block. -/
def LastMetadata (own : List DataBlock) (last : Option BlockMetadata) : Prop :=
  (own = [] ∧ last = none) ∨
    ∃ front b m, own = front ++ [b] ∧ last = some m ∧ BlockMetadata.fromStoredBlock b = .ok m

theorem lastMetadata_common {own peer : List DataBlock} {last : Option BlockMetadata}
    (h : LastMetadata own last) (hpre : own <+: peer) (m : BlockMetadata) (hm : last = some m) :
    ∃ b, b ∈ own ∧ b ∈ peer ∧ BlockMetadata.fromStoredBlock b = .ok m := by
  rcases h with ⟨-, hnone⟩ | ⟨front, b, m', rfl, hlast, hread⟩
  · rw [hnone] at hm
    contradiction
  · rw [hlast] at hm
    obtain rfl := Option.some.inj hm
    exact ⟨b, by simp, hpre.subset (by simp), hread⟩

variable [Crates]

/-- A response of a node that is honest is made from its chain. -/
def ResponseFits (chains : NodeId → Option (List DataBlock)) (fromNode : NodeId)
    (response : ChainSyncResponse) : Prop :=
  ∀ chain, chains fromNode = some chain → HonestResponse chain response

theorem handleSyncResponseMetadata_fits {chains : NodeId → Option (List DataBlock)}
    {own : List DataBlock} {s : ChainSyncState DirectoryChainStore} (h : NodeFits chains own s)
    (hchains : ∀ id chain, chains id = some chain → HonestChain chain ∧ Unforked own chain)
    (overflowChecks : Bool) (fromNode : NodeId) (response : ChainSyncResponse)
    (hresponse : ResponseFits chains fromNode response) :
    NodeFits chains own
      (ChainSynchronizer.handleSyncResponseMetadata overflowChecks fromNode response s).2 := by
  have hhonest : ∀ id chain, chains id = some chain → HonestChain chain :=
    fun id chain hchain => (hchains id chain hchain).1
  have h1 := h.watches hhonest (ChainSynchronizer.watches_createNodeInfo s fromNode)
  rw [ChainSynchronizer.handleSyncResponseMetadata, ChainSynchronizer.getOrCreateNodeInfo_bind]
  cases hget : response.headers.get with
  | error e => exact h1
  | ok headers =>
    simp only [Action.lift_ok_bind, Action.get_bind]
    obtain ⟨hid, -, -⟩ := MetadataScan.scanHeaders_info overflowChecks s.store headers
      ⟨s.synchronizer.nodeInfo fromNode, false, none, none, true⟩
    have hscan : ∀ chain, chains fromNode = some chain →
        InfoFits own chain (MetadataScan.scanHeaders overflowChecks s.store headers
          ⟨s.synchronizer.nodeInfo fromNode, false, none, none, true⟩).2.info ∧
        Boundary chain ((MetadataScan.scanHeaders overflowChecks s.store headers
          ⟨s.synchronizer.nodeInfo fromNode, false, none, none, true⟩).2.firstNonCommonBlock.getD
            0) := by
      intro chain hchain
      obtain ⟨hpeer, hun⟩ := hchains fromNode chain hchain
      exact scanHeaders_fits s.store h.holds hpeer hun overflowChecks headers
        ((hresponse chain hchain).headers headers hget) _ (h.infos fromNode chain hchain)
        (boundary_zero chain)
    generalize MetadataScan.scanHeaders overflowChecks s.store headers
      ⟨s.synchronizer.nodeInfo fromNode, false, none, none, true⟩ = scanned at hid hscan
    obtain ⟨result, scan⟩ := scanned
    simp only at hid hscan ⊢
    rw [h.keyed fromNode] at hid
    have hset : ∀ info : NodeSyncInfo, info.nodeId = fromNode →
        (∀ chain, chains fromNode = some chain → InfoFits own chain info) →
        ∀ context : SyncContext, (∀ message ∈ context.messages, MessageFits chains message) →
        ∀ sync : ChainSynchronizer, sync.Keyed →
        (∀ id chain, chains id = some chain → InfoFits own chain (sync.nodeInfo id)) →
        NodeFits chains own ⟨sync.setNodeInfo info, context, s.store⟩ := by
      intro info hinfo hfits context hcontext sync hkeyed hinfos
      refine ⟨h.holds, h.headerFits, ChainSynchronizer.keyed_setNodeInfo _ _ hkeyed, ?_, hcontext⟩
      intro id chain hchain
      rw [ChainSynchronizer.nodeInfo_setNodeInfo]
      split_ifs with heq
      · rw [heq, hinfo] at hchain
        exact hfits chain hchain
      · exact hinfos id chain hchain
    have h2 := hset scan.info hid (fun chain hchain => (hscan chain hchain).1) s.syncContext
      h.messages (s.synchronizer.createNodeInfo fromNode) h1.keyed h1.infos
    cases result with
    | error e => exact h2
    | ok _ =>
      change NodeFits chains own
        ((if _ then _ else _ : Action (ChainSyncState DirectoryChainStore) EngineError Unit) _).2
      split_ifs
      · refine ⟨h2.holds, h2.headerFits, h2.keyed, h2.infos, ?_⟩
        intro message hmessage
        rcases List.mem_append.mp hmessage with hold | hnew
        · exact h.messages message hold
        · rw [List.mem_singleton.mp hnew, hid]
          intro chain hchain
          exact createSyncRequest_fits (hhonest fromNode chain hchain) (hscan chain hchain).1 _ _
            (hscan chain hchain).2
      · refine hset { scan.info with lastCommonIsKnown := true } hid ?_ s.syncContext h.messages _
          h2.keyed h2.infos
        intro chain hchain
        obtain ⟨hknown, hcommon⟩ := (hscan chain hchain).1
        exact ⟨hknown, hcommon⟩
      · exact h2

theorem lastMetadata_nextOffset {own : List DataBlock} {last : Option BlockMetadata}
    (hown : HonestChain own) (h : LastMetadata own last) :
    (last.map BlockMetadata.nextOffset).getD 0 = endOf own := by
  rcases h with ⟨rfl, rfl⟩ | ⟨front, b, m, rfl, rfl, hm⟩
  · rfl
  · have hb : b ∈ front ++ [b] := by simp
    rw [Option.map_some, Option.getD_some, endOf, List.getLast?_concat,
      fromStoredBlock_nextOffset (hown.wellFormed b hb) (hown.headerFits b hb) hm]
    rfl

theorem lastMetadata_of_getLastBlock {store : DirectoryChainStore} {own : List DataBlock}
    (hstored : store.getLastBlock = .ok own.getLast?) (last : Option BlockMetadata)
    (hlast : ChainSynchronizer.lastLocalMetadata store = .ok last) : LastMetadata own last := by
  have hstored' : ChainStore.getLastBlock store = .ok own.getLast? := hstored
  rw [ChainSynchronizer.lastLocalMetadata, hstored', liftError_ok, ok_bind] at hlast
  rcases List.eq_nil_or_concat own with rfl | ⟨front, b, rfl⟩
  · exact Or.inl ⟨rfl, (Except.ok.inj hlast).symm⟩
  · rw [List.concat_eq_append, List.getLast?_concat] at hlast
    obtain ⟨m, hm, hlast⟩ := (bind_eq_ok_iff _ _ _).mp hlast
    exact Or.inr ⟨front, b, m, by rw [List.concat_eq_append], (Except.ok.inj hlast).symm, hm⟩

theorem lastLocalMetadata_ok {store : DirectoryChainStore} {own : List DataBlock}
    (h : Holds store own) (last : Option BlockMetadata)
    (hlast : ChainSynchronizer.lastLocalMetadata store = .ok last) : LastMetadata own last :=
  lastMetadata_of_getLastBlock h.getLastBlock last hlast

/-- Where the blocks of an honest chain are written, the own chain goes along it. -/
structure WritesAlong (own peer : List DataBlock) (s s' : ChainSyncState DirectoryChainStore)
    (own' : List DataBlock) : Prop where
  holds : Holds s'.store own'
  headerFits : ∀ b ∈ own', b.header.wholeData.length < 2^32
  grows : own <+: own'
  along : own' = own ∨ own' <+: peer
  messages : s'.syncContext.messages = s.syncContext.messages

theorem writeIncomingBlocks_along {own peer : List DataBlock} (hpeer : HonestChain peer)
    (blocks : List DataBlock) (hblocks : ∀ b ∈ blocks, b ∈ peer) (last : Option BlockMetadata)
    (s : ChainSyncState DirectoryChainStore) (hown : Holds s.store own)
    (hfits : ∀ b ∈ own, b.header.wholeData.length < 2^32) (hun : Unforked own peer)
    (hlast : LastMetadata own last) :
    ∃ own', WritesAlong own peer s (ChainSynchronizer.writeIncomingBlocks
        (blocks.map fun b => some b.asDataVec) last s).2 own' ∧
      ∀ last', (ChainSynchronizer.writeIncomingBlocks
          (blocks.map fun b => some b.asDataVec) last s).1 = .ok last' →
        LastMetadata own' last' ∧ (blocks ≠ [] → own' <+: peer ∧ own' ≠ []) := by
  induction blocks generalizing own last s with
  | nil =>
    refine ⟨own, ⟨hown, hfits, List.prefix_rfl, Or.inl rfl, rfl⟩, ?_⟩
    intro last' hlast'
    rw [← Except.ok.inj hlast']
    exact ⟨hlast, fun hne => absurd rfl hne⟩
  | cons b rest ih =>
    have hb := hblocks b List.mem_cons_self
    have hwf := hpeer.wellFormed b hb
    have hhonest : HonestChain own := Holds.honest hown hfits
    have hread : DataBlock.new .ref b.asDataVec = .ok b := dataBlock_new_asDataVec .ref b hwf.toFramed
    rw [List.map_cons, ChainSynchronizer.writeIncomingBlocks]
    simp only [orError_some, Action.lift_ok_bind, hread, liftError_ok,
      lastMetadata_nextOffset hhonest hlast]
    split_ifs with hoff
    · have hnext : own ++ [b] <+: peer := hhonest.extends hpeer hun b hb hoff
      obtain ⟨hok, hwritten⟩ := hown.writeBlock b hwf hoff
      have hfits' : ∀ c ∈ own ++ [b], c.header.wholeData.length < 2^32 :=
        fun c hc => hpeer.headerFits c (hnext.subset hc)
      have hwrite : ChainSynchronizer.writeChainBlock b ({ s with
          syncContext := s.syncContext.pushEvent (.newChainBlock b.offset) } :
            ChainSyncState DirectoryChainStore) = (.ok (), { s with
          syncContext := s.syncContext.pushEvent (.newChainBlock b.offset)
          store := (s.store.writeBlock b).2 }) := by
        have hstore : ChainStore.writeBlock s.store b = (.ok b.nextOffset, (s.store.writeBlock b).2) :=
          Prod.ext hok rfl
        rw [ChainSynchronizer.writeChainBlock]
        simp only [hstore]
      rw [Action.bind_apply, ChainSynchronizer.pushChainEvent]
      simp only [Action.bind_apply, hwrite]
      cases hm : BlockMetadata.fromStoredBlock b with
      | error e =>
        refine ⟨own ++ [b], ⟨hwritten, hfits', List.prefix_append _ _, Or.inr hnext, rfl⟩, ?_⟩
        intro last' hlast'
        simp at hlast'
      | ok m =>
        obtain ⟨own', hwrites, hend⟩ := ih
          (fun c hc => hblocks c (List.mem_cons_of_mem b hc)) (some m) { s with
            syncContext := s.syncContext.pushEvent (.newChainBlock b.offset)
            store := (s.store.writeBlock b).2 } hwritten hfits' (Or.inl hnext)
          (Or.inr ⟨own, b, m, rfl, rfl, hm⟩)
        have hgrows : own <+: own' := (List.prefix_append _ _).trans hwrites.grows
        have halong : own' <+: peer := by
          rcases hwrites.along with heq | hpre
          · rw [heq]
            exact hnext
          · exact hpre
        refine ⟨own', ⟨hwrites.holds, hwrites.headerFits, hgrows, Or.inr halong,
          hwrites.messages⟩, ?_⟩
        intro last' hlast'
        refine ⟨(hend last' hlast').1, fun _ => ⟨halong, ?_⟩⟩
        intro hnil
        have hsub := hwrites.grows.subset (List.mem_append_right own (List.mem_singleton_self b))
        rw [hnil] at hsub
        simp at hsub
    · refine ⟨own, ⟨hown, hfits, List.prefix_rfl, Or.inl rfl, rfl⟩, ?_⟩
      intro last' hlast'
      simp at hlast'

theorem continueDownload_fits {chains : NodeId → Option (List DataBlock)} {own : List DataBlock}
    {s : ChainSyncState DirectoryChainStore} (h : NodeFits chains own s)
    (hhonest : ∀ id chain, chains id = some chain → HonestChain chain) (info : NodeSyncInfo)
    {nodeId : NodeId} (hid : info.nodeId = nodeId) (chain : List DataBlock)
    (hchain : chains nodeId = some chain) (hinfo : InfoFits own chain info) :
    NodeFits chains own (ChainSynchronizer.continueDownload info s).2 := by
  have hinfos : ∀ id chain', chains id = some chain' →
      InfoFits own chain' ((s.synchronizer.setNodeInfo info).nodeInfo id) := by
    intro id chain' hchain'
    rw [ChainSynchronizer.nodeInfo_setNodeInfo]
    split_ifs with heq
    · rw [heq, hid, hchain] at hchain'
      rw [← Option.some.inj hchain']
      exact hinfo
    · exact h.infos id chain' hchain'
  have hkeyed := ChainSynchronizer.keyed_setNodeInfo s.synchronizer info h.keyed
  rw [ChainSynchronizer.continueDownload]
  split_ifs
  · exact ⟨h.holds, h.headerFits, hkeyed, hinfos, h.messages⟩
  · refine ⟨h.holds, h.headerFits, hkeyed, hinfos, ?_⟩
    intro message hmessage
    rcases List.mem_append.mp hmessage with hold | hnew
    · exact h.messages message hold
    · rw [List.mem_singleton.mp hnew, hid]
      intro chain' hchain'
      rw [hchain] at hchain'
      rw [← Option.some.inj hchain']
      exact createSyncRequest_fits (hhonest nodeId chain hchain) hinfo _ _
        (boundary_lastKnown (hhonest nodeId chain hchain) hinfo)

/-- A response with blocks: it is refused, or comes from the lead node, along whose chain the
own one then grows. -/
theorem handleSyncResponseBlocks_fits {chains : NodeId → Option (List DataBlock)}
    {own : List DataBlock} {s : ChainSyncState DirectoryChainStore} (h : NodeFits chains own s)
    (hchains : ∀ id chain, chains id = some chain → HonestChain chain ∧ Unforked own chain)
    (fromNode : NodeId) (response : ChainSyncResponse) (hblocks : response.blocks.has = true)
    (hresponse : ResponseFits chains fromNode response)
    (hlead : s.synchronizer.leader = some fromNode → ∃ chain, chains fromNode = some chain) :
    ∃ own', NodeFits chains own'
        (ChainSynchronizer.handleSyncResponseBlocks fromNode response s).2 ∧ own <+: own' ∧
      (own' = own ∨ ∃ chain, s.synchronizer.leader = some fromNode ∧
        chains fromNode = some chain ∧ own' <+: chain) := by
  have hhonest : ∀ id chain, chains id = some chain → HonestChain chain :=
    fun id chain hchain => (hchains id chain hchain).1
  have h1 := h.watches hhonest (ChainSynchronizer.watches_createNodeInfo s fromNode)
  rcases ChainSynchronizer.handleSyncResponseBlocks_cases fromNode response s with
    ⟨e, hres | hres⟩ | ⟨last, data, r, s', hleader, hlast, hget, hwrite, hsync, hend⟩
  · rw [hres]
    exact ⟨own, h, List.prefix_rfl, Or.inl rfl⟩
  · rw [hres]
    exact ⟨own, h1, List.prefix_rfl, Or.inl rfl⟩
  · obtain ⟨peer, hpeer⟩ := hlead hleader
    obtain ⟨hhonestPeer, hun⟩ := hchains fromNode peer hpeer
    obtain ⟨blocks, hinfix, hsent⟩ := (hresponse peer hpeer).blocks
    rw [hsent, ListPointer.get_ofList] at hget
    obtain rfl := Except.ok.inj hget
    have hne : blocks ≠ [] := by
      intro hnil
      rw [hsent, hnil] at hblocks
      simp at hblocks
    obtain ⟨own', hwrites, hlast'⟩ := writeIncomingBlocks_along hhonestPeer blocks
      (fun b hb => hinfix.subset hb) last
      { s with synchronizer := s.synchronizer.createNodeInfo fromNode } h.holds h.headerFits hun
      (lastLocalMetadata_ok h.holds last hlast)
    rw [hwrite] at hwrites hlast'
    have hstays : NodeFits chains own' s' := by
      refine ⟨hwrites.holds, hwrites.headerFits, ?_, ?_, ?_⟩
      · rw [hsync]
        exact h1.keyed
      · intro id chain hchain
        rw [hsync]
        exact (h1.infos id chain hchain).mono hwrites.grows List.prefix_rfl
      · rw [hwrites.messages]
        exact h.messages
    have halong : own' = own ∨ ∃ chain, s.synchronizer.leader = some fromNode ∧
        chains fromNode = some chain ∧ own' <+: chain := by
      rcases hwrites.along with heq | hpre
      · exact Or.inl heq
      · exact Or.inr ⟨peer, hleader, hpeer, hpre⟩
    refine ⟨own', ?_, hwrites.grows, halong⟩
    rcases hend with ⟨e, -, hres⟩ | ⟨last', hok, hres⟩
    · rw [hres]
      exact hstays
    · rw [hres]
      obtain ⟨hmeta, hcontinues⟩ := hlast' last' hok
      obtain ⟨hpre, -⟩ := hcontinues hne
      exact continueDownload_fits hstays hhonest _ (h.keyed fromNode) peer hpeer
        ⟨(h.infos fromNode peer hpeer).known, lastMetadata_common hmeta hpre⟩

/-- What a node knows stays true with a response, and its chain only grows along the one of
an honest lead node. -/
theorem handleSyncResponse_fits {chains : NodeId → Option (List DataBlock)}
    {own : List DataBlock} {s : ChainSyncState DirectoryChainStore} (h : NodeFits chains own s)
    (hchains : ∀ id chain, chains id = some chain → HonestChain chain ∧ Unforked own chain)
    (overflowChecks : Bool) (fromNode : NodeId) (response : Option ChainSyncResponse)
    (hresponse : ∀ r, response = some r → ResponseFits chains fromNode r)
    (hlead : s.synchronizer.leader = some fromNode → ∃ chain, chains fromNode = some chain) :
    ∃ own', NodeFits chains own'
        (ChainSynchronizer.handleSyncResponse overflowChecks fromNode response s).2 ∧
      own <+: own' ∧
      (own' = own ∨ ∃ chain, s.synchronizer.leader = some fromNode ∧
        chains fromNode = some chain ∧ own' <+: chain) := by
  have hhonest : ∀ id chain, chains id = some chain → HonestChain chain :=
    fun id chain hchain => (hchains id chain hchain).1
  have hend : ∀ (own' : List DataBlock) (x : Action (ChainSyncState DirectoryChainStore)
      EngineError Unit), NodeFits chains own' (x s).2 →
      NodeFits chains own' ((x >>= fun _ =>
        ChainSynchronizer.getOrCreateNodeInfo fromNode >>= fun _ => pure ()) s).2 := by
    intro own' x hx
    rcases Action.bind_cases x (fun _ =>
      ChainSynchronizer.getOrCreateNodeInfo fromNode >>= fun _ => pure ()) s with
      ⟨e, s', hs', hrest⟩ | ⟨_, s', hs', hrest⟩
    · rw [hrest]
      rw [hs'] at hx
      exact hx
    · rw [hrest, ChainSynchronizer.getOrCreateNodeInfo_bind]
      rw [hs'] at hx
      exact hx.watches hhonest (ChainSynchronizer.watches_createNodeInfo s' fromNode)
  rw [ChainSynchronizer.handleSyncResponse]
  cases response with
  | none => exact ⟨own, h, List.prefix_rfl, Or.inl rfl⟩
  | some response =>
    have hfits := hresponse response rfl
    simp only [orError_some, Action.lift_ok_bind]
    split_ifs with hblocks hheaders
    · obtain ⟨own', hown', hgrows, halong⟩ :=
        handleSyncResponseBlocks_fits h hchains fromNode response hblocks hfits hlead
      exact ⟨own', hend own' _ hown', hgrows, halong⟩
    · exact ⟨own, hend own _ (handleSyncResponseMetadata_fits h hchains overflowChecks fromNode
        response hfits), List.prefix_rfl, Or.inl rfl⟩
    · exact ⟨own, hend own (pure ()) h, List.prefix_rfl, Or.inl rfl⟩

end Exocore.Engine
