import Exocore.ChainSyncSearch

/-! The messages of the search for the last common block, one after the other: each response is
compared with the own chain, and asks for more until nothing is left out. -/
namespace Exocore.Engine

open Exocore.Core Exocore.Chain Ascending

inductive ExchangeMessage where
  | request (request : ChainSyncRequest)
  | response (response : ChainSyncResponse)

/-- A node that asks for the headers of another one, with the message that is under way. -/
structure HeadersExchange where
  node : ChainSyncNode DirectoryChainStore
  peer : ChainSyncNode DirectoryChainStore
  peerId : NodeId
  inFlight : Option ExchangeMessage

/-- The header is the one of a block of the own chain. -/
def AnnouncesBlock (own : List DataBlock) (header : BlockPartialHeader) : Prop :=
  ∃ c ∈ own, c.offset = header.offset ∧ header.blockHash = some c.header.multihashBytes

instance (own : List DataBlock) (header : BlockPartialHeader) :
    Decidable (AnnouncesBlock own header) :=
  inferInstanceAs (Decidable (∃ c ∈ own, _))

namespace HeadersExchange

def info (e : HeadersExchange) : NodeSyncInfo := e.node.synchronizer.nodeInfo e.peerId

variable [Crates]

/-- The message arrives, and is answered. The messages of a call that fails are not sent. -/
def step (overflowChecks : Bool) (e : HeadersExchange) : HeadersExchange :=
  match e.inFlight with
  | none => e
  | some (.request request) =>
    match e.peer.call (ChainSynchronizer.handleSyncRequest overflowChecks
        e.node.synchronizer.cell.localNode (some request)) with
    | (.ok _, messages, peer) => { e with
        peer := peer
        inFlight := (messages.filterMap (sentResponse e.peerId)).head?.map
          fun sent => .response sent.2 }
    | (.error _, _, peer) => { e with peer := peer, inFlight := none }
  | some (.response response) =>
    match e.node.call (ChainSynchronizer.handleSyncResponse overflowChecks e.peerId
        (some response)) with
    | (.ok _, messages, node) => { e with
        node := node
        inFlight := (messages.filterMap sentRequest).head?.map fun sent => .request sent.2 }
    | (.error _, _, node) => { e with node := node, inFlight := none }

/-- What is read at the offset of the header, inside of a block of the own chain, is taken for its
block, or stops the node. -/
def misread (store : DirectoryChainStore) (header : BlockPartialHeader) : Bool :=
  match store.getBlock header.offset with
  | .ok x => header.blockHash = some x.header.multihashBytes
  | .error .panic => true
  | .error (.error _) => false

/-- The first header that is not of the own chain is not misread. -/
def ReadsTrue (store : DirectoryChainStore) (own : List DataBlock) :
    List BlockPartialHeader → Prop
  | [] => True
  | header :: rest =>
    if AnnouncesBlock own header then ReadsTrue store own rest else misread store header = false

instance decidableReadsTrue (store : DirectoryChainStore) (own : List DataBlock) :
    ∀ headers, Decidable (ReadsTrue store own headers)
  | [] => isTrue trivial
  | header :: rest =>
    have := decidableReadsTrue store own rest
    inferInstanceAs (Decidable (if AnnouncesBlock own header then ReadsTrue store own rest
      else misread store header = false))

/-- The headers that arrive next. -/
def arriving (e : HeadersExchange) : Option (List BlockPartialHeader) :=
  match e.inFlight with
  | some (.response response) => response.headers.get.toOption
  | _ => none

/-- They are compared with the blocks of the own chain only. -/
def Compares (e : HeadersExchange) : Prop :=
  ∀ headers ∈ e.arriving, ReadsTrue e.node.store (chainOf e.node.store) headers

instance (e : HeadersExchange) : Decidable e.Compares :=
  inferInstanceAs (Decidable (∀ headers ∈ e.arriving, _))

end HeadersExchange

section Calls
variable [Crates]

theorem handleSyncRequest_headers (overflowChecks : Bool) (fromNode : NodeId)
    (fromOffset toOffset : ℕ) (s : ChainSyncState DirectoryChainStore) (ms : List BlockMetadata)
    (hms : BlockMetadata.fromStore overflowChecks s.store (ChainSynchronizer.offsetOpt fromOffset)
      (ChainSynchronizer.offsetOpt toOffset) s.synchronizer.config = .ok ms) :
    ChainSynchronizer.handleSyncRequest overflowChecks fromNode
        (some ⟨fromOffset, toOffset, .headers⟩) s =
      (.ok (), { s with
        synchronizer := s.synchronizer.createNodeInfo fromNode
        syncContext := s.syncContext.pushChainSyncResponse fromNode
          (ChainSynchronizer.createSyncResponseForMetadata fromOffset toOffset ms) }) := by
  have hconfig := (s.synchronizer.createNodeInfo_eq fromNode).1
  rw [ChainSynchronizer.handleSyncRequest]
  simp only [orError_some, Action.lift_ok_bind, ChainSynchronizer.getOrCreateNodeInfo_bind,
    Action.get_bind, hconfig, hms]
  rfl

/-- A response with headers asks for more, or ends the search. -/
theorem handleSyncResponse_headers (overflowChecks : Bool) (fromNode : NodeId)
    (fromOffset toOffset : ℕ) (headers : List BlockPartialHeader)
    (s : ChainSyncState DirectoryChainStore) (hkeyed : s.synchronizer.Keyed) (scan : MetadataScan)
    (hscan : MetadataScan.scanHeaders overflowChecks s.store headers
      ⟨s.synchronizer.nodeInfo fromNode, false, none, none, true⟩ = (.ok (), scan)) :
    ∃ s', ChainSynchronizer.handleSyncResponse overflowChecks fromNode
        (some ⟨fromOffset, toOffset, .list headers, .null⟩) s = (.ok (), s') ∧
      s'.store = s.store ∧ s'.synchronizer.Keyed ∧
      ((scan.hasNewCommonBlock = true ∧ scan.allContiguous = false ∧
          s'.synchronizer.nodeInfo fromNode = scan.info ∧
          s'.syncContext = s.syncContext.pushChainSyncRequest fromNode
            (ChainSynchronizer.createSyncRequest scan.info .headers scan.firstNonCommonBlock)) ∨
        ((scan.hasNewCommonBlock = false ∨ scan.allContiguous = true) ∧
          s'.synchronizer.nodeInfo fromNode = { scan.info with lastCommonIsKnown := true } ∧
          s'.syncContext = s.syncContext)) := by
  obtain ⟨hid, -, -⟩ := MetadataScan.scanHeaders_info overflowChecks s.store headers
    ⟨s.synchronizer.nodeInfo fromNode, false, none, none, true⟩
  rw [hscan] at hid
  simp only [hkeyed fromNode] at hid
  have hcreated : (s.synchronizer.createNodeInfo fromNode).Keyed :=
    (ChainSynchronizer.sameInfos_createNodeInfo s.synchronizer fromNode).keyed hkeyed
  have hset (info : NodeSyncInfo) (synchronizer : ChainSynchronizer) (hinfo : info.nodeId = fromNode) :
      ((synchronizer.setNodeInfo info).createNodeInfo fromNode).nodeInfo fromNode = info := by
    rw [ChainSynchronizer.nodeInfo_createNodeInfo, ChainSynchronizer.nodeInfo_setNodeInfo,
      if_pos hinfo.symm]
  have hkept (synchronizer : ChainSynchronizer) (h : synchronizer.Keyed) :
      (synchronizer.createNodeInfo fromNode).Keyed :=
    (ChainSynchronizer.sameInfos_createNodeInfo synchronizer fromNode).keyed h
  have hscanned := ChainSynchronizer.keyed_setNodeInfo _ scan.info hcreated
  have hmarked := ChainSynchronizer.keyed_setNodeInfo _
    { scan.info with lastCommonIsKnown := true } hscanned
  -- what is left of the call once the headers are compared
  set ending : Action (ChainSyncState DirectoryChainStore) EngineError Unit :=
    if scan.hasNewCommonBlock ∧ !scan.allContiguous then
      ChainSynchronizer.pushRequest scan.info.nodeId
        (ChainSynchronizer.createSyncRequest scan.info .headers scan.firstNonCommonBlock)
    else if !scan.info.lastCommonIsKnown then
      ChainSynchronizer.update fun s => s.setNodeInfo { scan.info with lastCommonIsKnown := true }
    else pure () with hending
  have hcompared : ChainSynchronizer.handleSyncResponseMetadata overflowChecks fromNode
      ⟨fromOffset, toOffset, .list headers, .null⟩ s = ending
        ⟨(s.synchronizer.createNodeInfo fromNode).setNodeInfo scan.info, s.syncContext, s.store⟩ := by
    rw [ChainSynchronizer.handleSyncResponseMetadata, ChainSynchronizer.getOrCreateNodeInfo_bind]
    simp only [ListPointer.get, Action.lift_ok_bind, Action.get_bind, hscan]
    rfl
  have hrun : ChainSynchronizer.handleSyncResponse overflowChecks fromNode
      (some ⟨fromOffset, toOffset, .list headers, .null⟩) s =
      (ending >>= fun _ => ChainSynchronizer.getOrCreateNodeInfo fromNode >>= fun _ => pure ())
        ⟨(s.synchronizer.createNodeInfo fromNode).setNodeInfo scan.info, s.syncContext, s.store⟩ := by
    rw [ChainSynchronizer.handleSyncResponse]
    simp only [orError_some, Action.lift_ok_bind]
    change (ChainSynchronizer.handleSyncResponseMetadata overflowChecks fromNode
      ⟨fromOffset, toOffset, .list headers, .null⟩ >>= fun _ =>
        ChainSynchronizer.getOrCreateNodeInfo fromNode >>= fun _ => pure ()) s = _
    rw [Action.bind_apply, Action.bind_apply, hcompared]
  rw [hrun]
  by_cases hmore : scan.hasNewCommonBlock = true ∧ scan.allContiguous = false
  · rw [hending, if_pos (by simpa using hmore)]
    refine ⟨_, rfl, rfl, hkept _ hscanned, Or.inl ⟨hmore.1, hmore.2, hset _ _ hid, ?_⟩⟩
    rw [hid]
  · have hdone : scan.hasNewCommonBlock = false ∨ scan.allContiguous = true := by
      cases hnew : scan.hasNewCommonBlock
      · exact Or.inl rfl
      · right
        simpa [hnew] using hmore
    rw [hending, if_neg (by simpa using hmore)]
    cases hknown : scan.info.lastCommonIsKnown
    · exact ⟨_, rfl, rfl, hkept _ hmarked, Or.inr ⟨hdone, hset _ _ hid, rfl⟩⟩
    · refine ⟨_, rfl, rfl, hkept _ hscanned, Or.inr ⟨hdone, ?_, rfl⟩⟩
      have hsame : scan.info = { scan.info with lastCommonIsKnown := true } := by
        rw [← hknown]
      exact (hset _ _ hid).trans hsame

end Calls

section Search
variable [Crates] {own chain : List DataBlock} {e : HeadersExchange}

/-- What is recorded of the other chain is true of it. -/
structure InfoTrue (own chain : List DataBlock) (info : NodeSyncInfo) : Prop where
  common : ∀ m, info.lastCommonBlock = some m →
    ∃ b ∈ chain, InChain own b ∧ BlockMetadata.fromStoredBlock b = .ok m
  known : ∀ m, info.lastKnownBlock = some m → MetadataIn chain m

omit [Crates] in
theorem infoTrue_new (own chain : List DataBlock) (nodeId : NodeId) :
    InfoTrue own chain (.new nodeId) := by
  constructor
  · intro m hm
    contradiction
  · intro m hm
    contradiction

/-- The last block of the other chain is the last one that is known. -/
def KnowsLast (chain : List DataBlock) (info : NodeSyncInfo) : Prop :=
  ∃ b m, chain.getLast? = some b ∧ BlockMetadata.fromStoredBlock b = .ok m ∧
    info.lastKnownBlock = some m

/-- The range that is asked for ends with the chain, or at a block that is not in common. -/
inductive SearchRange (own chain : List DataBlock) (info : NodeSyncInfo) : Option ℕ → Prop where
  | chain : SearchRange own chain info none
  | block (b : DataBlock) (hb : b ∈ chain) (hnot : ¬ InChain own b) (m : BlockMetadata)
    (hm : info.lastCommonBlock = some m) (hlt : m.offset < b.offset)
    (hlast : KnowsLast chain info) : SearchRange own chain info (some b.offset)

/-- A request for the headers between what is in common and what is not. -/
structure Searching (own chain : List DataBlock) (toOffset : Option ℕ) (e : HeadersExchange) :
    Prop where
  node : Holds e.node.store own
  keyed : e.node.synchronizer.Keyed
  peer : Holds e.peer.store chain
  config : Searches e.peer.synchronizer.config
  infoTrue : InfoTrue own chain e.info
  range : SearchRange own chain e.info toOffset
  inFlight : e.inFlight =
    some (.request (ChainSynchronizer.createSyncRequest e.info .headers toOffset))

/-- The last common block is known, and the last block of the other chain. -/
structure SearchEnds (own chain : List DataBlock) (info : NodeSyncInfo) : Prop where
  isKnown : info.lastCommonIsKnown = true
  lastCommon : ∃ b m, LastCommon own chain b ∧ BlockMetadata.fromStoredBlock b = .ok m ∧
    info.lastCommonBlock = some m
  lastKnown : KnowsLast chain info

/-- The blocks of the other chain behind what is known to be in common. -/
def remaining (chain : List DataBlock) (info : NodeSyncInfo) : ℕ :=
  match info.lastCommonBlock with
  | none => chain.length + 1
  | some m => chain.countP fun b => m.offset < b.offset

omit [Crates] in
theorem remaining_none {info : NodeSyncInfo} (h : info.lastCommonBlock = none) :
    remaining chain info = chain.length + 1 := by
  simp only [remaining, h]

omit [Crates] in
theorem remaining_some {info : NodeSyncInfo} {m : BlockMetadata} (h : info.lastCommonBlock = some m) :
    remaining chain info = chain.countP fun b => m.offset < b.offset := by
  simp only [remaining, h]

/-- The first block of the range that is asked for. -/
structure SearchStart (own chain : List DataBlock) (info : NodeSyncInfo) (a : DataBlock) :
    Prop where
  mem : a ∈ chain
  common : InChain own a
  offset : (ChainSynchronizer.createSyncRequest info .headers none).fromOffset = a.offset
  recorded : info.lastCommonBlock = none ∨
    ∃ m, BlockMetadata.fromStoredBlock a = .ok m ∧ info.lastCommonBlock = some m

omit [Crates] in
theorem createSyncRequest_fromOffset (info : NodeSyncInfo) (toOffset : Option ℕ) :
    ChainSynchronizer.createSyncRequest info .headers toOffset =
      ⟨(ChainSynchronizer.createSyncRequest info .headers none).fromOffset, toOffset.getD 0,
        .headers⟩ := rfl

theorem exists_searchStart (h : Holds e.peer.store chain) (hforks : Forks own chain)
    (info : NodeSyncInfo) (hinfo : InfoTrue own chain info) : ∃ a, SearchStart own chain info a := by
  cases hlast : info.lastCommonBlock with
  | none =>
    obtain ⟨a, hhead, hin⟩ := hforks.first
    have ha := List.mem_of_head? hhead
    obtain ⟨rest, hrest⟩ := List.head?_eq_some_iff.mp hhead
    have hzero : a.offset = 0 := by
      have hlinked := h.linked
      rw [hrest] at hlinked
      exact hlinked.1
    refine ⟨a, ha, hin, ?_, Or.inl hlast⟩
    simp [ChainSynchronizer.createSyncRequest, hlast, hzero]
  | some m =>
    obtain ⟨a, ha, hin, hread⟩ := hinfo.common m hlast
    refine ⟨a, ha, hin, ?_, Or.inr ⟨m, hread, hlast⟩⟩
    simp [ChainSynchronizer.createSyncRequest, hlast, fromStoredBlock_offset hread]

omit [Crates] in
theorem SearchRange.rangeEnd {info : NodeSyncInfo} {toOffset : Option ℕ} {a : DataBlock}
    (h : SearchRange own chain info toOffset) (hstart : SearchStart own chain info a) :
    ∃ limit, RangeEnd chain a toOffset limit ∧
      (limit = endOf chain ∨ ∃ b ∈ chain, b.offset = limit ∧ ¬ InChain own b) ∧
      ChainSynchronizer.offsetOpt (toOffset.getD 0) = toOffset ∧
      (toOffset = none ∧ limit = endOf chain ∨ KnowsLast chain info) := by
  cases h with
  | chain => exact ⟨endOf chain, .chain, Or.inl rfl, rfl, Or.inl ⟨rfl, rfl⟩⟩
  | block b hb hnot m hm hlt hlast =>
    have hoffset := hstart.offset
    simp only [ChainSynchronizer.createSyncRequest, hm, if_true] at hoffset
    refine ⟨b.offset, .block b hb (by omega), Or.inr ⟨b, hb, rfl, hnot⟩, ?_, Or.inr hlast⟩
    rw [Option.getD_some, ChainSynchronizer.offsetOpt, if_pos (by omega)]

/-- The other node answers from its chain. -/
theorem step_request (overflowChecks : Bool) (hforks : Forks own chain) (toOffset : Option ℕ)
    (h : Searching own chain toOffset e) (a : DataBlock) (ha : SearchStart own chain e.info a)
    (limit : ℕ) (hlimit : RangeEnd chain a toOffset limit)
    (hto : ChainSynchronizer.offsetOpt (toOffset.getD 0) = toOffset) :
    ∃ ms peer, Answers chain a limit ms ∧ peer.store = e.peer.store ∧
      peer.synchronizer.config = e.peer.synchronizer.config ∧
      e.step overflowChecks = { e with
        peer := peer
        inFlight := some (.response (ChainSynchronizer.createSyncResponseForMetadata a.offset
          (toOffset.getD 0) ms)) } := by
  obtain ⟨ms, hms, hanswers⟩ := fromStore_answers overflowChecks h.peer hforks.numbered h.config a
    ha.mem (ChainSynchronizer.offsetOpt a.offset) (offsetOpt_getD a.offset) toOffset limit hlimit
  rw [← hto] at hms
  have hcall := handleSyncRequest_headers overflowChecks e.node.synchronizer.cell.localNode a.offset
    (toOffset.getD 0) ⟨e.peer.synchronizer, .new ⟨none⟩, e.peer.store⟩ ms hms
  refine ⟨ms, ⟨e.peer.synchronizer.createNodeInfo e.node.synchronizer.cell.localNode, e.peer.store⟩,
    hanswers, rfl, (e.peer.synchronizer.createNodeInfo_eq _).1, ?_⟩
  rw [HeadersExchange.step, h.inFlight, createSyncRequest_fromOffset, ha.offset]
  simp only [ChainSyncNode.call, hcall]
  rfl

/-- The response is compared with the blocks of the own chain. -/
theorem tellsAlong_of_readsTrue (store : DirectoryChainStore) (hown : Holds store own)
    (peerStore : DirectoryChainStore) (hchain : Holds peerStore chain)
    (htell : HashesTell own chain) {f : DataBlock → BlockMetadata}
    (hf : ∀ b ∈ chain, BlockMetadata.fromStoredBlock b = .ok (f b)) (bs : List DataBlock)
    (hbs : ∀ b ∈ bs, b ∈ chain)
    (hreads : HeadersExchange.ReadsTrue store own (bs.map fun b => (f b).copyIntoBuilder)) :
    MetadataScan.TellsAlong store (fun b => decide (InChain own b)) bs := by
  induction bs with
  | nil => trivial
  | cons b rest ih =>
    have hb := hbs b List.mem_cons_self
    have hoffset : (f b).copyIntoBuilder.offset = b.offset := fromStoredBlock_offset (hf b hb)
    have hhash : (f b).copyIntoBuilder.blockHash = some b.header.multihashBytes := by
      rw [← fromStoredBlock_hash (hf b hb)]
      rfl
    have hannounces : AnnouncesBlock own (f b).copyIntoBuilder ↔ InChain own b := by
      rw [AnnouncesBlock, hoffset, hhash]
      constructor
      · rintro ⟨c, hc, -, hsame⟩
        exact ⟨c, hc, htell c hc b hb (Option.some.inj hsame).symm⟩
      · rintro ⟨c, hc, hheader⟩
        exact ⟨c, hc, inChain_offset hown hchain b c hb hc hheader, by rw [hheader]⟩
    rw [List.map_cons, HeadersExchange.ReadsTrue] at hreads
    by_cases hin : InChain own b
    · rw [if_pos (hannounces.mpr hin)] at hreads
      refine ⟨?_, fun _ => ih (fun c hc => hbs c (List.mem_cons_of_mem b hc)) hreads⟩
      obtain ⟨c, hc, hheader⟩ := hin
      have hget : store.getBlock b.offset = .ok c := by
        rw [← inChain_offset hown hchain b c hb hc hheader]
        exact hown.getBlock c hc
      refine ⟨by rw [hget]; exact noPanic_ok c, ?_⟩
      rw [decide_eq_true_eq]
      exact iff_of_true ⟨c, hc, hheader⟩ ⟨c, hget, by rw [hheader]⟩
    · rw [if_neg (mt hannounces.mp hin), HeadersExchange.misread, hoffset, hhash] at hreads
      refine ⟨⟨?_, ?_⟩, fun hcommon => absurd (of_decide_eq_true hcommon) hin⟩
      · intro hpanic
        rw [hpanic] at hreads
        contradiction
      · rw [decide_eq_true_eq]
        refine iff_of_false hin ?_
        rintro ⟨x, hget, hsame⟩
        rw [hget] at hreads
        exact absurd (congrArg some hsame.symm) (of_decide_eq_false hreads)

theorem knowsLast_of_reaches {peerStore : DirectoryChainStore} (hchain : Holds peerStore chain)
    (info : NodeSyncInfo) (hknown : ∀ m, info.lastKnownBlock = some m → MetadataIn chain m)
    (last : DataBlock) (hlast : chain.getLast? = some last) (known : BlockMetadata)
    (hinfo : info.lastKnownBlock = some known) (hle : last.offset ≤ known.offset) :
    KnowsLast chain info := by
  obtain ⟨b, hb, hread⟩ := hknown known hinfo
  have hoffset := fromStoredBlock_offset hread
  have hbefore := (holds_ascends hchain).le_getLast hlast b hb
  have hsame : b = last := by
    apply (holds_ascends hchain).eq_of_key b last hb (List.mem_of_getLast? hlast)
    omega
  exact ⟨last, known, hlast, hsame ▸ hread, hinfo⟩

section Compared
variable {peerStore : DirectoryChainStore} {f : DataBlock → BlockMetadata} {info : NodeSyncInfo}
  {a : DataBlock} {limit : ℕ} {front rest : List DataBlock} {scan : MetadataScan}

omit [Crates] in
theorem scanned_infoTrue (hf : ∀ b ∈ chain, BlockMetadata.fromStoredBlock b = .ok (f b))
    (hinfo : InfoTrue own chain info) (hain : InChain own a)
    (hanswers : AnswersBlocks chain a limit (front ++ rest)) (hfront : ∀ b ∈ front, InChain own b)
    (hscan : MetadataScan.Scanned f info a front rest scan) : InfoTrue own chain scan.info := by
  constructor
  · intro m hm
    obtain ⟨last, hlast, hcommon⟩ := hscan.lastCommon
    have hmem := List.mem_of_getLast? hlast
    have hin := hanswers.inChain last (List.mem_append_left rest hmem)
    refine ⟨last, hin, ?_, ?_⟩
    · rcases List.mem_cons.mp hmem with rfl | hmem
      · exact hain
      · exact hfront last hmem
    · rw [hf last hin, ← Option.some.inj (hcommon.symm.trans hm)]
  · intro m hm
    rcases hscan.knownFrom with hsame | ⟨b, hb, hknown⟩
    · exact hinfo.known m (hsame.symm.trans hm)
    · have hin := hanswers.inChain b hb
      refine ⟨b, hin, ?_⟩
      rw [hf b hin, ← Option.some.inj (hknown.symm.trans hm)]

theorem scanned_knowsLast (hchain : Holds peerStore chain)
    (hf : ∀ b ∈ chain, BlockMetadata.fromStoredBlock b = .ok (f b))
    (hinfo : InfoTrue own chain info) (hain : InChain own a)
    (hanswers : AnswersBlocks chain a limit (front ++ rest)) (hfront : ∀ b ∈ front, InChain own b)
    (hscan : MetadataScan.Scanned f info a front rest scan)
    (hends : limit = endOf chain ∨ KnowsLast chain info) : KnowsLast chain scan.info := by
  have htrue := (scanned_infoTrue hf hinfo hain hanswers hfront hscan).known
  have ha := hanswers.inChain a List.mem_cons_self
  rcases hends with rfl | ⟨last, m, hlast, hread, hknown⟩
  · -- the answer goes to the end of the chain
    obtain ⟨last, hin, hlast, hend, -⟩ := last_of_mem hchain a ha
    have hpos := (hchain.wellFormed last hin).totalSize_pos
    have hnextOffset : last.nextOffset = last.offset + last.totalSize := rfl
    obtain ⟨b, hb, hle⟩ := hanswers.reaches last hin (by omega)
    obtain ⟨known, hknown, hreaches⟩ := hscan.knownReaches b hb
    exact knowsLast_of_reaches hchain _ htrue last hlast known hknown (hle.trans hreaches)
  · obtain ⟨known, hknown', hrises⟩ := hscan.knownRises m hknown
    rw [fromStoredBlock_offset hread] at hrises
    exact knowsLast_of_reaches hchain _ htrue last hlast known hknown' hrises

omit [Crates] in
theorem scanned_searchRange (hf : ∀ b ∈ chain, BlockMetadata.fromStoredBlock b = .ok (f b))
    (hanswers : AnswersBlocks chain a limit (front ++ rest))
    (hrest : ∀ b, rest.head? = some b → ¬ InChain own b)
    (hscan : MetadataScan.Scanned f info a front rest scan)
    (hknows : KnowsLast chain scan.info) : SearchRange own chain scan.info scan.firstNonCommonBlock := by
  rw [hscan.differs]
  cases rest with
  | nil => exact .chain
  | cons b more =>
    obtain ⟨last, hlast, hcommon⟩ := hscan.lastCommon
    have hmem : last ∈ a :: front := List.mem_of_getLast? hlast
    have hb : b ∈ chain := hanswers.inChain b (by simp)
    have hascends := hanswers.ascends
    rw [← List.cons_append] at hascends
    have hlt := (List.pairwise_append.mp hascends).2.2 last hmem b List.mem_cons_self
    refine .block b hb (hrest b rfl) (f last) hcommon ?_ hknows
    rw [fromStoredBlock_offset (hf last (hanswers.inChain last (List.mem_append_left _ hmem)))]
    exact hlt

omit [Crates] in
/-- A new common block is farther in the chain. -/
theorem scanned_remaining (hf : ∀ b ∈ chain, BlockMetadata.fromStoredBlock b = .ok (f b))
    (ha : SearchStart own chain info a) (hanswers : AnswersBlocks chain a limit (front ++ rest))
    (hscan : MetadataScan.Scanned f info a front rest scan)
    (hnew : scan.hasNewCommonBlock = true) : remaining chain scan.info < remaining chain info := by
  obtain ⟨last, hlast, hcommon⟩ := hscan.lastCommon
  have hmem : last ∈ a :: front := List.mem_of_getLast? hlast
  have hin := hanswers.inChain last (List.mem_append_left rest hmem)
  have hoffset : (f last).offset = last.offset := fromStoredBlock_offset (hf last hin)
  rw [remaining_some hcommon, hoffset]
  rcases ha.recorded with hnone | ⟨m, hread, hsome⟩
  · rw [remaining_none hnone]
    exact Nat.lt_succ_of_le List.countP_le_length
  · have hfront : front ≠ [] := by
      rcases hscan.isNew.mp hnew with hnone | hfront
      · rw [hsome] at hnone
        contradiction
      · exact hfront
    have hlater : a.offset < last.offset := by
      rw [List.getLast?_cons, List.getLast?_eq_some_getLast hfront, Option.getD_some] at hlast
      have hlastFront : last ∈ front := by
        rw [← Option.some.inj hlast]
        exact List.getLast_mem hfront
      exact (List.pairwise_cons.mp hanswers.ascends).1 last (List.mem_append_left rest hlastFront)
    rw [remaining_some hsome, fromStoredBlock_offset hread]
    apply countP_lt _ last hin (by simp) (decide_eq_true hlater)
    intro b _ hb
    exact decide_eq_true (hlater.trans (of_decide_eq_true hb))

end Compared

theorem step_eq_of_response (overflowChecks : Bool) {response : ChainSyncResponse}
    (h : e.inFlight = some (.response response)) (s' : ChainSyncState DirectoryChainStore)
    (hcall : ChainSynchronizer.handleSyncResponse overflowChecks e.peerId (some response)
      ⟨e.node.synchronizer, .new ⟨none⟩, e.node.store⟩ = (.ok (), s')) :
    e.step overflowChecks = { e with
      node := ⟨s'.synchronizer, s'.store⟩
      inFlight := (s'.syncContext.messages.filterMap sentRequest).head?.map
        fun sent => .request sent.2 } := by
  rw [HeadersExchange.step, h]
  simp only [ChainSyncNode.call, hcall]

/-- The response ends the search, or more is asked for and less remains. -/
theorem step_response (overflowChecks : Bool) (hforks : Forks own chain)
    (htell : HashesTell own chain) (hown : Holds e.node.store own) (hkeyed : e.node.synchronizer.Keyed)
    (hpeer : Holds e.peer.store chain) (hconfig : Searches e.peer.synchronizer.config)
    (hinfo : InfoTrue own chain e.info) (a : DataBlock) (ha : SearchStart own chain e.info a)
    (limit : ℕ) (hlimit : limit = endOf chain ∨ ∃ b ∈ chain, b.offset = limit ∧ ¬ InChain own b)
    (hends : limit = endOf chain ∨ KnowsLast chain e.info) (ms : List BlockMetadata)
    (hanswers : Answers chain a limit ms) (fromOffset toOffset : ℕ)
    (hinFlight : e.inFlight = some (.response
      (ChainSynchronizer.createSyncResponseForMetadata fromOffset toOffset ms)))
    (hcompares : e.Compares) :
    (e.step overflowChecks).inFlight = none ∧ SearchEnds own chain (e.step overflowChecks).info ∨
      ∃ toOffset', Searching own chain toOffset' (e.step overflowChecks) ∧
        remaining chain (e.step overflowChecks).info < remaining chain e.info := by
  have hnonempty : Nonempty BlockMetadata := ⟨ms.head (List.ne_nil_of_mem hanswers.first.choose_spec.1)⟩
  choose! f hf using hforks.numbered.reads
  obtain ⟨behind, rfl, hblocks⟩ := hanswers.blocks hpeer hf a ha.mem limit ms
  set common : DataBlock → Bool := fun b => decide (InChain own b) with hcommon
  have hread : ∀ b ∈ a :: behind, BlockMetadata.fromStoredBlock b = .ok (f b) :=
    fun b hb => hf b (hblocks.inChain b hb)
  -- the headers are compared one by one
  have htells : MetadataScan.TellsAlong e.node.store common (a :: behind) := by
    refine tellsAlong_of_readsTrue e.node.store hown e.peer.store hpeer htell hf (a :: behind)
      hblocks.inChain ?_
    have hreads := hcompares (((a :: behind).map f).map BlockMetadata.copyIntoBuilder) (by
      rw [HeadersExchange.arriving, hinFlight]
      rfl)
    rw [hown.chainOf_eq, List.map_map] at hreads
    exact hreads
  have hheights : (a :: behind).Pairwise fun b c => heightOf b < heightOf c := by
    refine hblocks.ascends.imp_of_mem ?_
    intro b c hb hc hlt
    exact (holds_ascends hpeer).rel_of_lt hforks.numbered.heightsGrow (hblocks.inChain b hb)
      (hblocks.inChain c hc) hlt
  have hscanEq := MetadataScan.scanHeaders_eq overflowChecks (a :: behind)
    ⟨e.info, false, none, none, true⟩ hread hheights
    (fun b hb => hforks.heightsFit b (hblocks.inChain b hb)) (by simp) (fun _ => htells)
  -- they split where the first differs
  obtain ⟨front, rest, rfl, hfront, hrest⟩ : ∃ front rest, behind = front ++ rest ∧
      (∀ b ∈ front, InChain own b) ∧ ∀ b, rest.head? = some b → ¬ InChain own b := by
    refine ⟨behind.takeWhile common, behind.dropWhile common, List.takeWhile_append_dropWhile.symm,
      ?_, ?_⟩
    · intro b hb
      have hin : common b = true := List.mem_takeWhile_imp hb
      exact of_decide_eq_true hin
    intro b hb
    have hnot := List.head?_dropWhile_not common behind
    rw [hb] at hnot
    exact of_decide_eq_false hnot
  have hrecorded : e.info.lastCommonBlock = none ∨ e.info.lastCommonBlock = some (f a) := by
    refine ha.recorded.imp_right ?_
    rintro ⟨m, hm, hlast⟩
    rw [hlast, Except.ok.inj ((hf a ha.mem).symm.trans hm)]
  have hscanned := @MetadataScan.scanned common _ e.info a front rest hblocks.ascends
    (fun b hb => fromStoredBlock_offset (hread b hb)) hrecorded (decide_eq_true ha.common)
    (fun b hb => decide_eq_true (hfront b hb)) (fun b hb => decide_eq_false (hrest b hb))
  set scan := (a :: (front ++ rest)).foldl (MetadataScan.pass common f)
    ⟨e.info, false, none, none, true⟩
  have htrue := scanned_infoTrue hf hinfo ha.common hblocks hfront hscanned
  have hknows := scanned_knowsLast hpeer hf hinfo ha.common hblocks hfront hscanned hends
  obtain ⟨s', hcall, hstore, hkeyed', hnext⟩ := handleSyncResponse_headers overflowChecks e.peerId
    fromOffset toOffset _ ⟨e.node.synchronizer, .new ⟨none⟩, e.node.store⟩ hkeyed scan hscanEq
  have hheaders : (a :: (front ++ rest)).map (fun b => (f b).copyIntoBuilder) =
      ((a :: (front ++ rest)).map f).map BlockMetadata.copyIntoBuilder := by
    rw [List.map_map]
    rfl
  rw [hheaders] at hcall
  have hstep := step_eq_of_response overflowChecks hinFlight s' hcall
  rcases hnext with ⟨hnew, -, hinfo', hcontext⟩ | ⟨hdone, hinfo', hcontext⟩
  · -- more is asked for, up to the first block that differs
    right
    have hsame : (e.step overflowChecks).info = scan.info := by
      rw [hstep]
      exact hinfo'
    refine ⟨scan.firstNonCommonBlock, ?_, ?_⟩
    · constructor
      · rw [hstep]
        exact hstore.symm ▸ hown
      · rw [hstep]
        exact hkeyed'
      · rw [hstep]
        exact hpeer
      · rw [hstep]
        exact hconfig
      · rw [hsame]
        exact htrue
      · rw [hsame]
        exact scanned_searchRange hf hblocks hrest hscanned hknows
      · rw [hsame, hstep, hcontext]
        rfl
    · rw [hsame]
      exact scanned_remaining hf ha hblocks hscanned hnew
  · -- the last block in common is known
    left
    have hsame : (e.step overflowChecks).info = { scan.info with lastCommonIsKnown := true } := by
      rw [hstep]
      exact hinfo'
    obtain ⟨last, hlast, hcommonBlock⟩ := hscanned.lastCommon
    have hstop : front = [] ∨
        (a :: (front ++ rest)).IsChain fun b c => heightOf c = heightOf b + 1 := by
      refine hdone.imp ?_ hscanned.contiguous.mp
      intro hold
      by_contra hnot
      rw [hscanned.isNew.mpr (Or.inr hnot)] at hold
      contradiction
    have hends' := hblocks.lastCommon hpeer hforks a ha.common limit front rest hfront hrest hstop
      hlimit last hlast
    constructor
    · rw [hstep, hcontext]
      rfl
    · rw [hsame]
      exact ⟨rfl, ⟨last, f last, hends', hf last hends'.mem, hcommonBlock⟩, hknows⟩

/-- A request is answered, and what is answered is compared. -/
theorem round_searching (overflowChecks : Bool) (hforks : Forks own chain)
    (htell : HashesTell own chain) (toOffset : Option ℕ) (h : Searching own chain toOffset e)
    (hcompares : (e.step overflowChecks).Compares) :
    let e' := (e.step overflowChecks).step overflowChecks
    e'.inFlight = none ∧ SearchEnds own chain e'.info ∨
      ∃ toOffset', Searching own chain toOffset' e' ∧
        remaining chain e'.info < remaining chain e.info := by
  obtain ⟨a, ha⟩ := exists_searchStart h.peer hforks e.info h.infoTrue
  obtain ⟨limit, hrange, hlimit, hto, hends⟩ := h.range.rangeEnd ha
  obtain ⟨ms, peer, hanswers, hstore, hconfig, hstep⟩ :=
    step_request overflowChecks hforks toOffset h a ha limit hrange hto
  rw [hstep] at hcompares ⊢
  exact step_response overflowChecks hforks htell h.node h.keyed (by exact hstore.symm ▸ h.peer)
    (by exact hconfig.symm ▸ h.config) h.infoTrue a ha limit hlimit (hends.imp_left And.right) ms
    hanswers a.offset (toOffset.getD 0) rfl hcompares

/-- The messages go on until the last block that the chains have in common is known, and the last
block of the other chain. Each round finds another block in common. -/
theorem search_ends (overflowChecks : Bool) (e : HeadersExchange) (own chain : List DataBlock)
    (hown : Holds e.node.store own) (hpeer : Holds e.peer.store chain)
    (hownLinked : HashLinked own) (hlinked : HashLinked chain) (hnumbered : Numbered chain)
    (hheights : ∀ b ∈ chain, heightOf b < 2^64) (htell : HashesTell own chain)
    (hfirst : ∃ a, chain.head? = some a ∧ InChain own a) (hkeyed : e.node.synchronizer.Keyed)
    (hconfig : Searches e.peer.synchronizer.config) (hinfo : InfoTrue own chain e.info)
    (hstart : e.inFlight = some (.request (ChainSynchronizer.createSyncRequest e.info .headers none)))
    (hcompares : ∀ n, ((HeadersExchange.step overflowChecks)^[n] e).Compares) :
    ∃ n ≤ 2 * (remaining chain e.info + 1),
      ((HeadersExchange.step overflowChecks)^[n] e).inFlight = none ∧
        SearchEnds own chain ((HeadersExchange.step overflowChecks)^[n] e).info := by
  have hforks : Forks own chain :=
    ⟨hnumbered, hheights, hfirst, inChain_closed hown hpeer hownLinked hlinked htell⟩
  have hround := Run.iterate_reaches (HeadersExchange.step overflowChecks)
    (fun e => (∃ toOffset, Searching own chain toOffset e) ∧
      ∀ n, ((HeadersExchange.step overflowChecks)^[n] e).Compares)
    (fun e => e.inFlight = none ∧ SearchEnds own chain e.info) (fun e => remaining chain e.info) 2
  apply hround
  · rintro e ⟨⟨toOffset, h⟩, hall⟩
    rcases round_searching overflowChecks hforks htell toOffset h (hall 1) with hdone | ⟨toOffset', h', hlt⟩
    · exact Or.inl hdone
    · refine Or.inr ⟨⟨⟨toOffset', h'⟩, ?_⟩, hlt⟩
      intro n
      exact hall (n + 2)
  · exact ⟨⟨none, hown, hkeyed, hpeer, hconfig, hinfo, .chain, hstart⟩, hcompares⟩

end Search

section Samples

attribute [local instance] syncCrates

/-- A node with two blocks of a chain of three asks for its headers. -/
def behindExchange : HeadersExchange where
  node := ⟨.new .default downloadCell, secondStore⟩
  peer := ⟨.new .default downloadCell, thirdStore⟩
  peerId := leadNode
  inFlight := some (.request
    (ChainSynchronizer.createSyncRequest (NodeSyncInfo.new leadNode) .headers none))

theorem syncBlocks_follow : Follows genesisBlock secondBlock ∧ Follows secondBlock thirdBlock := by
  constructor
  · refine ⟨secondHeader, rfl, ⟨by decide +kernel, by decide +kernel,
      ⟨1, by decide +kernel, by decide +kernel⟩, by decide +kernel⟩, ?_⟩
    intro hne
    exact absurd rfl hne
  · refine ⟨thirdHeader, rfl, ⟨by decide +kernel, by decide +kernel,
      ⟨2, by decide +kernel, by decide +kernel⟩, by decide +kernel⟩, ?_⟩
    intro hne
    exact absurd rfl hne

theorem behind_compares (n : ℕ) : ((HeadersExchange.step true)^[n] behindExchange).Compares := by
  have hquiet : ((HeadersExchange.step true)^[2] behindExchange).inFlight = none := by
    decide +kernel
  have hstays (k : ℕ) : (HeadersExchange.step true)^[k] ((HeadersExchange.step true)^[2] behindExchange) =
      (HeadersExchange.step true)^[2] behindExchange := by
    apply Function.iterate_fixed
    rw [HeadersExchange.step, hquiet]
  rcases n with _ | _ | k
  · decide +kernel
  · decide +kernel
  · change ((HeadersExchange.step true)^[k + 2] behindExchange).Compares
    rw [Function.iterate_add_apply, hstays]
    decide +kernel

theorem search_ends_of_behind :
    ∃ n ≤ 10, ((HeadersExchange.step true)^[n] behindExchange).inFlight = none ∧
      SearchEnds [genesisBlock, secondBlock] [genesisBlock, secondBlock, thirdBlock]
        ((HeadersExchange.step true)^[n] behindExchange).info := by
  have hown : Holds behindExchange.node.store [genesisBlock, secondBlock] := by
    simp only [behindExchange]
    exact secondStore_holds
  have hpeer : Holds behindExchange.peer.store [genesisBlock, secondBlock, thirdBlock] := by
    simp only [behindExchange]
    exact thirdStore_holds
  have hinfo : behindExchange.info = NodeSyncInfo.new leadNode := by
    simp only [HeadersExchange.info, behindExchange]
    rfl
  have hremaining : remaining [genesisBlock, secondBlock, thirdBlock] behindExchange.info = 4 := by
    rw [hinfo]
    rfl
  have htell : ∀ c ∈ [genesisBlock, secondBlock], ∀ b ∈ [genesisBlock, secondBlock, thirdBlock],
      c.header.multihashBytes = b.header.multihashBytes → c.header = b.header := by
    decide +kernel
  have hends := search_ends true behindExchange _ _ hown hpeer
  rw [hremaining] at hends
  apply hends
  · exact .cons_cons syncBlocks_follow.1 (.singleton _)
  · exact .cons_cons syncBlocks_follow.1 (.cons_cons syncBlocks_follow.2 (.singleton _))
  · exact threeBlocks_numbered
  · decide +kernel
  · exact htell
  · exact ⟨genesisBlock, rfl, by decide +kernel⟩
  · simp only [behindExchange]
    exact (ChainSynchronizer.consistent_new _ _).keyed
  · simp only [behindExchange]
    exact ⟨by decide, by decide, by decide⟩
  · rw [hinfo]
    exact infoTrue_new _ _ _
  · rw [hinfo]
    simp only [behindExchange]
  · exact behind_compares

end Samples

end Exocore.Engine
