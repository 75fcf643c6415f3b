import Exocore.ChainSyncDownload
import Exocore.CommitLink

/-! A chain that grows by the responses of the lead node. Of a block that arrives only the
offset is checked, so whether the chain stays hash-linked is up to the blocks. -/
namespace Exocore.Engine

open Exocore.Core Exocore.Chain

section Links
variable [Crates]

/-- The operations of a block hash to what its header says, as far as it has any. -/
def OperationsMatch (b : DataBlock) (header : BlockHeader) : Prop :=
  b.operationsData ≠ [] → ∃ frames bytes, b.operations = .ok frames ∧
    header.operationsHash = some bytes ∧
    Crates.multihashFromBytes bytes = some (BlockOperations.hashOperations frames)

/-- The block names the other as the one before it, and holds the operations it names. -/
def Follows (tip b : DataBlock) : Prop :=
  ∃ header, b.header.reader = some header ∧ LinksTo tip header ∧ OperationsMatch b header

def HashLinked (chain : List DataBlock) : Prop := chain.IsChain Follows

def FollowsChain (own : List DataBlock) (b : DataBlock) : Prop :=
  ∀ tip, own.getLast? = some tip → Follows tip b

theorem hashLinked_snoc (own : List DataBlock) (b : DataBlock) :
    HashLinked (own ++ [b]) ↔ HashLinked own ∧ FollowsChain own b := by
  rw [HashLinked, List.isChain_append]
  simp [HashLinked, FollowsChain]

/-- The block is well formed, and follows the chain as it is when its turn comes. -/
def LinksOn (own : List DataBlock) (b : DataBlock) : Prop := WellFormed b ∧ FollowsChain own b

/-- The offset of a block that follows is the end of the chain. -/
theorem followsChain_offset {own : List DataBlock} {last : Option BlockMetadata} {b : DataBlock}
    (hlast : LastMetadata own last) (hwf : WellFormed b) (hb : FollowsChain own b)
    (hoff : b.offset = (last.map BlockMetadata.nextOffset).getD 0) : b.offset = endOf own := by
  rcases hlast with ⟨rfl, rfl⟩ | ⟨front, tip, m, rfl, rfl, -⟩
  · exact hoff
  · obtain ⟨header, hreader, hlinks, -⟩ := hb tip List.getLast?_concat
    obtain ⟨header', hreader', hheader, -⟩ := hwf.headerAgrees
    rw [hreader] at hreader'
    obtain rfl := Option.some.inj hreader'
    rw [← hheader, hlinks.offset, endOf, List.getLast?_concat]
    rfl

/-- Each block of the response that the offset check lets through meets the condition, on the
chain as it is when its turn comes. -/
def Accepted (fits : List DataBlock → DataBlock → Prop) :
    List DataBlock → Option BlockMetadata → List (Option Bytes) → Prop
  | _, _, [] => True
  | own, last, data :: rest => ∀ bytes b, data = some bytes → DataBlock.new .ref bytes = .ok b →
      b.offset = (last.map BlockMetadata.nextOffset).getD 0 →
      fits own b ∧
        ∀ m, BlockMetadata.fromStoredBlock b = .ok m → Accepted fits (own ++ [b]) (some m) rest

/-- The loop over the blocks of a response keeps what each write keeps. -/
theorem writeIncomingBlocks_keeps (inv : List DataBlock → DirectoryChainStore → Prop)
    (fits : List DataBlock → DataBlock → Prop)
    (hwrite : ∀ own last store b, inv own store → LastMetadata own last → fits own b →
      b.offset = (last.map BlockMetadata.nextOffset).getD 0 →
      (store.writeBlock b).1 = .ok b.nextOffset ∧ inv (own ++ [b]) (store.writeBlock b).2)
    (datas : List (Option Bytes)) (own : List DataBlock) (last : Option BlockMetadata)
    (s : ChainSyncState DirectoryChainStore) (hinv : inv own s.store)
    (hlast : LastMetadata own last) (hdatas : Accepted fits own last datas) :
    ∃ own', own <+: own' ∧ inv own' (ChainSynchronizer.writeIncomingBlocks datas last s).2.store := by
  induction datas generalizing own last s with
  | nil => exact ⟨own, List.prefix_rfl, hinv⟩
  | cons data rest ih =>
    -- where the loop stops the chain stays as it is
    have hstop : ∃ own', own <+: own' ∧ inv own' s.store := ⟨own, List.prefix_rfl, hinv⟩
    rw [ChainSynchronizer.writeIncomingBlocks]
    cases data with
    | none => exact hstop
    | some bytes =>
      simp only [orError_some, Action.lift_ok_bind]
      cases hnew : DataBlock.new .ref bytes with
      | error e => cases e <;> exact hstop
      | ok b =>
        simp only [liftError_ok, Action.lift_ok_bind]
        split_ifs with hoff
        · obtain ⟨hfits, hrest⟩ := hdatas bytes b rfl hnew hoff
          obtain ⟨hok, hwritten⟩ := hwrite own last s.store b hinv hlast hfits hoff
          have hcall : ChainSynchronizer.writeChainBlock b ({ s with
              syncContext := s.syncContext.pushEvent (.newChainBlock b.offset) } :
                ChainSyncState DirectoryChainStore) = (.ok (), { s with
              syncContext := s.syncContext.pushEvent (.newChainBlock b.offset)
              store := (s.store.writeBlock b).2 }) := by
            have hstore : ChainStore.writeBlock s.store b =
                (.ok b.nextOffset, (s.store.writeBlock b).2) := Prod.ext hok rfl
            rw [ChainSynchronizer.writeChainBlock]
            simp only [hstore]
          rw [Action.bind_apply, ChainSynchronizer.pushChainEvent]
          simp only [Action.bind_apply, hcall]
          cases hm : BlockMetadata.fromStoredBlock b with
          | error e => exact ⟨own ++ [b], List.prefix_append _ _, hwritten⟩
          | ok m =>
            obtain ⟨own', hgrows, hown'⟩ := ih (own ++ [b]) (some m) { s with
              syncContext := s.syncContext.pushEvent (.newChainBlock b.offset)
              store := (s.store.writeBlock b).2 } hwritten (Or.inr ⟨own, b, m, rfl, rfl, hm⟩)
              (hrest m hm)
            exact ⟨own', (List.prefix_append _ _).trans hgrows, hown'⟩
        · exact hstop

theorem writeIncomingBlocks_hashLinked (datas : List (Option Bytes)) (own : List DataBlock)
    (last : Option BlockMetadata) (s : ChainSyncState DirectoryChainStore)
    (hholds : Holds s.store own) (hown : HashLinked own) (hlast : LastMetadata own last)
    (hdatas : Accepted LinksOn own last datas) :
    ∃ own', own <+: own' ∧ HashLinked own' ∧
      Holds (ChainSynchronizer.writeIncomingBlocks datas last s).2.store own' := by
  apply writeIncomingBlocks_keeps (fun own store => HashLinked own ∧ Holds store own) _ ?_ datas own
    last s ⟨hown, hholds⟩ hlast hdatas
  rintro own last store b ⟨hown, hholds⟩ hlast ⟨hwf, hfollows⟩ hoff
  obtain ⟨hok, hwritten⟩ := hholds.writeBlock b hwf (followsChain_offset hlast hwf hfollows hoff)
  exact ⟨hok, (hashLinked_snoc own b).mpr ⟨hown, hfollows⟩, hwritten⟩

/-- A response keeps what its blocks keep, where it is the lead node's. -/
theorem handleSyncResponse_store_keeps {CS : Type} [ChainRangeStore CS] (inv : CS → Prop)
    (overflowChecks : Bool) (fromNode : NodeId) (response : ChainSyncResponse) (s : ChainSyncState CS)
    (hinv : inv s.store)
    (hblocks : response.blocks.has = true → s.synchronizer.leader = some fromNode →
      ∀ last datas, ChainSynchronizer.lastLocalMetadata s.store = .ok last →
        response.blocks.get = .ok datas →
        inv (ChainSynchronizer.writeIncomingBlocks datas last { s with
          synchronizer := s.synchronizer.createNodeInfo fromNode }).2.store) :
    inv (ChainSynchronizer.handleSyncResponse overflowChecks fromNode (some response) s).2.store := by
  rw [ChainSynchronizer.handleSyncResponse_store]
  split_ifs with hhas
  · rcases ChainSynchronizer.handleSyncResponseBlocks_cases fromNode response s with
      ⟨e, hres | hres⟩ | ⟨last, datas, r, s', hleader, hlast, hdatas, hwrite, -, hend⟩
    · rw [hres]
      exact hinv
    · rw [hres]
      exact hinv
    · have hwritten := hblocks hhas hleader last datas hlast hdatas
      rw [hwrite] at hwritten
      rcases hend with ⟨e, -, hres⟩ | ⟨last', -, hres⟩
      · rw [hres]
        exact hwritten
      · rw [hres, (ChainSynchronizer.continueDownload_cases _ s').2.1]
        exact hwritten
  · exact hinv

/-- The blocks of a response of the lead node follow the own chain as it is. -/
def ResponseFollows (n : ChainSyncNode DirectoryChainStore) (fromNode : NodeId)
    (response : ChainSyncResponse) : Prop :=
  response.blocks.has = true → n.synchronizer.leader = some fromNode →
    ∀ last datas, ChainSynchronizer.lastLocalMetadata n.store = .ok last →
      response.blocks.get = .ok datas → Accepted LinksOn (chainOf n.store) last datas

/-- A response of blocks follows the chain; so does a block that is written beside the
responses. -/
def ChainSyncStep.Follows (n : ChainSyncNode DirectoryChainStore) : ChainSyncStep → Prop
  | .syncResponse _ fromNode (some response) => ResponseFollows n fromNode response
  | .writeBlock b => WellFormed b ∧ b.offset = endOf (chainOf n.store) ∧
      FollowsChain (chainOf n.store) b
  | _ => True

theorem handleSyncResponse_hashLinked (overflowChecks : Bool) (fromNode : NodeId)
    (response : ChainSyncResponse) (n : ChainSyncNode DirectoryChainStore)
    (context : SyncContext) (own : List DataBlock) (hholds : Holds n.store own)
    (hown : HashLinked own) (hresponse : ResponseFollows n fromNode response) :
    ∃ own', own <+: own' ∧ HashLinked own' ∧
      Holds (ChainSynchronizer.handleSyncResponse overflowChecks fromNode (some response)
        ⟨n.synchronizer, context, n.store⟩).2.store own' := by
  apply handleSyncResponse_store_keeps (fun store => ∃ own', own <+: own' ∧ HashLinked own' ∧
    Holds store own') overflowChecks fromNode response ⟨n.synchronizer, context, n.store⟩
    ⟨own, List.prefix_rfl, hown, hholds⟩
  intro hhas hleader last datas hlast hdatas
  have hfollow := hresponse hhas hleader last datas hlast hdatas
  rw [hholds.chainOf_eq] at hfollow
  exact writeIncomingBlocks_hashLinked datas own last
    ⟨n.synchronizer.createNodeInfo fromNode, context, n.store⟩ hholds hown
    (lastLocalMetadata_ok hholds last hlast) hfollow

/-- The own chain reads as these blocks and those behind them, all of them hash-linked. -/
structure GrowsLinked (start : List DataBlock) (n : ChainSyncNode DirectoryChainStore) : Prop where
  consistent : n.synchronizer.Consistent
  linked : ∃ own, start <+: own ∧ HashLinked own ∧ Holds n.store own

theorem chainSyncNode_step_growsLinked (start : List DataBlock)
    (n : ChainSyncNode DirectoryChainStore) (a : ChainSyncStep) (h : GrowsLinked start n)
    (ha : a.Follows n) : GrowsLinked start (n.step a) := by
  refine ⟨chainSyncNode_step_consistent n a h.consistent, ?_⟩
  obtain ⟨own, hstart, hown, hholds⟩ := h.linked
  cases a with
  | tick i =>
    have hstore : (n.step (.tick i)).store = n.store := (ChainSynchronizer.tick_watches i
      ⟨n.synchronizer, .new ⟨none⟩, n.store⟩ h.consistent.keyed).store
    rw [hstore]
    exact h.linked
  | syncRequest overflowChecks fromNode request =>
    have hstore : (n.step (.syncRequest overflowChecks fromNode request)).store = n.store :=
      (ChainSynchronizer.handleSyncRequest_quiet overflowChecks fromNode request
        ⟨n.synchronizer, .new ⟨none⟩, n.store⟩).store
    rw [hstore]
    exact h.linked
  | syncResponse overflowChecks fromNode response =>
    cases response with
    | none => exact h.linked
    | some response =>
      obtain ⟨own', hgrows, hlinked, hholds'⟩ := handleSyncResponse_hashLinked overflowChecks
        fromNode response n (.new ⟨none⟩) own hholds hown ha
      exact ⟨own', hstart.trans hgrows, hlinked, hholds'⟩
  | resetState => exact h.linked
  | writeBlock b =>
    obtain ⟨hwf, hoff, hfollows⟩ := ha
    rw [hholds.chainOf_eq] at hoff hfollows
    exact ⟨own ++ [b], hstart.trans (List.prefix_append _ _),
      (hashLinked_snoc own b).mpr ⟨hown, hfollows⟩, (hholds.writeBlock b hwf hoff).2⟩

/-- Along every run in which the blocks that the lead node gets through follow the chain, the
chain of the node stays hash-linked, and grows. -/
theorem chainSync_run_hashLinked (config : ChainSyncConfig) (cell : Cell)
    (store : DirectoryChainStore) (own : List DataBlock) (hholds : Holds store own)
    (hown : HashLinked own) (steps : List ChainSyncStep)
    (hsteps : Run.Allowed ChainSyncNode.step ChainSyncStep.Follows ⟨.new config cell, store⟩
      steps) :
    ∃ own', own <+: own' ∧ HashLinked own' ∧
      (Run.exec ChainSyncNode.step ⟨.new config cell, store⟩ steps).store.blocksIter 0 =
        own'.map .ok := by
  have hstart : GrowsLinked own (⟨.new config cell, store⟩ : ChainSyncNode DirectoryChainStore) :=
    ⟨ChainSynchronizer.consistent_new config cell, own, List.prefix_rfl, hown, hholds⟩
  have hend := Run.exec_invariant ChainSyncNode.step ChainSyncStep.Follows (GrowsLinked own)
    (fun n a h ha => chainSyncNode_step_growsLinked own n a h ha) _ steps hstart hsteps
  obtain ⟨own', hgrows, hlinked, hholds'⟩ := hend.linked
  exact ⟨own', hgrows, hlinked, hholds'.blocksIter_zero⟩

end Links

/-! A lead node that sends a block of another chain: its height and its previous hash are not
those of the own chain, its offset is. -/

def strayMessage : Bytes := ofNats
    [0, 0, 0, 0, 24, 0, 0, 0, 0, 0, 0, 0, 5, 0, 4, 0, 254, 0, 0, 0, 0, 0, 0, 0, 9, 0, 0, 0, 0, 0,
    0, 0, 0, 0, 0, 0, 0, 0, 0, 0, 100, 0, 0, 0, 0, 0, 0, 0, 0, 0, 0, 0, 52, 0, 0, 0, 13, 0, 0, 0,
    18, 1, 0, 0, 29, 0, 0, 0, 170, 1, 0, 0, 57, 0, 0, 0, 7, 0, 0, 0, 49, 0, 0, 0, 18, 0, 0, 0,
    22, 32, 250, 241, 79, 104, 41, 159, 190, 156, 215, 109, 119, 162, 141, 183, 192, 84, 140,
    110, 240, 97, 187, 82, 223, 98, 187, 27, 148, 53, 70, 217, 237, 126, 0, 0, 0, 0, 0, 0, 49,
    50, 68, 51, 75, 111, 111, 87, 80, 84, 67, 87, 112, 65, 50, 88, 105, 55, 51, 97, 49, 117, 82,
    69, 100, 87, 103, 70, 51, 115, 115, 121, 119, 119, 116, 104, 51, 83, 100, 56, 65, 55, 77, 53,
    118, 109, 51, 122, 103, 100, 75, 112, 0, 0, 0, 0, 0, 0, 0, 0, 0, 0, 0, 0, 0, 0, 0, 0, 2, 0,
    0, 0]

def strayMultihash : Bytes := ofNats
    [22, 32, 70, 88, 242, 113, 200, 205, 238, 47, 75, 148, 243, 173, 128, 213, 161, 21, 240, 7,
    202, 221, 162, 210, 194, 255, 11, 99, 144, 123, 197, 50, 109, 134]

def strayHeader : BlockHeader :=
  ⟨254, 9, 0, some secondMultihash, 100, some sampleNode, 0, some [], some [0, 0], 52⟩

def strayBlock : DataBlock := emptyBlock strayMessage strayMultihash strayHeader

def strayTables : Tables where
  operations := []
  headers := [(genesisMessage, genesisHeader), (secondMessage, secondHeader),
    (strayMessage, strayHeader)]
  signatures := [(emptySignaturesMessage, ⟨0, some []⟩)]
  digests := []
  nodeIds := [sampleNode]

@[reducible] def strayCrates : Crates := strayTables.crates

/-- The lead node announces two blocks and is elected. -/
def electsLead : List ChainSyncStep :=
  [.tick promptInput,
    .syncResponse true leadNode (some (ChainSynchronizer.createSyncResponseForMetadata 0 0
      ([genesisBlock, secondBlock].filterMap fun b => (BlockMetadata.fromStoredBlock b).toOption))),
    .tick promptInput]

/-- Then it sends the block. -/
def sendsBlock (block : DataBlock) : List ChainSyncStep :=
  electsLead ++
    [.syncResponse true leadNode (some ⟨0, 254, .null, .list [some block.asDataVec]⟩)]

section Samples

attribute [local instance] strayCrates

def genesisStore : DirectoryChainStore :=
  ((DirectoryChainStore.create ⟨0, 10000, 10⟩).writeBlock genesisBlock).2

theorem genesisStore_holds : Holds genesisStore [genesisBlock] :=
  ((holds_create ⟨0, 10000, 10⟩).writeBlock genesisBlock
    (wellFormedCheck_sound _ (by decide +kernel)) (by decide +kernel)).2

theorem genesis_hashLinked : HashLinked [genesisBlock] := List.isChain_singleton _

theorem stray_not_hashLinked : ¬ HashLinked [genesisBlock, strayBlock] := by
  rw [show [genesisBlock, strayBlock] = [genesisBlock] ++ [strayBlock] from rfl, hashLinked_snoc]
  rintro ⟨-, hfollows⟩
  obtain ⟨header, hreader, hlinks, -⟩ := hfollows genesisBlock rfl
  obtain rfl : strayHeader = header := Option.some.inj hreader
  have hprevious := hlinks.previousHash
  exact absurd hprevious (by decide +kernel)

/-- The block goes into the chain. -/
theorem stray_block_written :
    HashLinked [genesisBlock] ∧ genesisStore.blocksIter 0 = [.ok genesisBlock] ∧
      (Run.exec ChainSyncNode.step ⟨.new .default downloadCell, genesisStore⟩
        (sendsBlock strayBlock)).store.blocksIter 0 = [.ok genesisBlock, .ok strayBlock] ∧
      ¬ HashLinked [genesisBlock, strayBlock] :=
  ⟨genesis_hashLinked, by decide +kernel, by decide +kernel, stray_not_hashLinked⟩

theorem second_follows : FollowsChain [genesisBlock] secondBlock := by
  intro tip htip
  obtain rfl : genesisBlock = tip := Option.some.inj htip
  refine ⟨secondHeader, rfl, ⟨by decide +kernel, by decide +kernel,
    ⟨1, by decide +kernel, by decide +kernel⟩, by decide +kernel⟩, ?_⟩
  intro hne
  exact absurd rfl hne

theorem electsLead_chain : chainOf (Run.exec ChainSyncNode.step
    ⟨.new .default downloadCell, genesisStore⟩ electsLead).store = [genesisBlock] := by
  decide +kernel

theorem second_block_linked :
    ∃ own', [genesisBlock] <+: own' ∧ HashLinked own' ∧
      (Run.exec ChainSyncNode.step ⟨.new .default downloadCell, genesisStore⟩
        (sendsBlock secondBlock)).store.blocksIter 0 = own'.map .ok := by
  have helects : Run.Allowed ChainSyncNode.step ChainSyncStep.Follows
      ⟨.new .default downloadCell, genesisStore⟩ electsLead :=
    ⟨trivial, fun hhas => absurd hhas (by decide), trivial, trivial⟩
  refine chainSync_run_hashLinked .default downloadCell genesisStore [genesisBlock]
    genesisStore_holds genesis_hashLinked (sendsBlock secondBlock) ?_
  rw [sendsBlock, Run.allowed_append_iff]
  refine ⟨helects, ?_, trivial⟩
  intro _ _ last datas hlast hdatas
  have hwf : WellFormed secondBlock := wellFormedCheck_sound _ (by decide +kernel)
  rw [electsLead_chain, ← Except.ok.inj hdatas]
  intro bytes b hbytes hnew _
  rw [← Option.some.inj hbytes, dataBlock_new_asDataVec .ref secondBlock hwf.toFramed] at hnew
  rw [← Except.ok.inj hnew]
  exact ⟨⟨hwf, second_follows⟩, fun _ _ => trivial⟩

end Samples

end Exocore.Engine
