import Exocore.ChainRunsReads
import Exocore.ChainSyncWorld

/-! The download of a chain from an honest lead node. -/
namespace Exocore.Engine

open Exocore.Core Exocore.Chain

section Download
variable [Crates]

theorem worldFits_start {honest : NodeId → Bool} {w : SyncWorld} (config : ChainSyncConfig)
    (cell : Cell) (hnew : w.node.synchronizer = .new config cell) (hrequests : w.requests = [])
    (hresponses : w.responses = []) (hown : Holds w.node.store w.own)
    (hfits : ∀ b ∈ w.own, b.header.wholeData.length < 2^32)
    (hpeers : ∀ id, honest id = true → Holds (w.peers id).store (w.chain id) ∧
      HonestChain (w.chain id))
    (hunforked : ∀ id, honest id = true → Unforked w.own (w.chain id))
    (hpeersUnforked : ∀ id id', honest id = true → honest id' = true →
      Unforked (w.chain id) (w.chain id')) : WorldFits honest w := by
  refine ⟨⟨hown, hfits, ?_, ?_, fun m hm => by simp [SyncContext.new] at hm⟩, ?_, hpeers,
    hunforked, hpeersUnforked, ?_, ?_⟩
  · rw [hnew]
    exact (ChainSynchronizer.consistent_new config cell).keyed
  · intro id chain _
    rw [hnew]
    exact infoFits_new _ _ id
  · rw [hnew]
    exact ChainSynchronizer.consistent_new config cell
  · intro id request hmem
    rw [hrequests] at hmem
    contradiction
  · intro id response hmem
    rw [hresponses] at hmem
    contradiction

/-- A call that sets the status to synchronized with another node has its last block. -/
theorem step_setSynchronized {honest : NodeId → Bool} {w : SyncWorld} (h : WorldFits honest w)
    (a : WorldStep) :
    ChainSynchronizer.SetSynchronized w.node.synchronizer (w.step a).node.synchronizer := by
  have hcall : ∀ x : Action (ChainSyncState DirectoryChainStore) EngineError Unit,
      (w.call x).node.synchronizer =
        (x ⟨w.node.synchronizer, .new ⟨none⟩, w.node.store⟩).2.synchronizer := by
    intro x
    rw [SyncWorld.call, ChainSyncNode.call]
    rcases x ⟨w.node.synchronizer, .new ⟨none⟩, w.node.store⟩ with ⟨_ | _, s⟩ <;> rfl
  have hsame : ∀ s, s = w.node.synchronizer →
      ChainSynchronizer.SetSynchronized w.node.synchronizer s := by
    rintro s rfl
    exact fun hne hsync => absurd hsync hne
  cases a with
  | tick i =>
    rw [SyncWorld.step, hcall]
    exact ChainSynchronizer.tick_setSynchronized i ⟨w.node.synchronizer, _, w.node.store⟩
      h.consistent
  | answer overflowChecks index =>
    apply hsame
    rw [SyncWorld.step]
    cases w.requests[index]? with
    | none => rfl
    | some sent =>
      simp only [SyncWorld.answer]
      rcases (w.peers sent.1).call (ChainSynchronizer.handleSyncRequest overflowChecks
        w.node.synchronizer.cell.localNode (some sent.2)) with ⟨_ | _, messages, peer⟩ <;> rfl
  | deliver overflowChecks index =>
    rw [SyncWorld.step]
    cases w.responses[index]? with
    | none => exact hsame _ rfl
    | some sent =>
      simp only
      rw [hcall]
      exact ChainSynchronizer.handleSyncResponse_setSynchronized overflowChecks sent.1 _
        ⟨w.node.synchronizer, _, w.node.store⟩ h.consistent.keyed
  | foreign overflowChecks fromNode response =>
    rw [SyncWorld.step, hcall]
    exact ChainSynchronizer.handleSyncResponse_setSynchronized overflowChecks fromNode _
      ⟨w.node.synchronizer, _, w.node.store⟩ h.consistent.keyed
  | syncRequest overflowChecks fromNode request =>
    rw [SyncWorld.step, hcall]
    have hquiet := ChainSynchronizer.handleSyncRequest_quiet overflowChecks fromNode request
      (⟨w.node.synchronizer, .new ⟨none⟩, w.node.store⟩ : ChainSyncState DirectoryChainStore)
    exact fun hne hsync => absurd (hquiet.status ▸ hsync) hne
  | commit block => exact hsame _ rfl
  | peerCommit id block => exact hsame _ rfl
  | resetState =>
    intro _ hsync
    contradiction

/-- The steps of a download: the node does not commit, and other nodes than the lead node may
send anything while they do not lead. -/
def DownloadStep (lead : NodeId) (w : SyncWorld) (a : WorldStep) : Prop :=
  (∀ block, a ≠ .commit block) ∧ a.Fits (fun id => id = lead) w

/-- The own chain starts with no block that the chain of the lead node does not have. -/
structure Downloads (lead : NodeId) (w : SyncWorld) : Prop where
  fits : WorldFits (fun id => id = lead) w
  isPrefix : w.own <+: w.chain lead

theorem step_downloads (lead : NodeId) (w : SyncWorld) (a : WorldStep) (h : Downloads lead w)
    (ha : DownloadStep lead w a) : Downloads lead (w.step a) := by
  obtain ⟨hfits, hown, hgrows⟩ := step_fits h.fits a ha.2
  have hlead := hgrows lead (by simp)
  refine ⟨hfits, ?_⟩
  rcases hown with hsame | ⟨id, -, hid, -, halong⟩ | ⟨block, hcommit, -⟩
  · rw [hsame]
    exact h.isPrefix.trans hlead
  · have heq : id = lead := by simpa using hid
    rw [heq] at halong
    exact halong.trans hlead
  · exact absurd hcommit (ha.1 block)

/-- From a chain that the lead node starts with, whatever the order of the steps and of the
messages: the own chain stays one that the lead node starts with, and the status is only set
to synchronized with the lead node once its last block known is in the own chain. -/
theorem download_follows_lead (config : ChainSyncConfig) (cell : Cell) (lead : NodeId)
    (w : SyncWorld) (hnew : w.node.synchronizer = .new config cell) (hrequests : w.requests = [])
    (hresponses : w.responses = []) (hown : Holds w.node.store w.own)
    (hlead : Holds (w.peers lead).store (w.chain lead))
    (hsizes : ∀ b ∈ w.chain lead, b.header.wholeData.length < 2^32)
    (hstart : w.own <+: w.chain lead) (steps : List WorldStep)
    (hrun : Run.Allowed SyncWorld.step (DownloadStep lead) w steps) :
    let w' := Run.exec SyncWorld.step w steps
    w'.own <+: w'.chain lead ∧
      ∀ a, DownloadStep lead w' a → w'.node.synchronizer.status ≠ .synchronized →
        (w'.step a).node.synchronizer.status = .synchronized →
        (w'.step a).node.synchronizer.leader = some lead →
        (w'.step a).node.synchronizer.imLeader = false →
        ∃ known b, ((w'.step a).node.synchronizer.nodeInfo lead).lastKnownBlock = some known ∧
          b ∈ (w'.step a).own ∧ BlockMetadata.fromStoredBlock b = .ok known := by
  intro w'
  have hstarts : Downloads lead w := by
    refine ⟨worldFits_start config cell hnew hrequests hresponses hown
      (fun b hb => hsizes b (hstart.subset hb)) ?_ ?_ ?_, hstart⟩
    · intro id hid
      obtain rfl : id = lead := by simpa using hid
      exact ⟨hlead, Holds.honest hlead hsizes⟩
    · intro id hid
      obtain rfl : id = lead := by simpa using hid
      exact Or.inl hstart
    · intro id id' hid hid'
      obtain rfl : id = lead := by simpa using hid
      obtain rfl : id' = id := by simpa using hid'
      exact Or.inl List.prefix_rfl
  have hends : Downloads lead w' := Run.exec_invariant SyncWorld.step (DownloadStep lead)
    (Downloads lead) (fun w a => step_downloads lead w a) w steps hstarts hrun
  refine ⟨hends.isPrefix, ?_⟩
  intro a ha hne hsync hleader hother
  have hnext := step_downloads lead w' a hends ha
  rcases step_setSynchronized hends.fits a hne hsync with hlocal | ⟨leader, hleader', hfull⟩
  · rw [ChainSynchronizer.imLeader, ChainSynchronizer.isLeader, hlocal] at hother
    simp at hother
  · rw [hleader] at hleader'
    obtain rfl := Option.some.inj hleader'
    obtain ⟨known, b, hknown, hb, hm⟩ := (hnext.fits.node.infos lead ((w'.step a).chain lead)
      ((chains_eq_some_iff lead _).mpr ⟨by simp, rfl⟩)).fullyDownloaded
      (hnext.fits.peers lead (by simp)).2 hfull
    exact ⟨known, b, hknown, hb, hm⟩

end Download

/-! A chain of three blocks, and a node that downloads it. -/

def syncTables : Tables where
  operations := []
  headers := [(genesisMessage, genesisHeader), (secondMessage, secondHeader),
    (thirdMessage, thirdHeader)]
  signatures := [(emptySignaturesMessage, ⟨0, some []⟩)]
  digests := []
  nodeIds := [sampleNode]

@[reducible] def syncCrates : Crates := syncTables.crates

def localNode : NodeId := ⟨sampleNode⟩
def leadNode : NodeId := ⟨"12D3KooWDzwCfugwoor3LkCipVDjLhD22bJaQ1ontrVydY2eiiMz"⟩

def downloadCell : Cell := ⟨localNode, [⟨localNode, [.chain]⟩, ⟨leadNode, [.chain]⟩], by decide⟩

/-- Every request can be sent, and none has failed. -/
def promptInput : ChainSyncInput := ⟨fun _ => 0, true, fun _ => true, .same, true⟩

section Samples

attribute [local instance] syncCrates

def firstStore : DirectoryChainStore :=
  ((DirectoryChainStore.create ⟨0, 10000, 10⟩).writeBlock genesisBlock).2

def secondStore : DirectoryChainStore := (firstStore.writeBlock secondBlock).2

def thirdStore : DirectoryChainStore := (secondStore.writeBlock thirdBlock).2

theorem syncBlocks_wellFormed :
    WellFormed genesisBlock ∧ WellFormed secondBlock ∧ WellFormed thirdBlock :=
  ⟨wellFormedCheck_sound _ (by decide +kernel), wellFormedCheck_sound _ (by decide +kernel),
    wellFormedCheck_sound _ (by decide +kernel)⟩

theorem firstStore_holds : Holds firstStore [genesisBlock] :=
  ((holds_create ⟨0, 10000, 10⟩).writeBlock genesisBlock syncBlocks_wellFormed.1
    (by decide +kernel)).2

theorem secondStore_holds : Holds secondStore [genesisBlock, secondBlock] :=
  (firstStore_holds.writeBlock secondBlock syncBlocks_wellFormed.2.1 (by decide +kernel)).2

theorem thirdStore_holds : Holds thirdStore [genesisBlock, secondBlock, thirdBlock] :=
  (secondStore_holds.writeBlock thirdBlock syncBlocks_wellFormed.2.2 (by decide +kernel)).2

def downloadWorld : SyncWorld where
  node := ⟨.new .default downloadCell, firstStore⟩
  peers _ := ⟨.new .default downloadCell, thirdStore⟩
  requests := []
  responses := []

/-- The headers are asked for and answered, then the blocks. -/
def downloadSteps : List WorldStep :=
  [.tick promptInput, .answer true 0, .deliver true 0, .tick promptInput, .answer true 1,
    .deliver true 1]

theorem downloadStep_tick (lead : NodeId) (w : SyncWorld) (i : ChainSyncInput) :
    DownloadStep lead w (.tick i) := ⟨fun _ => by simp, trivial⟩

theorem downloadStep_answer (lead : NodeId) (w : SyncWorld) (overflowChecks : Bool) (index : ℕ) :
    DownloadStep lead w (.answer overflowChecks index) := ⟨fun _ => by simp, trivial⟩

theorem downloadStep_deliver (lead : NodeId) (w : SyncWorld) (overflowChecks : Bool) (index : ℕ)
    (h : w.responses[index]?.map Prod.fst = some lead) :
    DownloadStep lead w (.deliver overflowChecks index) := by
  refine ⟨fun _ => by simp, ?_⟩
  intro id response hindex _
  rw [hindex] at h
  simpa using Option.some.inj h

theorem download_follows_lead_of_three :
    (Run.exec SyncWorld.step downloadWorld downloadSteps).own <+:
        (Run.exec SyncWorld.step downloadWorld downloadSteps).chain leadNode ∧
      (Run.exec SyncWorld.step downloadWorld downloadSteps).node.synchronizer.status =
        .synchronized := by
  have hown : downloadWorld.own = [genesisBlock] := by
    simp only [SyncWorld.own, downloadWorld]
    exact firstStore_holds.chainOf_eq
  have hchain : downloadWorld.chain leadNode = [genesisBlock, secondBlock, thirdBlock] := by
    simp only [SyncWorld.chain, downloadWorld]
    exact thirdStore_holds.chainOf_eq
  have hrun : Run.Allowed SyncWorld.step (DownloadStep leadNode) downloadWorld downloadSteps :=
    ⟨downloadStep_tick _ _ _, downloadStep_answer _ _ _ _,
      downloadStep_deliver _ _ _ _ (by decide +kernel), downloadStep_tick _ _ _,
      downloadStep_answer _ _ _ _, downloadStep_deliver _ _ _ _ (by decide +kernel), trivial⟩
  refine ⟨?_, by decide +kernel⟩
  refine (download_follows_lead .default downloadCell leadNode downloadWorld (by
    simp only [downloadWorld]) (by simp only [downloadWorld]) (by simp only [downloadWorld]) ?_ ?_
    ?_ ?_ downloadSteps hrun).1
  · rw [hown]
    simp only [downloadWorld]
    exact firstStore_holds
  · rw [hchain]
    simp only [downloadWorld]
    exact thirdStore_holds
  · rw [hchain]
    decide +kernel
  · rw [hown, hchain]
    exact List.prefix_append _ _

end Samples

end Exocore.Engine
