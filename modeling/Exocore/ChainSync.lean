import Mathlib.Data.List.AList
import Exocore.CoreAction
import Exocore.ChainSyncMeta

/-! The chain synchronizer: what is known of the chains of the other nodes, the election of a
lead node, and the download of its blocks. -/
namespace Exocore.Engine

open Exocore.Core Exocore.Chain

inductive NodeStatus where
  | unknown
  | synchronized
deriving DecidableEq

/-- The request tracker is an input of the calls that read it. -/
structure NodeSyncInfo where
  nodeId : NodeId
  lastCommonBlock : Option BlockMetadata
  lastCommonIsKnown : Bool
  lastKnownBlock : Option BlockMetadata
deriving DecidableEq

namespace NodeSyncInfo

def new (nodeId : NodeId) : NodeSyncInfo := ⟨nodeId, none, false, none⟩

def status (info : NodeSyncInfo) : NodeStatus :=
  if info.lastCommonIsKnown then .synchronized else .unknown

/-- The info after `check_status`, its status is the result of the check. -/
def checkStatus (info : NodeSyncInfo) (config : ChainSyncConfig) (responseFailureCount : ℕ) :
    NodeSyncInfo :=
  let isFailed := responseFailureCount ≥ config.metaSyncMaxFailures
  { info with lastCommonIsKnown := info.lastCommonIsKnown && !decide isFailed }

def chainFullyDownloaded (info : NodeSyncInfo) : Bool :=
  info.lastKnownBlock.isSome &&
    info.lastKnownBlock.map BlockMetadata.offset = info.lastCommonBlock.map BlockMetadata.offset

def commonBlocksHeightDelta (info : NodeSyncInfo) (overflowChecks : Bool) :
    Res EngineError (Option ℕ) :=
  match info.lastCommonBlock, info.lastKnownBlock with
  | some common, some known => do
    let delta ← wordSub overflowChecks known.height common.height
    pure (some delta)
  | _, _ => .ok none

def isDivergent {CS : Type} [ChainStore CS] (info : NodeSyncInfo) (localStore : CS) :
    Res EngineError Bool :=
  match info.lastCommonBlock with
  | some common => match info.lastKnownBlock with
    | none => .ok false
    | some known => do
      let lastLocalBlock ← liftError .chainStore (ChainStore.getLastBlock localStore)
      let lastLocalBlock ← orError
        (.other "Expected a common block to be in stored since it had previously been")
        lastLocalBlock
      let lastLocalHeight ← liftError .block lastLocalBlock.getHeight
      pure (lastLocalHeight > common.height ∧ known.height > common.height)
  | none => do
    let lastLocalBlock ← liftError .chainStore (ChainStore.getLastBlock localStore)
    pure (lastLocalBlock.isSome && info.lastKnownBlock.isSome)

end NodeSyncInfo

inductive Status where
  | unknown
  | downloading
  | synchronized
deriving DecidableEq

/-- The infos are keyed by the ids of their nodes. -/
structure ChainSynchronizer where
  config : ChainSyncConfig
  cell : Cell
  nodesInfo : AList fun _ : NodeId => NodeSyncInfo
  status : Status
  leader : Option NodeId

/-- What a call gets from outside: the request trackers of the nodes when they are asked, the
order of the hash map, and how an integer overflow is compiled. -/
structure ChainSyncInput where
  responseFailureCount : NodeId → ℕ
  canDownload : Bool
  canSendRequest : NodeId → Bool
  infosOrder : Sorting.ValuesOrder NodeSyncInfo
  overflowChecks : Bool

/-- What the calls of the chain synchronizer borrow mutably. -/
structure ChainSyncState (CS : Type) where
  synchronizer : ChainSynchronizer
  syncContext : SyncContext
  store : CS

namespace ChainSynchronizer

def new (config : ChainSyncConfig) (cell : Cell) : ChainSynchronizer :=
  ⟨config, cell, ∅, .unknown, none⟩

def isLeader (s : ChainSynchronizer) (nodeId : NodeId) : Bool := s.leader = some nodeId

def imLeader (s : ChainSynchronizer) : Bool := s.isLeader s.cell.localNode

def resetState (s : ChainSynchronizer) : ChainSynchronizer :=
  { s with status := .unknown, nodesInfo := ∅, leader := none }

def setNodeInfo (s : ChainSynchronizer) (info : NodeSyncInfo) : ChainSynchronizer :=
  { s with nodesInfo := s.nodesInfo.insert info.nodeId info }

/-- The info that `get_or_create_node_info_mut` gives. -/
def nodeInfo (s : ChainSynchronizer) (nodeId : NodeId) : NodeSyncInfo :=
  (s.nodesInfo.lookup nodeId).getD (.new nodeId)

/-- The synchronizer it leaves. -/
def createNodeInfo (s : ChainSynchronizer) (nodeId : NodeId) : ChainSynchronizer :=
  if nodeId ∈ s.nodesInfo then s
  else { s with nodesInfo := s.nodesInfo.insert nodeId (.new nodeId) }

def otherChainNodes (s : ChainSynchronizer) : List NodeId :=
  ((s.cell.withRole .chain).filter fun n => n.id ≠ s.cell.localNode).map CellNode.id

/-- The loop of `check_nodes_status`, with the number of nodes that are synchronized. -/
def checkStatuses (i : ChainSyncInput) :
    List CellNode → ℕ → ChainSynchronizer → ℕ × ChainSynchronizer
  | [], count, s => (count, s)
  | node :: rest, count, s =>
    if node.id = s.cell.localNode then checkStatuses i rest (count + 1) s
    else
      let s := s.createNodeInfo node.id
      let info := (s.nodeInfo node.id).checkStatus s.config (i.responseFailureCount node.id)
      checkStatuses i rest (if info.status = .synchronized then count + 1 else count)
        (s.setNodeInfo info)

def checkNodesStatus (i : ChainSyncInput) (s : ChainSynchronizer) : ℕ × ChainSynchronizer :=
  checkStatuses i (s.cell.withRole .chain) 0 s

def createSyncRequest (info : NodeSyncInfo) (details : RequestedDetails) (toOffset : Option ℕ) :
    ChainSyncRequest :=
  -- blocks are asked for behind the common one, which is here already
  let fromOffset := match info.lastCommonBlock with
    | none => 0
    | some b => if details = .headers then b.offset else b.nextOffset
  ⟨fromOffset, toOffset.getD 0, details⟩

def createSyncResponseForMetadata (fromOffset toOffset : ℕ) (blocksMetadata : List BlockMetadata) :
    ChainSyncResponse :=
  ⟨fromOffset, toOffset, .list (blocksMetadata.map BlockMetadata.copyIntoBuilder), .null⟩

/-- Blocks until their size reaches the maximum, with the block that reaches it. -/
def takeBlocks (maxSize : ℕ) : ℕ → List (Res ChainError DataBlock) → Res ChainError (List DataBlock)
  | _, [] => .ok []
  | _, .error e :: _ => .error e
  | dataSize, .ok block :: rest =>
    if dataSize < maxSize then do
      let blocks ← takeBlocks maxSize (dataSize + block.totalSize) rest
      pure (block :: blocks)
    else .ok []

def createSyncResponseForBlocks (config : ChainSyncConfig) (fromOffset toOffset : ℕ)
    (blocksIter : List (Res ChainError DataBlock)) : Res EngineError ChainSyncResponse := do
  let blocks ← liftError .chainStore (takeBlocks config.blocksMaxSendSize 0 blocksIter)
  pure ⟨fromOffset, toOffset, .null, .ofList (blocks.map fun b => some b.asDataVec)⟩

end ChainSynchronizer

/-- The variables of the loop over the headers of a response. -/
structure MetadataScan where
  info : NodeSyncInfo
  hasNewCommonBlock : Bool
  firstNonCommonBlock : Option ℕ
  lastBlockHeight : Option ℕ
  allContiguous : Bool

def isLatestOffset (block : Option BlockMetadata) (offset : ℕ) : Bool :=
  match block with
  | none => true
  | some b => b.offset < offset

section Calls
variable [Crates] {CS : Type} [ChainRangeStore CS]

namespace MetadataScan

/-- Heights that do not follow each other mean that blocks are missing in between. -/
def checkContiguous (overflowChecks : Bool) (height : ℕ) : Action MetadataScan EngineError Unit :=
  fun scan => match scan.lastBlockHeight with
    | none => (.ok (), { scan with lastBlockHeight := some height })
    | some last => match wordSucc overflowChecks last with
      | .error e => (.error e, scan)
      | .ok expected => (.ok (), { scan with
          allContiguous := scan.allContiguous && height = expected
          lastBlockHeight := some height })

/-- A header is compared with the local block at its offset, up to the first that differs. -/
def checkCommon (store : CS) (header : BlockPartialHeader) :
    Action MetadataScan EngineError Unit := fun scan =>
  if scan.firstNonCommonBlock.isSome then (.ok (), scan)
  else match ChainStore.getBlock store header.offset with
    | .error .panic => (.error .panic, scan)
    | .error (.error e) =>
      if e.isFatal then (.error (.error (.chainStore e)), scan)
      else (.ok (), { scan with firstNonCommonBlock := some header.offset })
    | .ok localBlock => match header.blockHash with
      | none => (.error (.error .serialization), scan)
      | some blockHash =>
        if blockHash = localBlock.header.multihashBytes then
          if isLatestOffset scan.info.lastCommonBlock header.offset then
            match BlockMetadata.fromBlockPartialMetadataReader header with
            | .error e => (.error e, scan)
            | .ok block => (.ok (), { scan with
                info := { scan.info with lastCommonBlock := some block }
                hasNewCommonBlock := true })
          else (.ok (), scan)
        else (.ok (), { scan with firstNonCommonBlock := some header.offset })

def checkKnown (header : BlockPartialHeader) : Action MetadataScan EngineError Unit := fun scan =>
  if isLatestOffset scan.info.lastKnownBlock header.offset then
    match BlockMetadata.fromBlockPartialMetadataReader header with
    | .error e => (.error e, scan)
    | .ok block => (.ok (), { scan with info := { scan.info with lastKnownBlock := some block } })
  else (.ok (), scan)

def scanHeaders (overflowChecks : Bool) (store : CS) :
    List BlockPartialHeader → Action MetadataScan EngineError Unit
  | [] => pure ()
  | header :: rest => do
    checkContiguous overflowChecks header.height
    checkCommon store header
    checkKnown header
    scanHeaders overflowChecks store rest

end MetadataScan

namespace ChainSynchronizer

/-- A change of the synchronizer alone. -/
def update (f : ChainSynchronizer → ChainSynchronizer) :
    Action (ChainSyncState CS) EngineError Unit := fun s =>
  (.ok (), { s with synchronizer := f s.synchronizer })

def getOrCreateNodeInfo (nodeId : NodeId) : Action (ChainSyncState CS) EngineError NodeSyncInfo :=
  fun s =>
    let synchronizer := s.synchronizer.createNodeInfo nodeId
    (.ok (synchronizer.nodeInfo nodeId), { s with synchronizer := synchronizer })

def pushRequest (nodeId : NodeId) (request : ChainSyncRequest) :
    Action (ChainSyncState CS) EngineError Unit := fun s =>
  (.ok (), { s with syncContext := s.syncContext.pushChainSyncRequest nodeId request })

def pushResponse (nodeId : NodeId) (response : ChainSyncResponse) :
    Action (ChainSyncState CS) EngineError Unit := fun s =>
  (.ok (), { s with syncContext := s.syncContext.pushChainSyncResponse nodeId response })

def pushChainEvent (offset : ℕ) : Action (ChainSyncState CS) EngineError Unit := fun s =>
  (.ok (), { s with syncContext := s.syncContext.pushEvent (.newChainBlock offset) })

def writeChainBlock (block : DataBlock) : Action (ChainSyncState CS) EngineError Unit := fun s =>
  match ChainStore.writeBlock s.store block with
  | (.ok _, store) => (.ok (), { s with store := store })
  | (.error e, store) => (.error (e.map .chainStore), { s with store := store })

/-- The last block of the local chain, which the calls read first. -/
def lastLocalBlock : Action (ChainSyncState CS) EngineError (Option DataBlock) := fun s =>
  (liftError .chainStore (ChainStore.getLastBlock s.store), s)

def synchronizeNodesMetadata (i : ChainSyncInput) :
    List NodeId → Action (ChainSyncState CS) EngineError Unit
  | [] => pure ()
  | nodeId :: rest => do
    let info ← getOrCreateNodeInfo nodeId
    if i.canSendRequest nodeId then
      pushRequest nodeId (createSyncRequest info .headers none)
    synchronizeNodesMetadata i rest

/-- The last block of a local chain from which the node is divergent. -/
def divergedBlock (info : NodeSyncInfo) (store : CS) : Res EngineError (Option DataBlock) := do
  let isDivergent ← info.isDivergent store
  if isDivergent then liftError .chainStore (ChainStore.getLastBlock store) else pure none

def initiateDownload (i : ChainSyncInput) (leaderNodeId : NodeId) (info : NodeSyncInfo) :
    Action (ChainSyncState CS) EngineError Unit := do
  let s ← Action.get
  if !i.canDownload then pure ()
  -- the message names the local node
  else if (s.synchronizer.cell.get leaderNodeId).isNone then
    Action.lift (.error (.error (.chainSync (.other
      s!"Couldn't find leader node {s.synchronizer.cell.localNode.str} in nodes list"))))
  else
    let toOffset := (info.lastKnownBlock.map BlockMetadata.offset).getD 0
    pushRequest leaderNodeId (createSyncRequest info .blocks (some toOffset))
    update fun s => { s with status := .downloading }

def startLeaderDownloading (i : ChainSyncInput) : Action (ChainSyncState CS) EngineError Unit := do
  let s ← Action.get
  if s.synchronizer.imLeader then
    update fun s => { s with status := .synchronized }
  else match s.synchronizer.leader with
    | none => pure ()
    | some leaderNodeId =>
      let info ← getOrCreateNodeInfo leaderNodeId
      if info.chainFullyDownloaded then
        update fun s => { s with status := .synchronized }
      else
        let diverged ← Action.lift (divergedBlock info s.store)
        if diverged.isSome then
          Action.lift (.error (.error (.chainSync
            (.diverged s!"Diverged from leader {leaderNodeId.str}"))))
        else initiateDownload i leaderNodeId info

/-- The nodes that may lead: their last block is known, and the last one in common too. -/
def leaderCandidate (info : NodeSyncInfo) : Option (NodeSyncInfo × ℕ) :=
  match info.lastKnownBlock with
  | some known => if info.status = .synchronized then some (info, known.height) else none
  | none => none

def findMaybeLeader (i : ChainSyncInput) (s : ChainSynchronizer) : Option (NodeSyncInfo × ℕ) :=
  Sorting.maxByKey Prod.snd
    ((i.infosOrder.order (s.nodesInfo.entries.map Sigma.snd)).filterMap leaderCandidate)

/-- The node with the highest chain, which the local node is only where it is strictly higher. -/
def electLeader (localNode : NodeId) (lastLocalBlock : Option DataBlock) :
    Option (NodeSyncInfo × ℕ) → Res EngineError (Option NodeId)
  | some (info, nodeHeight) => match lastLocalBlock with
    | some block => do
      let height ← liftError .block block.getHeight
      pure (some (if height > nodeHeight then localNode else info.nodeId))
    | none => .ok (some info.nodeId)
  | none => .ok (lastLocalBlock.map fun _ => localNode)

def findLeaderNode (i : ChainSyncInput) : Action (ChainSyncState CS) EngineError Unit := do
  let s ← Action.get
  let lastBlock ← lastLocalBlock
  let leader ← Action.lift
    (electLeader s.synchronizer.cell.localNode lastBlock (findMaybeLeader i s.synchronizer))
  update fun s => { s with leader := leader }

/-- The number of nodes that are not divergent, the local one among them. -/
def countNonDivergent : List NodeId → ℕ → Action (ChainSyncState CS) EngineError ℕ
  | [], count => pure count
  | nodeId :: rest, count => do
    let info ← getOrCreateNodeInfo nodeId
    let s ← Action.get
    let isDivergent ← Action.lift (info.isDivergent s.store)
    countNonDivergent rest (if isDivergent then count else count + 1)

/-- The end of a synchronized state without a majority of the nodes. -/
def loseMajority (majority : Bool) (s : ChainSynchronizer) : ChainSynchronizer :=
  if s.status = .synchronized ∧ !majority then { s with status := .unknown, leader := none } else s

/-- The end of a synchronized state whose lead node is out of reach, or too far ahead. -/
def loseLeader (i : ChainSyncInput) : Action (ChainSyncState CS) EngineError Unit := do
  let s ← Action.get
  if s.synchronizer.status = .synchronized ∧ !s.synchronizer.imLeader then
    match s.synchronizer.leader with
    | none => pure ()
    | some leaderNodeId =>
      let info ← getOrCreateNodeInfo leaderNodeId
      let delta ← Action.lift (info.commonBlocksHeightDelta i.overflowChecks)
      let lostLeadership := info.status ≠ .synchronized ∨
        delta.getD 0 > s.synchronizer.config.maxLeaderCommonBlockHeightDelta
      if lostLeadership then
        update fun s => { s with leader := none, status := .unknown }
      else pure ()
  else pure ()

/-- The part of a tick that is not taken in a synchronized state. -/
def electAndDownload (i : ChainSyncInput) : Action (ChainSyncState CS) EngineError Unit := do
  let s ← Action.get
  let others := s.synchronizer.otherChainNodes
  let nbNonDivergent ← countNonDivergent others 1
  let nbTotal := others.length + 1
  if s.synchronizer.cell.hasQuorum nbNonDivergent (some .chain) then
    if s.synchronizer.leader.isNone then findLeaderNode i
    startLeaderDownloading i
  else
    Action.lift (.error (.error (.chainSync (.diverged
      (s!"Our local chain is divergent with a majority of nodes (only {nbNonDivergent} " ++
        s!"non divergent out of {nbTotal})")))))

def tick (i : ChainSyncInput) : Action (ChainSyncState CS) EngineError Unit := do
  let s ← Action.get
  let (nbNodesMetadataSync, synchronizer) := checkNodesStatus i s.synchronizer
  update fun _ => synchronizer
  let majority := synchronizer.cell.hasQuorum nbNodesMetadataSync (some .chain)
  let _ ← lastLocalBlock
  update (loseMajority majority)
  loseLeader i
  let s ← Action.get
  if s.synchronizer.status ≠ .synchronized ∧ majority then electAndDownload i
  synchronizeNodesMetadata i s.synchronizer.otherChainNodes

/-- An offset of zero in a request is none. -/
def offsetOpt (offset : ℕ) : Option ℕ := if offset ≠ 0 then some offset else none

def inBlocksRange (toOffset : ℕ) : Res ChainError DataBlock → Bool
  | .ok b => toOffset = 0 ∨ b.offset ≤ toOffset
  | .error _ => true

/-- A request that is not readable is none. -/
def handleSyncRequest (overflowChecks : Bool) (fromNode : NodeId)
    (request : Option ChainSyncRequest) : Action (ChainSyncState CS) EngineError Unit := do
  let request ← Action.lift (orError .serialization request)
  match request.requestedDetails with
  | .notInSchema code => Action.lift (.error (.error (.serializationNotInSchema code)))
  | .headers =>
    let _ ← getOrCreateNodeInfo fromNode
    let s ← Action.get
    let blocksMetadata ← Action.lift (BlockMetadata.fromStore overflowChecks s.store
      (offsetOpt request.fromOffset) (offsetOpt request.toOffset) s.synchronizer.config)
    pushResponse fromNode
      (createSyncResponseForMetadata request.fromOffset request.toOffset blocksMetadata)
  | .blocks =>
    let _ ← getOrCreateNodeInfo fromNode
    let s ← Action.get
    let blocksIter := (ChainRangeStore.blocksIter s.store request.fromOffset).filter
      (inBlocksRange request.toOffset)
    let response ← Action.lift (createSyncResponseForBlocks s.synchronizer.config
      request.fromOffset request.toOffset blocksIter)
    pushResponse fromNode response

def handleSyncResponseMetadata (overflowChecks : Bool) (fromNode : NodeId)
    (response : ChainSyncResponse) : Action (ChainSyncState CS) EngineError Unit := do
  let info ← getOrCreateNodeInfo fromNode
  let headers ← Action.lift response.headers.get
  let s ← Action.get
  let (result, scan) :=
    MetadataScan.scanHeaders overflowChecks s.store headers ⟨info, false, none, none, true⟩
  -- the info is changed in place, also before an error
  update fun s => s.setNodeInfo scan.info
  Action.lift result
  if scan.hasNewCommonBlock ∧ !scan.allContiguous then
    pushRequest scan.info.nodeId (createSyncRequest scan.info .headers scan.firstNonCommonBlock)
  else if !scan.info.lastCommonIsKnown then
    update fun s => s.setNodeInfo { scan.info with lastCommonIsKnown := true }

/-- The blocks of a response are written one by one, each at the end of the local chain. -/
def writeIncomingBlocks : List (Option Bytes) → Option BlockMetadata →
    Action (ChainSyncState CS) EngineError (Option BlockMetadata)
  | [], lastLocalBlock => pure lastLocalBlock
  | data :: rest, lastLocalBlock => do
    let data ← Action.lift (orError .serialization data)
    let block ← Action.lift (liftError .block (DataBlock.new .ref data))
    let nextLocalOffset := (lastLocalBlock.map BlockMetadata.nextOffset).getD 0
    if block.offset = nextLocalOffset then
      pushChainEvent block.offset
      writeChainBlock block
      let newBlock ← Action.lift (BlockMetadata.fromStoredBlock block)
      writeIncomingBlocks rest (some newBlock)
    else
      Action.lift (.error (.error (.chainSync (.invalidSyncResponse
        ("Got a block with data at an invalid offset. " ++
          s!"expected_offset={nextLocalOffset} block_offset={block.offset}")))))

def lastLocalMetadata (store : CS) : Res EngineError (Option BlockMetadata) := do
  let lastBlock ← liftError .chainStore (ChainStore.getLastBlock store)
  match lastBlock with
  | none => pure none
  | some block =>
    let blockMeta ← BlockMetadata.fromStoredBlock block
    pure (some blockMeta)

/-- The end of a response with blocks, once they are written: the download is done, or goes
on with a further request. -/
def continueDownload (info : NodeSyncInfo) : Action (ChainSyncState CS) EngineError Unit := do
  update fun s => s.setNodeInfo info
  if info.chainFullyDownloaded then
    update fun s => { s with status := .synchronized }
  else
    let toOffset := (info.lastKnownBlock.map BlockMetadata.offset).getD 0
    pushRequest info.nodeId (createSyncRequest info .blocks (some toOffset))

def handleSyncResponseBlocks (fromNode : NodeId) (response : ChainSyncResponse) :
    Action (ChainSyncState CS) EngineError Unit := do
  let s ← Action.get
  if !s.synchronizer.isLeader fromNode then
    Action.lift (.error (.error (.other s!"Got data from a non-lead node {fromNode.str}")))
  else
    let info ← getOrCreateNodeInfo fromNode
    let lastLocalBlock ← Action.lift (lastLocalMetadata s.store)
    let blocks ← Action.lift response.blocks.get
    let lastLocalBlock ← writeIncomingBlocks blocks lastLocalBlock
    continueDownload { info with lastCommonBlock := lastLocalBlock }

/-- A response that is not readable is none. -/
def handleSyncResponse (overflowChecks : Bool) (fromNode : NodeId)
    (response : Option ChainSyncResponse) : Action (ChainSyncState CS) EngineError Unit := do
  let response ← Action.lift (orError .serialization response)
  if response.blocks.has then handleSyncResponseBlocks fromNode response
  else if response.headers.has then
    handleSyncResponseMetadata overflowChecks fromNode response
  let _ ← getOrCreateNodeInfo fromNode

end ChainSynchronizer

end Calls

end Exocore.Engine
