import Exocore.LibSort
import Exocore.LibSortedMap
import Exocore.TransportHandler

/-! The behaviour of the transport: the peers that it connects to, the messages that wait for a
connection, and what it asks of the swarm. -/
namespace Exocore.Transport

open SortedMap

abbrev PeerId := ℕ

abbrev ConnectionId := ℕ

abbrev Multiaddr := String

structure Node where
  peerId : PeerId
  p2pAddresses : List Multiaddr

inductive PeerStatus where
  | connected
  | disconnected
deriving DecidableEq

/-- The handler that is notified: that of a connection, or any. -/
inductive NotifyHandler where
  | one (connection : ConnectionId)
  | any
deriving DecidableEq

def NotifyHandler.ofConnection : Option ConnectionId → NotifyHandler
  | some connection => .one connection
  | none => .any

inductive ExocoreBehaviourEvent where
  | message (source : PeerId) (connection : ConnectionId) (message : MessageData)
  | peerStatus (peerId : PeerId) (status : PeerStatus)
deriving DecidableEq

/-- All connections of a peer are closed where none is given. -/
inductive BehaviourAction where
  | generateEvent (event : ExocoreBehaviourEvent)
  | notifyHandler (peerId : PeerId) (handler : NotifyHandler) (event : MessageData)
  | dial (peerId : PeerId)
  | closeConnection (peerId : PeerId) (connection : Option ConnectionId)
deriving DecidableEq

def maxPeerQueue : ℕ := 20

/-- In milliseconds, as all times are. -/
def defaultDialingMessageTimeout : ℕ := 5000

/-- A message for the handlers of the peer in whose queue it is. -/
structure QueuedPeerEvent where
  handler : NotifyHandler
  event : MessageData
  expiration : Option ℕ
deriving DecidableEq

def QueuedPeerEvent.hasExpired (e : QueuedPeerEvent) (now : ℕ) : Bool :=
  match e.expiration with
  | some expiration => expiration ≤ now
  | none => false

/-- The events of a queue that have not expired. The clock is read for each of them. -/
def unexpired (clock : ℕ → ℕ) : List QueuedPeerEvent → List QueuedPeerEvent
  | [] => []
  | e :: rest =>
    if e.hasExpired (clock 0) then unexpired (fun i => clock (i + 1)) rest
    else e :: unexpired (fun i => clock (i + 1)) rest

structure Peer where
  addresses : List Multiaddr
  tempQueue : List QueuedPeerEvent
  status : PeerStatus
  lastDial : Option ℕ

structure ExocoreBehaviour where
  actions : List BehaviourAction
  peers : Map PeerId Peer
  lastRedialCheck : Option ℕ

namespace ExocoreBehaviour

def default : ExocoreBehaviour := ⟨[], .empty, none⟩

def push (b : ExocoreBehaviour) (actions : List BehaviourAction) : ExocoreBehaviour :=
  { b with actions := b.actions ++ actions }

def setPeer (b : ExocoreBehaviour) (peerId : PeerId) (peer : Peer) : ExocoreBehaviour :=
  { b with peers := b.peers.insert peerId peer }

/-- More than these milliseconds have passed since, or it never was. -/
def elapsed (since : Option ℕ) (now limit : ℕ) : Bool :=
  match since with
  | none => true
  | some since => now - since > limit

def dialPeer (now : ℕ) (b : ExocoreBehaviour) (peerId : PeerId) (forceExpire : Bool) :
    ExocoreBehaviour :=
  match b.peers.get peerId with
  | none => b
  | some peer =>
    if peer.addresses.isEmpty then b
    else if peer.status ≠ .disconnected then b
    else if !elapsed peer.lastDial now 30000 && !forceExpire then b
    else (b.setPeer peerId { peer with lastDial := some now }).push [.dial peerId]

/-- The queue is trimmed from its front. -/
def trim (queue : List QueuedPeerEvent) : List QueuedPeerEvent :=
  queue.drop (queue.length - maxPeerQueue)

def sendMessage (now : ℕ) (b : ExocoreBehaviour) (peerId : PeerId) (expiration : Option ℕ)
    (connection : Option ConnectionId) (msg : MessageData) : ExocoreBehaviour :=
  let handler := NotifyHandler.ofConnection connection
  match b.peers.get peerId with
  | none => b
  | some peer =>
    if peer.status = .connected then b.push [.notifyHandler peerId handler msg]
    else
      let expiration := expiration.getD (now + defaultDialingMessageTimeout)
      let queue := trim (peer.tempQueue ++ [⟨handler, msg, some expiration⟩])
      (b.setPeer peerId { peer with tempQueue := queue }).dialPeer now peerId false

def addNode (now : ℕ) (b : ExocoreBehaviour) (node : Node) : ExocoreBehaviour :=
  match b.peers.get node.peerId with
  | some currentPeer =>
    if currentPeer.addresses = node.p2pAddresses then b
    else (b.setPeer node.peerId { currentPeer with
      addresses := node.p2pAddresses }).dialPeer now node.peerId true
  | none => (b.setPeer node.peerId
      ⟨node.p2pAddresses, [], .disconnected, none⟩).dialPeer now node.peerId true

def markPeerConnected (clock : ℕ → ℕ) (b : ExocoreBehaviour) (peerId : PeerId) :
    ExocoreBehaviour :=
  match b.peers.get peerId with
  | none => b
  | some peer =>
    if peer.status = .connected then b
    else (b.setPeer peerId { peer with status := .connected, tempQueue := [] }).push
      (.generateEvent (.peerStatus peerId .connected) ::
        (unexpired clock peer.tempQueue).map fun e => .notifyHandler peerId e.handler e.event)

def reportPingSuccess (clock : ℕ → ℕ) (b : ExocoreBehaviour) (peerId : PeerId) :
    ExocoreBehaviour :=
  match b.peers.get peerId with
  | none => b
  | some _ => b.markPeerConnected clock peerId

def resetPeers (hash : Sorting.HashOrder) (b : ExocoreBehaviour) : ExocoreBehaviour :=
  { b with
    peers := b.peers.mapValues fun _ peer => { peer with lastDial := none }
    actions := b.actions ++ (hash.order b.peers.keys).map fun peerId =>
      .closeConnection peerId none }

def handleConnectionClosed (now : ℕ) (clock : ℕ → ℕ) (b : ExocoreBehaviour) (peerId : PeerId) :
    ExocoreBehaviour :=
  match b.peers.get peerId with
  | none => b
  | some peer =>
    ((b.setPeer peerId { peer with
      status := .disconnected
      tempQueue := unexpired clock peer.tempQueue }).push
        [.generateEvent (.peerStatus peerId .disconnected)]).dialPeer now peerId true

def handleEstablishedInboundConnection (clock : ℕ → ℕ) (b : ExocoreBehaviour) (peer : PeerId) :
    ExocoreBehaviour := b.markPeerConnected clock peer

def handleEstablishedOutboundConnection (clock : ℕ → ℕ) (b : ExocoreBehaviour) (peer : PeerId) :
    ExocoreBehaviour := b.markPeerConnected clock peer

def onConnectionHandlerEvent (b : ExocoreBehaviour) (peerId : PeerId) (connection : ConnectionId) :
    Except IoError MessageData → ExocoreBehaviour
  | .ok event => match b.peers.get peerId with
    | none => b
    | some _ => b.push [.generateEvent (.message peerId connection event)]
  | .error _ => b.push [.closeConnection peerId (some connection)]

/-- The peers that are dialed again, with the time of the check. -/
def redial (now : ℕ) (hash : Sorting.HashOrder) (b : ExocoreBehaviour) : ExocoreBehaviour :=
  if elapsed b.lastRedialCheck now 5000 then
    (hash.order b.peers.keys).foldl (fun b peerId => b.dialPeer now peerId false)
      { b with lastRedialCheck := some now }
  else b

/-- None where the call returns `Pending`. -/
def poll (now : ℕ) (hash : Sorting.HashOrder) (b : ExocoreBehaviour) :
    Option BehaviourAction × ExocoreBehaviour :=
  let b := b.redial now hash
  match b.actions with
  | [] => (none, b)
  | action :: actions => (some action, { b with actions := actions })

end ExocoreBehaviour

/-- The behaviour in its swarm: the connections that are open, and how many were ever opened, the
messages that were to be sent, and the actions that `poll` has given out. -/
structure Swarm where
  behaviour : ExocoreBehaviour
  connections : List (ConnectionId × PeerId)
  opened : ℕ
  given : List (PeerId × MessageData)
  emitted : List BehaviourAction

inductive SwarmEvent where
  | addNode (now : ℕ) (node : Node)
  | establishedInbound (clock : ℕ → ℕ) (peer : PeerId)
  | establishedOutbound (clock : ℕ → ℕ) (peer : PeerId)
  | closed (now : ℕ) (clock : ℕ → ℕ) (connection : ConnectionId)
  | pingSuccess (clock : ℕ → ℕ) (connection : ConnectionId)
  | send (now : ℕ) (peer : PeerId) (expiration : Option ℕ) (connection : Option ConnectionId)
    (msg : MessageData)
  | resetPeers (hash : Sorting.HashOrder)
  | handlerEvent (connection : ConnectionId) (event : Except IoError MessageData)
  | poll (now : ℕ) (hash : Sorting.HashOrder)

namespace Swarm

def new : Swarm := ⟨.default, [], 0, [], []⟩

/-- The peer of a connection that is open. -/
def peerOf (s : Swarm) (connection : ConnectionId) : Option PeerId :=
  (s.connections.find? fun c => c.1 = connection).map Prod.snd

/-- What happens on a connection happens while it is open. -/
def step (s : Swarm) : SwarmEvent → Swarm
  | .addNode now node => { s with behaviour := s.behaviour.addNode now node }
  | .establishedInbound clock peer =>
    { s with
      behaviour := s.behaviour.handleEstablishedInboundConnection clock peer
      connections := s.connections ++ [(s.opened, peer)]
      opened := s.opened + 1 }
  | .establishedOutbound clock peer =>
    { s with
      behaviour := s.behaviour.handleEstablishedOutboundConnection clock peer
      connections := s.connections ++ [(s.opened, peer)]
      opened := s.opened + 1 }
  | .closed now clock connection => match s.peerOf connection with
    | none => s
    | some peer =>
      { s with
        behaviour := s.behaviour.handleConnectionClosed now clock peer
        connections := s.connections.filter fun c => c.1 ≠ connection }
  | .pingSuccess clock connection => match s.peerOf connection with
    | none => s
    | some peer => { s with behaviour := s.behaviour.reportPingSuccess clock peer }
  | .send now peer expiration connection msg =>
    { s with
      behaviour := s.behaviour.sendMessage now peer expiration connection msg
      given := s.given ++ [(peer, msg)] }
  | .resetPeers hash => { s with behaviour := s.behaviour.resetPeers hash }
  | .handlerEvent connection event => match s.peerOf connection with
    | none => s
    | some peer =>
      { s with behaviour := s.behaviour.onConnectionHandlerEvent peer connection event }
  | .poll now hash =>
    { s with
      behaviour := (s.behaviour.poll now hash).2
      emitted := s.emitted ++ (s.behaviour.poll now hash).1.toList }

end Swarm

/-- The statuses of a peer that these actions tell of. -/
def statusEvents (peerId : PeerId) (actions : List BehaviourAction) : List PeerStatus :=
  actions.filterMap fun
    | .generateEvent (.peerStatus p status) => if p = peerId then some status else none
    | _ => none

/-- The messages that these actions hand to the connection handlers of a peer. -/
def handed (peerId : PeerId) (actions : List BehaviourAction) : List MessageData :=
  actions.filterMap fun
    | .notifyHandler p _ event => if p = peerId then some event else none
    | _ => none

/-- The messages that were to be sent to a peer. -/
def givenTo (peerId : PeerId) (given : List (PeerId × MessageData)) : List MessageData :=
  given.filterMap fun (p, msg) => if p = peerId then some msg else none

namespace Swarm

/-- A connection to the peer is open. -/
def Open (s : Swarm) (peerId : PeerId) : Prop := ∃ c ∈ s.connections, c.2 = peerId

/-- What is promised of the peers. A peer of which no status was told yet is disconnected. -/
structure FollowsConnections (s : Swarm) : Prop where
  status : ∀ peerId peer, s.behaviour.peers.get peerId = some peer →
    (peer.status = .connected ↔ s.Open peerId)
  lastEvent : ∀ peerId peer, s.behaviour.peers.get peerId = some peer →
    (statusEvents peerId (s.emitted ++ s.behaviour.actions)).getLast?.getD .disconnected =
      peer.status
  emptyQueue : ∀ peerId peer, s.behaviour.peers.get peerId = some peer →
    peer.status = .connected → peer.tempQueue = []
  boundedQueue : ∀ peerId peer, s.behaviour.peers.get peerId = some peer →
    peer.tempQueue.length ≤ maxPeerQueue
  handed : ∀ peerId, (handed peerId s.emitted).Sublist (givenTo peerId s.given)

/-- A connection that is closed is the last one to its peer, if the peer is known, and a new peer is
added while no connection to it is open. -/
def Careful (s : Swarm) : SwarmEvent → Prop
  | .addNode _ node => s.behaviour.peers.get node.peerId = none → ¬ s.Open node.peerId
  | .closed _ _ connection => ∀ peerId peer, s.peerOf connection = some peerId →
    s.behaviour.peers.get peerId = some peer → ∀ c ∈ s.connections, c.2 = peerId →
      c.1 = connection
  | _ => True

end Swarm

end Exocore.Transport
