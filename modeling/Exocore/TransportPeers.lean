import Exocore.LibRun
import Exocore.TransportBehaviour

/-! What each call on the behaviour does to a peer and to the actions, and the runs of the swarm. -/
namespace Exocore.Transport

open SortedMap

section Actions
variable (peerId : PeerId)

@[simp] theorem statusEvents_append (l r : List BehaviourAction) :
    statusEvents peerId (l ++ r) = statusEvents peerId l ++ statusEvents peerId r :=
  List.filterMap_append

@[simp] theorem handed_append (l r : List BehaviourAction) :
    handed peerId (l ++ r) = handed peerId l ++ handed peerId r := List.filterMap_append

@[simp] theorem givenTo_append (l r : List (PeerId × MessageData)) :
    givenTo peerId (l ++ r) = givenTo peerId l ++ givenTo peerId r := List.filterMap_append

theorem statusEvents_status (p : PeerId) (status : PeerStatus) (rest : List BehaviourAction) :
    statusEvents peerId (.generateEvent (.peerStatus p status) :: rest) =
      if p = peerId then status :: statusEvents peerId rest else statusEvents peerId rest := by
  by_cases h : p = peerId
  · simp only [statusEvents, List.filterMap_cons, h, if_true]
  · simp only [statusEvents, List.filterMap_cons, h, if_false]

theorem handed_notifyHandler (p : PeerId) (handler : NotifyHandler) (event : MessageData)
    (rest : List BehaviourAction) : handed peerId (.notifyHandler p handler event :: rest) =
      if p = peerId then event :: handed peerId rest else handed peerId rest := by
  by_cases h : p = peerId
  · simp only [handed, List.filterMap_cons, h, if_true]
  · simp only [handed, List.filterMap_cons, h, if_false]

/-- The actions that hand over the messages of a queue. -/
def notifications (queue : List QueuedPeerEvent) : List BehaviourAction :=
  queue.map fun e => .notifyHandler peerId e.handler e.event

theorem statusEvents_notifications (p : PeerId) (queue : List QueuedPeerEvent) :
    statusEvents p (notifications peerId queue) = [] := by
  induction queue with
  | nil => rfl
  | cons e rest ih => exact ih

theorem handed_notifications (queue : List QueuedPeerEvent) :
    handed peerId (notifications peerId queue) = queue.map QueuedPeerEvent.event := by
  induction queue with
  | nil => rfl
  | cons e rest ih =>
    have hone := handed_notifyHandler peerId peerId e.handler e.event (notifications peerId rest)
    rw [if_pos rfl, ih] at hone
    exact hone

theorem handed_notifications_other {p : PeerId} (h : peerId ≠ p) (queue : List QueuedPeerEvent) :
    handed p (notifications peerId queue) = [] := by
  induction queue with
  | nil => rfl
  | cons e rest ih =>
    have hone := handed_notifyHandler p peerId e.handler e.event (notifications peerId rest)
    rw [if_neg h, ih] at hone
    exact hone

end Actions

theorem unexpired_sublist (clock : ℕ → ℕ) (queue : List QueuedPeerEvent) :
    (unexpired clock queue).Sublist queue := by
  induction queue generalizing clock with
  | nil => exact List.Sublist.refl []
  | cons e rest ih =>
    rw [unexpired]
    split_ifs
    · exact (ih _).cons e
    · exact (ih _).cons_cons e

namespace ExocoreBehaviour

/-- The status and the queue of a peer. -/
def view (b : ExocoreBehaviour) (peerId : PeerId) : Option (PeerStatus × List QueuedPeerEvent) :=
  (b.peers.get peerId).map fun peer => (peer.status, peer.tempQueue)

/-- The peers keep their statuses and queues, and the actions are about other things. -/
structure Quiet (b b' : ExocoreBehaviour) : Prop where
  actions : ∃ new, b'.actions = b.actions ++ new ∧
    ∀ p, statusEvents p new = [] ∧ handed p new = []
  view : ∀ p, b'.view p = b.view p

/-- One peer has a new status or queue, and the actions tell of these statuses and hand over these
messages of it. -/
structure Touches (b b' : ExocoreBehaviour) (peerId : PeerId)
    (view' : Option (PeerStatus × List QueuedPeerEvent)) (statuses : List PeerStatus)
    (messages : List MessageData) : Prop where
  actions : ∃ new, b'.actions = b.actions ++ new ∧ statusEvents peerId new = statuses ∧
    handed peerId new = messages ∧
    ∀ p, p ≠ peerId → statusEvents p new = [] ∧ handed p new = []
  view : b'.view peerId = view'
  others : ∀ p, p ≠ peerId → b'.view p = b.view p

section Views
variable {b b' b'' : ExocoreBehaviour} {peerId : PeerId}

theorem quiet_refl (b : ExocoreBehaviour) : Quiet b b :=
  ⟨⟨[], (List.append_nil _).symm, fun _ => ⟨rfl, rfl⟩⟩, fun _ => rfl⟩

theorem Quiet.trans (h : Quiet b b') (h' : Quiet b' b'') : Quiet b b'' := by
  obtain ⟨new, hnew, hquiet⟩ := h.actions
  obtain ⟨new', hnew', hquiet'⟩ := h'.actions
  refine ⟨⟨new ++ new', ?_, ?_⟩, fun p => (h'.view p).trans (h.view p)⟩
  · rw [hnew', hnew, List.append_assoc]
  · intro p
    rw [statusEvents_append, handed_append, (hquiet p).1, (hquiet p).2, (hquiet' p).1,
      (hquiet' p).2]
    exact ⟨rfl, rfl⟩

theorem Quiet.touches (h : Quiet b b') (peerId : PeerId) :
    Touches b b' peerId (b.view peerId) [] [] := by
  obtain ⟨new, hnew, hquiet⟩ := h.actions
  exact ⟨⟨new, hnew, (hquiet peerId).1, (hquiet peerId).2, fun p _ => hquiet p⟩, h.view peerId,
    fun p _ => h.view p⟩

theorem Touches.quiet {view' : Option (PeerStatus × List QueuedPeerEvent)}
    {statuses : List PeerStatus} {messages : List MessageData}
    (h : Touches b b' peerId view' statuses messages) (h' : Quiet b' b'') :
    Touches b b'' peerId view' statuses messages := by
  obtain ⟨new, hnew, hstatuses, hmessages, hothers⟩ := h.actions
  obtain ⟨new', hnew', hquiet⟩ := h'.actions
  refine ⟨⟨new ++ new', ?_, ?_, ?_, ?_⟩, (h'.view peerId).trans h.view,
    fun p hp => (h'.view p).trans (h.others p hp)⟩
  · rw [hnew', hnew, List.append_assoc]
  · rw [statusEvents_append, hstatuses, (hquiet peerId).1, List.append_nil]
  · rw [handed_append, hmessages, (hquiet peerId).2, List.append_nil]
  · intro p hp
    rw [statusEvents_append, handed_append, (hothers p hp).1, (hothers p hp).2, (hquiet p).1,
      (hquiet p).2]
    exact ⟨rfl, rfl⟩

theorem view_setPeer (b : ExocoreBehaviour) (peerId p : PeerId) (peer : Peer) :
    (b.setPeer peerId peer).view p =
      if p = peerId then some (peer.status, peer.tempQueue) else b.view p := by
  rw [view, setPeer, Map.get_insert]
  split_ifs <;> rfl

/-- A peer that is written with new actions about it. -/
theorem setPeer_touches (b : ExocoreBehaviour) (peerId : PeerId) (peer : Peer)
    (new : List BehaviourAction)
    (hothers : ∀ p, p ≠ peerId → statusEvents p new = [] ∧ handed p new = []) :
    Touches b ((b.setPeer peerId peer).push new) peerId (some (peer.status, peer.tempQueue))
      (statusEvents peerId new) (handed peerId new) := by
  refine ⟨⟨new, rfl, rfl, rfl, hothers⟩, ?_, ?_⟩
  · exact (view_setPeer b peerId peerId peer).trans (if_pos rfl)
  · intro p hp
    exact (view_setPeer b peerId p peer).trans (if_neg hp)

/-- A peer whose status and queue stay, with actions about other things. -/
theorem setPeer_quiet {peer : Peer} (peer' : Peer) (hget : b.peers.get peerId = some peer)
    (hstatus : peer'.status = peer.status) (hqueue : peer'.tempQueue = peer.tempQueue)
    (new : List BehaviourAction) (hnew : ∀ p, statusEvents p new = [] ∧ handed p new = []) :
    Quiet b ((b.setPeer peerId peer').push new) := by
  refine ⟨⟨new, rfl, hnew⟩, ?_⟩
  intro p
  refine (view_setPeer b peerId p peer').trans ?_
  split_ifs with hp
  · rw [hp, view, hget, hstatus, hqueue]
    rfl
  · rfl

end Views

section Calls
variable (b : ExocoreBehaviour) (now : ℕ) (clock : ℕ → ℕ) (peerId : PeerId)

theorem dialPeer_quiet (forceExpire : Bool) : Quiet b (b.dialPeer now peerId forceExpire) := by
  unfold dialPeer
  cases hget : b.peers.get peerId with
  | none => exact quiet_refl b
  | some peer =>
    dsimp only
    split_ifs
    · exact quiet_refl b
    · exact quiet_refl b
    · exact quiet_refl b
    · exact setPeer_quiet { peer with lastDial := some now } hget rfl rfl
        [.dial peerId] fun _ => ⟨rfl, rfl⟩

theorem redial_quiet (hash : Sorting.HashOrder) : Quiet b (b.redial now hash) := by
  have hfold (peerIds : List PeerId) (b : ExocoreBehaviour) :
      Quiet b (peerIds.foldl (fun b peerId => b.dialPeer now peerId false) b) := by
    induction peerIds generalizing b with
    | nil => exact quiet_refl b
    | cons peerId rest ih => exact (dialPeer_quiet b now peerId false).trans (ih _)
  unfold redial
  split_ifs
  · have hcheck : Quiet b { b with lastRedialCheck := some now } :=
      ⟨(quiet_refl b).actions, fun _ => rfl⟩
    exact hcheck.trans (hfold _ _)
  · exact quiet_refl b

theorem resetPeers_quiet (hash : Sorting.HashOrder) : Quiet b (b.resetPeers hash) := by
  refine ⟨⟨_, rfl, ?_⟩, ?_⟩
  · intro p
    generalize hash.order b.peers.keys = peerIds
    induction peerIds with
    | nil => exact ⟨rfl, rfl⟩
    | cons peerId rest ih => exact ih
  · intro p
    rw [view, resetPeers, Map.get_mapValues, Option.map_map]
    rfl

theorem onConnectionHandlerEvent_quiet (connection : ConnectionId)
    (event : Except IoError MessageData) :
    Quiet b (b.onConnectionHandlerEvent peerId connection event) := by
  have hpush (action : BehaviourAction)
      (haction : ∀ p, statusEvents p [action] = [] ∧ handed p [action] = []) :
      Quiet b (b.push [action]) := ⟨⟨[action], rfl, haction⟩, fun _ => rfl⟩
  unfold onConnectionHandlerEvent
  cases event with
  | error e => exact hpush _ fun _ => ⟨rfl, rfl⟩
  | ok event =>
    cases b.peers.get peerId with
    | none => exact quiet_refl b
    | some peer => exact hpush _ fun _ => ⟨rfl, rfl⟩

theorem get_of_view {status : PeerStatus} {queue : List QueuedPeerEvent}
    (h : b.view peerId = some (status, queue)) :
    ∃ peer, b.peers.get peerId = some peer ∧ peer.status = status ∧ peer.tempQueue = queue := by
  obtain ⟨peer, hget, hpeer⟩ := Option.map_eq_some_iff.mp h
  obtain ⟨hstatus, hqueue⟩ := Prod.mk.inj hpeer
  exact ⟨peer, hget, hstatus, hqueue⟩

theorem get_of_view_none (h : b.view peerId = none) : b.peers.get peerId = none :=
  Option.map_eq_none_iff.mp h

theorem markPeerConnected_unknown (h : b.view peerId = none) :
    b.markPeerConnected clock peerId = b := by
  rw [markPeerConnected, b.get_of_view_none peerId h]

theorem markPeerConnected_connected {queue : List QueuedPeerEvent}
    (h : b.view peerId = some (.connected, queue)) : b.markPeerConnected clock peerId = b := by
  obtain ⟨peer, hget, hstatus, -⟩ := b.get_of_view peerId h
  rw [markPeerConnected, hget]
  exact if_pos hstatus

theorem markPeerConnected_touches {queue : List QueuedPeerEvent}
    (h : b.view peerId = some (.disconnected, queue)) :
    Touches b (b.markPeerConnected clock peerId) peerId (some (.connected, [])) [.connected]
      ((unexpired clock queue).map QueuedPeerEvent.event) := by
  obtain ⟨peer, hget, hstatus, rfl⟩ := b.get_of_view peerId h
  have hconnect : b.markPeerConnected clock peerId =
      (b.setPeer peerId { peer with status := .connected, tempQueue := [] }).push
        (.generateEvent (.peerStatus peerId .connected) ::
          notifications peerId (unexpired clock peer.tempQueue)) := by
    rw [markPeerConnected, hget]
    refine if_neg ?_
    rw [hstatus]
    decide
  have htouches := setPeer_touches b peerId { peer with status := .connected, tempQueue := [] }
    (.generateEvent (.peerStatus peerId .connected) ::
      notifications peerId (unexpired clock peer.tempQueue)) ?_
  · rw [← hconnect] at htouches
    have hstatuses : statusEvents peerId (.generateEvent (.peerStatus peerId .connected) ::
        notifications peerId (unexpired clock peer.tempQueue)) = [.connected] := by
      rw [statusEvents_status, if_pos rfl, statusEvents_notifications]
    rw [hstatuses] at htouches
    rw [← handed_notifications peerId]
    exact htouches
  · intro p hp
    constructor
    · rw [statusEvents_status, if_neg (Ne.symm hp), statusEvents_notifications]
    · exact handed_notifications_other peerId (Ne.symm hp) _

theorem markPeerConnected_others {p : PeerId} (hp : p ≠ peerId) :
    (b.markPeerConnected clock peerId).view p = b.view p := by
  rcases hview : b.view peerId with _ | ⟨_ | _, queue⟩
  · rw [markPeerConnected_unknown b clock peerId hview]
  · rw [markPeerConnected_connected b clock peerId hview]
  · exact (markPeerConnected_touches b clock peerId hview).others p hp

theorem markPeerConnected_status {status : PeerStatus} {queue : List QueuedPeerEvent}
    (h : (b.markPeerConnected clock peerId).view peerId = some (status, queue)) :
    status = .connected := by
  rcases hview : b.view peerId with _ | ⟨_ | _, before⟩
  · rw [markPeerConnected_unknown b clock peerId hview, hview] at h
    cases h
  · rw [markPeerConnected_connected b clock peerId hview, hview] at h
    exact (Prod.mk.inj (Option.some.inj h)).1.symm
  · rw [(markPeerConnected_touches b clock peerId hview).view] at h
    exact (Prod.mk.inj (Option.some.inj h)).1.symm

theorem handleConnectionClosed_unknown (h : b.view peerId = none) :
    b.handleConnectionClosed now clock peerId = b := by
  rw [handleConnectionClosed, b.get_of_view_none peerId h]

theorem handleConnectionClosed_touches {status : PeerStatus} {queue : List QueuedPeerEvent}
    (h : b.view peerId = some (status, queue)) :
    Touches b (b.handleConnectionClosed now clock peerId) peerId
      (some (.disconnected, unexpired clock queue)) [.disconnected] [] := by
  obtain ⟨peer, hget, -, rfl⟩ := b.get_of_view peerId h
  have htouches := setPeer_touches b peerId
    { peer with status := .disconnected, tempQueue := unexpired clock peer.tempQueue }
    [.generateEvent (.peerStatus peerId .disconnected)]
    fun p hp => ⟨(statusEvents_status p peerId _ []).trans (if_neg (Ne.symm hp)), rfl⟩
  have hstatuses : statusEvents peerId [.generateEvent (.peerStatus peerId .disconnected)] =
      [.disconnected] := (statusEvents_status peerId peerId _ []).trans (if_pos rfl)
  rw [hstatuses] at htouches
  rw [handleConnectionClosed, hget]
  exact htouches.quiet (dialPeer_quiet _ now peerId true)

theorem addNode_quiet (node : Node) (h : b.view node.peerId ≠ none) :
    Quiet b (b.addNode now node) := by
  unfold addNode
  cases hget : b.peers.get node.peerId with
  | none =>
    rw [view, hget] at h
    exact absurd rfl h
  | some peer =>
    dsimp only
    split_ifs
    · exact quiet_refl b
    · have hset := setPeer_quiet { peer with addresses := node.p2pAddresses } hget rfl rfl
        [] fun _ => ⟨rfl, rfl⟩
      rw [push, List.append_nil] at hset
      exact hset.trans (dialPeer_quiet _ now node.peerId true)

theorem addNode_touches (node : Node) (h : b.view node.peerId = none) :
    Touches b (b.addNode now node) node.peerId (some (.disconnected, [])) [] [] := by
  have htouches := setPeer_touches b node.peerId ⟨node.p2pAddresses, [], .disconnected, none⟩ []
    fun _ _ => ⟨rfl, rfl⟩
  rw [push, List.append_nil] at htouches
  rw [addNode, b.get_of_view_none node.peerId h]
  exact htouches.quiet (dialPeer_quiet _ now node.peerId true)

section Send
variable (expiration : Option ℕ) (connection : Option ConnectionId) (msg : MessageData)

theorem sendMessage_unknown (h : b.view peerId = none) :
    b.sendMessage now peerId expiration connection msg = b := by
  rw [sendMessage, b.get_of_view_none peerId h]

theorem sendMessage_connected {queue : List QueuedPeerEvent}
    (h : b.view peerId = some (.connected, queue)) :
    Touches b (b.sendMessage now peerId expiration connection msg) peerId
      (some (.connected, queue)) [] [msg] := by
  obtain ⟨peer, hget, hstatus, -⟩ := b.get_of_view peerId h
  rw [sendMessage, hget]
  dsimp only
  rw [if_pos hstatus]
  refine ⟨⟨_, rfl, rfl, ?_, ?_⟩, h, fun _ _ => rfl⟩
  · exact (handed_notifyHandler peerId peerId _ msg []).trans (if_pos rfl)
  · intro p hp
    exact ⟨rfl, (handed_notifyHandler p peerId _ msg []).trans (if_neg (Ne.symm hp))⟩

theorem sendMessage_queued {queue : List QueuedPeerEvent}
    (h : b.view peerId = some (.disconnected, queue)) :
    ∃ e, e.event = msg ∧ Touches b (b.sendMessage now peerId expiration connection msg) peerId
      (some (.disconnected, trim (queue ++ [e]))) [] [] := by
  obtain ⟨peer, hget, hstatus, rfl⟩ := b.get_of_view peerId h
  refine ⟨⟨.ofConnection connection, msg,
    some (expiration.getD (now + defaultDialingMessageTimeout))⟩, rfl, ?_⟩
  rw [sendMessage, hget]
  dsimp only
  rw [if_neg (by rw [hstatus]; decide)]
  have htouches := setPeer_touches b peerId { peer with tempQueue := trim (peer.tempQueue ++
    [⟨.ofConnection connection, msg,
      some (expiration.getD (now + defaultDialingMessageTimeout))⟩]) } [] fun _ _ => ⟨rfl, rfl⟩
  rw [push, List.append_nil] at htouches
  rw [← hstatus]
  exact htouches.quiet (dialPeer_quiet _ now peerId false)

end Send

end Calls

end ExocoreBehaviour

end Exocore.Transport
