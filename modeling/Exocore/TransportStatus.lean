import Exocore.TransportPeers

/-! The statuses of the peers along the runs of the swarm. -/
namespace Exocore.Transport

open ExocoreBehaviour

/-- What is told of a peer and handed over to it, against its status, its queue and what was to be
sent to it. -/
def PeerSound (given handed : List MessageData) (statuses : List PeerStatus) :
    Option (PeerStatus × List QueuedPeerEvent) → Prop
  | none => statuses = [] ∧ handed.Sublist given
  | some (status, queue) => statuses.getLast?.getD .disconnected = status ∧
    (status = .connected → queue = []) ∧ queue.length ≤ maxPeerQueue ∧
    (handed ++ queue.map QueuedPeerEvent.event).Sublist given

namespace PeerSound
variable {given handed : List MessageData} {statuses : List PeerStatus} {status : PeerStatus}
  {queue : List QueuedPeerEvent}

theorem sublist {view : Option (PeerStatus × List QueuedPeerEvent)}
    (h : PeerSound given handed statuses view) : handed.Sublist given := by
  rcases view with _ | ⟨status, queue⟩
  · exact h.2
  · exact (List.sublist_append_left handed _).trans h.2.2.2

theorem more {view : Option (PeerStatus × List QueuedPeerEvent)}
    (h : PeerSound given handed statuses view) (msgs : List MessageData) :
    PeerSound (given ++ msgs) handed statuses view := by
  have hmore : given.Sublist (given ++ msgs) := List.sublist_append_left given msgs
  rcases view with _ | ⟨status, queue⟩
  · exact ⟨h.1, h.2.trans hmore⟩
  · exact ⟨h.1, h.2.1, h.2.2.1, h.2.2.2.trans hmore⟩

theorem added (h : PeerSound given handed statuses none) :
    PeerSound given handed statuses (some (.disconnected, [])) := by
  refine ⟨?_, fun _ => rfl, Nat.zero_le _, ?_⟩
  · rw [h.1]
    rfl
  · rw [List.map_nil, List.append_nil]
    exact h.2

/-- What waited and has not expired is handed over. -/
theorem connect (h : PeerSound given handed statuses (some (status, queue))) (clock : ℕ → ℕ) :
    PeerSound given (handed ++ (unexpired clock queue).map QueuedPeerEvent.event)
      (statuses ++ [.connected]) (some (.connected, [])) := by
  refine ⟨?_, fun _ => rfl, Nat.zero_le _, ?_⟩
  · rw [List.getLast?_concat]
    rfl
  · rw [List.map_nil, List.append_nil]
    have hkept := (unexpired_sublist clock queue).map QueuedPeerEvent.event
    exact ((List.Sublist.refl handed).append hkept).trans h.2.2.2

theorem close (h : PeerSound given handed statuses (some (status, queue))) (clock : ℕ → ℕ) :
    PeerSound given handed (statuses ++ [.disconnected])
      (some (.disconnected, unexpired clock queue)) := by
  have hkept := unexpired_sublist clock queue
  refine ⟨?_, (fun hstatus => by cases hstatus), hkept.length_le.trans h.2.2.1, ?_⟩
  · rw [List.getLast?_concat]
    rfl
  · have hevents := hkept.map QueuedPeerEvent.event
    exact ((List.Sublist.refl handed).append hevents).trans h.2.2.2

theorem sent (h : PeerSound given handed statuses (some (.connected, queue))) (msg : MessageData) :
    PeerSound (given ++ [msg]) (handed ++ [msg]) statuses (some (.connected, queue)) := by
  obtain ⟨hlast, hempty, hbound, hsub⟩ := h
  refine ⟨hlast, hempty, hbound, ?_⟩
  rw [hempty rfl, List.map_nil, List.append_nil] at hsub ⊢
  exact hsub.append (List.Sublist.refl [msg])

theorem queued (h : PeerSound given handed statuses (some (.disconnected, queue)))
    (e : QueuedPeerEvent) :
    PeerSound (given ++ [e.event]) handed statuses (some (.disconnected, trim (queue ++ [e]))) := by
  obtain ⟨hlast, -, -, hsub⟩ := h
  refine ⟨hlast, (fun hstatus => by cases hstatus), ?_, ?_⟩
  · rw [trim, List.length_drop]
    omega
  · have htrimmed : (trim (queue ++ [e])).Sublist (queue ++ [e]) := List.drop_sublist _ _
    have hevents := htrimmed.map QueuedPeerEvent.event
    have hall := hsub.append (List.Sublist.refl [e.event])
    rw [List.append_assoc] at hall
    rw [List.map_append] at hevents
    exact ((List.Sublist.refl handed).append hevents).trans hall

end PeerSound

namespace Swarm
variable {s s' : Swarm}

/-- What was emitted, and what waits to be. -/
def told (s : Swarm) : List BehaviourAction := s.emitted ++ s.behaviour.actions

def Sound (s : Swarm) : Prop := ∀ p, PeerSound (givenTo p s.given) (handed p s.told)
  (statusEvents p s.told) (s.behaviour.view p)

theorem sound_new : new.Sound := fun _ => ⟨rfl, List.Sublist.refl []⟩

/-- One peer is touched, with more that was to be sent to it. -/
theorem Sound.touched (h : s.Sound) {peerId : PeerId}
    {view' : Option (PeerStatus × List QueuedPeerEvent)} {statuses : List PeerStatus}
    {messages : List MessageData} (given : List (PeerId × MessageData))
    (htouch : Touches s.behaviour s'.behaviour peerId view' statuses messages)
    (hemitted : s'.emitted = s.emitted) (hgiven : s'.given = s.given ++ given)
    (hpeer : PeerSound (givenTo peerId s.given) (Transport.handed peerId s.told)
        (statusEvents peerId s.told) (s.behaviour.view peerId) →
      PeerSound (givenTo peerId s.given ++ givenTo peerId given)
        (Transport.handed peerId s.told ++ messages) (statusEvents peerId s.told ++ statuses) view') :
    s'.Sound := by
  intro p
  obtain ⟨new, hnew, hstatuses, hmessages, hothers⟩ := htouch.actions
  have htold : s'.told = s.told ++ new := by
    rw [told, told, hemitted, hnew, List.append_assoc]
  rw [htold, hgiven, givenTo_append, handed_append, statusEvents_append]
  by_cases hp : p = peerId
  · subst hp
    rw [hstatuses, hmessages, htouch.view]
    exact hpeer (h p)
  · rw [(hothers p hp).1, (hothers p hp).2, List.append_nil, List.append_nil, htouch.others p hp]
    exact (h p).more _

theorem Sound.quiet (h : s.Sound) (given : List (PeerId × MessageData))
    (hquiet : Quiet s.behaviour s'.behaviour) (hemitted : s'.emitted = s.emitted)
    (hgiven : s'.given = s.given ++ given) : s'.Sound := by
  refine h.touched given (hquiet.touches 0) hemitted hgiven ?_
  intro hpeer
  rw [List.append_nil, List.append_nil]
  exact hpeer.more _

/-- What is told stays where a poll moves it out. -/
theorem told_poll (s : Swarm) (now : ℕ) (hash : Sorting.HashOrder) :
    (s.step (.poll now hash)).told = s.emitted ++ (s.behaviour.redial now hash).actions := by
  have hmoved : (s.behaviour.poll now hash).1.toList ++ (s.behaviour.poll now hash).2.actions =
      (s.behaviour.redial now hash).actions := by
    rw [poll]
    rcases hactions : (s.behaviour.redial now hash).actions with _ | ⟨action, rest⟩
    · exact hactions
    · rfl
  rw [← hmoved, ← List.append_assoc]
  rfl

theorem view_poll (b : ExocoreBehaviour) (now : ℕ) (hash : Sorting.HashOrder) (p : PeerId) :
    (b.poll now hash).2.view p = b.view p := by
  have hview := (redial_quiet b now hash).view p
  rw [poll]
  rcases (b.redial now hash).actions with _ | ⟨action, rest⟩
  · exact hview
  · exact hview

theorem Sound.established (h : s.Sound) (clock : ℕ → ℕ) (peer : PeerId)
    (hbehaviour : s'.behaviour = s.behaviour.markPeerConnected clock peer)
    (hemitted : s'.emitted = s.emitted) (hgiven : s'.given = s.given ++ []) : s'.Sound := by
  rcases hview : s.behaviour.view peer with _ | ⟨_ | _, queue⟩
  · rw [markPeerConnected_unknown _ _ _ hview] at hbehaviour
    exact h.quiet [] (hbehaviour ▸ quiet_refl _) hemitted hgiven
  · rw [markPeerConnected_connected _ _ _ hview] at hbehaviour
    exact h.quiet [] (hbehaviour ▸ quiet_refl _) hemitted hgiven
  · have htouch := markPeerConnected_touches _ clock _ hview
    rw [← hbehaviour] at htouch
    refine h.touched [] htouch hemitted hgiven ?_
    intro hpeer
    rw [hview] at hpeer
    exact (hpeer.connect clock).more _

theorem Sound.step (h : s.Sound) (event : SwarmEvent) : (s.step event).Sound := by
  cases event with
  | addNode now node =>
    rcases hview : s.behaviour.view node.peerId with _ | known
    · refine h.touched [] (addNode_touches _ now node hview) rfl (List.append_nil _).symm ?_
      intro hpeer
      rw [hview] at hpeer
      rw [List.append_nil, List.append_nil]
      exact hpeer.added.more _
    · refine h.quiet [] (addNode_quiet _ now node ?_) rfl (List.append_nil _).symm
      rw [hview]
      exact Option.some_ne_none known
  | establishedInbound clock peer => exact h.established clock peer rfl rfl (List.append_nil _).symm
  | establishedOutbound clock peer => exact h.established clock peer rfl rfl (List.append_nil _).symm
  | closed now clock connection =>
    rw [Swarm.step]
    cases s.peerOf connection with
    | none => exact h
    | some peer =>
      rcases hview : s.behaviour.view peer with _ | ⟨status, queue⟩
      · refine h.quiet [] ?_ rfl (List.append_nil _).symm
        dsimp only
        rw [handleConnectionClosed_unknown _ _ _ _ hview]
        exact quiet_refl _
      · refine h.touched [] (handleConnectionClosed_touches _ now clock _ hview) rfl
          (List.append_nil _).symm ?_
        intro hpeer
        rw [hview] at hpeer
        rw [List.append_nil]
        exact (hpeer.close clock).more _
  | pingSuccess clock connection =>
    rw [Swarm.step]
    cases s.peerOf connection with
    | none => exact h
    | some peer =>
      refine h.established clock peer ?_ rfl (List.append_nil _).symm
      dsimp only
      rw [reportPingSuccess]
      cases hget : s.behaviour.peers.get peer with
      | none =>
        dsimp only
        rw [markPeerConnected, hget]
      | some _ => rfl
  | send now peer expiration connection msg =>
    have hgiven : givenTo peer [(peer, msg)] = [msg] := by
      simp only [givenTo, List.filterMap_cons, if_true, List.filterMap_nil]
    rcases hview : s.behaviour.view peer with _ | ⟨_ | _, queue⟩
    · refine h.quiet [(peer, msg)] ?_ rfl rfl
      dsimp only [Swarm.step]
      rw [sendMessage_unknown _ _ _ _ _ _ hview]
      exact quiet_refl _
    · refine h.touched [(peer, msg)] (sendMessage_connected _ now peer expiration connection msg hview)
        rfl rfl ?_
      intro hpeer
      rw [hview] at hpeer
      rw [hgiven, List.append_nil]
      exact hpeer.sent msg
    · obtain ⟨e, rfl, htouch⟩ := sendMessage_queued _ now peer expiration connection msg hview
      refine h.touched [(peer, e.event)] htouch rfl rfl ?_
      intro hpeer
      rw [hview] at hpeer
      rw [hgiven, List.append_nil, List.append_nil]
      exact hpeer.queued e
  | resetPeers hash => exact h.quiet [] (resetPeers_quiet _ hash) rfl (List.append_nil _).symm
  | handlerEvent connection event =>
    rw [Swarm.step]
    cases s.peerOf connection with
    | none => exact h
    | some peer =>
      have hquiet := onConnectionHandlerEvent_quiet s.behaviour peer connection event
      exact h.quiet [] hquiet rfl (List.append_nil _).symm
  | poll now hash =>
    intro p
    obtain ⟨new, hnew, hquiet⟩ := (redial_quiet s.behaviour now hash).actions
    have hview : (s.step (.poll now hash)).behaviour.view p = s.behaviour.view p :=
      view_poll s.behaviour now hash p
    have htold : (s.step (.poll now hash)).told = s.told ++ new := by
      rw [told_poll, hnew, ← List.append_assoc]
      rfl
    rw [hview, htold, handed_append, statusEvents_append, (hquiet p).1, (hquiet p).2,
      List.append_nil, List.append_nil]
    exact h p

/-- A connection is listed once, and those to come are new. -/
def Numbered (s : Swarm) : Prop :=
  (s.connections.map Prod.fst).Nodup ∧ ∀ c ∈ s.connections, c.1 < s.opened

theorem numbered_new : new.Numbered := ⟨List.nodup_nil, fun _ hc => absurd hc List.not_mem_nil⟩

theorem Numbered.established (h : s.Numbered) (peer : PeerId)
    (hconnections : s'.connections = s.connections ++ [(s.opened, peer)])
    (hopened : s'.opened = s.opened + 1) : s'.Numbered := by
  rw [Numbered, hconnections, hopened]
  constructor
  · rw [List.map_append, List.nodup_append]
    refine ⟨h.1, List.nodup_singleton _, ?_⟩
    intro connection hconnection other hother
    obtain ⟨c, hc, rfl⟩ := List.mem_map.mp hconnection
    rw [List.mem_singleton.mp hother]
    exact ne_of_lt (h.2 c hc)
  · intro c hc
    rcases List.mem_append.mp hc with hold | hlast
    · exact Nat.lt_succ_of_lt (h.2 c hold)
    · rw [List.mem_singleton.mp hlast]
      exact Nat.lt_succ_self _

theorem Numbered.step (h : s.Numbered) (event : SwarmEvent) : (s.step event).Numbered := by
  cases event with
  | establishedInbound clock peer => exact h.established peer rfl rfl
  | establishedOutbound clock peer => exact h.established peer rfl rfl
  | closed now clock connection =>
    rw [Swarm.step]
    cases s.peerOf connection with
    | none => exact h
    | some peer =>
      refine ⟨h.1.sublist (List.filter_sublist.map _), ?_⟩
      intro c hc
      exact h.2 c (List.mem_of_mem_filter hc)
  | pingSuccess clock connection =>
    rw [Swarm.step]
    cases s.peerOf connection with
    | none => exact h
    | some peer => exact h
  | handlerEvent connection event =>
    rw [Swarm.step]
    cases s.peerOf connection with
    | none => exact h
    | some peer => exact h
  | _ => exact h

theorem mem_of_peerOf {connection : ConnectionId} {peer : PeerId}
    (h : s.peerOf connection = some peer) : (connection, peer) ∈ s.connections := by
  obtain ⟨c, hc, rfl⟩ := Option.map_eq_some_iff.mp h
  have hfound := List.find?_some hc
  have hfirst : c.1 = connection := of_decide_eq_true hfound
  rw [← hfirst]
  exact List.mem_of_find?_eq_some hc

/-- A connection is to one peer. -/
theorem Numbered.unique (h : s.Numbered) {c d : ConnectionId × PeerId} (hc : c ∈ s.connections)
    (hd : d ∈ s.connections) (hsame : c.1 = d.1) : c = d :=
  List.inj_on_of_nodup_map h.1 hc hd hsame

/-- The status of a peer is that of its connections. -/
def Matches (s : Swarm) (peerId : PeerId) : Prop := ∀ status queue,
  s.behaviour.view peerId = some (status, queue) → (status = .connected ↔ s.Open peerId)

def StatusFollows (s : Swarm) : Prop := ∀ peerId, s.Matches peerId

theorem statusFollows_new : new.StatusFollows := fun _ _ _ h => by cases h

theorem view_of_get {peerId : PeerId} {peer : Peer}
    (h : s.behaviour.peers.get peerId = some peer) :
    s.behaviour.view peerId = some (peer.status, peer.tempQueue) := by
  rw [view, h]
  rfl

theorem Sound.followsConnections_iff (h : s.Sound) : s.FollowsConnections ↔ s.StatusFollows := by
  constructor
  · intro hfollows peerId status queue hview
    obtain ⟨peer, hget, rfl, -⟩ := get_of_view s.behaviour peerId hview
    exact hfollows.status peerId peer hget
  · intro hstatus
    have hsound {peerId : PeerId} {peer : Peer} (hget : s.behaviour.peers.get peerId = some peer) :=
      view_of_get hget ▸ h peerId
    refine ⟨?_, ?_, ?_, ?_, ?_⟩
    · intro peerId peer hget
      exact hstatus peerId _ _ (view_of_get hget)
    · intro peerId peer hget
      exact (hsound hget).1
    · intro peerId peer hget
      exact (hsound hget).2.1
    · intro peerId peer hget
      exact (hsound hget).2.2.1
    · intro peerId
      have hall := (h peerId).sublist
      rw [told, handed_append] at hall
      exact (List.sublist_append_left _ _).trans hall

/-- Only the peer that the step is about is to be looked at. -/
theorem StatusFollows.iff_matches (h : s.StatusFollows) (s' : Swarm) (peerId : PeerId)
    (hview : ∀ p, p ≠ peerId → s'.behaviour.view p = s.behaviour.view p)
    (hopen : ∀ p, p ≠ peerId → (s'.Open p ↔ s.Open p)) : s'.StatusFollows ↔ s'.Matches peerId := by
  constructor
  · intro hall
    exact hall peerId
  · intro hone p
    by_cases hp : p = peerId
    · rw [hp]
      exact hone
    · intro status queue hget
      rw [hview p hp] at hget
      exact (h p status queue hget).trans (hopen p hp).symm

theorem StatusFollows.quiet (h : s.StatusFollows)
    (hview : ∀ p, s'.behaviour.view p = s.behaviour.view p)
    (hopen : s'.connections = s.connections) : s'.StatusFollows := by
  intro p status queue hget
  rw [hview p] at hget
  rw [Open, hopen]
  exact h p status queue hget

/-- A peer is connected once a connection to it is established. -/
theorem StatusFollows.established (h : s.StatusFollows) (clock : ℕ → ℕ) (peer : PeerId)
    (hbehaviour : s'.behaviour = s.behaviour.markPeerConnected clock peer)
    (hconnections : s'.connections = s.connections ++ [(s.opened, peer)]) : s'.StatusFollows := by
  have hopened : s'.Open peer := by
    refine ⟨(s.opened, peer), ?_, rfl⟩
    rw [hconnections]
    exact List.mem_append_right _ (List.mem_singleton.mpr rfl)
  have hothers (p : PeerId) (hp : p ≠ peer) : s'.Open p ↔ s.Open p := by
    rw [Open, Open, hconnections]
    constructor
    · rintro ⟨c, hc, hpeer⟩
      rcases List.mem_append.mp hc with hold | hlast
      · exact ⟨c, hold, hpeer⟩
      · rw [List.mem_singleton.mp hlast] at hpeer
        exact absurd hpeer.symm hp
    · rintro ⟨c, hc, hpeer⟩
      exact ⟨c, List.mem_append_left _ hc, hpeer⟩
  refine (h.iff_matches _ peer ?_ hothers).mpr ?_
  · intro p hp
    rw [hbehaviour]
    exact markPeerConnected_others _ clock peer hp
  · intro status queue hview
    rw [hbehaviour] at hview
    exact iff_of_true (markPeerConnected_status _ clock peer hview) hopened

theorem StatusFollows.pingSuccess (h : s.StatusFollows) (clock : ℕ → ℕ) {peer : PeerId}
    (hopen : s.Open peer) : s.behaviour.reportPingSuccess clock peer = s.behaviour := by
  rw [reportPingSuccess]
  cases hget : s.behaviour.peers.get peer with
  | none => rfl
  | some known =>
    have hview := view_of_get hget
    rw [(h peer _ _ hview).mpr hopen] at hview
    exact markPeerConnected_connected _ clock peer hview

theorem StatusFollows.send (h : s.StatusFollows) (now : ℕ) (peer : PeerId)
    (expiration : Option ℕ) (connection : Option ConnectionId) (msg : MessageData) :
    (s.step (.send now peer expiration connection msg)).StatusFollows := by
  rcases hview : s.behaviour.view peer with _ | ⟨_ | _, queue⟩
  · have hsame := sendMessage_unknown _ now peer expiration connection msg hview
    exact h.quiet (fun p => congrArg (fun b => b.view p) hsame) rfl
  · have htouch := sendMessage_connected _ now peer expiration connection msg hview
    refine h.quiet (fun p => ?_) rfl
    by_cases hp : p = peer
    · rw [hp]
      exact htouch.view.trans hview.symm
    · exact htouch.others p hp
  · obtain ⟨e, -, htouch⟩ := sendMessage_queued _ now peer expiration connection msg hview
    refine (h.iff_matches (s.step (.send now peer expiration connection msg)) peer htouch.others
      fun _ _ => Iff.rfl).mpr ?_
    intro status queue' hget
    obtain ⟨rfl, -⟩ := Prod.mk.inj (Option.some.inj (htouch.view.symm.trans hget))
    exact h peer _ _ hview

/-- The peer of a connection that was closed has no other iff the connection was its last one. -/
theorem closed_open_iff (connections : List (ConnectionId × PeerId)) (connection : ConnectionId)
    (peer : PeerId) : (¬ ∃ c ∈ connections.filter fun c => c.1 ≠ connection, c.2 = peer) ↔
      ∀ c ∈ connections, c.2 = peer → c.1 = connection := by
  constructor
  · intro hclosed c hc hpeer
    by_contra hother
    exact hclosed ⟨c, List.mem_filter.mpr ⟨hc, decide_eq_true hother⟩, hpeer⟩
  · rintro hlast ⟨c, hc, hpeer⟩
    obtain ⟨hold, hother⟩ := List.mem_filter.mp hc
    exact of_decide_eq_true hother (hlast c hold hpeer)

theorem Numbered.closed_others (h : s.Numbered) {connection : ConnectionId} {peer p : PeerId}
    (hpeer : s.peerOf connection = some peer) (hp : p ≠ peer)
    (hconnections : s'.connections = s.connections.filter fun c => c.1 ≠ connection) :
    s'.Open p ↔ s.Open p := by
  rw [Open, Open, hconnections]
  constructor
  · rintro ⟨c, hc, hof⟩
    exact ⟨c, List.mem_of_mem_filter hc, hof⟩
  · rintro ⟨c, hc, hof⟩
    refine ⟨c, List.mem_filter.mpr ⟨hc, decide_eq_true ?_⟩, hof⟩
    intro hsame
    have hone := h.unique hc (mem_of_peerOf hpeer) hsame
    rw [hone] at hof
    exact hp hof.symm

/-- The statuses still follow the connections after a step iff it is a careful one. -/
theorem StatusFollows.step_iff (h : s.StatusFollows) (hnumbered : s.Numbered) (event : SwarmEvent) :
    (s.step event).StatusFollows ↔ s.Careful event := by
  cases event with
  | addNode now node =>
    rcases hview : s.behaviour.view node.peerId with _ | known
    · have htouch := addNode_touches _ now node hview
      have hget := get_of_view_none _ _ hview
      rw [Careful, h.iff_matches (s.step (.addNode now node)) node.peerId htouch.others
        fun _ _ => Iff.rfl]
      constructor
      · intro hmatches _ hopen
        cases (hmatches _ _ htouch.view).mpr hopen
      · intro hcareful status queue hstatus
        obtain ⟨rfl, -⟩ := Prod.mk.inj (Option.some.inj (htouch.view.symm.trans hstatus))
        exact iff_of_false (fun hne => by cases hne) (hcareful hget)
    · have hquiet := addNode_quiet s.behaviour now node (by
        rw [hview]
        exact Option.some_ne_none known)
      refine iff_of_true (h.quiet hquiet.view rfl) ?_
      intro hget
      rw [view, hget] at hview
      cases hview
  | establishedInbound clock peer => exact iff_of_true (h.established clock peer rfl rfl) trivial
  | establishedOutbound clock peer => exact iff_of_true (h.established clock peer rfl rfl) trivial
  | closed now clock connection =>
    rw [Swarm.step, Careful]
    cases hpeer : s.peerOf connection with
    | none => exact iff_of_true h (fun _ _ hnone => by cases hnone)
    | some peer =>
      dsimp only
      rcases hview : s.behaviour.view peer with _ | ⟨status, queue⟩
      · have hsame := handleConnectionClosed_unknown s.behaviour now clock peer hview
        refine iff_of_true ?_ ?_
        · rw [hsame]
          refine (h.iff_matches { s with connections := s.connections.filter _ } peer
            (fun _ _ => rfl) fun p hp => hnumbered.closed_others hpeer hp rfl).mpr ?_
          intro status queue hsome
          exact absurd (hview.symm.trans hsome) (fun hne => by cases hne)
        · intro peerId known hsome hget
          obtain rfl := Option.some.inj hsome
          exact absurd (hview.symm.trans (view_of_get hget)) (fun hne => by cases hne)
      · have htouch := handleConnectionClosed_touches s.behaviour now clock peer hview
        rw [h.iff_matches _ peer htouch.others fun p hp => hnumbered.closed_others hpeer hp rfl]
        constructor
        · intro hmatches peerId known hsome _
          obtain rfl := Option.some.inj hsome
          refine (closed_open_iff _ _ _).mp ?_
          intro hopen
          cases (hmatches _ _ htouch.view).mpr hopen
        · intro hcareful status' queue' hget
          obtain ⟨rfl, -⟩ := Prod.mk.inj (Option.some.inj (htouch.view.symm.trans hget))
          refine iff_of_false (fun hne => by cases hne) ?_
          obtain ⟨known, hknown, -⟩ := get_of_view _ _ hview
          exact (closed_open_iff _ _ _).mpr (hcareful peer known rfl hknown)
  | pingSuccess clock connection =>
    refine iff_of_true ?_ trivial
    rw [Swarm.step]
    cases hpeer : s.peerOf connection with
    | none => exact h
    | some peer =>
      dsimp only
      rw [h.pingSuccess clock ⟨_, mem_of_peerOf hpeer, rfl⟩]
      exact h
  | send now peer expiration connection msg =>
    exact iff_of_true (h.send now peer expiration connection msg) trivial
  | resetPeers hash =>
    exact iff_of_true (h.quiet (resetPeers_quiet _ hash).view rfl) trivial
  | handlerEvent connection event =>
    refine iff_of_true ?_ trivial
    rw [Swarm.step]
    cases s.peerOf connection with
    | none => exact h
    | some peer =>
      exact h.quiet (onConnectionHandlerEvent_quiet _ peer connection event).view rfl
  | poll now hash => exact iff_of_true (h.quiet (view_poll _ now hash) rfl) trivial

/-- In every run, the peers follow their connections after each step iff each step is a careful
one. -/
theorem run_follows_iff (events : List SwarmEvent) :
    Run.Allowed Swarm.step (fun s e => FollowsConnections (s.step e)) new events ↔
      Run.Allowed Swarm.step Careful new events := by
  have hiff (s : Swarm) (event : SwarmEvent)
      (h : s.Sound ∧ s.Numbered ∧ s.StatusFollows) :
      FollowsConnections (s.step event) ↔ s.Careful event :=
    ((h.1.step event).followsConnections_iff).trans (h.2.2.step_iff h.2.1 event)
  apply Run.allowed_congr _ _ _ (fun s => s.Sound ∧ s.Numbered ∧ s.StatusFollows) hiff
  · intro s event h hfollows
    have hsound := h.1.step event
    exact ⟨hsound, h.2.1.step event, hsound.followsConnections_iff.mp hfollows⟩
  · exact ⟨sound_new, numbered_new, statusFollows_new⟩

/-- Two nodes that dial each other have two connections, and the one that is closed is taken for the
last. -/
theorem twoConnections_not_follows :
    ¬ Run.Allowed Swarm.step (fun s e => FollowsConnections (s.step e)) new
      [.addNode 0 ⟨1, ["/ip4/10.0.0.1/tcp/1"]⟩, .establishedInbound (fun _ => 1) 1,
        .establishedOutbound (fun _ => 2) 1, .closed 3 (fun _ => 3) 0] := by
  rintro ⟨-, -, -, hfollows, -⟩
  have hstatus := (hfollows.status 1 _ rfl).mpr ⟨(1, 1), by decide, rfl⟩
  exact absurd hstatus (by decide)

end Swarm

end Exocore.Transport
