import Exocore.TransportHandler

/-! What a call of `poll` does with the substreams and the messages of the handler. -/
namespace Exocore.Transport

namespace PollTurn

/-- The messages of a turn: still to be written, being written, written or failed. -/
def outboundHeld (t : PollTurn) : List MessageData :=
  t.handler.outboundMessages ++ t.written ++ t.writeFailures.map Prod.fst

/-- The substreams of a turn: still read from, or failed. -/
def inboundHeld (t : PollTurn) : List Substream :=
  t.handler.inboundSubstreams ++ t.readFailures.map Prod.fst

section Rounds
variable (env : Readiness)

theorem pollOutbound_stops (t : PollTurn) (fut : OutboundStreamFuture) :
    (t.pollOutbound env fut).1.isSome = env.stopsWrite fut := by
  rw [pollOutbound, Readiness.stopsWrite]
  cases env.write fut.substream <;> rfl

theorem pollInbound_stops (t : PollTurn) (fut : InboundStreamFuture) :
    (t.pollInbound env fut).1.isSome = env.stopsRead fut := by
  rw [pollInbound, Readiness.stopsRead]
  cases env.read fut.substream <;> rfl

theorem sent_outboundHeld (t : PollTurn) (fut : OutboundStreamFuture) :
    (t.sent fut).outboundHeld.Perm (t.outboundHeld ++ [fut.message]) := by
  apply List.perm_iff_count.mpr
  intro m
  unfold sent
  cases hidle : t.handler.idleOutboundStream.isSome with
  | true =>
    simp only [hidle, if_true, outboundHeld, List.count_append]
    omega
  | false =>
    cases hqueue : t.handler.sendQueue with
    | nil =>
      simp only [hidle, hqueue, Bool.false_eq_true, if_false, outboundHeld,
        ExocoreProtoHandler.outboundMessages, List.count_append]
      omega
    | cons message queue =>
      have hcons : message :: queue = [message] ++ queue := rfl
      simp only [hidle, hqueue, Bool.false_eq_true, if_false, outboundHeld,
        ExocoreProtoHandler.outboundMessages]
      simp only [hcons, List.count_append, List.map_append, List.map_cons, List.map_nil]
      omega

theorem pollOutbound_held (t : PollTurn) (fut : OutboundStreamFuture) :
    (t.pollOutbound env fut).2.outboundHeld.Perm (t.outboundHeld ++ [fut.message]) := by
  unfold pollOutbound
  cases env.write fut.substream with
  | sent => exact sent_outboundHeld t fut
  | consumed =>
    apply List.perm_iff_count.mpr
    intro m
    simp only [outboundHeld, List.count_append]
    omega
  | failed e =>
    apply List.perm_iff_count.mpr
    intro m
    simp only [outboundHeld, List.count_append, List.map_append, List.map_cons, List.map_nil]
    omega
  | pending =>
    apply List.perm_iff_count.mpr
    intro m
    simp only [outboundHeld, ExocoreProtoHandler.outboundMessages, List.count_append,
      List.map_append, List.map_cons, List.map_nil]
    omega

theorem pollInbound_held (t : PollTurn) (fut : InboundStreamFuture) :
    (t.pollInbound env fut).2.inboundHeld.Perm (t.inboundHeld ++ [fut.substream]) := by
  apply List.perm_iff_count.mpr
  intro substream
  unfold pollInbound
  cases env.read fut.substream with
  | failed e =>
    simp only [inboundHeld, List.count_append, List.map_append, List.map_cons, List.map_nil]
    omega
  | _ =>
    simp only [inboundHeld, pushInbound, ExocoreProtoHandler.inboundSubstreams, List.count_append,
      List.map_append, List.map_cons, List.map_nil]
    omega

/-- What the loop over the futures that write leaves alone. -/
def readPart (t : PollTurn) : List InboundStreamFuture × List MessageData ×
    List (Substream × IoError) × Bool :=
  (t.handler.inboundStreamFutures, t.read, t.readFailures, t.handler.outboundDialing)

/-- What the loop over the futures that read leaves alone. -/
def writePart (t : PollTurn) : ExocoreProtoHandler × List MessageData ×
    List (MessageData × IoError) :=
  ({ t.handler with inboundStreamFutures := [] }, t.written, t.writeFailures)

theorem pollOutbound_readPart (t : PollTurn) (fut : OutboundStreamFuture) :
    (t.pollOutbound env fut).2.readPart = t.readPart := by
  unfold pollOutbound
  cases env.write fut.substream with
  | sent =>
    dsimp only
    unfold sent
    dsimp only
    split_ifs
    · rfl
    · split <;> rfl
  | _ => rfl

theorem pollInbound_writePart (t : PollTurn) (fut : InboundStreamFuture) :
    (t.pollInbound env fut).2.writePart = t.writePart := by
  unfold pollInbound
  cases env.read fut.substream <;> rfl

theorem pollOutbound_failures (t : PollTurn) (fut : OutboundStreamFuture) :
    (t.pollOutbound env fut).2.writeFailures.map Prod.snd =
      t.writeFailures.map Prod.snd ++ (t.pollOutbound env fut).1.elim [] fun e => [e] := by
  unfold pollOutbound
  cases env.write fut.substream with
  | sent =>
    dsimp only
    unfold sent
    dsimp only
    rw [Option.elim_none, List.append_nil]
    split_ifs
    · rfl
    · split <;> rfl
  | failed e => exact List.map_append
  | _ => exact (List.append_nil _).symm

def messageOf : Except IoError MessageData → List MessageData
  | .ok message => [message]
  | .error _ => []

theorem pollInbound_read (t : PollTurn) (fut : InboundStreamFuture) :
    (t.pollInbound env fut).2.read = t.read ++ (t.pollInbound env fut).1.elim [] messageOf := by
  unfold pollInbound
  cases env.read fut.substream with
  | message message => rfl
  | _ => exact (List.append_nil _).symm

end Rounds

theorem start_outboundHeld (h : ExocoreProtoHandler) :
    (start h).outboundHeld = h.outboundMessages := by
  rw [outboundHeld, start, List.append_nil, List.map_nil, List.append_nil]

section Loops
variable (env : Readiness) (t : PollTurn)

/-- The messages of the futures that were not polled are lost. -/
theorem pollAllOutbound_held : ((t.pollAllOutbound env).2.outboundHeld ++
      (Loop.unvisited env.stopsWrite t.handler.outboundStreamFutures).map
        OutboundStreamFuture.message).Perm t.outboundHeld := by
  have hheld := Loop.untilReturn_holds (pollOutbound_stops env) outboundHeld
    OutboundStreamFuture.message (pollOutbound_held env) t.handler.outboundStreamFutures
    { t with handler := { t.handler with outboundStreamFutures := [] } }
  have hsplit := Loop.visited_append_unvisited env.stopsWrite t.handler.outboundStreamFutures
  have hall : t.handler.outboundStreamFutures.map OutboundStreamFuture.message =
      (Loop.visited env.stopsWrite t.handler.outboundStreamFutures).map
          OutboundStreamFuture.message ++
        (Loop.unvisited env.stopsWrite t.handler.outboundStreamFutures).map
          OutboundStreamFuture.message := by
    rw [← List.map_append, hsplit]
  refine (hheld.append_right _).trans ?_
  apply List.perm_iff_count.mpr
  intro m
  simp only [outboundHeld, ExocoreProtoHandler.outboundMessages, hall, List.count_append,
    List.map_nil, List.count_nil]
  omega

theorem pollAllInbound_held : ((t.pollAllInbound env).2.inboundHeld ++
      (Loop.unvisited env.stopsRead t.handler.inboundStreamFutures).map
        InboundStreamFuture.substream).Perm t.inboundHeld := by
  have hheld := Loop.untilReturn_holds (pollInbound_stops env) inboundHeld
    InboundStreamFuture.substream (pollInbound_held env) t.handler.inboundStreamFutures
    { t with handler := { t.handler with inboundStreamFutures := [] } }
  have hsplit := Loop.visited_append_unvisited env.stopsRead t.handler.inboundStreamFutures
  have hall : t.handler.inboundStreamFutures.map InboundStreamFuture.substream =
      (Loop.visited env.stopsRead t.handler.inboundStreamFutures).map
          InboundStreamFuture.substream ++
        (Loop.unvisited env.stopsRead t.handler.inboundStreamFutures).map
          InboundStreamFuture.substream := by
    rw [← List.map_append, hsplit]
  refine (hheld.append_right _).trans ?_
  apply List.perm_iff_count.mpr
  intro m
  simp only [inboundHeld, ExocoreProtoHandler.inboundSubstreams, hall, List.count_append,
    List.map_nil, List.count_nil]
  omega

/-- The loop over the futures that write leaves alone what the other loop works on. -/
theorem pollAllOutbound_readPart : (t.pollAllOutbound env).2.readPart = t.readPart :=
  Loop.untilReturn_keeps readPart (pollOutbound_readPart env) t.handler.outboundStreamFutures
    { t with handler := { t.handler with outboundStreamFutures := [] } }

theorem pollAllInbound_writePart : (t.pollAllInbound env).2.writePart = t.writePart :=
  Loop.untilReturn_keeps writePart (pollInbound_writePart env) t.handler.inboundStreamFutures
    { t with handler := { t.handler with inboundStreamFutures := [] } }

/-- The call ends with the failure of the write that ended the loop. -/
theorem pollAllOutbound_failures : (t.pollAllOutbound env).2.writeFailures.map Prod.snd =
    t.writeFailures.map Prod.snd ++ (t.pollAllOutbound env).1.elim [] fun e => [e] :=
  Loop.untilReturn_adds (fun t : PollTurn => t.writeFailures.map Prod.snd) (fun e => [e])
    (pollOutbound_failures env) t.handler.outboundStreamFutures
    { t with handler := { t.handler with outboundStreamFutures := [] } }

/-- The call ends with the message that ended the loop. -/
theorem pollAllInbound_read : (t.pollAllInbound env).2.read =
    t.read ++ (t.pollAllInbound env).1.elim [] messageOf :=
  Loop.untilReturn_adds PollTurn.read messageOf (pollInbound_read env)
    t.handler.inboundStreamFutures
    { t with handler := { t.handler with inboundStreamFutures := [] } }

end Loops

end PollTurn

namespace ExocoreProtoHandler

section Lost
variable {X : Type} {held lost all : List X}

theorem perm_iff_nothing_lost (h : (held ++ lost).Perm all) : all.Perm held ↔ lost = [] := by
  constructor
  · intro hall
    have hlength := (h.trans hall).length_eq
    rw [List.length_append] at hlength
    exact List.eq_nil_of_length_eq_zero (by omega)
  · intro hnil
    rw [hnil, List.append_nil] at h
    exact h.symm

theorem subset_iff_nothing_lost (h : (held ++ lost).Perm all) (hnodup : all.Nodup) :
    (∀ x ∈ all, x ∈ held) ↔ lost = [] := by
  constructor
  · intro hall
    apply List.eq_nil_iff_forall_not_mem.mpr
    intro x hx
    have hdisjoint := List.disjoint_of_nodup_append (h.nodup_iff.mpr hnodup)
    exact hdisjoint (hall x (h.subset (List.mem_append_right held hx))) hx
  · intro hnil x hx
    rw [hnil, List.append_nil] at h
    exact h.symm.subset hx

end Lost

variable (env : Readiness) (h : ExocoreProtoHandler)

theorem sendToIdle_messages : h.sendToIdle.outboundMessages.Perm h.outboundMessages := by
  unfold sendToIdle
  split
  · rename_i stream message queue hidle hqueue
    apply List.perm_iff_count.mpr
    intro m
    have hcons : message :: queue = [message] ++ queue := rfl
    simp only [outboundMessages, hqueue]
    simp only [hcons, List.count_append, List.map_append, List.map_cons, List.map_nil]
    omega
  · rfl

@[simp] theorem sendToIdle_inbound :
    h.sendToIdle.inboundStreamFutures = h.inboundStreamFutures := by
  unfold sendToIdle
  split <;> rfl

theorem any_eq_false {A : Type} (stops : A → Bool) (as : List A) :
    as.any stops = false ↔ ∀ a ∈ as, stops a = false := by
  simp only [List.any_eq_false, Bool.not_eq_true]

/-- The call is ended by a future that failed to write. -/
theorem poll_writeFailed (hask : ¬ h.AsksToDial) (e : IoError) (t : PollTurn)
    (hturn : (PollTurn.start h.sendToIdle).pollAllOutbound env = (some e, t)) :
    h.poll env = (some (.notifyBehaviour (.error e)), t) := by
  rw [poll, if_neg hask, hturn]

/-- All futures that write were polled, those that read may end the call. -/
theorem poll_reads (hask : ¬ h.AsksToDial) (t : PollTurn)
    (hturn : (PollTurn.start h.sendToIdle).pollAllOutbound env = (none, t)) :
    h.poll env =
      ((t.pollAllInbound env).1.map .notifyBehaviour, (t.pollAllInbound env).2) := by
  rw [poll, if_neg hask, hturn]
  dsimp only
  rcases t.pollAllInbound env with ⟨_ | result, t'⟩ <;> rfl

theorem pollKeeps_writeFailed (hask : ¬ h.AsksToDial) (e : IoError) (t : PollTurn)
    (hturn : (PollTurn.start h.sendToIdle).pollAllOutbound env = (some e, t)) :
    PollKeeps env h ↔
      Loop.unvisited env.stopsWrite h.sendToIdle.outboundStreamFutures = [] := by
  have hpoll := poll_writeFailed env h hask e t hturn
  have hheld := PollTurn.pollAllOutbound_held env (.start h.sendToIdle)
  have hread := PollTurn.pollAllOutbound_readPart env (.start h.sendToIdle)
  have hfailures := PollTurn.pollAllOutbound_failures env (.start h.sendToIdle)
  rw [PollTurn.start_outboundHeld] at hheld
  rw [hturn] at hheld hread hfailures
  simp only [PollTurn.readPart, PollTurn.start, sendToIdle_inbound, Prod.mk.injEq] at hread
  obtain ⟨hinbound, hnoRead, -, -⟩ := hread
  have hlost := perm_iff_nothing_lost (hheld.trans (sendToIdle_messages h))
  rw [List.map_eq_nil_iff] at hlost
  constructor
  · intro hkeeps
    have hperm := hkeeps.outbound
    rw [hpoll] at hperm
    exact hlost.mp hperm
  · intro hnone
    refine ⟨?_, ?_, ?_, ?_⟩
    · rw [hpoll, inboundSubstreams, inboundSubstreams, hinbound]
      exact fun substream hmem _ => hmem
    · rw [hpoll]
      exact hnoRead
    · rw [hpoll]
      exact hlost.mpr hnone
    · rw [hpoll]
      intro failure hmem
      have hone := List.mem_map_of_mem (f := Prod.snd) hmem
      rw [hfailures] at hone
      rw [List.mem_singleton.mp hone]

theorem pollKeeps_reads (hnodup : h.inboundSubstreams.Nodup) (hask : ¬ h.AsksToDial)
    (t : PollTurn) (hturn : (PollTurn.start h.sendToIdle).pollAllOutbound env = (none, t))
    (hwhole : Loop.unvisited env.stopsWrite h.sendToIdle.outboundStreamFutures = []) :
    PollKeeps env h ↔ Loop.unvisited env.stopsRead h.inboundStreamFutures = [] := by
  have hpoll := poll_reads env h hask t hturn
  have hheld := PollTurn.pollAllOutbound_held env (.start h.sendToIdle)
  have hpart := PollTurn.pollAllOutbound_readPart env (.start h.sendToIdle)
  have hfailures := PollTurn.pollAllOutbound_failures env (.start h.sendToIdle)
  have hread := PollTurn.pollAllInbound_read env t
  have hsubstreams := PollTurn.pollAllInbound_held env t
  have hwrite := PollTurn.pollAllInbound_writePart env t
  rw [PollTurn.start_outboundHeld, hturn] at hheld
  rw [hturn] at hpart hfailures
  change (t.outboundHeld ++ (Loop.unvisited env.stopsWrite
    h.sendToIdle.outboundStreamFutures).map _).Perm _ at hheld
  rw [hwhole, List.map_nil, List.append_nil] at hheld
  simp only [PollTurn.readPart, PollTurn.start, sendToIdle_inbound, Prod.mk.injEq] at hpart
  obtain ⟨hinbound, hnoRead, hnoFailure, -⟩ := hpart
  have hwritten : t.writeFailures = [] := List.map_eq_nil_iff.mp hfailures
  -- the second loop has the handler's substreams to work on, and all of its messages
  simp only [PollTurn.writePart, Prod.mk.injEq] at hwrite
  obtain ⟨hhandler, hwrittenSame, hfailuresSame⟩ := hwrite
  have hmessages : (t.pollAllInbound env).2.outboundHeld = t.outboundHeld := by
    have hqueue := congrArg outboundMessages hhandler
    change (t.pollAllInbound env).2.handler.outboundMessages = t.handler.outboundMessages at hqueue
    rw [PollTurn.outboundHeld, PollTurn.outboundHeld, hqueue, hwrittenSame, hfailuresSame]
  have hstart : t.inboundHeld = h.inboundSubstreams := by
    rw [PollTurn.inboundHeld, inboundSubstreams, inboundSubstreams, hinbound, hnoFailure,
      List.map_nil, List.append_nil]
  rw [hstart, hinbound] at hsubstreams
  have hlost := subset_iff_nothing_lost hsubstreams hnodup
  rw [List.map_eq_nil_iff] at hlost
  constructor
  · intro hkeeps
    apply hlost.mp
    intro substream hmem
    have hinbound := hkeeps.inbound substream hmem
    rw [hpoll] at hinbound
    by_cases hfailed : substream ∈ (t.pollAllInbound env).2.readFailures.map Prod.fst
    · exact List.mem_append_right _ hfailed
    · exact List.mem_append_left _ (hinbound hfailed)
  · intro hnone
    refine ⟨?_, ?_, ?_, ?_⟩
    · rw [hpoll]
      intro substream hmem hfailed
      exact (List.mem_append.mp (hlost.mpr hnone substream hmem)).resolve_right hfailed
    · rw [hpoll]
      dsimp only
      rw [hread, hnoRead, List.nil_append]
      rcases (t.pollAllInbound env).1 with _ | _ | _ <;> rfl
    · rw [hpoll]
      have hall := hheld.trans (sendToIdle_messages h)
      rw [← hmessages] at hall
      exact hall.symm
    · rw [hpoll]
      dsimp only
      rw [hfailuresSame, hwritten]
      exact fun failure hmem => absurd hmem List.not_mem_nil

/-- A call keeps what it is to keep iff only the last future of a list ends it. -/
theorem pollKeeps_iff (hnodup : h.inboundSubstreams.Nodup) : PollKeeps env h ↔ Careful env h := by
  by_cases hask : h.AsksToDial
  · have hpoll : h.poll env =
        (some .outboundSubstreamRequest, .start { h with outboundDialing := true }) := if_pos hask
    refine iff_of_true ⟨?_, ?_, ?_, ?_⟩ (Or.inl hask)
    · rw [hpoll]
      exact fun substream hmem _ => hmem
    · rw [hpoll]
      rfl
    · rw [hpoll]
      simp only [PollTurn.start, List.map_nil, List.append_nil]
      rfl
    · rw [hpoll]
      exact fun failure hmem => absurd hmem List.not_mem_nil
  · have hstops : ((PollTurn.start h.sendToIdle).pollAllOutbound env).1.isSome =
        h.sendToIdle.outboundStreamFutures.any env.stopsWrite :=
      Loop.untilReturn_isSome (PollTurn.pollOutbound_stops env) _ _
    rw [Careful, or_iff_right hask, ← Loop.unvisited_eq_nil_iff, ← Loop.unvisited_eq_nil_iff,
      ← any_eq_false, ← hstops]
    rcases hturn : (PollTurn.start h.sendToIdle).pollAllOutbound env with ⟨_ | e, t⟩
    · rw [hturn] at hstops
      have hwhole : Loop.unvisited env.stopsWrite h.sendToIdle.outboundStreamFutures = [] := by
        apply (Loop.unvisited_eq_nil_iff _ _).mpr
        intro fut hmem
        exact (any_eq_false _ _).mp hstops.symm fut (List.dropLast_subset _ hmem)
      rw [pollKeeps_reads env h hnodup hask t hturn hwhole]
      exact ⟨fun hread => ⟨hwhole, fun _ => hread⟩, fun hboth => hboth.2 rfl⟩
    · rw [pollKeeps_writeFailed env h hask e t hturn]
      exact ⟨fun hwhole => ⟨hwhole, fun hfalse => by cases hfalse⟩, fun hboth => hboth.1⟩

/-- The substreams that a handler reads from after a call are some of those before it. -/
theorem poll_inbound : ∃ lost, ((h.poll env).2.handler.inboundSubstreams ++ lost).Perm
    h.inboundSubstreams := by
  by_cases hask : h.AsksToDial
  · rw [poll, if_pos hask]
    exact ⟨[], by rw [List.append_nil]; rfl⟩
  · have hpart := PollTurn.pollAllOutbound_readPart env (.start h.sendToIdle)
    rcases hturn : (PollTurn.start h.sendToIdle).pollAllOutbound env with ⟨_ | e, t⟩
    · rw [hturn] at hpart
      simp only [PollTurn.readPart, PollTurn.start, sendToIdle_inbound, Prod.mk.injEq] at hpart
      obtain ⟨hinbound, -, hnoFailure, -⟩ := hpart
      have hheld := PollTurn.pollAllInbound_held env t
      rw [PollTurn.inboundHeld, PollTurn.inboundHeld, inboundSubstreams, inboundSubstreams, hinbound,
        hnoFailure, List.map_nil, List.append_nil, List.append_assoc] at hheld
      rw [poll_reads env h hask t hturn]
      exact ⟨_, hheld⟩
    · rw [hturn] at hpart
      simp only [PollTurn.readPart, PollTurn.start, sendToIdle_inbound, Prod.mk.injEq] at hpart
      rw [poll_writeFailed env h hask e t hturn, inboundSubstreams, inboundSubstreams, hpart.1]
      exact ⟨[], by rw [List.append_nil]⟩

end ExocoreProtoHandler

namespace Connection

/-- No substream is read from twice, and those to come are new. -/
def Distinct (c : Connection) : Prop :=
  c.handler.inboundSubstreams.Nodup ∧ ∀ substream ∈ c.handler.inboundSubstreams, substream < c.opened

theorem distinct_new : new.Distinct :=
  ⟨List.nodup_nil, fun _ hmem => absurd hmem List.not_mem_nil⟩

theorem Distinct.step {c : Connection} (h : c.Distinct) (event : ConnectionEvent) :
    (c.step event).Distinct := by
  cases event with
  | behaviourEvent message => exact h
  | dialUpgradeError => exact h
  | fullyNegotiatedOutbound => exact ⟨h.1, fun substream hmem => Nat.lt_succ_of_lt (h.2 substream hmem)⟩
  | fullyNegotiatedInbound =>
    have hnew : (c.step .fullyNegotiatedInbound).handler.inboundSubstreams =
        c.handler.inboundSubstreams ++ [c.opened] := List.map_append
    constructor
    · rw [hnew, List.nodup_append]
      refine ⟨h.1, List.nodup_singleton _, ?_⟩
      intro substream hmem other hother
      rw [List.mem_singleton.mp hother]
      exact ne_of_lt (h.2 substream hmem)
    · rw [hnew]
      intro substream hmem
      change substream < c.opened + 1
      rcases List.mem_append.mp hmem with hold | hlast
      · exact Nat.lt_succ_of_lt (h.2 substream hold)
      · rw [List.mem_singleton.mp hlast]
        exact Nat.lt_succ_self _
  | poll env =>
    obtain ⟨lost, hperm⟩ := c.handler.poll_inbound env
    have hnodup := hperm.nodup_iff.mpr h.1
    refine ⟨hnodup.of_append_left, ?_⟩
    intro substream hmem
    exact h.2 substream (hperm.subset (List.mem_append_left lost hmem))

def Keeps (c : Connection) : ConnectionEvent → Prop
  | .poll env => c.handler.PollKeeps env
  | _ => True

def Careful (c : Connection) : ConnectionEvent → Prop
  | .poll env => c.handler.Careful env
  | _ => True

/-- In every run, each call keeps what it is to keep iff each is ended by the last future of a list
or by none. -/
theorem run_keeps_iff (events : List ConnectionEvent) :
    Run.Allowed step Keeps new events ↔ Run.Allowed step Careful new events := by
  apply Run.allowed_congr step Keeps Careful Distinct ?_ ?_ new events distinct_new
  · intro c event h
    cases event with
    | poll env => exact c.handler.pollKeeps_iff env h.1
    | _ => exact Iff.rfl
  · intro c event h _
    exact h.step event

/-- The first of two substreams has a message, and the second one is dropped. -/
theorem twoSubstreams_not_keeps : ¬ Run.Allowed step Keeps new
    [.fullyNegotiatedInbound, .fullyNegotiatedInbound,
      .poll ⟨fun _ => .pending, fun substream =>
        if substream = 0 then .message ⟨[1], none⟩ else .pending⟩] := by
  rintro ⟨-, -, hkeeps, -⟩
  have hheld := hkeeps.inbound 1 (by decide) (by decide)
  exact absurd hheld (by decide)

end Connection

end Exocore.Transport
