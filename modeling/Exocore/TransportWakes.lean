import Exocore.TransportSubstreams

/-! What wakes the handler up after a call that returns `Pending`. -/
namespace Exocore.Transport

namespace ExocoreProtoHandler

/-- What is promised of a call that returns `Pending`: the call has polled each future that is
held, and a message in the queue waits for a substream that is dialed or for a write. -/
def Awake (env : Readiness) (h : ExocoreProtoHandler) : Prop :=
  (h.poll env).1 = none →
    (∀ fut ∈ (h.poll env).2.handler.inboundStreamFutures, fut.registered = true) ∧
      (∀ fut ∈ (h.poll env).2.handler.outboundStreamFutures, fut.registered = true) ∧
      ((h.poll env).2.handler.sendQueue = [] ∨ (h.poll env).2.handler.outboundDialing = true ∨
        (h.poll env).2.handler.outboundStreamFutures ≠ [])

/-- When no future ends the call, those that read are all pending, and if messages are left in the
queue behind the one for the idle stream, then no write gives its substream back, and a substream
is dialed or a write is pending. -/
def WorkStarted (env : Readiness) (h : ExocoreProtoHandler) : Prop :=
  ¬ h.AsksToDial →
    (∀ fut ∈ h.sendToIdle.outboundStreamFutures, env.stopsWrite fut = false) →
    (∀ fut ∈ h.inboundStreamFutures, env.stopsRead fut = false) →
      (∀ fut ∈ h.inboundStreamFutures, env.read fut.substream = .pending) ∧
        (h.sendToIdle.sendQueue = [] ∨
          (∀ fut ∈ h.sendToIdle.outboundStreamFutures, env.write fut.substream ≠ .sent) ∧
            (h.sendToIdle.outboundDialing = true ∨
              ∃ fut ∈ h.sendToIdle.outboundStreamFutures, env.write fut.substream = .pending))

end ExocoreProtoHandler

namespace PollTurn
variable (env : Readiness)

/-- An idle stream and messages in the queue are not left together. -/
def IdleServed (t : PollTurn) : Prop :=
  t.handler.idleOutboundStream.isSome = true → t.handler.sendQueue = []

def OutboundRegistered (t : PollTurn) : Prop :=
  ∀ fut ∈ t.handler.outboundStreamFutures, fut.registered = true

def InboundRegistered (t : PollTurn) : Prop :=
  ∀ fut ∈ t.handler.inboundStreamFutures, fut.registered = true

/-- The messages of the queue wait for a write. -/
def Writing (t : PollTurn) : Prop :=
  t.handler.sendQueue = [] ∨ t.handler.outboundStreamFutures ≠ []

variable {t : PollTurn} {fut : OutboundStreamFuture}

/-- A write that is done starts the next one, if there is a message for it. -/
theorem sent_cases (fut : OutboundStreamFuture) (hidle : t.IdleServed) :
    (t.handler.sendQueue = [] ∧ (t.sent fut).handler.sendQueue = [] ∧
        (t.sent fut).handler.outboundStreamFutures = t.handler.outboundStreamFutures) ∨
      ∃ message queue, t.handler.sendQueue = message :: queue ∧
        (t.sent fut).handler.sendQueue = queue ∧
        (t.sent fut).handler.idleOutboundStream = none ∧
        (t.sent fut).handler.outboundStreamFutures =
          t.handler.outboundStreamFutures ++ [⟨fut.substream, message, false⟩] := by
  unfold sent
  dsimp only
  by_cases hsome : t.handler.idleOutboundStream.isSome = true
  · rw [if_pos hsome]
    exact Or.inl ⟨hidle hsome, hidle hsome, rfl⟩
  · rw [if_neg hsome]
    rw [Bool.not_eq_true, Option.isSome_eq_false_iff, Option.isNone_iff_eq_none] at hsome
    cases hqueue : t.handler.sendQueue with
    | nil => exact Or.inl ⟨rfl, rfl, rfl⟩
    | cons message queue => exact Or.inr ⟨message, queue, rfl, rfl, hsome, rfl⟩

/-- What one round that does not end the call leaves. -/
structure OutboundRound (env : Readiness) (t : PollTurn) (fut : OutboundStreamFuture)
    (t' : PollTurn) : Prop where
  idle : t'.IdleServed
  empty : t.handler.sendQueue = [] → t'.handler.sendQueue = []
  queue : env.write fut.substream ≠ .sent → t'.handler.sendQueue = t.handler.sendQueue
  registered : t'.OutboundRegistered ↔
    t.OutboundRegistered ∧ (t.handler.sendQueue = [] ∨ env.write fut.substream ≠ .sent)
  writing : t'.Writing ↔
    t.Writing ∨ env.write fut.substream = .pending ∨ env.write fut.substream = .sent

theorem pollOutbound_round (hidle : t.IdleServed) (hstop : env.stopsWrite fut = false) :
    OutboundRound env t fut (t.pollOutbound env fut).2 := by
  unfold pollOutbound
  unfold Readiness.stopsWrite at hstop
  cases hwrite : env.write fut.substream with
  | failed e =>
    rw [hwrite] at hstop
    cases hstop
  | consumed =>
    refine ⟨hidle, id, fun _ => rfl, ?_, ?_⟩
    · rw [hwrite]
      exact ⟨fun h => ⟨h, Or.inr (by decide)⟩, fun h => h.1⟩
    · rw [hwrite]
      exact ⟨Or.inl, fun h => h.resolve_right (by decide)⟩
  | pending =>
    refine ⟨hidle, id, fun _ => rfl, ?_, ?_⟩
    · rw [hwrite]
      constructor
      · intro h
        exact ⟨fun fut' hmem => h fut' (List.mem_append_left _ hmem), Or.inr (by decide)⟩
      · rintro ⟨h, -⟩ fut' hmem
        rcases List.mem_append.mp hmem with hold | hlast
        · exact h fut' hold
        · rw [List.mem_singleton.mp hlast]
    · refine iff_of_true (Or.inr ?_) (Or.inr (Or.inl hwrite))
      exact List.append_ne_nil_of_right_ne_nil _ (List.cons_ne_nil _ _)
  | sent =>
    rcases sent_cases fut hidle with
      ⟨hqueue, hqueue', hfutures⟩ | ⟨message, queue, hqueue, hqueue', hnone, hfutures⟩
    · refine ⟨fun _ => hqueue', fun _ => hqueue', fun h => absurd hwrite h, ?_, ?_⟩
      · unfold OutboundRegistered
        rw [hfutures]
        exact ⟨fun h => ⟨h, Or.inl hqueue⟩, fun h => h.1⟩
      · exact iff_of_true (Or.inl hqueue') (Or.inl (Or.inl hqueue))
    · refine ⟨?_, ?_, fun h => absurd hwrite h, ?_, ?_⟩
      · intro hsome
        rw [hnone] at hsome
        cases hsome
      · intro hempty
        rw [hqueue] at hempty
        cases hempty
      · refine iff_of_false ?_ ?_
        · intro h
          have hnew := h ⟨fut.substream, message, false⟩
            (by rw [hfutures]; exact List.mem_append_right _ List.mem_cons_self)
          cases hnew
        · rintro ⟨-, hempty | hne⟩
          · rw [hqueue] at hempty
            cases hempty
          · exact hne hwrite
      · refine iff_of_true (Or.inr ?_) (Or.inr (Or.inr hwrite))
        rw [hfutures]
        exact List.append_ne_nil_of_right_ne_nil _ (List.cons_ne_nil _ _)

/-- What the rounds leave when none of them ends the call. -/
theorem outboundRounds (futs : List OutboundStreamFuture) (t : PollTurn) (hidle : t.IdleServed)
    (hstops : ∀ fut ∈ futs, env.stopsWrite fut = false) :
    ((Loop.untilReturn (pollOutbound env) futs t).2.OutboundRegistered ↔ t.OutboundRegistered ∧
        (t.handler.sendQueue = [] ∨ ∀ fut ∈ futs, env.write fut.substream ≠ .sent)) ∧
      ((Loop.untilReturn (pollOutbound env) futs t).2.Writing ↔ t.Writing ∨
        ∃ fut ∈ futs, env.write fut.substream = .pending ∨ env.write fut.substream = .sent) := by
  induction futs generalizing t with
  | nil => simp [Loop.untilReturn]
  | cons fut rest ih =>
    have hfirst := hstops fut List.mem_cons_self
    have hround := pollOutbound_round env hidle hfirst
    have hnone : (t.pollOutbound env fut).1 = none := by
      have hstop := pollOutbound_stops env t fut
      rw [hfirst] at hstop
      exact Option.isNone_iff_eq_none.mp (Option.isSome_eq_false_iff.mp hstop)
    obtain ⟨hregistered, hwriting⟩ := ih (t.pollOutbound env fut).2 hround.idle
      fun fut' hmem => hstops fut' (List.mem_cons_of_mem _ hmem)
    rw [Loop.untilReturn_cons hnone, hregistered, hwriting, hround.registered, hround.writing]
    constructor
    · constructor
      · rintro ⟨⟨hold, hone⟩, hrest⟩
        refine ⟨hold, ?_⟩
        by_cases hsent : env.write fut.substream = .sent
        · exact Or.inl (hone.resolve_right (not_not.mpr hsent))
        · rw [hround.queue hsent] at hrest
          exact hrest.imp_right fun h => List.forall_mem_cons.mpr ⟨hsent, h⟩
      · rintro ⟨hold, hempty | hall⟩
        · exact ⟨⟨hold, Or.inl hempty⟩, Or.inl (hround.empty hempty)⟩
        · obtain ⟨hone, hrest⟩ := List.forall_mem_cons.mp hall
          exact ⟨⟨hold, Or.inr hone⟩, Or.inr hrest⟩
    · rw [List.exists_mem_cons_iff, or_assoc]

/-- The rounds over the futures that read: only those that are pending are registered. -/
theorem inboundRounds (futs : List InboundStreamFuture) (t : PollTurn)
    (hstops : ∀ fut ∈ futs, env.stopsRead fut = false) :
    (Loop.untilReturn (pollInbound env) futs t).2.InboundRegistered ↔
      t.InboundRegistered ∧ ∀ fut ∈ futs, env.read fut.substream = .pending := by
  induction futs generalizing t with
  | nil => simp [Loop.untilReturn]
  | cons fut rest ih =>
    have hfirst := hstops fut List.mem_cons_self
    have hrest := fun t' => ih t' fun fut' hmem => hstops fut' (List.mem_cons_of_mem _ hmem)
    unfold Readiness.stopsRead at hfirst
    rw [Loop.untilReturn, pollInbound]
    cases hread : env.read fut.substream with
    | message message =>
      rw [hread] at hfirst
      cases hfirst
    | failed e =>
      rw [hread] at hfirst
      cases hfirst
    | copied =>
      dsimp only
      rw [hrest]
      refine iff_of_false ?_ ?_
      · rintro ⟨h, -⟩
        have hnew := h ⟨fut.substream, false⟩ (List.mem_append_right _ List.mem_cons_self)
        cases hnew
      · rintro ⟨-, h⟩
        rw [h fut List.mem_cons_self] at hread
        cases hread
    | pending =>
      dsimp only
      rw [hrest, List.forall_mem_cons]
      have hpushed : (t.pushInbound { fut with registered := true }).InboundRegistered ↔
          t.InboundRegistered := by
        constructor
        · exact fun h fut' hmem => h fut' (List.mem_append_left _ hmem)
        · intro h fut' hmem
          rcases List.mem_append.mp hmem with hold | hlast
          · exact h fut' hold
          · rw [List.mem_singleton.mp hlast]
      rw [hpushed, and_iff_right hread]

end PollTurn

namespace ExocoreProtoHandler
variable (env : Readiness) (h : ExocoreProtoHandler)

theorem sendToIdle_idleServed : (PollTurn.start h.sendToIdle).IdleServed := by
  unfold PollTurn.IdleServed PollTurn.start sendToIdle
  dsimp only
  split
  · intro hsome
    cases hsome
  · rename_i hother
    intro hsome
    obtain ⟨stream, hstream⟩ := Option.isSome_iff_exists.mp hsome
    cases hqueue : h.sendQueue with
    | nil => rfl
    | cons message queue => exact absurd hqueue (hother stream message queue hstream)

/-- The call goes on to the futures that read. -/
theorem awake_reads (t : PollTurn)
    (hturn : (PollTurn.start h.sendToIdle).pollAllOutbound env = (none, t))
    (hwrites : ∀ fut ∈ h.sendToIdle.outboundStreamFutures, env.stopsWrite fut = false) :
    ((t.pollAllInbound env).1.map HandlerEvent.notifyBehaviour = none →
      (t.pollAllInbound env).2.InboundRegistered ∧ (t.pollAllInbound env).2.OutboundRegistered ∧
        ((t.pollAllInbound env).2.handler.sendQueue = [] ∨
          (t.pollAllInbound env).2.handler.outboundDialing = true ∨
          (t.pollAllInbound env).2.handler.outboundStreamFutures ≠ [])) ↔
      ((∀ fut ∈ h.inboundStreamFutures, env.stopsRead fut = false) →
        (∀ fut ∈ h.inboundStreamFutures, env.read fut.substream = .pending) ∧
          (h.sendToIdle.sendQueue = [] ∨
            (∀ fut ∈ h.sendToIdle.outboundStreamFutures, env.write fut.substream ≠ .sent) ∧
              (h.sendToIdle.outboundDialing = true ∨
                ∃ fut ∈ h.sendToIdle.outboundStreamFutures,
                  env.write fut.substream = .pending))) := by
  have hpart := PollTurn.pollAllOutbound_readPart env (.start h.sendToIdle)
  rw [hturn] at hpart
  simp only [PollTurn.readPart, PollTurn.start, sendToIdle_inbound, Prod.mk.injEq] at hpart
  obtain ⟨hinbound, -, -, hdialing⟩ := hpart
  have hsome : (t.pollAllInbound env).1.isSome = h.inboundStreamFutures.any env.stopsRead := by
    rw [← hinbound]
    exact Loop.untilReturn_isSome (PollTurn.pollInbound_stops env) _ _
  by_cases hreads : ∀ fut ∈ h.inboundStreamFutures, env.stopsRead fut = false
  · rw [(any_eq_false _ _).mpr hreads] at hsome
    have hnone := Option.isNone_iff_eq_none.mp (Option.isSome_eq_false_iff.mp hsome)
    rw [hnone, Option.map_none, imp_iff_right rfl, imp_iff_right hreads]
    -- the loop over the futures that read leaves the rest of the handler alone
    have hwrite := congrArg Prod.fst (PollTurn.pollAllInbound_writePart env t)
    have hqueue := congrArg ExocoreProtoHandler.sendQueue hwrite
    have hdial := congrArg ExocoreProtoHandler.outboundDialing hwrite
    have hfutures := congrArg ExocoreProtoHandler.outboundStreamFutures hwrite
    simp only [PollTurn.writePart] at hqueue hdial hfutures
    obtain ⟨hregistered, hwriting⟩ := PollTurn.outboundRounds env
      h.sendToIdle.outboundStreamFutures
      { PollTurn.start h.sendToIdle with
        handler := { h.sendToIdle with outboundStreamFutures := [] } }
      (sendToIdle_idleServed h) hwrites
    have hin := PollTurn.inboundRounds env h.inboundStreamFutures
      { t with handler := { t.handler with inboundStreamFutures := [] } } hreads
    change ((PollTurn.start h.sendToIdle).pollAllOutbound env).2.OutboundRegistered ↔ _ at hregistered
    change ((PollTurn.start h.sendToIdle).pollAllOutbound env).2.Writing ↔ _ at hwriting
    rw [hturn] at hregistered hwriting
    have hinAll : (t.pollAllInbound env).2.InboundRegistered ↔
        ∀ fut ∈ h.inboundStreamFutures, env.read fut.substream = .pending := by
      rw [PollTurn.pollAllInbound, hinbound, hin]
      exact and_iff_right fun fut hmem => absurd hmem List.not_mem_nil
    have hout : (t.pollAllInbound env).2.OutboundRegistered ↔ h.sendToIdle.sendQueue = [] ∨
        ∀ fut ∈ h.sendToIdle.outboundStreamFutures, env.write fut.substream ≠ .sent := by
      rw [PollTurn.OutboundRegistered, hfutures]
      exact hregistered.trans (and_iff_right fun fut hmem => absurd hmem List.not_mem_nil)
    have hstart : PollTurn.Writing { PollTurn.start h.sendToIdle with
        handler := { h.sendToIdle with outboundStreamFutures := [] } } ↔
        h.sendToIdle.sendQueue = [] := or_iff_left (not_not.mpr rfl)
    rw [hstart] at hwriting
    rw [hinAll, hout, hqueue, hdial, hfutures, hdialing]
    apply and_congr_right
    intro _
    have hwaits : (t.handler.sendQueue = [] ∨ h.sendToIdle.outboundDialing = true ∨
        t.handler.outboundStreamFutures ≠ []) ↔
        h.sendToIdle.outboundDialing = true ∨ t.Writing := or_left_comm
    rw [hwaits, hwriting]
    constructor
    · rintro ⟨hempty | hnoneSent, hwait⟩
      · exact Or.inl hempty
      · rcases hwait with hdialed | hempty | ⟨fut, hmem, hpending | hsent⟩
        · exact Or.inr ⟨hnoneSent, Or.inl hdialed⟩
        · exact Or.inl hempty
        · exact Or.inr ⟨hnoneSent, Or.inr ⟨fut, hmem, hpending⟩⟩
        · exact absurd hsent (hnoneSent fut hmem)
    · rintro (hempty | ⟨hnoneSent, hdialed | ⟨fut, hmem, hpending⟩⟩)
      · exact ⟨Or.inl hempty, Or.inr (Or.inl hempty)⟩
      · exact ⟨Or.inr hnoneSent, Or.inl hdialed⟩
      · exact ⟨Or.inr hnoneSent, Or.inr (Or.inr ⟨fut, hmem, Or.inl hpending⟩)⟩
  · have hany : h.inboundStreamFutures.any env.stopsRead = true := by
      by_contra hfalse
      exact hreads ((any_eq_false _ _).mp (Bool.not_eq_true _ ▸ hfalse))
    rw [hany] at hsome
    refine iff_of_true (fun hnone => ?_) fun hall => absurd hall hreads
    rw [Option.map_eq_none_iff] at hnone
    rw [hnone] at hsome
    cases hsome

/-- In each state of the handler and for any readiness, a call that returns `Pending` is awake iff
all work was started before its futures were polled. -/
theorem awake_iff : Awake env h ↔ WorkStarted env h := by
  unfold Awake WorkStarted
  by_cases hask : h.AsksToDial
  · rw [poll, if_pos hask]
    exact iff_of_true (fun hnone => by cases hnone) fun hnot => absurd hask hnot
  rw [imp_iff_right hask]
  have hstops : ((PollTurn.start h.sendToIdle).pollAllOutbound env).1.isSome =
      h.sendToIdle.outboundStreamFutures.any env.stopsWrite :=
    Loop.untilReturn_isSome (PollTurn.pollOutbound_stops env) _ _
  rcases hturn : (PollTurn.start h.sendToIdle).pollAllOutbound env with ⟨_ | e, t⟩
  · rw [hturn] at hstops
    rw [imp_iff_right ((any_eq_false _ _).mp hstops.symm), poll_reads env h hask t hturn]
    dsimp only
    exact awake_reads env h t hturn ((any_eq_false _ _).mp hstops.symm)
  · rw [hturn] at hstops
    rw [poll_writeFailed env h hask e t hturn]
    refine iff_of_true (fun hnone => by cases hnone) fun hall => ?_
    rw [(any_eq_false _ _).mpr hall] at hstops
    cases hstops

/-- A write is done while a message waits: the next write is started and not polled. -/
theorem nextWrite_not_awake : ¬ Awake ⟨fun _ => .sent, fun _ => .pending⟩
    ⟨[], false, [⟨0, ⟨[1], none⟩, true⟩], none, [⟨[2], none⟩]⟩ := by
  intro hawake
  have hregistered := (hawake (by decide)).2.1 ⟨0, ⟨[2], none⟩, false⟩ (by decide)
  cases hregistered

end ExocoreProtoHandler

end Exocore.Transport
