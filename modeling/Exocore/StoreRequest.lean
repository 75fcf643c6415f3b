import Exocore.EngineStatuses
import Exocore.StoreIndexContent
import Exocore.StoreMutationTracker

/-! Mutation requests on the chain engine. The mutations are written one after the other, and the
first that fails ends the request. -/
namespace Exocore.Store

open Exocore.Core Exocore.Chain Exocore.Pending

section Requests
variable [Crates]

/-- What a write of an entry meets: what the others have the engine do before it gets the lock,
the error if it does not get it, and the time and the bytes of its operation. -/
structure WriteInput where
  others : List Engine.EngineStep
  unavailable : Option Engine.EngineError
  consistentTime : OperationId
  encodeToVec : EntityMutation → Bytes

/-- The parts of the store that do not change. -/
structure StoreInner where
  chainHandle : Engine.EngineInner
  input : ℕ → WriteInput
  uuid : ℕ → String

/-- The writes and the ids that were generated are counted to tell which input is the next one. -/
structure StoreState (CS : Type) where
  engine : Engine.EngineState CS
  writes : ℕ
  generated : ℕ
  mutationTracker : MutationTracker

/-- The receiving side of the answer to a request. -/
inductive MutationReceiver where
  | sent (operationIds : List OperationId)
  | tracked (requestId : RequestId)
deriving DecidableEq

namespace StoreInner

section Model
variable {CS : Type} [Engine.ChainRangeStore CS] (c : StoreInner)

def generatePrefixedId (text : String) : Action (StoreState CS) StoreError String := fun s =>
  (.ok (text ++ c.uuid s.generated), { s with generated := s.generated + 1 })

def nextWrite : Action (StoreState CS) StoreError WriteInput := fun s =>
  (.ok (c.input s.writes), { s with
    engine := Run.exec c.chainHandle.step s.engine (c.input s.writes).others
    writes := s.writes + 1 })

def onEngine {A : Type} (x : Action (Engine.HandlerState CS) Engine.EngineError A) :
    Action (StoreState CS) StoreError A := fun s =>
  match x s.engine.start with
  | (r, h) => (liftError .chainEngine r, { s with engine := h.engine })

def buildEntry (input : WriteInput) (mutation : EntityMutation) :
    Res Engine.EngineError NewOperation :=
  match input.unavailable with
  | some e => .error (.error e)
  | none => liftError .operation (OperationBuilder.newEntry input.consistentTime
      c.chainHandle.cell.localNode (input.encodeToVec mutation)).signAndBuild

def writeEntryOperation (mutation : EntityMutation) :
    Action (StoreState CS) StoreError OperationId := do
  let input ← c.nextWrite
  let operation ← Action.lift (liftError .chainEngine (c.buildEntry input mutation))
  onEngine (c.chainHandle.handleNewOperation operation)
  pure input.consistentTime

def handle : RequestHandle (StoreState CS) := ⟨c.generatePrefixedId, c.writeEntryOperation⟩

def trackRequest (now : ℕ) (operationIds : List OperationId) :
    Action (StoreState CS) StoreError MutationReceiver := fun s =>
  (.ok (.tracked s.mutationTracker.nextRequestId),
    { s with mutationTracker := s.mutationTracker.trackRequest now operationIds })

def handleMutationRequest (now : ℕ) (request : MutationRequest) :
    Action (StoreState CS) StoreError MutationReceiver := do
  let (operationIds, tracked) ← c.handle.handleMutationRequest request
  if tracked then trackRequest now operationIds else pure (.sent operationIds)

end Model

end StoreInner

end Requests

section Ids

/-- The entity of the mutation before this one. -/
def previousId (last : Option String) (carried : List EntityMutation) : ℕ → Option String
  | 0 => last
  | i + 1 => (carried[i]?).map EntityMutation.entityId

theorem previousId_cons (last : Option String) (w : EntityMutation) (carried : List EntityMutation)
    (i : ℕ) : previousId last (w :: carried) (i + 1) = previousId (some w.entityId) carried i := by
  cases i with
  | zero => rfl
  | succ i => simp only [previousId, List.getElem?_cons_succ]

/-- The mutation comes without an entity, and does not get that of the one before. -/
def NeedsId (commonEntityId : Bool) (last : Option String) (asked carried : List EntityMutation)
    (i : ℕ) : Prop :=
  (∃ m, asked[i]? = some m ∧ m.entityId = "") ∧
    (commonEntityId = false ∨ previousId last carried i = none)

/-- The mutation is the same, but for the id of a trait that comes without one. -/
def SameContent (uuid : ℕ → String) (asked carried : EntityMutation) : Prop :=
  match asked.mutation with
  | some (.putTrait (some trt)) =>
    if trt.id ≠ "" then carried.mutation = asked.mutation
    else ∃ k, carried.mutation = some (.putTrait (some { trt with id := "trt" ++ uuid k }))
  | _ => carried.mutation = asked.mutation

/-- The mutations of a request with their ids: one that comes with an entity keeps it, and the
others get that of the mutation before, or a draw of their own. -/
structure Carries (commonEntityId : Bool) (uuid : ℕ → String) (last : Option String) (drawn : ℕ)
    (asked carried : List EntityMutation) : Prop where
  length : carried.length = asked.length
  given : ∀ (i : ℕ) (m w : EntityMutation), asked[i]? = some m → carried[i]? = some w →
    m.entityId ≠ "" → w.entityId = m.entityId
  inherited : ∀ (i : ℕ) (m w : EntityMutation) (previous : String), asked[i]? = some m →
    carried[i]? = some w → m.entityId = "" → commonEntityId = true →
    previousId last carried i = some previous → w.entityId = previous
  fresh : ∃ draw : ℕ → ℕ,
    (∀ i, NeedsId commonEntityId last asked carried i → drawn ≤ draw i) ∧
    (∀ i j, NeedsId commonEntityId last asked carried i →
      NeedsId commonEntityId last asked carried j → draw i = draw j → i = j) ∧
    ∀ (i : ℕ) (w : EntityMutation), NeedsId commonEntityId last asked carried i →
      carried[i]? = some w → w.entityId = "et" ++ uuid (draw i)
  content : ∀ (i : ℕ) (m w : EntityMutation), asked[i]? = some m → carried[i]? = some w →
    SameContent uuid m w

/-- Where the first mutation gets its entity from. -/
inductive GetsId (commonEntityId : Bool) (uuid : ℕ → String) (last : Option String)
    (drawn drawn' : ℕ) (m : EntityMutation) (entityId : String) : Prop
  | given (h : m.entityId ≠ "") (hid : entityId = m.entityId)
  | inherited (h : m.entityId = "") (hcommon : commonEntityId = true) (hlast : last = some entityId)
  | fresh (h : m.entityId = "") (hnone : commonEntityId = false ∨ last = none)
    (hid : entityId = "et" ++ uuid drawn) (hdrawn : drawn < drawn')

variable {commonEntityId : Bool} {uuid : ℕ → String} {last : Option String} {drawn drawn' : ℕ}
  {m w : EntityMutation} {asked carried : List EntityMutation}

theorem carries_nil : Carries commonEntityId uuid last drawn [] [] := by
  have hnone : ∀ i, ¬ NeedsId commonEntityId last [] [] i := by
    rintro i ⟨⟨m, hm, -⟩, -⟩
    simp at hm
  refine ⟨rfl, ?_, ?_, ⟨id, ?_, ?_, ?_⟩, ?_⟩
  · intro i m w hm
    simp at hm
  · intro i m w previous hm
    simp at hm
  · exact fun i h => absurd h (hnone i)
  · exact fun i j h => absurd h (hnone i)
  · exact fun i w h => absurd h (hnone i)
  · intro i m w hm
    simp at hm

theorem GetsId.mono {drawn'' : ℕ} {entityId : String} (hle : drawn' ≤ drawn'')
    (h : GetsId commonEntityId uuid last drawn drawn' m entityId) :
    GetsId commonEntityId uuid last drawn drawn'' m entityId := by
  cases h with
  | given h hid => exact .given h hid
  | inherited h hcommon hlast => exact .inherited h hcommon hlast
  | fresh h hnone hid hdrawn => exact .fresh h hnone hid (hdrawn.trans_le hle)

theorem Carries.cons (hid : GetsId commonEntityId uuid last drawn drawn' m w.entityId)
    (hdrawn : drawn ≤ drawn') (hcontent : SameContent uuid m w)
    (h : Carries commonEntityId uuid (some w.entityId) drawn' asked carried) :
    Carries commonEntityId uuid last drawn (m :: asked) (w :: carried) := by
  have htail : ∀ i, NeedsId commonEntityId last (m :: asked) (w :: carried) (i + 1) →
      NeedsId commonEntityId (some w.entityId) asked carried i := by
    rintro i ⟨hm, hnone⟩
    rw [previousId_cons] at hnone
    exact ⟨hm, hnone⟩
  -- only a draw gives the first mutation an id where it needs one
  have hhead : NeedsId commonEntityId last (m :: asked) (w :: carried) 0 →
      w.entityId = "et" ++ uuid drawn ∧ drawn < drawn' := by
    rintro ⟨⟨m', hm', hempty⟩, hnone⟩
    obtain rfl : m = m' := Option.some.inj hm'
    cases hid with
    | given hgiven _ => exact absurd hempty hgiven
    | inherited _ hcommon hlast =>
      rcases hnone with hfalse | hlast'
      · rw [hcommon] at hfalse
        contradiction
      · rw [previousId, hlast] at hlast'
        contradiction
    | fresh _ _ hfresh hlt => exact ⟨hfresh, hlt⟩
  obtain ⟨draw, hle, hinj, hdraw⟩ := h.fresh
  let draw' : ℕ → ℕ
    | 0 => drawn
    | i + 1 => draw i
  constructor
  case length => rw [List.length_cons, List.length_cons, h.length]
  case given =>
    intro i m' w' hm' hw' hgiven
    cases i with
    | zero =>
      obtain rfl : m = m' := Option.some.inj hm'
      obtain rfl : w = w' := Option.some.inj hw'
      cases hid with
      | given _ hid => exact hid
      | inherited hempty => exact absurd hempty hgiven
      | fresh hempty => exact absurd hempty hgiven
    | succ i => exact h.given i m' w' hm' hw' hgiven
  case inherited =>
    intro i m' w' previous hm' hw' hempty hcommon hprevious
    cases i with
    | zero =>
      obtain rfl : m = m' := Option.some.inj hm'
      obtain rfl : w = w' := Option.some.inj hw'
      have hlast' : last = some previous := hprevious
      cases hid with
      | given hgiven _ => exact absurd hempty hgiven
      | inherited _ _ hlast => exact Option.some.inj (hlast.symm.trans hlast')
      | fresh _ hnone =>
        rcases hnone with hfalse | hlast
        · rw [hcommon] at hfalse
          contradiction
        · rw [hlast] at hlast'
          contradiction
    | succ i =>
      rw [previousId_cons] at hprevious
      exact h.inherited i m' w' previous hm' hw' hempty hcommon hprevious
  case fresh =>
    refine ⟨draw', ?_, ?_, ?_⟩
    · intro i hneeds
      cases i with
      | zero => exact le_refl drawn
      | succ i => exact hdrawn.trans (hle i (htail i hneeds))
    · intro i j hi hj heq
      cases i with
      | zero =>
        cases j with
        | zero => rfl
        | succ j =>
          have hlt := (hhead hi).2
          have hle := hle j (htail j hj)
          have heq' : drawn = draw j := heq
          omega
      | succ i =>
        cases j with
        | zero =>
          have hlt := (hhead hj).2
          have hle := hle i (htail i hi)
          have heq' : draw i = drawn := heq
          omega
        | succ j => rw [hinj i j (htail i hi) (htail j hj) heq]
    · intro i w' hneeds hw'
      cases i with
      | zero =>
        obtain rfl : w = w' := Option.some.inj hw'
        exact (hhead hneeds).1
      | succ i => exact hdraw i w' (htail i hneeds) hw'
  case content =>
    intro i m' w' hm' hw'
    cases i with
    | zero =>
      obtain rfl : m = m' := Option.some.inj hm'
      obtain rfl : w = w' := Option.some.inj hw'
      exact hcontent
    | succ i => exact h.content i m' w' hm' hw'

end Ids

namespace StoreInner

section Writes
variable [Crates] {CS : Type} [Engine.ChainRangeStore CS] (c : StoreInner)

/-- An entry that is written: the input that it was written with, the mutation that it holds, and
its operation. -/
structure EntryWrite where
  input : ℕ
  mutation : EntityMutation
  operation : NewOperation

def writtenId (w : EntryWrite) : OperationId := (c.input w.input).consistentTime

/-- The operation of the mutation is put in the pending store, and the chain stays as it is. -/
structure Puts (n : Engine.EngineState CS) (w : EntryWrite) (n' : Engine.EngineState CS) :
    Prop where
  built : (OperationBuilder.newEntry (c.writtenId w) c.chainHandle.cell.localNode
    ((c.input w.input).encodeToVec w.mutation)).signAndBuild = .ok w.operation
  pending : ∃ existed, n.pendingStore.putOperation w.operation = .ok (existed, n'.pendingStore)
  chain : n'.chainStore = n.chainStore

/-- The engine takes these writes one after the other, and otherwise only does what the others have
it do. Behind them a write may be refused. -/
inductive Writes : ℕ → Engine.EngineState CS → List EntryWrite → ℕ → Engine.EngineState CS → Prop
  | done (k : ℕ) (n : Engine.EngineState CS) : Writes k n [] k n
  | refused (k : ℕ) (n : Engine.EngineState CS) :
    Writes k n [] (k + 1) (Run.exec c.chainHandle.step n (c.input k).others)
  | write (n n' n'' : Engine.EngineState CS) (k' : ℕ) (w : EntryWrite) (writes : List EntryWrite)
      (put : c.Puts (Run.exec c.chainHandle.step n (c.input w.input).others) w n')
      (rest : Writes (w.input + 1) n' writes k' n'') : Writes w.input n (w :: writes) k' n''

theorem Writes.cons {k k' : ℕ} {n n' n'' : Engine.EngineState CS} {w : EntryWrite}
    {writes : List EntryWrite} (rest : c.Writes (k + 1) n' writes k' n'') (hinput : w.input = k)
    (put : c.Puts (Run.exec c.chainHandle.step n (c.input k).others) w n') :
    c.Writes k n (w :: writes) k' n'' := by
  subst hinput
  exact .write n n' n'' k' w writes put rest

/-- A write that fails leaves the engine to the others. -/
theorem writeEntryOperation_cases (mutation : EntityMutation) (s : StoreState CS) :
    let n := Run.exec c.chainHandle.step s.engine (c.input s.writes).others
    (∃ e, c.handle.writeEntryOperation mutation s =
        (.error e, { s with engine := n, writes := s.writes + 1 })) ∨
      ∃ w n', w.mutation = mutation ∧ w.input = s.writes ∧ c.Puts n w n' ∧ c.handle.writeEntryOperation mutation s =
        (.ok (c.writtenId w), { s with engine := n', writes := s.writes + 1 }) := by
  intro n
  let input := c.input s.writes
  let s' : StoreState CS := { s with engine := n, writes := s.writes + 1 }
  have hnext : c.nextWrite s = (.ok input, s') := rfl
  have hhandle : c.handle.writeEntryOperation mutation s = c.writeEntryOperation mutation s := rfl
  rw [hhandle, writeEntryOperation, Action.bind_of_ok _ _ _ _ _ hnext]
  cases hbuild : c.buildEntry input mutation with
  | error e => exact Or.inl ⟨_, rfl⟩
  | ok operation =>
    have hbuilt : (OperationBuilder.newEntry input.consistentTime c.chainHandle.cell.localNode
        (input.encodeToVec mutation)).signAndBuild = .ok operation := by
      rw [buildEntry] at hbuild
      cases hfree : input.unavailable with
      | some e =>
        rw [hfree] at hbuild
        contradiction
      | none =>
        rw [hfree] at hbuild
        exact (liftError_eq_ok_iff _ _ _).mp hbuild
    rw [liftError_ok, Action.lift_ok_bind]
    rcases Engine.handleNewOperation_puts c.chainHandle operation n with
      ⟨e, hfails⟩ | ⟨h, existed, hputs, hpending, hchain⟩
    · left
      have hcall : onEngine (c.chainHandle.handleNewOperation operation) s' =
          (.error (e.map .chainEngine), s') := by
        rw [onEngine, hfails]
        rfl
      exact ⟨_, Action.bind_of_error _ _ _ _ _ hcall⟩
    · right
      have hcall : onEngine (c.chainHandle.handleNewOperation operation) s' =
          (.ok (), { s' with engine := h.engine }) := by
        rw [onEngine, hputs]
        rfl
      exact ⟨⟨s.writes, mutation, operation⟩, h.engine, rfl, rfl, ⟨hbuilt, ⟨existed, hpending⟩, hchain⟩,
        Action.bind_of_ok _ _ _ _ _ hcall⟩

omit [Engine.ChainRangeStore CS] in
theorem generatePrefixedId_eq (text : String) (s : StoreState CS) :
    c.generatePrefixedId text s =
      (.ok (text ++ c.uuid s.generated), { s with generated := s.generated + 1 }) := rfl

theorem withEntityId_gets (commonEntityId : Bool) (last : Option String) (m : EntityMutation)
    (s : StoreState CS) :
    ∃ w drawn, (c.handle.withEntityId commonEntityId last m : Action (StoreState CS) _ _) s =
        (.ok w, { s with generated := drawn }) ∧ s.generated ≤ drawn ∧
      GetsId commonEntityId c.uuid last s.generated drawn m w.entityId ∧ w.mutation = m.mutation := by
  have hdraw : ((do
      let entityId ← c.handle.generatePrefixedId "et"
      pure { m with entityId := entityId }) : Action (StoreState CS) StoreError EntityMutation) s =
      (.ok { m with entityId := "et" ++ c.uuid s.generated },
        { s with generated := s.generated + 1 }) :=
    Action.bind_of_ok _ _ _ _ _ (c.generatePrefixedId_eq "et" s)
  unfold RequestHandle.withEntityId
  by_cases hgiven : m.entityId ≠ ""
  · refine ⟨m, s.generated, ?_, le_refl _, .given hgiven rfl, rfl⟩
    rw [if_pos hgiven]
    rfl
  · have hempty := not_not.mp hgiven
    rw [if_neg hgiven]
    cases commonEntityId with
    | false => exact ⟨_, _, hdraw, Nat.le_succ _, .fresh hempty (Or.inl rfl) rfl (Nat.lt_succ_self _), rfl⟩
    | true =>
      cases last with
      | none => exact ⟨_, _, hdraw, Nat.le_succ _, .fresh hempty (Or.inr rfl) rfl (Nat.lt_succ_self _), rfl⟩
      | some last => exact ⟨_, _, rfl, le_refl _, .inherited hempty rfl rfl, rfl⟩

theorem withTraitId_gets (m : EntityMutation) (s : StoreState CS) :
    ∃ w drawn, (c.handle.withTraitId m : Action (StoreState CS) _ _) s =
        (.ok w, { s with generated := drawn }) ∧ s.generated ≤ drawn ∧
      w.entityId = m.entityId ∧ SameContent c.uuid m w := by
  obtain ⟨entityId, mutation⟩ := m
  rcases mutation with _ | ((_ | trt) | traitId | _ | ids | _)
  · exact ⟨_, _, rfl, le_refl _, rfl, rfl⟩
  · exact ⟨_, _, rfl, le_refl _, rfl, rfl⟩
  · by_cases hid : trt.id ≠ ""
    · refine ⟨⟨entityId, some (.putTrait (some trt))⟩, s.generated, ?_, le_refl _, rfl, ?_⟩
      · simp only [RequestHandle.withTraitId, if_pos hid]
        rfl
      · simp only [SameContent, if_pos hid]
    · refine ⟨⟨entityId, some (.putTrait (some { trt with id := "trt" ++ c.uuid s.generated }))⟩,
        s.generated + 1, ?_, Nat.le_succ _, rfl, ?_⟩
      · simp only [RequestHandle.withTraitId, if_neg hid]
        exact Action.bind_of_ok _ _ _ _ _ (c.generatePrefixedId_eq "trt" s)
      · simp only [SameContent, if_neg hid]
        exact ⟨s.generated, rfl⟩
  all_goals exact ⟨_, _, rfl, le_refl _, rfl, rfl⟩

/-- What was written of these mutations when the loop over them ends. -/
structure Wrote (commonEntityId : Bool) (last : Option String) (mutations : List EntityMutation)
    (s s' : StoreState CS) (r : Res StoreError (List OperationId)) (writes : List EntryWrite) :
    Prop where
  engine : c.Writes s.writes s.engine writes s'.writes s'.engine
  carries : Carries commonEntityId c.uuid last s.generated (mutations.take writes.length)
    (writes.map EntryWrite.mutation)
  tracker : s'.mutationTracker = s.mutationTracker
  ends : (r = .ok (writes.map c.writtenId) ∧ writes.length = mutations.length ∧
      s'.writes = s.writes + writes.length) ∨
    ∃ e, r = .error e ∧ writes.length < mutations.length

/-- The loop ends before the mutation that fails, and otherwise goes through all of them. -/
theorem writeMutations_wrote (commonEntityId : Bool) (mutations : List EntityMutation)
    (last : Option String) (s : StoreState CS) :
    ∃ writes, c.Wrote commonEntityId last mutations s
      (c.handle.writeMutations commonEntityId last mutations s).2
      (c.handle.writeMutations commonEntityId last mutations s).1 writes := by
  induction mutations generalizing last s with
  | nil => exact ⟨[], .done s.writes s.engine, carries_nil, rfl, Or.inl ⟨rfl, rfl, rfl⟩⟩
  | cons m mutations ih =>
    have hnone (s' : StoreState CS) (e : Fault StoreError)
        (hengine : c.Writes s.writes s.engine [] s'.writes s'.engine)
        (htracker : s'.mutationTracker = s.mutationTracker) :
        c.Wrote commonEntityId last (m :: mutations) s s' (.error e) [] :=
      ⟨hengine, carries_nil, htracker, Or.inr ⟨e, rfl, Nat.zero_lt_succ _⟩⟩
    rw [RequestHandle.writeMutations]
    by_cases htest : m.mutation = some .test
    · rw [if_pos htest]
      exact ⟨[], hnone s _ (.done s.writes s.engine) rfl⟩
    · rw [if_neg htest]
      obtain ⟨m1, drawn1, hentity, hle1, hid, hsame⟩ := c.withEntityId_gets commonEntityId last m s
      obtain ⟨m2, drawn2, htrait, hle2, hkeeps, hcontent⟩ :=
        c.withTraitId_gets m1 { s with generated := drawn1 }
      dsimp only at htrait
      rw [Action.bind_of_ok _ _ _ _ _ hentity, Action.bind_of_ok _ _ _ _ _ htrait]
      rcases c.writeEntryOperation_cases m2 { s with generated := drawn2 } with
        ⟨e, hfails⟩ | ⟨w, n', rfl, hinput, hputs, hwrites⟩
      · rw [Action.bind_of_error _ _ _ _ _ hfails]
        exact ⟨[], hnone _ e (.refused s.writes s.engine) rfl⟩
      · let s1 : StoreState CS := { s with
          engine := n'
          writes := s.writes + 1
          generated := drawn2 }
        rw [Action.bind_of_ok _ _ _ s1 _ hwrites]
        obtain ⟨writes, hwrote⟩ := ih (some w.mutation.entityId) s1
        have hhead : SameContent c.uuid m w.mutation := by
          rw [SameContent, ← hsame]
          exact hcontent
        have hgets : GetsId commonEntityId c.uuid last s.generated drawn2 m w.mutation.entityId :=
          hkeeps ▸ hid.mono hle2
        have hengine := hwrote.engine.cons c hinput hputs
        have hcarries := hwrote.carries.cons hgets (hle1.trans hle2) hhead
        refine ⟨w :: writes, ?_⟩
        rcases hwrote.ends with ⟨hok, hlength, hwrites⟩ | ⟨e, herror, hlength⟩
        · rw [Action.bind_of_ok _ _ _ _ _ (Action.eq_ok_of_fst _ _ _ hok)]
          exact ⟨hengine, hcarries, hwrote.tracker,
            Or.inl ⟨rfl, congrArg Nat.succ hlength, hwrites.trans (Nat.succ_add_eq_add_succ _ _)⟩⟩
        · rw [Action.bind_of_error _ _ _ _ e (Prod.ext herror rfl)]
          exact ⟨hengine, hcarries, hwrote.tracker, Or.inr ⟨e, rfl, Nat.succ_lt_succ hlength⟩⟩

/-- The response names these operations: at once, or when the tracker gives it. -/
def Names (tracker : MutationTracker) (operationIds : List OperationId) : MutationReceiver → Prop
  | .sent sentIds => sentIds = operationIds
  | .tracked requestId => ∀ calls, ∀ answers ∈ Run.outputs TrackerCall.step tracker calls,
    ∀ answer ∈ answers, answer.requestId = requestId →
      answer.operationIds.Nodup ∧ ∀ id, id ∈ answer.operationIds ↔ id ∈ operationIds

/-- A request has written the operations of its mutations in order: all of them where it succeeds,
and those before the one that failed otherwise. -/
theorem handleMutationRequest_wrote (now : ℕ) (request : MutationRequest) (s : StoreState CS) :
    ∃ writes s', c.Writes s.writes s.engine writes s'.writes s'.engine ∧
      Carries request.commonEntityId c.uuid none s.generated
        (request.mutations.take writes.length) (writes.map EntryWrite.mutation) ∧
      ((∃ receiver, c.handleMutationRequest now request s = (.ok receiver, s') ∧
          writes.length = request.mutations.length ∧ s'.writes = s.writes + writes.length ∧
          Names s'.mutationTracker (writes.map c.writtenId) receiver) ∨
        ∃ e, c.handleMutationRequest now request s = (.error e, s') ∧
          writes.length < request.mutations.length ∧ s'.mutationTracker = s.mutationTracker) := by
  obtain ⟨writes, hwrote⟩ := c.writeMutations_wrote request.commonEntityId request.mutations none s
  let s' := (c.handle.writeMutations request.commonEntityId none request.mutations s).2
  rcases hwrote.ends with ⟨hok, hlength, hwrites⟩ | ⟨e, herror, hlength⟩
  · have hwritten : c.handle.handleMutationRequest request s = (.ok (writes.map c.writtenId,
        (request.waitIndexed || request.returnEntities) && !request.mutations.isEmpty), s') :=
      Action.bind_of_ok _ _ _ _ _ (Action.eq_ok_of_fst _ _ _ hok)
    rw [handleMutationRequest, Action.bind_of_ok _ _ _ _ _ hwritten]
    cases (request.waitIndexed || request.returnEntities) && !request.mutations.isEmpty with
    | false => exact ⟨writes, s', hwrote.engine, hwrote.carries, Or.inl ⟨_, rfl, hlength, hwrites, rfl⟩⟩
    | true =>
      refine ⟨writes, { s' with mutationTracker :=
          s'.mutationTracker.trackRequest now (writes.map c.writtenId) },
        hwrote.engine, hwrote.carries, Or.inl ⟨_, rfl, hlength, hwrites, ?_⟩⟩
      intro calls
      exact MutationTracker.outputs_tracked _ _ _ calls
        (MutationTracker.trackRequest_tracks s'.mutationTracker now _)
  · have hwritten : c.handle.handleMutationRequest request s = (.error e, s') :=
      Action.bind_of_error _ _ _ _ e (Prod.ext herror rfl)
    rw [handleMutationRequest, Action.bind_of_error _ _ _ _ _ hwritten]
    exact ⟨writes, s', hwrote.engine, hwrote.carries, Or.inr ⟨e, rfl, hlength, hwrote.tracker⟩⟩

end Writes

end StoreInner

section Samples

open Engine

/-- The deletion of an entity, as it is encoded. -/
def deletionBytes : Bytes := ofNats [10, 6, 101, 110, 116, 105, 116, 121, 34, 0]

def deletionMessage : Bytes := operationMessage 50 50 0 firstNodeText (dataContent deletionBytes)

def deletionMultihash : Bytes := ofNats
  [22, 32, 33, 140, 203, 124, 90, 255, 7, 57, 122, 16, 30, 191, 231, 188, 157, 48, 143, 141,
  41, 17, 154, 173, 184, 77, 140, 157, 125, 38, 176, 127, 186, 220]

def deletionTables : Tables where
  operations := [(deletionMessage, ⟨50, 50, some firstNode, .entry (some deletionBytes)⟩)]
  headers := []
  signatures := []
  digests := [(deletionMessage, deletionMultihash.drop 2)]
  nodeIds := [firstNode]

@[reducible] def deletionCrates : Crates := deletionTables.crates

attribute [local instance] deletionCrates

/-- The store of the one chain node of the cell. -/
def aloneStore : StoreInner :=
  ⟨aloneEngine, fun _ => ⟨[], none, 50, fun _ => deletionBytes⟩, fun k => toString k⟩

def aloneStoreState : StoreState DirectoryChainStore :=
  ⟨⟨⟨none⟩, .new, genesisChain, .new .default storeAndChain, []⟩, 0, 0, .new 5⟩

def sampleDeletion : EntityMutation := ⟨"entity", some .deleteEntity⟩

/-- The second mutation ends the request, and the operation of the first one is in the pending
store. -/
theorem testMutation_not_allOrNothing :
    let after := aloneStore.handleMutationRequest 0
      ⟨[sampleDeletion, ⟨"entity", some .test⟩], false, false, false⟩ aloneStoreState
    after.1 = .error (.error (.protoFieldExpected "mutation")) ∧
      aloneStoreState.engine.pendingStore.getOperation 50 = none ∧
      (after.2.engine.pendingStore.getOperation 50).map StoredOperation.operationType =
        some .entry := by
  decide +kernel

end Samples

end Exocore.Store
