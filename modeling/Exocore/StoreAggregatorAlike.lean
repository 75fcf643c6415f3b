import Exocore.StoreAggregated

/-! What the aggregator makes of its mutations, apart from the type of a trait and its references;
and the puts that it keeps of each trait. -/
namespace Exocore.Store

/-- The mutation without what is only read by search. -/
def MutationMetadata.plain (m : MutationMetadata) : MutationMetadata :=
  { m with mutationType := match m.mutationType with
      | .traitPut put => .traitPut { put with traitType := none, hasReference := false }
      | mutationType => mutationType }

def TraitAggregator.plain (agg : TraitAggregator) : TraitAggregator :=
  { agg with putMutations := agg.putMutations.map .plain, hasReference := false }

/-- The traits are the same, apart from what is only read by search. -/
def PlainTraits (traits traits' : Traits) : Prop :=
  ∀ traitId, traits'.lookup traitId = (traits.lookup traitId).map .plain

namespace PlainTraits
variable {traits traits' : Traits}

theorem getForTrait (h : PlainTraits traits traits') (traitId : TraitId) :
    TraitAggregator.getForTrait traits' traitId =
      (TraitAggregator.getForTrait traits traitId).plain := by
  rw [TraitAggregator.getForTrait, TraitAggregator.getForTrait, h traitId]
  cases traits.lookup traitId with
  | none => rfl
  | some agg => rfl

theorem insert (h : PlainTraits traits traits') (traitId : TraitId) (agg : TraitAggregator) :
    PlainTraits (traits.insert traitId agg) (traits'.insert traitId agg.plain) := by
  intro other
  by_cases heq : other = traitId
  · subst heq
    rw [AList.lookup_insert, AList.lookup_insert]
    rfl
  · rw [AList.lookup_insert_ne heq, AList.lookup_insert_ne heq]
    exact h other

theorem pushDelete (h : PlainTraits traits traits') (operationId : OperationId) :
    PlainTraits (traits.mapValues (·.pushDeleteMutation operationId))
      (traits'.mapValues (·.pushDeleteMutation operationId)) := by
  intro traitId
  rw [lookup_mapValues, lookup_mapValues, h traitId]
  cases traits.lookup traitId with
  | none => rfl
  | some agg => rfl

theorem allDeleted (h : PlainTraits traits traits') :
    TraitAggregator.allDeleted traits' = TraitAggregator.allDeleted traits := by
  rw [Bool.eq_iff_iff, allDeleted_iff, allDeleted_iff]
  constructor
  · intro hall traitId agg hlookup
    have hplain : traits'.lookup traitId = some agg.plain := by
      rw [h traitId, hlookup]
      rfl
    exact hall traitId agg.plain hplain
  · intro hall traitId agg hlookup
    rw [h traitId, Option.map_eq_some_iff] at hlookup
    obtain ⟨old, hold, rfl⟩ := hlookup
    exact hall traitId old hold

end PlainTraits

theorem TraitAggregator.plain_pushPut (agg : TraitAggregator) (m : MutationMetadata)
    (put : PutTraitMetadata) :
    agg.plain.pushPutMutation m.plain { put with traitType := none, hasReference := false } =
      (agg.pushPutMutation m put).plain := by
  simp only [pushPutMutation, plain, List.map_append, List.map_cons, List.map_nil]
  rfl

namespace Aggregation

/-- The states of two loops whose mutations only differ in what search reads. -/
structure Alike (s s' : Aggregation) : Prop where
  creationDate : s'.creationDate = s.creationDate
  modificationDate : s'.modificationDate = s.modificationDate
  deletionDate : s'.deletionDate = s.deletionDate
  lastOperationId : s'.lastOperationId = s.lastOperationId
  prevOperationId : s'.prevOperationId = s.prevOperationId
  traits : PlainTraits s.traits s'.traits

theorem alike_start : Alike start start := ⟨rfl, rfl, rfl, rfl, rfl, fun _ => rfl⟩

theorem Alike.putTrait {s s' : Aggregation} (h : Alike s s') (m : MutationMetadata)
    (put : PutTraitMetadata) :
    Option.Rel Alike (s.putTrait m put)
      (s'.putTrait m.plain { put with traitType := none, hasReference := false }) := by
  have hagg := h.traits.getForTrait put.traitId
  rw [Aggregation.putTrait, Aggregation.putTrait]
  simp only [hagg]
  have hlate : (TraitAggregator.getForTrait s.traits put.traitId).plain.isLate m.plain.operationId =
      (TraitAggregator.getForTrait s.traits put.traitId).isLate m.operationId := rfl
  rw [hlate]
  split_ifs with hisLate
  · exact Option.Rel.none
  · rw [TraitAggregator.plain_pushPut]
    refine Option.Rel.some ⟨?_, ?_, rfl, h.lastOperationId, h.prevOperationId,
      h.traits.insert put.traitId _⟩
    · exact congrArg (updateIfOlder · _) h.creationDate
    · exact congrArg (updateIfNewer · _) h.modificationDate

theorem Alike.deleteTrait {s s' : Aggregation} (h : Alike s s') (operationId : OperationId)
    (traitId : TraitId) :
    Option.Rel Alike (s.deleteTrait operationId traitId) (s'.deleteTrait operationId traitId) := by
  have hagg := h.traits.getForTrait traitId
  rw [Aggregation.deleteTrait, Aggregation.deleteTrait]
  simp only [hagg]
  have hlate : (TraitAggregator.getForTrait s.traits traitId).plain.isLate operationId =
      (TraitAggregator.getForTrait s.traits traitId).isLate operationId := rfl
  have htraits := h.traits.insert traitId
    ((TraitAggregator.getForTrait s.traits traitId).pushDeleteMutation operationId)
  have hpush : (TraitAggregator.getForTrait s.traits traitId).plain.pushDeleteMutation operationId =
      ((TraitAggregator.getForTrait s.traits traitId).pushDeleteMutation operationId).plain := rfl
  rw [hlate, hpush, htraits.allDeleted]
  split_ifs with hisLate hall
  · exact Option.Rel.none
  · exact Option.Rel.some ⟨rfl, rfl, rfl, h.lastOperationId, h.prevOperationId, htraits⟩
  · exact Option.Rel.some ⟨h.creationDate, congrArg (updateIfNewer · _) h.modificationDate,
      h.deletionDate, h.lastOperationId, h.prevOperationId, htraits⟩

theorem Alike.deleteEntity {s s' : Aggregation} (h : Alike s s') (operationId : OperationId) :
    Option.Rel Alike (s.deleteEntity operationId) (s'.deleteEntity operationId) := by
  have hwiped : Alike (deleteEntity.wiped operationId s) (deleteEntity.wiped operationId s') :=
    ⟨rfl, rfl, rfl, h.lastOperationId, h.prevOperationId, h.traits.pushDelete operationId⟩
  rw [Aggregation.deleteEntity, Aggregation.deleteEntity, h.lastOperationId]
  cases s.lastOperationId with
  | none => exact Option.Rel.some hwiped
  | some last =>
    dsimp only
    split_ifs with hlt
    · exact Option.Rel.none
    · exact Option.Rel.some hwiped

theorem Alike.applyMutation {s s' : Aggregation} (h : Alike s s') (m : MutationMetadata) :
    Option.Rel Alike (s.applyMutation m) (s'.applyMutation m.plain) := by
  rw [Aggregation.applyMutation, Aggregation.applyMutation, MutationMetadata.plain]
  cases hkind : m.mutationType with
  | traitPut put =>
    have hput := h.putTrait m put
    rw [MutationMetadata.plain, hkind] at hput
    exact hput
  | traitTombstone traitId => exact h.deleteTrait m.operationId traitId
  | entityTombstone => exact h.deleteEntity m.operationId
  | pendingDeletion =>
    exact Option.Rel.some ⟨h.creationDate, h.modificationDate, h.deletionDate, h.lastOperationId,
      h.prevOperationId, h.traits⟩

theorem Alike.noteLast {s s' : Aggregation} (h : Alike s s') (m : MutationMetadata) :
    Alike (s.noteLast m) (s'.noteLast m.plain) := by
  have hid : m.plain.operationId = m.operationId := rfl
  have hblock : m.plain.blockOffset = m.blockOffset := rfl
  rw [Aggregation.noteLast, Aggregation.noteLast, h.lastOperationId, hid, hblock]
  have hsame : Alike { s with lastOperationId := some m.operationId }
      { s' with lastOperationId := some m.operationId } :=
    ⟨h.creationDate, h.modificationDate, h.deletionDate, rfl, h.prevOperationId, h.traits⟩
  have hpending {t t' : Aggregation} (ht : Alike t t') :
      Alike { t with inPending := true } { t' with inPending := true } :=
    ⟨ht.creationDate, ht.modificationDate, ht.deletionDate, ht.lastOperationId,
      ht.prevOperationId, ht.traits⟩
  have hoffset {t t' : Aggregation} (ht : Alike t t') (offset : BlockOffset) :
      Alike { t with lastBlockOffset := some offset }
        { t' with lastBlockOffset := some offset } :=
    ⟨ht.creationDate, ht.modificationDate, ht.deletionDate, ht.lastOperationId,
      ht.prevOperationId, ht.traits⟩
  cases m.blockOffset with
  | none =>
    split_ifs
    · exact hpending hsame
    · exact hpending h
  | some offset =>
    split_ifs
    · exact hoffset hsame offset
    · exact hoffset h offset

theorem Alike.step {s s' : Aggregation} (h : Alike s s') (m : MutationMetadata) :
    Option.Rel Alike (s.step m) (s'.step m.plain) := by
  have hcount : Alike (s.count m) (s'.count m.plain) :=
    ⟨h.creationDate, h.modificationDate, h.deletionDate, h.lastOperationId, rfl, h.traits⟩
  have hid : m.plain.operationId = m.operationId := rfl
  rw [Aggregation.step, Aggregation.step, h.prevOperationId, hid]
  split_ifs with hprev
  · exact Option.Rel.none
  · have happly := hcount.applyMutation m
    generalize (s.count m).applyMutation m = taken at happly
    generalize (s'.count m.plain).applyMutation m.plain = taken' at happly
    cases happly with
    | none => exact Option.Rel.some hcount
    | some hnext => exact Option.Rel.some (hnext.noteLast m)

theorem Alike.run {s s' : Aggregation} (h : Alike s s') (l : List MutationMetadata) :
    Option.Rel Alike (s.run l) (s'.run (l.map .plain)) := by
  induction l generalizing s s' with
  | nil => exact Option.Rel.some h
  | cons m l ih =>
    have hstep := h.step m
    rw [List.map_cons, Aggregation.run, Aggregation.run]
    generalize s.step m = next at hstep
    generalize s'.step m.plain = next' at hstep
    cases hstep with
    | none => exact Option.Rel.none
    | some hnext => exact ih hnext

end Aggregation

/-! ## The puts of a trait -/

/-- The puts that a trait holds are of these mutations, and of the trait. -/
def PutsOf (l : List MutationMetadata) (traitId : TraitId) (agg : TraitAggregator) : Prop :=
  ∀ m ∈ agg.putMutations, m ∈ l ∧ ∃ put, m.mutationType = .traitPut put ∧ put.traitId = traitId

def AllPutsOf (l : List MutationMetadata) (traits : Traits) : Prop :=
  ∀ traitId agg, traits.lookup traitId = some agg → PutsOf l traitId agg

theorem PutsOf.snoc {l : List MutationMetadata} {traitId : TraitId} {agg : TraitAggregator}
    (h : PutsOf l traitId agg) (m : MutationMetadata) : PutsOf (l ++ [m]) traitId agg := by
  intro p hp
  obtain ⟨hmem, hput⟩ := h p hp
  exact ⟨List.mem_append_left _ hmem, hput⟩

namespace AllPutsOf
variable {l : List MutationMetadata} {traits : Traits}

theorem getForTrait (h : AllPutsOf l traits) (traitId : TraitId) :
    PutsOf l traitId (TraitAggregator.getForTrait traits traitId) := by
  rw [TraitAggregator.getForTrait]
  cases hlookup : traits.lookup traitId with
  | none =>
    intro p hp
    exact absurd hp List.not_mem_nil
  | some agg => exact h traitId agg hlookup

theorem snoc (h : AllPutsOf l traits) (m : MutationMetadata) : AllPutsOf (l ++ [m]) traits :=
  fun traitId agg hlookup => (h traitId agg hlookup).snoc m

theorem insert (h : AllPutsOf l traits) {traitId : TraitId} {agg : TraitAggregator}
    (hagg : PutsOf l traitId agg) : AllPutsOf l (traits.insert traitId agg) := by
  intro other agg' hlookup
  by_cases heq : other = traitId
  · subst heq
    rw [AList.lookup_insert] at hlookup
    exact Option.some.inj hlookup ▸ hagg
  · rw [AList.lookup_insert_ne heq] at hlookup
    exact h other agg' hlookup

theorem applyMutation {s s' : Aggregation} (h : AllPutsOf l s.traits) (m : MutationMetadata)
    (happly : s.applyMutation m = some s') : AllPutsOf (l ++ [m]) s'.traits := by
  rw [Aggregation.applyMutation] at happly
  cases hkind : m.mutationType with
  | traitPut put =>
    simp only [hkind, Aggregation.putTrait] at happly
    split_ifs at happly with hlate
    rw [← Option.some.inj happly]
    apply (h.snoc m).insert
    intro p hp
    rcases List.mem_append.mp hp with hp | hp
    · exact (h.getForTrait put.traitId).snoc m p hp
    · rw [List.mem_singleton.mp hp]
      exact ⟨List.mem_append_right _ List.mem_cons_self, put, hkind, rfl⟩
  | traitTombstone traitId =>
    -- a deletion leaves the puts of the trait as they are
    simp only [hkind, Aggregation.deleteTrait] at happly
    split_ifs at happly with hlate hall <;> rw [← Option.some.inj happly] <;>
      exact (h.snoc m).insert ((h.getForTrait traitId).snoc m)
  | entityTombstone =>
    simp only [hkind] at happly
    intro traitId agg hlookup
    rw [deleteEntity_eq_some _ _ _ happly, Aggregation.deleteEntity.wiped, lookup_mapValues, Option.map_eq_some_iff] at hlookup
    obtain ⟨old, hold, rfl⟩ := hlookup
    exact (h traitId old hold).snoc m
  | pendingDeletion =>
    simp only [hkind] at happly
    rw [← Option.some.inj happly]
    exact h.snoc m

theorem step {s s' : Aggregation} (h : AllPutsOf l s.traits) (m : MutationMetadata)
    (hstep : s.step m = some s') : AllPutsOf (l ++ [m]) s'.traits := by
  rw [Aggregation.step] at hstep
  split_ifs at hstep with hprev
  cases happly : (s.count m).applyMutation m with
  | none =>
    simp only [happly] at hstep
    rw [← Option.some.inj hstep]
    exact h.snoc m
  | some s₁ =>
    simp only [happly] at hstep
    rw [← Option.some.inj hstep, (noteLast_eq s₁ m).1]
    have hcount : AllPutsOf l (s.count m).traits := h
    exact hcount.applyMutation m happly

theorem run {s s' : Aggregation} (h : AllPutsOf l s.traits) (rest : List MutationMetadata)
    (hrun : s.run rest = some s') : AllPutsOf (l ++ rest) s'.traits := by
  exact Aggregation.run_keeps (fun l s => AllPutsOf l s.traits)
    (fun _ _ _ m h hstep => AllPutsOf.step h m hstep) h rest hrun

end AllPutsOf

namespace EntityAggregator

/-- The last put of a trait is one of the mutations and of the trait, and a trait that is not deleted
has one. -/
theorem new_lastPut {l : List MutationMetadata} {e : EntityAggregator} (h : new l = some e)
    {traitId : TraitId} {agg : TraitAggregator} (hlookup : e.traits.lookup traitId = some agg) :
    (agg.deletionDate = none → ∃ p put, agg.lastPutMutation = some (p, put)) ∧
      ∀ p put, agg.lastPutMutation = some (p, put) →
        p ∈ l ∧ p.mutationType = .traitPut put ∧ put.traitId = traitId := by
  obtain ⟨s, hrun, rfl⟩ := Option.map_eq_some_iff.mp h
  have hstart : AllPutsOf [] Aggregation.start.traits := by
    intro traitId agg hnone
    rw [Aggregation.start, AList.lookup_empty] at hnone
    cases hnone
  have hputs := hstart.run l hrun
  have hshown := (aggregated_start.run scanned_start l hrun).shown
  rw [List.nil_append] at hputs hshown
  constructor
  · intro hlive
    obtain ⟨w, -, hshows, -⟩ := hshown traitId agg hlookup
    by_cases hput : ∃ put, w.mutationType = .traitPut put
    · obtain ⟨put, hput⟩ := hput
      refine ⟨w, put, ?_⟩
      rw [TraitAggregator.lastPutMutation, (hshows.put put hput).2]
      simp only [hput]
    · have hdeleted := hshows.deleted fun put hkind => hput ⟨put, hkind⟩
      rw [hlive] at hdeleted
      exact absurd hdeleted Bool.false_ne_true
  · intro p put hlast
    rw [TraitAggregator.lastPutMutation] at hlast
    cases hget : agg.putMutations.getLast? with
    | none =>
      simp only [hget] at hlast
      cases hlast
    | some q =>
      obtain ⟨hmem, put', hkind, htrait⟩ :=
        hputs traitId agg hlookup q (List.mem_of_getLast? hget)
      simp only [hget, hkind] at hlast
      obtain ⟨rfl, rfl⟩ := Prod.mk.inj (Option.some.inj hlast)
      exact ⟨hmem, hkind, htrait⟩

/-- The aggregators agree in all but what search reads. -/
structure Alike (e e' : EntityAggregator) : Prop where
  creationDate : e'.creationDate = e.creationDate
  modificationDate : e'.modificationDate = e.modificationDate
  deletionDate : e'.deletionDate = e.deletionDate
  lastOperationId : e'.lastOperationId = e.lastOperationId
  traits : PlainTraits e.traits e'.traits

theorem new_alike {l : List MutationMetadata} {e : EntityAggregator} (h : new l = some e) :
    ∃ e', new (l.map .plain) = some e' ∧ Alike e e' := by
  obtain ⟨s, hrun, rfl⟩ := Option.map_eq_some_iff.mp h
  have halike := Aggregation.alike_start.run l
  rw [hrun] at halike
  generalize hrun' : Aggregation.start.run (l.map .plain) = r at halike
  cases halike with
  | some hs =>
    refine ⟨_, congrArg (Option.map ofAggregation) hrun', hs.creationDate, ?_, hs.deletionDate,
      congrArg (Option.getD · 0) hs.lastOperationId, hs.traits⟩
    rw [ofAggregation, ofAggregation, hs.creationDate, hs.modificationDate]

end EntityAggregator

end Exocore.Store
