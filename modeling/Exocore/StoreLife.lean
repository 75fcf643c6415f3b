import Exocore.StoreCompact

/-! The present life of a trait: the puts that were taken since its last deletion. The aggregator
shows the newest of them, and dates the trait by the oldest. -/
namespace Exocore.Store

/-- The date from which a put makes the trait exist. -/
def createdAt (id : OperationId) (put : PutTraitMetadata) : DateTime :=
  put.creationDate.getD (toDatetime id)

/-- Behind these mutations, the next one is taken as a deletion of the trait. -/
structure Ends (traitId : TraitId) (before : List MutationMetadata) (m : MutationMetadata) :
    Prop where
  deletion : ∀ put, m.mutationType ≠ .traitPut put
  touches : Touches traitId before m
  taken : ¬ Late before m

/-- A put of the trait that was taken, and that no deletion has ended. -/
structure InLife (traitId : TraitId) (l : List MutationMetadata) (p : MutationMetadata)
    (put : PutTraitMetadata) : Prop where
  kind : p.mutationType = .traitPut put
  trait : put.traitId = traitId
  open_ : ∃ front rear, l = front ++ p :: rear ∧ ¬ Late front p ∧
    ∀ middle d rest, rear = middle ++ d :: rest → ¬ Ends traitId (front ++ p :: middle) d

theorem InLife.onTrait {traitId : TraitId} {l : List MutationMetadata} {p : MutationMetadata}
    {put : PutTraitMetadata} (h : InLife traitId l p put) : OnTrait traitId p := by
  rw [OnTrait, h.kind, ← h.trait]
  rfl

theorem InLife.mem {traitId : TraitId} {l : List MutationMetadata} {p : MutationMetadata}
    {put : PutTraitMetadata} (h : InLife traitId l p put) : p ∈ l := by
  obtain ⟨front, rear, rfl, -⟩ := h.open_
  simp

/-- The next mutation ends the life of the trait, or is a put that joins it. -/
theorem inLife_snoc (traitId : TraitId) (l : List MutationMetadata) (m p : MutationMetadata)
    (put : PutTraitMetadata) :
    InLife traitId (l ++ [m]) p put ↔
      InLife traitId l p put ∧ ¬ Ends traitId l m ∨
        p = m ∧ m.mutationType = .traitPut put ∧ put.traitId = traitId ∧ ¬ Late l m := by
  constructor
  · rintro ⟨hkind, htrait, front, rear, hl, hlate, hopen⟩
    rcases split_snoc _ _ _ _ _ hl with ⟨rfl, rfl⟩ | ⟨rear', hl'⟩
    · exact Or.inr ⟨rfl, hkind, htrait, hlate⟩
    · have hrear : rear = rear' ++ [m] := by
        rw [hl', List.append_assoc, List.append_cancel_left_eq, List.cons_append,
          List.cons.injEq] at hl
        exact hl.2.symm
      refine Or.inl ⟨⟨hkind, htrait, front, rear', hl', hlate, ?_⟩, ?_⟩
      · intro middle d rest hsplit
        exact hopen middle d (rest ++ [m]) (by rw [hrear, hsplit]; simp)
      · rw [hl']
        exact hopen rear' m [] hrear
  · rintro (⟨⟨hkind, htrait, front, rear, rfl, hlate, hopen⟩, hends⟩ | ⟨rfl, hkind, htrait, hlate⟩)
    · refine ⟨hkind, htrait, front, rear ++ [m], by simp, hlate, ?_⟩
      intro middle d rest hsplit
      rcases split_snoc _ _ _ _ _ hsplit with ⟨rfl, rfl⟩ | ⟨rest', hrest⟩
      · exact hends
      · exact hopen middle d rest' hrest
    · exact ⟨hkind, htrait, l, [], rfl, hlate, by simp⟩

/-- A mutation that is not taken, or not for the trait, changes nothing of its life. -/
theorem inLife_keep (traitId : TraitId) (l : List MutationMetadata) (m p : MutationMetadata)
    (put : PutTraitMetadata) (hm : Late l m ∨ ¬ Touches traitId l m) :
    InLife traitId (l ++ [m]) p put ↔ InLife traitId l p put := by
  have hends : ¬ Ends traitId l m := fun h => hm.elim h.taken fun hnot => hnot h.touches
  rw [inLife_snoc]
  constructor
  · rintro (⟨h, -⟩ | ⟨-, hkind, htrait, hlate⟩)
    · exact h
    · rcases hm with hlate' | hnot
      · exact absurd hlate' hlate
      · refine absurd (Or.inl ?_) hnot
        rw [OnTrait, hkind, ← htrait]
        rfl
  · exact fun h => Or.inl ⟨h, hends⟩

theorem inLife_end (traitId : TraitId) (l : List MutationMetadata) (m p : MutationMetadata)
    (put : PutTraitMetadata) (hm : Ends traitId l m) : ¬ InLife traitId (l ++ [m]) p put := by
  rw [inLife_snoc]
  rintro (⟨-, hends⟩ | ⟨-, hkind, -⟩)
  · exact hends hm
  · exact hm.deletion put hkind

/-- The date of creation is the oldest of the puts in the present life. -/
structure Dated (traitId : TraitId) (l : List MutationMetadata) (agg : TraitAggregator) :
    Prop where
  oldest : ∀ date, agg.creationDate = some date →
    ∃ p put, InLife traitId l p put ∧ createdAt p.operationId put = date
  before : ∀ p put, InLife traitId l p put →
    ∃ date, agg.creationDate = some date ∧ date ≤ createdAt p.operationId put

/-- What the aggregator shows of a trait. -/
structure Alive (traitId : TraitId) (l : List MutationMetadata) (agg : TraitAggregator) :
    Prop where
  dated : Dated traitId l agg
  live : agg.deletionDate = none → ∃ w put, InLife traitId l w put ∧
    agg.putMutations.getLast? = some w ∧ agg.lastOperationId = some w.operationId ∧
    ∀ p put, InLife traitId l p put → p.operationId ≤ w.operationId
  dead : agg.deletionDate.isSome = true → ∀ p put, ¬ InLife traitId l p put

/-- Each trait is as its life is. -/
def TraitsAlive (l : List MutationMetadata) (traits : Traits) : Prop :=
  ∀ traitId agg, traits.lookup traitId = some agg → Alive traitId l agg

theorem Alive.congr {traitId : TraitId} {l l' : List MutationMetadata} {agg : TraitAggregator}
    (h : Alive traitId l agg)
    (hsame : ∀ p put, InLife traitId l' p put ↔ InLife traitId l p put) : Alive traitId l' agg := by
  obtain ⟨⟨holdest, hbefore⟩, hlive, hdead⟩ := h
  simp only [← hsame] at holdest hbefore hlive hdead
  exact ⟨⟨holdest, hbefore⟩, hlive, hdead⟩

theorem updateIfOlder_some (current : Option DateTime) (new : DateTime) :
    updateIfOlder current (some new) = some (current.elim new (min · new)) := by
  cases current with
  | none => rfl
  | some date =>
    rw [updateIfOlder]
    simp only [Option.isNone_some, isBefore, Bool.false_or, decide_eq_true_eq, Option.elim_some]
    split_ifs with hlt
    · rw [min_eq_right hlt.le]
    · rw [min_eq_left (not_lt.mp hlt)]

/-- A trait that was not seen has no life yet. -/
theorem dated_getForTrait {l : List MutationMetadata} {traits : Traits} (h : TraitsAlive l traits)
    (hseen : TraitsSeen l traits) (traitId : TraitId) :
    Dated traitId l (TraitAggregator.getForTrait traits traitId) := by
  rw [TraitAggregator.getForTrait]
  cases hlookup : traits.lookup traitId with
  | some agg => exact (h traitId agg hlookup).dated
  | none =>
    refine ⟨fun date hdate => ?_, fun p put hp => ?_⟩
    · cases hdate
    · exact absurd hp.onTrait (hseen.unseen traitId hlookup p hp.mem)

/-- A put that is taken joins the life of its trait. -/
theorem alive_pushPut {traitId : TraitId} {l : List MutationMetadata} {agg : TraitAggregator}
    (h : Dated traitId l agg) (m : MutationMetadata) (put : PutTraitMetadata)
    (hkind : m.mutationType = .traitPut put) (htrait : put.traitId = traitId)
    (hlate : ¬ Late l m) : Alive traitId (l ++ [m]) (agg.pushPutMutation m put) := by
  have hends : ¬ Ends traitId l m := fun hends => hends.deletion put hkind
  have hon : OnTrait traitId m := by
    rw [OnTrait, hkind, ← htrait]
    rfl
  have hold (p : MutationMetadata) (put' : PutTraitMetadata) (hp : InLife traitId l p put') :
      InLife traitId (l ++ [m]) p put' :=
    (inLife_snoc _ _ _ _ _).mpr (Or.inl ⟨hp, hends⟩)
  have hnew : InLife traitId (l ++ [m]) m put :=
    (inLife_snoc _ _ _ _ _).mpr (Or.inr ⟨rfl, hkind, htrait, hlate⟩)
  have hcreation : (agg.pushPutMutation m put).creationDate =
      some (agg.creationDate.elim (createdAt m.operationId put)
        (min · (createdAt m.operationId put))) := updateIfOlder_some _ _
  refine ⟨⟨?_, ?_⟩, ?_, ?_⟩
  · intro date hdate
    rw [hcreation, Option.some.injEq] at hdate
    cases hagg : agg.creationDate with
    | none =>
      rw [hagg] at hdate
      exact ⟨m, put, hnew, hdate⟩
    | some old =>
      rw [hagg, Option.elim_some] at hdate
      rcases min_choice old (createdAt m.operationId put) with hmin | hmin
      · obtain ⟨p, put', hp, hcreated⟩ := h.oldest old hagg
        exact ⟨p, put', hold p put' hp, by rw [hcreated, ← hmin, hdate]⟩
      · exact ⟨m, put, hnew, by rw [← hmin, hdate]⟩
  · intro p put' hp
    refine ⟨_, hcreation, ?_⟩
    rcases (inLife_snoc _ _ _ _ _).mp hp with ⟨hp', -⟩ | ⟨rfl, hkind', -⟩
    · obtain ⟨date, hdate, hle⟩ := h.before p put' hp'
      rw [hdate, Option.elim_some]
      exact (min_le_left _ _).trans hle
    · obtain rfl : put' = put := MutationType.traitPut.inj (hkind'.symm.trans hkind)
      cases agg.creationDate with
      | none => exact le_rfl
      | some old => exact min_le_right _ _
  · intro _
    refine ⟨m, put, hnew, List.getLast?_concat, rfl, ?_⟩
    intro p put' hp
    rcases (inLife_snoc _ _ _ _ _).mp hp with ⟨hp', -⟩ | ⟨rfl, -⟩
    · -- an older put would have been late behind a newer one of its trait
      by_contra hlt
      obtain ⟨front, rear, hl, -⟩ := hp'.open_
      exact hlate (Or.inl ⟨traitId, front, p, rear, hon, hl, Or.inl hp'.onTrait, not_le.mp hlt⟩)
    · exact le_rfl
  · intro hdeleted
    cases hdeleted

theorem alive_pushDelete {traitId : TraitId} {l : List MutationMetadata} (agg : TraitAggregator)
    (m : MutationMetadata) (hends : Ends traitId l m) :
    Alive traitId (l ++ [m]) (agg.pushDeleteMutation m.operationId) := by
  have hnone (p : MutationMetadata) (put : PutTraitMetadata) :
      ¬ InLife traitId (l ++ [m]) p put := inLife_end _ _ _ _ _ hends
  refine ⟨⟨fun date hdate => ?_, fun p put hp => absurd hp (hnone p put)⟩, fun hlive => ?_,
    fun _ => hnone⟩
  · cases hdate
  · cases hlive

/-- What one mutation does to the traits and to the date of deletion: it is passed over, or it
is taken by its kind. -/
inductive Steps (l : List MutationMetadata) (s : Aggregation) (m : MutationMetadata)
    (s' : Aggregation) : Prop
  | passed (hpassed : Late l m ∨ IsMarker m) (htraits : s'.traits = s.traits)
      (hdate : s'.deletionDate = s.deletionDate)
  | put (put : PutTraitMetadata) (hkind : m.mutationType = .traitPut put) (hlate : ¬ Late l m)
      (htraits : s'.traits = s.traits.insert put.traitId
        ((TraitAggregator.getForTrait s.traits put.traitId).pushPutMutation m put))
      (hdate : s'.deletionDate = none)
  | tombstone (traitId : TraitId) (hkind : m.mutationType = .traitTombstone traitId)
      (hlate : ¬ Late l m) (htraits : s'.traits = s.traits.insert traitId
        ((TraitAggregator.getForTrait s.traits traitId).pushDeleteMutation m.operationId))
      (hdate : s'.deletionDate = if TraitAggregator.allDeleted s'.traits then
        some (toDatetime m.operationId) else s.deletionDate)
  | wiped (hkind : m.mutationType = .entityTombstone) (hlate : ¬ Late l m)
      (htraits : s'.traits = s.traits.mapValues (·.pushDeleteMutation m.operationId))
      (hdate : s'.deletionDate = some (toDatetime m.operationId))

theorem step_steps {l : List MutationMetadata} {s s' : Aggregation} (h : Scanned l s)
    (m : MutationMetadata) (hstep : s.step m = some s') : Steps l s m s' := by
  rw [Aggregation.step] at hstep
  split_ifs at hstep
  have hnote (s₁ : Aggregation) : (s₁.noteLast m).traits = s₁.traits ∧
      (s₁.noteLast m).deletionDate = s₁.deletionDate :=
    ⟨(noteLast_eq s₁ m).1, (noteLast_eq s₁ m).2.1⟩
  cases hkind : m.mutationType with
  | traitPut put =>
    have hon : OnTrait put.traitId m := by rw [OnTrait, hkind]; rfl
    have hlate := isLate_iff_late h.traits put.traitId m hon
    simp only [Aggregation.applyMutation, hkind, Aggregation.putTrait] at hstep
    split_ifs at hstep with hif
    · rw [← Option.some.inj hstep]
      exact .passed (Or.inl (hlate.mp hif)) rfl rfl
    · rw [← Option.some.inj hstep]
      exact .put put hkind (fun hl => hif (hlate.mpr hl)) (hnote _).1 (hnote _).2
  | traitTombstone traitId =>
    have hon : OnTrait traitId m := by rw [OnTrait, hkind]; rfl
    have hlate := isLate_iff_late h.traits traitId m hon
    simp only [Aggregation.applyMutation, hkind, Aggregation.deleteTrait] at hstep
    split_ifs at hstep with hif hall
    · rw [← Option.some.inj hstep]
      exact .passed (Or.inl (hlate.mp hif)) rfl rfl
    · rw [← Option.some.inj hstep]
      refine .tombstone traitId hkind (fun hl => hif (hlate.mpr hl)) (hnote _).1 ?_
      rw [(hnote _).1, if_pos hall]
      exact (hnote _).2
    · rw [← Option.some.inj hstep]
      refine .tombstone traitId hkind (fun hl => hif (hlate.mpr hl)) (hnote _).1 ?_
      rw [(hnote _).1, if_neg hall]
      exact (hnote _).2
  | entityTombstone =>
    have hnotOn (traitId : TraitId) : ¬ OnTrait traitId m := by
      intro hon
      rw [OnTrait, hkind] at hon
      cases hon
    have hlate : Late l m ↔ ∃ last, s.lastOperationId = some last ∧ m.operationId < last := by
      constructor
      · rintro (⟨traitId, -, -, -, hon, -⟩ | ⟨-, o, ho, hlt⟩)
        · exact absurd hon (hnotOn traitId)
        · have hle := h.last o ho
          cases hlast : s.lastOperationId with
          | none =>
            rw [hlast, Option.getD_none] at hle
            exact absurd (hlt.trans_le hle) (Fin.not_lt_zero _)
          | some last =>
            rw [hlast, Option.getD_some] at hle
            exact ⟨last, rfl, hlt.trans_le hle⟩
      · rintro ⟨last, hlast, hlt⟩
        obtain ⟨o, ho, rfl⟩ := h.lastMem last hlast
        exact Or.inr ⟨hkind, o, ho, hlt⟩
    have hsame : (s.count m).lastOperationId = s.lastOperationId := rfl
    simp only [Aggregation.applyMutation, hkind, Aggregation.deleteEntity, hsame] at hstep
    cases hlast : s.lastOperationId with
    | none =>
      simp only [hlast, Option.some.injEq] at hstep
      rw [← hstep]
      refine .wiped hkind ?_ (hnote _).1 (hnote _).2
      rw [hlate, hlast]
      rintro ⟨last, hnone, -⟩
      cases hnone
    | some last =>
      simp only [hlast] at hstep
      split_ifs at hstep with hlt
      · rw [← Option.some.inj hstep]
        exact .passed (Or.inl (hlate.mpr ⟨last, hlast, hlt⟩)) rfl rfl
      · rw [← Option.some.inj hstep]
        refine .wiped hkind ?_ (hnote _).1 (hnote _).2
        rw [hlate, hlast]
        rintro ⟨last', hsome, hlt'⟩
        cases hsome
        exact hlt hlt'
  | pendingDeletion =>
    simp only [Aggregation.applyMutation, hkind, Option.some.injEq] at hstep
    rw [← hstep]
    exact .passed (Or.inr hkind) (hnote _).1 (hnote _).2

theorem traitsAlive_start : TraitsAlive [] Aggregation.start.traits := by
  intro traitId agg hlookup
  cases hlookup

/-- A mutation of one trait leaves the others as they are. -/
theorem TraitsAlive.insert {l : List MutationMetadata} {traits : Traits} (h : TraitsAlive l traits)
    (m : MutationMetadata) (traitId : TraitId) (hon : OnTrait traitId m) (agg : TraitAggregator)
    (hagg : Alive traitId (l ++ [m]) agg) :
    TraitsAlive (l ++ [m]) (traits.insert traitId agg) := by
  intro traitId' agg' hlookup
  by_cases hsame : traitId' = traitId
  · subst hsame
    rw [AList.lookup_insert, Option.some.injEq] at hlookup
    exact hlookup ▸ hagg
  · rw [AList.lookup_insert_ne hsame] at hlookup
    refine (h traitId' agg' hlookup).congr fun p put => inLife_keep _ _ _ _ _ (Or.inr ?_)
    rintro (hon' | ⟨hkind, -⟩)
    · exact hsame (onTrait_unique hon' hon)
    · rw [OnTrait, hkind] at hon
      cases hon

theorem ends_tombstone {l : List MutationMetadata} {m : MutationMetadata} {traitId : TraitId}
    (hkind : m.mutationType = .traitTombstone traitId) (hlate : ¬ Late l m) :
    Ends traitId l m := by
  refine ⟨?_, Or.inl (by rw [OnTrait, hkind]; rfl), hlate⟩
  intro put hput
  rw [hkind] at hput
  cases hput

theorem ends_wiped {l : List MutationMetadata} {traits : Traits} (h : TraitsSeen l traits)
    {m : MutationMetadata} (hkind : m.mutationType = .entityTombstone) (hlate : ¬ Late l m)
    (traitId : TraitId) (agg : TraitAggregator) (hlookup : traits.lookup traitId = some agg) :
    Ends traitId l m := by
  obtain ⟨id, -, hlast⟩ := (h.seen traitId agg hlookup).last
  obtain ⟨front, x, rear, rfl, hx, -⟩ := hlast.touches
  refine ⟨?_, Or.inr ⟨hkind, hx.seen rear, ?_⟩, hlate⟩
  · intro put hput
    rw [hkind] at hput
    cases hput
  · intro o ho
    by_contra hlt
    exact hlate (Or.inr ⟨hkind, o, ho, not_le.mp hlt⟩)

theorem traitsAlive_step {l : List MutationMetadata} {s s' : Aggregation}
    (h : TraitsAlive l s.traits) (hscanned : Scanned l s) (m : MutationMetadata)
    (hstep : s.step m = some s') : TraitsAlive (l ++ [m]) s'.traits := by
  cases step_steps hscanned m hstep with
  | passed hpassed htraits =>
    rw [htraits]
    intro traitId agg hlookup
    refine (h traitId agg hlookup).congr fun p put => inLife_keep _ _ _ _ _ ?_
    refine hpassed.imp id fun hmarker => ?_
    rintro (hon | ⟨hkind, -⟩)
    · rw [OnTrait, hmarker] at hon
      cases hon
    · rw [IsMarker, hkind] at hmarker
      cases hmarker
  | put put hkind hlate htraits =>
    have hon : OnTrait put.traitId m := by rw [OnTrait, hkind]; rfl
    rw [htraits]
    exact h.insert m _ hon _
      (alive_pushPut (dated_getForTrait h hscanned.traits _) m put hkind rfl hlate)
  | tombstone traitId hkind hlate htraits =>
    have hon : OnTrait traitId m := by rw [OnTrait, hkind]; rfl
    rw [htraits]
    exact h.insert m _ hon _ (alive_pushDelete _ m (ends_tombstone hkind hlate))
  | wiped hkind hlate htraits =>
    rw [htraits]
    intro traitId agg hlookup
    rw [lookup_mapValues, Option.map_eq_some_iff] at hlookup
    obtain ⟨old, hold, rfl⟩ := hlookup
    exact alive_pushDelete _ m (ends_wiped hscanned.traits hkind hlate traitId old hold)

theorem traitsAlive_run {l : List MutationMetadata} {s s' : Aggregation}
    (h : TraitsAlive l s.traits) (hscanned : Scanned l s) (rest : List MutationMetadata)
    (hrun : s.run rest = some s') : TraitsAlive (l ++ rest) s'.traits := by
  have hend := Aggregation.run_keeps (fun l s => TraitsAlive l s.traits ∧ Scanned l s)
    (fun _ _ _ m h hstep => ⟨traitsAlive_step h.1 h.2 m hstep, scanned_step h.2 m hstep⟩)
    ⟨h, hscanned⟩ rest hrun
  exact hend.1

namespace EntityAggregator

def traitCreationDate (e : EntityAggregator) (traitId : TraitId) : Option DateTime :=
  (e.traits.lookup traitId).bind TraitAggregator.creationDate

end EntityAggregator

/-- What is visible of an entity, by the lives of its traits. -/
structure Visible (l : List MutationMetadata) (e : EntityAggregator) : Prop where
  live : ∀ traitId, e.isLive traitId = true ↔ ∃ p put, InLife traitId l p put
  last : ∀ traitId, e.isLive traitId = true → ∃ w put, InLife traitId l w put ∧
    e.lastPut traitId = some (w.operationId, put) ∧
    e.lastOperation traitId = some w.operationId ∧
    ∀ p put, InLife traitId l p put → p.operationId ≤ w.operationId
  oldest : ∀ traitId, e.isLive traitId = true → ∃ p put, InLife traitId l p put ∧
    e.traitCreationDate traitId = some (createdAt p.operationId put) ∧
    ∀ p' put', InLife traitId l p' put' →
      createdAt p.operationId put ≤ createdAt p'.operationId put'

theorem new_visible (l : List MutationMetadata) (s : Aggregation)
    (hrun : Aggregation.start.run l = some s) : Visible l (.ofAggregation s) := by
  have hscanned := scanned_run scanned_start l hrun
  have halive := traitsAlive_run traitsAlive_start scanned_start l hrun
  rw [List.nil_append] at hscanned halive
  have hlive (traitId : TraitId)
      (h : (EntityAggregator.ofAggregation s).isLive traitId = true) :
      ∃ agg, s.traits.lookup traitId = some agg ∧ agg.deletionDate = none := by
    have htraits : (EntityAggregator.ofAggregation s).traits = s.traits := rfl
    rw [EntityAggregator.isLive, htraits] at h
    cases hlookup : s.traits.lookup traitId with
    | none =>
      rw [hlookup] at h
      cases h
    | some agg =>
      rw [hlookup] at h
      exact ⟨agg, rfl, Option.isNone_iff_eq_none.mp h⟩
  refine ⟨?_, ?_, ?_⟩
  · intro traitId
    constructor
    · intro h
      obtain ⟨agg, hlookup, hdate⟩ := hlive traitId h
      obtain ⟨w, put, hw, -⟩ := (halive traitId agg hlookup).live hdate
      exact ⟨w, put, hw⟩
    · rintro ⟨p, put, hp⟩
      have htraits : (EntityAggregator.ofAggregation s).traits = s.traits := rfl
      rw [EntityAggregator.isLive, htraits]
      cases hlookup : s.traits.lookup traitId with
      | none => exact absurd hp.onTrait (hscanned.traits.unseen traitId hlookup p hp.mem)
      | some agg =>
        cases hdate : agg.deletionDate with
        | none => simp [hdate]
        | some date =>
          exact absurd hp ((halive traitId agg hlookup).dead (by rw [hdate]; rfl) p put)
  · intro traitId h
    obtain ⟨agg, hlookup, hdate⟩ := hlive traitId h
    obtain ⟨w, put, hw, hlast, hid, hnewest⟩ := (halive traitId agg hlookup).live hdate
    have htraits : (EntityAggregator.ofAggregation s).traits = s.traits := rfl
    refine ⟨w, put, hw, ?_, ?_, hnewest⟩
    · rw [EntityAggregator.lastPut, htraits, hlookup]
      simp [TraitAggregator.lastPutMutation, hlast, hw.kind]
    · rw [EntityAggregator.lastOperation, htraits, hlookup]
      exact hid
  · intro traitId h
    obtain ⟨agg, hlookup, hdate⟩ := hlive traitId h
    have hagg := halive traitId agg hlookup
    obtain ⟨w, put, hw, -⟩ := hagg.live hdate
    obtain ⟨date, hcreation, -⟩ := hagg.dated.before w put hw
    obtain ⟨p, put', hp, rfl⟩ := hagg.dated.oldest date hcreation
    refine ⟨p, put', hp, ?_, ?_⟩
    · have htraits : (EntityAggregator.ofAggregation s).traits = s.traits := rfl
      rw [EntityAggregator.traitCreationDate, htraits, hlookup]
      exact hcreation
    · intro p' put'' hp'
      obtain ⟨date', hcreation', hle⟩ := hagg.dated.before p' put'' hp'
      rw [hcreation, Option.some.injEq] at hcreation'
      exact hcreation' ▸ hle

end Exocore.Store
