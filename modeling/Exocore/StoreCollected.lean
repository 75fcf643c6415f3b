import Exocore.StoreLife

/-! What the collector takes of an entity, said of its mutations, of the times and of the
configuration alone. -/
namespace Exocore.Store
open scoped Classical

open GarbageCollector

/-- The mutation becomes the last operation of the trait. -/
def TakenFor (traitId : TraitId) (before : List MutationMetadata) (m : MutationMetadata) : Prop :=
  Touches traitId before m ∧ ¬ Late before m

/-- The number of mutations that are taken for the trait, behind those in front. -/
noncomputable def versions (traitId : TraitId) :
    List MutationMetadata → List MutationMetadata → ℕ
  | _, [] => 0
  | front, m :: rest =>
    (if TakenFor traitId front m then 1 else 0) + versions traitId (front ++ [m]) rest

theorem versions_snoc (traitId : TraitId) (front l : List MutationMetadata)
    (m : MutationMetadata) : versions traitId front (l ++ [m]) =
      versions traitId front l + if TakenFor traitId (front ++ l) m then 1 else 0 := by
  induction l generalizing front with
  | nil => simp [versions]
  | cons x l ih =>
    rw [List.cons_append, versions, versions, ih, Nat.add_assoc, List.append_assoc,
      List.singleton_append]

/-- A deletion of the trait that was taken, behind which no operation of it was. -/
structure TraitDeletedBy (traitId : TraitId) (l : List MutationMetadata) (d : MutationMetadata) :
    Prop where
  ends : ∃ front rear, l = front ++ d :: rear ∧ Ends traitId front d
  last : LastTouch traitId l d.operationId

/-- The last mutation that was taken, but for the markers. -/
def LastTaken (l : List MutationMetadata) (d : MutationMetadata) : Prop :=
  ∃ front rear, l = front ++ d :: rear ∧ ¬ (Late front d ∨ IsMarker d) ∧
    ∀ middle m rest, rear = middle ++ m :: rest → Late (front ++ d :: middle) m ∨ IsMarker m

/-- No put of any trait is in its life, since that mutation. -/
structure EntityDeletedBy (l : List MutationMetadata) (d : MutationMetadata) : Prop where
  dead : ∀ traitId p put, ¬ InLife traitId l p put
  last : LastTaken l d

/-- The time since the deletion is at least the duration. -/
def DueSince (now : DateTime) (duration : ℕ) (d : MutationMetadata) : Prop :=
  (duration : ℤ) ≤ now - toDatetime d.operationId

/-- One of the many versions of the trait, which is old and has enough old ones behind it. -/
structure OldVersion (config : GarbageCollectorConfig) (minOpTime : DateTime)
    (l : List MutationMetadata) (traitId : TraitId) (m : MutationMetadata) : Prop where
  many : config.traitVersionsLeeway < versions traitId [] l
  old : toDatetime m.operationId < minOpTime
  behind : ∃ front rear, l = front ++ m :: rear ∧
    config.traitVersionsMax ≤ (traitOperations traitId minOpTime rear).length

def EntityDue (config : GarbageCollectorConfig) (now : DateTime) (l : List MutationMetadata) :
    Prop :=
  ∃ d, EntityDeletedBy l d ∧ DueSince now config.deletedEntityCollection d

def TraitDue (config : GarbageCollectorConfig) (now : DateTime) (l : List MutationMetadata)
    (traitId : TraitId) : Prop :=
  ∃ d, TraitDeletedBy traitId l d ∧ DueSince now config.deletedTraitCollection d

/-- Where nothing is pending, the mutation goes with its entity or with its trait, or is one of
its old versions. -/
structure Collected (config : GarbageCollectorConfig) (minOpTime now : DateTime)
    (l : List MutationMetadata) (m : MutationMetadata) : Prop where
  settled : ¬ TakesPending l ∧ ∀ x ∈ l, ¬ IsMarker x
  rule : EntityDue config now l ∨ ∃ traitId, OnTrait traitId m ∧
    (TraitDue config now l traitId ∨ OldVersion config minOpTime l traitId m)

/-! ## The aggregator counts and dates as said here -/

/-- The count and the date of deletion that the aggregator has for the trait. -/
structure Tallied (traitId : TraitId) (l : List MutationMetadata) (agg : TraitAggregator) :
    Prop where
  count : agg.mutationCount = versions traitId [] l
  ended : ∀ date, agg.deletionDate = some date → ∃ front d rear, l = front ++ d :: rear ∧
    Ends traitId front d ∧ agg.lastOperationId = some d.operationId ∧
    toDatetime d.operationId = date

structure EntityTallied (l : List MutationMetadata) (s : Aggregation) : Prop where
  traits : ∀ traitId agg, s.traits.lookup traitId = some agg → Tallied traitId l agg
  deleted : s.deletionDate.isSome = true ↔ (∃ d, LastTaken l d) ∧ AllDeleted s.traits
  date : ∀ d date, LastTaken l d → s.deletionDate = some date → toDatetime d.operationId = date

theorem entityTallied_start : EntityTallied [] Aggregation.start := by
  refine ⟨by simp [Aggregation.start], ?_, by simp [Aggregation.start]⟩
  refine iff_of_false (by simp [Aggregation.start]) ?_
  rintro ⟨⟨d, front, rear, hl, -⟩, -⟩
  simp at hl

/-- A mutation that is not taken for the trait. -/
theorem Tallied.keep {traitId : TraitId} {l : List MutationMetadata} {agg : TraitAggregator}
    (h : Tallied traitId l agg) (m : MutationMetadata) (hm : ¬ TakenFor traitId l m) :
    Tallied traitId (l ++ [m]) agg := by
  refine ⟨?_, ?_⟩
  · rw [versions_snoc, List.nil_append, if_neg hm]
    exact h.count
  · intro date hdate
    obtain ⟨front, d, rear, hl, hends, hlast, htime⟩ := h.ended date hdate
    exact ⟨front, d, rear ++ [m], by rw [hl]; simp, hends, hlast, htime⟩

theorem versions_unseen {traitId : TraitId} {l : List MutationMetadata}
    (h : ∀ m ∈ l, ¬ OnTrait traitId m) : versions traitId [] l = 0 := by
  induction l using List.reverseRecOn with
  | nil => rfl
  | append_singleton l m ih =>
    have hnot : ¬ TakenFor traitId l m := by
      rintro ⟨htouches, -⟩
      obtain ⟨a, ha, hon⟩ := htouches.seen []
      exact h a ha hon
    rw [versions_snoc, List.nil_append, if_neg hnot, ih fun x hx => h x (List.mem_append_left _ hx)]

theorem EntityTallied.count_getForTrait {l : List MutationMetadata} {s : Aggregation}
    (h : EntityTallied l s) (hseen : TraitsSeen l s.traits) (traitId : TraitId) :
    (TraitAggregator.getForTrait s.traits traitId).mutationCount = versions traitId [] l := by
  rw [TraitAggregator.getForTrait]
  cases hlookup : s.traits.lookup traitId with
  | some agg => exact (h.traits traitId agg hlookup).count
  | none => exact (versions_unseen (hseen.unseen traitId hlookup)).symm

theorem lastTaken_snoc (l : List MutationMetadata) (m d : MutationMetadata) :
    LastTaken (l ++ [m]) d ↔ (Late l m ∨ IsMarker m) ∧ LastTaken l d ∨
      ¬ (Late l m ∨ IsMarker m) ∧ d = m := by
  constructor
  · rintro ⟨front, rear, hl, htaken, hrear⟩
    rcases split_snoc _ _ _ _ _ hl with ⟨rfl, rfl⟩ | ⟨rear', hl'⟩
    · exact Or.inr ⟨htaken, rfl⟩
    · have hsplit : rear = rear' ++ [m] := by
        rw [hl', List.append_assoc, List.append_cancel_left_eq, List.cons_append,
          List.cons.injEq] at hl
        exact hl.2.symm
      refine Or.inl ⟨?_, front, rear', hl', htaken, ?_⟩
      · rw [hl']
        exact hrear rear' m [] hsplit
      · intro middle x rest hx
        exact hrear middle x (rest ++ [m]) (by rw [hsplit, hx]; simp)
  · rintro (⟨hpassed, front, rear, rfl, htaken, hrear⟩ | ⟨htaken, rfl⟩)
    · refine ⟨front, rear ++ [m], by simp, htaken, ?_⟩
      intro middle x rest hx
      rcases split_snoc _ _ _ _ _ hx with ⟨rfl, rfl⟩ | ⟨rest', hrest⟩
      · exact hpassed
      · exact hrear middle x rest' hrest
    · exact ⟨l, [], rfl, htaken, by simp⟩

theorem takenFor_other {l : List MutationMetadata} {m : MutationMetadata} {traitId : TraitId}
    (hon : OnTrait traitId m) (traitId' : TraitId) (hne : traitId' ≠ traitId) :
    ¬ TakenFor traitId' l m := by
  rintro ⟨hon' | ⟨hkind, -⟩, -⟩
  · exact hne (onTrait_unique hon' hon)
  · rw [OnTrait, hkind] at hon
    cases hon

/-- The next mutation is taken for one trait. -/
theorem EntityTallied.insert {l : List MutationMetadata} {s : Aggregation}
    (h : EntityTallied l s) (m : MutationMetadata) (traitId : TraitId)
    (hon : OnTrait traitId m) (agg : TraitAggregator) (hagg : Tallied traitId (l ++ [m]) agg)
    (traitId' : TraitId) (agg' : TraitAggregator)
    (hlookup : (s.traits.insert traitId agg).lookup traitId' = some agg') :
    Tallied traitId' (l ++ [m]) agg' := by
  by_cases hsame : traitId' = traitId
  · subst hsame
    rw [AList.lookup_insert, Option.some.injEq] at hlookup
    exact hlookup ▸ hagg
  · rw [AList.lookup_insert_ne hsame] at hlookup
    exact (h.traits traitId' agg' hlookup).keep m (takenFor_other hon traitId' hsame)

theorem tallied_pushDelete {l : List MutationMetadata} {traitId : TraitId} (m : MutationMetadata)
    (agg : TraitAggregator) (hcount : agg.mutationCount = versions traitId [] l)
    (hends : Ends traitId l m) :
    Tallied traitId (l ++ [m]) (agg.pushDeleteMutation m.operationId) := by
  have htaken : TakenFor traitId l m := ⟨hends.touches, hends.taken⟩
  refine ⟨?_, ?_⟩
  · rw [versions_snoc, List.nil_append, if_pos htaken, ← hcount]
    rfl
  · intro date hdate
    exact ⟨l, m, [], rfl, hends, rfl, Option.some.inj hdate⟩

theorem lastTaken_snoc_of_taken {l : List MutationMetadata} {m : MutationMetadata}
    (hlate : ¬ Late l m) (hmarker : ¬ IsMarker m) (d : MutationMetadata) :
    LastTaken (l ++ [m]) d ↔ d = m := by
  have hpassed : ¬ (Late l m ∨ IsMarker m) := not_or.mpr ⟨hlate, hmarker⟩
  simp [lastTaken_snoc, hpassed]

section Steps
variable {l : List MutationMetadata} {s s' : Aggregation} (h : EntityTallied l s)
  (m : MutationMetadata)

include h

/-- A mutation that is not taken counts for no trait. -/
theorem EntityTallied.passed (hpassed : Late l m ∨ IsMarker m) (htraits : s'.traits = s.traits)
    (hdate : s'.deletionDate = s.deletionDate) : EntityTallied (l ++ [m]) s' := by
  have hlast (d : MutationMetadata) : LastTaken (l ++ [m]) d ↔ LastTaken l d := by
    simp [lastTaken_snoc, hpassed]
  refine ⟨?_, ?_, ?_⟩
  · intro traitId agg hlookup
    rw [htraits] at hlookup
    refine (h.traits traitId agg hlookup).keep m ?_
    rintro ⟨htouches, hlate⟩
    rcases hpassed with hpassed | hmarker
    · exact hlate hpassed
    · rw [IsMarker] at hmarker
      rcases htouches with hon | ⟨hkind, -⟩
      · rw [OnTrait, hmarker] at hon
        cases hon
      · rw [hkind] at hmarker
        cases hmarker
  · simp only [htraits, hdate, hlast]
    exact h.deleted
  · simp only [hdate, hlast]
    exact h.date

/-- A put that is taken leaves a trait that is not deleted, hence the entity. -/
theorem EntityTallied.put (hseen : TraitsSeen l s.traits) (put : PutTraitMetadata)
    (hkind : m.mutationType = .traitPut put) (hlate : ¬ Late l m)
    (htraits : s'.traits = s.traits.insert put.traitId
      ((TraitAggregator.getForTrait s.traits put.traitId).pushPutMutation m put))
    (hdate : s'.deletionDate = none) : EntityTallied (l ++ [m]) s' := by
  have hon : OnTrait put.traitId m := by rw [OnTrait, hkind]; rfl
  refine ⟨?_, ?_, by simp [hdate]⟩
  · rw [htraits]
    refine h.insert m put.traitId hon _ ⟨?_, ?_⟩
    · have htaken : TakenFor put.traitId l m := ⟨Or.inl hon, hlate⟩
      rw [versions_snoc, List.nil_append, if_pos htaken, ← h.count_getForTrait hseen put.traitId]
      rfl
    · intro date hbad
      cases hbad
  · refine iff_of_false (by simp [hdate]) ?_
    rintro ⟨-, hall⟩
    have hnew := hall put.traitId _ (by rw [htraits, AList.lookup_insert])
    cases hnew

/-- A tombstone of a trait deletes the entity with its last trait. -/
theorem EntityTallied.tombstone (hseen : TraitsSeen l s.traits) (traitId : TraitId)
    (hkind : m.mutationType = .traitTombstone traitId) (hlate : ¬ Late l m)
    (htraits : s'.traits = s.traits.insert traitId
      ((TraitAggregator.getForTrait s.traits traitId).pushDeleteMutation m.operationId))
    (hdate : s'.deletionDate = if TraitAggregator.allDeleted s'.traits then
      some (toDatetime m.operationId) else s.deletionDate) : EntityTallied (l ++ [m]) s' := by
  have hon : OnTrait traitId m := by rw [OnTrait, hkind]; rfl
  have hlast := lastTaken_snoc_of_taken hlate (by simp [IsMarker, hkind])
  -- one more deletion, where all traits were deleted, leaves all deleted
  have hstays (hall : TraitAggregator.allDeleted s'.traits ≠ true) :
      s.deletionDate.isSome ≠ true := by
    intro hsome
    refine hall ((allDeleted_iff _).mpr ?_)
    intro traitId' agg hlookup
    rw [htraits] at hlookup
    by_cases hsame : traitId' = traitId
    · rw [hsame, AList.lookup_insert, Option.some.injEq] at hlookup
      rw [← hlookup]
      rfl
    · rw [AList.lookup_insert_ne hsame] at hlookup
      exact (h.deleted.mp hsome).2 traitId' agg hlookup
  refine ⟨?_, ?_, ?_⟩
  · rw [htraits]
    exact h.insert m traitId hon _
      (tallied_pushDelete m _ (h.count_getForTrait hseen traitId) (ends_tombstone hkind hlate))
  · rw [hdate]
    by_cases hall : TraitAggregator.allDeleted s'.traits = true
    · rw [if_pos hall]
      exact iff_of_true rfl ⟨⟨m, (hlast m).mpr rfl⟩, (allDeleted_iff _).mp hall⟩
    · rw [if_neg hall]
      exact iff_of_false (hstays hall) fun hbad => hall ((allDeleted_iff _).mpr hbad.2)
  · intro d date hd hsome
    rw [(hlast d).mp hd]
    rw [hdate] at hsome
    split_ifs at hsome with hall
    · exact Option.some.inj hsome
    · exact absurd (by rw [hsome]; rfl) (hstays hall)

theorem EntityTallied.wiped (hseen : TraitsSeen l s.traits)
    (hkind : m.mutationType = .entityTombstone) (hlate : ¬ Late l m)
    (htraits : s'.traits = s.traits.mapValues (·.pushDeleteMutation m.operationId))
    (hdate : s'.deletionDate = some (toDatetime m.operationId)) :
    EntityTallied (l ++ [m]) s' := by
  have hlast := lastTaken_snoc_of_taken hlate (by simp [IsMarker, hkind])
  have hlookups : ∀ traitId agg, s'.traits.lookup traitId = some agg →
      ∃ old, s.traits.lookup traitId = some old ∧ old.pushDeleteMutation m.operationId = agg := by
    intro traitId agg hlookup
    rw [htraits, lookup_mapValues, Option.map_eq_some_iff] at hlookup
    exact hlookup
  refine ⟨?_, ?_, ?_⟩
  · intro traitId agg hlookup
    obtain ⟨old, hold, rfl⟩ := hlookups traitId agg hlookup
    exact tallied_pushDelete m old (h.traits traitId old hold).count
      (ends_wiped hseen hkind hlate traitId old hold)
  · rw [hdate]
    refine iff_of_true rfl ⟨⟨m, (hlast m).mpr rfl⟩, ?_⟩
    intro traitId agg hlookup
    obtain ⟨old, -, rfl⟩ := hlookups traitId agg hlookup
    rfl
  · intro d date hd hsome
    rw [(hlast d).mp hd]
    rw [hdate] at hsome
    exact Option.some.inj hsome

theorem entityTallied_step (hscanned : Scanned l s) (hstep : s.step m = some s') :
    EntityTallied (l ++ [m]) s' := by
  cases step_steps hscanned m hstep with
  | passed hpassed htraits hdate => exact h.passed m hpassed htraits hdate
  | put put hkind hlate htraits hdate =>
    exact h.put m hscanned.traits put hkind hlate htraits hdate
  | tombstone traitId hkind hlate htraits hdate =>
    exact h.tombstone m hscanned.traits traitId hkind hlate htraits hdate
  | wiped hkind hlate htraits hdate =>
    exact h.wiped m hscanned.traits hkind hlate htraits hdate

end Steps

theorem entityTallied_run {l : List MutationMetadata} {s s' : Aggregation}
    (h : EntityTallied l s) (hscanned : Scanned l s) (rest : List MutationMetadata)
    (hrun : s.run rest = some s') : EntityTallied (l ++ rest) s' := by
  have hend := Aggregation.run_keeps (fun l s => EntityTallied l s ∧ Scanned l s)
    (fun _ _ _ m h hstep => ⟨entityTallied_step h.1 m h.2 hstep, scanned_step h.2 m hstep⟩)
    ⟨h, hscanned⟩ rest hrun
  exact hend.1

/-- What is known of the loop at its end. -/
structure AggregationOf (l : List MutationMetadata) (s : Aggregation) : Prop where
  scanned : Scanned l s
  active : ActiveLast l s
  alive : TraitsAlive l s.traits
  tallied : EntityTallied l s

theorem aggregationOf_run (l : List MutationMetadata) (s : Aggregation)
    (hnodup : (l.map MutationMetadata.operationId).Nodup)
    (hrun : Aggregation.start.run l = some s) : AggregationOf l s := by
  have hscanned := scanned_run scanned_start l hrun
  have hactive := activeLast_run activeLast_start scanned_start l hnodup hrun
  have halive := traitsAlive_run traitsAlive_start scanned_start l hrun
  have htallied := entityTallied_run entityTallied_start scanned_start l hrun
  rw [List.nil_append] at hscanned hactive halive htallied
  exact ⟨hscanned, hactive, halive, htallied⟩

section Due

variable {l : List MutationMetadata} {s : Aggregation} (h : AggregationOf l s)
  (hnodup : (l.map MutationMetadata.operationId).Nodup) (config : GarbageCollectorConfig)
  (now : DateTime)
include h

theorem AggregationOf.lastTouch {traitId : TraitId} {agg : TraitAggregator}
    (hlookup : s.traits.lookup traitId = some agg) (id : OperationId) :
    agg.lastOperationId = some id ↔ LastTouch traitId l id := by
  obtain ⟨id', hid', hlast⟩ := (h.scanned.traits.seen traitId agg hlookup).last
  rw [hid', Option.some.injEq]
  constructor
  · rintro rfl
    exact hlast
  · exact lastTouch_unique hlast

theorem AggregationOf.lookup_of_onTrait {traitId : TraitId} {m : MutationMetadata} (hm : m ∈ l)
    (hon : OnTrait traitId m) : ∃ agg, s.traits.lookup traitId = some agg := by
  cases hlookup : s.traits.lookup traitId with
  | none => exact absurd hon (h.scanned.traits.unseen traitId hlookup m hm)
  | some agg => exact ⟨agg, rfl⟩

theorem AggregationOf.isDue_entity_iff :
    isDue now config.deletedEntityCollection s.deletionDate = true ↔ EntityDue config now l := by
  constructor
  · intro hdue
    cases hdate : s.deletionDate with
    | none => simp [isDue, hdate] at hdue
    | some date =>
      rw [hdate, isDue, decide_eq_true_eq] at hdue
      obtain ⟨⟨d, hlast⟩, hall⟩ := h.tallied.deleted.mp (by rw [hdate]; rfl)
      refine ⟨d, ⟨?_, hlast⟩, ?_⟩
      · intro traitId p put hp
        obtain ⟨agg, hlookup⟩ := h.lookup_of_onTrait hp.mem hp.onTrait
        exact (h.alive traitId agg hlookup).dead (hall traitId agg hlookup) p put hp
      · rw [DueSince, h.tallied.date d date hlast hdate]
        exact hdue
  · rintro ⟨d, ⟨hdead, hlast⟩, hdue⟩
    have hall : AllDeleted s.traits := by
      intro traitId agg hlookup
      cases hagg : agg.deletionDate with
      | some date => rfl
      | none =>
        obtain ⟨w, put, hw, -⟩ := (h.alive traitId agg hlookup).live hagg
        exact absurd hw (hdead traitId w put)
    obtain ⟨date, hdate⟩ := Option.isSome_iff_exists.mp (h.tallied.deleted.mpr ⟨⟨d, hlast⟩, hall⟩)
    rw [hdate, isDue, decide_eq_true_eq, ← h.tallied.date d date hlast hdate]
    exact hdue

include hnodup in
theorem AggregationOf.isDue_trait_iff {traitId : TraitId} {agg : TraitAggregator}
    (hlookup : s.traits.lookup traitId = some agg) :
    isDue now config.deletedTraitCollection agg.deletionDate = true ↔
      TraitDue config now l traitId := by
  have htally := h.tallied.traits traitId agg hlookup
  constructor
  · intro hdue
    cases hdate : agg.deletionDate with
    | none => simp [isDue, hdate] at hdue
    | some date =>
      rw [hdate, isDue, decide_eq_true_eq] at hdue
      obtain ⟨front, d, rear, hl, hends, hlast, rfl⟩ := htally.ended date hdate
      exact ⟨d, ⟨⟨front, rear, hl, hends⟩, (h.lastTouch hlookup _).mp hlast⟩, hdue⟩
  · rintro ⟨d, ⟨⟨front, rear, hl, hends⟩, hlast⟩, hdue⟩
    have hid := (h.lastTouch hlookup _).mpr hlast
    cases hdate : agg.deletionDate with
    | none =>
      -- the last operation of a trait that is not deleted is a put
      obtain ⟨w, put, hw, -, hlast', -⟩ := (h.alive traitId agg hlookup).live hdate
      have hsame : w = d := List.inj_on_of_nodup_map hnodup hw.mem (by rw [hl]; simp)
        (Option.some.inj (hlast'.symm.trans hid))
      exact absurd (hsame ▸ hw.kind) (hends.deletion put)
    | some date =>
      obtain ⟨-, d', -, -, -, hlast', rfl⟩ := htally.ended date hdate
      rw [isDue, decide_eq_true_eq, Option.some.inj (hlast'.symm.trans hid)]
      exact hdue

end Due

/-! ## The collections of an entity -/

/-- The operations that are deleted. -/
def removedOperations (deletions : List DeleteOperations) : List OperationId :=
  deletions.flatMap DeleteOperations.operationIds

def isKept (deletions : List DeleteOperations) (m : MutationMetadata) : Bool :=
  decide (m.operationId ∉ removedOperations deletions)

/-- The mutations of the entity once the operations are deleted. -/
def remaining (deletions : List DeleteOperations) (l : List MutationMetadata) :
    List MutationMetadata :=
  l.filter (isKept deletions)

/-- The operations that a collection deletes where it does not panic. -/
def collectedIds (config : GarbageCollectorConfig) (minOpTime : DateTime)
    (l : List MutationMetadata) : GCOperation → List OperationId
  | .deleteEntity => l.map MutationMetadata.operationId
  | .deleteTrait traitId => (filterTraitMutations l traitId).map MutationMetadata.operationId
  | .compactTrait traitId => selectVersions traitId minOpTime config.traitVersionsMax l

theorem mem_mapM_iff {A B : Type} (f : A → Option B) (l : List A) (bs : List B)
    (h : l.mapM f = some bs) (b : B) : b ∈ bs ↔ ∃ a ∈ l, f a = some b := by
  induction l generalizing bs with
  | nil =>
    rw [List.mapM_nil] at h
    rw [← Option.some.inj h]
    simp
  | cons a l ih =>
    simp only [List.mapM_cons, Option.bind_eq_bind, Option.bind_eq_some_iff] at h
    obtain ⟨b', hb', bs', hbs', heq⟩ := h
    rw [← Option.some.inj heq, List.mem_cons, ih bs' hbs']
    simp [hb', eq_comm]

theorem isSome_of_mapM {A B : Type} (f : A → Option B) (l : List A) (bs : List B)
    (h : l.mapM f = some bs) (a : A) (ha : a ∈ l) : ∃ b, f a = some b := by
  induction l generalizing bs with
  | nil => cases ha
  | cons x l ih =>
    simp only [List.mapM_cons, Option.bind_eq_bind, Option.bind_eq_some_iff] at h
    obtain ⟨b', hb', bs', hbs', -⟩ := h
    rcases List.mem_cons.mp ha with rfl | ha
    · exact ⟨b', hb'⟩
    · exact ih bs' hbs' ha

theorem mem_deletion_iff (aggr : EntityAggregator) (ids : List OperationId) (id : OperationId) :
    (∃ found, deletion aggr ids = some found ∧ id ∈ found.operationIds) ↔ id ∈ ids := by
  rw [deletion]
  split_ifs with hnil
  · simp [hnil]
  · simp

section Collections

variable {config : GarbageCollectorConfig} {minOpTime now : DateTime}
  {order : Sorting.ValuesOrder TraitEntry} {l : List MutationMetadata}
  {deletions : List DeleteOperations} {aggr : EntityAggregator} {s : Aggregation}

theorem mem_collect_iff (op : GCOperation) (found : Option DeleteOperations)
    (h : collect config minOpTime aggr l op = some found) (id : OperationId) :
    (∃ deletion, found = some deletion ∧ id ∈ deletion.operationIds) ↔
      id ∈ collectedIds config minOpTime l op := by
  cases op with
  | deleteEntity =>
    simp only [collect, collectDeleteEntity] at h
    split_ifs at h
    rw [← Option.some.inj h]
    exact mem_deletion_iff aggr _ id
  | deleteTrait traitId =>
    simp only [collect, collectDeleteTrait, Option.bind_eq_bind, Option.bind_eq_some_iff] at h
    obtain ⟨trait, -, h⟩ := h
    split_ifs at h
    rw [← Option.some.inj h]
    exact mem_deletion_iff aggr _ id
  | compactTrait traitId =>
    simp only [collect, collectTraitVersions] at h
    split_ifs at h with hfew hassert
    · have hzero : (traitOperations traitId minOpTime l).length - config.traitVersionsMax = 0 :=
        Nat.sub_eq_zero_of_le hfew
      simp [← Option.some.inj h, collectedIds, selectVersions, hzero]
    · rw [← Option.some.inj h]
      exact mem_deletion_iff aggr _ id

theorem mem_removed_iff (haggr : EntityAggregator.new l = some aggr)
    (hrun : runEntity config minOpTime now order l = some deletions) (id : OperationId) :
    id ∈ removedOperations deletions ↔ ∃ op ∈ genEntityCollections config now order aggr,
      id ∈ collectedIds config minOpTime l op := by
  rw [runEntity, haggr] at hrun
  simp only [Option.bind_eq_bind, Option.bind_some, Option.bind_eq_some_iff] at hrun
  obtain ⟨founds, hfounds, heq⟩ := hrun
  rw [← Option.some.inj heq, removedOperations, List.mem_flatMap]
  simp only [List.mem_filterMap, id_eq, mem_mapM_iff _ _ _ hfounds]
  constructor
  · rintro ⟨deletion, ⟨found, ⟨op, hop, hcollect⟩, rfl⟩, hmem⟩
    exact ⟨op, hop, (mem_collect_iff op _ hcollect id).mp ⟨deletion, rfl, hmem⟩⟩
  · rintro ⟨op, hop, hmem⟩
    obtain ⟨found, hcollect⟩ := isSome_of_mapM _ _ _ hfounds op hop
    obtain ⟨deletion, rfl, hid⟩ := (mem_collect_iff op found hcollect id).mpr hmem
    exact ⟨deletion, ⟨_, ⟨op, hop, hcollect⟩, rfl⟩, hid⟩

theorem settled_iff (h : Scanned l s) : ((EntityAggregator.ofAggregation s).inPending ||
    (EntityAggregator.ofAggregation s).pendingDeletion) = false ↔
      ¬ TakesPending l ∧ ∀ x ∈ l, ¬ IsMarker x := by
  have hpending : (EntityAggregator.ofAggregation s).inPending = s.inPending := rfl
  have hmarker : (EntityAggregator.ofAggregation s).pendingDeletion = s.pendingDeletion := rfl
  rw [hpending, hmarker, Bool.or_eq_false_iff, ← Bool.not_eq_true, ← Bool.not_eq_true, h.pending,
    h.marker]
  simp

/-- A mutation of the list is among those of a trait by its id. -/
theorem mem_traitIds_iff (hnodup : (l.map MutationMetadata.operationId).Nodup)
    (traitId : TraitId) (m : MutationMetadata) (hm : m ∈ l) :
    m.operationId ∈ (filterTraitMutations l traitId).map MutationMetadata.operationId ↔
      OnTrait traitId m := by
  rw [filterTraitMutations_eq, List.mem_map]
  constructor
  · rintro ⟨x, hx, hid⟩
    rw [List.mem_filter, decide_eq_true_eq] at hx
    exact List.inj_on_of_nodup_map hnodup hx.1 hm hid ▸ hx.2
  · intro hon
    exact ⟨m, List.mem_filter.mpr ⟨hm, decide_eq_true hon⟩, rfl⟩

theorem oldVersion_iff (h : AggregationOf l s) (hnodup : (l.map MutationMetadata.operationId).Nodup)
    {traitId : TraitId} {agg : TraitAggregator} (hlookup : s.traits.lookup traitId = some agg)
    (m : MutationMetadata) (hm : m ∈ l) :
    (OnTrait traitId m ∧ OldVersion config minOpTime l traitId m) ↔
      config.traitVersionsLeeway < agg.mutationCount ∧
        m.operationId ∈ selectVersions traitId minOpTime config.traitVersionsMax l := by
  rw [(h.tallied.traits traitId agg hlookup).count]
  constructor
  · rintro ⟨hon, hmany, hold, front, rear, rfl, hbehind⟩
    exact ⟨hmany, (mem_selectVersions_iff traitId minOpTime _ front rear m hnodup hon).mpr
      ⟨hold, hbehind⟩⟩
  · rintro ⟨hmany, hselected⟩
    obtain ⟨x, hx, hon, -, hid⟩ := (mem_traitOperations _ _ _ _).mp (List.mem_of_mem_take hselected)
    obtain rfl := List.inj_on_of_nodup_map hnodup hx hm hid
    obtain ⟨front, rear, rfl⟩ := List.append_of_mem hm
    obtain ⟨hold, hbehind⟩ := (mem_selectVersions_iff traitId minOpTime _ front rear x hnodup
      hon).mp hselected
    exact ⟨hon, hmany, hold, front, rear, rfl, hbehind⟩

/-- The collections that the entity is due for. -/
theorem mem_genEntityCollections_iff (h : AggregationOf l s)
    (hnodup : (l.map MutationMetadata.operationId).Nodup) (op : GCOperation) :
    op ∈ genEntityCollections config now order (.ofAggregation s) ↔
      (¬ TakesPending l ∧ ∀ x ∈ l, ¬ IsMarker x) ∧
        (EntityDue config now l ∧ op = .deleteEntity ∨
          ¬ EntityDue config now l ∧ ∃ traitId agg, s.traits.lookup traitId = some agg ∧
            (TraitDue config now l traitId ∧ op = .deleteTrait traitId ∨
              ¬ TraitDue config now l traitId ∧ config.traitVersionsLeeway < agg.mutationCount ∧
                op = .compactTrait traitId)) := by
  have hdate : (EntityAggregator.ofAggregation s).deletionDate = s.deletionDate := rfl
  have htraits : (EntityAggregator.ofAggregation s).traits = s.traits := rfl
  rw [genEntityCollections, hdate, htraits, ← settled_iff h.scanned,
    ← h.isDue_entity_iff config now]
  split_ifs with hflags hdue
  · simp [hflags]
  · simp [hflags, hdue]
  · have hcollection (traitId : TraitId) (agg : TraitAggregator)
        (hlookup : s.traits.lookup traitId = some agg) :
        collectionOf config now ⟨traitId, agg⟩ = some op ↔
          (TraitDue config now l traitId ∧ op = .deleteTrait traitId ∨
            ¬ TraitDue config now l traitId ∧ config.traitVersionsLeeway < agg.mutationCount ∧
              op = .compactTrait traitId) := by
      rw [collectionOf, ← h.isDue_trait_iff hnodup config now hlookup]
      split_ifs with htrait hcount
      · simp [htrait, eq_comm]
      · simp [htrait, hcount, eq_comm]
      · simp [htrait, hcount]
    rw [List.mem_filterMap]
    constructor
    · rintro ⟨⟨traitId, agg⟩, hentry, hop⟩
      have hlookup : s.traits.lookup traitId = some agg :=
        AList.mem_lookup_iff.mpr ((order.mem_order _ _).mp hentry)
      exact ⟨Bool.eq_false_of_not_eq_true hflags, Or.inr ⟨hdue, traitId, agg, hlookup,
        (hcollection traitId agg hlookup).mp hop⟩⟩
    · rintro ⟨-, ⟨hbad, -⟩ | ⟨-, traitId, agg, hlookup, hop⟩⟩
      · exact absurd hbad hdue
      exact ⟨⟨traitId, agg⟩, (order.mem_order _ _).mpr (AList.mem_lookup_iff.mp hlookup),
        (hcollection traitId agg hlookup).mpr hop⟩

/-- A mutation is removed exactly where it is collected by the rules. -/
theorem isKept_iff (h : AggregationOf l s)
    (haggr : EntityAggregator.new l = some (.ofAggregation s))
    (hnodup : (l.map MutationMetadata.operationId).Nodup)
    (hrun : runEntity config minOpTime now order l = some deletions) (m : MutationMetadata)
    (hm : m ∈ l) : isKept deletions m = true ↔ ¬ Collected config minOpTime now l m := by
  rw [isKept, decide_eq_true_eq, not_iff_not, mem_removed_iff haggr hrun]
  simp only [mem_genEntityCollections_iff h hnodup]
  constructor
  · rintro ⟨op, ⟨hsettled, ⟨hdue, -⟩ | ⟨-, traitId, agg, hlookup, hop⟩⟩, hmem⟩
    · exact ⟨hsettled, Or.inl hdue⟩
    · refine ⟨hsettled, Or.inr ⟨traitId, ?_⟩⟩
      rcases hop with ⟨htrait, rfl⟩ | ⟨-, hcount, rfl⟩
      · exact ⟨(mem_traitIds_iff hnodup traitId m hm).mp hmem, Or.inl htrait⟩
      · obtain ⟨hon, hold⟩ := (oldVersion_iff h hnodup hlookup m hm).mpr ⟨hcount, hmem⟩
        exact ⟨hon, Or.inr hold⟩
  · rintro ⟨hsettled, hrule⟩
    by_cases hentity : EntityDue config now l
    · exact ⟨.deleteEntity, ⟨hsettled, Or.inl ⟨hentity, rfl⟩⟩, List.mem_map_of_mem hm⟩
    · obtain ⟨traitId, hon, hrule⟩ := hrule.resolve_left hentity
      obtain ⟨agg, hlookup⟩ := h.lookup_of_onTrait hm hon
      by_cases htrait : TraitDue config now l traitId
      · exact ⟨.deleteTrait traitId, ⟨hsettled, Or.inr ⟨hentity, traitId, agg, hlookup,
          Or.inl ⟨htrait, rfl⟩⟩⟩, (mem_traitIds_iff hnodup traitId m hm).mpr hon⟩
      · obtain ⟨hcount, hmem⟩ := (oldVersion_iff h hnodup hlookup m hm).mp
          ⟨hon, hrule.resolve_left htrait⟩
        exact ⟨.compactTrait traitId, ⟨hsettled, Or.inr ⟨hentity, traitId, agg, hlookup,
          Or.inr ⟨htrait, hcount, rfl⟩⟩⟩, hmem⟩

/-- The last operation of a trait is collected with the trait or not at all: a compaction that
does not panic selects no active operation. -/
theorem collected_last (h : AggregationOf l s)
    (haggr : EntityAggregator.new l = some (.ofAggregation s))
    (hnodup : (l.map MutationMetadata.operationId).Nodup)
    (hrun : runEntity config minOpTime now order l = some deletions) (traitId : TraitId)
    (m : MutationMetadata) (hm : m ∈ l) (hon : OnTrait traitId m)
    (hlast : LastTouch traitId l m.operationId) (hcollected : Collected config minOpTime now l m) :
    EntityDue config now l ∨ TraitDue config now l traitId := by
  by_contra hnot
  rw [not_or] at hnot
  obtain ⟨hentity, htrait⟩ := hnot
  obtain ⟨traitId', hon', hrule⟩ := hcollected.rule.resolve_left hentity
  obtain rfl := onTrait_unique hon' hon
  obtain ⟨agg, hlookup⟩ := h.lookup_of_onTrait hm hon
  obtain ⟨hcount, hmem⟩ := (oldVersion_iff h hnodup hlookup m hm).mp
    ⟨hon, hrule.resolve_left htrait⟩
  have hop : GCOperation.compactTrait traitId' ∈
      genEntityCollections config now order (.ofAggregation s) :=
    (mem_genEntityCollections_iff h hnodup _).mpr ⟨hcollected.settled, Or.inr ⟨hentity, traitId',
      agg, hlookup, Or.inr ⟨htrait, hcount, rfl⟩⟩⟩
  rw [runEntity, haggr] at hrun
  simp only [Option.bind_eq_bind, Option.bind_some, Option.bind_eq_some_iff] at hrun
  obtain ⟨founds, hfounds, -⟩ := hrun
  obtain ⟨found, hcollect⟩ := isSome_of_mapM _ _ _ hfounds _ hop
  simp only [collect, collectTraitVersions] at hcollect
  split_ifs at hcollect with hfew hassert
  · have hzero : (traitOperations traitId' minOpTime l).length - config.traitVersionsMax = 0 :=
      Nat.sub_eq_zero_of_le hfew
    rw [selectVersions, hzero] at hmem
    exact absurd hmem List.not_mem_nil
  · rw [assertInactiveOperations, List.all_eq_true] at hassert
    exact of_decide_eq_true (hassert _ hmem)
      ((mem_activeOperations_iff h.scanned h.active traitId' m hm hon).mpr hlast)

end Collections

end Exocore.Store
