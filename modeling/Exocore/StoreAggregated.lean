import Exocore.StoreCompact

/-! What the parts of an aggregator agree on: the last operations of the traits, the active
operations, and the dates of deletion. -/
namespace Exocore.Store

def gcInactiveOpsThreshold : ℕ := 10

/-- None where the subtraction underflows. -/
def EntityAggregator.shouldCollect (e : EntityAggregator) : Option Bool :=
  if e.activeOperations.card ≤ e.mutationCount then
    some (gcInactiveOpsThreshold < e.mutationCount - e.activeOperations.card)
  else none

def IsTombstone (m : MutationMetadata) : Prop :=
  m.mutationType = .entityTombstone ∨ ∃ traitId, m.mutationType = .traitTombstone traitId

/-- A tombstone that is taken. -/
def TakesTombstone (l : List MutationMetadata) : Prop :=
  ∃ front m rear, l = front ++ m :: rear ∧ IsTombstone m ∧ ¬ Late front m

theorem takesTombstone_snoc (l : List MutationMetadata) (m : MutationMetadata) :
    TakesTombstone (l ++ [m]) ↔ TakesTombstone l ∨ IsTombstone m ∧ ¬ Late l m := by
  constructor
  · rintro ⟨front, x, rear, hl, hx, hlate⟩
    rcases split_snoc _ _ _ _ _ hl with ⟨rfl, rfl⟩ | ⟨rear', hl'⟩
    · exact Or.inr ⟨hx, hlate⟩
    · exact Or.inl ⟨front, x, rear', hl', hx, hlate⟩
  · rintro (⟨front, x, rear, hl, hx, hlate⟩ | ⟨hm, hlate⟩)
    · exact ⟨front, x, rear ++ [m], by rw [hl]; simp, hx, hlate⟩
    · exact ⟨l, m, [], rfl, hm, hlate⟩

/-- What a mutation that is taken does to the traits and to the date of deletion. -/
theorem applyMutation_cases (s s' : Aggregation) (m : MutationMetadata)
    (h : s.applyMutation m = some s') :
    (∃ put agg, m.mutationType = .traitPut put ∧ Shows agg m ∧
        s'.traits = s.traits.insert put.traitId agg ∧ s'.deletionDate = none) ∨
      (∃ traitId agg, m.mutationType = .traitTombstone traitId ∧ Shows agg m ∧
        s'.traits = s.traits.insert traitId agg ∧
        (s'.deletionDate.isSome = true ∧ AllDeleted s'.traits ∨
          s'.deletionDate = s.deletionDate ∧ ¬ AllDeleted s'.traits)) ∨
      (m.mutationType = .entityTombstone ∧
        s'.traits = s.traits.mapValues (·.pushDeleteMutation m.operationId) ∧
        s'.deletionDate.isSome = true) ∨
      m.mutationType = .pendingDeletion ∧ s'.traits = s.traits ∧
        s'.deletionDate = s.deletionDate := by
  rw [Aggregation.applyMutation] at h
  cases hkind : m.mutationType with
  | traitPut put =>
    simp only [hkind, Aggregation.putTrait] at h
    split_ifs at h
    rw [← Option.some.inj h]
    exact Or.inl ⟨put, _, rfl, shows_pushPut _ m put hkind, rfl, rfl⟩
  | traitTombstone traitId =>
    simp only [hkind, Aggregation.deleteTrait] at h
    have hnotPut : ∀ put, m.mutationType ≠ .traitPut put := by
      intro put hput
      rw [hkind] at hput
      cases hput
    split_ifs at h with _ hall
    · rw [← Option.some.inj h]
      exact Or.inr (Or.inl ⟨traitId, _, rfl, shows_pushDelete _ m hnotPut, rfl,
        Or.inl ⟨rfl, (allDeleted_iff _).mp hall⟩⟩)
    · rw [← Option.some.inj h]
      exact Or.inr (Or.inl ⟨traitId, _, rfl, shows_pushDelete _ m hnotPut, rfl,
        Or.inr ⟨rfl, fun hd => hall ((allDeleted_iff _).mpr hd)⟩⟩)
  | entityTombstone =>
    simp only [hkind] at h
    rw [deleteEntity_eq_some _ _ _ h]
    exact Or.inr (Or.inr (Or.inl ⟨rfl, rfl, rfl⟩))
  | pendingDeletion =>
    simp only [hkind] at h
    rw [← Option.some.inj h]
    exact Or.inr (Or.inr (Or.inr ⟨rfl, rfl, rfl⟩))

/-- The loop discards exactly the late mutations. -/
theorem applyMutation_eq_none_iff {l : List MutationMetadata} {s : Aggregation}
    (h : Scanned l s) (m : MutationMetadata) :
    (s.count m).applyMutation m = none ↔ Late l m := by
  have htraits : (s.count m).traits = s.traits := rfl
  have hlast : (s.count m).lastOperationId = s.lastOperationId := rfl
  rw [Aggregation.applyMutation]
  cases hkind : m.mutationType with
  | traitPut put =>
    have hon : OnTrait put.traitId m := by rw [OnTrait, hkind]; rfl
    rw [← isLate_iff_late h.traits put.traitId m hon]
    simp only [Aggregation.putTrait, htraits]
    split_ifs with hlate
    · exact iff_of_true rfl hlate
    · exact iff_of_false (fun hnone => by cases hnone) hlate
  | traitTombstone traitId =>
    have hon : OnTrait traitId m := by rw [OnTrait, hkind]; rfl
    rw [← isLate_iff_late h.traits traitId m hon]
    simp only [Aggregation.deleteTrait, htraits]
    split_ifs with hlate
    · exact iff_of_true rfl hlate
    · exact iff_of_false (fun hnone => by cases hnone) hlate
    · exact iff_of_false (fun hnone => by cases hnone) ‹_›
  | entityTombstone =>
    have hiff : Late l m ↔ ∃ o ∈ l, m.operationId < o.operationId := by
      constructor
      · rintro (⟨traitId, _, _, _, hon, _⟩ | ⟨_, ho⟩)
        · rw [OnTrait, hkind] at hon
          cases hon
        · exact ho
      · exact fun ho => Or.inr ⟨hkind, ho⟩
    rw [hiff]
    simp only [Aggregation.deleteEntity, hlast]
    cases hs : s.lastOperationId with
    | none =>
      refine iff_of_false (fun hnone => by cases hnone) ?_
      rintro ⟨o, ho, hlt⟩
      have hle := h.last o ho
      rw [hs] at hle
      exact absurd (hlt.trans_le hle) (Fin.not_lt_zero _)
    | some last =>
      simp only
      split_ifs with hlt
      · obtain ⟨o, ho, hid⟩ := h.lastMem last hs
        exact iff_of_true rfl ⟨o, ho, hid ▸ hlt⟩
      · refine iff_of_false (fun hnone => by cases hnone) ?_
        rintro ⟨o, ho, hlt'⟩
        have hle := h.last o ho
        rw [hs] at hle
        exact hlt (hlt'.trans_le hle)
  | pendingDeletion =>
    refine iff_of_false (fun hnone => by cases hnone) ?_
    rintro (⟨traitId, _, _, _, hon, _⟩ | ⟨hkind', _⟩)
    · rw [OnTrait, hkind] at hon
      cases hon
    · rw [hkind] at hkind'
      cases hkind'

/-- Each trait shows a mutation of its own, or the tombstone of the entity. -/
def TraitsShown (l : List MutationMetadata) (traits : Traits) : Prop :=
  ∀ traitId agg, traits.lookup traitId = some agg →
    ∃ w ∈ l, Shows agg w ∧ (OnTrait traitId w ∨ w.mutationType = .entityTombstone)

theorem TraitsShown.snoc {l : List MutationMetadata} {traits : Traits} (h : TraitsShown l traits)
    (m : MutationMetadata) : TraitsShown (l ++ [m]) traits := by
  intro traitId agg hlookup
  obtain ⟨w, hw, hshows⟩ := h traitId agg hlookup
  exact ⟨w, List.mem_append_left _ hw, hshows⟩

theorem TraitsShown.insert {l : List MutationMetadata} {traits : Traits} (h : TraitsShown l traits)
    (m : MutationMetadata) (traitId : TraitId) (hon : OnTrait traitId m) (agg : TraitAggregator)
    (hagg : Shows agg m) : TraitsShown (l ++ [m]) (traits.insert traitId agg) := by
  intro traitId' agg' hlookup
  by_cases heq : traitId' = traitId
  · subst heq
    rw [AList.lookup_insert] at hlookup
    exact ⟨m, by simp, Option.some.inj hlookup ▸ hagg, Or.inl hon⟩
  · rw [AList.lookup_insert_ne heq] at hlookup
    exact h.snoc m traitId' agg' hlookup

theorem traitsShown_wipe (l : List MutationMetadata) (traits : Traits) (m : MutationMetadata)
    (hm : m.mutationType = .entityTombstone) :
    TraitsShown (l ++ [m]) (traits.mapValues (·.pushDeleteMutation m.operationId)) := by
  intro traitId agg hlookup
  rw [lookup_mapValues, Option.map_eq_some_iff] at hlookup
  obtain ⟨old, _, rfl⟩ := hlookup
  exact ⟨m, by simp, shows_pushDelete old m (by simp [hm]), Or.inr hm⟩

/-- The dates, the traits and the count behind these mutations. -/
structure Aggregated (l : List MutationMetadata) (s : Aggregation) : Prop where
  shown : TraitsShown l s.traits
  deleted : s.deletionDate.isSome = true ↔ TakesTombstone l ∧ AllDeleted s.traits
  counted : s.mutationCount = l.length

theorem aggregated_start : Aggregated [] Aggregation.start := by
  refine ⟨fun traitId agg h => by simp [Aggregation.start] at h, ?_, rfl⟩
  refine iff_of_false (by simp [Aggregation.start]) ?_
  rintro ⟨⟨front, m, rear, hl, _⟩, _⟩
  simp at hl

theorem noteLast_mutationCount (s : Aggregation) (m : MutationMetadata) :
    (s.noteLast m).mutationCount = s.mutationCount := by
  rw [Aggregation.noteLast]
  cases m.blockOffset <;> split_ifs <;> rfl

/-- A mutation that is taken, by its kind. -/
theorem Aggregated.taken {l : List MutationMetadata} {s s' : Aggregation} (h : Aggregated l s)
    (m : MutationMetadata) (hlate : ¬ Late l m) (happly : (s.count m).applyMutation m = some s') :
    Aggregated (l ++ [m]) s' := by
  have htraits : (s.count m).traits = s.traits := rfl
  have hdate : (s.count m).deletionDate = s.deletionDate := rfl
  have hcount : s'.mutationCount = (l ++ [m]).length := by
    rw [(applyMutation_counters _ _ _ happly).2, List.length_append, ← h.counted]
    rfl
  have hcases := applyMutation_cases _ _ _ happly
  rw [htraits, hdate] at hcases
  rcases hcases with ⟨put, agg, hkind, hshows, hput, hnone⟩ |
    ⟨traitId, agg, hkind, hshows, hdel, hdate'⟩ | ⟨hkind, hwiped, hsome⟩ | ⟨hkind, hsame, hdate'⟩
  · have hon : OnTrait put.traitId m := by rw [OnTrait, hkind]; rfl
    refine ⟨?_, ?_, hcount⟩
    · rw [hput]
      exact h.shown.insert m put.traitId hon agg hshows
    · rw [hnone, hput]
      refine iff_of_false (by simp) ?_
      rintro ⟨_, hall⟩
      have hlive := hall put.traitId agg (AList.lookup_insert _)
      rw [(hshows.put put hkind).1] at hlive
      cases hlive
  · have hon : OnTrait traitId m := by rw [OnTrait, hkind]; rfl
    have htakes : TakesTombstone (l ++ [m]) :=
      (takesTombstone_snoc l m).mpr (Or.inr ⟨Or.inr ⟨traitId, hkind⟩, hlate⟩)
    refine ⟨?_, ?_, hcount⟩
    · rw [hdel]
      exact h.shown.insert m traitId hon agg hshows
    · rcases hdate' with ⟨hsome, hall⟩ | ⟨hsame, hnot⟩
      · exact iff_of_true hsome ⟨htakes, hall⟩
      · -- a trait that is still there was there before
        refine iff_of_false ?_ (fun hall => hnot hall.2)
        intro hsome
        rw [hsame] at hsome
        have hdeleted : agg.deletionDate.isSome = true :=
          hshows.deleted (fun put hput => by rw [hkind] at hput; cases hput)
        rw [hdel] at hnot
        exact hnot (allDeleted_insert _ _ _ hdeleted (h.deleted.mp hsome).2)
  · have htakes : TakesTombstone (l ++ [m]) :=
      (takesTombstone_snoc l m).mpr (Or.inr ⟨Or.inl hkind, hlate⟩)
    refine ⟨?_, iff_of_true hsome ⟨htakes, ?_⟩, hcount⟩
    · rw [hwiped]
      exact traitsShown_wipe l s.traits m hkind
    · intro traitId agg hlookup
      rw [hwiped, lookup_mapValues, Option.map_eq_some_iff] at hlookup
      obtain ⟨old, _, rfl⟩ := hlookup
      rfl
  · refine ⟨?_, ?_, hcount⟩
    · rw [hsame]
      exact h.shown.snoc m
    · have hnot : ¬ IsTombstone m := by
        rintro (hkind' | ⟨traitId, hkind'⟩)
        · rw [hkind] at hkind'
          cases hkind'
        · rw [hkind] at hkind'
          cases hkind'
      rw [hdate', hsame, h.deleted, takesTombstone_snoc]
      simp only [hnot, false_and, or_false]

theorem Aggregated.step {l : List MutationMetadata} {s s' : Aggregation} (h : Aggregated l s)
    (hscanned : Scanned l s) (m : MutationMetadata) (hstep : s.step m = some s') :
    Aggregated (l ++ [m]) s' := by
  rw [Aggregation.step] at hstep
  split_ifs at hstep with hprev
  cases happly : (s.count m).applyMutation m with
  | none =>
    have hlate := (applyMutation_eq_none_iff hscanned m).mp happly
    simp only [happly] at hstep
    rw [← Option.some.inj hstep]
    refine ⟨h.shown.snoc m, ?_, ?_⟩
    · have hdate : (s.count m).deletionDate = s.deletionDate := rfl
      have htraits : (s.count m).traits = s.traits := rfl
      rw [hdate, htraits, h.deleted, takesTombstone_snoc]
      simp only [hlate, not_true_eq_false, and_false, or_false]
    · show s.mutationCount + 1 = (l ++ [m]).length
      rw [h.counted, List.length_append, List.length_singleton]
  | some s₁ =>
    have hlate : ¬ Late l m := by
      rw [← applyMutation_eq_none_iff hscanned m, happly]
      intro hnone
      cases hnone
    have htaken := h.taken m hlate happly
    obtain ⟨htraits, hdate, _, _⟩ := noteLast_eq s₁ m
    simp only [happly] at hstep
    rw [← Option.some.inj hstep]
    refine ⟨?_, ?_, ?_⟩
    · rw [htraits]
      exact htaken.shown
    · rw [htraits, hdate]
      exact htaken.deleted
    · rw [noteLast_mutationCount]
      exact htaken.counted

theorem Aggregated.run {l : List MutationMetadata} {s s' : Aggregation} (h : Aggregated l s)
    (hscanned : Scanned l s) (rest : List MutationMetadata) (hrun : s.run rest = some s') :
    Aggregated (l ++ rest) s' := by
  have hend := Aggregation.run_keeps (fun l s => Aggregated l s ∧ Scanned l s)
    (fun _ _ _ m h hstep => ⟨h.1.step h.2 m hstep, scanned_step h.2 m hstep⟩) ⟨h, hscanned⟩ rest hrun
  exact hend.1

/-- What search and the garbage collector rely on. -/
structure Agrees (l : List MutationMetadata) (e : EntityAggregator) : Prop where
  live : ∀ traitId agg, e.traits.lookup traitId = some agg →
    (agg.deletionDate = none ↔ ∃ m ∈ l, ∃ put, m.mutationType = .traitPut put ∧
      put.traitId = traitId ∧ agg.lastOperationId = some m.operationId ∧
      m.operationId ∈ e.activeOperations)
  lastPut : ∀ traitId agg m put, e.traits.lookup traitId = some agg → agg.deletionDate = none →
    m ∈ l → m.mutationType = .traitPut put → agg.lastOperationId = some m.operationId →
    agg.lastPutMutation = some (m, put)
  active : ∀ id ∈ e.activeOperations, id ∈ l.map MutationMetadata.operationId
  collect : e.shouldCollect ≠ none
  deleted : e.deletionDate.isSome = true ↔ TakesTombstone l ∧ AllDeleted e.traits

theorem new_agrees (l : List MutationMetadata)
    (hnodup : (l.map MutationMetadata.operationId).Nodup) :
    ∃ e, EntityAggregator.new l = some e ∧ Agrees l e := by
  obtain ⟨s, hrun⟩ := run_of_nodup Aggregation.start l (by simp [Aggregation.start]) hnodup
  have hscanned := scanned_run scanned_start l hrun
  have hactive := activeLast_run activeLast_start scanned_start l hnodup hrun
  have haggregated := aggregated_start.run scanned_start l hrun
  rw [List.nil_append] at hscanned hactive haggregated
  have hsame (m w : MutationMetadata) (hm : m ∈ l) (hw : w ∈ l)
      (hid : w.operationId = m.operationId) : w = m :=
    List.inj_on_of_nodup_map hnodup hw hm hid
  refine ⟨.ofAggregation s, by rw [EntityAggregator.new, hrun]; rfl, ?_⟩
  constructor
  case live =>
    intro traitId agg hlookup
    obtain ⟨w, hw, hshows, hon⟩ := haggregated.shown traitId agg hlookup
    constructor
    · intro hlive
      have hput : ∃ put, w.mutationType = .traitPut put := by
        by_contra hnot
        have hdeleted := hshows.deleted (fun put hput => hnot ⟨put, hput⟩)
        rw [hlive] at hdeleted
        cases hdeleted
      obtain ⟨put, hput⟩ := hput
      have hon : OnTrait traitId w := by
        rcases hon with hon | hkind
        · exact hon
        · rw [hput] at hkind
          cases hkind
      refine ⟨w, hw, put, hput, ?_, hshows.last, ?_⟩
      · rw [OnTrait, hput] at hon
        exact Option.some.inj hon
      · exact (hactive.last traitId w hw hon).mpr ⟨agg, hlookup, hshows.last⟩
    · rintro ⟨m, hm, put, hput, _, hlast, _⟩
      rw [hshows.last] at hlast
      have hwm := hsame m w hm hw (Option.some.inj hlast)
      exact (hshows.put put (hwm ▸ hput)).1
  case lastPut =>
    intro traitId agg m put hlookup _ hm hput hlast
    obtain ⟨w, hw, hshows, _⟩ := haggregated.shown traitId agg hlookup
    rw [hshows.last] at hlast
    have hwm := hsame m w hm hw (Option.some.inj hlast)
    rw [TraitAggregator.lastPutMutation, (hshows.put put (hwm ▸ hput)).2, hwm]
    simp only [hput]
  case active =>
    intro id hid
    obtain ⟨m, hm, hmid⟩ := hactive.mem id hid
    exact List.mem_map.mpr ⟨m, hm, hmid⟩
  case collect =>
    have hsubset : s.activeOperations ⊆ (l.map MutationMetadata.operationId).toFinset := by
      intro id hid
      obtain ⟨m, hm, hmid⟩ := hactive.mem id hid
      exact List.mem_toFinset.mpr (List.mem_map.mpr ⟨m, hm, hmid⟩)
    have hcard : s.activeOperations.card ≤ s.mutationCount := by
      calc s.activeOperations.card
          ≤ (l.map MutationMetadata.operationId).toFinset.card := Finset.card_le_card hsubset
        _ ≤ (l.map MutationMetadata.operationId).length := List.toFinset_card_le _
        _ = s.mutationCount := by rw [List.length_map, haggregated.counted]
    have hif : (EntityAggregator.ofAggregation s).shouldCollect = some _ := if_pos hcard
    rw [hif]
    exact Option.some_ne_none _
  case deleted => exact haggregated.deleted

/-- A put, a late put, the tombstone of the entity, a put behind it and a pending deletion. -/
def mixedMutations : List MutationMetadata :=
  [version 2 (some 2), version 1 (some 3), ⟨3, some 4, "entity", .entityTombstone⟩,
    version 4 (some 5), ⟨5, none, "entity", .pendingDeletion⟩]

theorem mixedMutations_agrees :
    ∃ e, EntityAggregator.new mixedMutations = some e ∧ Agrees mixedMutations e :=
  new_agrees mixedMutations (by decide)

end Exocore.Store
