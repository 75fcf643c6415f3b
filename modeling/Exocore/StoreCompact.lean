import Exocore.StoreCollectPending

/-! Which operations of an entity are active, and when a compaction selects one of them. -/
namespace Exocore.Store

open GarbageCollector

/-- The active operations of the traits are their last ones. -/
structure ActiveLast (l : List MutationMetadata) (s : Aggregation) : Prop where
  mem : ∀ id ∈ s.activeOperations, ∃ m ∈ l, m.operationId = id
  last : ∀ traitId m, m ∈ l → OnTrait traitId m →
    (m.operationId ∈ s.activeOperations ↔
      ∃ agg, s.traits.lookup traitId = some agg ∧ agg.lastOperationId = some m.operationId)

theorem activeLast_start : ActiveLast [] Aggregation.start :=
  ⟨by simp [Aggregation.start], by simp⟩

theorem onTrait_unique {traitId traitId' : TraitId} {m : MutationMetadata}
    (h : OnTrait traitId m) (h' : OnTrait traitId' m) : traitId = traitId' :=
  Option.some.inj (h.symm.trans h')

/-- The last operation of a trait is not one of another trait. -/
theorem last_ne_of_onTrait {l : List MutationMetadata} {traits : Traits}
    (hnodup : (l.map MutationMetadata.operationId).Nodup) (h : TraitsSeen l traits)
    (traitId traitId' : TraitId) (hne : traitId' ≠ traitId) (agg : TraitAggregator)
    (hagg : traits.lookup traitId = some agg) (m : MutationMetadata) (hm : m ∈ l)
    (hon : OnTrait traitId' m) : agg.lastOperationId ≠ some m.operationId := by
  intro hlast
  obtain ⟨id, hid, htouch⟩ := (h.seen traitId agg hagg).last
  obtain ⟨front, x, rear, hl, hx, rfl⟩ := htouch.touches
  rw [hid] at hlast
  have hsame : x = m := List.inj_on_of_nodup_map hnodup (by rw [hl]; simp) hm
    (Option.some.inj hlast)
  subst hsame
  rcases hx with hx | ⟨hkind, -⟩
  · exact hne (onTrait_unique hon hx)
  · rw [OnTrait, hkind] at hon
    simp [traitOf] at hon

theorem mem_removeLast (active : Finset OperationId) (agg : TraitAggregator) (id : OperationId) :
    id ∈ Aggregation.removeLast active agg ↔ id ∈ active ∧ agg.lastOperationId ≠ some id := by
  rw [Aggregation.removeLast]
  cases hlast : agg.lastOperationId with
  | none => simp
  | some last =>
    rw [Finset.mem_erase]
    constructor
    · rintro ⟨hne, hmem⟩
      exact ⟨hmem, fun h => hne (Option.some.inj h).symm⟩
    · rintro ⟨hmem, hne⟩
      exact ⟨fun h => hne (by rw [h]), hmem⟩

/-- An operation of a trait that is taken becomes its active one. -/
theorem activeLast_insert {l : List MutationMetadata} {s s' : Aggregation} (h : ActiveLast l s)
    (hseen : TraitsSeen l s.traits) (m : MutationMetadata)
    (hnodup : ((l ++ [m]).map MutationMetadata.operationId).Nodup) (traitId : TraitId)
    (hon : OnTrait traitId m) (agg : TraitAggregator)
    (hlast : agg.lastOperationId = some m.operationId)
    (htraits : s'.traits = s.traits.insert traitId agg)
    (hactive : s'.activeOperations = insert m.operationId
      (Aggregation.removeLast s.activeOperations
        (TraitAggregator.getForTrait s.traits traitId))) :
    ActiveLast (l ++ [m]) s' := by
  have hl : (l.map MutationMetadata.operationId).Nodup :=
    (List.nodup_append.mp (by rwa [List.map_append] at hnodup)).1
  have hfresh : ∀ x ∈ l, x.operationId ≠ m.operationId := by
    intro x hx heq
    rw [List.map_append, List.nodup_append] at hnodup
    exact hnodup.2.2 _ (List.mem_map_of_mem hx) m.operationId (by simp) heq
  constructor
  · intro id hid
    rw [hactive, Finset.mem_insert, mem_removeLast] at hid
    rcases hid with rfl | ⟨hid, -⟩
    · exact ⟨m, by simp, rfl⟩
    · obtain ⟨x, hx, rfl⟩ := h.mem id hid
      exact ⟨x, List.mem_append_left _ hx, rfl⟩
  · intro traitId' x hx hxon
    rw [hactive, htraits, Finset.mem_insert, mem_removeLast]
    rcases List.mem_append.mp hx with hx | hx
    · have hne := hfresh x hx
      by_cases heq : traitId' = traitId
      · subst heq
        -- what was active of the trait gives way
        rw [AList.lookup_insert]
        refine iff_of_false ?_ ?_
        · rintro (hid | ⟨hid, hkeep⟩)
          · exact hne hid
          · obtain ⟨old, hold, holdLast⟩ := (h.last traitId' x hx hxon).mp hid
            rw [TraitAggregator.getForTrait, hold] at hkeep
            exact hkeep holdLast
        · rintro ⟨agg', hagg', hlast'⟩
          rw [← Option.some.inj hagg', hlast] at hlast'
          exact hne (Option.some.inj hlast').symm
      · rw [AList.lookup_insert_ne heq, ← h.last traitId' x hx hxon]
        constructor
        · rintro (hid | ⟨hid, -⟩)
          · exact absurd hid hne
          · exact hid
        · intro hid
          refine Or.inr ⟨hid, ?_⟩
          rw [TraitAggregator.getForTrait]
          cases hold : s.traits.lookup traitId with
          | none => simp [TraitAggregator.default]
          | some old =>
            exact last_ne_of_onTrait hl hseen traitId traitId' heq old hold x hx hxon
    · rw [List.mem_singleton.mp hx] at hxon ⊢
      obtain rfl := onTrait_unique hxon hon
      rw [AList.lookup_insert]
      exact iff_of_true (Or.inl rfl) ⟨agg, rfl, hlast⟩

/-- A mutation that leaves traits and active operations as they are, and is not one of a trait
or a late one. -/
theorem activeLast_keep {l : List MutationMetadata} {s s' : Aggregation} (h : ActiveLast l s)
    (hseen : TraitsSeen l s.traits) (m : MutationMetadata)
    (hfresh : ∀ x ∈ l, x.operationId ≠ m.operationId) (htraits : s'.traits = s.traits)
    (hactive : s'.activeOperations = s.activeOperations) : ActiveLast (l ++ [m]) s' := by
  constructor
  · intro id hid
    rw [hactive] at hid
    obtain ⟨x, hx, rfl⟩ := h.mem id hid
    exact ⟨x, List.mem_append_left _ hx, rfl⟩
  · intro traitId x hx hxon
    rw [hactive, htraits]
    rcases List.mem_append.mp hx with hx | hx
    · exact h.last traitId x hx hxon
    · rw [List.mem_singleton.mp hx]
      refine iff_of_false ?_ ?_
      · intro hid
        obtain ⟨y, hy, heq⟩ := h.mem _ hid
        exact hfresh y hy heq
      · rintro ⟨agg, hagg, hlast⟩
        obtain ⟨id, hid, htouch⟩ := (hseen.seen traitId agg hagg).last
        obtain ⟨front, y, rear, hl, -, rfl⟩ := htouch.touches
        rw [hid] at hlast
        exact hfresh y (by rw [hl]; simp) (Option.some.inj hlast)

theorem activeLast_wipe {l : List MutationMetadata} {s s' : Aggregation} (m : MutationMetadata)
    (hfresh : ∀ x ∈ l, x.operationId ≠ m.operationId) (hm : m.mutationType = .entityTombstone)
    (htraits : s'.traits = s.traits.mapValues (·.pushDeleteMutation m.operationId))
    (hactive : s'.activeOperations = {m.operationId}) : ActiveLast (l ++ [m]) s' := by
  constructor
  · intro id hid
    rw [hactive, Finset.mem_singleton] at hid
    exact ⟨m, by simp, hid.symm⟩
  · intro traitId x hx hxon
    rcases List.mem_append.mp hx with hx | hx
    · rw [hactive, htraits, Finset.mem_singleton, lookup_mapValues]
      refine iff_of_false (hfresh x hx) ?_
      rintro ⟨agg, hagg, hlast⟩
      obtain ⟨old, -, rfl⟩ := Option.map_eq_some_iff.mp hagg
      exact hfresh x hx (Option.some.inj hlast).symm
    · rw [List.mem_singleton.mp hx, OnTrait, hm] at hxon
      simp [traitOf] at hxon

theorem noteLast_activeOperations (s : Aggregation) (m : MutationMetadata) :
    (s.noteLast m).activeOperations = s.activeOperations := by
  rw [Aggregation.noteLast]
  cases m.blockOffset <;> split_ifs <;> rfl

theorem activeLast_noteLast {l : List MutationMetadata} {s : Aggregation} (m : MutationMetadata)
    (h : ActiveLast l s) : ActiveLast l (s.noteLast m) := by
  have htraits := (noteLast_eq s m).1
  have hactive := noteLast_activeOperations s m
  refine ⟨?_, ?_⟩
  · rw [hactive]
    exact h.mem
  · rw [hactive, htraits]
    exact h.last

theorem activeLast_step {l : List MutationMetadata} {s s' : Aggregation} (h : ActiveLast l s)
    (hseen : TraitsSeen l s.traits) (m : MutationMetadata)
    (hnodup : ((l ++ [m]).map MutationMetadata.operationId).Nodup)
    (hstep : s.step m = some s') : ActiveLast (l ++ [m]) s' := by
  have hfresh : ∀ x ∈ l, x.operationId ≠ m.operationId := by
    intro x hx heq
    rw [List.map_append, List.nodup_append] at hnodup
    exact hnodup.2.2 _ (List.mem_map_of_mem hx) m.operationId (by simp) heq
  rw [Aggregation.step] at hstep
  split_ifs at hstep with hprev
  have hdiscard : ActiveLast (l ++ [m]) (s.count m) :=
    activeLast_keep h hseen m hfresh rfl rfl
  cases happly : (s.count m).applyMutation m with
  | none =>
    simp only [happly] at hstep
    rw [← Option.some.inj hstep]
    exact hdiscard
  | some s₁ =>
    simp only [happly] at hstep
    rw [← Option.some.inj hstep]
    apply activeLast_noteLast
    rw [Aggregation.applyMutation] at happly
    cases hkind : m.mutationType with
    | traitPut put =>
      have hon : OnTrait put.traitId m := by rw [OnTrait, hkind]; rfl
      simp only [hkind, Aggregation.putTrait] at happly
      split_ifs at happly
      rw [← Option.some.inj happly]
      exact activeLast_insert h hseen m hnodup put.traitId hon _ rfl rfl rfl
    | traitTombstone traitId =>
      have hon : OnTrait traitId m := by rw [OnTrait, hkind]; rfl
      simp only [hkind, Aggregation.deleteTrait] at happly
      split_ifs at happly
      · rw [← Option.some.inj happly]
        exact activeLast_insert h hseen m hnodup traitId hon _ rfl rfl rfl
      · rw [← Option.some.inj happly]
        exact activeLast_insert h hseen m hnodup traitId hon _ rfl rfl rfl
    | entityTombstone =>
      simp only [hkind] at happly
      rw [deleteEntity_eq_some _ _ _ happly]
      exact activeLast_wipe (s := s) m hfresh hkind rfl rfl
    | pendingDeletion =>
      simp only [hkind] at happly
      rw [← Option.some.inj happly]
      exact activeLast_keep h hseen m hfresh rfl rfl

theorem activeLast_run {l : List MutationMetadata} {s s' : Aggregation} (h : ActiveLast l s)
    (hscanned : Scanned l s) (rest : List MutationMetadata)
    (hnodup : ((l ++ rest).map MutationMetadata.operationId).Nodup)
    (hrun : s.run rest = some s') : ActiveLast (l ++ rest) s' := by
  have hend := Aggregation.run_keeps
    (fun l s => ((l.map MutationMetadata.operationId).Nodup → ActiveLast l s) ∧ Scanned l s) ?_
    ⟨fun _ => h, hscanned⟩ rest hrun
  · exact hend.1 hnodup
  · intro l s s' m h hstep
    refine ⟨fun hids => ?_, scanned_step h.2 m hstep⟩
    have hfront : (l.map MutationMetadata.operationId).Nodup := by
      rw [List.map_append] at hids
      exact (List.nodup_append.mp hids).1
    exact activeLast_step (h.1 hfront) h.2.traits m hids hstep

/-- The kinds of mutations do not move the counters. -/
theorem applyMutation_counters (s s' : Aggregation) (m : MutationMetadata)
    (h : s.applyMutation m = some s') :
    s'.prevOperationId = s.prevOperationId ∧ s'.mutationCount = s.mutationCount := by
  rw [Aggregation.applyMutation] at h
  cases hkind : m.mutationType with
  | traitPut put =>
    simp only [hkind, Aggregation.putTrait] at h
    split_ifs at h
    rw [← Option.some.inj h]
    exact ⟨rfl, rfl⟩
  | traitTombstone traitId =>
    simp only [hkind, Aggregation.deleteTrait] at h
    split_ifs at h <;> rw [← Option.some.inj h] <;> exact ⟨rfl, rfl⟩
  | entityTombstone =>
    simp only [hkind] at h
    rw [deleteEntity_eq_some _ _ _ h]
    exact ⟨rfl, rfl⟩
  | pendingDeletion =>
    simp only [hkind] at h
    rw [← Option.some.inj h]
    exact ⟨rfl, rfl⟩

theorem step_prev (s s' : Aggregation) (m : MutationMetadata) (h : s.step m = some s') :
    s'.prevOperationId = some m.operationId := by
  rw [Aggregation.step] at h
  split_ifs at h
  cases happly : (s.count m).applyMutation m with
  | none =>
    simp only [happly] at h
    rw [← Option.some.inj h]
    rfl
  | some s₁ =>
    simp only [happly] at h
    rw [← Option.some.inj h, (noteLast_eq s₁ m).2.2.1,
      (applyMutation_counters _ _ _ happly).1]
    rfl

/-- The assertion of the loop holds where no operation comes twice. -/
theorem run_of_nodup (s : Aggregation) (l : List MutationMetadata)
    (hprev : ∀ m ∈ l, s.prevOperationId ≠ some m.operationId)
    (hnodup : (l.map MutationMetadata.operationId).Nodup) : ∃ s', s.run l = some s' := by
  induction l generalizing s with
  | nil => exact ⟨s, rfl⟩
  | cons m l ih =>
    rw [List.map_cons, List.nodup_cons] at hnodup
    obtain ⟨s₁, hstep⟩ : ∃ s₁, s.step m = some s₁ := by
      rw [Aggregation.step, if_neg (hprev m List.mem_cons_self)]
      cases (s.count m).applyMutation m with
      | none => exact ⟨_, rfl⟩
      | some s₁ => exact ⟨_, rfl⟩
    obtain ⟨s', hrun⟩ := ih s₁ (by
      intro x hx heq
      rw [step_prev s s₁ m hstep] at heq
      exact hnodup.1 (List.mem_map.mpr ⟨x, hx, (Option.some.inj heq).symm⟩)) hnodup.2
    exact ⟨s', by rw [Aggregation.run, hstep]; exact hrun⟩

/-- What the aggregator of a list without repeated operations is made from. -/
theorem new_scanned (l : List MutationMetadata)
    (hnodup : (l.map MutationMetadata.operationId).Nodup) :
    ∃ s, EntityAggregator.new l = some (.ofAggregation s) ∧ Scanned l s ∧ ActiveLast l s := by
  obtain ⟨s, hrun⟩ := run_of_nodup Aggregation.start l (by simp [Aggregation.start]) hnodup
  have hscanned := scanned_run scanned_start l hrun
  have hactive := activeLast_run activeLast_start scanned_start l hnodup hrun
  rw [List.nil_append] at hscanned hactive
  exact ⟨s, by rw [EntityAggregator.new, hrun]; rfl, hscanned, hactive⟩

theorem filterTraitMutations_eq (l : List MutationMetadata) (traitId : TraitId) :
    filterTraitMutations l traitId =
      l.filter fun m => decide (traitOf m.mutationType = some traitId) := by
  apply List.filter_congr
  intro m _
  cases m.mutationType <;> simp [traitOf]

/-- The operations of the trait that are old enough, part by part of the list. -/
theorem traitOperations_append (traitId : TraitId) (minOpTime : DateTime)
    (front rear : List MutationMetadata) :
    traitOperations traitId minOpTime (front ++ rear) =
      traitOperations traitId minOpTime front ++ traitOperations traitId minOpTime rear := by
  simp only [traitOperations, filterTraitMutations, List.filter_append, List.map_append]

theorem mem_traitOperations (traitId : TraitId) (minOpTime : DateTime)
    (l : List MutationMetadata) (id : OperationId) :
    id ∈ traitOperations traitId minOpTime l ↔
      ∃ m ∈ l, OnTrait traitId m ∧ toDatetime m.operationId < minOpTime ∧ m.operationId = id := by
  simp only [traitOperations, filterTraitMutations_eq, List.mem_map, List.mem_filter,
    decide_eq_true_eq, OnTrait, and_assoc]

theorem traitOperations_singleton (traitId : TraitId) (minOpTime : DateTime)
    (m : MutationMetadata) (hon : OnTrait traitId m) (hold : toDatetime m.operationId < minOpTime) :
    traitOperations traitId minOpTime [m] = [m.operationId] := by
  rw [OnTrait] at hon
  rw [traitOperations, filterTraitMutations_eq]
  simp [hon, hold]

/-- A compaction selects an operation when enough old ones of its trait stand behind it. -/
theorem mem_selectVersions_iff (traitId : TraitId) (minOpTime : DateTime) (maxVersions : ℕ)
    (front rear : List MutationMetadata) (p : MutationMetadata)
    (hnodup : ((front ++ p :: rear).map MutationMetadata.operationId).Nodup)
    (hon : OnTrait traitId p) :
    p.operationId ∈ selectVersions traitId minOpTime maxVersions (front ++ p :: rear) ↔
      toDatetime p.operationId < minOpTime ∧
        maxVersions ≤ (traitOperations traitId minOpTime rear).length := by
  have hnotIn : ∀ part : List MutationMetadata, (∀ m ∈ part, m.operationId ≠ p.operationId) →
      p.operationId ∉ traitOperations traitId minOpTime part := by
    intro part hpart hmem
    obtain ⟨m, hm, -, -, heq⟩ := (mem_traitOperations _ _ _ _).mp hmem
    exact hpart m hm heq
  rw [List.map_append, List.map_cons, List.nodup_append, List.nodup_cons] at hnodup
  have hfront := hnotIn front fun m hm heq =>
    hnodup.2.2 m.operationId (List.mem_map_of_mem hm) p.operationId List.mem_cons_self heq
  have hrear := hnotIn rear fun m hm heq => hnodup.2.1.1 (heq ▸ List.mem_map_of_mem hm)
  rw [selectVersions]
  by_cases hold : toDatetime p.operationId < minOpTime
  · have hsplit : traitOperations traitId minOpTime (front ++ p :: rear) =
        traitOperations traitId minOpTime front ++
          p.operationId :: traitOperations traitId minOpTime rear := by
      rw [traitOperations_append, ← List.singleton_append, traitOperations_append,
        traitOperations_singleton traitId minOpTime p hon hold, List.singleton_append]
    simp only [hsplit]
    set before := traitOperations traitId minOpTime front
    set behind := traitOperations traitId minOpTime rear
    rw [List.length_append, List.length_cons, List.take_append, List.mem_append]
    have hnot : p.operationId ∉ before.take (before.length + (behind.length + 1) - maxVersions) :=
      fun hmem => hfront (List.mem_of_mem_take hmem)
    simp only [hnot, false_or, hold, true_and]
    by_cases hmax : maxVersions ≤ behind.length
    · obtain ⟨n, hn⟩ : ∃ n, before.length + (behind.length + 1) - maxVersions - before.length =
          n + 1 := ⟨behind.length - maxVersions, by omega⟩
      rw [hn, List.take_succ_cons]
      exact iff_of_true List.mem_cons_self hmax
    · have hn : before.length + (behind.length + 1) - maxVersions - before.length = 0 := by omega
      rw [hn, List.take_zero]
      exact iff_of_false (by simp) hmax
  · refine iff_of_false ?_ fun h => hold h.1
    intro hmem
    obtain ⟨m, -, -, hlt, heq⟩ := (mem_traitOperations _ _ _ _).mp (List.mem_of_mem_take hmem)
    rw [heq] at hlt
    exact hold hlt

/-- A tombstone of the entity that deletes the trait after the operation was made: an operation
of the trait stands before it, and it is newer than all that does. -/
def WipedAfter (traitId : TraitId) (l : List MutationMetadata) (p : MutationMetadata) : Prop :=
  ∃ front t rear, l = front ++ t :: rear ∧ t.mutationType = .entityTombstone ∧
    (∃ a ∈ front, OnTrait traitId a) ∧ (∀ o ∈ front, o.operationId ≤ t.operationId) ∧
    p.operationId < t.operationId

/-- The newest operation of the trait, where it still counts and is old enough, has fewer old
operations of the trait behind it than versions are kept. -/
def NewestAtEnd (traitId : TraitId) (minOpTime : DateTime) (maxVersions : ℕ)
    (l : List MutationMetadata) : Prop :=
  ∀ front p rear, l = front ++ p :: rear → OnTrait traitId p →
    (∀ m ∈ l, OnTrait traitId m → m.operationId ≤ p.operationId) → ¬ WipedAfter traitId l p →
    toDatetime p.operationId < minOpTime →
    (traitOperations traitId minOpTime rear).length < maxVersions

theorem lastTouch_iff (traitId : TraitId) (l : List MutationMetadata) (p : MutationMetadata)
    (hp : p ∈ l) (hon : OnTrait traitId p) :
    LastTouch traitId l p.operationId ↔
      (∀ m ∈ l, OnTrait traitId m → m.operationId ≤ p.operationId) ∧ ¬ WipedAfter traitId l p := by
  constructor
  · intro h
    refine ⟨?_, ?_⟩
    · intro m hm hmon
      obtain ⟨front, rear, rfl⟩ := List.append_of_mem hm
      exact h.newest front m rear rfl (Or.inl hmon)
    · rintro ⟨front, t, rear, hl, hkind, hseen, hnew, hlt⟩
      exact absurd (h.newest front t rear hl (Or.inr ⟨hkind, hseen, hnew⟩)) hlt.not_ge
  · rintro ⟨hnewest, hwiped⟩
    obtain ⟨front, rear, rfl⟩ := List.append_of_mem hp
    refine ⟨⟨front, p, rear, rfl, Or.inl hon, rfl⟩, ?_⟩
    intro front' x rear' hl hx
    rcases hx with hx | ⟨hkind, hseen, hnew⟩
    · exact hnewest x (by rw [hl]; simp) hx
    · by_contra hlt
      exact hwiped ⟨front', x, rear', hl, hkind, hseen, hnew, not_le.mp hlt⟩

theorem lastTouch_unique {traitId : TraitId} {l : List MutationMetadata} {id id' : OperationId}
    (h : LastTouch traitId l id) (h' : LastTouch traitId l id') : id = id' := by
  obtain ⟨front, x, rear, hl, hx, rfl⟩ := h.touches
  obtain ⟨front', x', rear', hl', hx', rfl⟩ := h'.touches
  exact le_antisymm (h'.newest front x rear hl hx) (h.newest front' x' rear' hl' hx')

/-- An operation of a trait is active exactly when it is the last one. -/
theorem mem_activeOperations_iff {l : List MutationMetadata} {s : Aggregation}
    (hscanned : Scanned l s) (hactive : ActiveLast l s) (traitId : TraitId)
    (p : MutationMetadata) (hp : p ∈ l) (hon : OnTrait traitId p) :
    p.operationId ∈ s.activeOperations ↔ LastTouch traitId l p.operationId := by
  rw [hactive.last traitId p hp hon]
  constructor
  · rintro ⟨agg, hagg, hlast⟩
    obtain ⟨id, hid, htouch⟩ := (hscanned.traits.seen traitId agg hagg).last
    rw [hid] at hlast
    rw [← Option.some.inj hlast]
    exact htouch
  · intro htouch
    cases hlookup : s.traits.lookup traitId with
    | none => exact absurd hon (hscanned.traits.unseen traitId hlookup p hp)
    | some agg =>
      obtain ⟨id, hid, htouch'⟩ := (hscanned.traits.seen traitId agg hlookup).last
      exact ⟨agg, rfl, by rw [hid, lastTouch_unique htouch' htouch]⟩

/-- The compaction of one trait. -/
theorem selectVersions_inactive_iff {l : List MutationMetadata} {s : Aggregation}
    (hscanned : Scanned l s) (hactive : ActiveLast l s)
    (hnodup : (l.map MutationMetadata.operationId).Nodup) (traitId : TraitId)
    (minOpTime : DateTime) (maxVersions : ℕ) :
    (∀ id ∈ selectVersions traitId minOpTime maxVersions l, id ∉ s.activeOperations) ↔
      NewestAtEnd traitId minOpTime maxVersions l := by
  constructor
  · intro h front p rear hl hon hnewest hwiped hold
    subst hl
    have hp : p ∈ front ++ p :: rear := by simp
    have hmem := (mem_activeOperations_iff hscanned hactive traitId p hp hon).mpr
      ((lastTouch_iff traitId _ p hp hon).mpr ⟨hnewest, hwiped⟩)
    by_contra hlen
    exact h p.operationId ((mem_selectVersions_iff traitId minOpTime maxVersions front rear p
      hnodup hon).mpr ⟨hold, not_lt.mp hlen⟩) hmem
  · intro h id hid hmem
    obtain ⟨p, hp, hon, -, rfl⟩ := (mem_traitOperations _ _ _ _).mp (List.mem_of_mem_take hid)
    obtain ⟨hnewest, hwiped⟩ := (lastTouch_iff traitId l p hp hon).mp
      ((mem_activeOperations_iff hscanned hactive traitId p hp hon).mp hmem)
    obtain ⟨front, rear, rfl⟩ := List.append_of_mem hp
    obtain ⟨hold, hlen⟩ := (mem_selectVersions_iff traitId minOpTime maxVersions front rear p
      hnodup hon).mp hid
    exact absurd (h front p rear rfl hon hnewest hwiped hold) (not_lt.mpr hlen)

theorem mapM_isSome {A B : Type} (f : A → Option B) (l : List A) (h : ∀ a ∈ l, f a ≠ none) :
    l.mapM f ≠ none := by
  induction l with
  | nil => simp
  | cons a l ih =>
    obtain ⟨b, hb⟩ := Option.ne_none_iff_exists'.mp (h a List.mem_cons_self)
    obtain ⟨bs, hbs⟩ := Option.ne_none_iff_exists'.mp
      (ih fun x hx => h x (List.mem_cons_of_mem a hx))
    rw [List.mapM_cons, hb, hbs]
    simp

/-- The assertions on deletion dates hold, so that only a compaction can panic. -/
theorem collect_ne_none (config : GarbageCollectorConfig) (minOpTime now : DateTime)
    (order : Sorting.ValuesOrder TraitEntry) (aggr : EntityAggregator)
    (l : List MutationMetadata)
    (h : ∀ traitId, ∀ id ∈ selectVersions traitId minOpTime config.traitVersionsMax l,
      id ∉ aggr.activeOperations) (op : GCOperation)
    (hop : op ∈ genEntityCollections config now order aggr) :
    collect config minOpTime aggr l op ≠ none := by
  rw [genEntityCollections] at hop
  split_ifs at hop with hflags hdue
  · contradiction
  · rw [List.mem_singleton.mp hop, collect, collectDeleteEntity]
    cases hdate : aggr.deletionDate with
    | none =>
      rw [hdate] at hdue
      contradiction
    | some date => simp
  · obtain ⟨⟨traitId, agg⟩, hentry, hcollection⟩ := List.mem_filterMap.mp hop
    have hlookup : aggr.traits.lookup traitId = some agg :=
      AList.mem_lookup_iff.mpr ((order.mem_order _ _).mp hentry)
    rw [collectionOf] at hcollection
    split_ifs at hcollection with htrait hcount
    · rw [← Option.some.inj hcollection, collect, collectDeleteTrait, hlookup]
      cases hdate : agg.deletionDate with
      | none =>
        simp only [hdate] at htrait
        contradiction
      | some date => simp [hdate]
    · rw [← Option.some.inj hcollection, collect, collectTraitVersions]
      have hassert : assertInactiveOperations aggr
          (selectVersions traitId minOpTime config.traitVersionsMax l) = true := by
        rw [assertInactiveOperations, List.all_eq_true]
        intro id hid
        exact decide_eq_true (h traitId id hid)
      simp only [hassert, if_true]
      split_ifs <;> simp

/-- No compaction of a trait selects an active operation, and the collector does not panic. -/
def CompactsInactive (minOpTime : DateTime) (maxVersions : ℕ) (l : List MutationMetadata) :
    Prop :=
  ∃ aggr, EntityAggregator.new l = some aggr ∧
    (∀ traitId, ∀ id ∈ selectVersions traitId minOpTime maxVersions l,
      id ∉ aggr.activeOperations) ∧
    (∀ traitId, collectTraitVersions aggr traitId minOpTime maxVersions l ≠ none) ∧
    ∀ config now order, config.traitVersionsMax = maxVersions →
      runEntity config minOpTime now order l ≠ none

/-- A compaction takes the versions that come first in the order of commits, and spares the
active ones exactly when the newest of each trait is among the last. -/
theorem compactsInactive_iff (minOpTime : DateTime) (maxVersions : ℕ)
    (l : List MutationMetadata) (hnodup : (l.map MutationMetadata.operationId).Nodup) :
    CompactsInactive minOpTime maxVersions l ↔
      ∀ traitId, NewestAtEnd traitId minOpTime maxVersions l := by
  obtain ⟨s, hnew, hscanned, hactive⟩ := new_scanned l hnodup
  have hselect := fun traitId => selectVersions_inactive_iff hscanned hactive hnodup traitId
    minOpTime maxVersions
  constructor
  · rintro ⟨aggr, haggr, hinactive, -⟩ traitId
    rw [hnew] at haggr
    rw [← hselect]
    intro id hid
    have hnot := hinactive traitId id hid
    rw [← Option.some.inj haggr] at hnot
    exact hnot
  · intro h
    have hinactive : ∀ traitId, ∀ id ∈ selectVersions traitId minOpTime maxVersions l,
        id ∉ (EntityAggregator.ofAggregation s).activeOperations :=
      fun traitId => (hselect traitId).mpr (h traitId)
    refine ⟨_, hnew, hinactive, ?_, ?_⟩
    · intro traitId
      have hassert : assertInactiveOperations (.ofAggregation s)
          (selectVersions traitId minOpTime maxVersions l) = true := by
        rw [assertInactiveOperations, List.all_eq_true]
        intro id hid
        exact decide_eq_true (hinactive traitId id hid)
      rw [collectTraitVersions]
      simp only [hassert, if_true]
      split_ifs <;> simp
    · rintro config now order rfl
      have hmap := mapM_isSome _ _
        (collect_ne_none config minOpTime now order (.ofAggregation s) l hinactive)
      obtain ⟨deletions, hdeletions⟩ := Option.ne_none_iff_exists'.mp hmap
      rw [runEntity, hnew]
      simp [hdeletions]

/-- The version that was made last is committed first. -/
def lateVersion : List MutationMetadata := [version 5 (some 10), version 1 (some 20)]

/-- The compaction selects the active version, and the collector panics. -/
theorem lateVersion_selects_active :
    lateVersion.Pairwise (fun a b => commitKey a < commitKey b) ∧
      ¬ CompactsInactive 10 1 lateVersion ∧
      runEntity ⟨100, 100, 1, 0, 0, 1⟩ 10 10 .same lateVersion = none := by
  have hpanic : runEntity ⟨100, 100, 1, 0, 0, 1⟩ 10 10 .same lateVersion = none := by
    decide +kernel
  refine ⟨by decide +kernel, ?_, hpanic⟩
  rintro ⟨aggr, -, -, -, hrun⟩
  exact hrun ⟨100, 100, 1, 0, 0, 1⟩ 10 .same rfl hpanic

/-- The same versions committed in the order they were made. -/
theorem promptVersion_compactsInactive :
    CompactsInactive 10 1 [version 1 (some 10), version 5 (some 20)] := by
  refine (compactsInactive_iff 10 1 _ (by decide)).mpr ?_
  intro traitId front p rear hl hon hnewest hwiped hold
  have hlast : rear = [] := by
    rcases front with _ | ⟨a, _ | ⟨b, front⟩⟩
    · obtain ⟨rfl, rfl⟩ := List.cons.inj hl
      have hle := hnewest (version 5 (some 20)) (by simp) hon
      exact absurd hle (by decide)
    · obtain ⟨-, hl⟩ := List.cons.inj hl
      obtain ⟨-, hl⟩ := List.cons.inj hl
      exact hl.symm
    · simp at hl
  rw [hlast]
  exact Nat.zero_lt_one

end Exocore.Store
