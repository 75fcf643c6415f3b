import Exocore.StoreAggregator

/-! What the aggregator makes of a list of mutations: each trait shows the newest of the
mutations that affect it, where the tombstone of the entity affects the traits seen before it. -/
namespace Exocore.Store

def traitOf : MutationType → Option TraitId
  | .traitPut put => some put.traitId
  | .traitTombstone traitId => some traitId
  | _ => none

def OnTrait (traitId : TraitId) (m : MutationMetadata) : Prop :=
  traitOf m.mutationType = some traitId

/-- Behind these mutations, the next one changes the trait unless it is older than the last
that did. -/
def Affects (traitId : TraitId) (before : List MutationMetadata) (m : MutationMetadata) : Prop :=
  OnTrait traitId m ∨ m.mutationType = .entityTombstone ∧ (∃ a ∈ before, OnTrait traitId a) ∧
    ∀ o ∈ before, o.operationId < m.operationId

/-- The newest of the mutations that affect the trait. -/
structure Decides (traitId : TraitId) (l : List MutationMetadata) (w : MutationMetadata) :
    Prop where
  affects : ∃ before after, l = before ++ w :: after ∧ Affects traitId before w
  newest : ∀ before m after, l = before ++ m :: after → Affects traitId before m →
    m.operationId ≤ w.operationId

theorem split_snoc {A : Type} (l before after : List A) (a m : A)
    (h : l ++ [m] = before ++ a :: after) :
    (before = l ∧ a = m) ∨ ∃ after', l = before ++ a :: after' := by
  rcases List.eq_nil_or_concat after with rfl | ⟨after', x, rfl⟩
  · obtain ⟨hl, hm⟩ := List.append_inj' h rfl
    exact Or.inl ⟨hl.symm, (List.singleton_inj.mp hm).symm⟩
  · rw [List.concat_eq_append, ← List.cons_append, ← List.append_assoc] at h
    obtain ⟨hl, -⟩ := List.append_inj' h rfl
    exact Or.inr ⟨after', hl⟩

theorem Affects.seen {traitId : TraitId} {before : List MutationMetadata}
    {m : MutationMetadata} (h : Affects traitId before m) (after : List MutationMetadata) :
    ∃ a ∈ before ++ m :: after, OnTrait traitId a := by
  rcases h with h | ⟨-, ⟨a, ha, honTrait⟩, -⟩
  · exact ⟨m, by simp, h⟩
  · exact ⟨a, List.mem_append_left _ ha, honTrait⟩

theorem Decides.mem {traitId : TraitId} {l : List MutationMetadata} {w : MutationMetadata}
    (h : Decides traitId l w) : w ∈ l := by
  obtain ⟨before, after, rfl, -⟩ := h.affects
  simp

/-- A mutation that does not affect the trait, or is older, changes nothing. -/
theorem Decides.keep {traitId : TraitId} {l : List MutationMetadata} {w m : MutationMetadata}
    (h : Decides traitId l w) (hm : Affects traitId l m → m.operationId ≤ w.operationId) :
    Decides traitId (l ++ [m]) w := by
  obtain ⟨before, after, hl, haffects⟩ := h.affects
  refine ⟨⟨before, after ++ [m], by rw [hl]; simp, haffects⟩, ?_⟩
  intro before' x after' hsplit hx
  rcases split_snoc _ _ _ _ _ hsplit with ⟨rfl, rfl⟩ | ⟨after'', hl'⟩
  · exact hm hx
  · exact h.newest before' x after'' hl' hx

/-- A mutation that affects the trait and is newer than the last that did takes its place. -/
theorem decides_next {traitId : TraitId} {l : List MutationMetadata} {m : MutationMetadata}
    (hm : Affects traitId l m)
    (hold : (∀ a ∈ l, ¬ OnTrait traitId a) ∨
      ∃ w, Decides traitId l w ∧ w.operationId ≤ m.operationId) :
    Decides traitId (l ++ [m]) m := by
  refine ⟨⟨l, [], rfl, hm⟩, ?_⟩
  intro before x after hsplit hx
  rcases split_snoc _ _ _ _ _ hsplit with ⟨-, rfl⟩ | ⟨after', hl⟩
  · exact le_rfl
  · rcases hold with hunseen | ⟨w, hw, hle⟩
    · obtain ⟨a, ha, honTrait⟩ := hx.seen after'
      exact absurd honTrait (hunseen a (hl ▸ ha))
    · exact (hw.newest before x after' hl hx).trans hle

/-- The trait is as the mutation left it. -/
structure Shows (agg : TraitAggregator) (w : MutationMetadata) : Prop where
  last : agg.lastOperationId = some w.operationId
  put : ∀ put, w.mutationType = .traitPut put →
    agg.deletionDate = none ∧ agg.putMutations.getLast? = some w
  deleted : (∀ put, w.mutationType ≠ .traitPut put) → agg.deletionDate.isSome = true

theorem shows_pushPut (agg : TraitAggregator) (m : MutationMetadata) (put : PutTraitMetadata)
    (hput : m.mutationType = .traitPut put) : Shows (agg.pushPutMutation m put) m :=
  ⟨rfl, fun _ _ => ⟨rfl, List.getLast?_concat⟩, fun h => absurd hput (h put)⟩

theorem shows_pushDelete (agg : TraitAggregator) (m : MutationMetadata)
    (hm : ∀ put, m.mutationType ≠ .traitPut put) :
    Shows (agg.pushDeleteMutation m.operationId) m :=
  ⟨rfl, fun put hput => absurd hput (hm put), fun _ => rfl⟩

/-- The traits behind these mutations. -/
structure TraitsMerged (l : List MutationMetadata) (traits : Traits) : Prop where
  unseen : ∀ traitId, traits.lookup traitId = none → ∀ m ∈ l, ¬ OnTrait traitId m
  seen : ∀ traitId agg, traits.lookup traitId = some agg →
    ∃ w, Decides traitId l w ∧ Shows agg w

def AllDeleted (traits : Traits) : Prop :=
  ∀ traitId agg, traits.lookup traitId = some agg → agg.deletionDate.isSome = true

/-- The state of the loop behind these mutations. -/
structure Merged (l : List MutationMetadata) (s : Aggregation) : Prop where
  prev : ∀ x, s.prevOperationId = some x → ∃ m ∈ l, m.operationId = x
  last : ∀ m ∈ l, m.operationId ≤ s.lastOperationId.getD 0
  lastMem : ∀ x, s.lastOperationId = some x → ∃ m ∈ l, m.operationId = x
  traits : TraitsMerged l s.traits
  deleted : s.deletionDate.isSome = true ↔ l ≠ [] ∧ AllDeleted s.traits

theorem merged_start : Merged [] Aggregation.start := by
  refine ⟨?_, ?_, ?_, ⟨?_, ?_⟩, ?_⟩ <;> simp [Aggregation.start]

theorem allDeleted_iff (traits : Traits) :
    TraitAggregator.allDeleted traits = true ↔ AllDeleted traits := by
  rw [TraitAggregator.allDeleted, List.all_eq_true]
  constructor
  · intro h traitId agg hlookup
    exact h ⟨traitId, agg⟩ (AList.mem_lookup_iff.mp hlookup)
  · rintro h ⟨traitId, agg⟩ hentry
    exact h traitId agg (AList.mem_lookup_iff.mpr hentry)

theorem lookup_mapValues (f : TraitAggregator → TraitAggregator) (traits : Traits)
    (traitId : TraitId) :
    (traits.mapValues f).lookup traitId = (traits.lookup traitId).map f := by
  exact List.dlookup_map₂ (l := traits.entries) (f := fun _ => f) traitId

theorem isLate_getForTrait (traits : Traits) (traitId : TraitId) (id : OperationId) :
    (TraitAggregator.getForTrait traits traitId).isLate id = true ↔
      ∃ agg, traits.lookup traitId = some agg ∧ agg.isLate id = true := by
  rw [TraitAggregator.getForTrait]
  cases traits.lookup traitId with
  | none => simp [TraitAggregator.default, TraitAggregator.isLate]
  | some agg => simp

theorem Shows.isLate {agg : TraitAggregator} {w : MutationMetadata} (h : Shows agg w)
    (id : OperationId) : agg.isLate id = true ↔ id < w.operationId := by
  rw [TraitAggregator.isLate, h.last]
  simp

section Traits
variable {l : List MutationMetadata} {traits : Traits}

/-- A mutation of a trait that is not late. -/
theorem TraitsMerged.insert (h : TraitsMerged l traits) (m : MutationMetadata)
    (traitId : TraitId) (hm : OnTrait traitId m) (agg : TraitAggregator) (hagg : Shows agg m)
    (hlate : (TraitAggregator.getForTrait traits traitId).isLate m.operationId = false) :
    TraitsMerged (l ++ [m]) (traits.insert traitId agg) := by
  have hother : ∀ traitId', traitId' ≠ traitId → ¬ Affects traitId' l m := by
    intro traitId' hne haffects
    rcases haffects with hon | ⟨htomb, -⟩
    · exact hne (Option.some.inj (hon.symm.trans hm))
    · rw [OnTrait, htomb] at hm
      simp [traitOf] at hm
  constructor
  · intro traitId' hnone x hx
    have hne : traitId' ≠ traitId := by
      rintro rfl
      simp at hnone
    rw [AList.lookup_insert_ne hne] at hnone
    rcases List.mem_append.mp hx with hx | hx
    · exact h.unseen traitId' hnone x hx
    · rw [List.mem_singleton.mp hx]
      exact fun hon => hother traitId' hne (Or.inl hon)
  · intro traitId' agg' hlookup
    by_cases heq : traitId' = traitId
    · subst heq
      rw [AList.lookup_insert] at hlookup
      obtain rfl := Option.some.inj hlookup
      refine ⟨m, decides_next (Or.inl hm) ?_, hagg⟩
      cases hold : traits.lookup traitId' with
      | none => exact Or.inl (h.unseen traitId' hold)
      | some old =>
        obtain ⟨w, hw, hshows⟩ := h.seen traitId' old hold
        refine Or.inr ⟨w, hw, not_lt.mp fun hlt => ?_⟩
        have htrue := (isLate_getForTrait traits traitId' m.operationId).mpr
          ⟨old, hold, (hshows.isLate _).mpr hlt⟩
        rw [htrue] at hlate
        contradiction
    · rw [AList.lookup_insert_ne heq] at hlookup
      obtain ⟨w, hw, hshows⟩ := h.seen traitId' agg' hlookup
      exact ⟨w, hw.keep fun haffects => absurd haffects (hother traitId' heq), hshows⟩

/-- A tombstone of the entity that is newer than all before it. -/
theorem TraitsMerged.wipe (h : TraitsMerged l traits) (m : MutationMetadata)
    (hm : m.mutationType = .entityTombstone) (hnew : ∀ o ∈ l, o.operationId < m.operationId) :
    TraitsMerged (l ++ [m]) (traits.mapValues (·.pushDeleteMutation m.operationId)) := by
  constructor
  · intro traitId hnone x hx
    rw [lookup_mapValues, Option.map_eq_none_iff] at hnone
    rcases List.mem_append.mp hx with hx | hx
    · exact h.unseen traitId hnone x hx
    · rw [List.mem_singleton.mp hx, OnTrait, hm]
      simp [traitOf]
  · intro traitId agg hlookup
    rw [lookup_mapValues, Option.map_eq_some_iff] at hlookup
    obtain ⟨old, hold, rfl⟩ := hlookup
    obtain ⟨w, hw, -⟩ := h.seen traitId old hold
    obtain ⟨before, after, hl, haffects⟩ := hw.affects
    obtain ⟨a, ha, honTrait⟩ := haffects.seen after
    rw [← hl] at ha
    exact ⟨m, decides_next (Or.inr ⟨hm, ⟨a, ha, honTrait⟩, hnew⟩)
      (Or.inr ⟨w, hw, (hnew w hw.mem).le⟩), shows_pushDelete old m (by simp [hm])⟩

/-- A mutation that is discarded leaves each trait as it is. -/
theorem TraitsMerged.discard (h : TraitsMerged l traits) (m : MutationMetadata)
    (hlate : (∃ traitId agg, OnTrait traitId m ∧ traits.lookup traitId = some agg ∧
        agg.isLate m.operationId = true) ∨
      m.mutationType = .entityTombstone ∧ ∃ o ∈ l, m.operationId < o.operationId) :
    TraitsMerged (l ++ [m]) traits := by
  constructor
  · intro traitId hnone x hx
    rcases List.mem_append.mp hx with hx | hx
    · exact h.unseen traitId hnone x hx
    · rw [List.mem_singleton.mp hx]
      intro hon
      rcases hlate with ⟨traitId', agg, hon', hlookup, -⟩ | ⟨htomb, -⟩
      · obtain rfl := Option.some.inj (hon.symm.trans hon')
        rw [hnone] at hlookup
        contradiction
      · rw [OnTrait, htomb] at hon
        simp [traitOf] at hon
  · intro traitId agg hlookup
    obtain ⟨w, hw, hshows⟩ := h.seen traitId agg hlookup
    refine ⟨w, hw.keep ?_, hshows⟩
    intro haffects
    rcases hlate with ⟨traitId', agg', hon', hlookup', hlate⟩ | ⟨htomb, o, ho, hlt⟩
    · rcases haffects with hon | ⟨htomb, -⟩
      · obtain rfl := Option.some.inj (hon.symm.trans hon')
        rw [hlookup] at hlookup'
        obtain rfl := Option.some.inj hlookup'
        exact ((hshows.isLate _).mp hlate).le
      · rw [OnTrait, htomb] at hon'
        simp [traitOf] at hon'
    · rcases haffects with hon | ⟨-, -, hnew⟩
      · rw [OnTrait, htomb] at hon
        simp [traitOf] at hon
      · exact absurd (hnew o ho) hlt.le.not_gt

end Traits

/-- A tombstone of the entity that is taken, with the last operation noted or not. -/
theorem deleteEntity_eq_some (s s' : Aggregation) (id : OperationId)
    (h : s.deleteEntity id = some s') : s' = Aggregation.deleteEntity.wiped id s := by
  rw [Aggregation.deleteEntity] at h
  split at h
  · split_ifs at h
    exact (Option.some.inj h).symm
  · exact (Option.some.inj h).symm

/-- What a step carries over to one mutation more, a run carries over to all that it takes. -/
theorem Aggregation.run_keeps (P : List MutationMetadata → Aggregation → Prop)
    (hstep : ∀ l s s' m, P l s → s.step m = some s' → P (l ++ [m]) s')
    {l : List MutationMetadata} {s s' : Aggregation} (h : P l s) (rest : List MutationMetadata)
    (hrun : s.run rest = some s') : P (l ++ rest) s' := by
  induction rest generalizing l s with
  | nil =>
    rw [List.append_nil, ← Option.some.inj hrun]
    exact h
  | cons m rest ih =>
    rw [Aggregation.run, Option.bind_eq_some_iff] at hrun
    obtain ⟨s₁, hfirst, hrest⟩ := hrun
    have hend := ih (hstep l s s₁ m h hfirst) hrest
    rwa [List.append_assoc] at hend

section Loop
variable {l : List MutationMetadata} {s : Aggregation}

theorem noteLast_eq (s : Aggregation) (m : MutationMetadata) :
    (s.noteLast m).traits = s.traits ∧ (s.noteLast m).deletionDate = s.deletionDate ∧
      (s.noteLast m).prevOperationId = s.prevOperationId ∧
      (s.noteLast m).lastOperationId =
        if s.lastOperationId.getD 0 < m.operationId then some m.operationId
        else s.lastOperationId := by
  rw [Aggregation.noteLast]
  cases m.blockOffset <;> split_ifs <;> exact ⟨rfl, rfl, rfl, rfl⟩

/-- The last operation id that is noted is the highest one. -/
theorem le_noteLast (s : Aggregation) (m : MutationMetadata)
    (h : ∀ x ∈ l, x.operationId ≤ s.lastOperationId.getD 0) :
    ∀ x ∈ l ++ [m], x.operationId ≤ (s.noteLast m).lastOperationId.getD 0 := by
  intro x hx
  rw [(noteLast_eq s m).2.2.2]
  split_ifs with hlt
  · rcases List.mem_append.mp hx with hx | hx
    · exact (h x hx).trans hlt.le
    · rw [List.mem_singleton.mp hx]
      exact le_rfl
  · rcases List.mem_append.mp hx with hx | hx
    · exact h x hx
    · rw [List.mem_singleton.mp hx]
      exact not_lt.mp hlt

theorem mem_of_noteLast (s : Aggregation) (m : MutationMetadata)
    (h : ∀ id, s.lastOperationId = some id → ∃ x ∈ l, x.operationId = id) (id : OperationId)
    (hid : (s.noteLast m).lastOperationId = some id) : ∃ x ∈ l ++ [m], x.operationId = id := by
  rw [(noteLast_eq s m).2.2.2] at hid
  split_ifs at hid
  · exact ⟨m, by simp, Option.some.inj hid⟩
  · obtain ⟨x, hx, hxid⟩ := h id hid
    exact ⟨x, List.mem_append_left _ hx, hxid⟩

/-- The end of the body behind a mutation that is not discarded. -/
theorem merged_noteLast (h : Merged l s) (s' : Aggregation) (m : MutationMetadata)
    (hlast : s'.lastOperationId = s.lastOperationId)
    (hprev : s'.prevOperationId = some m.operationId)
    (htraits : TraitsMerged (l ++ [m]) s'.traits)
    (hdeleted : s'.deletionDate.isSome = true ↔ AllDeleted s'.traits) :
    Merged (l ++ [m]) (s'.noteLast m) := by
  obtain ⟨htraits', hdeleted', hprev', -⟩ := noteLast_eq s' m
  refine ⟨?_, le_noteLast s' m (hlast ▸ h.last), mem_of_noteLast s' m (hlast ▸ h.lastMem),
    by rw [htraits']; exact htraits, ?_⟩
  · intro x hx
    rw [hprev', hprev] at hx
    exact ⟨m, by simp, Option.some.inj hx⟩
  · rw [hdeleted', htraits', hdeleted]
    simp

theorem merged_discard (h : Merged l s) (m o : MutationMetadata) (ho : o ∈ l)
    (hlt : m.operationId < o.operationId) (htraits : TraitsMerged (l ++ [m]) s.traits) :
    Merged (l ++ [m]) (s.count m) := by
  refine ⟨?_, ?_, ?_, htraits, ?_⟩
  · intro x hx
    exact ⟨m, by simp, Option.some.inj hx⟩
  · intro x hx
    rcases List.mem_append.mp hx with hx | hx
    · exact h.last x hx
    · rw [List.mem_singleton.mp hx]
      exact hlt.le.trans (h.last o ho)
  · intro x hx
    obtain ⟨y, hy, hid⟩ := h.lastMem x hx
    exact ⟨y, List.mem_append_left _ hy, hid⟩
  · have hne : l ≠ [] := List.ne_nil_of_mem ho
    have hdeleted : s.deletionDate.isSome = true ↔ l ≠ [] ∧ AllDeleted s.traits := h.deleted
    change s.deletionDate.isSome = true ↔ l ++ [m] ≠ [] ∧ AllDeleted s.traits
    rw [hdeleted]
    simp [hne]

/-- A late mutation of a trait is discarded. -/
theorem merged_late (h : Merged l s) (m : MutationMetadata) (traitId : TraitId)
    (hm : OnTrait traitId m)
    (hlate : (TraitAggregator.getForTrait s.traits traitId).isLate m.operationId = true) :
    Merged (l ++ [m]) (s.count m) := by
  obtain ⟨agg, hlookup, hagg⟩ := (isLate_getForTrait _ _ _).mp hlate
  obtain ⟨w, hw, hshows⟩ := h.traits.seen traitId agg hlookup
  exact merged_discard h m w hw.mem ((hshows.isLate _).mp hagg)
    (h.traits.discard m (Or.inl ⟨traitId, agg, hm, hlookup, hagg⟩))

/-- A deletion of one trait leaves the others as they are. -/
theorem allDeleted_insert (traits : Traits) (traitId : TraitId) (agg : TraitAggregator)
    (hagg : agg.deletionDate.isSome = true) (h : AllDeleted traits) :
    AllDeleted (traits.insert traitId agg) := by
  intro traitId' agg' hlookup
  by_cases heq : traitId' = traitId
  · subst heq
    rw [AList.lookup_insert] at hlookup
    rw [← Option.some.inj hlookup]
    exact hagg
  · rw [AList.lookup_insert_ne heq] at hlookup
    exact h traitId' agg' hlookup

theorem step_put (h : Merged l s) (m : MutationMetadata) (put : PutTraitMetadata)
    (hm : m.mutationType = .traitPut put) (hprev : s.prevOperationId ≠ some m.operationId) :
    ∃ s', s.step m = some s' ∧ Merged (l ++ [m]) s' := by
  have hon : OnTrait put.traitId m := by rw [OnTrait, hm]; rfl
  rw [Aggregation.step, if_neg hprev, Aggregation.applyMutation, hm]
  simp only [Aggregation.putTrait]
  have htraits : (s.count m).traits = s.traits := rfl
  rw [htraits]
  split_ifs with hlate
  · exact ⟨_, rfl, merged_late h m put.traitId hon hlate⟩
  · have hlate' : (TraitAggregator.getForTrait s.traits put.traitId).isLate m.operationId =
        false := by simpa using hlate
    refine ⟨_, rfl, merged_noteLast h _ m rfl rfl
      (h.traits.insert m put.traitId hon _ (shows_pushPut _ m put hm) hlate') ?_⟩
    -- the trait that was just put is not deleted
    refine iff_of_false (by simp) fun hall => ?_
    have hput := hall put.traitId _ (AList.lookup_insert _)
    rw [((shows_pushPut _ m put hm).put put hm).1] at hput
    simp at hput

theorem step_deleteTrait (h : Merged l s) (m : MutationMetadata) (traitId : TraitId)
    (hm : m.mutationType = .traitTombstone traitId)
    (hprev : s.prevOperationId ≠ some m.operationId) :
    ∃ s', s.step m = some s' ∧ Merged (l ++ [m]) s' := by
  have hon : OnTrait traitId m := by rw [OnTrait, hm]; rfl
  have hshows := shows_pushDelete (TraitAggregator.getForTrait s.traits traitId) m (by simp [hm])
  rw [Aggregation.step, if_neg hprev, Aggregation.applyMutation, hm]
  simp only [Aggregation.deleteTrait]
  have htraits : (s.count m).traits = s.traits := rfl
  rw [htraits]
  split_ifs with hlate hall
  · exact ⟨_, rfl, merged_late h m traitId hon hlate⟩
  · refine ⟨_, rfl, merged_noteLast h _ m rfl rfl
      (h.traits.insert m traitId hon _ hshows (by simpa using hlate)) ?_⟩
    exact iff_of_true rfl ((allDeleted_iff _).mp hall)
  · refine ⟨_, rfl, merged_noteLast h _ m rfl rfl
      (h.traits.insert m traitId hon _ hshows (by simpa using hlate)) ?_⟩
    -- another trait is still there, and was before
    refine iff_of_false (fun hdate => hall ?_) fun hall' => hall ((allDeleted_iff _).mpr hall')
    rw [allDeleted_iff]
    exact allDeleted_insert _ _ _ rfl (h.deleted.mp hdate).2

theorem step_deleteEntity (h : Merged l s) (m : MutationMetadata)
    (hm : m.mutationType = .entityTombstone) (hfresh : ∀ o ∈ l, o.operationId ≠ m.operationId)
    (hprev : s.prevOperationId ≠ some m.operationId) :
    ∃ s', s.step m = some s' ∧ Merged (l ++ [m]) s' := by
  have hwipe : (∀ o ∈ l, o.operationId ≤ m.operationId) →
      Merged (l ++ [m]) ((Aggregation.deleteEntity.wiped m.operationId (s.count m)).noteLast m) := by
    intro hle
    refine merged_noteLast h _ m rfl rfl
      (h.traits.wipe m hm fun o ho => lt_of_le_of_ne (hle o ho) (hfresh o ho)) ?_
    refine iff_of_true rfl ?_
    intro traitId agg hlookup
    rw [Aggregation.deleteEntity.wiped, lookup_mapValues, Option.map_eq_some_iff] at hlookup
    obtain ⟨old, -, rfl⟩ := hlookup
    rfl
  rw [Aggregation.step, if_neg hprev, Aggregation.applyMutation, hm]
  simp only [Aggregation.deleteEntity]
  have hlast : (s.count m).lastOperationId = s.lastOperationId := rfl
  rw [hlast]
  cases hs : s.lastOperationId with
  | none =>
    refine ⟨_, rfl, hwipe fun o ho => ?_⟩
    have hle := h.last o ho
    rw [hs] at hle
    exact hle.trans (Fin.zero_le _)
  | some last =>
    simp only
    split_ifs with hlt
    · obtain ⟨o, ho, hid⟩ := h.lastMem last hs
      have hlt' : m.operationId < o.operationId := by rw [hid]; exact hlt
      exact ⟨_, rfl, merged_discard h m o ho hlt' (h.traits.discard m (Or.inr ⟨hm, o, ho, hlt'⟩))⟩
    · refine ⟨_, rfl, hwipe fun o ho => ?_⟩
      have hle := h.last o ho
      rw [hs] at hle
      exact hle.trans (not_lt.mp hlt)

theorem step_merged (h : Merged l s) (m : MutationMetadata)
    (hm : m.mutationType ≠ .pendingDeletion)
    (hfresh : ∀ o ∈ l, o.operationId ≠ m.operationId) :
    ∃ s', s.step m = some s' ∧ Merged (l ++ [m]) s' := by
  have hprev : s.prevOperationId ≠ some m.operationId := by
    intro hprev
    obtain ⟨o, ho, hid⟩ := h.prev _ hprev
    exact hfresh o ho hid
  cases htype : m.mutationType with
  | traitPut put => exact step_put h m put htype hprev
  | traitTombstone traitId => exact step_deleteTrait h m traitId htype hprev
  | entityTombstone => exact step_deleteEntity h m htype hfresh hprev
  | pendingDeletion => exact absurd htype hm

theorem run_merged (rest : List MutationMetadata) (h : Merged l s)
    (hrest : ∀ m ∈ rest, m.mutationType ≠ .pendingDeletion)
    (hnodup : ((l ++ rest).map MutationMetadata.operationId).Nodup) :
    ∃ s', s.run rest = some s' ∧ Merged (l ++ rest) s' := by
  induction rest generalizing l s with
  | nil => exact ⟨s, rfl, by rwa [List.append_nil]⟩
  | cons m rest ih =>
    have hfresh : ∀ o ∈ l, o.operationId ≠ m.operationId := by
      intro o ho heq
      rw [List.map_append, List.map_cons, List.nodup_append] at hnodup
      exact hnodup.2.2 o.operationId (List.mem_map_of_mem ho) m.operationId (by simp) heq
    obtain ⟨s', hstep, hmerged⟩ := step_merged h m (hrest m List.mem_cons_self) hfresh
    obtain ⟨s'', hrun, hend⟩ := ih hmerged (fun x hx => hrest x (List.mem_cons_of_mem m hx))
      (by rw [List.append_assoc]; exact hnodup)
    refine ⟨s'', ?_, by rw [List.append_assoc] at hend; exact hend⟩
    rw [Aggregation.run, hstep]
    exact hrun

end Loop

end Exocore.Store
