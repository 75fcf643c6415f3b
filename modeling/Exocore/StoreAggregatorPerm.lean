import Exocore.StoreAggregated
import Exocore.StoreVisible

/-! The aggregator does not depend on the order of the mutations of traits: each trait shows its
newest one. -/
namespace Exocore.Store

/-- The mutation of the trait with the highest operation id. -/
structure NewestOf (traitId : TraitId) (l : List MutationMetadata) (w : MutationMetadata) :
    Prop where
  mem : w ∈ l
  onTrait : OnTrait traitId w
  newest : ∀ m ∈ l, OnTrait traitId m → m.operationId ≤ w.operationId

theorem NewestOf.perm {traitId : TraitId} {l l' : List MutationMetadata} {w : MutationMetadata}
    (h : NewestOf traitId l w) (hperm : l.Perm l') : NewestOf traitId l' w := by
  refine ⟨hperm.mem_iff.mp h.mem, h.onTrait, ?_⟩
  intro m hm hon
  exact h.newest m (hperm.mem_iff.mpr hm) hon

/-- There is one as soon as the trait has a mutation. -/
theorem exists_newestOf (traitId : TraitId) (l : List MutationMetadata) (m : MutationMetadata)
    (hm : m ∈ l) (hon : OnTrait traitId m) : ∃ w, NewestOf traitId l w := by
  classical
  obtain ⟨w, hw, hmax⟩ := (l.toFinset.filter (OnTrait traitId)).exists_max_image
    MutationMetadata.operationId ⟨m, by simp [hm, hon]⟩
  rw [Finset.mem_filter, List.mem_toFinset] at hw
  refine ⟨w, hw.1, hw.2, ?_⟩
  intro x hx hxon
  exact hmax x (by simp [hx, hxon])

/-- Puts and tombstones of traits only. -/
def OnTraits (l : List MutationMetadata) : Prop := ∀ m ∈ l, ∃ traitId, OnTrait traitId m

theorem OnTraits.not_entityTombstone {l : List MutationMetadata} (h : OnTraits l)
    (m : MutationMetadata) (hm : m ∈ l) : m.mutationType ≠ .entityTombstone := by
  obtain ⟨traitId, hon⟩ := h m hm
  intro hkind
  rw [OnTrait, hkind] at hon
  cases hon

theorem OnTraits.not_pendingDeletion {l : List MutationMetadata} (h : OnTraits l)
    (m : MutationMetadata) (hm : m ∈ l) : m.mutationType ≠ .pendingDeletion := by
  obtain ⟨traitId, hon⟩ := h m hm
  intro hkind
  rw [OnTrait, hkind] at hon
  cases hon

theorem OnTraits.decides_iff {l : List MutationMetadata} (h : OnTraits l) (traitId : TraitId)
    (w : MutationMetadata) : Decides traitId l w ↔ NewestOf traitId l w := by
  have hon (before after : List MutationMetadata) (m : MutationMetadata)
      (hl : l = before ++ m :: after) : Affects traitId before m ↔ OnTrait traitId m := by
    refine ⟨?_, Or.inl⟩
    rintro (hon | ⟨hkind, _⟩)
    · exact hon
    · exact absurd hkind (h.not_entityTombstone m (by rw [hl]; simp))
  constructor
  · intro hw
    obtain ⟨before, after, hl, haffects⟩ := hw.affects
    refine ⟨hw.mem, (hon before after w hl).mp haffects, ?_⟩
    intro m hm hmon
    obtain ⟨before', after', hl'⟩ := List.append_of_mem hm
    exact hw.newest before' m after' hl' (Or.inl hmon)
  · intro hw
    obtain ⟨before, after, hl⟩ := List.append_of_mem hw.mem
    refine ⟨⟨before, after, hl, Or.inl hw.onTrait⟩, ?_⟩
    intro before' m after' hl' haffects
    exact hw.newest m (by rw [hl']; simp) ((hon before' after' m hl').mp haffects)

/-- The trait of a put or a tombstone that is no put. -/
theorem onTrait_tombstone_iff (traitId : TraitId) (w : MutationMetadata)
    (hon : OnTrait traitId w) :
    w.mutationType = .traitTombstone traitId ↔ ∀ put, w.mutationType ≠ .traitPut put := by
  rw [OnTrait] at hon
  cases hkind : w.mutationType with
  | traitPut put =>
    exact iff_of_false (fun h => by cases h) (fun h => h put rfl)
  | traitTombstone traitId' =>
    rw [hkind] at hon
    refine iff_of_true ?_ (fun put h => by cases h)
    rw [Option.some.inj hon]
  | entityTombstone =>
    rw [hkind] at hon
    cases hon
  | pendingDeletion =>
    rw [hkind] at hon
    cases hon

/-- The aggregator is that of the newest mutation of each trait. -/
structure ShowsNewest (l : List MutationMetadata) (e : EntityAggregator) : Prop where
  active : ∀ id, id ∈ e.activeOperations ↔ ∃ traitId w, NewestOf traitId l w ∧ w.operationId = id
  last : e.lastOperationId = (l.map MutationMetadata.operationId).foldr max 0
  unseen : ∀ traitId, e.traits.lookup traitId = none ↔ ∀ m ∈ l, ¬ OnTrait traitId m
  traits : ∀ traitId w, NewestOf traitId l w → ∃ agg, e.traits.lookup traitId = some agg ∧
    agg.lastOperationId = some w.operationId ∧
    (agg.deletionDate.isSome = true ↔ w.mutationType = .traitTombstone traitId) ∧
    ∀ put, w.mutationType = .traitPut put → agg.lastPutMutation = some (w, put)
  deleted : e.deletionDate.isSome = true ↔
    l ≠ [] ∧ ∀ traitId w, NewestOf traitId l w → w.mutationType = .traitTombstone traitId

theorem ShowsNewest.perm {l l' : List MutationMetadata} {e : EntityAggregator}
    (h : ShowsNewest l e) (hperm : l.Perm l') : ShowsNewest l' e := by
  have hnewest (traitId : TraitId) (w : MutationMetadata) :
      NewestOf traitId l w ↔ NewestOf traitId l' w :=
    ⟨fun hw => hw.perm hperm, fun hw => hw.perm hperm.symm⟩
  constructor
  case active =>
    intro id
    simp only [← hnewest]
    exact h.active id
  case last =>
    rw [h.last]
    exact (hperm.map MutationMetadata.operationId).foldr_eq 0
  case unseen =>
    intro traitId
    rw [h.unseen traitId]
    simp only [hperm.mem_iff]
  case traits =>
    intro traitId w hw
    exact h.traits traitId w ((hnewest traitId w).mpr hw)
  case deleted =>
    have hnil : l = [] ↔ l' = [] := by
      constructor
      · rintro rfl
        exact hperm.nil_eq.symm
      · rintro rfl
        exact hperm.eq_nil
    rw [h.deleted, ne_eq, hnil]
    simp only [hnewest, ne_eq]

/-- What two aggregators have in common that show the same. -/
structure SameShown (e e' : EntityAggregator) : Prop where
  active : e.activeOperations = e'.activeOperations
  last : e.lastOperationId = e'.lastOperationId
  unseen : ∀ traitId, e.traits.lookup traitId = none ↔ e'.traits.lookup traitId = none
  traits : ∀ traitId agg agg', e.traits.lookup traitId = some agg →
    e'.traits.lookup traitId = some agg' →
    agg.deletionDate.isSome = agg'.deletionDate.isSome ∧
      agg.lastOperationId = agg'.lastOperationId ∧
      (agg.deletionDate = none → agg.lastPutMutation = agg'.lastPutMutation)
  deleted : e.deletionDate.isSome = e'.deletionDate.isSome

theorem ShowsNewest.same {l : List MutationMetadata} {e e' : EntityAggregator}
    (h : ShowsNewest l e) (h' : ShowsNewest l e') : SameShown e e' := by
  constructor
  case active =>
    ext id
    rw [h.active id, h'.active id]
  case last => rw [h.last, h'.last]
  case unseen =>
    intro traitId
    rw [h.unseen traitId, h'.unseen traitId]
  case traits =>
    intro traitId agg agg' hlookup hlookup'
    have hseen : ∃ m ∈ l, OnTrait traitId m := by
      by_contra hnone
      have hunseen := (h.unseen traitId).mpr (fun m hm hon => hnone ⟨m, hm, hon⟩)
      rw [hlookup] at hunseen
      cases hunseen
    obtain ⟨m, hm, hon⟩ := hseen
    obtain ⟨w, hw⟩ := exists_newestOf traitId l m hm hon
    obtain ⟨agg₁, hagg, hlast, hdate, hput⟩ := h.traits traitId w hw
    obtain ⟨agg₂, hagg', hlast', hdate', hput'⟩ := h'.traits traitId w hw
    obtain rfl := Option.some.inj (hlookup.symm.trans hagg)
    obtain rfl := Option.some.inj (hlookup'.symm.trans hagg')
    refine ⟨?_, by rw [hlast, hlast'], ?_⟩
    · rw [Bool.eq_iff_iff, hdate, hdate']
    · intro hlive
      have hnot : ¬ w.mutationType = .traitTombstone traitId := by
        rw [← hdate, hlive]
        decide
      rw [onTrait_tombstone_iff traitId w hw.onTrait] at hnot
      obtain ⟨put, hkind⟩ := not_forall_not.mp hnot
      rw [hput put hkind, hput' put hkind]
  case deleted => rw [Bool.eq_iff_iff, h.deleted, h'.deleted]

theorem foldr_max_eq (ids : List OperationId) (last : OperationId) (hle : ∀ id ∈ ids, id ≤ last)
    (hmem : last = 0 ∨ last ∈ ids) : ids.foldr max 0 = last := by
  apply le_antisymm
  · exact List.max_le_of_forall_le ids last hle
  · rcases hmem with hzero | hmem
    · rw [hzero]
      exact Fin.zero_le _
    · exact List.le_max_of_le hmem (le_refl last)

theorem new_showsNewest (l : List MutationMetadata) (hkinds : OnTraits l)
    (hnodup : (l.map MutationMetadata.operationId).Nodup) :
    ∃ e, EntityAggregator.new l = some e ∧ ShowsNewest l e := by
  obtain ⟨s, hrun, hmerged⟩ := run_merged l merged_start hkinds.not_pendingDeletion hnodup
  have hscanned := scanned_run scanned_start l hrun
  have hactive := activeLast_run activeLast_start scanned_start l hnodup hrun
  rw [List.nil_append] at hmerged hscanned hactive
  have hunseen (traitId : TraitId) :
      s.traits.lookup traitId = none ↔ ∀ m ∈ l, ¬ OnTrait traitId m := by
    refine ⟨hmerged.traits.unseen traitId, ?_⟩
    intro hnone
    cases hlookup : s.traits.lookup traitId with
    | none => rfl
    | some agg =>
      obtain ⟨w, hw, _⟩ := hmerged.traits.seen traitId agg hlookup
      have hw := (hkinds.decides_iff traitId w).mp hw
      exact absurd hw.onTrait (hnone w hw.mem)
  have hseen (traitId : TraitId) (w : MutationMetadata) (hw : NewestOf traitId l w) :
      ∃ agg, s.traits.lookup traitId = some agg ∧ Shows agg w := by
    cases hlookup : s.traits.lookup traitId with
    | none => exact absurd hw.onTrait ((hunseen traitId).mp hlookup w hw.mem)
    | some agg =>
      obtain ⟨w', hw', hshows⟩ := hmerged.traits.seen traitId agg hlookup
      have hdecides := (hkinds.decides_iff traitId w).mpr hw
      exact ⟨agg, rfl, decides_unique hnodup hw' hdecides ▸ hshows⟩
  have hdeleted (traitId : TraitId) (w : MutationMetadata) (agg : TraitAggregator)
      (hw : NewestOf traitId l w) (hshows : Shows agg w) :
      agg.deletionDate.isSome = true ↔ w.mutationType = .traitTombstone traitId := by
    rw [onTrait_tombstone_iff traitId w hw.onTrait]
    refine ⟨?_, hshows.deleted⟩
    intro hsome put hput
    rw [(hshows.put put hput).1] at hsome
    cases hsome
  refine ⟨.ofAggregation s, by rw [EntityAggregator.new, hrun]; rfl, ?_⟩
  constructor
  case active =>
    intro id
    constructor
    · intro hid
      obtain ⟨m, hm, rfl⟩ := hactive.mem id hid
      obtain ⟨traitId, hon⟩ := hkinds m hm
      obtain ⟨agg, hlookup, hlast⟩ := (hactive.last traitId m hm hon).mp hid
      obtain ⟨w, hw, hshows⟩ := hmerged.traits.seen traitId agg hlookup
      rw [hshows.last] at hlast
      exact ⟨traitId, w, (hkinds.decides_iff traitId w).mp hw, Option.some.inj hlast⟩
    · rintro ⟨traitId, w, hw, rfl⟩
      obtain ⟨agg, hlookup, hshows⟩ := hseen traitId w hw
      exact (hactive.last traitId w hw.mem hw.onTrait).mpr ⟨agg, hlookup, hshows.last⟩
  case last =>
    refine (foldr_max_eq _ _ ?_ ?_).symm
    · intro id hid
      obtain ⟨m, hm, rfl⟩ := List.mem_map.mp hid
      exact hmerged.last m hm
    · show s.lastOperationId.getD 0 = 0 ∨ _
      cases hlast : s.lastOperationId with
      | none => exact Or.inl rfl
      | some id =>
        obtain ⟨m, hm, hid⟩ := hmerged.lastMem id hlast
        refine Or.inr (List.mem_map.mpr ⟨m, hm, ?_⟩)
        rw [hid]
        show id = s.lastOperationId.getD 0
        rw [hlast, Option.getD_some]
  case unseen => exact hunseen
  case traits =>
    intro traitId w hw
    obtain ⟨agg, hlookup, hshows⟩ := hseen traitId w hw
    refine ⟨agg, hlookup, hshows.last, hdeleted traitId w agg hw hshows, ?_⟩
    intro put hput
    rw [TraitAggregator.lastPutMutation, (hshows.put put hput).2]
    simp only [hput]
  case deleted =>
    show s.deletionDate.isSome = true ↔ _
    rw [hmerged.deleted]
    refine and_congr_right (fun _ => ?_)
    constructor
    · intro hall traitId w hw
      obtain ⟨agg, hlookup, hshows⟩ := hseen traitId w hw
      exact (hdeleted traitId w agg hw hshows).mp (hall traitId agg hlookup)
    · intro hall traitId agg hlookup
      obtain ⟨w, hw, hshows⟩ := hmerged.traits.seen traitId agg hlookup
      have hw := (hkinds.decides_iff traitId w).mp hw
      exact (hdeleted traitId w agg hw hshows).mpr (hall traitId w hw)

/-- Two orders of the same puts and tombstones of traits aggregate to the same. -/
theorem new_perm (l l' : List MutationMetadata) (hperm : l.Perm l') (hkinds : OnTraits l)
    (hnodup : (l.map MutationMetadata.operationId).Nodup) :
    ∃ e e', EntityAggregator.new l = some e ∧ EntityAggregator.new l' = some e' ∧
      SameShown e e' ∧ ShowsNewest l e ∧ ShowsNewest l e' := by
  obtain ⟨e, he, hshows⟩ := new_showsNewest l hkinds hnodup
  have hkinds' : OnTraits l' := fun m hm => hkinds m (hperm.mem_iff.mpr hm)
  have hnodup' := ((hperm.map MutationMetadata.operationId).nodup_iff).mp hnodup
  obtain ⟨e', he', hshows'⟩ := new_showsNewest l' hkinds' hnodup'
  have hshows' := hshows'.perm hperm.symm
  exact ⟨e, e', he, he', hshows.same hshows', hshows, hshows'⟩

/-- A version behind the tombstone of its trait and before it. -/
theorem version_perm :
    ∃ e e', EntityAggregator.new [version 1 (some 1),
          ⟨2, some 2, "entity", .traitTombstone "trt1"⟩, version 3 (some 3)] = some e ∧
      EntityAggregator.new [version 3 (some 3), version 1 (some 1),
          ⟨2, some 2, "entity", .traitTombstone "trt1"⟩] = some e' ∧
      SameShown e e' ∧
      ShowsNewest [version 1 (some 1), ⟨2, some 2, "entity", .traitTombstone "trt1"⟩,
        version 3 (some 3)] e ∧
      ShowsNewest [version 1 (some 1), ⟨2, some 2, "entity", .traitTombstone "trt1"⟩,
        version 3 (some 3)] e' := by
  refine new_perm _ _ (by decide) ?_ (by decide)
  intro m hm
  refine ⟨"trt1", ?_⟩
  simp only [List.mem_cons, List.not_mem_nil, or_false] at hm
  rcases hm with rfl | rfl | rfl <;> rfl

end Exocore.Store
