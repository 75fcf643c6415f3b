import Exocore.StoreEntitiesGathered

/-! The entities that are exported from a chain agree with the aggregation of their mutations. -/
namespace Exocore.Store.Export

open Exocore.Core Exocore.Chain Spilled

/-! ## The traits of an entity -/

theorem TraitAggregator.plain_lastPut (agg : TraitAggregator) :
    agg.plain.lastPutMutation = agg.lastPutMutation.map fun last =>
      (last.1.plain, { last.2 with traitType := none, hasReference := false }) := by
  rw [TraitAggregator.lastPutMutation, TraitAggregator.lastPutMutation, TraitAggregator.plain,
    List.getLast?_map]
  cases agg.putMutations.getLast? with
  | none => rfl
  | some m =>
    simp only [Option.map_some]
    cases hkind : m.mutationType <;>
      simp only [MutationMetadata.plain, hkind, Option.map_some, Option.map_none]

/-- The trait of an entry, none where the content of its last put is not there. -/
def exported (contents : TraitContents) (entry : (_ : TraitId) × TraitAggregator) :
    Option EntityTrait :=
  match entry.2.lastPutMutation with
  | none => none
  | some (m, _) => (contents.lookup m.operationId).map (exportTrait entry.2)

/-- A content that is taken out is not missed by the other traits, whose last puts are others. -/
theorem exportTraits_eq (entries : List ((_ : TraitId) × TraitAggregator))
    (contents : TraitContents)
    (h : entries.Pairwise fun a b => ∀ p put q put', a.2.lastPutMutation = some (p, put) →
      b.2.lastPutMutation = some (q, put') → q.operationId ≠ p.operationId) :
    exportTraits entries contents = entries.filterMap (exported contents) := by
  induction entries generalizing contents with
  | nil => rfl
  | cons entry rest ih =>
    obtain ⟨hfirst, hrest⟩ := List.pairwise_cons.mp h
    rw [exportTraits, List.filterMap_cons, exported]
    cases hlast : entry.2.lastPutMutation with
    | none => exact ih contents hrest
    | some last =>
      obtain ⟨p, put⟩ := last
      dsimp only
      cases contents.lookup p.operationId with
      | none => exact ih contents hrest
      | some trt =>
        have hothers : rest.filterMap (exported (contents.erase p.operationId)) =
            rest.filterMap (exported contents) := by
          apply List.filterMap_congr
          intro other hother
          rw [exported, exported]
          cases hlast' : other.2.lastPutMutation with
          | none => rfl
          | some last' =>
            have hne := hfirst other hother p put last'.1 last'.2 hlast hlast'
            dsimp only
            rw [AList.lookup_erase_ne hne]
        have htail := (ih (contents.erase p.operationId) hrest).trans hothers
        exact congrArg (List.cons (exportTrait entry.2 trt)) htail

/-- The content of the last put of a trait. -/
def LastPut (l : List CommittedEntityMutation) (agg : TraitAggregator) (trt : Trait) : Prop :=
  ∃ p put, agg.lastPutMutation = some (p, put) ∧ ∃ m ∈ l, m.operationId = p.operationId ∧
    m.mutation.mutation = some (.putTrait (some trt))

/-- The entity is what the aggregator of its mutations shows, with the traits that are not
deleted. -/
structure Exports (l : List CommittedEntityMutation) (aggr : EntityAggregator) (entity : Entity) :
    Prop where
  creationDate : entity.creationDate = aggr.creationDate
  modificationDate : entity.modificationDate = aggr.modificationDate
  deletionDate : entity.deletionDate = aggr.deletionDate
  lastOperationId : entity.lastOperationId = aggr.lastOperationId
  distinct : (entity.traits.map EntityTrait.id).Nodup
  live : ∀ traitId agg, aggr.traits.lookup traitId = some agg → agg.deletionDate = none →
    ∃ trt, trt.id = traitId ∧ LastPut l agg trt ∧
      ⟨traitId, trt.message, agg.creationDate, agg.modificationDate, none,
        agg.lastOperationId.getD 0⟩ ∈ entity.traits
  only : ∀ t ∈ entity.traits, t.deletionDate = none →
    ∃ agg, aggr.traits.lookup t.id = some agg ∧ agg.deletionDate = none

section Entity
variable {l : List CommittedEntityMutation}

theorem operationIds_sublist (l : List CommittedEntityMutation) :
    ((l.filterMap indexed).map MutationMetadata.operationId).Sublist
      (l.map CommittedEntityMutation.operationId) := by
  induction l with
  | nil => exact List.Sublist.refl _
  | cons m l ih =>
    rw [List.map_cons]
    cases hindexed : indexed m with
    | none =>
      rw [List.filterMap_cons_none hindexed]
      exact ih.cons _
    | some metadata =>
      rw [List.filterMap_cons_some hindexed, List.map_cons, indexed_operationId hindexed]
      exact ih.cons_cons _

/-- The last put of a trait is of an operation of the list, whose content is there. -/
def HasContents (l : List CommittedEntityMutation) (contents : TraitContents)
    (aggr : EntityAggregator) : Prop :=
  ∀ traitId agg, aggr.traits.lookup traitId = some agg → ∀ p put,
    agg.lastPutMutation = some (p, put) → ∃ m ∈ l, ∃ trt, m.operationId = p.operationId ∧
      m.mutation.mutation = some (.putTrait (some trt)) ∧ trt.id = traitId ∧
      contents.lookup p.operationId = some trt

theorem hasContents_gathered (hnodup : (l.map CommittedEntityMutation.operationId).Nodup)
    (id : String) {aggr : EntityAggregator}
    (hnew : EntityAggregator.new ((l.filterMap indexed).map .plain) = some aggr) :
    HasContents l (l.foldl Gathered.add ⟨id, [], ∅⟩).traits aggr := by
  intro traitId agg hlookup p put hlast
  obtain ⟨hmem, hkind, htrait⟩ := (EntityAggregator.new_lastPut hnew hlookup).2 p put hlast
  obtain ⟨metadata, hmetadata, rfl⟩ := List.mem_map.mp hmem
  obtain ⟨m, hm, hindexed⟩ := List.mem_filterMap.mp hmetadata
  have hid := indexed_operationId hindexed
  obtain ⟨put', hput'⟩ : ∃ put', metadata.mutationType = .traitPut put' ∧
      put'.traitId = put.traitId := by
    rw [MutationMetadata.plain] at hkind
    cases hmetadataKind : metadata.mutationType with
    | traitPut put' =>
      simp only [hmetadataKind] at hkind
      have hsame := MutationType.traitPut.inj hkind
      exact ⟨put', rfl, by rw [← hsame]⟩
    | _ =>
      simp only [hmetadataKind] at hkind
      cases hkind
  obtain ⟨trt, htrt, hsame⟩ := indexed_put hindexed hput'.1
  refine ⟨m, hm, trt, hid.symm, htrt, ?_, ?_⟩
  · rw [← hsame, hput'.2, htrait]
  · have hcontent := Gathered.foldl_traits l ⟨id, [], ∅⟩ hnodup hm htrt
    rwa [← hid] at hcontent

section Contents
variable {contents : TraitContents} {aggr : EntityAggregator}
  {entries : List ((_ : TraitId) × TraitAggregator)}

theorem HasContents.exported (h : HasContents l contents aggr)
    {entry : (_ : TraitId) × TraitAggregator}
    (hentry : aggr.traits.lookup entry.1 = some entry.2) {t : EntityTrait}
    (ht : exported contents entry = some t) :
    t.id = entry.1 ∧ t.deletionDate = entry.2.deletionDate := by
  rw [Export.exported] at ht
  cases hlast : entry.2.lastPutMutation with
  | none =>
    rw [hlast] at ht
    cases ht
  | some last =>
    obtain ⟨m, -, trt, -, -, hid, hcontent⟩ := h entry.1 entry.2 hentry last.1 last.2 hlast
    simp only [hlast, hcontent, Option.map_some, Option.some.injEq] at ht
    rw [← ht]
    exact ⟨hid, rfl⟩

/-- Two traits have their last puts in two operations: one operation puts one trait. -/
theorem HasContents.exportTraits_eq (h : HasContents l contents aggr)
    (hnodup : (l.map CommittedEntityMutation.operationId).Nodup)
    (hentries : ∀ entry ∈ entries, aggr.traits.lookup entry.1 = some entry.2)
    (hkeys : (entries.map Sigma.fst).Nodup) :
    exportTraits entries contents = entries.filterMap (Export.exported contents) := by
  apply Export.exportTraits_eq
  refine (List.pairwise_map.mp hkeys).imp_of_mem ?_
  intro a b ha hb hne p put q put' hlast hlast' hsame
  obtain ⟨m, hm, trt, hid, hput, htrait, -⟩ := h a.1 a.2 (hentries a ha) p put hlast
  obtain ⟨m', hm', trt', hid', hput', htrait', -⟩ := h b.1 b.2 (hentries b hb) q put' hlast'
  have hsameId : m.operationId = m'.operationId := hid.trans (hsame.symm.trans hid'.symm)
  obtain rfl := List.inj_on_of_nodup_map hnodup hm hm' hsameId
  rw [hput] at hput'
  obtain rfl := Option.some.inj (Mutation.putTrait.inj (Option.some.inj hput'))
  exact hne (htrait.symm.trans htrait')

theorem HasContents.ids_sublist (h : HasContents l contents aggr)
    (hentries : ∀ entry ∈ entries, aggr.traits.lookup entry.1 = some entry.2) :
    ((entries.filterMap (Export.exported contents)).map EntityTrait.id).Sublist
      (entries.map Sigma.fst) := by
  induction entries with
  | nil => exact List.Sublist.refl _
  | cons entry entries ih =>
    have hrest := ih fun other hother => hentries other (List.mem_cons_of_mem entry hother)
    rw [List.map_cons]
    cases ht : Export.exported contents entry with
    | none =>
      rw [List.filterMap_cons_none ht]
      exact hrest.cons _
    | some t =>
      have hid := (h.exported (hentries entry List.mem_cons_self) ht).1
      rw [List.filterMap_cons_some ht, List.map_cons, hid]
      exact hrest.cons_cons _

end Contents

/-- Of the traits that are exported, those that are not deleted are those of the aggregator. The
iterator aggregates without the types of the traits. -/
theorem exports_traits {contents : TraitContents} {aggr aggr' : EntityAggregator}
    {entries : List ((_ : TraitId) × TraitAggregator)}
    (hnew : EntityAggregator.new (l.filterMap indexed) = some aggr)
    (halike : aggr.Alike aggr') (h : HasContents l contents aggr')
    (hentries : ∀ traitId agg, aggr'.traits.lookup traitId = some agg ↔ ⟨traitId, agg⟩ ∈ entries) :
    (∀ traitId agg, aggr.traits.lookup traitId = some agg → agg.deletionDate = none →
      ∃ trt, trt.id = traitId ∧ LastPut l agg trt ∧
        ⟨traitId, trt.message, agg.creationDate, agg.modificationDate, none,
          agg.lastOperationId.getD 0⟩ ∈ entries.filterMap (exported contents)) ∧
    ∀ t ∈ entries.filterMap (exported contents), t.deletionDate = none →
      ∃ agg, aggr.traits.lookup t.id = some agg ∧ agg.deletionDate = none := by
  constructor
  · intro traitId agg hlookup hlive
    have hlookup' : aggr'.traits.lookup traitId = some agg.plain := by
      rw [halike.traits traitId, hlookup]
      rfl
    obtain ⟨p, put, hlast⟩ := (EntityAggregator.new_lastPut hnew hlookup).1 hlive
    have hlast' : agg.plain.lastPutMutation = some (p.plain,
        { put with traitType := none, hasReference := false }) := by
      rw [TraitAggregator.plain_lastPut, hlast]
      rfl
    obtain ⟨m, hm, trt, hid, hput, htrait, hcontent⟩ := h traitId _ hlookup' _ _ hlast'
    refine ⟨trt, htrait, ⟨p, put, hlast, m, hm, hid, hput⟩, ?_⟩
    refine List.mem_filterMap.mpr ⟨_, (hentries traitId agg.plain).mp hlookup', ?_⟩
    have hdeletion : agg.plain.deletionDate = none := hlive
    simp only [exported, hlast', hcontent, Option.map_some, Option.some.injEq]
    rw [exportTrait, htrait, hdeletion]
    rfl
  · intro t ht hlive
    obtain ⟨entry, hmem, ht⟩ := List.mem_filterMap.mp ht
    have hlookup := (hentries entry.1 entry.2).mpr hmem
    obtain ⟨hid, hdate⟩ := h.exported hlookup ht
    rw [halike.traits entry.1, Option.map_eq_some_iff] at hlookup
    obtain ⟨agg, hlookup, hplain⟩ := hlookup
    rw [hlive, ← hplain] at hdate
    exact ⟨agg, hid ▸ hlookup, hdate.symm⟩

/-- The entity that is made of its mutations agrees with the aggregator of the index. -/
theorem exports_of_gathered (env : Env) (id : String)
    (hnodup : (l.map CommittedEntityMutation.operationId).Nodup) :
    ∃ aggr aggr', EntityAggregator.new (l.filterMap indexed) = some aggr ∧
      EntityAggregator.new ((l.filterMap indexed).map .plain) = some aggr' ∧
      Exports l aggr
        { id := id
          traits := exportTraits (env.order aggr'.traits)
            (l.foldl Gathered.add ⟨id, [], ∅⟩).traits
          creationDate := aggr'.creationDate
          modificationDate := aggr'.modificationDate
          deletionDate := aggr'.deletionDate
          lastOperationId := aggr'.lastOperationId } := by
  obtain ⟨s, hnew, -⟩ := new_scanned (l.filterMap indexed) (hnodup.sublist (operationIds_sublist l))
  obtain ⟨aggr', hnew', halike⟩ := EntityAggregator.new_alike hnew
  have hcontents := hasContents_gathered hnodup id hnew'
  have hperm := env.order_perm aggr'.traits
  have hentries (traitId : TraitId) (agg : TraitAggregator) :
      aggr'.traits.lookup traitId = some agg ↔ ⟨traitId, agg⟩ ∈ env.order aggr'.traits :=
    AList.mem_lookup_iff.trans hperm.mem_iff.symm
  have hlookups (entry : (_ : TraitId) × TraitAggregator) (h : entry ∈ env.order aggr'.traits) :
      aggr'.traits.lookup entry.1 = some entry.2 := (hentries entry.1 entry.2).mpr h
  have hkeys : ((env.order aggr'.traits).map Sigma.fst).Nodup :=
    (hperm.map Sigma.fst).nodup_iff.mpr aggr'.traits.nodupKeys
  have htraits := hcontents.exportTraits_eq hnodup hlookups hkeys
  obtain ⟨hlive, honly⟩ := exports_traits hnew halike hcontents hentries
  refine ⟨_, aggr', hnew, hnew', ?_⟩
  rw [htraits]
  exact ⟨halike.creationDate, halike.modificationDate, halike.deletionDate, halike.lastOperationId,
    hkeys.sublist (hcontents.ids_sublist hlookups), hlive, honly⟩

end Entity

/-! ## The entities of the sorted mutations -/

namespace ChainEntityIterator

theorem next_nil (env : Env) : next env [] = (none, []) := rfl

/-- The mutations at the front that are of the first one's entity make it. -/
theorem next_cons (env : Env) (m : CommittedEntityMutation) (rest : List CommittedEntityMutation)
    (hid : m.mutation.entityId ≠ "") (hkinds : ∀ x ∈ m :: rest, HasKind x)
    (hnodup : ((m :: rest).map CommittedEntityMutation.operationId).Nodup) :
    ∃ aggr entity,
      next env (m :: rest) = (some (.ok entity),
        (m :: rest).dropWhile fun x => x.mutation.entityId = m.mutation.entityId) ∧
      entity.id = m.mutation.entityId ∧
      EntityAggregator.new (((m :: rest).takeWhile fun x =>
        x.mutation.entityId = m.mutation.entityId).filterMap indexed) = some aggr ∧
      Exports ((m :: rest).takeWhile fun x => x.mutation.entityId = m.mutation.entityId) aggr
        entity := by
  have hgather := Gathered.gather_start m rest hid hkinds
  generalize hgroup : ((m :: rest).takeWhile fun x =>
    x.mutation.entityId = m.mutation.entityId) = group at hgather ⊢
  generalize ((m :: rest).dropWhile fun x => x.mutation.entityId = m.mutation.entityId) = left
    at hgather ⊢
  have hsub : group.Sublist (m :: rest) := by
    rw [← hgroup]
    exact List.takeWhile_sublist _
  have hnodup' : (group.map CommittedEntityMutation.operationId).Nodup :=
    hnodup.sublist (hsub.map _)
  obtain ⟨aggr, aggr', hnew, hnew', hexports⟩ :=
    exports_of_gathered env m.mutation.entityId hnodup'
  have hentity : (group.foldl Gathered.add ⟨m.mutation.entityId, [], ∅⟩).entityId =
      m.mutation.entityId := Gathered.foldl_entityId group _
  have hbuffer : (group.foldl Gathered.add ⟨m.mutation.entityId, [], ∅⟩).buffer =
      (group.filterMap indexed).map .plain := Gathered.foldl_buffer group _
  refine ⟨aggr, _, ?_, rfl, hnew, hexports⟩
  rw [next, extractNextEntity, hgather]
  simp only [hentity, hbuffer, if_neg hid, hnew']

/-- The mutations of an entity. -/
def ofId (id : String) (l : List CommittedEntityMutation) : List CommittedEntityMutation :=
  l.filter fun m => m.mutation.entityId = id

/-- What one call leaves: the mutations of the entities with larger ids, all of them. -/
structure Leaves (id : String) (l left : List CommittedEntityMutation) : Prop where
  sublist : left.Sublist l
  shorter : left.length < l.length
  larger : ∀ m ∈ left, id < m.mutation.entityId
  others : ∀ m ∈ l, m.mutation.entityId = id ∨ m ∈ left
  whole : ∀ other, id < other → ofId other left = ofId other l

/-- The entity of the first mutation is made of all of its mutations. -/
theorem next_leaves (env : Env) (m : CommittedEntityMutation) (rest : List CommittedEntityMutation)
    (hsorted : (m :: rest).Pairwise fun a b => a.mutation.entityId ≤ b.mutation.entityId)
    (hid : m.mutation.entityId ≠ "") (hkinds : ∀ x ∈ m :: rest, HasKind x)
    (hnodup : ((m :: rest).map CommittedEntityMutation.operationId).Nodup) :
    ∃ aggr entity left, next env (m :: rest) = (some (.ok entity), left) ∧
      entity.id = m.mutation.entityId ∧ Leaves entity.id (m :: rest) left ∧
      EntityAggregator.new ((ofId entity.id (m :: rest)).filterMap indexed) = some aggr ∧
      Exports (ofId entity.id (m :: rest)) aggr entity := by
  obtain ⟨aggr, entity, hnext, hentity, hnew, hexports⟩ := next_cons env m rest hid hkinds hnodup
  have hfront : ∀ x ∈ m :: rest, m.mutation.entityId ≤ x.mutation.entityId := by
    intro x hx
    rcases List.mem_cons.mp hx with rfl | hx
    · exact le_refl _
    · exact (List.pairwise_cons.mp hsorted).1 x hx
  obtain ⟨htake, hlarger⟩ := span_key (fun x : CommittedEntityMutation => x.mutation.entityId)
    m.mutation.entityId (fun x => decide (x.mutation.entityId = m.mutation.entityId))
    (fun x => decide_eq_true_iff) (m :: rest) hsorted hfront
  have hsplit := List.takeWhile_append_dropWhile
    (p := fun x : CommittedEntityMutation => decide (x.mutation.entityId = m.mutation.entityId))
    (l := m :: rest)
  rw [htake] at hnew hexports hsplit
  refine ⟨aggr, entity, _, hnext, hentity, ?_, by rwa [hentity], by rwa [hentity]⟩
  rw [hentity]
  refine ⟨List.dropWhile_sublist _, ?_, hlarger, ?_, ?_⟩
  · rw [List.dropWhile_cons, if_pos (decide_eq_true rfl), List.length_cons]
    exact Nat.lt_succ_of_le (List.dropWhile_sublist _).length_le
  · intro x hx
    rw [← hsplit] at hx
    rcases List.mem_append.mp hx with hx | hx
    · exact Or.inl (of_decide_eq_true (List.mem_filter.mp hx).2)
    · exact Or.inr hx
  · intro other hlt
    apply filter_dropWhile
    intro x hx
    rw [of_decide_eq_true hx]
    exact decide_eq_false (ne_of_lt hlt)

/-- One entity for each id that comes, in the order of the ids, from all mutations with it. -/
theorem yields_entities (env : Env) (l : List CommittedEntityMutation)
    (hsorted : l.Pairwise fun a b => a.mutation.entityId ≤ b.mutation.entityId)
    (hids : ∀ m ∈ l, m.mutation.entityId ≠ "") (hkinds : ∀ m ∈ l, HasKind m)
    (hnodup : (l.map CommittedEntityMutation.operationId).Nodup) :
    ∃ entities : List Entity, Yields env l (entities.map .ok) ∧
      (entities.map Entity.id).Pairwise (· < ·) ∧
      (∀ id, id ∈ entities.map Entity.id ↔ ∃ m ∈ l, m.mutation.entityId = id) ∧
      ∀ entity ∈ entities, ∃ aggr,
        EntityAggregator.new ((ofId entity.id l).filterMap indexed) = some aggr ∧
        Exports (ofId entity.id l) aggr entity := by
  induction hlength : l.length using Nat.strong_induction_on generalizing l with
  | _ n ih =>
    cases l with
    | nil =>
      refine ⟨[], .finished (next_nil env), List.Pairwise.nil, fun id => ?_, fun _ h => ?_⟩
      · refine iff_of_false List.not_mem_nil ?_
        rintro ⟨m, hm, -⟩
        exact List.not_mem_nil hm
      · exact absurd h List.not_mem_nil
    | cons m rest =>
      obtain ⟨aggr, entity, left, hnext, hid, hleaves, hnew, hexports⟩ :=
        next_leaves env m rest hsorted (hids m List.mem_cons_self) hkinds hnodup
      have hsub := hleaves.sublist
      obtain ⟨entities, hyields, hascends, hall, haggregated⟩ :=
        ih left.length (hlength ▸ hleaves.shorter) left (hsorted.sublist hsub)
          (fun x hx => hids x (hsub.subset hx)) (fun x hx => hkinds x (hsub.subset hx))
          (hnodup.sublist (hsub.map _)) rfl
      have hlater : ∀ id ∈ entities.map Entity.id, entity.id < id := by
        intro id hmem
        obtain ⟨x, hx, rfl⟩ := (hall id).mp hmem
        exact hleaves.larger x hx
      refine ⟨entity :: entities, .item hnext hyields, ?_, fun id => ?_, ?_⟩
      · exact List.pairwise_cons.mpr ⟨hlater, hascends⟩
      · rw [List.map_cons, List.mem_cons, hall id]
        constructor
        · rintro (rfl | ⟨x, hx, hxid⟩)
          · exact ⟨m, List.mem_cons_self, hid.symm⟩
          · exact ⟨x, hsub.subset hx, hxid⟩
        · rintro ⟨x, hx, rfl⟩
          exact (hleaves.others x hx).imp id fun h => ⟨x, h, rfl⟩
      · intro other hother
        rcases List.mem_cons.mp hother with rfl | hother
        · exact ⟨aggr, hnew, hexports⟩
        · obtain ⟨aggr', hnew', hexports'⟩ := haggregated other hother
          have hwhole := hleaves.whole other.id (hlater _ (List.mem_map_of_mem hother))
          rw [hwhole] at hnew' hexports'
          exact ⟨aggr', hnew', hexports'⟩

end ChainEntityIterator

end Exocore.Store.Export
