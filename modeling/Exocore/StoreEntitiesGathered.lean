import Exocore.StoreAggregatorAlike
import Exocore.StoreEntityMutations
import Exocore.StoreIndexSpec

/-! What the iterator over the entities gathers of an entity, and the traits that it makes of it. -/
namespace Exocore.Store.Export

open Exocore.Core Spilled

/-! ## The metadata of a mutation -/

/-- The mutation is of a kind, and a put comes with its trait. -/
def HasKind (m : CommittedEntityMutation) : Prop :=
  ∃ kind, m.mutation.mutation = some kind ∧ kind ≠ .putTrait none

/-- What the aggregator of the index is given of a mutation, none where it is not for it. -/
def indexed (m : CommittedEntityMutation) : Option MutationMetadata :=
  let metadata (mutationType : MutationType) : MutationMetadata :=
    ⟨m.operationId, some m.blockOffset, m.mutation.entityId, mutationType⟩
  match m.mutation.mutation with
  | some (.putTrait (some trt)) => some (metadata (.traitPut
      ⟨trt.id, trt.message.map TraitMessage.fullName, trt.creationDate, trt.modificationDate,
        (trt.message.map TraitMessage.hasReference).getD false⟩))
  | some (.deleteTrait traitId) => some (metadata (.traitTombstone traitId))
  | some .deleteEntity => some (metadata .entityTombstone)
  | _ => none

/-- These are the documents that the index writes for the mutation. -/
theorem indexed_eq_documents (m : CommittedEntityMutation)
    (hmessage : ∀ trt, m.mutation.mutation = some (.putTrait (some trt)) → trt.message.isSome) :
    (IndexOperation.fromChainEntityMutation m.mutation m.operationId m.blockOffset).filterMap
      IndexOperation.document = (indexed m).toList := by
  rw [IndexOperation.fromChainEntityMutation, indexed]
  cases hkind : m.mutation.mutation with
  | none => rfl
  | some kind => cases kind with
    | putTrait trt => cases trt with
      | none => rfl
      | some trt =>
        obtain ⟨message, hsome⟩ := Option.isSome_iff_exists.mp (hmessage trt hkind)
        simp only [List.filterMap_cons, IndexOperation.document, MutationIndex.traitPutToDocument,
          hsome]
        rfl
    | deleteOperations operationIds =>
      rw [List.filterMap_eq_nil_iff.mpr]
      · rfl
      · intro op hop
        obtain ⟨operationId, -, rfl⟩ := List.mem_map.mp hop
        rfl
    | _ => rfl

theorem indexed_operationId {m : CommittedEntityMutation} {metadata : MutationMetadata}
    (h : indexed m = some metadata) : metadata.operationId = m.operationId := by
  rw [indexed] at h
  split at h
  · rw [← Option.some.inj h]
  · rw [← Option.some.inj h]
  · rw [← Option.some.inj h]
  · cases h

/-- A put of which there is metadata puts its trait. -/
theorem indexed_put {m : CommittedEntityMutation} {metadata : MutationMetadata}
    {put : PutTraitMetadata} (h : indexed m = some metadata)
    (hput : metadata.mutationType = .traitPut put) :
    ∃ trt, m.mutation.mutation = some (.putTrait (some trt)) ∧ put.traitId = trt.id := by
  rw [indexed] at h
  split at h
  · rename_i trt hkind
    have hmetadata := Option.some.inj h
    rw [← hmetadata] at hput
    have hsame := MutationType.traitPut.inj hput
    exact ⟨trt, hkind, hsame ▸ rfl⟩
  · rw [← Option.some.inj h] at hput
    cases hput
  · rw [← Option.some.inj h] at hput
    cases hput
  · cases h

theorem entityToMutationMetadata_eq {m : CommittedEntityMutation} (h : HasKind m) :
    entityToMutationMetadata m = .ok ((indexed m).map .plain) := by
  obtain ⟨kind, hkind, hput⟩ := h
  rw [entityToMutationMetadata, indexed, hkind]
  cases kind with
  | putTrait trt => cases trt with
    | none => exact absurd rfl hput
    | some trt => rfl
  | _ => rfl

/-! ## The loop over the mutations of an entity -/

namespace Gathered

def add (g : Gathered) (m : CommittedEntityMutation) : Gathered :=
  g.take m ((indexed m).map .plain)

theorem take_entityId (g : Gathered) (m : CommittedEntityMutation)
    (metadata : Option MutationMetadata) : (g.take m metadata).entityId = g.entityId := by
  cases metadata <;> rfl

/-- The loop takes all mutations of its entity, and stops at the first one of another. -/
theorem gather_eq (g : Gathered) (hid : g.entityId ≠ "") (l : List CommittedEntityMutation)
    (hkinds : ∀ m ∈ l, HasKind m) :
    g.gather l =
      (.ok ((l.takeWhile fun m => m.mutation.entityId = g.entityId).foldl add g),
        l.dropWhile fun m => m.mutation.entityId = g.entityId) := by
  induction l generalizing g with
  | nil => rfl
  | cons next rest ih =>
    by_cases hsame : next.mutation.entityId = g.entityId
    · have hgoes : ¬ (g.entityId ≠ "" ∧ g.entityId ≠ next.mutation.entityId) :=
        fun hstop => hstop.2 hsame.symm
      have hdecide : decide (next.mutation.entityId = g.entityId) = true := decide_eq_true hsame
      have hentity : (g.add next).entityId = g.entityId := take_entityId g next _
      have hrest := ih (g.add next) (hentity ▸ hid) fun m hm =>
        hkinds m (List.mem_cons_of_mem next hm)
      rw [hentity] at hrest
      rw [gather, if_neg hgoes, if_neg hid,
        entityToMutationMetadata_eq (hkinds next List.mem_cons_self), List.takeWhile_cons,
        List.dropWhile_cons, if_pos hdecide, if_pos hdecide, List.foldl_cons]
      exact hrest
    · have hstops : g.entityId ≠ "" ∧ g.entityId ≠ next.mutation.entityId :=
        ⟨hid, fun heq => hsame heq.symm⟩
      have hdecide : ¬ decide (next.mutation.entityId = g.entityId) = true :=
        fun hd => hsame (of_decide_eq_true hd)
      rw [gather, if_pos hstops, List.takeWhile_cons, List.dropWhile_cons, if_neg hdecide,
        if_neg hdecide]
      rfl

theorem gather_start (m : CommittedEntityMutation) (rest : List CommittedEntityMutation)
    (hid : m.mutation.entityId ≠ "") (hkinds : ∀ x ∈ m :: rest, HasKind x) :
    start.gather (m :: rest) =
      (.ok (((m :: rest).takeWhile fun x => x.mutation.entityId = m.mutation.entityId).foldl add
          ⟨m.mutation.entityId, [], ∅⟩),
        (m :: rest).dropWhile fun x => x.mutation.entityId = m.mutation.entityId) := by
  rw [← gather_eq ⟨m.mutation.entityId, [], ∅⟩ hid (m :: rest) hkinds]
  have hempty : start.entityId = "" := rfl
  have hgoes : ¬ (start.entityId ≠ "" ∧ start.entityId ≠ m.mutation.entityId) :=
    fun hstop => hstop.1 hempty
  have hgoes' : ¬ (m.mutation.entityId ≠ "" ∧ m.mutation.entityId ≠ m.mutation.entityId) :=
    fun hstop => hstop.2 rfl
  rw [gather, gather, if_neg hgoes, if_pos hempty, if_neg hgoes', if_neg hid]
  rfl

theorem foldl_entityId (l : List CommittedEntityMutation) (g : Gathered) :
    (l.foldl add g).entityId = g.entityId := by
  induction l generalizing g with
  | nil => rfl
  | cons m l ih =>
    rw [List.foldl_cons, ih]
    exact take_entityId g m _

theorem foldl_buffer (l : List CommittedEntityMutation) (g : Gathered) :
    (l.foldl add g).buffer = g.buffer ++ (l.filterMap indexed).map .plain := by
  induction l generalizing g with
  | nil => exact (List.append_nil _).symm
  | cons m l ih =>
    rw [List.foldl_cons, ih, add]
    cases hindexed : indexed m with
    | none =>
      rw [List.filterMap_cons_none hindexed]
      rfl
    | some metadata =>
      have htake : (g.take m (some metadata.plain)).buffer = g.buffer ++ [metadata.plain] := rfl
      rw [List.filterMap_cons_some hindexed, Option.map_some, htake, List.map_cons,
        List.append_assoc, List.singleton_append]

/-- The content of a put that no other operation replaces. -/
theorem foldl_traits (l : List CommittedEntityMutation) (g : Gathered)
    (hnodup : (l.map CommittedEntityMutation.operationId).Nodup) {m : CommittedEntityMutation}
    {trt : Trait} (hm : m ∈ l) (hput : m.mutation.mutation = some (.putTrait (some trt))) :
    (l.foldl add g).traits.lookup m.operationId = some trt := by
  have hkeeps (l : List CommittedEntityMutation) (g : Gathered)
      (hnot : m.operationId ∉ l.map CommittedEntityMutation.operationId) :
      (l.foldl add g).traits.lookup m.operationId = g.traits.lookup m.operationId := by
    induction l generalizing g with
    | nil => rfl
    | cons x l ih =>
      rw [List.map_cons, List.mem_cons, not_or] at hnot
      rw [List.foldl_cons, ih _ hnot.2, add]
      cases indexed x with
      | none => rfl
      | some metadata =>
        simp only [Option.map_some, take]
        split
        · exact AList.lookup_insert_ne hnot.1
        · rfl
  induction l generalizing g with
  | nil => exact absurd hm List.not_mem_nil
  | cons x l ih =>
    obtain ⟨hx, hrest⟩ := List.nodup_cons.mp hnodup
    rw [List.foldl_cons]
    rcases List.mem_cons.mp hm with rfl | hm
    · rw [hkeeps l _ hx, add]
      have hindexed : (indexed m).isSome := by
        rw [indexed, hput]
        rfl
      obtain ⟨metadata, hsome⟩ := Option.isSome_iff_exists.mp hindexed
      rw [hsome, Option.map_some]
      simp only [take, hput]
      exact AList.lookup_insert _
    · exact ih (g.add x) hrest hm

end Gathered

end Exocore.Store.Export
