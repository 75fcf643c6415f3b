import Exocore.LibLru
import Exocore.StoreFetchOnce
import Exocore.StoreIndexContent

/-! The mutation index behind its cache: which runs of batches and fetches go as they would on an
index that takes each batch as a whole and has no cache. -/
namespace Exocore.Store

open Exocore.Core Lru

/-- The entity that an operation names, whatever it writes or deletes. -/
def IndexOperation.entityId : IndexOperation → String
  | .putTrait _ _ entityId _ => entityId
  | .putTraitTombstone _ _ entityId _ => entityId
  | .putEntityTombstone _ _ entityId => entityId
  | .deleteEntityOperation entityId _ => entityId
  | .pendingDeletionMarker entityId _ => entityId

/-- The documents of an entity. -/
def ofEntity (docs : List MutationMetadata) (entityId : String) : List MutationMetadata :=
  docs.filter fun doc => doc.entityId = entityId

/-- What the search for an entity gives without a cache. -/
def searchEntity (docs : List MutationMetadata) (entityId : String) : List MutationMetadata :=
  fetchEntityMutations (ofEntity docs entityId)

abbrev EntityMutationsCache := LruCache String (List MutationMetadata)

structure CachedIndex (lru : EntityMutationsCache) where
  index : MutationIndex
  entityCache : lru.Cache

namespace CachedIndex
variable {lru : EntityMutationsCache}

def removeCached (entityId : String) : Action (CachedIndex lru) StoreError Unit := fun s =>
  (.ok (), { s with entityCache := lru.pop s.entityCache entityId })

def onWriter {A : Type} (x : Action (List MutationMetadata) StoreError A) :
    Action (CachedIndex lru) StoreError A := fun s =>
  match x s.index.written with
  | (r, docs) => (r, { s with index := { s.index with written := docs } })

def writeAll : List IndexOperation → Action (CachedIndex lru) StoreError Unit
  | [] => pure ()
  | op :: ops => do
    removeCached op.entityId
    onWriter (MutationIndex.write op)
    writeAll ops

/-- The commit of the writer, with the reload of the reader. -/
def commit : Action (CachedIndex lru) StoreError Unit := fun s =>
  (.ok (), { s with index := ⟨s.index.written, s.index.written⟩ })

def applyOperations (ops : List IndexOperation) : Action (CachedIndex lru) StoreError ℕ := do
  writeAll ops
  if ops ≠ [] then commit
  pure ops.length

def fetchEntityMutations (entityId : String) (s : CachedIndex lru) :
    List MutationMetadata × CachedIndex lru :=
  match lru.get s.entityCache entityId with
  | (some results, cache) => (results, { s with entityCache := cache })
  | (none, cache) =>
    let results := searchEntity s.index.committed entityId
    (results, { s with entityCache := lru.put cache entityId results })

/-- An index as it is opened: with the documents of the last commit, and an empty cache. -/
def opened (lru : EntityMutationsCache) (size : ℕ) (nonzero : 0 < size)
    (docs : List MutationMetadata) : CachedIndex lru :=
  ⟨⟨docs, docs⟩, lru.new size nonzero⟩

end CachedIndex

inductive MutationIndexCall where
  | applyOperations (ops : List IndexOperation)
  | fetchEntityMutations (entityId : String)

inductive MutationIndexOutput where
  | applied (r : Res StoreError ℕ)
  | fetched (mutations : List MutationMetadata)
deriving DecidableEq

def CachedIndex.step {lru : EntityMutationsCache} (s : CachedIndex lru) :
    MutationIndexCall → MutationIndexOutput × CachedIndex lru
  | .applyOperations ops => (.applied (applyOperations ops s).1, (applyOperations ops s).2)
  | .fetchEntityMutations entityId =>
    (.fetched (fetchEntityMutations entityId s).1, (fetchEntityMutations entityId s).2)

/-- An index that takes a batch as a whole or not at all, and searches for each fetch. -/
def atomicStep (docs : List MutationMetadata) :
    MutationIndexCall → MutationIndexOutput × List MutationMetadata
  | .applyOperations ops => match MutationIndex.writeAll ops docs with
    | (.ok (), docs') => (.applied (.ok ops.length), docs')
    | (.error e, _) => (.applied (.error e), docs)
  | .fetchEntityMutations entityId => (.fetched (searchEntity docs entityId), docs)

/-- An operation of the batch deletes the documents of the id. -/
def Deletes (ops : List IndexOperation) (operationId : OperationId) : Prop :=
  ∃ entityId, .deleteEntityOperation entityId operationId ∈ ops

def deletes (ops : List IndexOperation) (operationId : OperationId) : Bool :=
  ops.any fun op => match op with
    | .deleteEntityOperation _ id => id = operationId
    | _ => false

theorem deletes_iff (ops : List IndexOperation) (operationId : OperationId) :
    deletes ops operationId = true ↔ Deletes ops operationId := by
  unfold deletes Deletes
  rw [List.any_eq_true]
  constructor
  · rintro ⟨op, hop, hdeletes⟩
    cases op with
    | deleteEntityOperation entityId id =>
      obtain rfl : id = operationId := of_decide_eq_true hdeletes
      exact ⟨entityId, hop⟩
    | putTrait _ _ _ _ => contradiction
    | putTraitTombstone _ _ _ _ => contradiction
    | putEntityTombstone _ _ _ => contradiction
    | pendingDeletionMarker _ _ => contradiction
  · rintro ⟨entityId, hop⟩
    exact ⟨_, hop, decide_eq_true rfl⟩

theorem deletes_cons_document (op : IndexOperation) (ops : List IndexOperation)
    (h : op.document.isSome) (operationId : OperationId) :
    deletes (op :: ops) operationId = deletes ops operationId := by
  cases op with
  | deleteEntityOperation _ _ => contradiction
  | putTrait _ _ _ _ => rfl
  | putTraitTombstone _ _ _ _ => rfl
  | putEntityTombstone _ _ _ => rfl
  | pendingDeletionMarker _ _ => rfl

theorem document_entityId (op : IndexOperation) (doc : MutationMetadata)
    (h : op.document = some doc) : doc.entityId = op.entityId := by
  cases op with
  | deleteEntityOperation _ _ => contradiction
  | putTrait blockOffset operationId entityId trt =>
    cases hmessage : trt.message with
    | none =>
      simp [IndexOperation.document, MutationIndex.traitPutToDocument, hmessage,
        Except.toOption] at h
    | some message =>
      simp only [IndexOperation.document, MutationIndex.traitPutToDocument, hmessage,
        Except.toOption, Option.some.injEq] at h
      rw [← h]
      rfl
  | putTraitTombstone _ _ _ _ =>
    rw [← Option.some.inj h]
    rfl
  | putEntityTombstone _ _ _ =>
    rw [← Option.some.inj h]
    rfl
  | pendingDeletionMarker _ _ =>
    rw [← Option.some.inj h]
    rfl

/-- The documents that the operations add and do not delete again. -/
def addedDocuments : List IndexOperation → List MutationMetadata
  | [] => []
  | op :: ops => (op.document.toList.filter fun doc => !deletes ops doc.operationId) ++ addedDocuments ops

/-- What the writer holds after the operations. -/
theorem writeAll_eq (ops : List IndexOperation) (h : ∀ op ∈ ops, MutationIndex.Takes op)
    (docs : List MutationMetadata) : MutationIndex.writeAll ops docs =
      (.ok (), docs.filter (fun doc => !deletes ops doc.operationId) ++ addedDocuments ops) := by
  induction ops generalizing docs with
  | nil =>
    have hall : docs.filter (fun doc => !deletes [] doc.operationId) = docs :=
      List.filter_eq_self.mpr fun _ _ => rfl
    rw [hall, addedDocuments, List.append_nil, MutationIndex.writeAll_nil]
  | cons op ops ih =>
    have hrest := ih fun op hop => h op (List.mem_cons_of_mem _ hop)
    rw [MutationIndex.writeAll]
    rcases h op List.mem_cons_self with hdoc | ⟨entityId, operationId, rfl⟩
    · have hsame := deletes_cons_document op ops hdoc
      obtain ⟨doc, hdoc⟩ := Option.isSome_iff_exists.mp hdoc
      rw [Action.bind_of_ok _ _ _ _ _ (MutationIndex.write_document op doc hdoc docs), hrest, addedDocuments,
        hdoc, List.filter_append, List.append_assoc]
      simp only [hsame]
      rfl
    · have hwrite : MutationIndex.write (.deleteEntityOperation entityId operationId) docs =
          (.ok (), docs.filter fun doc => doc.operationId ≠ operationId) := rfl
      rw [Action.bind_of_ok _ _ _ _ _ hwrite, hrest, addedDocuments, List.filter_filter]
      refine Prod.ext rfl ?_
      have hdeletes (id : OperationId) :
          deletes (.deleteEntityOperation entityId operationId :: ops) id =
            (decide (operationId = id) || deletes ops id) := rfl
      simp only [hdeletes, IndexOperation.document, Option.toList_none, List.filter_nil,
        List.nil_append, Bool.not_or]
      congr 2
      funext doc
      rw [Bool.and_comm]
      congr 1
      simp [eq_comm]

/-- The documents of an entity that no operation names are those that are not deleted. -/
theorem ofEntity_writeAll (ops : List IndexOperation) (docs docs' : List MutationMetadata)
    (htakes : ∀ op ∈ ops, MutationIndex.Takes op)
    (h : MutationIndex.writeAll ops docs = (.ok (), docs')) (entityId : String)
    (hnamed : ∀ op ∈ ops, op.entityId ≠ entityId) :
    ofEntity docs' entityId =
      (ofEntity docs entityId).filter fun doc => !deletes ops doc.operationId := by
  have hadded : ∀ ops : List IndexOperation, (∀ op ∈ ops, op.entityId ≠ entityId) →
      (addedDocuments ops).filter (fun doc => doc.entityId = entityId) = [] := by
    intro ops
    induction ops with
    | nil => exact fun _ => rfl
    | cons op ops ih =>
      intro hnamed
      rw [addedDocuments, List.filter_append, ih fun op hop => hnamed op (List.mem_cons_of_mem _ hop),
        List.append_nil, List.filter_eq_nil_iff]
      intro doc hdoc
      have hdoc' : op.document = some doc :=
        Option.mem_toList.mp (List.mem_of_mem_filter hdoc)
      have hne := hnamed op List.mem_cons_self
      rw [← document_entityId op doc hdoc'] at hne
      simpa using hne
  rw [writeAll_eq ops htakes docs] at h
  obtain rfl := (Prod.mk.inj h).2
  rw [ofEntity, List.filter_append, hadded ops hnamed, List.append_nil, ofEntity]
  rw [List.filter_filter, List.filter_filter]
  congr 1
  funext doc
  exact Bool.and_comm _ _

/-- Taking out documents that are not among those of a search leaves the search as it is. -/
theorem fetchEntityMutations_filter (docs : List MutationMetadata) (p : MutationMetadata → Bool)
    (h : ∀ doc, Reached docs doc → p doc = true) :
    fetchEntityMutations (docs.filter p) = fetchEntityMutations docs := by
  have htotal : Std.Total fun a b : MutationMetadata => a.operationId ≤ b.operationId :=
    ⟨fun a b => le_total a.operationId b.operationId⟩
  have htrans : IsTrans MutationMetadata fun a b => a.operationId ≤ b.operationId :=
    ⟨fun _ _ _ hab hbc => le_trans hab hbc⟩
  have hfirst : firstResults (docs.filter p) = firstResults docs := by
    unfold firstResults
    apply Neighbours.take_filter_insertionSort
    intro doc hdoc
    exact h doc (reached_of_firstResults docs doc hdoc)
  have heq : ∀ docs, fetchEntityMutations docs =
      dedupResults (firstResults docs).length none (firstResults docs) := fun _ => rfl
  rw [heq, heq, hfirst]

/-- What these operations add they delete again, and they delete nothing else. -/
structure LeavesNothing (docs : List MutationMetadata) (ops : List IndexOperation) : Prop where
  added : ∀ before op after doc, ops = before ++ op :: after → op.document = some doc →
    Deletes after doc.operationId
  deleted : ∀ operationId, Deletes ops operationId → ∀ doc ∈ docs, doc.operationId ≠ operationId

theorem LeavesNothing.written {docs : List MutationMetadata} {ops : List IndexOperation}
    (h : LeavesNothing docs ops) (htakes : ∀ op ∈ ops, MutationIndex.Takes op) :
    MutationIndex.writeAll ops docs = (.ok (), docs) := by
  have hadded : ∀ ops : List IndexOperation, (∀ before op after doc, ops = before ++ op :: after →
      op.document = some doc → Deletes after doc.operationId) → addedDocuments ops = [] := by
    intro ops
    induction ops with
    | nil => exact fun _ => rfl
    | cons op ops ih =>
      intro hall
      rw [addedDocuments, ih fun before op' after doc heq =>
        hall (op :: before) op' after doc (by rw [heq, List.cons_append]), List.append_nil,
        List.filter_eq_nil_iff]
      intro doc hdoc
      have hdeletes := (deletes_iff ops doc.operationId).mpr
        (hall [] op ops doc rfl (Option.mem_toList.mp hdoc))
      simp [hdeletes]
  have hkept : docs.filter (fun doc => !deletes ops doc.operationId) = docs := by
    rw [List.filter_eq_self]
    intro doc hdoc
    cases hdeletes : deletes ops doc.operationId with
    | false => rfl
    | true => exact absurd rfl (h.deleted _ ((deletes_iff ops _).mp hdeletes) doc hdoc)
  rw [writeAll_eq ops htakes docs, hadded ops h.added, hkept, List.append_nil]

namespace CachedIndex
variable {lru : EntityMutationsCache}

/-- A search that a deletion changes is one of an entity that an operation of the batch names, or
that is not cached. -/
def KeepsCached (s : CachedIndex lru) (ops : List IndexOperation) : Prop :=
  ∀ doc, Reached (ofEntity s.index.committed doc.entityId) doc → Deletes ops doc.operationId →
    (∃ op ∈ ops, op.entityId = doc.entityId) ∨ lru.held s.entityCache doc.entityId = none

/-- A batch that fails leaves nothing in the writer, and one that succeeds drops each entry of the
cache that it makes old. -/
def Careful (s : CachedIndex lru) : MutationIndexCall → Prop
  | .applyOperations ops =>
    ((∀ op ∈ ops, MutationIndex.Takes op) → s.KeepsCached ops) ∧
      ∀ before op after, ops = before ++ op :: after → (∀ o ∈ before, MutationIndex.Takes o) →
        ¬ MutationIndex.Takes op → LeavesNothing s.index.committed before
  | .fetchEntityMutations _ => True

theorem writeAll_cases (ops : List IndexOperation) (s : CachedIndex lru) :
    ∃ cache : lru.Cache, writeAll ops s =
        ((MutationIndex.writeAll ops s.index.written).1,
          ⟨⟨(MutationIndex.writeAll ops s.index.written).2, s.index.committed⟩, cache⟩) ∧
      (∀ id results, lru.held cache id = some results →
        lru.held s.entityCache id = some results) ∧
      ((MutationIndex.writeAll ops s.index.written).1 = .ok () →
        ∀ id results, lru.held cache id = some results → ∀ op ∈ ops, op.entityId ≠ id) := by
  induction ops generalizing s with
  | nil =>
    exact ⟨s.entityCache, rfl, fun _ _ h => h, fun _ _ _ _ _ hop => absurd hop List.not_mem_nil⟩
  | cons op ops ih =>
    let popped := lru.pop s.entityCache op.entityId
    have hpopped (id : String) (results : List MutationMetadata)
        (h : lru.held popped id = some results) :
        lru.held s.entityCache id = some results ∧ op.entityId ≠ id := by
      obtain ⟨hne, hheld⟩ := (lru.held_pop s.entityCache op.entityId id results).mp h
      exact ⟨hheld, hne.symm⟩
    rw [writeAll, Action.bind_of_ok _ _ s { s with entityCache := popped } () rfl,
      MutationIndex.writeAll]
    cases hwrite : MutationIndex.write op s.index.written with
    | mk r docs =>
      cases r with
      | error e =>
        have hfails : onWriter (MutationIndex.write op) { s with entityCache := popped } =
            (.error e, ⟨⟨docs, s.index.committed⟩, popped⟩) := by
          rw [onWriter, hwrite]
        rw [Action.bind_of_error _ _ _ _ _ hfails, Action.bind_of_error _ _ _ _ _ hwrite]
        refine ⟨popped, rfl, fun id results h => (hpopped id results h).1, ?_⟩
        intro hok
        contradiction
      | ok _ =>
        have hwrites : onWriter (MutationIndex.write op) { s with entityCache := popped } =
            (.ok (), ⟨⟨docs, s.index.committed⟩, popped⟩) := by
          rw [onWriter, hwrite]
        rw [Action.bind_of_ok _ _ _ _ _ hwrites, Action.bind_of_ok _ _ _ _ _ hwrite]
        obtain ⟨cache, heq, hsubset, hnamed⟩ := ih ⟨⟨docs, s.index.committed⟩, popped⟩
        refine ⟨cache, heq, fun id results h => (hpopped id results (hsubset id results h)).1, ?_⟩
        intro hok id results h op' hop'
        rcases List.mem_cons.mp hop' with rfl | hop'
        · exact (hpopped id results (hsubset id results h)).2
        · exact hnamed hok id results h op' hop'

theorem applyOperations_of_ok (ops : List IndexOperation) (s s' : CachedIndex lru)
    (h : writeAll ops s = (.ok (), s')) : applyOperations ops s = (.ok ops.length,
      if ops = [] then s' else { s' with index := ⟨s'.index.written, s'.index.written⟩ }) := by
  rw [applyOperations, Action.bind_of_ok _ _ _ _ _ h]
  by_cases hempty : ops = []
  · rw [if_neg (not_not.mpr hempty), if_pos hempty]
    rfl
  · rw [if_pos hempty, if_neg hempty]
    rfl

theorem exists_first_not_takes (ops : List IndexOperation)
    (h : ¬ ∀ op ∈ ops, MutationIndex.Takes op) :
    ∃ before op after, ops = before ++ op :: after ∧ (∀ o ∈ before, MutationIndex.Takes o) ∧
      ¬ MutationIndex.Takes op := by
  induction ops with
  | nil => exact absurd (fun _ hop => absurd hop List.not_mem_nil) h
  | cons op ops ih =>
    by_cases hop : MutationIndex.Takes op
    · have hrest : ¬ ∀ o ∈ ops, MutationIndex.Takes o := by
        intro hall
        apply h
        intro o ho
        rcases List.mem_cons.mp ho with rfl | ho
        · exact hop
        · exact hall o ho
      obtain ⟨before, op', after, rfl, hbefore, hop'⟩ := ih hrest
      refine ⟨op :: before, op', after, rfl, ?_, hop'⟩
      intro o ho
      rcases List.mem_cons.mp ho with rfl | ho
      · exact hop
      · exact hbefore o ho
    · exact ⟨[], op, ops, rfl, fun _ ho => absurd ho List.not_mem_nil, hop⟩

/-- The index has these documents, and each entry of the cache is what a search of them gives. -/
structure InStep (s : CachedIndex lru) (docs : List MutationMetadata) : Prop where
  written : s.index.written = docs
  committed : s.index.committed = docs
  cache : lru.Agrees s.entityCache (searchEntity docs)

theorem inStep_opened (size : ℕ) (nonzero : 0 < size) (docs : List MutationMetadata) :
    InStep (opened lru size nonzero docs) docs := ⟨rfl, rfl, LruCache.agrees_new size nonzero _⟩

theorem fetchEntityMutations_inStep (s : CachedIndex lru) (docs : List MutationMetadata)
    (h : InStep s docs) (entityId : String) :
    (s.step (.fetchEntityMutations entityId)).1 = (atomicStep docs (.fetchEntityMutations entityId)).1 ∧
      InStep (s.step (.fetchEntityMutations entityId)).2 docs := by
  have hget := h.cache.get entityId
  have hhit := h.cache.hit entityId
  rw [step, fetchEntityMutations]
  rcases hres : lru.get s.entityCache entityId with ⟨result, cache⟩
  rw [hres] at hget hhit
  cases result with
  | none =>
    simp only [h.committed]
    exact ⟨rfl, h.written, h.committed, hget.put entityId⟩
  | some results =>
    obtain rfl := hhit results rfl
    exact ⟨rfl, h.written, h.committed, hget⟩

theorem applyOperations_inStep (s : CachedIndex lru) (docs : List MutationMetadata) (h : InStep s docs)
    (ops : List IndexOperation) (hcareful : Careful s (.applyOperations ops)) :
    (s.step (.applyOperations ops)).1 = (atomicStep docs (.applyOperations ops)).1 ∧
      InStep (s.step (.applyOperations ops)).2 (atomicStep docs (.applyOperations ops)).2 := by
  obtain ⟨hkeeps, hfails⟩ := hcareful
  obtain ⟨cache, heq, hsubset, hnamed⟩ := writeAll_cases ops s
  rw [h.written] at heq hnamed
  rw [h.committed] at heq hfails
  by_cases htakes : ∀ op ∈ ops, MutationIndex.Takes op
  · obtain ⟨docs', hwrite⟩ := MutationIndex.writeAll_ok_of_takes ops htakes docs
    rw [hwrite] at heq hnamed
    have hcache : lru.Agrees cache (searchEntity docs') := by
      intro id results he
      have hold := hsubset id results he
      have hentity := ofEntity_writeAll ops docs docs' htakes hwrite id (hnamed rfl id results he)
      rw [h.cache id results hold, searchEntity, searchEntity, hentity]
      symm
      apply fetchEntityMutations_filter
      intro doc hdoc
      have hof : doc.entityId = id := of_decide_eq_true (List.mem_filter.mp hdoc.1).2
      cases hdeletes : deletes ops doc.operationId with
      | false => rfl
      | true =>
        rw [← hof, ← h.committed] at hdoc
        rcases hkeeps htakes doc hdoc ((deletes_iff ops _).mp hdeletes) with ⟨op, hop, hid⟩ | hnone
        · exact absurd (hid.trans hof) (hnamed rfl id results he op hop)
        · rw [hof, hold] at hnone
          contradiction
    rw [step, applyOperations_of_ok ops s _ heq, atomicStep, hwrite]
    refine ⟨rfl, ?_⟩
    by_cases hempty : ops = []
    · rw [if_pos hempty]
      rw [hempty, MutationIndex.writeAll_nil] at hwrite
      obtain rfl := (Prod.mk.inj hwrite).2
      exact ⟨rfl, rfl, hcache⟩
    · rw [if_neg hempty]
      exact ⟨rfl, rfl, hcache⟩
  · obtain ⟨before, op, after, rfl, hbefore, hop⟩ := exists_first_not_takes ops htakes
    have hleft := (hfails before op after rfl hbefore hop).written hbefore
    obtain ⟨e, hwrite⟩ : ∃ e, MutationIndex.writeAll (before ++ op :: after) docs = (.error e, docs) := by
      rw [MutationIndex.writeAll_append, Action.bind_of_ok _ _ _ _ _ hleft, MutationIndex.writeAll,
        Action.bind_of_error _ _ _ _ _ (MutationIndex.write_of_not_takes op hop docs)]
      exact ⟨_, rfl⟩
    rw [hwrite] at heq
    have hcall : applyOperations (before ++ op :: after) s = (.error e, ⟨⟨docs, docs⟩, cache⟩) :=
      Action.bind_of_error _ _ _ _ _ heq
    rw [step, hcall, atomicStep, hwrite]
    exact ⟨rfl, rfl, rfl, fun id results he => h.cache id results (hsubset id results he)⟩

/-- In a run whose batches are careful, the calls return what they would on an index that takes
each batch as a whole and has no cache. -/
theorem outputs_atomic (lru : EntityMutationsCache) (size : ℕ) (nonzero : 0 < size)
    (docs : List MutationMetadata) (calls : List MutationIndexCall)
    (hrun : Run.Allowed (fun s call => (step s call).2) Careful (opened lru size nonzero docs)
      calls) :
    Run.outputs step (opened lru size nonzero docs) calls = Run.outputs atomicStep docs calls := by
  apply Run.outputs_eq step atomicStep InStep Careful _ _ _ _ (inStep_opened size nonzero docs) hrun
  intro s docs call h hcareful
  cases call with
  | applyOperations ops => exact applyOperations_inStep s docs h ops hcareful
  | fetchEntityMutations entityId => exact fetchEntityMutations_inStep s docs h entityId

section Samples

def sampleCache : EntityMutationsCache := LruCache.leastRecent _ _

def fullTrait : Trait := ⟨"trait", some ⟨"message", false⟩, none, none⟩

def emptyTrait : Trait := ⟨"trait", none, none, none⟩

/-- The second put of the first batch has no message, and the next batch commits the first put. -/
def failedBatch : List MutationIndexCall :=
  [.applyOperations [.putTrait none 1 "first" fullTrait, .putTrait none 2 "second" emptyTrait],
    .applyOperations [.putTrait none 3 "third" fullTrait], .fetchEntityMutations "first"]

/-- The deletion names an entity that the operation is not of. -/
def misnamedDeletion : List MutationIndexCall :=
  [.applyOperations [.putTrait none 1 "first" fullTrait], .fetchEntityMutations "first",
    .applyOperations [.deleteEntityOperation "second" 1], .fetchEntityMutations "first"]

theorem failedBatch_not_atomic :
    Run.outputs step (opened sampleCache 1 (by decide) []) failedBatch ≠
        Run.outputs atomicStep [] failedBatch ∧
      Run.outputs step (opened sampleCache 1 (by decide) []) misnamedDeletion ≠
        Run.outputs atomicStep [] misnamedDeletion := by
  decide +kernel

def carefulCalls : List MutationIndexCall :=
  [.applyOperations [.putTrait none 1 "first" fullTrait], .fetchEntityMutations "first",
    .applyOperations [.putTrait none 2 "second" emptyTrait],
    .applyOperations [.deleteEntityOperation "first" 1], .fetchEntityMutations "first"]

theorem carefulCalls_atomic :
    Run.outputs step (opened sampleCache 1 (by decide) []) carefulCalls =
      Run.outputs atomicStep [] carefulCalls := by
  have hnone (trt : Trait) (id id' : OperationId) (entityId : String) :
      ¬ Deletes [.putTrait none id' entityId trt] id := by
    rintro ⟨entityId', hmem⟩
    exact absurd (List.mem_singleton.mp hmem) (by simp)
  have hfirst (before after : List IndexOperation) (op op' : IndexOperation)
      (h : [op'] = before ++ op :: after) : before = [] ∧ op' = op := by
    cases before with
    | nil => exact ⟨rfl, (List.cons.inj h).1⟩
    | cons o before =>
      have hnil := (List.cons.inj h).2
      simp at hnil
  have hnothing (docs : List MutationMetadata) : LeavesNothing docs [] := by
    constructor
    · intro before op after doc h
      simp at h
    · rintro operationId ⟨entityId, hmem⟩
      exact absurd hmem List.not_mem_nil
  have hputs (s : CachedIndex sampleCache) (trt : Trait) (id : OperationId) (entityId : String) :
      Careful s (.applyOperations [.putTrait none id entityId trt]) := by
    refine ⟨fun _ doc _ hdeletes => absurd hdeletes (hnone _ _ _ _), ?_⟩
    intro before op after h _ _
    rw [(hfirst before after op _ h).1]
    exact hnothing _
  refine outputs_atomic sampleCache 1 (by decide) [] carefulCalls
    ⟨hputs _ _ _ _, trivial, hputs _ _ _ _, ⟨?_, ?_⟩, trivial, trivial⟩
  · intro _ doc hreached _
    left
    have hdocs : (Run.final step (opened sampleCache 1 (by decide) [])
        (carefulCalls.take 3)).index.committed =
        [⟨1, none, "first", .traitPut ⟨"trait", some "message", none, none, false⟩⟩] := by
      decide +kernel
    have hdoc := (List.mem_filter.mp hreached.1).1
    refine ⟨_, List.mem_singleton_self _, ?_⟩
    have hmem : doc ∈ (Run.final step (opened sampleCache 1 (by decide) [])
        (carefulCalls.take 3)).index.committed := hdoc
    rw [hdocs, List.mem_singleton] at hmem
    rw [hmem]
    rfl
  · intro before op after h _ hnot
    obtain ⟨-, rfl⟩ := hfirst before after op _ h
    exact absurd (Or.inr ⟨_, _, rfl⟩) hnot

end Samples

end CachedIndex

end Exocore.Store
