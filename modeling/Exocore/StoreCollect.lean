import Exocore.LibSort
import Exocore.StoreVisible

/-! The garbage collector of the entity index: which collections an entity is due for, and the
operations each of them deletes. -/
namespace Exocore.Store

/-- Durations are in nanoseconds. -/
structure GarbageCollectorConfig where
  deletedEntityCollection : ℕ
  deletedTraitCollection : ℕ
  traitVersionsMax : ℕ
  traitVersionsLeeway : ℕ
  minOperationAge : ℕ
  queueSize : ℕ

inductive GCOperation where
  | deleteEntity
  | deleteTrait (traitId : TraitId)
  | compactTrait (traitId : TraitId)
deriving DecidableEq

/-- The mutation that deletes operations of an entity. -/
structure DeleteOperations where
  entityId : String
  operationIds : List OperationId
deriving DecidableEq

/-- A trait with the aggregator it has in the hash map. -/
abbrev TraitEntry := (_ : TraitId) × TraitAggregator

namespace GarbageCollector

/-- Whether the time since a deletion is at least the duration. -/
def isDue (now : DateTime) (duration : ℕ) (deletionDate : Option DateTime) : Bool :=
  match deletionDate with
  | some date => decide ((duration : ℤ) ≤ now - date)
  | none => false

def collectionOf (config : GarbageCollectorConfig) (now : DateTime) (entry : TraitEntry) :
    Option GCOperation :=
  if isDue now config.deletedTraitCollection entry.2.deletionDate then
    some (.deleteTrait entry.1)
  else if entry.2.mutationCount > config.traitVersionsLeeway then
    some (.compactTrait entry.1)
  else none

/-- The traits come in the order of the hash map. -/
def genEntityCollections (config : GarbageCollectorConfig) (now : DateTime)
    (order : Sorting.ValuesOrder TraitEntry) (aggregator : EntityAggregator) :
    List GCOperation :=
  if aggregator.inPending || aggregator.pendingDeletion then []
  else if isDue now config.deletedEntityCollection aggregator.deletionDate then [.deleteEntity]
  else (order.order aggregator.traits.entries).filterMap (collectionOf config now)

/-- No mutation is made for no operations. -/
def deletion (aggr : EntityAggregator) (operationIds : List OperationId) :
    Option DeleteOperations :=
  if operationIds = [] then none else some ⟨aggr.entityId, operationIds⟩

/-- None where the assertion on the deletion date fails, as in the two functions below. -/
def collectDeleteEntity (aggr : EntityAggregator) (mutations : List MutationMetadata) :
    Option (Option DeleteOperations) :=
  if aggr.deletionDate.isSome then
    some (deletion aggr (mutations.map MutationMetadata.operationId))
  else none

def filterTraitMutations (mutations : List MutationMetadata) (traitId : TraitId) :
    List MutationMetadata :=
  mutations.filter fun mutation => match mutation.mutationType with
    | .traitPut put => decide (put.traitId = traitId)
    | .traitTombstone tombTraitId => decide (tombTraitId = traitId)
    | _ => false

def collectDeleteTrait (aggr : EntityAggregator) (traitId : TraitId)
    (mutations : List MutationMetadata) : Option (Option DeleteOperations) := do
  let trait ← aggr.traits.lookup traitId
  if trait.deletionDate.isSome then
    some (deletion aggr ((filterTraitMutations mutations traitId).map
      MutationMetadata.operationId))
  else none

/-- The operations of the trait that are old enough. -/
def traitOperations (traitId : TraitId) (minOpTime : DateTime)
    (mutations : List MutationMetadata) : List OperationId :=
  ((filterTraitMutations mutations traitId).filter fun mutation =>
    decide (toDatetime mutation.operationId < minOpTime)).map MutationMetadata.operationId

/-- The operations a compaction selects: all but the last ones of the list. -/
def selectVersions (traitId : TraitId) (minOpTime : DateTime) (maxVersions : ℕ)
    (mutations : List MutationMetadata) : List OperationId :=
  let operations := traitOperations traitId minOpTime mutations
  operations.take (operations.length - maxVersions)

def assertInactiveOperations (aggr : EntityAggregator) (toDelete : List OperationId) : Bool :=
  toDelete.all fun id => decide (id ∉ aggr.activeOperations)

def collectTraitVersions (aggr : EntityAggregator) (traitId : TraitId) (minOpTime : DateTime)
    (maxVersions : ℕ) (mutations : List MutationMetadata) : Option (Option DeleteOperations) :=
  if (traitOperations traitId minOpTime mutations).length ≤ maxVersions then some none
  else
    let operationIds := selectVersions traitId minOpTime maxVersions mutations
    if assertInactiveOperations aggr operationIds then some (deletion aggr operationIds)
    else none

def collect (config : GarbageCollectorConfig) (minOpTime : DateTime) (aggr : EntityAggregator)
    (mutations : List MutationMetadata) : GCOperation → Option (Option DeleteOperations)
  | .deleteEntity => collectDeleteEntity aggr mutations
  | .deleteTrait traitId => collectDeleteTrait aggr traitId mutations
  | .compactTrait traitId =>
    collectTraitVersions aggr traitId minOpTime config.traitVersionsMax mutations

/-- The body of `run` for one entity: the deletions it makes, none where it panics. The times
are the bound that `run` reads from the clock at its start and the time of the check. -/
def runEntity (config : GarbageCollectorConfig) (minOpTime now : DateTime)
    (order : Sorting.ValuesOrder TraitEntry) (sortedMutations : List MutationMetadata) :
    Option (List DeleteOperations) := do
  let aggregator ← EntityAggregator.new sortedMutations
  let deletions ← (genEntityCollections config now order aggregator).mapM
    (collect config minOpTime aggregator sortedMutations)
  pure (deletions.filterMap id)

/-- `run` on the entities in the queue. A fetch that fails is passed over. -/
def run (config : GarbageCollectorConfig) (start : DateTime) (now : String → DateTime)
    (order : Sorting.ValuesOrder TraitEntry)
    (entityFetcher : String → Option (List MutationMetadata)) (entityIds : List String) :
    Option (List DeleteOperations) := do
  let deletions ← entityIds.mapM fun entityId => match entityFetcher entityId with
    | none => some []
    | some sortedMutations =>
      runEntity config (start - config.minOperationAge) (now entityId) order sortedMutations
  pure deletions.flatten

end GarbageCollector

end Exocore.Store
