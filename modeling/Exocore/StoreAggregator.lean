import Mathlib.Data.List.AList
import Mathlib.Data.List.Destutter
import Mathlib.Data.List.Sort
import Mathlib.Data.Prod.Lex
import Mathlib.Tactic

/-! The aggregator of the entity index, which merges the mutations of an entity in the order
they were committed, and the fetch of these mutations from the two indices. -/
namespace Exocore.Store

abbrev OperationId := Fin (2^64)
abbrev BlockOffset := Fin (2^64)

instance neZero_words : NeZero (2^64) := ⟨by decide⟩
instance : LawfulBEq OperationId := inferInstance
abbrev TraitId := String

/-- Nanoseconds since the epoch. -/
abbrev DateTime := ℤ

/-- The id of an operation is its time, cast to a signed word. -/
def toDatetime (id : OperationId) : DateTime :=
  if id.val < 2^63 then id.val else (id.val : ℤ) - 2^64

structure PutTraitMetadata where
  traitId : TraitId
  traitType : Option String
  creationDate : Option DateTime
  modificationDate : Option DateTime
  hasReference : Bool
deriving DecidableEq

inductive MutationType where
  | traitPut (put : PutTraitMetadata)
  | traitTombstone (traitId : TraitId)
  | entityTombstone
  | pendingDeletion
deriving DecidableEq

structure MutationMetadata where
  operationId : OperationId
  blockOffset : Option BlockOffset
  entityId : String
  mutationType : MutationType
deriving DecidableEq

/-- The order of optional dates: none is before every date. -/
def isBefore : Option DateTime → Option DateTime → Bool
  | some a, some b => a < b
  | none, some _ => true
  | _, none => false

def updateIfNewer (current new : Option DateTime) : Option DateTime :=
  if current.isNone || isBefore current new then new else current

def updateIfOlder (current new : Option DateTime) : Option DateTime :=
  if current.isNone || isBefore new current then new else current

structure TraitAggregator where
  putMutations : List MutationMetadata
  lastOperationId : Option OperationId
  creationDate : Option DateTime
  modificationDate : Option DateTime
  deletionDate : Option DateTime
  mutationCount : ℕ
  hasReference : Bool
deriving DecidableEq

abbrev Traits := AList fun _ : TraitId => TraitAggregator

namespace TraitAggregator

def default : TraitAggregator := ⟨[], none, none, none, none, 0, false⟩

def getForTrait (traits : Traits) (traitId : TraitId) : TraitAggregator :=
  (traits.lookup traitId).getD default

def allDeleted (traits : Traits) : Bool :=
  traits.entries.all fun entry => entry.2.deletionDate.isSome

def pushPutMutation (agg : TraitAggregator) (mutation : MutationMetadata)
    (put : PutTraitMetadata) : TraitAggregator :=
  let opTime := toDatetime mutation.operationId
  let modificationDate := match put.modificationDate with
    | some date => some date
    | none => if agg.creationDate.isSome then some opTime else none
  { putMutations := agg.putMutations ++ [mutation]
    lastOperationId := some mutation.operationId
    creationDate := updateIfOlder agg.creationDate (some (put.creationDate.getD opTime))
    modificationDate := updateIfNewer agg.modificationDate modificationDate
    deletionDate := none
    mutationCount := agg.mutationCount + 1
    hasReference := put.hasReference }

def pushDeleteMutation (agg : TraitAggregator) (operationId : OperationId) : TraitAggregator :=
  { agg with
    creationDate := none
    modificationDate := none
    deletionDate := some (toDatetime operationId)
    lastOperationId := some operationId
    mutationCount := agg.mutationCount + 1 }

def lastPutMutation (agg : TraitAggregator) : Option (MutationMetadata × PutTraitMetadata) :=
  match agg.putMutations.getLast? with
  | none => none
  | some mutation => match mutation.mutationType with
    | .traitPut put => some (mutation, put)
    | _ => none

/-- A mutation that happened before the last one of the trait, but was committed late. -/
def isLate (agg : TraitAggregator) (operationId : OperationId) : Bool :=
  match agg.lastOperationId with
  | some last => operationId < last
  | none => false

end TraitAggregator

/-- The same change to every trait. -/
def Traits.mapValues (f : TraitAggregator → TraitAggregator) (traits : Traits) : Traits :=
  ⟨traits.entries.map fun entry => ⟨entry.1, f entry.2⟩,
    List.NodupKeys.map₂ (fun _ => f) traits.entries traits.nodupKeys⟩

/-- The variables of the loop over the mutations. -/
structure Aggregation where
  entityId : String
  creationDate : Option DateTime
  modificationDate : Option DateTime
  deletionDate : Option DateTime
  traits : Traits
  activeOperations : Finset OperationId
  lastOperationId : Option OperationId
  lastBlockOffset : Option BlockOffset
  prevOperationId : Option OperationId
  inPending : Bool
  pendingDeletion : Bool
  mutationCount : ℕ

namespace Aggregation

def start : Aggregation :=
  ⟨"", none, none, none, ∅, ∅, none, none, none, false, false, 0⟩

/-- The active operations without the one that the next of the trait takes the place of. -/
def removeLast (active : Finset OperationId) (agg : TraitAggregator) : Finset OperationId :=
  match agg.lastOperationId with
  | some last => active.erase last
  | none => active

def putTrait (s : Aggregation) (mutation : MutationMetadata) (put : PutTraitMetadata) :
    Option Aggregation :=
  let agg := TraitAggregator.getForTrait s.traits put.traitId
  if agg.isLate mutation.operationId then none
  else
    let agg' := agg.pushPutMutation mutation put
    some { s with
      traits := s.traits.insert put.traitId agg'
      activeOperations := insert mutation.operationId (removeLast s.activeOperations agg)
      creationDate := updateIfOlder s.creationDate agg'.creationDate
      modificationDate := updateIfNewer s.modificationDate
        (agg'.modificationDate.or agg'.creationDate)
      deletionDate := none }

def deleteTrait (s : Aggregation) (operationId : OperationId) (traitId : TraitId) :
    Option Aggregation :=
  let agg := TraitAggregator.getForTrait s.traits traitId
  if agg.isLate operationId then none
  else
    let time := toDatetime operationId
    let traits := s.traits.insert traitId (agg.pushDeleteMutation operationId)
    let s' := { s with
      traits := traits
      activeOperations := insert operationId (removeLast s.activeOperations agg)
      modificationDate := updateIfNewer s.modificationDate (some time) }
    if TraitAggregator.allDeleted traits then
      some { s' with creationDate := none, modificationDate := none, deletionDate := some time }
    else some s'

/-- The tombstone of an entity deletes the traits that it has at this point. -/
def deleteEntity (s : Aggregation) (operationId : OperationId) : Option Aggregation :=
  match s.lastOperationId with
  | some last => if operationId < last then none else some (wiped s)
  | none => some (wiped s)
where
  wiped (s : Aggregation) : Aggregation := { s with
    traits := s.traits.mapValues (·.pushDeleteMutation operationId)
    activeOperations := {operationId}
    creationDate := none
    modificationDate := none
    deletionDate := some (toDatetime operationId) }

/-- None where the mutation is discarded. -/
def applyMutation (s : Aggregation) (mutation : MutationMetadata) : Option Aggregation :=
  match mutation.mutationType with
  | .traitPut put => s.putTrait mutation put
  | .traitTombstone traitId => s.deleteTrait mutation.operationId traitId
  | .entityTombstone => s.deleteEntity mutation.operationId
  | .pendingDeletion => some { s with pendingDeletion := true }

/-- The end of the loop's body, which a discarded mutation does not reach. -/
def noteLast (s : Aggregation) (mutation : MutationMetadata) : Aggregation :=
  let s := if s.lastOperationId.getD 0 < mutation.operationId then
      { s with lastOperationId := some mutation.operationId }
    else s
  match mutation.blockOffset with
  | some offset => { s with lastBlockOffset := some offset }
  | none => { s with inPending := true }

def count (s : Aggregation) (mutation : MutationMetadata) : Aggregation :=
  { s with
    prevOperationId := some mutation.operationId
    mutationCount := s.mutationCount + 1
    entityId := mutation.entityId }

/-- None where the assertion on the operation before fails. -/
def step (s : Aggregation) (mutation : MutationMetadata) : Option Aggregation :=
  if s.prevOperationId = some mutation.operationId then none
  else match (s.count mutation).applyMutation mutation with
    | some s' => some (s'.noteLast mutation)
    | none => some (s.count mutation)

def run (s : Aggregation) : List MutationMetadata → Option Aggregation
  | [] => some s
  | mutation :: rest => (s.step mutation).bind fun s' => s'.run rest

end Aggregation

/-- Without the hash of the operation ids. -/
structure EntityAggregator where
  entityId : String
  traits : Traits
  activeOperations : Finset OperationId
  mutationCount : ℕ
  creationDate : Option DateTime
  modificationDate : Option DateTime
  deletionDate : Option DateTime
  lastOperationId : OperationId
  lastBlockOffset : Option BlockOffset
  inPending : Bool
  pendingDeletion : Bool
  hasReference : Bool

namespace EntityAggregator

def ofAggregation (s : Aggregation) : EntityAggregator where
  entityId := s.entityId
  traits := s.traits
  activeOperations := s.activeOperations
  mutationCount := s.mutationCount
  creationDate := s.creationDate
  modificationDate := if s.modificationDate = s.creationDate then none else s.modificationDate
  deletionDate := s.deletionDate
  lastOperationId := s.lastOperationId.getD 0
  lastBlockOffset := s.lastBlockOffset
  inPending := s.inPending
  pendingDeletion := s.pendingDeletion
  hasReference := s.traits.entries.any fun entry =>
    entry.2.deletionDate.isNone && entry.2.hasReference

def new (sortedMutations : List MutationMetadata) : Option EntityAggregator :=
  (Aggregation.start.run sortedMutations).map ofAggregation

end EntityAggregator

/-- The most mutations that an index gives for an entity. -/
def entityMaxTraits : ℕ := 10000

/-- The loop of `dedup_results` from a position on: a result that repeats the operation before
it is replaced by the last one. -/
def dedupResults : ℕ → Option OperationId → List MutationMetadata → List MutationMetadata
  | 0, _, results => results
  | _, _, [] => []
  | fuel + 1, prevOperation, result :: rest =>
    if prevOperation = some result.operationId then
      dedupResults fuel prevOperation (rest.getLast?.toList ++ rest.dropLast)
    else result :: dedupResults fuel (some result.operationId) rest

/-- The mutations of the entity in an index: those with the least operation ids. -/
def fetchEntityMutations (index : List MutationMetadata) : List MutationMetadata :=
  let results := (index.insertionSort fun a b => a.operationId ≤ b.operationId).take entityMaxTraits
  dedupResults results.length none results

def maxOffset : BlockOffset := ⟨2^64 - 1, by decide⟩

/-- A mutation that is not in a block comes behind all that are. -/
def commitKey (m : MutationMetadata) : BlockOffset ×ₗ OperationId :=
  toLex (m.blockOffset.getD maxOffset, m.operationId)

def fetchEntityMutationsMetadata (pendingIndex chainIndex : List MutationMetadata) :
    List MutationMetadata :=
  let mutations := fetchEntityMutations pendingIndex ++ fetchEntityMutations chainIndex
  (mutations.insertionSort fun a b => commitKey a ≤ commitKey b).destutter
    fun a b => a.operationId ≠ b.operationId

end Exocore.Store
