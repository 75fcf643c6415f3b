import Mathlib.Data.String.Basic
import Mathlib.Order.Compare
import Exocore.LibSpilled
import Exocore.ChainDirectory
import Exocore.ChainMessages
import Exocore.StoreEntityIndex

/-! The iterators over the entity mutations and over the entities of a chain. All mutations are
sorted by their entities first, so that those of an entity follow one another. -/
namespace Exocore.Store.Export

open Exocore.Core Exocore.Chain Spilled

structure CommittedEntityMutation where
  blockOffset : BlockOffset
  operationId : OperationId
  mutation : EntityMutation
deriving DecidableEq

/-- The encoding of the messages. -/
structure Codec where
  decode : Bytes → Option EntityMutation
  encodeCommitted : CommittedEntityMutation → Bytes
  decodeCommitted : Bytes → Option CommittedEntityMutation

/-- The mutation reads back from its encoding, and that is no longer than a word counts. -/
structure Codec.Writes (codec : Codec) (m : CommittedEntityMutation) : Prop where
  readsBack : codec.decodeCommitted (codec.encodeCommitted m) = some m
  short : (codec.encodeCommitted m).length < 2^64

inductive IteratorError where
  | chain (e : ChainError)
  | block (e : BlockError)
  | operation (e : OperationError)
  | serialization
  | proto
  | other (msg : String)
deriving DecidableEq

/-! ## The mutations -/

/-- `read_u64::<LittleEndian>`. -/
def readLe64 (data : Bytes) : Option (ℕ × Bytes) := do
  let low ← readLe32 data
  let high ← readLe32 (data.drop 4)
  return (low + 2^32 * high, data.drop 8)

namespace SortableMutation

def encode (codec : Codec) (m : CommittedEntityMutation) : Bytes :=
  let mutation := codec.encodeCommitted m
  le64 mutation.length ++ mutation

/-- An early end in the length is the end of the stream, one behind it panics. -/
def decode (codec : Codec) (data : Bytes) : Decoded CommittedEntityMutation UInt8 :=
  match readLe64 data with
  | none => .finished
  | some (len, data) =>
    if data.length < len then .panicked
    else match codec.decodeCommitted (data.take len) with
      | none => .panicked
      | some m => .item m (data.drop len)

def compare (a b : CommittedEntityMutation) : Ordering :=
  match cmp a.mutation.entityId b.mutation.entityId with
  | .lt => .lt
  | .gt => .gt
  | .eq => match cmp a.blockOffset b.blockOffset with
    | .lt => .lt
    | .gt => .gt
    | .eq => cmp a.operationId b.operationId

def sortable (codec : Codec) : Sortable CommittedEntityMutation UInt8 :=
  ⟨encode codec, decode codec, compare⟩

end SortableMutation

/-- The codec and the sort that come with other crates, and the order of the traits in their map. -/
structure Env where
  codec : Codec
  sorter : ExternalSorter UInt8
  order : Traits → List ((_ : TraitId) × TraitAggregator)
  order_perm : ∀ traits, (order traits).Perm traits.entries

section Mutations
variable [Crates]

/-- Only the entries hold mutations. -/
def operationMutations (codec : Codec) (block : DataBlock) (operation : OperationFrame) :
    Res IteratorError (List CommittedEntityMutation) := do
  let reader ← liftError .operation operation.getReader
  match reader.operation with
  | .entry data =>
    let data ← orError .serialization data
    let mutation ← orError .proto (codec.decode data)
    pure [⟨Fin.ofNat _ block.offset, Fin.ofNat _ reader.operationId, mutation⟩]
  | .notInSchema _ => .error (.error .serialization)
  | _ => pure []

def operationsMutations (codec : Codec) (block : DataBlock) :
    List OperationFrame → Res IteratorError (List CommittedEntityMutation)
  | [] => pure []
  | operation :: rest => do
    let mutations ← operationMutations codec block operation
    let more ← operationsMutations codec block rest
    pure (mutations ++ more)

def extractBlockMutations (codec : Codec) (block : Res ChainError DataBlock) :
    Res IteratorError (List CommittedEntityMutation) := do
  let block ← liftError .chain block
  let operations ← liftError .block block.operations
  operationsMutations codec block operations

/-- The blocks are read up to the first one that fails. -/
def extractMutations (codec : Codec) :
    List (Res ChainError DataBlock) → Res IteratorError (List CommittedEntityMutation)
  | [] => pure []
  | block :: rest => do
    let mutations ← extractBlockMutations codec block
    let more ← extractMutations codec rest
    pure (mutations ++ more)

/-- The mutations that the iterator yields. -/
def ChainEntityMutationIterator.new (env : Env) (chainStore : DirectoryChainStore) :
    Res IteratorError (List CommittedEntityMutation) := do
  let mutations ← extractMutations env.codec (chainStore.blocksIter 0)
  pure (env.sorter.sortBy (SortableMutation.sortable env.codec) mutations)

end Mutations

/-! ## The entities -/

/-- `Trait`, with the dates and the operation of its aggregator. -/
structure EntityTrait where
  id : TraitId
  message : Option TraitMessage
  creationDate : Option DateTime
  modificationDate : Option DateTime
  deletionDate : Option DateTime
  lastOperationId : OperationId
deriving DecidableEq

structure Entity where
  id : String
  traits : List EntityTrait
  creationDate : Option DateTime
  modificationDate : Option DateTime
  deletionDate : Option DateTime
  lastOperationId : OperationId
deriving DecidableEq

def noMutation : String := "no entity mutation"

def noTrait : String := "no trait in PutTrait mutation"

/-- None where the mutation is none that the aggregator is for. -/
def entityToMutationMetadata (m : CommittedEntityMutation) :
    Res IteratorError (Option MutationMetadata) :=
  let metadata (mutationType : MutationType) : MutationMetadata :=
    ⟨m.operationId, some m.blockOffset, m.mutation.entityId, mutationType⟩
  match m.mutation.mutation with
  | none => .error (.error (.other noMutation))
  | some (.putTrait none) => .error (.error (.other noTrait))
  | some (.putTrait (some trt)) => pure (some (metadata (.traitPut
      ⟨trt.id, none, trt.creationDate, trt.modificationDate, false⟩)))
  | some (.deleteTrait traitId) => pure (some (metadata (.traitTombstone traitId)))
  | some .deleteEntity => pure (some (metadata .entityTombstone))
  | some (.deleteOperations _) | some .test => pure none

abbrev TraitContents := AList fun _ : OperationId => Trait

/-- The variables of the loop over the mutations of an entity. -/
structure Gathered where
  entityId : String
  buffer : List MutationMetadata
  traits : TraitContents

namespace Gathered

def start : Gathered := ⟨"", [], ∅⟩

def take (g : Gathered) (m : CommittedEntityMutation) (metadata : Option MutationMetadata) :
    Gathered :=
  match metadata with
  | none => g
  | some metadata =>
    { g with
      buffer := g.buffer ++ [metadata]
      traits := match m.mutation.mutation with
        | some (.putTrait (some trt)) => g.traits.insert m.operationId trt
        | _ => g.traits }

/-- The mutations up to the first one of another entity, and those that are left. -/
def gather : Gathered → List CommittedEntityMutation →
    Res IteratorError Gathered × List CommittedEntityMutation
  | g, [] => (.ok g, [])
  | g, next :: rest =>
    if g.entityId ≠ "" ∧ g.entityId ≠ next.mutation.entityId then (.ok g, next :: rest)
    else
      let g := if g.entityId = "" then { g with entityId := next.mutation.entityId } else g
      match entityToMutationMetadata next with
      | .error e => (.error e, rest)
      | .ok metadata => gather (g.take next metadata) rest

end Gathered

def exportTrait (agg : TraitAggregator) (trt : Trait) : EntityTrait where
  id := trt.id
  message := trt.message
  creationDate := agg.creationDate
  modificationDate := agg.modificationDate
  deletionDate := agg.deletionDate
  lastOperationId := agg.lastOperationId.getD 0

/-- The trait of the last put is taken out of the contents. -/
def exportTraits : List ((_ : TraitId) × TraitAggregator) → TraitContents → List EntityTrait
  | [], _ => []
  | entry :: rest, traits => match entry.2.lastPutMutation with
    | none => exportTraits rest traits
    | some (m, _) => match traits.lookup m.operationId with
      | none => exportTraits rest traits
      | some trt => exportTrait entry.2 trt :: exportTraits rest (traits.erase m.operationId)

namespace ChainEntityIterator

/-- The entity behind the mutations, none at the end of them, and the mutations that are left. -/
def extractNextEntity (env : Env) (mutations : List CommittedEntityMutation) :
    Res IteratorError (Option Entity) × List CommittedEntityMutation :=
  match Gathered.start.gather mutations with
  | (.error e, rest) => (.error e, rest)
  | (.ok g, rest) =>
    if g.entityId = "" then (.ok none, rest)
    else match EntityAggregator.new g.buffer with
      | none => (.error .panic, rest)
      | some aggr => (.ok (some
          { id := g.entityId
            traits := exportTraits (env.order aggr.traits) g.traits
            creationDate := aggr.creationDate
            modificationDate := aggr.modificationDate
            deletionDate := aggr.deletionDate
            lastOperationId := aggr.lastOperationId }), rest)

def next (env : Env) (mutations : List CommittedEntityMutation) :
    Option (Res IteratorError Entity) × List CommittedEntityMutation :=
  match extractNextEntity env mutations with
  | (.ok none, rest) => (none, rest)
  | (.ok (some entity), rest) => (some (.ok entity), rest)
  | (.error e, rest) => (some (.error e), rest)

/-- What the iterator yields until its end. -/
inductive Yields (env : Env) :
    List CommittedEntityMutation → List (Res IteratorError Entity) → Prop where
  | finished {mutations rest : List CommittedEntityMutation}
      (hnext : next env mutations = (none, rest)) : Yields env mutations []
  | item {mutations rest : List CommittedEntityMutation} {entity : Res IteratorError Entity}
      {more : List (Res IteratorError Entity)} (hnext : next env mutations = (some entity, rest))
      (hmore : Yields env rest more) : Yields env mutations (entity :: more)

end ChainEntityIterator

end Exocore.Store.Export
