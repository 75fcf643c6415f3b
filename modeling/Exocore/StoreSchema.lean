import Mathlib.Data.Char
import Mathlib.Logic.Function.Basic
import Exocore.LibDotted
import Exocore.LibSortedMap

/-! The schema of the mutation index: fields are allocated in advance, and those of the registered
messages are mapped to them; and the fields of a document that a message is written to. -/
namespace Exocore.Store.Schema

open SortedMap Dotted

abbrev Name := List Char

/-! ## The registry -/

inductive FieldType where
  | string
  | int32
  | uint32
  | int64
  | uint64
  | dateTime
  | reference
  | message (msgType : Name)
  | repeated (inner : FieldType)
deriving DecidableEq

/-- A field of a message, with a protobuf identifier as its name. -/
structure FieldDescriptor where
  id : ℕ
  name : Name
  fieldType : FieldType
  indexedFlag : Bool
  sortedFlag : Bool
  textFlag : Bool
  identifier : ∀ c ∈ name, (c.isAlphanum || c = '_') = true

/-- The fields are in the order in which their map gives them. -/
structure ReflectMessageDescriptor where
  name : Name
  fields : List FieldDescriptor
  distinctIds : (fields.map FieldDescriptor.id).Nodup
  distinctNames : (fields.map FieldDescriptor.name).Nodup

structure Registry where
  messageDescriptors : List ReflectMessageDescriptor
  distinct : (messageDescriptors.map ReflectMessageDescriptor.name).Nodup

def Registry.getMessageDescriptor (registry : Registry) (fullName : Name) :
    Option ReflectMessageDescriptor :=
  registry.messageDescriptors.find? fun desc => desc.name = fullName

/-! ## The fields of the index -/

inductive FieldKind where
  | text
  | u64
  | i64
deriving DecidableEq

/-- A field is numbered by its place among those that were added. -/
abbrev Field := ℕ

abbrev SchemaBuilder := List FieldKind

/-- The lists of fields that are allocated in advance. -/
inductive Pool where
  | reference
  | text
  | string
  | i64
  | i64Fast
  | u64
  | u64Fast
deriving DecidableEq

def Pool.all : List Pool := [.reference, .text, .string, .i64, .i64Fast, .u64, .u64Fast]

def Pool.kind : Pool → FieldKind
  | .reference | .text | .string => .text
  | .i64 | .i64Fast => .i64
  | .u64 | .u64Fast => .u64

def Pool.isFast (pool : Pool) : Bool := pool = .i64Fast || pool = .u64Fast

/-- How many fields are allocated for each pool. -/
abbrev MutationIndexConfig := Pool → ℕ

def addFields (kind : FieldKind) : ℕ → SchemaBuilder → List Field × SchemaBuilder
  | 0, builder => ([], builder)
  | n + 1, builder =>
    let (fields, grown) := addFields kind n (builder ++ [kind])
    (builder.length :: fields, grown)

abbrev DynamicFields := Pool → List Field

namespace DynamicFields

/-- The pools are filled one after the other. -/
def allocate (config : MutationIndexConfig) :
    List Pool → DynamicFields × SchemaBuilder → DynamicFields × SchemaBuilder
  | [], s => s
  | pool :: rest, (dynFields, builder) =>
    let (fields, builder) := addFields pool.kind (config pool) builder
    allocate config rest (Function.update dynFields pool fields, builder)

def new (config : MutationIndexConfig) (builder : SchemaBuilder) : DynamicFields × SchemaBuilder :=
  allocate config Pool.all (fun _ => [], builder)

end DynamicFields

structure MappedDynamicField where
  field : Field
  fieldType : FieldType
  isFastField : Bool
deriving DecidableEq

/-- The mapping of a message type, and how many fields of each pool it has taken. -/
structure MsgFields where
  mapping : Map Name MappedDynamicField
  count : Pool → ℕ

namespace MsgFields

def default : MsgFields := ⟨.empty, fun _ => 0⟩

/-- Maps a name to the next field of a pool, none where the pool has no more. -/
def take (dynFields : DynamicFields) (pool : Pool) (fieldName : Name) (ft : FieldType)
    (m : MsgFields) : Option MsgFields :=
  (dynFields pool)[m.count pool]?.map fun field =>
    ⟨m.mapping.insert fieldName ⟨field, ft, pool.isFast⟩,
      Function.update m.count pool (m.count pool + 1)⟩

/-- The pools that a field may be mapped to, the first that has a field is taken. -/
def pools (field : FieldDescriptor) : List Pool :=
  match field.fieldType with
  | .uint64 | .uint32 | .dateTime =>
    (if field.sortedFlag then [.u64Fast] else []) ++ if field.indexedFlag then [.u64] else []
  | .int64 | .int32 =>
    (if field.sortedFlag then [.i64Fast] else []) ++ if field.indexedFlag then [.i64] else []
  | .reference => if field.indexedFlag then [.reference] else []
  | .string =>
    (if field.textFlag then [.text] else []) ++ if field.indexedFlag then [.string] else []
  | .message _ | .repeated _ => []

/-- A field that no pool has a field for is left out. -/
def takeFirst (dynFields : DynamicFields) (fieldName : Name) (ft : FieldType) (m : MsgFields) :
    List Pool → MsgFields
  | [] => m
  | pool :: rest => match m.take dynFields pool fieldName ft with
    | some m => m
    | none => takeFirst dynFields fieldName ft m rest

/-- The name of a field in the message that it is nested in. -/
def nestedName (parent : Option Name) (name : Name) : Name :=
  match parent with
  | some parent => parent ++ '.' :: name
  | none => name

/-- The fields of a message field are added onto the outer message. None where there is no fuel left
for the nesting. -/
def addField (registry : Registry) (dynFields : DynamicFields) :
    ℕ → Option Name → FieldDescriptor → MsgFields → Option MsgFields
  | 0, _, _, _ => none
  | fuel + 1, parent, field, m =>
    if !field.indexedFlag && !field.textFlag && !field.sortedFlag then some m
    else
      let fieldName := nestedName parent field.name
      match field.fieldType with
      | .message msgType => match registry.getMessageDescriptor msgType with
        | some sub =>
          sub.fields.foldlM (fun m f => addField registry dynFields fuel (some fieldName) f m) m
        | none => some m
      | ft => some (takeFirst dynFields fieldName ft m (pools field))

end MsgFields

abbrev DynamicFieldsMapping := Map Name (Map Name MappedDynamicField)

/-- A message type without mapped fields has no mapping. -/
def buildMappings (registry : Registry) (dynFields : DynamicFields) (fuel : ℕ) :
    Option DynamicFieldsMapping :=
  registry.messageDescriptors.foldlM (fun mappings desc => do
    let m ← desc.fields.foldlM
      (fun m field => MsgFields.addField registry dynFields fuel none field m) .default
    return if m.mapping.entries.isEmpty then mappings else mappings.insert desc.name m.mapping)
    .empty

structure MutationIndexSchema where
  tantivy : List FieldKind
  dynamicFields : DynamicFieldsMapping

namespace MutationIndexSchema

/-- `trait_type`, `entity_id`, `trait_id` and `entity_trait_id`, the dates, `block_offset`,
`operation_id` and `document_type`, and those that follow here. -/
def baseFields : SchemaBuilder :=
  [.text, .text, .text, .text, .u64, .u64, .u64, .u64, .u64, .text, .text, .u64]

def allText : Field := 9

def allRefs : Field := 10

def hasReference : Field := 11

/-- None where the fuel does not last. -/
def new (config : MutationIndexConfig) (registry : Registry) (fuel : ℕ) :
    Option MutationIndexSchema :=
  let (dynFields, builder) := DynamicFields.new config baseFields
  (buildMappings registry dynFields fuel).map fun mappings => ⟨builder, mappings⟩

def traitFields (s : MutationIndexSchema) (traitName : Name) :
    Except String (Map Name MappedDynamicField) :=
  match s.dynamicFields.get traitName with
  | some fields => .ok fields
  | none => .error ("Trait '" ++ String.ofList traitName ++ "' doesn't have any dynamic fields")

/-- The names from this one on, as far as they are this one or go on with a dot. -/
def getDynamicTraitFieldPrefix (s : MutationIndexSchema) (traitName fieldOrPrefix : Name) :
    Except String (List MappedDynamicField) := do
  let fields ← s.traitFields traitName
  return ((fields.entries.dropWhile fun e => e.1 < fieldOrPrefix).takeWhile
    fun e => Within '.' fieldOrPrefix e.1).map Prod.snd

end MutationIndexSchema

/-! ## The document of a message -/

/-- What a message has for its fields, by their numbers. -/
inductive RawValue where
  | string (value : String)
  | i32 (value : ℤ)
  | u32 (value : ℕ)
  | i64 (value : ℤ)
  | u64 (value : ℕ)
  | message (fields : List (ℕ × RawValue))
  | repeated (values : List RawValue)
  | map

abbrev RawMessage := List (ℕ × RawValue)

inductive FieldValue where
  | string (value : String)
  | int32 (value : ℤ)
  | uint32 (value : ℕ)
  | int64 (value : ℤ)
  | uint64 (value : ℕ)
  | reference (message : RawMessage)
  | dateTime (message : RawMessage)
  | message (msgType : Name) (message : RawMessage)
  | repeated (values : List FieldValue)

def convertFieldValue : FieldType → RawValue → Option FieldValue
  | .string, .string value => some (.string value)
  | .int32, .i32 value => some (.int32 value)
  | .uint32, .u32 value => some (.uint32 value)
  | .int64, .i64 value => some (.int64 value)
  | .uint64, .u64 value => some (.uint64 value)
  | .dateTime, .message fields => some (.dateTime fields)
  | .reference, .message fields => some (.reference fields)
  | .message msgType, .message fields => some (.message msgType fields)
  | _, _ => none

def convertFieldRef : FieldType → RawValue → Option FieldValue
  | .repeated inner, .repeated values => (values.mapM (convertFieldValue inner)).map .repeated
  | fieldType, value => convertFieldValue fieldType value

/-- None for every error: the field is not set, or is not of its type. -/
def getFieldValue (desc : ReflectMessageDescriptor) (message : RawMessage) (id : ℕ) :
    Option FieldValue := do
  let field ← desc.fields.find? fun field => field.id = id
  let value ← message.lookup id
  convertFieldRef field.fieldType value

inductive DocValue where
  | text (value : String)
  | u64 (value : ℕ)
  | i64 (value : ℤ)

def DocValue.kind : DocValue → FieldKind
  | .text _ => .text
  | .u64 _ => .u64
  | .i64 _ => .i64

/-- What is written of the value of a field, with the name under which it is looked up. -/
structure DocEntry where
  name : Name
  field : Field
  value : DocValue

/-- How the time and the ids of a message are read: in nanoseconds, and as a text. -/
structure WellKnown where
  timestampNanos : RawMessage → ℕ
  referenceText : RawMessage → String

/-- Values of types that are not supported are left out. -/
def valueEntries (known : WellKnown) (name : Name) (field : FieldDescriptor) (mapped : Field) :
    FieldValue → List DocEntry
  | .string value =>
    if field.textFlag then
      [⟨name, mapped, .text value⟩, ⟨name, MutationIndexSchema.allText, .text value⟩]
    else if field.indexedFlag then [⟨name, mapped, .text value⟩]
    else []
  | .reference message =>
    if field.indexedFlag then
      [⟨name, mapped, .text (known.referenceText message)⟩,
        ⟨name, MutationIndexSchema.allRefs, .text (known.referenceText message)⟩]
    else []
  | .dateTime message =>
    if field.indexedFlag || field.sortedFlag then
      [⟨name, mapped, .u64 (known.timestampNanos message)⟩]
    else []
  | .int64 value | .int32 value =>
    if field.indexedFlag || field.sortedFlag then [⟨name, mapped, .i64 value⟩] else []
  | .uint64 value | .uint32 value =>
    if field.indexedFlag || field.sortedFlag then [⟨name, mapped, .u64 value⟩] else []
  | .message _ _ | .repeated _ => []

theorem convertFieldRef_message {fieldType : FieldType} {value : RawValue} {msgType : Name}
    {sub : RawMessage} (h : convertFieldRef fieldType value = some (.message msgType sub)) :
    fieldType = .message msgType ∧ value = .message sub := by
  cases fieldType <;> cases value <;> simp_all [convertFieldRef, convertFieldValue]

/-- A message in a message is a part of it. -/
theorem sizeOf_getFieldValue {desc : ReflectMessageDescriptor} {message : RawMessage} {id : ℕ}
    {msgType : Name} {sub : RawMessage}
    (h : getFieldValue desc message id = some (.message msgType sub)) :
    sizeOf sub < sizeOf message := by
  simp only [getFieldValue, Option.bind_eq_bind, Option.bind_eq_some_iff] at h
  obtain ⟨field, -, value, hlookup, hconvert⟩ := h
  obtain ⟨-, rfl⟩ := convertFieldRef_message hconvert
  have hmem : (id, RawValue.message sub) ∈ message := by
    obtain ⟨before, behind, rfl, -⟩ := List.lookup_eq_some_iff.mp hlookup
    exact List.mem_append_right before List.mem_cons_self
  have hsize := List.sizeOf_lt_of_mem hmem
  simp only [Prod.mk.sizeOf_spec, RawValue.message.sizeOf_spec] at hsize
  omega

/-- Message fields are always gone into, under the name of the field. -/
def fieldEntries (registry : Registry) (known : WellKnown) (mappings : Map Name MappedDynamicField)
    (desc : ReflectMessageDescriptor) (message : RawMessage) (parent : Option Name)
    (field : FieldDescriptor) : List DocEntry :=
  let fieldName := MsgFields.nestedName parent field.name
  match _hvalue : getFieldValue desc message field.id with
  | none => []
  | some (.message msgType sub) => match registry.getMessageDescriptor msgType with
    | some subDesc => subDesc.fields.flatMap fun f =>
        fieldEntries registry known mappings subDesc sub (some fieldName) f
    | none => []
  | some value => match mappings.get fieldName with
    | some mapped => valueEntries known fieldName field mapped.field value
    | none => []
termination_by sizeOf message
decreasing_by exact sizeOf_getFieldValue _hvalue

/-- A document that has a reference says so. -/
def MutationIndexSchema.traitMessageToDocument (s : MutationIndexSchema) (registry : Registry)
    (known : WellKnown) (fullName : Name) (message : RawMessage) : List DocEntry :=
  match registry.getMessageDescriptor fullName with
  | none => []
  | some desc => match s.dynamicFields.get desc.name with
    | none => []
    | some mappings =>
      let entries := desc.fields.flatMap (fieldEntries registry known mappings desc message none)
      if entries.any fun e => e.field = allRefs then entries ++ [⟨[], hasReference, .u64 1⟩]
      else entries

end Exocore.Store.Schema
