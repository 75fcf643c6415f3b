import Exocore.StoreSchemaMapped

/-! What is written of a message goes into the fields that its dotted names are mapped to; and where
the schema is built and matches it. -/
namespace Exocore.Store.Schema

open SortedMap Dotted

variable {registry : Registry} {known : WellKnown}

/-! ## The values at the dotted names of a message -/

/-- The messages that are in a message, with the names that lead to them. -/
inductive InValue (registry : Registry) (root : ReflectMessageDescriptor) (message : RawMessage) :
    Option Name → ReflectMessageDescriptor → RawMessage → Prop where
  | top : InValue registry root message none root message
  | nested {parent : Option Name} {desc subDesc : ReflectMessageDescriptor}
      {outer sub : RawMessage} {field : FieldDescriptor} {msgType : Name}
      (hin : InValue registry root message parent desc outer) (hfield : field ∈ desc.fields)
      (hvalue : getFieldValue desc outer field.id = some (.message msgType sub))
      (hsub : registry.getMessageDescriptor msgType = some subDesc) :
      InValue registry root message (some (MsgFields.nestedName parent field.name)) subDesc sub

/-- A field of a message, or of one in it, with its dotted name and the value that it has. -/
def ValueAt (registry : Registry) (root : ReflectMessageDescriptor) (message : RawMessage)
    (name : Name) (field : FieldDescriptor) (value : FieldValue) : Prop :=
  ∃ parent desc outer, InValue registry root message parent desc outer ∧ field ∈ desc.fields ∧
    name = MsgFields.nestedName parent field.name ∧ getFieldValue desc outer field.id = some value

variable {root : ReflectMessageDescriptor} {message : RawMessage}

/-- A value is of the type of its field. -/
theorem getFieldValue_converts {desc : ReflectMessageDescriptor} {outer : RawMessage}
    {field : FieldDescriptor} {value : FieldValue} (hmem : field ∈ desc.fields)
    (h : getFieldValue desc outer field.id = some value) :
    ∃ raw, convertFieldRef field.fieldType raw = some value := by
  simp only [getFieldValue, desc.find_of_mem hmem, Option.bind_eq_bind, Option.bind_some] at h
  obtain ⟨raw, -, hraw⟩ := Option.bind_eq_some_iff.mp h
  exact ⟨raw, hraw⟩

theorem InValue.inMessage {parent : Option Name} {desc : ReflectMessageDescriptor}
    {outer : RawMessage} (h : InValue registry root message parent desc outer) :
    InMessage registry root parent desc := by
  induction h with
  | top => exact InMessage.top
  | nested _ hfield hvalue hsub ih =>
    obtain ⟨raw, hraw⟩ := getFieldValue_converts hfield hvalue
    exact InMessage.nested ih hfield (convertFieldRef_message hraw).1 hsub

theorem ValueAt.at {name : Name} {field : FieldDescriptor} {value : FieldValue}
    (h : ValueAt registry root message name field value) : At registry root name field := by
  obtain ⟨parent, desc, outer, hin, hfield, hname, -⟩ := h
  exact ⟨parent, desc, hin.inMessage, hfield, hname⟩

/-! ## The entries of a message -/

section Entries
variable {mappings : Map Name MappedDynamicField} {e : DocEntry}

/-- The field has a message that is gone into, or a value for a name that is mapped. -/
theorem mem_fieldEntries_iff {desc : ReflectMessageDescriptor} {outer : RawMessage}
    {parent : Option Name} {field : FieldDescriptor} :
    e ∈ fieldEntries registry known mappings desc outer parent field ↔
      (∃ msgType sub subDesc, getFieldValue desc outer field.id = some (.message msgType sub) ∧
        registry.getMessageDescriptor msgType = some subDesc ∧ ∃ f ∈ subDesc.fields,
          e ∈ fieldEntries registry known mappings subDesc sub
            (some (MsgFields.nestedName parent field.name)) f) ∨
      (∃ value mapped, getFieldValue desc outer field.id = some value ∧
        mappings.get (MsgFields.nestedName parent field.name) = some mapped ∧
        e ∈ valueEntries known (MsgFields.nestedName parent field.name) field mapped.field
          value) := by
  rw [fieldEntries]
  cases hvalue : getFieldValue desc outer field.id with
  | none => simp
  | some value => cases value with
    | message msgType sub =>
      -- a message has no entry of its own, whatever its name is mapped to
      cases hsub : registry.getMessageDescriptor msgType with
      | none => simp [valueEntries, hsub]
      | some subDesc => simp [valueEntries, hsub]
    | _ => cases mappings.get (MsgFields.nestedName parent field.name) <;> simp

theorem exists_valueAt_of_mem {parent : Option Name} {desc : ReflectMessageDescriptor}
    {outer : RawMessage} (hin : InValue registry root message parent desc outer)
    {field : FieldDescriptor} (hfield : field ∈ desc.fields)
    (he : e ∈ fieldEntries registry known mappings desc outer parent field) :
    ∃ name f value mapped, ValueAt registry root message name f value ∧
      mappings.get name = some mapped ∧ e ∈ valueEntries known name f mapped.field value := by
  -- a message that is gone into is a part of the one that it is in
  induction hsize : sizeOf outer using Nat.strong_induction_on
    generalizing parent desc outer field with
  | _ size ih =>
    rcases mem_fieldEntries_iff.mp he with
      ⟨msgType, sub, subDesc, hvalue, hsub, f, hf, he⟩ | ⟨value, mapped, hvalue, hmapped, he⟩
    · have hsmaller : sizeOf sub < size := hsize ▸ sizeOf_getFieldValue hvalue
      exact ih (sizeOf sub) hsmaller (hin.nested hfield hvalue hsub) hf he rfl
    · exact ⟨_, field, value, mapped, ⟨parent, desc, outer, hin, hfield, rfl, hvalue⟩, hmapped, he⟩

/-- The entries of a message in the message are entries of the message. -/
theorem InValue.mem_entries {parent : Option Name} {desc : ReflectMessageDescriptor}
    {outer : RawMessage} (hin : InValue registry root message parent desc outer)
    {field : FieldDescriptor} (hfield : field ∈ desc.fields)
    (he : e ∈ fieldEntries registry known mappings desc outer parent field) :
    e ∈ root.fields.flatMap (fieldEntries registry known mappings root message none) := by
  induction hin generalizing field with
  | top => exact List.mem_flatMap.mpr ⟨field, hfield, he⟩
  | @nested parent desc subDesc outer sub outerField msgType hin houter hvalue hsub ih =>
    apply ih houter
    exact mem_fieldEntries_iff.mpr (Or.inl ⟨msgType, sub, subDesc, hvalue, hsub, field, hfield, he⟩)

/-- The entries are those of the values at the names that are mapped. -/
theorem mem_entries_iff :
    e ∈ root.fields.flatMap (fieldEntries registry known mappings root message none) ↔
      ∃ name field value mapped, ValueAt registry root message name field value ∧
        mappings.get name = some mapped ∧ e ∈ valueEntries known name field mapped.field value := by
  constructor
  · intro he
    obtain ⟨field, hfield, he⟩ := List.mem_flatMap.mp he
    exact exists_valueAt_of_mem InValue.top hfield he
  · rintro ⟨name, field, value, mapped, hat, hmapped, he⟩
    obtain ⟨parent, desc, outer, hin, hfield, rfl, hvalue⟩ := hat
    apply hin.mem_entries hfield
    exact mem_fieldEntries_iff.mpr (Or.inr ⟨value, mapped, hvalue, hmapped, he⟩)

end Entries

/-- The kind of the values that a field type has. -/
def FieldType.kind : FieldType → FieldKind
  | .uint64 | .uint32 | .dateTime => .u64
  | .int64 | .int32 => .i64
  | .string | .reference | .message _ | .repeated _ => .text

/-- A field is only mapped to pools of its kind, and where a flag is set by which its value is
written. -/
theorem pools_kind {field : FieldDescriptor} {pool : Pool} (hpool : pool ∈ MsgFields.pools field) :
    pool.kind = field.fieldType.kind ∧
      match field.fieldType with
      | .string => (field.textFlag || field.indexedFlag) = true
      | .reference => field.indexedFlag = true
      | .message _ | .repeated _ => False
      | _ => (field.indexedFlag || field.sortedFlag) = true := by
  rw [MsgFields.pools] at hpool
  cases htype : field.fieldType <;> rw [htype] at hpool <;> dsimp only at hpool <;>
    grind [Pool.kind, FieldType.kind]

/-- A mapped value is written to its field, and it may be written to one of those that are shared as
well. -/
theorem valueEntries_of_pool (known : WellKnown) (name : Name) {field : FieldDescriptor}
    (mapped : Field) {value : FieldValue} {raw : RawValue} {pool : Pool}
    (hconvert : convertFieldRef field.fieldType raw = some value)
    (hpool : pool ∈ MsgFields.pools field) :
    ∃ written shared, written.kind = pool.kind ∧
      valueEntries known name field mapped value = ⟨name, mapped, written⟩ :: shared ∧
      ∀ e ∈ shared, e.value.kind = .text ∧
        (e.field = MutationIndexSchema.allText ∨ e.field = MutationIndexSchema.allRefs) := by
  obtain ⟨hkind, hflag⟩ := pools_kind hpool
  rw [hkind]
  have hnone : ∀ e ∈ ([] : List DocEntry), e.value.kind = .text ∧
      (e.field = MutationIndexSchema.allText ∨ e.field = MutationIndexSchema.allRefs) :=
    fun e he => absurd he List.not_mem_nil
  cases htype : field.fieldType with
  | string =>
    rw [htype] at hflag hconvert
    cases raw <;> cases hconvert
    rw [valueEntries]
    by_cases htext : field.textFlag = true
    · rw [if_pos htext]
      refine ⟨_, _, rfl, rfl, fun e he => ?_⟩
      obtain rfl := List.mem_singleton.mp he
      exact ⟨rfl, Or.inl rfl⟩
    · have hindexed : field.indexedFlag = true :=
        (Bool.or_eq_true_iff.mp hflag).resolve_left htext
      rw [if_neg htext, if_pos hindexed]
      exact ⟨_, _, rfl, rfl, hnone⟩
  | reference =>
    rw [htype] at hflag hconvert
    cases raw <;> cases hconvert
    rw [valueEntries, if_pos hflag]
    refine ⟨_, _, rfl, rfl, fun e he => ?_⟩
    obtain rfl := List.mem_singleton.mp he
    exact ⟨rfl, Or.inr rfl⟩
  | message | repeated =>
    rw [htype] at hflag
    exact hflag.elim
  | _ =>
    rw [htype] at hflag hconvert
    cases raw <;> cases hconvert
    rw [valueEntries, if_pos hflag]
    exact ⟨_, _, rfl, rfl, hnone⟩

/-! ## The document of a message -/

namespace MutationIndexSchema

variable {s : MutationIndexSchema} {fullName : Name} {e : DocEntry}

theorem mem_document (h : e ∈ s.traitMessageToDocument registry known fullName message) :
    ∃ desc mapping, registry.getMessageDescriptor fullName = some desc ∧
      s.dynamicFields.get fullName = some mapping ∧
      (e ∈ desc.fields.flatMap (fieldEntries registry known mapping desc message none) ∨
        e = ⟨[], hasReference, .u64 1⟩) := by
  rw [traitMessageToDocument] at h
  cases hdesc : registry.getMessageDescriptor fullName with
  | none =>
    rw [hdesc] at h
    exact absurd h List.not_mem_nil
  | some desc =>
    have hname : desc.name = fullName := (Registry.mem_of_getMessageDescriptor hdesc).2
    simp only [hdesc, hname] at h
    cases hmapping : s.dynamicFields.get fullName with
    | none =>
      rw [hmapping] at h
      exact absurd h List.not_mem_nil
    | some mapping =>
      simp only [hmapping] at h
      refine ⟨desc, mapping, rfl, rfl, ?_⟩
      split_ifs at h with hany
      · rcases List.mem_append.mp h with h | h
        · exact Or.inl h
        · exact Or.inr (List.mem_singleton.mp h)
      · exact Or.inl h

theorem mem_document_of_entries {desc : ReflectMessageDescriptor}
    {mapping : Map Name MappedDynamicField}
    (hdesc : registry.getMessageDescriptor fullName = some desc)
    (hmapping : s.dynamicFields.get fullName = some mapping)
    (h : e ∈ desc.fields.flatMap (fieldEntries registry known mapping desc message none)) :
    e ∈ s.traitMessageToDocument registry known fullName message := by
  have hname : desc.name = fullName := (Registry.mem_of_getMessageDescriptor hdesc).2
  rw [traitMessageToDocument]
  simp only [hdesc, hname, hmapping]
  split_ifs with hany
  · exact List.mem_append_left _ h
  · exact h

/-- What the schema of a registry promises of the fields that it maps. -/
structure Matches (registry : Registry) (s : MutationIndexSchema) : Prop where
  /-- Two dotted names of a type do not share a field. -/
  distinct : ∀ traitName mapping, s.dynamicFields.get traitName = some mapping →
    ∀ name name' mapped mapped', mapping.get name = some mapped →
      mapping.get name' = some mapped' → mapped.field = mapped'.field → name = name'
  /-- Every field gets values of its kind. -/
  kinds : ∀ known fullName message,
    ∀ e ∈ s.traitMessageToDocument registry known fullName message,
      s.tantivy[e.field]? = some e.value.kind
  /-- What goes to a mapped field is of the value that has the dotted name that it is mapped by. -/
  names : ∀ known fullName message,
    ∀ e ∈ s.traitMessageToDocument registry known fullName message,
      e.field ∈ [allText, allRefs, hasReference] ∨ ∃ desc mapping mapped field value,
        registry.getMessageDescriptor fullName = some desc ∧
        s.dynamicFields.get fullName = some mapping ∧ mapping.get e.name = some mapped ∧
        mapped.field = e.field ∧ mapped.fieldType = field.fieldType ∧
        ValueAt registry desc message e.name field value ∧
        e ∈ valueEntries known e.name field mapped.field value
  /-- A value at a name that is mapped is written to its field. -/
  written : ∀ known fullName message desc mapping name mapped field value,
    registry.getMessageDescriptor fullName = some desc →
    s.dynamicFields.get fullName = some mapping → mapping.get name = some mapped →
    ValueAt registry desc message name field value →
      ∃ e ∈ s.traitMessageToDocument registry known fullName message,
        e.name = name ∧ e.field = mapped.field
  /-- A lookup finds the names that are the one asked for or go on with a dot. -/
  lookups : ∀ traitName mapping, s.dynamicFields.get traitName = some mapping →
    ∀ fieldOrPrefix, s.getDynamicTraitFieldPrefix traitName fieldOrPrefix =
      .ok ((mapping.entries.filter fun e => Within '.' fieldOrPrefix e.1).map Prod.snd)

/-- The fields behind a schema, those that its mappings were taken from. -/
structure Laid (registry : Registry) (s : MutationIndexSchema) (dynFields : DynamicFields) :
    Prop where
  fields : dynFields.Sound s.tantivy
  base : baseFields <+: s.tantivy
  mappings : MappingsSound registry dynFields s.dynamicFields

theorem new_laid {config : MutationIndexConfig} {fuel : ℕ}
    (h : new config registry fuel = some s) : ∃ dynFields, Laid registry s dynFields := by
  obtain ⟨mappings, hbuild, rfl⟩ := Option.map_eq_some_iff.mp h
  obtain ⟨hdyn, hbase⟩ := DynamicFields.new_sound config baseFields
  exact ⟨_, hdyn, hbase, buildMappings_sound hdyn fuel hbuild⟩

section Laid
variable {dynFields : DynamicFields} (hlaid : Laid registry s dynFields)
include hlaid

theorem Laid.base_kind {f : Field} {kind : FieldKind} (hf : baseFields[f]? = some kind) :
    s.tantivy[f]? = some kind := by
  obtain ⟨rest, hrest⟩ := hlaid.base
  rw [← hrest, List.getElem?_append_left (List.getElem?_eq_some_iff.mp hf).1]
  exact hf

/-- A value at a mapped name goes to a field of a pool for it. -/
theorem Laid.valueEntries {desc : ReflectMessageDescriptor}
    {mapping : Map Name MappedDynamicField} {name : Name} {mapped : MappedDynamicField}
    {field : FieldDescriptor} {value : FieldValue} (known : WellKnown)
    (hdesc : registry.getMessageDescriptor fullName = some desc)
    (hmapping : s.dynamicFields.get fullName = some mapping)
    (hget : mapping.get name = some mapped)
    (hvalue : ValueAt registry desc message name field value) :
    mapped.fieldType = field.fieldType ∧ ∃ written shared,
      s.tantivy[mapped.field]? = some written.kind ∧
      valueEntries known name field mapped.field value = ⟨name, mapped.field, written⟩ :: shared ∧
      ∀ e ∈ shared, e.value.kind = .text ∧ (e.field = allText ∨ e.field = allRefs) := by
  obtain ⟨desc', m, hdesc', hm, rfl⟩ := hlaid.mappings fullName mapping hmapping
  obtain rfl := Option.some.inj (hdesc.symm.trans hdesc')
  obtain ⟨field', pool, hat, hpool, htype, i, -, htaken⟩ := hm.taken name mapped hget
  obtain rfl := hat.unique hvalue.at
  obtain ⟨parent, outerDesc, outer, -, hfield, -, hread⟩ := hvalue
  obtain ⟨raw, hraw⟩ := getFieldValue_converts hfield hread
  obtain ⟨written, shared, hkind, hentries, hshared⟩ :=
    valueEntries_of_pool known name mapped.field hraw hpool
  have hslot := hlaid.fields.kind pool i mapped.field htaken
  exact ⟨htype, written, shared, hkind ▸ hslot, hentries, hshared⟩

/-- An entry is for one of the shared fields, or for the field that its name is mapped to. -/
theorem Laid.document_cases (h : e ∈ s.traitMessageToDocument registry known fullName message) :
    s.tantivy[e.field]? = some e.value.kind ∧
      (e.field ∈ [allText, allRefs, hasReference] ∨ ∃ desc mapping mapped field value,
        registry.getMessageDescriptor fullName = some desc ∧
        s.dynamicFields.get fullName = some mapping ∧ mapping.get e.name = some mapped ∧
        mapped.field = e.field ∧ mapped.fieldType = field.fieldType ∧
        ValueAt registry desc message e.name field value ∧
        e ∈ Schema.valueEntries known e.name field mapped.field value) := by
  obtain ⟨desc, mapping, hdesc, hmapping, he⟩ := mem_document h
  rcases he with he | rfl
  · obtain ⟨name, field, value, mapped, hvalue, hget, he⟩ := mem_entries_iff.mp he
    obtain ⟨htype, written, shared, hkind, hentries, hshared⟩ :=
      hlaid.valueEntries known hdesc hmapping hget hvalue
    have hmem := he
    rw [hentries] at hmem
    rcases List.mem_cons.mp hmem with rfl | hmem
    · exact ⟨hkind, Or.inr ⟨desc, mapping, mapped, field, value, hdesc, hmapping, hget, rfl, htype,
        hvalue, he⟩⟩
    · obtain ⟨htext, hfield⟩ := hshared e hmem
      rw [htext]
      rcases hfield with hfield | hfield
      · rw [hfield]
        exact ⟨hlaid.base_kind rfl, Or.inl List.mem_cons_self⟩
      · rw [hfield]
        exact ⟨hlaid.base_kind rfl, Or.inl (List.mem_cons_of_mem _ List.mem_cons_self)⟩
  · have hlast : hasReference ∈ [allText, allRefs, hasReference] :=
      List.mem_cons_of_mem _ (List.mem_cons_of_mem _ List.mem_cons_self)
    exact ⟨hlaid.base_kind rfl, Or.inl hlast⟩

theorem Laid.lookups {traitName : Name} {mapping : Map Name MappedDynamicField}
    (hget : s.dynamicFields.get traitName = some mapping) (fieldOrPrefix : Name) :
    s.getDynamicTraitFieldPrefix traitName fieldOrPrefix =
      .ok ((mapping.entries.filter fun e => Within '.' fieldOrPrefix e.1).map Prod.snd) := by
  obtain ⟨desc, m, -, hm, rfl⟩ := hlaid.mappings traitName mapping hget
  have hdot : ∀ e ∈ m.mapping.entries, ∀ c ∈ e.1, ¬ c < '.' := by
    intro e he
    have hentry := (Map.mem_entries_iff m.mapping e.1 e.2).mp he
    obtain ⟨field, -, ⟨parent, inner, hin, -, hname⟩, -⟩ := hm.taken e.1 e.2 hentry
    rw [hname]
    exact hin.not_lt_dot field
  rw [getDynamicTraitFieldPrefix, traitFields, hget]
  have hscan := takeWhile_within Prod.fst fieldOrPrefix m.mapping.entries m.mapping.sorted hdot
  exact congrArg (fun found => Except.ok (found.map Prod.snd)) hscan

theorem Laid.matches : Matches registry s := by
  constructor
  · intro traitName mapping hget
    obtain ⟨desc, m, -, hm, rfl⟩ := hlaid.mappings traitName mapping hget
    exact hm.distinct
  · intro known fullName message e he
    exact (hlaid.document_cases he).1
  · intro known fullName message e he
    exact (hlaid.document_cases he).2
  · intro known fullName message desc mapping name mapped field value hdesc hmapping hget hvalue
    obtain ⟨-, written, shared, -, hentries, -⟩ :=
      hlaid.valueEntries known hdesc hmapping hget hvalue
    have hentry : ⟨name, mapped.field, written⟩ ∈
        Schema.valueEntries known name field mapped.field value := by
      rw [hentries]
      exact List.mem_cons_self
    have hdoc := mem_document_of_entries hdesc hmapping
      (mem_entries_iff.mpr ⟨name, field, value, mapped, hvalue, hget, hentry⟩)
    exact ⟨_, hdoc, rfl, rfl⟩
  · intro traitName mapping hget fieldOrPrefix
    exact hlaid.lookups hget fieldOrPrefix

end Laid

/-- The schema is built and matches the registry exactly where no message type leads back to itself
by message fields with a flag. -/
theorem built_and_matches_iff (config : MutationIndexConfig) (registry : Registry) :
    ((∃ fuel, (new config registry fuel).isSome) ∧
      ∀ fuel s, new config registry fuel = some s → Matches registry s) ↔
      ¬ ∃ desc, Relation.TransGen (Nests registry) desc desc := by
  rw [← exists_new_iff config registry]
  constructor
  · intro h
    exact h.1
  · intro h
    refine ⟨h, fun fuel s hnew => ?_⟩
    obtain ⟨dynFields, hlaid⟩ := new_laid hnew
    exact hlaid.matches

/-- A message that may have one of its own type as its child. -/
def nodeDescriptor : ReflectMessageDescriptor where
  name := ['N', 'o', 'd', 'e']
  fields := [
    { id := 1
      name := ['c', 'h', 'i', 'l', 'd']
      fieldType := .message ['N', 'o', 'd', 'e']
      indexedFlag := true
      sortedFlag := false
      textFlag := false
      identifier := List.all_eq_true.mp (by decide +kernel) }]
  distinctIds := by decide +kernel
  distinctNames := by decide +kernel

def nodeRegistry : Registry := ⟨[nodeDescriptor], List.nodup_singleton _⟩

/-- However long the schema of such a message is built, it is not done. -/
theorem node_never_built :
    ¬ ((∃ fuel, (new (fun _ => 1) nodeRegistry fuel).isSome) ∧
      ∀ fuel s, new (fun _ => 1) nodeRegistry fuel = some s → Matches nodeRegistry s) := by
  rintro ⟨⟨fuel, hbuilt⟩, -⟩
  have hnests : Nests nodeRegistry nodeDescriptor nodeDescriptor :=
    ⟨_, List.mem_cons_self, rfl, _, rfl, rfl⟩
  have hterm := (exists_new_iff (fun _ => 1) nodeRegistry).mp ⟨fuel, hbuilt⟩
  exact hterm ⟨nodeDescriptor, Relation.TransGen.single hnests⟩

end MutationIndexSchema

end Exocore.Store.Schema
