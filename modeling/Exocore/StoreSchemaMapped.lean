import Exocore.StoreSchemaFields

/-! The mapping of a message type gives each dotted name a field of its own, from a pool for the
type of the field that has the name; and where it is built. -/
namespace Exocore.Store.Schema

open SortedMap

variable {registry : Registry} {root : ReflectMessageDescriptor} {dynFields : DynamicFields}

namespace MsgFields

/-- What a name is mapped to was taken from a pool for the field that has the name. -/
def TakenFor (registry : Registry) (root : ReflectMessageDescriptor) (dynFields : DynamicFields)
    (count : Pool → ℕ) (name : Name) (mapped : MappedDynamicField) : Prop :=
  ∃ field pool, At registry root name field ∧ pool ∈ pools field ∧
    mapped.fieldType = field.fieldType ∧
    ∃ i < count pool, (dynFields pool)[i]? = some mapped.field

structure Sound (registry : Registry) (root : ReflectMessageDescriptor) (dynFields : DynamicFields)
    (m : MsgFields) : Prop where
  taken : ∀ name mapped, m.mapping.get name = some mapped →
    TakenFor registry root dynFields m.count name mapped
  distinct : ∀ name name' mapped mapped', m.mapping.get name = some mapped →
    m.mapping.get name' = some mapped' → mapped.field = mapped'.field → name = name'

theorem default_sound : Sound registry root dynFields default :=
  ⟨fun _ _ h => (by cases h), fun _ _ _ _ h => (by cases h)⟩

theorem Sound.take {builder : SchemaBuilder} (hdyn : dynFields.Sound builder) {m m' : MsgFields}
    {field : FieldDescriptor} {pool : Pool} {name : Name} (h : Sound registry root dynFields m)
    (hat : At registry root name field) (hpool : pool ∈ pools field)
    (htake : m.take dynFields pool name field.fieldType = some m') :
    Sound registry root dynFields m' := by
  obtain ⟨taken, hnext, rfl⟩ := Option.map_eq_some_iff.mp htake
  have hcount (p : Pool) : m.count p ≤ Function.update m.count pool (m.count pool + 1) p := by
    by_cases hp : p = pool
    · subst hp
      rw [Function.update_self]
      exact Nat.le_succ _
    · rw [Function.update_of_ne hp]
  -- the field that is taken is none of those that were taken before
  have hnew (name' : Name) (mapped : MappedDynamicField)
      (hget : m.mapping.get name' = some mapped) : mapped.field ≠ taken := by
    intro hsame
    obtain ⟨-, pool', -, -, -, i, hi, hold⟩ := h.taken name' mapped hget
    rw [hsame] at hold
    obtain ⟨rfl, rfl⟩ := hdyn.distinct pool' pool i (m.count pool) taken hold hnext
    exact lt_irrefl _ hi
  constructor
  · intro name' mapped hget
    rw [Map.get_insert] at hget
    by_cases hname : name' = name
    · rw [if_pos hname] at hget
      obtain rfl := Option.some.inj hget
      refine ⟨field, pool, hname ▸ hat, hpool, rfl, m.count pool, ?_, hnext⟩
      show m.count pool < Function.update m.count pool (m.count pool + 1) pool
      rw [Function.update_self]
      exact Nat.lt_succ_self _
    · rw [if_neg hname] at hget
      obtain ⟨field', pool', hat', hpool', htype, i, hi, hold⟩ := h.taken name' mapped hget
      exact ⟨field', pool', hat', hpool', htype, i, hi.trans_le (hcount pool'), hold⟩
  · intro name₁ name₂ mapped₁ mapped₂ hget₁ hget₂ hsame
    rw [Map.get_insert] at hget₁ hget₂
    by_cases h₁ : name₁ = name
    · by_cases h₂ : name₂ = name
      · exact h₁.trans h₂.symm
      · rw [if_pos h₁] at hget₁
        rw [if_neg h₂] at hget₂
        obtain rfl := Option.some.inj hget₁
        exact absurd hsame.symm (hnew name₂ mapped₂ hget₂)
    · by_cases h₂ : name₂ = name
      · rw [if_neg h₁] at hget₁
        rw [if_pos h₂] at hget₂
        obtain rfl := Option.some.inj hget₂
        exact absurd hsame (hnew name₁ mapped₁ hget₁)
      · rw [if_neg h₁] at hget₁
        rw [if_neg h₂] at hget₂
        exact h.distinct name₁ name₂ mapped₁ mapped₂ hget₁ hget₂ hsame

theorem Sound.takeFirst {builder : SchemaBuilder} (hdyn : dynFields.Sound builder) {m : MsgFields}
    {field : FieldDescriptor} {name : Name} (h : Sound registry root dynFields m)
    (hat : At registry root name field) (ps : List Pool) (hps : ∀ pool ∈ ps, pool ∈ pools field) :
    Sound registry root dynFields (takeFirst dynFields name field.fieldType m ps) := by
  induction ps with
  | nil => exact h
  | cons pool rest ih =>
    rw [MsgFields.takeFirst]
    cases htake : m.take dynFields pool name field.fieldType with
    | some m' => exact h.take hdyn hat (hps pool List.mem_cons_self) htake
    | none => exact ih fun p hp => hps p (List.mem_cons_of_mem pool hp)

/-- A field that has none of the flags is not gone into. -/
def Flagged (field : FieldDescriptor) : Prop :=
  (!field.indexedFlag && !field.textFlag && !field.sortedFlag) = false

/-- The cases of a field: left out, gone into, or mapped. -/
theorem addField_cases (registry : Registry) (dynFields : DynamicFields) (fuel : ℕ)
    (parent : Option Name) (field : FieldDescriptor) (m : MsgFields) :
    (addField registry dynFields (fuel + 1) parent field m = some m ∧
      (Flagged field → ∀ msgType sub, field.fieldType = .message msgType →
        registry.getMessageDescriptor msgType ≠ some sub)) ∨
    (∃ msgType sub, Flagged field ∧ field.fieldType = .message msgType ∧
      registry.getMessageDescriptor msgType = some sub ∧
      addField registry dynFields (fuel + 1) parent field m = sub.fields.foldlM (fun m f =>
        addField registry dynFields fuel (some (nestedName parent field.name)) f m) m) ∨
    ((∀ msgType, field.fieldType ≠ .message msgType) ∧
      addField registry dynFields (fuel + 1) parent field m = some (takeFirst dynFields
        (nestedName parent field.name) field.fieldType m (pools field))) := by
  cases hflag : (!field.indexedFlag && !field.textFlag && !field.sortedFlag) with
  | true =>
    left
    refine ⟨?_, fun hflagged => absurd (hflag.symm.trans hflagged) Bool.true_eq_false.mp⟩
    rw [addField, if_pos hflag]
  | false =>
    have hnot : ¬ (!field.indexedFlag && !field.textFlag && !field.sortedFlag) = true := by
      rw [hflag]
      exact Bool.false_ne_true
    cases htype : field.fieldType with
    | message msgType =>
      cases hsub : registry.getMessageDescriptor msgType with
      | none =>
        left
        refine ⟨?_, ?_⟩
        · rw [addField, if_neg hnot]
          simp only [htype, hsub]
        · intro _ msgType' sub htype' hsub'
          obtain rfl := FieldType.message.inj htype'
          rw [hsub] at hsub'
          cases hsub'
      | some sub =>
        right
        left
        refine ⟨msgType, sub, hflag, rfl, hsub, ?_⟩
        rw [addField, if_neg hnot]
        simp only [htype, hsub]
    | _ =>
      right
      right
      refine ⟨fun _ h => (by cases h), ?_⟩
      rw [addField, if_neg hnot]
      simp only [htype]

theorem Sound.addField {builder : SchemaBuilder} (hdyn : dynFields.Sound builder) (fuel : ℕ)
    {parent : Option Name} {desc : ReflectMessageDescriptor} {field : FieldDescriptor}
    {m m' : MsgFields} (hin : InMessage registry root parent desc) (hmem : field ∈ desc.fields)
    (h : Sound registry root dynFields m)
    (hadd : addField registry dynFields fuel parent field m = some m') :
    Sound registry root dynFields m' := by
  induction fuel generalizing parent desc field m m' with
  | zero => cases hadd
  | succ fuel ih =>
    rcases addField_cases registry dynFields fuel parent field m with
      ⟨heq, -⟩ | ⟨msgType, sub, -, htype, hsub, heq⟩ | ⟨-, heq⟩
    · rw [heq] at hadd
      exact Option.some.inj hadd ▸ h
    · rw [heq] at hadd
      have hinner := InMessage.nested hin hmem htype hsub
      refine Nested.foldlM_invariant (I := Sound registry root dynFields) sub.fields ?_ h hadd
      intro f hf s s' hs hstep
      exact ih hinner hf hs hstep
    · rw [heq] at hadd
      obtain rfl := Option.some.inj hadd
      have hat : At registry root (nestedName parent field.name) field :=
        ⟨parent, desc, hin, hmem, rfl⟩
      exact h.takeFirst hdyn hat (pools field) fun _ hp => hp

/-! ## The nesting that the fuel is for -/

/-- The fuel lasts for the messages that a field leads to. -/
def Lasts (registry : Registry) : ℕ → FieldDescriptor → Prop
  | 0, _ => False
  | fuel + 1, field => ∀ msgType sub, Flagged field → field.fieldType = .message msgType →
      registry.getMessageDescriptor msgType = some sub → ∀ f ∈ sub.fields, Lasts registry fuel f

theorem addField_isSome_iff (dynFields : DynamicFields) (fuel : ℕ) (parent : Option Name)
    (field : FieldDescriptor) (m : MsgFields) :
    (addField registry dynFields fuel parent field m).isSome ↔ Lasts registry fuel field := by
  induction fuel generalizing parent field m with
  | zero => exact iff_of_false Bool.false_ne_true id
  | succ fuel ih =>
    rcases addField_cases registry dynFields fuel parent field m with
      ⟨heq, hnone⟩ | ⟨msgType, sub, hflag, htype, hsub, heq⟩ | ⟨htype, heq⟩
    · rw [heq]
      exact iff_of_true rfl fun msgType sub hflag htype hsub =>
        absurd hsub (hnone hflag msgType sub htype)
    · rw [heq, Nested.foldlM_isSome_iff sub.fields (P := Lasts registry fuel)
        fun f _ s => ih _ f s]
      constructor
      · intro h msgType' sub' _ htype' hsub'
        obtain rfl := FieldType.message.inj (htype.symm.trans htype')
        obtain rfl := Option.some.inj (hsub.symm.trans hsub')
        exact h
      · intro h
        exact h msgType sub hflag htype hsub
    · rw [heq]
      exact iff_of_true rfl fun msgType _ _ htype' => absurd htype' (htype msgType)

end MsgFields

/-- A message type leads to those of its message fields that are gone into. -/
def Nests (registry : Registry) (desc sub : ReflectMessageDescriptor) : Prop :=
  ∃ field ∈ desc.fields, MsgFields.Flagged field ∧ ∃ msgType, field.fieldType = .message msgType ∧
    registry.getMessageDescriptor msgType = some sub

def LastsFor (registry : Registry) (fuel : ℕ) (desc : ReflectMessageDescriptor) : Prop :=
  ∀ field ∈ desc.fields, MsgFields.Lasts registry fuel field

theorem not_nests_of_lastsFor (registry : Registry) (desc sub : ReflectMessageDescriptor)
    (h : LastsFor registry 0 desc) : ¬ Nests registry desc sub := by
  rintro ⟨field, hmem, -⟩
  exact h field hmem

theorem lastsFor_succ_iff (registry : Registry) (fuel : ℕ) (desc : ReflectMessageDescriptor) :
    LastsFor registry (fuel + 1) desc ↔
      ∀ sub, Nests registry desc sub → LastsFor registry fuel sub := by
  constructor
  · rintro h sub ⟨field, hmem, hflag, msgType, htype, hsub⟩
    exact h field hmem msgType sub hflag htype hsub
  · intro h field hmem msgType sub hflag htype hsub
    exact h sub ⟨field, hmem, hflag, msgType, htype, hsub⟩

theorem Registry.mem_of_getMessageDescriptor {name : Name} {desc : ReflectMessageDescriptor}
    (h : registry.getMessageDescriptor name = some desc) :
    desc ∈ registry.messageDescriptors ∧ desc.name = name := by
  have hname := List.find?_some h
  exact ⟨List.mem_of_find?_eq_some h, of_decide_eq_true hname⟩

theorem Registry.getMessageDescriptor_of_mem {desc : ReflectMessageDescriptor}
    (h : desc ∈ registry.messageDescriptors) :
    registry.getMessageDescriptor desc.name = some desc := by
  cases hfind : registry.getMessageDescriptor desc.name with
  | none =>
    have hnone := List.find?_eq_none.mp hfind desc h
    exact absurd (decide_eq_true rfl) hnone
  | some found =>
    obtain ⟨hmem, hname⟩ := Registry.mem_of_getMessageDescriptor hfind
    rw [List.inj_on_of_nodup_map registry.distinct hmem h hname]

theorem Nests.mem {desc sub : ReflectMessageDescriptor} (h : Nests registry desc sub) :
    sub ∈ registry.messageDescriptors := by
  obtain ⟨-, -, -, msgType, -, hsub⟩ := h
  exact (Registry.mem_of_getMessageDescriptor hsub).1

theorem buildMappings_isSome_iff (fuel : ℕ) :
    (buildMappings registry dynFields fuel).isSome ↔
      ∀ desc ∈ registry.messageDescriptors, LastsFor registry fuel desc := by
  refine Nested.foldlM_isSome_iff registry.messageDescriptors ?_ _
  intro desc _ mappings
  have hfields := Nested.foldlM_isSome_iff desc.fields (P := MsgFields.Lasts registry fuel)
    (fun field _ m => MsgFields.addField_isSome_iff dynFields fuel none field m)
    .default
  refine Iff.trans ?_ hfields
  cases desc.fields.foldlM (fun m field => MsgFields.addField registry dynFields fuel none field m)
    MsgFields.default with
  | none => exact Iff.rfl
  | some m => exact Iff.rfl

/-- The schema is built exactly where no message type leads back to itself. -/
theorem exists_new_iff (config : MutationIndexConfig) (registry : Registry) :
    (∃ fuel, (MutationIndexSchema.new config registry fuel).isSome) ↔
      ¬ ∃ desc, Relation.TransGen (Nests registry) desc desc := by
  have hnew (fuel : ℕ) : (MutationIndexSchema.new config registry fuel).isSome ↔
      ∀ desc ∈ registry.messageDescriptors, LastsFor registry fuel desc := by
    rw [MutationIndexSchema.new, Option.isSome_map]
    exact buildMappings_isSome_iff fuel
  have hzero := not_nests_of_lastsFor registry
  have hsucc := lastsFor_succ_iff registry
  constructor
  · rintro ⟨fuel, hfuel⟩ ⟨desc, hcycle⟩
    obtain ⟨last, -, hlast⟩ := Relation.TransGen.tail'_iff.mp hcycle
    have hlasts := (hnew fuel).mp hfuel desc hlast.mem
    exact Nested.not_cyclic_of_ends hzero hsucc fuel desc hlasts hcycle
  · intro h
    obtain ⟨fuel, hfuel⟩ := Nested.exists_ends_of_not_cyclic hzero hsucc
      registry.messageDescriptors (fun _ _ hnests => hnests.mem)
      fun desc hcycle => h ⟨desc, hcycle⟩
    exact ⟨fuel, (hnew fuel).mpr hfuel⟩

/-! ## The mappings of the registered types -/

/-- Each mapping is the sound one of a registered type. -/
def MappingsSound (registry : Registry) (dynFields : DynamicFields)
    (mappings : DynamicFieldsMapping) : Prop :=
  ∀ traitName mapping, mappings.get traitName = some mapping →
    ∃ desc m, registry.getMessageDescriptor traitName = some desc ∧
      MsgFields.Sound registry desc dynFields m ∧ m.mapping = mapping

theorem buildMappings_sound {builder : SchemaBuilder} (hdyn : dynFields.Sound builder) (fuel : ℕ)
    {mappings : DynamicFieldsMapping} (h : buildMappings registry dynFields fuel = some mappings) :
    MappingsSound registry dynFields mappings := by
  have hempty : MappingsSound registry dynFields .empty := by
    intro traitName mapping hget
    rw [Map.get_empty] at hget
    cases hget
  refine Nested.foldlM_invariant registry.messageDescriptors ?_ hempty h
  intro desc hmem mappings mappings' hold hstep traitName mapping hget
  obtain ⟨m, hfields, hinsert⟩ := Option.bind_eq_some_iff.mp hstep
  have hsound : MsgFields.Sound registry desc dynFields m := by
    refine Nested.foldlM_invariant desc.fields ?_ MsgFields.default_sound hfields
    intro field hfield s s' hs hadd
    exact hs.addField hdyn fuel InMessage.top hfield hadd
  have hinsert := Option.some.inj hinsert
  by_cases hempty : m.mapping.entries.isEmpty = true
  · rw [if_pos hempty] at hinsert
    exact hold traitName mapping (hinsert ▸ hget)
  · rw [if_neg hempty] at hinsert
    rw [← hinsert, Map.get_insert] at hget
    by_cases hname : traitName = desc.name
    · rw [if_pos hname] at hget
      exact ⟨desc, m, hname ▸ Registry.getMessageDescriptor_of_mem hmem, hsound,
        Option.some.inj hget⟩
    · rw [if_neg hname] at hget
      exact hold traitName mapping hget

end Exocore.Store.Schema
