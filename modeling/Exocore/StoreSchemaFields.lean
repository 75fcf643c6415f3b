import Mathlib
import Exocore.LibNested
import Exocore.StoreSchema

/-! The fields that are allocated, and those that the names of a message type are mapped to. -/
namespace Exocore.Store.Schema

open SortedMap Dotted

/-! ## The allocated fields -/

/-- The fields are numbered on from those that were there. -/
theorem addFields_eq (kind : FieldKind) (n : ℕ) (builder : SchemaBuilder) :
    addFields kind n builder =
      (List.range' builder.length n, builder ++ List.replicate n kind) := by
  induction n generalizing builder with
  | zero => rw [addFields, List.replicate_zero, List.append_nil, List.range'_zero]
  | succ n ih =>
    have hlength : (builder ++ [kind]).length = builder.length + 1 := List.length_append
    rw [addFields, ih, hlength, List.append_assoc, List.singleton_append, List.range'_succ,
      List.replicate_succ]

namespace DynamicFields

/-- A field is in one pool once, and is of the kind of its pool. -/
structure Sound (dynFields : DynamicFields) (builder : SchemaBuilder) : Prop where
  kind : ∀ pool (i : ℕ) f, (dynFields pool)[i]? = some f → builder[f]? = some pool.kind
  distinct : ∀ pool pool' (i i' : ℕ) f, (dynFields pool)[i]? = some f →
    (dynFields pool')[i']? = some f → pool = pool' ∧ i = i'

theorem Sound.update {dynFields : DynamicFields} {builder : SchemaBuilder}
    (h : Sound dynFields builder) (pool : Pool) (n : ℕ) :
    Sound (Function.update dynFields pool (addFields pool.kind n builder).1)
      (addFields pool.kind n builder).2 := by
  rw [addFields_eq]
  have hold (p : Pool) (i f : ℕ) (hf : (dynFields p)[i]? = some f) :
      f < builder.length := by
    have hkind := h.kind p i f hf
    exact (List.getElem?_eq_some_iff.mp hkind).1
  have hnew (i f : ℕ) (hf : (List.range' builder.length n)[i]? = some f) :
      i < n ∧ f = builder.length + i := by
    obtain ⟨hlt, hval⟩ := List.getElem?_eq_some_iff.mp hf
    rw [List.getElem_range', Nat.one_mul] at hval
    rw [List.length_range'] at hlt
    exact ⟨hlt, hval.symm⟩
  constructor
  · intro p i f hf
    dsimp only at hf ⊢
    by_cases hp : p = pool
    · subst hp
      rw [Function.update_self] at hf
      obtain ⟨hi, rfl⟩ := hnew i f hf
      rw [List.getElem?_append_right (Nat.le_add_right _ _), Nat.add_sub_cancel_left,
        List.getElem?_replicate, if_pos hi]
    · rw [Function.update_of_ne hp] at hf
      rw [List.getElem?_append_left (hold p i f hf)]
      exact h.kind p i f hf
  · intro p p' i i' f hf hf'
    dsimp only at hf hf'
    by_cases hp : p = pool
    · by_cases hp' : p' = pool
      · rw [hp, Function.update_self] at hf
        rw [hp', Function.update_self] at hf'
        have hone := hnew i f hf
        have htwo := hnew i' f hf'
        exact ⟨hp.trans hp'.symm, by omega⟩
      · rw [hp, Function.update_self] at hf
        rw [Function.update_of_ne hp'] at hf'
        have hone := hnew i f hf
        have htwo := hold p' i' f hf'
        omega
    · by_cases hp' : p' = pool
      · rw [Function.update_of_ne hp] at hf
        rw [hp', Function.update_self] at hf'
        have hone := hold p i f hf
        have htwo := hnew i' f hf'
        omega
      · rw [Function.update_of_ne hp] at hf
        rw [Function.update_of_ne hp'] at hf'
        exact h.distinct p p' i i' f hf hf'

theorem allocate_sound (config : MutationIndexConfig) (pools : List Pool)
    (s : DynamicFields × SchemaBuilder) (h : Sound s.1 s.2) :
    Sound (allocate config pools s).1 (allocate config pools s).2 ∧
      s.2 <+: (allocate config pools s).2 := by
  induction pools generalizing s with
  | nil => exact ⟨h, List.prefix_refl _⟩
  | cons pool rest ih =>
    have hgrown : s.2 <+: (addFields pool.kind (config pool) s.2).2 := by
      rw [addFields_eq]
      exact List.prefix_append _ _
    obtain ⟨hsound, hmore⟩ := ih (Function.update s.1 pool
      (addFields pool.kind (config pool) s.2).1, (addFields pool.kind (config pool) s.2).2)
      (h.update pool (config pool))
    exact ⟨hsound, hgrown.trans hmore⟩

theorem new_sound (config : MutationIndexConfig) (builder : SchemaBuilder) :
    Sound (new config builder).1 (new config builder).2 ∧ builder <+: (new config builder).2 := by
  refine allocate_sound config Pool.all (fun _ => [], builder) ⟨?_, ?_⟩
  · intro pool i f hf
    cases hf
  · intro pool pool' i i' f hf
    cases hf

end DynamicFields

/-! ## The dotted names -/

theorem FieldDescriptor.dot_not_mem (field : FieldDescriptor) : '.' ∉ field.name := by
  intro hdot
  have hc := field.identifier '.' hdot
  exact absurd hc (by decide)

/-- The characters of an identifier are above the dot. -/
theorem FieldDescriptor.not_lt_dot (field : FieldDescriptor) (c : Char) (hc : c ∈ field.name) :
    ¬ c < '.' := by
  have hid := field.identifier c hc
  intro hlt
  have hval : c.val.toNat < 46 := hlt
  simp only [Char.isAlphanum, Char.isAlpha, Char.isUpper, Char.isLower, Char.isDigit,
    Bool.or_eq_true, Bool.and_eq_true, decide_eq_true_eq, UInt32.le_iff_toNat_le,
    ge_iff_le] at hid
  rcases hid with ((⟨h, -⟩ | ⟨h, -⟩) | ⟨h, -⟩) | rfl
  · have hA : 65 ≤ c.val.toNat := h
    omega
  · have ha : 97 ≤ c.val.toNat := h
    omega
  · have h0 : 48 ≤ c.val.toNat := h
    omega
  · exact absurd hval (by decide)

theorem nestedName_inj {parent parent' : Option Name} {field field' : FieldDescriptor}
    (h : MsgFields.nestedName parent field.name = MsgFields.nestedName parent' field'.name) :
    parent = parent' ∧ field.name = field'.name := by
  have hmem (p : Name) (f : FieldDescriptor) : '.' ∈ p ++ '.' :: f.name :=
    List.mem_append_right p List.mem_cons_self
  cases parent with
  | none => cases parent' with
    | none => exact ⟨rfl, h⟩
    | some p' =>
      have hname : field.name = p' ++ '.' :: field'.name := h
      exact absurd (hname ▸ hmem p' field') field.dot_not_mem
  | some p => cases parent' with
    | none =>
      have hname : p ++ '.' :: field.name = field'.name := h
      exact absurd (hname ▸ hmem p field) field'.dot_not_mem
    | some p' =>
      obtain ⟨rfl, hname⟩ := dotted_inj field.dot_not_mem field'.dot_not_mem h
      exact ⟨rfl, hname⟩

theorem ReflectMessageDescriptor.field_of_name (desc : ReflectMessageDescriptor)
    {field field' : FieldDescriptor} (h : field ∈ desc.fields) (h' : field' ∈ desc.fields)
    (hname : field.name = field'.name) : field = field' :=
  List.inj_on_of_nodup_map desc.distinctNames h h' hname

theorem ReflectMessageDescriptor.find_of_mem (desc : ReflectMessageDescriptor)
    {field : FieldDescriptor} (h : field ∈ desc.fields) :
    desc.fields.find? (fun f => f.id = field.id) = some field := by
  cases hfind : desc.fields.find? fun f => f.id = field.id with
  | none =>
    have hnone := List.find?_eq_none.mp hfind field h
    exact absurd (decide_eq_true rfl) hnone
  | some found =>
    have hmem := List.mem_of_find?_eq_some hfind
    have hsome := List.find?_some hfind
    have hid : found.id = field.id := of_decide_eq_true hsome
    rw [List.inj_on_of_nodup_map desc.distinctIds hmem h hid]

/-- The messages that are in a message of this type, with the names that lead to them. -/
inductive InMessage (registry : Registry) (root : ReflectMessageDescriptor) :
    Option Name → ReflectMessageDescriptor → Prop where
  | top : InMessage registry root none root
  | nested {parent : Option Name} {desc sub : ReflectMessageDescriptor} {field : FieldDescriptor}
      {msgType : Name} (outer : InMessage registry root parent desc) (hfield : field ∈ desc.fields)
      (htype : field.fieldType = .message msgType)
      (hsub : registry.getMessageDescriptor msgType = some sub) :
      InMessage registry root (some (MsgFields.nestedName parent field.name)) sub

/-- A field with its dotted name. -/
def At (registry : Registry) (root : ReflectMessageDescriptor) (name : Name)
    (field : FieldDescriptor) : Prop :=
  ∃ parent desc, InMessage registry root parent desc ∧ field ∈ desc.fields ∧
    name = MsgFields.nestedName parent field.name

variable {registry : Registry} {root : ReflectMessageDescriptor}

theorem InMessage.unique {parent : Option Name} {desc desc' : ReflectMessageDescriptor}
    (h : InMessage registry root parent desc) (h' : InMessage registry root parent desc') :
    desc = desc' := by
  induction h generalizing desc' with
  | top =>
    cases h' with
    | top => rfl
  | @nested parent desc sub field msgType outer hfield htype hsub ih =>
    generalize hname : some (MsgFields.nestedName parent field.name) = whole at h'
    cases h' with
    | top => cases hname
    | @nested parent' desc₂ sub' field' msgType' outer' hfield' htype' hsub' =>
      obtain ⟨rfl, hlast⟩ := nestedName_inj (Option.some.inj hname)
      obtain rfl := ih outer'
      obtain rfl := desc.field_of_name hfield hfield' hlast
      have htypes : FieldType.message msgType = .message msgType' := htype.symm.trans htype'
      obtain rfl := FieldType.message.inj htypes
      exact Option.some.inj (hsub.symm.trans hsub')

/-- A dotted name is of one field. -/
theorem At.unique {name : Name} {field field' : FieldDescriptor}
    (h : At registry root name field) (h' : At registry root name field') : field = field' := by
  obtain ⟨parent, desc, hin, hmem, hname⟩ := h
  obtain ⟨parent', desc', hin', hmem', hname'⟩ := h'
  obtain ⟨rfl, hlast⟩ := nestedName_inj (hname.symm.trans hname')
  obtain rfl := hin.unique hin'
  exact desc.field_of_name hmem hmem' hlast

theorem InMessage.not_lt_dot {parent : Option Name} {desc : ReflectMessageDescriptor}
    (h : InMessage registry root parent desc) (field : FieldDescriptor) :
    ∀ c ∈ MsgFields.nestedName parent field.name, ¬ c < '.' := by
  induction h generalizing field with
  | top => exact field.not_lt_dot
  | @nested parent desc sub last msgType _ _ _ _ ih =>
    intro c hc
    rcases List.mem_append.mp hc with hc | hc
    · exact ih last c hc
    · rcases List.mem_cons.mp hc with rfl | hc
      · exact lt_irrefl '.'
      · exact field.not_lt_dot c hc

end Exocore.Store.Schema
