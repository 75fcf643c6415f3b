import Exocore.StoreCollect

/-! Which mutations the aggregator notes as pending: those that it discards as late do not
raise the flag that holds the garbage collector back. -/
namespace Exocore.Store

/-- Behind these mutations, the next one is taken as the last of the trait unless a newer one
was. Of two with the same id the later one is taken. -/
def Touches (traitId : TraitId) (before : List MutationMetadata) (m : MutationMetadata) : Prop :=
  OnTrait traitId m ∨ m.mutationType = .entityTombstone ∧ (∃ a ∈ before, OnTrait traitId a) ∧
    ∀ o ∈ before, o.operationId ≤ m.operationId

/-- A mutation that is older than one before it: for a trait, than one that was taken as the
last of the trait, for the tombstone of the entity, than any. -/
def Late (before : List MutationMetadata) (m : MutationMetadata) : Prop :=
  (∃ traitId front x rear, OnTrait traitId m ∧ before = front ++ x :: rear ∧
      Touches traitId front x ∧ m.operationId < x.operationId) ∨
    m.mutationType = .entityTombstone ∧ ∃ o ∈ before, m.operationId < o.operationId

theorem Late.newer {before : List MutationMetadata} {m : MutationMetadata} (h : Late before m) :
    ∃ o ∈ before, m.operationId < o.operationId := by
  rcases h with ⟨-, front, x, rear, -, rfl, -, hlt⟩ | ⟨-, o, ho, hlt⟩
  · exact ⟨x, by simp, hlt⟩
  · exact ⟨o, ho, hlt⟩

def IsMarker (m : MutationMetadata) : Prop := m.mutationType = .pendingDeletion

/-- The last operation of a trait behind these mutations. -/
structure LastTouch (traitId : TraitId) (l : List MutationMetadata) (id : OperationId) :
    Prop where
  touches : ∃ front x rear, l = front ++ x :: rear ∧ Touches traitId front x ∧ x.operationId = id
  newest : ∀ front x rear, l = front ++ x :: rear → Touches traitId front x → x.operationId ≤ id

theorem LastTouch.keep {traitId : TraitId} {l : List MutationMetadata} {id : OperationId}
    (h : LastTouch traitId l id) (m : MutationMetadata)
    (hm : Touches traitId l m → m.operationId ≤ id) : LastTouch traitId (l ++ [m]) id := by
  obtain ⟨front, x, rear, hl, hx, hid⟩ := h.touches
  refine ⟨⟨front, x, rear ++ [m], by rw [hl]; simp, hx, hid⟩, ?_⟩
  intro front' y rear' hsplit hy
  rcases split_snoc _ _ _ _ _ hsplit with ⟨rfl, rfl⟩ | ⟨rear'', hl'⟩
  · exact hm hy
  · exact h.newest front' y rear'' hl' hy

theorem Touches.seen {traitId : TraitId} {front : List MutationMetadata} {x : MutationMetadata}
    (h : Touches traitId front x) (rear : List MutationMetadata) :
    ∃ a ∈ front ++ x :: rear, OnTrait traitId a := by
  rcases h with h | ⟨-, ⟨a, ha, hon⟩, -⟩
  · exact ⟨x, by simp, h⟩
  · exact ⟨a, List.mem_append_left _ ha, hon⟩

theorem lastTouch_next {traitId : TraitId} {l : List MutationMetadata} {m : MutationMetadata}
    (hm : Touches traitId l m)
    (hold : (∀ a ∈ l, ¬ OnTrait traitId a) ∨ ∃ id, LastTouch traitId l id ∧ id ≤ m.operationId) :
    LastTouch traitId (l ++ [m]) m.operationId := by
  refine ⟨⟨l, m, [], rfl, hm, rfl⟩, ?_⟩
  intro front x rear hsplit hx
  rcases split_snoc _ _ _ _ _ hsplit with ⟨-, rfl⟩ | ⟨rear', hl⟩
  · exact le_rfl
  · rcases hold with hunseen | ⟨id, hid, hle⟩
    · obtain ⟨a, ha, hon⟩ := hx.seen rear'
      exact absurd hon (hunseen a (hl ▸ ha))
    · exact (hid.newest front x rear' hl hx).trans hle

/-- What the aggregator knows of a trait behind these mutations. -/
structure Seen (traitId : TraitId) (l : List MutationMetadata) (agg : TraitAggregator) : Prop where
  counted : 0 < agg.mutationCount
  last : ∃ id, agg.lastOperationId = some id ∧ LastTouch traitId l id

structure TraitsSeen (l : List MutationMetadata) (traits : Traits) : Prop where
  unseen : ∀ traitId, traits.lookup traitId = none → ∀ m ∈ l, ¬ OnTrait traitId m
  seen : ∀ traitId agg, traits.lookup traitId = some agg → Seen traitId l agg

theorem isLate_iff_late {l : List MutationMetadata} {traits : Traits} (h : TraitsSeen l traits)
    (traitId : TraitId) (m : MutationMetadata) (hm : OnTrait traitId m) :
    (TraitAggregator.getForTrait traits traitId).isLate m.operationId = true ↔ Late l m := by
  rw [isLate_getForTrait]
  have hkind : m.mutationType ≠ .entityTombstone := by
    intro hkind
    rw [OnTrait, hkind] at hm
    simp [traitOf] at hm
  constructor
  · rintro ⟨agg, hlookup, hlate⟩
    obtain ⟨id, hid, hlast⟩ := (h.seen traitId agg hlookup).last
    obtain ⟨front, x, rear, hl, hx, rfl⟩ := hlast.touches
    rw [TraitAggregator.isLate, hid] at hlate
    exact Or.inl ⟨traitId, front, x, rear, hm, hl, hx, by simpa using hlate⟩
  · intro hlate
    rcases hlate with ⟨traitId', front, x, rear, hon, hl, hx, hlt⟩ | ⟨hkind', -⟩
    · obtain rfl := Option.some.inj (hon.symm.trans hm)
      cases hlookup : traits.lookup traitId' with
      | none =>
        obtain ⟨a, ha, hon'⟩ := hx.seen rear
        exact absurd hon' (h.unseen traitId' hlookup a (hl ▸ ha))
      | some agg =>
        obtain ⟨id, hid, hlast⟩ := (h.seen traitId' agg hlookup).last
        refine ⟨agg, rfl, ?_⟩
        rw [TraitAggregator.isLate, hid]
        simpa using hlt.trans_le (hlast.newest front x rear hl hx)
    · exact absurd hkind' hkind

section Traits
variable {l : List MutationMetadata} {traits : Traits}

theorem TraitsSeen.insert (h : TraitsSeen l traits) (m : MutationMetadata) (traitId : TraitId)
    (hm : OnTrait traitId m) (agg : TraitAggregator) (hcount : 0 < agg.mutationCount)
    (hlast : agg.lastOperationId = some m.operationId) (hlate : ¬ Late l m) :
    TraitsSeen (l ++ [m]) (traits.insert traitId agg) := by
  have hother : ∀ traitId', traitId' ≠ traitId → ¬ Touches traitId' l m := by
    intro traitId' hne htouches
    rcases htouches with hon | ⟨hkind, -⟩
    · exact hne (Option.some.inj (hon.symm.trans hm))
    · rw [OnTrait, hkind] at hm
      simp [traitOf] at hm
  constructor
  · intro traitId' hnone x hx
    have hne : traitId' ≠ traitId := by
      rintro rfl
      simp at hnone
    rw [AList.lookup_insert_ne hne] at hnone
    rcases List.mem_append.mp hx with hx | hx
    · exact h.unseen traitId' hnone x hx
    · rw [List.mem_singleton.mp hx]
      exact fun hon => hother traitId' hne (Or.inl hon)
  · intro traitId' agg' hlookup
    by_cases heq : traitId' = traitId
    · subst heq
      rw [AList.lookup_insert] at hlookup
      obtain rfl := Option.some.inj hlookup
      refine ⟨hcount, m.operationId, hlast, lastTouch_next (Or.inl hm) ?_⟩
      cases hold : traits.lookup traitId' with
      | none => exact Or.inl (h.unseen traitId' hold)
      | some old =>
        obtain ⟨id, -, hid⟩ := (h.seen traitId' old hold).last
        obtain ⟨front, x, rear, hl, hx, rfl⟩ := hid.touches
        refine Or.inr ⟨x.operationId, hid, not_lt.mp fun hlt => hlate ?_⟩
        exact Or.inl ⟨traitId', front, x, rear, hm, hl, hx, hlt⟩
    · rw [AList.lookup_insert_ne heq] at hlookup
      obtain ⟨hcount', id, hid, hlast'⟩ := h.seen traitId' agg' hlookup
      exact ⟨hcount', id, hid, hlast'.keep m fun htouches => absurd htouches (hother traitId' heq)⟩

theorem TraitsSeen.wipe (h : TraitsSeen l traits) (m : MutationMetadata)
    (hm : m.mutationType = .entityTombstone) (hnew : ∀ o ∈ l, o.operationId ≤ m.operationId) :
    TraitsSeen (l ++ [m]) (traits.mapValues (·.pushDeleteMutation m.operationId)) := by
  constructor
  · intro traitId hnone x hx
    rw [lookup_mapValues, Option.map_eq_none_iff] at hnone
    rcases List.mem_append.mp hx with hx | hx
    · exact h.unseen traitId hnone x hx
    · rw [List.mem_singleton.mp hx, OnTrait, hm]
      simp [traitOf]
  · intro traitId agg hlookup
    rw [lookup_mapValues, Option.map_eq_some_iff] at hlookup
    obtain ⟨old, hold, rfl⟩ := hlookup
    obtain ⟨-, id, -, hid⟩ := h.seen traitId old hold
    obtain ⟨front, x, rear, hl, hx, rfl⟩ := hid.touches
    obtain ⟨a, ha, hon⟩ := hx.seen rear
    rw [← hl] at ha
    refine ⟨Nat.succ_pos _, m.operationId, rfl, lastTouch_next (Or.inr ⟨hm, ⟨a, ha, hon⟩, hnew⟩)
      (Or.inr ⟨x.operationId, hid, hnew x ?_⟩)⟩
    rw [hl]
    simp

/-- A mutation that does not touch a trait, or is older than its last operation. -/
theorem TraitsSeen.keep (h : TraitsSeen l traits) (m : MutationMetadata)
    (hm : ∀ traitId, OnTrait traitId m → ∃ agg, traits.lookup traitId = some agg)
    (hlate : ∀ traitId, Touches traitId l m → Late l m) :
    TraitsSeen (l ++ [m]) traits := by
  constructor
  · intro traitId hnone x hx
    rcases List.mem_append.mp hx with hx | hx
    · exact h.unseen traitId hnone x hx
    · rw [List.mem_singleton.mp hx]
      intro hon
      obtain ⟨agg, hlookup⟩ := hm traitId hon
      rw [hnone] at hlookup
      contradiction
  · intro traitId agg hlookup
    obtain ⟨hcount, id, hid, hlast⟩ := h.seen traitId agg hlookup
    refine ⟨hcount, id, hid, hlast.keep m ?_⟩
    intro htouches
    rcases hlate traitId htouches with ⟨traitId', front, x, rear, hon, hl, hx, hlt⟩ |
      ⟨hkind, o, ho, hlt⟩
    · rcases htouches with hon' | ⟨hkind, -⟩
      · obtain rfl := Option.some.inj (hon.symm.trans hon')
        exact hlt.le.trans (hlast.newest front x rear hl hx)
      · rw [OnTrait, hkind] at hon
        simp [traitOf] at hon
    · rcases htouches with hon | ⟨-, -, hnew⟩
      · rw [OnTrait, hkind] at hon
        simp [traitOf] at hon
      · exact absurd (hnew o ho) hlt.not_ge

end Traits

/-- A pending mutation that is taken. -/
def TakesPending (l : List MutationMetadata) : Prop :=
  ∃ front m rear, l = front ++ m :: rear ∧ m.blockOffset = none ∧ ¬ Late front m

/-- The state of the loop behind these mutations, as far as the collector sees it. -/
structure Scanned (l : List MutationMetadata) (s : Aggregation) : Prop where
  last : ∀ m ∈ l, m.operationId ≤ s.lastOperationId.getD 0
  lastMem : ∀ id, s.lastOperationId = some id → ∃ m ∈ l, m.operationId = id
  traits : TraitsSeen l s.traits
  pending : s.inPending = true ↔ TakesPending l
  marker : s.pendingDeletion = true ↔ ∃ m ∈ l, IsMarker m
  some : l ≠ [] → s.deletionDate.isSome = true ∨ s.traits.entries ≠ [] ∨ s.pendingDeletion = true

theorem scanned_start : Scanned [] Aggregation.start := by
  refine ⟨by simp, by simp [Aggregation.start], ⟨by simp, by simp [Aggregation.start]⟩, ?_, ?_,
    by simp⟩
  · refine iff_of_false (by simp [Aggregation.start]) ?_
    rintro ⟨front, m, rear, hl, -⟩
    simp at hl
  · simp [Aggregation.start]

theorem takesPending_snoc (l : List MutationMetadata) (m : MutationMetadata) :
    TakesPending (l ++ [m]) ↔ TakesPending l ∨ m.blockOffset = none ∧ ¬ Late l m := by
  constructor
  · rintro ⟨front, x, rear, hl, hx, hlate⟩
    rcases split_snoc _ _ _ _ _ hl with ⟨rfl, rfl⟩ | ⟨rear', hl'⟩
    · exact Or.inr ⟨hx, hlate⟩
    · exact Or.inl ⟨front, x, rear', hl', hx, hlate⟩
  · rintro (⟨front, x, rear, hl, hx, hlate⟩ | ⟨hm, hlate⟩)
    · exact ⟨front, x, rear ++ [m], by rw [hl]; simp, hx, hlate⟩
    · exact ⟨l, m, [], rfl, hm, hlate⟩

/-- The mutation is discarded: only the counters move. -/
theorem scanned_late {l : List MutationMetadata} {s : Aggregation} (h : Scanned l s)
    (m : MutationMetadata) (hlate : Late l m)
    (hm : ∀ traitId, OnTrait traitId m → ∃ agg, s.traits.lookup traitId = some agg) :
    Scanned (l ++ [m]) (s.count m) := by
  obtain ⟨o, ho, hlt⟩ := hlate.newer
  have hnotMarker : ¬ IsMarker m := by
    intro hmarker
    rcases hlate with ⟨traitId, -, -, -, hon, -⟩ | ⟨hkind, -⟩
    · rw [OnTrait, hmarker] at hon
      simp [traitOf] at hon
    · rw [IsMarker, hkind] at hmarker
      contradiction
  refine ⟨?_, ?_, h.traits.keep m hm fun _ _ => hlate, ?_, ?_, ?_⟩
  · intro x hx
    rcases List.mem_append.mp hx with hx | hx
    · exact h.last x hx
    · rw [List.mem_singleton.mp hx]
      exact hlt.le.trans (h.last o ho)
  · intro id hid
    obtain ⟨x, hx, hxid⟩ := h.lastMem id hid
    exact ⟨x, List.mem_append_left _ hx, hxid⟩
  · rw [takesPending_snoc, ← h.pending]
    simp only [hlate, not_true_eq_false, and_false, or_false]
    rfl
  · have hsame : (s.count m).pendingDeletion = s.pendingDeletion := rfl
    rw [hsame, h.marker]
    simp [hnotMarker]
  · intro _
    exact h.some (List.ne_nil_of_mem ho)

/-- The mutation is taken: the end of the loop's body notes it. -/
theorem scanned_taken {l : List MutationMetadata} {s : Aggregation} (h : Scanned l s)
    (s' : Aggregation) (m : MutationMetadata) (hlate : ¬ Late l m)
    (hlast : s'.lastOperationId = s.lastOperationId) (hpending : s'.inPending = s.inPending)
    (htraits : TraitsSeen (l ++ [m]) s'.traits)
    (hmarker : s'.pendingDeletion = true ↔ s.pendingDeletion = true ∨ IsMarker m)
    (hsome : s'.deletionDate.isSome = true ∨ s'.traits.entries ≠ [] ∨ s'.pendingDeletion = true) :
    Scanned (l ++ [m]) (s'.noteLast m) := by
  obtain ⟨htraits', hdate', -, -⟩ := noteLast_eq s' m
  have hpending' : (s'.noteLast m).inPending = true ↔
      s.inPending = true ∨ m.blockOffset = none := by
    rw [Aggregation.noteLast, ← hpending]
    cases m.blockOffset <;> split_ifs <;> simp
  have hmarker' : (s'.noteLast m).pendingDeletion = s'.pendingDeletion := by
    rw [Aggregation.noteLast]
    cases m.blockOffset <;> split_ifs <;> rfl
  refine ⟨le_noteLast s' m (hlast ▸ h.last), mem_of_noteLast s' m (hlast ▸ h.lastMem),
    by rw [htraits']; exact htraits, ?_, ?_, ?_⟩
  · rw [takesPending_snoc, hpending', h.pending]
    simp [hlate]
  · rw [hmarker', hmarker, h.marker]
    constructor
    · rintro (⟨x, hx, hxm⟩ | hm)
      · exact ⟨x, List.mem_append_left _ hx, hxm⟩
      · exact ⟨m, by simp, hm⟩
    · rintro ⟨x, hx, hxm⟩
      rcases List.mem_append.mp hx with hx | hx
      · exact Or.inl ⟨x, hx, hxm⟩
      · rw [List.mem_singleton.mp hx] at hxm
        exact Or.inr hxm
  · intro _
    rw [hdate', htraits', hmarker']
    exact hsome

theorem lookup_of_late {l : List MutationMetadata} {traits : Traits} (h : TraitsSeen l traits)
    (m : MutationMetadata) (hlate : Late l m) (traitId : TraitId) (hon : OnTrait traitId m) :
    ∃ agg, traits.lookup traitId = some agg := by
  have hlookup := (isLate_getForTrait traits traitId m.operationId).mp
    ((isLate_iff_late h traitId m hon).mpr hlate)
  obtain ⟨agg, hagg, -⟩ := hlookup
  exact ⟨agg, hagg⟩

theorem insert_entries_ne_nil (traits : Traits) (traitId : TraitId) (agg : TraitAggregator) :
    (traits.insert traitId agg).entries ≠ [] := by
  simp [AList.insert, List.kinsert]

/-- One mutation, by its kind. -/
theorem scanned_step {l : List MutationMetadata} {s s' : Aggregation} (h : Scanned l s)
    (m : MutationMetadata) (hstep : s.step m = some s') : Scanned (l ++ [m]) s' := by
  rw [Aggregation.step] at hstep
  split_ifs at hstep with hprev
  have htraits : (s.count m).traits = s.traits := rfl
  cases hkind : m.mutationType with
  | traitPut put =>
    have hon : OnTrait put.traitId m := by rw [OnTrait, hkind]; rfl
    simp only [Aggregation.applyMutation, hkind, Aggregation.putTrait, htraits] at hstep
    by_cases hlate : (TraitAggregator.getForTrait s.traits put.traitId).isLate m.operationId = true
    · rw [if_pos hlate] at hstep
      rw [← Option.some.inj hstep]
      have hlate' := (isLate_iff_late h.traits _ m hon).mp hlate
      exact scanned_late h m hlate' (lookup_of_late h.traits m hlate')
    · rw [if_neg hlate] at hstep
      rw [← Option.some.inj hstep]
      have hlate' : ¬ Late l m := fun hl => hlate ((isLate_iff_late h.traits _ m hon).mpr hl)
      refine scanned_taken h _ m hlate' rfl rfl
        (h.traits.insert m _ hon _ (Nat.succ_pos _) rfl hlate') ?_
        (Or.inr (Or.inl (insert_entries_ne_nil _ _ _)))
      simp [IsMarker, hkind, Aggregation.count]
  | traitTombstone traitId =>
    have hon : OnTrait traitId m := by rw [OnTrait, hkind]; rfl
    simp only [Aggregation.applyMutation, hkind, Aggregation.deleteTrait, htraits] at hstep
    by_cases hlate : (TraitAggregator.getForTrait s.traits traitId).isLate m.operationId = true
    · rw [if_pos hlate] at hstep
      rw [← Option.some.inj hstep]
      have hlate' := (isLate_iff_late h.traits _ m hon).mp hlate
      exact scanned_late h m hlate' (lookup_of_late h.traits m hlate')
    · rw [if_neg hlate] at hstep
      have hlate' : ¬ Late l m := fun hl => hlate ((isLate_iff_late h.traits _ m hon).mpr hl)
      have hinsert := h.traits.insert m traitId hon
        ((TraitAggregator.getForTrait s.traits traitId).pushDeleteMutation m.operationId)
        (Nat.succ_pos _) rfl hlate'
      split_ifs at hstep
      · rw [← Option.some.inj hstep]
        refine scanned_taken h _ m hlate' rfl rfl hinsert ?_ (Or.inl rfl)
        simp [IsMarker, hkind, Aggregation.count]
      · rw [← Option.some.inj hstep]
        refine scanned_taken h _ m hlate' rfl rfl hinsert ?_
          (Or.inr (Or.inl (insert_entries_ne_nil _ _ _)))
        simp [IsMarker, hkind, Aggregation.count]
  | entityTombstone =>
    have hnotOn : ∀ traitId, ¬ OnTrait traitId m := by
      intro traitId hon
      rw [OnTrait, hkind] at hon
      simp [traitOf] at hon
    have hlateIff : Late l m ↔ ∃ o ∈ l, m.operationId < o.operationId := by
      constructor
      · rintro (⟨traitId, -, -, -, hon, -⟩ | ⟨-, ho⟩)
        · exact absurd hon (hnotOn traitId)
        · exact ho
      · exact fun ho => Or.inr ⟨hkind, ho⟩
    have hwipe : (∀ o ∈ l, o.operationId ≤ m.operationId) → Scanned (l ++ [m])
        ((Aggregation.deleteEntity.wiped m.operationId (s.count m)).noteLast m) := by
      intro hle
      refine scanned_taken h _ m ?_ rfl rfl (h.traits.wipe m hkind hle) ?_ (Or.inl rfl)
      · rw [hlateIff]
        rintro ⟨o, ho, hlt⟩
        exact absurd (hle o ho) hlt.not_ge
      · simp [IsMarker, hkind, Aggregation.deleteEntity.wiped, Aggregation.count]
    simp only [Aggregation.applyMutation, hkind, Aggregation.deleteEntity] at hstep
    have hlast : (s.count m).lastOperationId = s.lastOperationId := rfl
    rw [hlast] at hstep
    cases hs : s.lastOperationId with
    | none =>
      simp only [hs] at hstep
      rw [← Option.some.inj hstep]
      refine hwipe fun o ho => ?_
      have hle := h.last o ho
      rw [hs] at hle
      exact hle.trans (Fin.zero_le _)
    | some last =>
      simp only [hs] at hstep
      by_cases hlt : m.operationId < last
      · rw [if_pos hlt] at hstep
        rw [← Option.some.inj hstep]
        obtain ⟨o, ho, hid⟩ := h.lastMem last hs
        exact scanned_late h m (hlateIff.mpr ⟨o, ho, by rw [hid]; exact hlt⟩)
          fun traitId hon => absurd hon (hnotOn traitId)
      · rw [if_neg hlt] at hstep
        rw [← Option.some.inj hstep]
        refine hwipe fun o ho => ?_
        have hle := h.last o ho
        rw [hs] at hle
        exact hle.trans (not_lt.mp hlt)
  | pendingDeletion =>
    simp only [Aggregation.applyMutation, hkind] at hstep
    rw [← Option.some.inj hstep]
    have hnotOn : ∀ traitId, ¬ OnTrait traitId m := by
      intro traitId hon
      rw [OnTrait, hkind] at hon
      simp [traitOf] at hon
    have hnotTouches : ∀ traitId, ¬ Touches traitId l m := by
      intro traitId htouches
      rcases htouches with hon | ⟨hkind', -⟩
      · exact hnotOn traitId hon
      · rw [hkind] at hkind'
        contradiction
    refine scanned_taken h _ m ?_ rfl rfl
      (h.traits.keep m (fun traitId hon => absurd hon (hnotOn traitId))
        fun traitId htouches => absurd htouches (hnotTouches traitId)) ?_ (Or.inr (Or.inr rfl))
    · rintro (⟨traitId, -, -, -, hon, -⟩ | ⟨hkind', -⟩)
      · exact hnotOn traitId hon
      · rw [hkind] at hkind'
        contradiction
    · simp [IsMarker, hkind]

theorem scanned_run {l : List MutationMetadata} {s s' : Aggregation} (h : Scanned l s)
    (rest : List MutationMetadata) (hrun : s.run rest = some s') : Scanned (l ++ rest) s' := by
  exact Aggregation.run_keeps Scanned (fun _ _ _ m h hstep => scanned_step h m hstep) h rest hrun

open GarbageCollector

/-- Where the flags are down and there are mutations, some configuration collects. -/
theorem genEntityCollections_ne_nil {l : List MutationMetadata} {s : Aggregation}
    (h : Scanned l s) (hl : l ≠ []) (hpending : s.inPending = false)
    (hmarker : s.pendingDeletion = false) (order : Sorting.ValuesOrder TraitEntry) :
    genEntityCollections ⟨0, 0, 1, 0, 0, 1⟩ (s.deletionDate.getD 0) order
      (EntityAggregator.ofAggregation s) ≠ [] := by
  have hflags : ((EntityAggregator.ofAggregation s).inPending ||
      (EntityAggregator.ofAggregation s).pendingDeletion) = false := by
    simp [EntityAggregator.ofAggregation, hpending, hmarker]
  have hdate : (EntityAggregator.ofAggregation s).deletionDate = s.deletionDate := rfl
  have htraits : (EntityAggregator.ofAggregation s).traits = s.traits := rfl
  rw [genEntityCollections, hflags, hdate, htraits, if_neg (by simp)]
  cases hs : s.deletionDate with
  | some date => simp [isDue]
  | none =>
    have hentries : s.traits.entries ≠ [] := by
      rcases h.some hl with hsome | hentries | hmarker'
      · rw [hs] at hsome
        contradiction
      · exact hentries
      · rw [hmarker] at hmarker'
        contradiction
    obtain ⟨entry, hentry⟩ := List.exists_mem_of_ne_nil _ hentries
    obtain ⟨traitId, agg⟩ := entry
    have hcount := (h.traits.seen traitId agg (AList.mem_lookup_iff.mpr hentry)).counted
    obtain ⟨op, hop⟩ : ∃ op, collectionOf ⟨0, 0, 1, 0, 0, 1⟩ 0 ⟨traitId, agg⟩ = some op := by
      rw [collectionOf]
      split_ifs
      · exact ⟨_, rfl⟩
      · exact ⟨_, rfl⟩
    rw [if_neg (by simp [isDue])]
    apply List.ne_nil_of_mem
    exact List.mem_filterMap.mpr ⟨_, (order.mem_order _ _).mpr hentry, hop⟩

/-- Nothing is collected of the entity, whatever the configuration and the time. -/
def NotCollected (l : List MutationMetadata) (aggr : EntityAggregator) : Prop :=
  ∀ config now order, genEntityCollections config now order aggr = [] ∧
    ∀ minOpTime, runEntity config minOpTime now order l = some []

/-- An entity with something pending is held back exactly when it has a marker, or a pending
mutation that is not late. -/
theorem pending_notCollected_iff (l : List MutationMetadata) (aggr : EntityAggregator)
    (haggr : EntityAggregator.new l = some aggr)
    (hpending : ∃ m ∈ l, m.blockOffset = none ∨ IsMarker m) :
    NotCollected l aggr ↔ (∃ m ∈ l, IsMarker m) ∨ TakesPending l := by
  obtain ⟨s, hrun, rfl⟩ := Option.map_eq_some_iff.mp haggr
  have hscanned := scanned_run scanned_start l hrun
  rw [List.nil_append] at hscanned
  have hl : l ≠ [] := by
    obtain ⟨m, hm, -⟩ := hpending
    exact List.ne_nil_of_mem hm
  rw [← hscanned.marker, ← hscanned.pending]
  constructor
  · intro hnone
    by_contra hflags
    rw [not_or, Bool.not_eq_true, Bool.not_eq_true] at hflags
    exact genEntityCollections_ne_nil hscanned hl hflags.2 hflags.1 .same (hnone _ _ _).1
  · intro hflags config now order
    have hset : ((EntityAggregator.ofAggregation s).inPending ||
        (EntityAggregator.ofAggregation s).pendingDeletion) = true := by
      rcases hflags with hflag | hflag <;> simp [EntityAggregator.ofAggregation, hflag]
    have hgen : genEntityCollections config now order (EntityAggregator.ofAggregation s) = [] := by
      rw [genEntityCollections, if_pos hset]
    refine ⟨hgen, fun minOpTime => ?_⟩
    rw [runEntity, haggr]
    simp only [Option.bind_eq_bind, Option.bind_some, hgen, List.mapM_nil]
    rfl

/-- A version of one trait, committed at an offset or pending. -/
def version (id : OperationId) (offset : Option BlockOffset) : MutationMetadata :=
  ⟨id, offset, "entity", .traitPut ⟨"trt1", some "typ", none, none, false⟩⟩

/-- Four versions in the chain, and an older one that is still pending. -/
def latePending : List MutationMetadata :=
  [version 2 (some 2), version 3 (some 3), version 4 (some 4), version 5 (some 5), version 1 none]

/-- The flag is not raised, and the trait is due for a compaction. -/
theorem latePending_collected : ∃ aggr, EntityAggregator.new latePending = some aggr ∧
    genEntityCollections ⟨10, 10, 2, 3, 1, 500⟩ 10 .same aggr = [.compactTrait "trt1"] ∧
      ¬ NotCollected latePending aggr := by
  have hnew : (EntityAggregator.new latePending).isSome = true := by decide +kernel
  obtain ⟨aggr, haggr⟩ := Option.isSome_iff_exists.mp hnew
  have hgen : (EntityAggregator.new latePending).map
      (genEntityCollections ⟨10, 10, 2, 3, 1, 500⟩ 10 .same) = some [.compactTrait "trt1"] := by
    decide +kernel
  rw [haggr, Option.map_some] at hgen
  have hcollected := Option.some.inj hgen
  refine ⟨aggr, haggr, hcollected, fun h => ?_⟩
  rw [(h _ _ _).1] at hcollected
  contradiction

/-- A pending version that is the newest one holds the collector back. -/
theorem newestPending_notCollected : ∃ aggr,
    EntityAggregator.new [version 2 (some 2), version 3 none] = some aggr ∧
      NotCollected [version 2 (some 2), version 3 none] aggr := by
  have hnew : (EntityAggregator.new [version 2 (some 2), version 3 none]).isSome = true := by
    decide +kernel
  obtain ⟨aggr, haggr⟩ := Option.isSome_iff_exists.mp hnew
  refine ⟨aggr, haggr, (pending_notCollected_iff _ aggr haggr
    ⟨version 3 none, by simp, Or.inl rfl⟩).mpr (Or.inr ?_)⟩
  refine ⟨[version 2 (some 2)], version 3 none, [], rfl, rfl, ?_⟩
  rintro (⟨traitId, front, x, rear, -, hl, -, hlt⟩ | ⟨hkind, -⟩)
  · have hx : x ∈ [version 2 (some 2)] := by rw [hl]; simp
    rw [List.mem_singleton.mp hx] at hlt
    revert hlt
    decide
  · simp [version] at hkind

end Exocore.Store
