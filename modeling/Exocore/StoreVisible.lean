import Exocore.StoreAggregatorSpec

/-! What is visible of an entity while its operations move from the pending index to the index
of the chain. -/
namespace Exocore.Store

namespace EntityAggregator

def isLive (e : EntityAggregator) (traitId : TraitId) : Bool :=
  match e.traits.lookup traitId with
  | some agg => agg.deletionDate.isNone
  | none => false

/-- The last put of a trait, wherever it is indexed. -/
def lastPut (e : EntityAggregator) (traitId : TraitId) : Option (OperationId × PutTraitMetadata) :=
  ((e.traits.lookup traitId).bind TraitAggregator.lastPutMutation).map fun (m, put) =>
    (m.operationId, put)

def lastOperation (e : EntityAggregator) (traitId : TraitId) : Option OperationId :=
  (e.traits.lookup traitId).bind TraitAggregator.lastOperationId

def isDeleted (e : EntityAggregator) : Bool := e.deletionDate.isSome

end EntityAggregator

theorem decides_unique {traitId : TraitId} {l : List MutationMetadata} {w w' : MutationMetadata}
    (hnodup : (l.map MutationMetadata.operationId).Nodup) (h : Decides traitId l w)
    (h' : Decides traitId l w') : w = w' := by
  obtain ⟨before, after, hl, haffects⟩ := h.affects
  obtain ⟨before', after', hl', haffects'⟩ := h'.affects
  refine List.inj_on_of_nodup_map hnodup h.mem h'.mem (le_antisymm ?_ ?_)
  · exact h'.newest before w after hl haffects
  · exact h.newest before' w' after' hl' haffects'

/-- What the aggregator shows of a trait is decided by one mutation. -/
structure Decided (l : List MutationMetadata) (e : EntityAggregator) : Prop where
  last : ∀ traitId w, Decides traitId l w → e.lastOperation traitId = some w.operationId
  put : ∀ traitId w put, Decides traitId l w → w.mutationType = .traitPut put →
    e.isLive traitId = true ∧ e.lastPut traitId = some (w.operationId, put)
  live : ∀ traitId, e.isLive traitId = true →
    ∃ w put, Decides traitId l w ∧ w.mutationType = .traitPut put
  lastDecides : ∀ traitId id, e.lastOperation traitId = some id →
    ∃ w, Decides traitId l w ∧ w.operationId = id
  deleted : e.isDeleted = true ↔ l ≠ [] ∧ ∀ traitId, e.isLive traitId = false

theorem new_decided (l : List MutationMetadata)
    (hkinds : ∀ m ∈ l, m.mutationType ≠ .pendingDeletion)
    (hnodup : (l.map MutationMetadata.operationId).Nodup) :
    ∃ e, EntityAggregator.new l = some e ∧ Decided l e := by
  obtain ⟨s, hrun, hmerged⟩ := run_merged l merged_start hkinds hnodup
  rw [List.nil_append] at hmerged
  refine ⟨_, by rw [EntityAggregator.new, hrun]; rfl, ?_⟩
  have hseen : ∀ traitId w, Decides traitId l w →
      ∃ agg, s.traits.lookup traitId = some agg ∧ Shows agg w := by
    intro traitId w hw
    cases hlookup : s.traits.lookup traitId with
    | none =>
      obtain ⟨before, after, hl, haffects⟩ := hw.affects
      obtain ⟨a, ha, honTrait⟩ := haffects.seen after
      exact absurd honTrait (hmerged.traits.unseen traitId hlookup a (hl ▸ ha))
    | some agg =>
      obtain ⟨w', hw', hshows⟩ := hmerged.traits.seen traitId agg hlookup
      rw [decides_unique hnodup hw hw']
      exact ⟨agg, rfl, hshows⟩
  have hlive : ∀ traitId, (EntityAggregator.ofAggregation s).isLive traitId = false ↔
      ∀ agg, s.traits.lookup traitId = some agg → agg.deletionDate.isSome = true := by
    intro traitId
    have htraits : (EntityAggregator.ofAggregation s).traits = s.traits := rfl
    rw [EntityAggregator.isLive, htraits]
    cases s.traits.lookup traitId with
    | none => simp
    | some agg => cases agg.deletionDate <;> simp_all
  refine ⟨?_, ?_, ?_, ?_, ?_⟩
  · intro traitId w hw
    obtain ⟨agg, hlookup, hshows⟩ := hseen traitId w hw
    rw [EntityAggregator.lastOperation, show (EntityAggregator.ofAggregation s).traits = s.traits
      from rfl, hlookup, Option.bind_some, hshows.last]
  · intro traitId w put hw hput
    obtain ⟨agg, hlookup, hshows⟩ := hseen traitId w hw
    obtain ⟨hdate, hlast⟩ := hshows.put put hput
    have htraits : (EntityAggregator.ofAggregation s).traits = s.traits := rfl
    constructor
    · rw [EntityAggregator.isLive, htraits, hlookup]
      simp [hdate]
    · rw [EntityAggregator.lastPut, htraits, hlookup]
      simp [TraitAggregator.lastPutMutation, hlast, hput]
  · intro traitId hlive'
    have hnot : ¬ ∀ agg, s.traits.lookup traitId = some agg → agg.deletionDate.isSome = true := by
      rw [← hlive, hlive']
      simp
    push Not at hnot
    obtain ⟨agg, hlookup, hdate⟩ := hnot
    obtain ⟨w, hw, hshows⟩ := hmerged.traits.seen traitId agg hlookup
    by_contra hnone
    push Not at hnone
    exact hdate (hshows.deleted fun put hput => hnone w put hw hput)
  · intro traitId id hlast
    rw [EntityAggregator.lastOperation, Option.bind_eq_some_iff] at hlast
    obtain ⟨agg, hlookup, hagg⟩ := hlast
    obtain ⟨w, hw, hshows⟩ := hmerged.traits.seen traitId agg hlookup
    rw [hshows.last] at hagg
    exact ⟨w, hw, Option.some.inj hagg⟩
  · have hdate : (EntityAggregator.ofAggregation s).isDeleted = s.deletionDate.isSome := rfl
    rw [hdate, hmerged.deleted]
    simp only [hlive]
    rfl

section Indices
variable (offset : OperationId → BlockOffset)

/-- The last offset that the chain index has, and nothing before it has any. -/
abbrev Cutoff := WithBot BlockOffset

def inChain (cutoff : Cutoff) (m : MutationMetadata) : Bool :=
  (offset m.operationId : Cutoff) ≤ cutoff

/-- The mutation as its index gives it. -/
def placed (cutoff : Cutoff) (m : MutationMetadata) : MutationMetadata :=
  { m with blockOffset := if inChain offset cutoff m then some (offset m.operationId) else none }

def chainIndex (cutoff : Cutoff) (ops : List MutationMetadata) : List MutationMetadata :=
  (ops.filter (inChain offset cutoff)).map (placed offset cutoff)

def pendingIndex (cutoff : Cutoff) (ops : List MutationMetadata) : List MutationMetadata :=
  (ops.filter fun m => !inChain offset cutoff m).map (placed offset cutoff)

/-- The operations of blocks up to the cut-off are in the chain index, the others are not. -/
def aggregate (cutoff : Cutoff) (ops : List MutationMetadata) : Option EntityAggregator :=
  EntityAggregator.new (fetchEntityMutationsMetadata (pendingIndex offset cutoff ops)
    (chainIndex offset cutoff ops))

end Indices

theorem dedupResults_of_nodup (fuel : ℕ) (prev : Option OperationId) (l : List MutationMetadata)
    (hprev : ∀ m ∈ l, prev ≠ some m.operationId)
    (hnodup : (l.map MutationMetadata.operationId).Nodup) : dedupResults fuel prev l = l := by
  induction l generalizing fuel prev with
  | nil => cases fuel <;> rfl
  | cons m rest ih =>
    cases fuel with
    | zero => rfl
    | succ fuel =>
      rw [List.map_cons, List.nodup_cons] at hnodup
      rw [dedupResults, if_neg (hprev m List.mem_cons_self), ih fuel _ ?_ hnodup.2]
      intro x hx heq
      apply hnodup.1
      rw [Option.some.inj heq]
      exact List.mem_map_of_mem hx

theorem fetchEntityMutations_perm (index : List MutationMetadata)
    (hlength : index.length ≤ entityMaxTraits)
    (hnodup : (index.map MutationMetadata.operationId).Nodup) :
    (fetchEntityMutations index).Perm index := by
  have hperm := List.perm_insertionSort (fun a b : MutationMetadata =>
    a.operationId ≤ b.operationId) index
  have htake : (index.insertionSort fun a b => a.operationId ≤ b.operationId).take
      entityMaxTraits = index.insertionSort fun a b => a.operationId ≤ b.operationId :=
    List.take_of_length_le (by rw [hperm.length_eq]; exact hlength)
  rw [fetchEntityMutations]
  simp only [htake]
  rw [dedupResults_of_nodup _ none _ (by simp)]
  · exact hperm
  · exact (hperm.map _).nodup_iff.mpr hnodup

section Order
variable (offset : OperationId → BlockOffset) (cutoff : Cutoff) (ops : List MutationMetadata)

theorem map_placed_operationId (l : List MutationMetadata) :
    (l.map (placed offset cutoff)).map MutationMetadata.operationId =
      l.map MutationMetadata.operationId := by
  rw [List.map_map]
  rfl

/-- The mutations come in the order of their keys, each once. -/
theorem fetch_sorted (hlength : ops.length ≤ entityMaxTraits)
    (hnodup : (ops.map MutationMetadata.operationId).Nodup) :
    let l := fetchEntityMutationsMetadata (pendingIndex offset cutoff ops)
      (chainIndex offset cutoff ops)
    l.Perm (ops.map (placed offset cutoff)) ∧ l.Pairwise (fun a b => commitKey a < commitKey b) := by
  -- the parts of the indices hold no more than the operations
  have hpart : ∀ p : MutationMetadata → Bool,
      (fetchEntityMutations ((ops.filter p).map (placed offset cutoff))).Perm
        ((ops.filter p).map (placed offset cutoff)) := by
    intro p
    apply fetchEntityMutations_perm
    · rw [List.length_map]
      exact (List.length_filter_le p ops).trans hlength
    · rw [map_placed_operationId]
      exact hnodup.sublist (List.filter_sublist.map _)
  have hunion : (fetchEntityMutations (pendingIndex offset cutoff ops) ++
      fetchEntityMutations (chainIndex offset cutoff ops)).Perm (ops.map (placed offset cutoff)) := by
    refine ((hpart _).append (hpart _)).trans ?_
    rw [← List.map_append]
    exact (List.perm_append_comm.trans (List.filter_append_perm _ ops)).map _
  simp only [fetchEntityMutationsMetadata]
  generalize fetchEntityMutations (pendingIndex offset cutoff ops) ++
    fetchEntityMutations (chainIndex offset cutoff ops) = mutations at hunion ⊢
  have hsort := List.perm_insertionSort (fun a b : MutationMetadata =>
    commitKey a ≤ commitKey b) mutations
  have hids : ((mutations.insertionSort fun a b => commitKey a ≤ commitKey b).map
      MutationMetadata.operationId).Nodup := by
    rw [((hsort.trans hunion).map _).nodup_iff, map_placed_operationId]
    exact hnodup
  have hdistinct : (mutations.insertionSort fun a b => commitKey a ≤ commitKey b).Pairwise
      fun a b => a.operationId ≠ b.operationId := List.pairwise_map.mp hids
  have hle : (mutations.insertionSort fun a b => commitKey a ≤ commitKey b).Pairwise
      fun a b => commitKey a ≤ commitKey b := by
    have : Std.Total fun a b : MutationMetadata => commitKey a ≤ commitKey b :=
      ⟨fun a b => le_total _ _⟩
    have : IsTrans MutationMetadata fun a b => commitKey a ≤ commitKey b :=
      ⟨fun a b c => le_trans⟩
    exact List.pairwise_insertionSort _ _
  rw [List.destutter_of_isChain _ _ hdistinct.isChain]
  refine ⟨hsort.trans hunion, ?_⟩
  refine (hle.and hdistinct).imp ?_
  rintro a b ⟨hkey, hid⟩
  refine lt_of_le_of_ne hkey fun heq => hid ?_
  exact congrArg (fun k => (ofLex k).2) heq

/-- In the order of the keys at this cut-off. -/
def Precedes (a b : MutationMetadata) : Prop :=
  commitKey (placed offset cutoff a) < commitKey (placed offset cutoff b)

/-- What `Affects` says of a mutation at its place in the order. -/
def AffectsAt (traitId : TraitId) (m : MutationMetadata) : Prop :=
  m ∈ ops ∧ (OnTrait traitId m ∨ m.mutationType = .entityTombstone ∧
    (∃ a ∈ ops, OnTrait traitId a ∧ Precedes offset cutoff a m) ∧
    ∀ o ∈ ops, Precedes offset cutoff o m → o.operationId < m.operationId)

/-- In a list that is sorted by a key, those before an element are those with a lower key. -/
theorem mem_before_iff {A K : Type} [LinearOrder K] (key : A → K) (l before after : List A) (w a : A)
    (hsorted : l.Pairwise fun a b => key a < key b) (hl : l = before ++ w :: after) :
    a ∈ before ↔ a ∈ l ∧ key a < key w := by
  rw [hl, List.pairwise_append] at hsorted
  obtain ⟨-, hafter, hbefore⟩ := hsorted
  constructor
  · intro ha
    exact ⟨by rw [hl]; exact List.mem_append_left _ ha, hbefore a ha w List.mem_cons_self⟩
  · rintro ⟨ha, hlt⟩
    rw [hl, List.mem_append, List.mem_cons] at ha
    rcases ha with ha | rfl | ha
    · exact ha
    · exact absurd hlt (lt_irrefl _)
    · exact absurd hlt (List.rel_of_pairwise_cons hafter ha).le.not_gt

theorem affects_placed (l before after : List MutationMetadata) (m : MutationMetadata)
    (hm : m ∈ ops) (hperm : l.Perm (ops.map (placed offset cutoff)))
    (hsorted : l.Pairwise fun a b => commitKey a < commitKey b) (traitId : TraitId)
    (hl : l = before ++ placed offset cutoff m :: after) :
    Affects traitId before (placed offset cutoff m) ↔ AffectsAt offset cutoff ops traitId m := by
  have hmem : ∀ a, a ∈ before ↔
      ∃ o ∈ ops, placed offset cutoff o = a ∧ Precedes offset cutoff o m := by
    intro a
    rw [mem_before_iff commitKey l before after _ a hsorted hl, hperm.mem_iff, List.mem_map]
    constructor
    · rintro ⟨⟨o, ho, rfl⟩, hlt⟩
      exact ⟨o, ho, rfl, hlt⟩
    · rintro ⟨o, ho, rfl, hlt⟩
      exact ⟨⟨o, ho, rfl⟩, hlt⟩
  rw [Affects, AffectsAt, and_iff_right hm]
  simp only [hmem]
  constructor
  · rintro (hon | ⟨htomb, ⟨a, ⟨o, ho, rfl, hlt⟩, hona⟩, hall⟩)
    · exact Or.inl hon
    · exact Or.inr ⟨htomb, ⟨o, ho, hona, hlt⟩, fun x hx hxm =>
        hall (placed offset cutoff x) ⟨x, hx, rfl, hxm⟩⟩
  · rintro (hon | ⟨htomb, ⟨o, ho, hono, hlt⟩, hall⟩)
    · exact Or.inl hon
    · refine Or.inr ⟨htomb, ⟨_, ⟨o, ho, rfl, hlt⟩, hono⟩, ?_⟩
      rintro x ⟨y, hy, rfl, hym⟩
      exact hall y hy hym

/-- The newest mutation that affects the trait, in the order at this cut-off. -/
structure DecidesAt (traitId : TraitId) (w : MutationMetadata) : Prop where
  affects : AffectsAt offset cutoff ops traitId w
  newest : ∀ m, AffectsAt offset cutoff ops traitId m → m.operationId ≤ w.operationId

theorem decides_placed_iff (l : List MutationMetadata)
    (hperm : l.Perm (ops.map (placed offset cutoff)))
    (hsorted : l.Pairwise fun a b => commitKey a < commitKey b) (traitId : TraitId)
    (w : MutationMetadata) :
    Decides traitId l w ↔ ∃ m, placed offset cutoff m = w ∧ DecidesAt offset cutoff ops traitId m := by
  -- each mutation stands at one place of the list
  have hplace : ∀ m ∈ ops, ∃ before after, l = before ++ placed offset cutoff m :: after :=
    fun m hm => List.append_of_mem (hperm.mem_iff.mpr (List.mem_map_of_mem hm))
  have hsource : ∀ x ∈ l, ∃ m ∈ ops, placed offset cutoff m = x := by
    intro x hx
    exact List.mem_map.mp (hperm.mem_iff.mp hx)
  constructor
  · intro hw
    obtain ⟨m, hm, rfl⟩ := hsource w hw.mem
    obtain ⟨before, after, hl, haffects⟩ := hw.affects
    refine ⟨m, rfl, (affects_placed offset cutoff ops l before after m hm hperm hsorted traitId
      hl).mp haffects, ?_⟩
    intro x hx
    obtain ⟨before', after', hl'⟩ := hplace x hx.1
    exact hw.newest before' (placed offset cutoff x) after' hl' ((affects_placed offset cutoff ops
      l before' after' x hx.1 hperm hsorted traitId hl').mpr hx)
  · rintro ⟨m, rfl, hm⟩
    obtain ⟨before, after, hl⟩ := hplace m hm.affects.1
    refine ⟨⟨before, after, hl, (affects_placed offset cutoff ops l before after m hm.affects.1
      hperm hsorted traitId hl).mpr hm.affects⟩, ?_⟩
    intro before' x after' hl' hx
    obtain ⟨o, ho, rfl⟩ := hsource x (by rw [hl']; simp)
    exact hm.newest o ((affects_placed offset cutoff ops l before' after' o ho hperm hsorted traitId
      hl').mp hx)

/-- What the aggregator shows at a cut-off. -/
structure DecidedAt (e : EntityAggregator) : Prop where
  put : ∀ traitId w put, DecidesAt offset cutoff ops traitId w → w.mutationType = .traitPut put →
    e.isLive traitId = true ∧ e.lastPut traitId = some (w.operationId, put)
  live : ∀ traitId, e.isLive traitId = true →
    ∃ w put, DecidesAt offset cutoff ops traitId w ∧ w.mutationType = .traitPut put
  lastDecides : ∀ traitId id, e.lastOperation traitId = some id →
    ∃ w, DecidesAt offset cutoff ops traitId w ∧ w.operationId = id
  deleted : e.isDeleted = true ↔ ops ≠ [] ∧ ∀ traitId, e.isLive traitId = false

theorem aggregate_decided (hlength : ops.length ≤ entityMaxTraits)
    (hnodup : (ops.map MutationMetadata.operationId).Nodup)
    (hkinds : ∀ m ∈ ops, m.mutationType ≠ .pendingDeletion) :
    ∃ e, aggregate offset cutoff ops = some e ∧ DecidedAt offset cutoff ops e := by
  obtain ⟨hperm, hsorted⟩ := fetch_sorted offset cutoff ops hlength hnodup
  have hdecides := decides_placed_iff offset cutoff ops _ hperm hsorted
  rw [aggregate]
  generalize fetchEntityMutationsMetadata (pendingIndex offset cutoff ops)
    (chainIndex offset cutoff ops) = l at hperm hsorted hdecides
  have hkinds' : ∀ m ∈ l, m.mutationType ≠ .pendingDeletion := by
    intro m hm
    obtain ⟨o, ho, rfl⟩ := List.mem_map.mp (hperm.mem_iff.mp hm)
    exact hkinds o ho
  have hnodup' : (l.map MutationMetadata.operationId).Nodup := by
    rw [(hperm.map _).nodup_iff, map_placed_operationId]
    exact hnodup
  obtain ⟨e, he, hdecided⟩ := new_decided l hkinds' hnodup'
  refine ⟨e, he, ?_, ?_, ?_, ?_⟩
  · intro traitId w put hw hput
    exact hdecided.put traitId (placed offset cutoff w) put ((hdecides _ _).mpr ⟨w, rfl, hw⟩) hput
  · intro traitId hlive
    obtain ⟨w, put, hw, hput⟩ := hdecided.live traitId hlive
    obtain ⟨m, rfl, hm⟩ := (hdecides _ _).mp hw
    exact ⟨m, put, hm, hput⟩
  · intro traitId id hlast
    obtain ⟨w, hw, hid⟩ := hdecided.lastDecides traitId id hlast
    obtain ⟨m, rfl, hm⟩ := (hdecides _ _).mp hw
    exact ⟨m, hm, hid⟩
  · have hnil : l = [] ↔ ops = [] := by
      rw [← List.length_eq_zero_iff, hperm.length_eq, List.length_map, List.length_eq_zero_iff]
    rw [hdecided.deleted, ne_eq, ne_eq, hnil]

end Order

end Exocore.Store
