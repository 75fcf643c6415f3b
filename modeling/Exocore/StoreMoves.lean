import Exocore.StoreVisible

/-! When the move of operations from the pending index to the index of the chain keeps what is
visible of an entity. -/
namespace Exocore.Store

structure SameVisible (e e' : EntityAggregator) : Prop where
  live : ∀ traitId, e.isLive traitId = e'.isLive traitId
  lastPut : ∀ traitId, e.isLive traitId = true → e.lastPut traitId = e'.lastPut traitId
  deleted : e.isDeleted = e'.isDeleted

/-- The mutation is on the trait, or deletes it with the whole entity. -/
def Concerns (traitId : TraitId) (m : MutationMetadata) : Prop :=
  OnTrait traitId m ∨ m.mutationType = .entityTombstone

def IsPut (m : MutationMetadata) : Prop := ∃ put, m.mutationType = .traitPut put

/-- Of two mutations in conflict over a trait the older one, where it was committed after the
newer one, is not what the trait is left with. Two deletions are not in conflict. -/
def DiscardsOld (offset : OperationId → BlockOffset) (ops : List MutationMetadata)
    (e : EntityAggregator) : Prop :=
  ∀ traitId, ∀ old ∈ ops, ∀ new ∈ ops, Concerns traitId old → Concerns traitId new →
    IsPut old ∨ IsPut new → old.operationId < new.operationId →
    offset new.operationId < offset old.operationId →
    e.lastOperation traitId ≠ some old.operationId

/-- For every two cut-offs the same is visible, and old operations are discarded. -/
def KeepsVisible (offset : OperationId → BlockOffset) (ops : List MutationMetadata) : Prop :=
  (∀ cutoff cutoff' : Cutoff, cutoff ≤ cutoff' →
      ∃ e e', aggregate offset cutoff ops = some e ∧ aggregate offset cutoff' ops = some e' ∧
        SameVisible e e') ∧
    ∀ cutoff e, aggregate offset cutoff ops = some e → DiscardsOld offset ops e

def CommittedBefore (offset : OperationId → BlockOffset) (a b : MutationMetadata) : Prop :=
  offset a.operationId < offset b.operationId ∨
    offset a.operationId = offset b.operationId ∧ a.operationId < b.operationId

/-- The tombstone of the entity is committed behind an operation of the trait, and is newer than
all that is committed before it. -/
structure Wipes (offset : OperationId → BlockOffset) (ops : List MutationMetadata)
    (traitId : TraitId) (t : MutationMetadata) : Prop where
  mem : t ∈ ops
  tombstone : t.mutationType = .entityTombstone
  seen : ∃ a ∈ ops, OnTrait traitId a ∧ CommittedBefore offset a t
  newest : ∀ o ∈ ops, CommittedBefore offset o t → o.operationId < t.operationId

/-- The last operation on the trait. -/
def LastOnTrait (ops : List MutationMetadata) (traitId : TraitId) (p : MutationMetadata) : Prop :=
  p ∈ ops ∧ OnTrait traitId p ∧ ∀ a ∈ ops, OnTrait traitId a → a.operationId ≤ p.operationId

/-- A put that is the last operation on its trait and older than a tombstone of the entity is
older than one that was committed in order. -/
def TombstonesInOrder (offset : OperationId → BlockOffset) (ops : List MutationMetadata) : Prop :=
  ∀ traitId p, LastOnTrait ops traitId p → IsPut p →
    (∃ t ∈ ops, t.mutationType = .entityTombstone ∧ p.operationId < t.operationId) →
    ∃ t, Wipes offset ops traitId t ∧ p.operationId < t.operationId

section Keys
variable (offset : OperationId → BlockOffset)

theorem precedes_iff (cutoff : Cutoff) (a b : MutationMetadata) :
    Precedes offset cutoff a b ↔
      (placed offset cutoff a).blockOffset.getD maxOffset <
          (placed offset cutoff b).blockOffset.getD maxOffset ∨
        (placed offset cutoff a).blockOffset.getD maxOffset =
          (placed offset cutoff b).blockOffset.getD maxOffset ∧ a.operationId < b.operationId := by
  rw [Precedes, commitKey, commitKey, Prod.Lex.toLex_lt_toLex]
  rfl

theorem le_maxOffset (o : BlockOffset) : o ≤ maxOffset := by
  have h := o.isLt
  rw [Fin.le_def, maxOffset]
  simp only
  omega

theorem placed_of_le {cutoff : Cutoff} {m : MutationMetadata}
    (h : (offset m.operationId : Cutoff) ≤ cutoff) :
    (placed offset cutoff m).blockOffset.getD maxOffset = offset m.operationId := by
  simp [placed, inChain, h]

theorem placed_of_lt {cutoff : Cutoff} {m : MutationMetadata}
    (h : cutoff < (offset m.operationId : Cutoff)) :
    (placed offset cutoff m).blockOffset.getD maxOffset = maxOffset := by
  simp [placed, inChain, h.not_ge]

/-- Before any block is indexed the order is that of the operation ids. -/
theorem precedes_bot (a b : MutationMetadata) :
    Precedes offset ⊥ a b ↔ a.operationId < b.operationId := by
  rw [precedes_iff, placed_of_lt offset (WithBot.bot_lt_coe _),
    placed_of_lt offset (WithBot.bot_lt_coe _)]
  simp

/-- Once all are indexed it is the order of the commits. -/
theorem precedes_max (a b : MutationMetadata) :
    Precedes offset (maxOffset : Cutoff) a b ↔ CommittedBefore offset a b := by
  rw [precedes_iff, placed_of_le offset (WithBot.coe_le_coe.mpr (le_maxOffset _)),
    placed_of_le offset (WithBot.coe_le_coe.mpr (le_maxOffset _))]
  rfl

/-- What is committed before and older precedes at every cut-off. -/
theorem precedes_of_committedBefore (cutoff : Cutoff) (a t : MutationMetadata)
    (h : CommittedBefore offset a t) (hid : a.operationId < t.operationId) :
    Precedes offset cutoff a t := by
  have hle : offset a.operationId ≤ offset t.operationId := by
    rcases h with h | h
    · exact h.le
    · exact h.1.le
  rw [precedes_iff]
  by_cases ht : (offset t.operationId : Cutoff) ≤ cutoff
  · have ha := (WithBot.coe_le_coe.mpr hle).trans ht
    rw [placed_of_le offset ht, placed_of_le offset ha]
    exact h
  · rw [placed_of_lt offset (not_le.mp ht)]
    rcases lt_or_eq_of_le (le_maxOffset ((placed offset cutoff a).blockOffset.getD maxOffset)) with
      hlt | heq
    · exact Or.inl hlt
    · exact Or.inr ⟨heq, hid⟩

/-- What precedes at a cut-off is older, or was committed before. -/
theorem committedBefore_of_precedes (cutoff : Cutoff) (o t : MutationMetadata)
    (h : Precedes offset cutoff o t) :
    o.operationId < t.operationId ∨ CommittedBefore offset o t := by
  rw [precedes_iff] at h
  rcases h with h | ⟨-, hid⟩
  · by_cases ho : (offset o.operationId : Cutoff) ≤ cutoff
    · rw [placed_of_le offset ho] at h
      by_cases ht : (offset t.operationId : Cutoff) ≤ cutoff
      · rw [placed_of_le offset ht] at h
        exact Or.inr (Or.inl h)
      · exact Or.inr (Or.inl (WithBot.coe_lt_coe.mp (lt_of_le_of_lt ho (not_le.mp ht))))
    · rw [placed_of_lt offset (not_le.mp ho)] at h
      exact absurd h (le_maxOffset _).not_gt
  · exact Or.inl hid

end Keys

section Moves
variable {offset : OperationId → BlockOffset} {ops : List MutationMetadata}

theorem Wipes.affectsAt {traitId : TraitId} {t : MutationMetadata}
    (h : Wipes offset ops traitId t) (cutoff : Cutoff) : AffectsAt offset cutoff ops traitId t := by
  obtain ⟨a, ha, hon, hbefore⟩ := h.seen
  refine ⟨h.mem, Or.inr ⟨h.tombstone, ⟨a, ha, hon, ?_⟩, ?_⟩⟩
  · exact precedes_of_committedBefore offset cutoff a t hbefore (h.newest a ha hbefore)
  · intro o ho hprecedes
    rcases committedBefore_of_precedes offset cutoff o t hprecedes with hid | hcommitted
    · exact hid
    · exact h.newest o ho hcommitted

theorem wipes_of_affectsAt {traitId : TraitId} {t : MutationMetadata}
    (h : AffectsAt offset (maxOffset : Cutoff) ops traitId t) :
    OnTrait traitId t ∨ Wipes offset ops traitId t := by
  obtain ⟨hmem, hon | ⟨htomb, ⟨a, ha, hon, hbefore⟩, hnewest⟩⟩ := h
  · exact Or.inl hon
  · refine Or.inr ⟨hmem, htomb, ⟨a, ha, hon, (precedes_max offset a t).mp hbefore⟩, ?_⟩
    intro o ho hcommitted
    exact hnewest o ho ((precedes_max offset o t).mpr hcommitted)

theorem DecidesAt.lastOnTrait {cutoff : Cutoff} {traitId : TraitId} {w : MutationMetadata}
    (h : DecidesAt offset cutoff ops traitId w) (hput : IsPut w) : LastOnTrait ops traitId w := by
  obtain ⟨put, hput⟩ := hput
  refine ⟨h.affects.1, ?_, fun a ha hon => h.newest a ⟨ha, Or.inl hon⟩⟩
  rcases h.affects.2 with hon | ⟨htomb, -⟩
  · exact hon
  · rw [hput] at htomb
    contradiction

/-- What a trait shows where the newest of all that concerns it decides. -/
def NewestPut (ops : List MutationMetadata) (traitId : TraitId) (p : MutationMetadata) : Prop :=
  LastOnTrait ops traitId p ∧ IsPut p ∧
    ∀ t ∈ ops, t.mutationType = .entityTombstone → ¬ p.operationId < t.operationId

theorem decidesAt_put_iff (h : TombstonesInOrder offset ops) (cutoff : Cutoff) (traitId : TraitId)
    (p : MutationMetadata) :
    DecidesAt offset cutoff ops traitId p ∧ IsPut p ↔ NewestPut ops traitId p := by
  constructor
  · rintro ⟨hp, hput⟩
    refine ⟨hp.lastOnTrait hput, hput, ?_⟩
    intro t ht htomb hlt
    obtain ⟨t', hwipes, hlt'⟩ := h traitId p (hp.lastOnTrait hput) hput ⟨t, ht, htomb, hlt⟩
    exact absurd (hp.newest t' (hwipes.affectsAt cutoff)) hlt'.not_ge
  · rintro ⟨⟨hmem, hon, hlast⟩, hput, hnewest⟩
    refine ⟨⟨⟨hmem, Or.inl hon⟩, ?_⟩, hput⟩
    rintro m ⟨hm, honm | ⟨htomb, -⟩⟩
    · exact hlast m hm honm
    · exact not_lt.mp (hnewest m hm htomb)

/-- Before any block is indexed the newest decides. -/
theorem decidesAt_bot_newest (traitId : TraitId) (p : MutationMetadata)
    (hp : DecidesAt offset ⊥ ops traitId p) (hput : IsPut p) : NewestPut ops traitId p := by
  have hlast := hp.lastOnTrait hput
  refine ⟨hlast, hput, ?_⟩
  intro t ht htomb hlt
  refine absurd (hp.newest t ⟨ht, Or.inr ⟨htomb, ⟨p, hlast.1, hlast.2.1, ?_⟩, ?_⟩⟩) hlt.not_ge
  · exact (precedes_bot offset p t).mpr hlt
  · exact fun o _ ho => (precedes_bot offset o t).mp ho

/-- What is visible is the same at every cut-off, with old operations discarded, if and only if
the tombstones of the entity that count were committed in order. -/
theorem keepsVisible_iff (offset : OperationId → BlockOffset) (ops : List MutationMetadata)
    (hnodup : (ops.map MutationMetadata.operationId).Nodup)
    (hkinds : ∀ m ∈ ops, m.mutationType ≠ .pendingDeletion)
    (hlength : ops.length ≤ entityMaxTraits) :
    KeepsVisible offset ops ↔ TombstonesInOrder offset ops := by
  constructor
  · rintro ⟨hsame, -⟩ traitId p hlast hput ⟨t, ht, htomb, hlt⟩
    obtain ⟨e, e', he, he', hvisible⟩ := hsame ⊥ (maxOffset : Cutoff) bot_le
    obtain ⟨e₁, he₁, hdecided⟩ := aggregate_decided offset ⊥ ops hlength hnodup hkinds
    obtain ⟨e₂, he₂, hdecided'⟩ := aggregate_decided offset (maxOffset : Cutoff) ops hlength hnodup
      hkinds
    obtain rfl : e₁ = e := Option.some.inj (he₁.symm.trans he)
    obtain rfl : e₂ = e' := Option.some.inj (he₂.symm.trans he')
    by_contra hnone
    push Not at hnone
    -- with all in the chain the put decides, so the trait is live
    have hdecides : DecidesAt offset (maxOffset : Cutoff) ops traitId p := by
      refine ⟨⟨hlast.1, Or.inl hlast.2.1⟩, ?_⟩
      intro m hm
      rcases wipes_of_affectsAt hm with hon | hwipes
      · exact hlast.2.2 m hm.1 hon
      · exact hnone m hwipes
    obtain ⟨put, hput'⟩ := hput
    have hlive := (hdecided'.put traitId p put hdecides hput').1
    rw [← hvisible.live] at hlive
    -- before any block is indexed it is not
    obtain ⟨w, put', hw, hwput⟩ := hdecided.live traitId hlive
    obtain ⟨hwlast, -, hwnewest⟩ := decidesAt_bot_newest traitId w hw ⟨put', hwput⟩
    exact hwnewest t ht htomb (lt_of_le_of_lt (hlast.2.2 w hwlast.1 hwlast.2.1) hlt)
  · intro h
    constructor
    · intro cutoff cutoff' _
      obtain ⟨e, he, hdecided⟩ := aggregate_decided offset cutoff ops hlength hnodup hkinds
      obtain ⟨e', he', hdecided'⟩ := aggregate_decided offset cutoff' ops hlength hnodup hkinds
      -- what one of them shows the other shows
      have hmove : ∀ (c c' : Cutoff) (x x' : EntityAggregator), DecidedAt offset c ops x →
          DecidedAt offset c' ops x' → ∀ traitId, x.isLive traitId = true →
          x'.isLive traitId = true ∧ x.lastPut traitId = x'.lastPut traitId := by
        intro c c' x x' hx hx' traitId hlive
        obtain ⟨w, put, hw, hput⟩ := hx.live traitId hlive
        have hnewest := (decidesAt_put_iff h c traitId w).mp ⟨hw, put, hput⟩
        have hw' := ((decidesAt_put_iff h c' traitId w).mpr hnewest).1
        obtain ⟨hlive', hlast'⟩ := hx'.put traitId w put hw' hput
        exact ⟨hlive', (hx.put traitId w put hw hput).2.trans hlast'.symm⟩
      have hlive : ∀ traitId, e.isLive traitId = e'.isLive traitId := by
        intro traitId
        rw [Bool.eq_iff_iff]
        exact ⟨fun hl => (hmove _ _ e e' hdecided hdecided' traitId hl).1,
          fun hl => (hmove _ _ e' e hdecided' hdecided traitId hl).1⟩
      refine ⟨e, e', he, he', hlive, fun traitId hl => (hmove _ _ e e' hdecided hdecided' traitId
        hl).2, ?_⟩
      rw [Bool.eq_iff_iff, hdecided.deleted, hdecided'.deleted]
      simp only [hlive]
    · intro cutoff e he traitId old hold new hnew hconcerns hconcerns' hputs hlt hoff hlast
      obtain ⟨e₁, he₁, hdecided⟩ := aggregate_decided offset cutoff ops hlength hnodup hkinds
      obtain rfl : e₁ = e := Option.some.inj (he₁.symm.trans he)
      obtain ⟨w, hw, hid⟩ := hdecided.lastDecides traitId old.operationId hlast
      obtain rfl : w = old := List.inj_on_of_nodup_map hnodup hw.affects.1 hold hid
      rcases hconcerns' with hon | htomb
      · exact absurd (hw.newest new ⟨hnew, Or.inl hon⟩) hlt.not_ge
      · have hput : IsPut w := by
          rcases hputs with hput | ⟨put, hput⟩
          · exact hput
          · rw [htomb] at hput
            contradiction
        obtain ⟨-, -, hnewest⟩ := (decidesAt_put_iff h cutoff traitId w).mp ⟨hw, hput⟩
        exact hnewest new hnew htomb hlt

end Moves

/-! A put of a trait, and a tombstone of its entity that is newer. -/

def putMutation : MutationMetadata :=
  ⟨3, none, "entity", .traitPut ⟨"trait", none, none, none, false⟩⟩

def tombstoneMutation : MutationMetadata := ⟨5, none, "entity", .entityTombstone⟩

/-- The tombstone is committed in the block at 10, the older put in the one at 20. -/
def lateOffset (id : OperationId) : BlockOffset := if id = 3 then 20 else 10

/-- The put that is committed late is back once both are in the chain index. -/
theorem latePut_not_keepsVisible : ¬ KeepsVisible lateOffset [putMutation, tombstoneMutation] := by
  rintro ⟨hsame, -⟩
  obtain ⟨e, e', he, he', hvisible⟩ := hsame ⊥ (20 : BlockOffset) bot_le
  have hbefore : (aggregate lateOffset ⊥ [putMutation, tombstoneMutation]).map
      (·.isLive "trait") = some false := by decide +kernel
  have hafter : (aggregate lateOffset (20 : BlockOffset) [putMutation, tombstoneMutation]).map
      (·.isLive "trait") = some true := by decide +kernel
  rw [he, Option.map_some] at hbefore
  rw [he', Option.map_some] at hafter
  have hlive := hvisible.live "trait"
  rw [Option.some.inj hbefore, Option.some.inj hafter] at hlive
  contradiction

def promptOffset (id : OperationId) : BlockOffset := if id = 3 then 10 else 20

theorem promptPut_inOrder : TombstonesInOrder promptOffset [putMutation, tombstoneMutation] := by
  rintro traitId p ⟨hmem, hon, -⟩ ⟨put, hput⟩ -
  obtain rfl : p = putMutation := by
    rcases List.mem_cons.mp hmem with rfl | hmem
    · rfl
    · rw [List.mem_singleton.mp hmem] at hput
      contradiction
  refine ⟨tombstoneMutation, ⟨by simp, rfl, ⟨putMutation, by simp, hon, by
    left; decide⟩, ?_⟩, by decide⟩
  intro o ho hbefore
  rcases List.mem_cons.mp ho with rfl | ho
  · decide
  · rw [List.mem_singleton.mp ho] at hbefore
    rcases hbefore with h | ⟨-, h⟩ <;> exact absurd h (lt_irrefl _)

theorem promptPut_keepsVisible : KeepsVisible promptOffset [putMutation, tombstoneMutation] :=
  (keepsVisible_iff promptOffset _ (by decide) (by decide) (by decide)).mpr promptPut_inOrder

end Exocore.Store
