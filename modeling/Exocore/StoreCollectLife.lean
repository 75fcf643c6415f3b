import Exocore.StoreCollected

/-! What a collection leaves of an entity. The mutations that are removed may have held back a
late one, or carried the oldest date of a trait. -/
namespace Exocore.Store
open scoped Classical

open GarbageCollector

/-- The same traits are live, with the same last puts and dates of creation. -/
structure SameEntity (e e' : EntityAggregator) : Prop where
  live : ∀ traitId, e.isLive traitId = e'.isLive traitId
  last : ∀ traitId, e.isLive traitId = true → e.lastPut traitId = e'.lastPut traitId
  created : ∀ traitId, e.isLive traitId = true →
    e.traitCreationDate traitId = e'.traitCreationDate traitId

/-- The collector leaves the mutation, by its rules. -/
noncomputable def isLeft (config : GarbageCollectorConfig) (minOpTime now : DateTime)
    (l : List MutationMetadata) (m : MutationMetadata) : Bool :=
  decide (¬ Collected config minOpTime now l m)

/-- What is late among all the mutations is late among those that stay. -/
def StaysLate (kept : MutationMetadata → Bool) (l : List MutationMetadata) : Prop :=
  ∀ front m rear, l = front ++ m :: rear → kept m = true → Late front m →
    Late (front.filter kept) m

/-- A put of the trait that was taken and stays, with no deletion behind it that stays. It was in
its life, but where a younger operation was made before an older deletion by their dates, which
are negative for ids from 2^63 on. -/
structure LeftInLife (kept : MutationMetadata → Bool) (traitId : TraitId)
    (l : List MutationMetadata) (p : MutationMetadata) (put : PutTraitMetadata) : Prop where
  kind : p.mutationType = .traitPut put
  trait : put.traitId = traitId
  stays : kept p = true
  open_ : ∃ front rear, l = front ++ p :: rear ∧ ¬ Late front p ∧
    ∀ middle d rest, rear = middle ++ d :: rest → kept d = true →
      ¬ Ends traitId (front ++ p :: middle) d

/-- No put of the life of a trait is older than all those that are left of it, and none of these
is older than the life. -/
def DatesStay (kept : MutationMetadata → Bool) (l : List MutationMetadata) : Prop :=
  ∀ traitId, (∀ q put, InLife traitId l q put → ∃ p put', LeftInLife kept traitId l p put' ∧
      createdAt p.operationId put' ≤ createdAt q.operationId put) ∧
    ∀ p put, LeftInLife kept traitId l p put → ∃ q put', InLife traitId l q put' ∧
      createdAt q.operationId put' ≤ createdAt p.operationId put

section Kept

variable {kept : MutationMetadata → Bool} {l : List MutationMetadata}

/-- A part of what is kept comes from a part of the whole. -/
theorem filter_split {front rear : List MutationMetadata} {m : MutationMetadata}
    (h : l.filter kept = front ++ m :: rear) :
    ∃ front' rear', l = front' ++ m :: rear' ∧ front'.filter kept = front ∧
      rear'.filter kept = rear ∧ kept m = true := by
  obtain ⟨l₁, l₂, rfl, hfront, hrest⟩ := List.filter_eq_append_iff.mp h
  obtain ⟨skipped, rear', rfl, hskipped, hm, hrear⟩ := List.filter_eq_cons_iff.mp hrest
  refine ⟨l₁ ++ skipped, rear', by simp, ?_, hrear, hm⟩
  rw [List.filter_append, hfront, List.filter_eq_nil_iff.mpr hskipped, List.append_nil]

/-- What is late among the kept was late before. -/
theorem StaysLate.late_of_filter (h : StaysLate kept l) (front rear : List MutationMetadata)
    (hl : l = front ++ rear) (m : MutationMetadata) (hlate : Late (front.filter kept) m) :
    Late front m := by
  rcases hlate with ⟨traitId, front', x, rear', hon, hsplit, hx, hlt⟩ | ⟨hkind, o, ho, hlt⟩
  · obtain ⟨before, after, rfl, rfl, -, hkept⟩ := filter_split hsplit
    refine Or.inl ⟨traitId, before, x, after, hon, rfl, ?_, hlt⟩
    rcases hx with hx | ⟨hkind, ⟨a, ha, hona⟩, hnew⟩
    · exact Or.inl hx
    · -- a tombstone of the entity that is not late among the kept was not late before
      refine Or.inr ⟨hkind, ⟨a, List.mem_of_mem_filter ha, hona⟩, ?_⟩
      intro o ho
      by_contra hlt'
      have hstays := h before x (after ++ rear) (by rw [hl]; simp) hkept
        (Or.inr ⟨hkind, o, ho, not_le.mp hlt'⟩)
      rcases hstays with ⟨traitId', -, -, -, hon', -⟩ | ⟨-, o', ho', hlt''⟩
      · rw [OnTrait, hkind] at hon'
        cases hon'
      · exact absurd (hnew o' ho') hlt''.not_ge
  · exact Or.inr ⟨hkind, o, List.mem_of_mem_filter ho, hlt⟩

/-- Behind a mutation of the trait that is kept, a deletion that is kept ends its life among the
kept exactly when it did before. -/
theorem StaysLate.ends_filter (h : StaysLate kept l) (traitId : TraitId)
    (front rear : List MutationMetadata) (d : MutationMetadata) (hl : l = front ++ d :: rear)
    (hd : kept d = true) (p : MutationMetadata) (hp : p ∈ front) (hkept : kept p = true)
    (hon : OnTrait traitId p) : Ends traitId (front.filter kept) d ↔ Ends traitId front d := by
  have hlate : Late (front.filter kept) d ↔ Late front d :=
    ⟨h.late_of_filter front (d :: rear) hl d, h front d rear hl hd⟩
  constructor
  · intro hends
    refine ⟨hends.deletion, ?_, fun hl' => hends.taken (hlate.mpr hl')⟩
    rcases hends.touches with hd' | ⟨hkind, -, -⟩
    · exact Or.inl hd'
    · refine Or.inr ⟨hkind, ⟨p, hp, hon⟩, ?_⟩
      intro o ho
      by_contra hlt
      exact hends.taken (hlate.mpr (Or.inr ⟨hkind, o, ho, not_le.mp hlt⟩))
  · intro hends
    refine ⟨hends.deletion, ?_, fun hl' => hends.taken (hlate.mp hl')⟩
    rcases hends.touches with hd' | ⟨hkind, -, hnew⟩
    · exact Or.inl hd'
    · exact Or.inr ⟨hkind, ⟨p, List.mem_filter.mpr ⟨hp, hkept⟩, hon⟩,
        fun o ho => hnew o (List.mem_of_mem_filter ho)⟩

theorem LeftInLife.onTrait {traitId : TraitId} {p : MutationMetadata} {put : PutTraitMetadata}
    (h : LeftInLife kept traitId l p put) : OnTrait traitId p := by
  rw [OnTrait, h.kind, ← h.trait]
  rfl

theorem LeftInLife.mem {traitId : TraitId} {p : MutationMetadata} {put : PutTraitMetadata}
    (h : LeftInLife kept traitId l p put) : p ∈ l := by
  obtain ⟨front, rear, rfl, -⟩ := h.open_
  simp

theorem InLife.left {traitId : TraitId} {p : MutationMetadata} {put : PutTraitMetadata}
    (h : InLife traitId l p put) (hkept : kept p = true) : LeftInLife kept traitId l p put := by
  obtain ⟨hkind, htrait, front, rear, hl, hlate, hopen⟩ := h
  exact ⟨hkind, htrait, hkept, front, rear, hl, hlate,
    fun middle d rest hrear _ => hopen middle d rest hrear⟩

/-- The life of a trait among the kept. -/
theorem StaysLate.inLife_filter (h : StaysLate kept l) (traitId : TraitId)
    (p : MutationMetadata) (put : PutTraitMetadata) :
    InLife traitId (l.filter kept) p put ↔ LeftInLife kept traitId l p put := by
  constructor
  · intro hlife
    have hon := hlife.onTrait
    obtain ⟨hkind, htrait, front, rear, hsplit, hlate, hopen⟩ := hlife
    obtain ⟨front', rear', hl, rfl, rfl, hkept⟩ := filter_split hsplit
    refine ⟨hkind, htrait, hkept, front', rear', hl,
      fun hlate' => hlate (h front' p rear' hl hkept hlate'), ?_⟩
    intro middle d rest hrear hd hends
    have hl' : l = (front' ++ p :: middle) ++ d :: rest := by rw [hl, hrear]; simp
    refine hopen (middle.filter kept) d (rest.filter kept) ?_ ?_
    · rw [hrear, List.filter_append, List.filter_cons_of_pos hd]
    · have hends' := (h.ends_filter traitId _ rest d hl' hd p (by simp) hkept hon).mpr hends
      rwa [List.filter_append, List.filter_cons_of_pos hkept] at hends'
  · intro hlife
    have hon := hlife.onTrait
    obtain ⟨hkind, htrait, hkept, front, rear, hl, hlate, hopen⟩ := hlife
    refine ⟨hkind, htrait, front.filter kept, rear.filter kept, ?_,
      fun hlate' => hlate (h.late_of_filter front (p :: rear) hl p hlate'), ?_⟩
    · rw [hl, List.filter_append, List.filter_cons_of_pos hkept]
    · intro middle d rest hrear hends
      obtain ⟨middle', rest', hrear', rfl, -, hd⟩ := filter_split hrear
      have hl' : l = (front ++ p :: middle') ++ d :: rest' := by rw [hl, hrear']; simp
      refine hopen middle' d rest' hrear' hd ?_
      refine (h.ends_filter traitId _ rest' d hl' hd p (by simp) hkept hon).mp ?_
      rwa [List.filter_append, List.filter_cons_of_pos hkept]

end Kept

section Left

variable {config : GarbageCollectorConfig} {minOpTime now : DateTime}
  {order : Sorting.ValuesOrder TraitEntry} {l : List MutationMetadata}
  {deletions : List DeleteOperations} {s : Aggregation}
  (hnodup : (l.map MutationMetadata.operationId).Nodup)
  (hrun : runEntity config minOpTime now order l = some deletions)
include hnodup hrun

theorem isLeft_eq (m : MutationMetadata) (hm : m ∈ l) :
    isLeft config minOpTime now l m = isKept deletions m := by
  obtain ⟨s, hstart⟩ := run_of_nodup Aggregation.start l (by simp [Aggregation.start]) hnodup
  have haggr : EntityAggregator.new l = some (.ofAggregation s) := by
    rw [EntityAggregator.new, hstart]
    rfl
  have h := aggregationOf_run l s hnodup hstart
  rw [Bool.eq_iff_iff, isKept_iff h haggr hnodup hrun m hm, isLeft,
    decide_eq_true_eq]

variable (h : AggregationOf l s) (haggr : EntityAggregator.new l = some (.ofAggregation s))
include h haggr

/-- The last put of a live trait stays. -/
theorem last_left (traitId : TraitId) (w : MutationMetadata) (put : PutTraitMetadata)
    (hw : InLife traitId l w put) (hlast : LastTouch traitId l w.operationId) :
    isLeft config minOpTime now l w = true := by
  refine decide_eq_true fun hcollected => ?_
  rcases collected_last h haggr hnodup hrun traitId w hw.mem hw.onTrait hlast hcollected with
    ⟨-, ⟨hdead, -⟩, -⟩ | ⟨d, ⟨⟨front, rear, hl, hends⟩, hlast'⟩, -⟩
  · exact hdead traitId w put hw
  · have hsame : w = d := List.inj_on_of_nodup_map hnodup hw.mem (by rw [hl]; simp)
      (lastTouch_unique hlast hlast')
    exact absurd (hsame ▸ hw.kind) (hends.deletion put)

/-- The last deletion of a trait stays with any put of it that does, so that no trait comes back
to life where none of its mutations does. -/
theorem live_of_left (traitId : TraitId) (p : MutationMetadata) (put : PutTraitMetadata)
    (hp : LeftInLife (isLeft config minOpTime now l) traitId l p put) :
    ∃ q put', InLife traitId l q put' := by
  obtain ⟨agg, hlookup⟩ := h.lookup_of_onTrait hp.mem hp.onTrait
  cases hdate : agg.deletionDate with
  | none =>
    obtain ⟨w, put', hw, -⟩ := (h.alive traitId agg hlookup).live hdate
    exact ⟨w, put', hw⟩
  | some date =>
    exfalso
    obtain ⟨front', d, rear', hl', hends, hid, -⟩ :=
      (h.tallied.traits traitId agg hlookup).ended date hdate
    have hlast := (h.lastTouch hlookup _).mp hid
    have hleft := of_decide_eq_true hp.stays
    have hon := hp.onTrait
    have hpl := hp.mem
    obtain ⟨hkind, -, -, front, rear, hl, hlate, hopen⟩ := hp
    have hd : d ∈ l := by rw [hl']; simp
    have hpd : p ≠ d := by
      rintro rfl
      exact hends.deletion put hkind
    -- the deletion stands behind the put, which would be late behind it
    have hbehind : ∃ middle rest, rear = middle ++ d :: rest ∧ front' = front ++ p :: middle := by
      rcases List.append_eq_append_iff.mp (hl.symm.trans hl') with ⟨between, rfl, hrest⟩ |
        ⟨between, rfl, hrest⟩
      · cases between with
        | nil => exact absurd (List.cons.inj hrest).1 hpd
        | cons x middle =>
          obtain ⟨rfl, hrear⟩ := List.cons.inj hrest
          exact ⟨middle, rear', hrear, rfl⟩
      · cases between with
        | nil => exact absurd (List.cons.inj hrest).1.symm hpd
        | cons x middle =>
          obtain ⟨rfl, -⟩ := List.cons.inj hrest
          have hle := hlast.newest _ p rear hl (Or.inl hon)
          have hne : p.operationId ≠ d.operationId :=
            fun heq => hpd (List.inj_on_of_nodup_map hnodup hpl hd heq)
          exact absurd (Or.inl ⟨traitId, front', d, middle, hon, rfl, hends.touches,
            lt_of_le_of_ne hle hne⟩) hlate
    obtain ⟨middle, rest, hrear, rfl⟩ := hbehind
    refine hopen middle d rest hrear (decide_eq_true fun hcollected => hleft ?_) hends
    rcases hends.touches with hond | ⟨htomb, -⟩
    · refine ⟨hcollected.settled, ?_⟩
      rcases collected_last h haggr hnodup hrun traitId d hd hond hlast hcollected with
        hentity | htrait
      · exact Or.inl hentity
      · exact Or.inr ⟨traitId, hon, Or.inl htrait⟩
    · refine ⟨hcollected.settled, Or.inl (hcollected.rule.resolve_right ?_)⟩
      rintro ⟨traitId', hond, -⟩
      rw [OnTrait, htomb] at hond
      cases hond

end Left

/-- Where no mutation that was discarded as late is taken up behind what is left, the entity stays
the same exactly when the oldest dates of its live traits stay. -/
theorem collection_sameEntity_iff (config : GarbageCollectorConfig) (minOpTime now : DateTime)
    (order : Sorting.ValuesOrder TraitEntry) (l : List MutationMetadata)
    (hnodup : (l.map MutationMetadata.operationId).Nodup) (deletions : List DeleteOperations)
    (hrun : runEntity config minOpTime now order l = some deletions)
    (hlate : StaysLate (isLeft config minOpTime now l) l) :
    ∃ e e', EntityAggregator.new l = some e ∧
      EntityAggregator.new (remaining deletions l) = some e' ∧
      (SameEntity e e' ↔ DatesStay (isLeft config minOpTime now l) l) := by
  obtain ⟨s, hstart⟩ := run_of_nodup Aggregation.start l (by simp [Aggregation.start]) hnodup
  have hnodup' : ((remaining deletions l).map MutationMetadata.operationId).Nodup :=
    hnodup.sublist (List.filter_sublist.map _)
  obtain ⟨s', hstart'⟩ := run_of_nodup Aggregation.start (remaining deletions l)
    (by simp [Aggregation.start]) hnodup'
  have haggr : EntityAggregator.new l = some (.ofAggregation s) := by
    rw [EntityAggregator.new, hstart]
    rfl
  refine ⟨.ofAggregation s, .ofAggregation s', haggr, by rw [EntityAggregator.new, hstart']; rfl,
    ?_⟩
  have h := aggregationOf_run l s hnodup hstart
  have hvisible := new_visible l s hstart
  have hvisible' := new_visible (remaining deletions l) s' hstart'
  have hleft (traitId : TraitId) (p : MutationMetadata) (put : PutTraitMetadata) :
      InLife traitId (remaining deletions l) p put ↔
        LeftInLife (isLeft config minOpTime now l) traitId l p put := by
    have hremaining : remaining deletions l = l.filter (isLeft config minOpTime now l) :=
      List.filter_congr fun m hm => (isLeft_eq hnodup hrun m hm).symm
    rw [hremaining]
    exact hlate.inLife_filter traitId p put
  -- the last put of a live trait is left, so that it is also the last of what is left
  have hlastLeft (traitId : TraitId)
      (hlive : (EntityAggregator.ofAggregation s).isLive traitId = true) :
      ∃ w put, InLife traitId (remaining deletions l) w put ∧ w ∈ l ∧
        (EntityAggregator.ofAggregation s).lastPut traitId = some (w.operationId, put) ∧
        LastTouch traitId l w.operationId := by
    obtain ⟨w, put, hw, hlastPut, hlastId, -⟩ := hvisible.last traitId hlive
    have htraits : (EntityAggregator.ofAggregation s).traits = s.traits := rfl
    rw [EntityAggregator.lastOperation, htraits, Option.bind_eq_some_iff] at hlastId
    obtain ⟨agg, hlookup, hid⟩ := hlastId
    have hlast := (h.lastTouch hlookup _).mp hid
    exact ⟨w, put, (hleft traitId w put).mpr
      (hw.left (last_left hnodup hrun h haggr traitId w put hw hlast)), hw.mem, hlastPut, hlast⟩
  have hlive (traitId : TraitId) : (EntityAggregator.ofAggregation s).isLive traitId = true ↔
      (EntityAggregator.ofAggregation s').isLive traitId = true := by
    constructor
    · intro hl
      obtain ⟨w, put, hw, -⟩ := hlastLeft traitId hl
      exact (hvisible'.live traitId).mpr ⟨w, put, hw⟩
    · intro hl
      obtain ⟨p, put, hp⟩ := (hvisible'.live traitId).mp hl
      exact (hvisible.live traitId).mpr
        (live_of_left hnodup hrun h haggr traitId p put ((hleft traitId p put).mp hp))
  constructor
  · intro hsame traitId
    have hdates (hl : (EntityAggregator.ofAggregation s).isLive traitId = true) :
        ∃ q put p put', InLife traitId l q put ∧
          LeftInLife (isLeft config minOpTime now l) traitId l p put' ∧
          createdAt q.operationId put = createdAt p.operationId put' ∧
          (∀ x putx, InLife traitId l x putx →
            createdAt q.operationId put ≤ createdAt x.operationId putx) ∧
          ∀ x putx, InLife traitId (remaining deletions l) x putx →
            createdAt p.operationId put' ≤ createdAt x.operationId putx := by
      obtain ⟨q, put, hq, hdate, hbefore⟩ := hvisible.oldest traitId hl
      obtain ⟨p, put', hp, hdate', hbefore'⟩ := hvisible'.oldest traitId ((hlive traitId).mp hl)
      have hcreated := hsame.created traitId hl
      rw [hdate, hdate', Option.some.injEq] at hcreated
      exact ⟨q, put, p, put', hq, (hleft traitId p put').mp hp, hcreated, hbefore, hbefore'⟩
    constructor
    · intro q put hq
      obtain ⟨_, _, p, put', -, hp, heq, hbefore, -⟩ :=
        hdates ((hvisible.live traitId).mpr ⟨q, put, hq⟩)
      exact ⟨p, put', hp, heq ▸ hbefore q put hq⟩
    · intro p put hp
      have hp' := (hleft traitId p put).mpr hp
      obtain ⟨q, put', _, _, hq, -, heq, -, hbefore⟩ :=
        hdates ((hlive traitId).mpr ((hvisible'.live traitId).mpr ⟨p, put, hp'⟩))
      exact ⟨q, put', hq, heq ▸ hbefore p put hp'⟩
  · intro hstay
    refine ⟨fun traitId => Bool.eq_iff_iff.mpr (hlive traitId), ?_, ?_⟩
    · intro traitId hl
      obtain ⟨w, put, hw, hwl, hlastPut, hlast⟩ := hlastLeft traitId hl
      obtain ⟨w', put', hw', hlastPut', -, hnewest'⟩ :=
        hvisible'.last traitId ((hlive traitId).mp hl)
      have hw'l := ((hleft traitId w' put').mp hw').mem
      obtain ⟨front, rear, hsplit⟩ := List.append_of_mem hw'l
      have hsame : w' = w := List.inj_on_of_nodup_map hnodup hw'l hwl
        (le_antisymm (hlast.newest front w' rear hsplit (Or.inl hw'.onTrait)) (hnewest' w put hw))
      subst hsame
      rw [hlastPut, hlastPut', MutationType.traitPut.inj (hw.kind.symm.trans hw'.kind)]
    · intro traitId hl
      obtain ⟨q, put, hq, hdate, hbefore⟩ := hvisible.oldest traitId hl
      obtain ⟨p, put', hp, hdate', hbefore'⟩ := hvisible'.oldest traitId ((hlive traitId).mp hl)
      rw [hdate, hdate', Option.some.injEq]
      obtain ⟨x, putx, hx, hle⟩ := (hstay traitId).1 q put hq
      obtain ⟨y, puty, hy, hle'⟩ := (hstay traitId).2 p put' ((hleft traitId p put').mp hp)
      exact le_antisymm ((hbefore y puty hy).trans hle')
        ((hbefore' x putx ((hleft traitId x putx).mpr hx)).trans hle)

/-! ## A late put behind the tombstone of its entity, and versions that carry their date -/

/-- A put, the tombstone of the entity, and a put that was made between them but committed
last. -/
def heldBack : List MutationMetadata :=
  [version 1 (some 10), ⟨5, some 20, "entity", .entityTombstone⟩, version 3 (some 30)]

/-- The compaction of the deleted trait removes the put that the tombstone was seen to delete,
and the late put brings the trait back. -/
theorem heldBack_revived :
    heldBack.Pairwise (fun a b => commitKey a < commitKey b) ∧
      ∃ e e', EntityAggregator.new heldBack = some e ∧
        runEntity ⟨1000, 1000, 1, 1, 0, 1⟩ 10 10 .same heldBack = some [⟨"entity", [1]⟩] ∧
        EntityAggregator.new (remaining [⟨"entity", [1]⟩] heldBack) = some e' ∧
        e.isLive "trt1" = false ∧ e'.isLive "trt1" = true ∧ ¬ SameEntity e e' := by
  refine ⟨by decide +kernel, ?_⟩
  have hlive : (EntityAggregator.new heldBack).map (·.isLive "trt1") = some false := by
    decide +kernel
  have hlive' : (EntityAggregator.new (remaining [⟨"entity", [1]⟩] heldBack)).map
      (·.isLive "trt1") = some true := by decide +kernel
  obtain ⟨e, he, hdead⟩ := Option.map_eq_some_iff.mp hlive
  obtain ⟨e', he', halive⟩ := Option.map_eq_some_iff.mp hlive'
  refine ⟨e, e', he, by decide +kernel, he', hdead, halive, fun hsame => ?_⟩
  have hcontra := hsame.live "trt1"
  rw [hdead, halive] at hcontra
  cases hcontra

/-- A version that carries the date of its trait. -/
def datedVersion (id : OperationId) (offset : BlockOffset) : MutationMetadata :=
  ⟨id, some offset, "entity", .traitPut ⟨"trt1", some "typ", some 1, none, false⟩⟩

/-- Three versions, and one that was made before the last of them and is committed behind it. -/
def datedVersions : List MutationMetadata :=
  [datedVersion 1 10, datedVersion 2 20, datedVersion 5 30, datedVersion 4 40]

theorem datedVersions_run : runEntity ⟨1000, 1000, 2, 1, 0, 1⟩ 10 10 .same datedVersions =
    some [⟨"entity", [1, 2]⟩] := by
  decide +kernel

theorem datedVersions_late (front rear : List MutationMetadata) (m : MutationMetadata)
    (hl : datedVersions = front ++ m :: rear) (hlate : Late front m) :
    datedVersion 5 30 ∈ front ∧ m = datedVersion 4 40 := by
  have hpairs : datedVersions.Pairwise fun a b =>
      b.operationId < a.operationId → a = datedVersion 5 30 ∧ b = datedVersion 4 40 := by
    decide +kernel
  obtain ⟨x, hx, hlt⟩ := hlate.newer
  rw [hl] at hpairs
  obtain ⟨rfl, hm⟩ := (List.pairwise_append.mp hpairs).2.2 x hx m List.mem_cons_self hlt
  exact ⟨hx, hm⟩

/-- The first two versions are removed; the late one stays, and is late behind the third. -/
theorem datedVersions_sameEntity : ∃ e e', EntityAggregator.new datedVersions = some e ∧
    EntityAggregator.new (remaining [⟨"entity", [1, 2]⟩] datedVersions) = some e' ∧
      SameEntity e e' := by
  have hnodup : (datedVersions.map MutationMetadata.operationId).Nodup := by decide +kernel
  have hput : ∀ m ∈ datedVersions,
      m.mutationType = .traitPut ⟨"trt1", some "typ", some 1, none, false⟩ := by
    decide +kernel
  have hleft : isLeft ⟨1000, 1000, 2, 1, 0, 1⟩ 10 10 datedVersions (datedVersion 5 30) = true := by
    rw [isLeft_eq hnodup datedVersions_run _ (by decide +kernel)]
    decide +kernel
  obtain ⟨e, e', he, he', hsame⟩ := collection_sameEntity_iff ⟨1000, 1000, 2, 1, 0, 1⟩ 10 10 .same
    datedVersions hnodup [⟨"entity", [1, 2]⟩] datedVersions_run (by
      intro front m rear hl _ hlate
      obtain ⟨hfront, rfl⟩ := datedVersions_late front rear m hl hlate
      obtain ⟨before, after, hsplit⟩ := List.append_of_mem (List.mem_filter.mpr ⟨hfront, hleft⟩)
      exact Or.inl ⟨"trt1", before, _, after, rfl, hsplit, Or.inl rfl, by decide⟩)
  refine ⟨e, e', he, he', hsame.mpr ?_⟩
  have hlife : InLife "trt1" datedVersions (datedVersion 5 30)
      ⟨"trt1", some "typ", some 1, none, false⟩ := by
    refine ⟨rfl, rfl, [datedVersion 1 10, datedVersion 2 20], [datedVersion 4 40], rfl, ?_, ?_⟩
    · intro hlate
      exact absurd (datedVersions_late _ [datedVersion 4 40] _ rfl hlate).2 (by decide +kernel)
    · intro middle d rest hrear hends
      exact hends.deletion _ (hput d (by simp [datedVersions, hrear]))
  have hdate (traitId : TraitId) (p : MutationMetadata) (put : PutTraitMetadata)
      (hp : p ∈ datedVersions) (hkind : p.mutationType = .traitPut put)
      (htrait : put.traitId = traitId) : traitId = "trt1" ∧ createdAt p.operationId put = 1 := by
    obtain rfl := MutationType.traitPut.inj (hkind.symm.trans (hput p hp))
    exact ⟨htrait.symm, rfl⟩
  intro traitId
  constructor
  · intro q put hq
    obtain ⟨rfl, hone⟩ := hdate traitId q put hq.mem hq.kind hq.trait
    exact ⟨_, _, hlife.left hleft, by rw [hone]; exact le_rfl⟩
  · intro p put hp
    obtain ⟨rfl, hone⟩ := hdate traitId p put hp.mem hp.kind hp.trait
    exact ⟨_, _, hlife, by rw [hone]; exact le_rfl⟩

end Exocore.Store
