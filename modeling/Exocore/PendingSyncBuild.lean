import Exocore.PendingSync

/-! What the builders make of a sorted list of operations: consecutive ranges, each with the
operations between its bounds. -/
namespace Exocore.Engine

open Exocore.Core Exocore.Chain Exocore.Pending

theorem bound_lowerAllows_mono (b : Bound) (x y : ℕ) (hxy : x ≤ y) (hx : b.lowerAllows x = true) :
    b.lowerAllows y = true := by
  cases b <;> simp only [Bound.lowerAllows, decide_eq_true_eq] at hx ⊢ <;> omega

theorem bound_upperAllows_mono (b : Bound) (x y : ℕ) (hxy : x ≤ y) (hy : b.upperAllows y = true) :
    b.upperAllows x = true := by
  cases b <;> simp only [Bound.upperAllows, decide_eq_true_eq] at hy ⊢ <;> omega

theorem inRange_iff (lo hi : Bound) (id : ℕ) :
    inRange lo hi id = true ↔ lo.lowerAllows id = true ∧ hi.upperAllows id = true := by
  rw [inRange, Bool.and_eq_true]

/-- Consecutive ranges from one bound to another. They are cut after operations, none of them
with an id below `min`. -/
inductive Cuts (min : ℕ) : Bound → Bound → List (Bound × Bound) → Prop where
  | last (lo hi : Bound) : Cuts min lo hi [(lo, hi)]
  | cut (lo hi : Bound) (x : ℕ) (rest : List (Bound × Bound)) (hlo : lo.lowerAllows x = true)
      (hhi : hi.upperAllows x = true) (hx : min ≤ x) (hrest : Cuts min (.excluded x) hi rest) :
      Cuts min lo hi ((lo, .included x) :: rest)

/-- Each of the ranges is inside of the whole. -/
theorem cuts_inside (min : ℕ) (lo hi : Bound) (cuts : List (Bound × Bound))
    (h : Cuts min lo hi cuts) : ∀ c ∈ cuts, ∀ id, inRange c.1 c.2 id = true →
      inRange lo hi id = true := by
  induction h with
  | last lo hi =>
    intro c hc id hin
    rw [List.mem_singleton.mp hc] at hin
    exact hin
  | cut lo hi x rest hlo hhi hx hrest ih =>
    intro c hc id hin
    rcases List.mem_cons.mp hc with rfl | hc
    · rw [inRange_iff] at hin ⊢
      have hid : id ≤ x := by simpa [Bound.upperAllows] using hin.2
      exact ⟨hin.1, bound_upperAllows_mono hi id x hid hhi⟩
    · have hin' := ih c hc id hin
      rw [inRange_iff] at hin' ⊢
      have hid : x < id := by simpa [Bound.lowerAllows] using hin'.1
      exact ⟨bound_lowerAllows_mono lo x id hid.le hlo, hin'.2⟩

/-- Each id of the whole is in one of the ranges. -/
theorem cuts_cover (min : ℕ) (lo hi : Bound) (cuts : List (Bound × Bound))
    (h : Cuts min lo hi cuts) (id : ℕ) (hin : inRange lo hi id = true) :
    ∃ c ∈ cuts, inRange c.1 c.2 id = true := by
  induction h with
  | last lo hi => exact ⟨(lo, hi), List.mem_singleton_self _, hin⟩
  | cut lo hi x rest hlo hhi hx hrest ih =>
    rw [inRange_iff] at hin
    by_cases hid : id ≤ x
    · refine ⟨(lo, .included x), List.mem_cons_self, ?_⟩
      rw [inRange_iff]
      exact ⟨hin.1, by simpa [Bound.upperAllows] using hid⟩
    · obtain ⟨c, hc, hcin⟩ := ih (by
        rw [inRange_iff]
        exact ⟨by simpa [Bound.lowerAllows] using hid, hin.2⟩)
      exact ⟨c, List.mem_cons_of_mem _ hc, hcin⟩

/-- No id is in two of the ranges. -/
theorem cuts_disjoint (min : ℕ) (lo hi : Bound) (cuts : List (Bound × Bound))
    (h : Cuts min lo hi cuts) : cuts.Pairwise fun c c' => ∀ id, inRange c.1 c.2 id = true →
      inRange c'.1 c'.2 id = false := by
  induction h with
  | last lo hi => exact List.pairwise_singleton _ _
  | cut lo hi x rest hlo hhi hx hrest ih =>
    refine List.pairwise_cons.mpr ⟨?_, ih⟩
    intro c hc id hin
    rw [Bool.eq_false_iff]
    intro hin'
    have hafter := cuts_inside min _ _ rest hrest c hc id hin'
    rw [inRange_iff] at hin hafter
    simp only [Bound.upperAllows, Bound.lowerAllows, decide_eq_true_eq] at hin hafter
    omega

/-- The bounds go through a message unchanged, and the range they give can be read. -/
structure BoundsRead (lo hi : Bound) : Prop where
  lower : readBound (SyncRangeBuilder.writeBound lo).1 (SyncRangeBuilder.writeBound lo).2 = lo
  upper : readBound (SyncRangeBuilder.writeBound hi).1 (SyncRangeBuilder.writeBound hi).2 = hi
  ordered : ¬ ((SyncRangeBuilder.writeBound hi).1 ≠ 0 ∧
    (SyncRangeBuilder.writeBound hi).1 < (SyncRangeBuilder.writeBound lo).1)
  noPanic : rangePanics lo hi = false

theorem readBound_included (x : ℕ) : readBound x true = .included x := by
  cases x <;> rfl

theorem readBound_excluded (x : ℕ) (hx : 1 ≤ x) : readBound x false = .excluded x := by
  cases x with
  | zero => omega
  | succ n => rfl

theorem boundsRead_unbounded : BoundsRead .unbounded .unbounded :=
  ⟨rfl, rfl, by simp [SyncRangeBuilder.writeBound], rfl⟩

theorem boundsRead_included (lo hi : Bound) (x : ℕ) (h : BoundsRead lo hi)
    (hlo : lo.lowerAllows x = true) : BoundsRead lo (.included x) := by
  refine ⟨h.lower, readBound_included x, ?_, ?_⟩
  · cases lo <;> simp only [Bound.lowerAllows, decide_eq_true_eq] at hlo <;>
      simp only [SyncRangeBuilder.writeBound] <;> omega
  · cases lo <;> simp only [Bound.lowerAllows, decide_eq_true_eq] at hlo <;>
      simp only [rangePanics, decide_eq_false_iff_not] <;> omega

theorem boundsRead_excluded (lo hi : Bound) (x : ℕ) (h : BoundsRead lo hi) (hx : 1 ≤ x)
    (hhi : hi.upperAllows x = true) : BoundsRead (.excluded x) hi := by
  refine ⟨readBound_excluded x hx, h.upper, ?_, ?_⟩
  · cases hi <;> simp only [Bound.upperAllows, decide_eq_true_eq] at hhi <;>
      simp only [SyncRangeBuilder.writeBound] <;> omega
  · cases hi <;> simp only [Bound.upperAllows, decide_eq_true_eq] at hhi <;>
      simp only [rangePanics, decide_eq_false_iff_not] <;> omega

theorem cuts_boundsRead (min : ℕ) (hmin : 1 ≤ min) (lo hi : Bound) (cuts : List (Bound × Bound))
    (h : Cuts min lo hi cuts) (hb : BoundsRead lo hi) : ∀ c ∈ cuts, BoundsRead c.1 c.2 := by
  induction h with
  | last lo hi =>
    intro c hc
    rw [List.mem_singleton.mp hc]
    exact hb
  | cut lo hi x rest hlo hhi hx hrest ih =>
    intro c hc
    rcases List.mem_cons.mp hc with rfl | hc
    · exact boundsRead_included lo hi x hb hlo
    · exact ih (boundsRead_excluded lo hi x hb (hmin.trans hx) hhi) c hc

section Build
variable [Crates]

/-- An operation with the details it is sent with. -/
abbrev Item := StoredOperation × OperationDetailsLevel

def withDetails (details : OperationDetailsLevel) (items : List Item) : List StoredOperation :=
  (items.filter fun item => item.2 = details).map Prod.fst

/-- The range with these operations. -/
def buildRange (lo hi : Bound) (items : List Item) : SyncRangeBuilder :=
  ⟨lo, hi, withDetails .full items, withDetails .header items, items.length,
    .hasher (hashInput (items.map Prod.fst))⟩

/-- The upper bound of an open range: its last operation. -/
def lastBound (items : List Item) : Bound :=
  match items.getLast? with
  | none => .unbounded
  | some item => .included item.1.operationId

theorem buildRange_pushOperation (lo hi : Bound) (items : List Item) (item : Item) :
    (buildRange lo hi items).pushOperation item.1 item.2 =
      buildRange lo (.included item.1.operationId) (items ++ [item]) := by
  obtain ⟨op, details⟩ := item
  cases details <;>
    simp [buildRange, SyncRangeBuilder.pushOperation, withDetails, hashInput]

theorem lastBound_append (items : List Item) (item : Item) :
    lastBound (items ++ [item]) = .included item.1.operationId := by
  simp [lastBound]

/-- The operations between the bounds. -/
def between (c : Bound × Bound) (items : List Item) : List Item :=
  items.filter fun item => inRange c.1 c.2 item.1.operationId

theorem updateLast_append (config : PendingSyncConfig) (pre : List SyncRangeBuilder)
    (range : SyncRangeBuilder) (f : SyncRangeBuilder → SyncRangeBuilder) :
    (⟨config, pre ++ [range]⟩ : SyncRangesBuilder).updateLast f = ⟨config, pre ++ [f range]⟩ := by
  simp [SyncRangesBuilder.updateLast]

/-- A push to an open range that is not full. -/
theorem pushOperation_open (config : PendingSyncConfig) (pre : List SyncRangeBuilder) (lo : Bound)
    (items : List Item) (item : Item) (hfull : ¬ items.length > config.maxOperationsPerRange) :
    (⟨config, pre ++ [buildRange lo (lastBound items) items]⟩ : SyncRangesBuilder).pushOperation
        item.1 item.2 =
      .ok ⟨config, pre ++ [buildRange lo (lastBound (items ++ [item])) (items ++ [item])]⟩ := by
  simp only [SyncRangesBuilder.pushOperation, List.getLast?_append, List.getLast?_singleton,
    Option.some_or]
  have hcount : (buildRange lo (lastBound items) items).operationsCount = items.length := rfl
  simp only [hcount, if_neg hfull, pure, Except.pure, ok_bind, updateLast_append,
    buildRange_pushOperation, lastBound_append]

/-- A push to a full range opens the next. -/
theorem pushOperation_full (config : PendingSyncConfig) (pre : List SyncRangeBuilder) (lo : Bound)
    (items : List Item) (last item : Item)
    (hfull : (items ++ [last]).length > config.maxOperationsPerRange) :
    (⟨config, pre ++ [buildRange lo (lastBound (items ++ [last])) (items ++ [last])]⟩ :
        SyncRangesBuilder).pushOperation item.1 item.2 =
      .ok ⟨config, pre ++ [buildRange lo (.included last.1.operationId) (items ++ [last])] ++
        [buildRange (.excluded last.1.operationId) (lastBound [item]) [item]]⟩ := by
  rw [lastBound_append, show lastBound [item] = .included item.1.operationId from rfl]
  simp only [SyncRangesBuilder.pushOperation, List.getLast?_append, List.getLast?_singleton,
    Option.some_or]
  have hcount : (buildRange lo (.included last.1.operationId) (items ++ [last])).operationsCount =
    (items ++ [last]).length := rfl
  have hto : (buildRange lo (.included last.1.operationId) (items ++ [last])).toOperation =
    .included last.1.operationId := rfl
  have hnew (b : Bound) : SyncRangeBuilder.new b .unbounded = buildRange b .unbounded [] := rfl
  simp only [hcount, hto, if_pos hfull, pure, Except.pure, ok_bind,
    SyncRangesBuilder.pushNewRange, SyncRangesBuilder.pushRange, hnew, updateLast_append,
    buildRange_pushOperation, List.nil_append]

/-- Ids that grow strictly are at least as large as their position. -/
theorem length_le_of_sorted (items : List Item) (last : Item)
    (hs : (items ++ [last]).Pairwise fun a b => a.1.operationId < b.1.operationId) :
    items.length ≤ last.1.operationId := by
  induction items using List.reverseRecOn generalizing last with
  | nil => exact Nat.zero_le _
  | append_singleton items prev ih =>
    obtain ⟨hfront, -, hlast⟩ := List.pairwise_append.mp hs
    have hprev := ih prev hfront
    have hlt : prev.1.operationId < last.1.operationId :=
      hlast prev (by simp) last (by simp)
    rw [List.length_append, List.length_singleton]
    omega

/-- The operations of a range that was closed are those between its bounds. -/
theorem between_closed (lo : Bound) (items : List Item) (last : Item) (rest : List Item)
    (hs : (items ++ [last] ++ rest).Pairwise fun a b => a.1.operationId < b.1.operationId)
    (hlo : ∀ item ∈ items ++ [last] ++ rest, lo.lowerAllows item.1.operationId = true) :
    between (lo, .included last.1.operationId) (items ++ [last] ++ rest) = items ++ [last] := by
  obtain ⟨hfront, -, hafter⟩ := List.pairwise_append.mp hs
  obtain ⟨-, -, hlast⟩ := List.pairwise_append.mp hfront
  rw [between, List.filter_append, List.filter_eq_self.mpr, List.filter_eq_nil_iff.mpr,
    List.append_nil]
  · intro item hitem
    have hlt := hafter last (by simp) item hitem
    simp only [inRange, Bound.upperAllows, Bool.and_eq_true, decide_eq_true_eq]
    omega
  · intro item hitem
    rw [inRange_iff]
    refine ⟨hlo item (List.mem_append_left _ hitem), ?_⟩
    simp only [Bound.upperAllows, decide_eq_true_eq]
    rcases List.mem_append.mp hitem with hitem | hitem
    · exact (hlast item hitem last (by simp)).le
    · rw [List.mem_singleton.mp hitem]

/-- What comes before a cut is not between the bounds of the ranges after it. -/
theorem between_after (min : ℕ) (hi : Bound) (items : List Item) (last : Item) (rest : List Item)
    (cuts : List (Bound × Bound)) (hcuts : Cuts min (.excluded last.1.operationId) hi cuts)
    (hs : (items ++ [last] ++ rest).Pairwise fun a b => a.1.operationId < b.1.operationId)
    (c : Bound × Bound) (hc : c ∈ cuts) :
    between c (items ++ [last] ++ rest) = between c rest := by
  obtain ⟨hfront, -, -⟩ := List.pairwise_append.mp hs
  obtain ⟨-, -, hlast⟩ := List.pairwise_append.mp hfront
  rw [between, List.filter_append, List.filter_eq_nil_iff.mpr, List.nil_append, between]
  intro item hitem hin
  have hinside := cuts_inside min _ _ cuts hcuts c hc _ hin
  rw [inRange_iff] at hinside
  have hgt : last.1.operationId < item.1.operationId := by
    simpa [Bound.lowerAllows] using hinside.1
  rcases List.mem_append.mp hitem with hitem | hitem
  · have hlt := hlast item hitem last (by simp)
    omega
  · rw [List.mem_singleton.mp hitem] at hgt
    omega

/-- The bounds of the ranges that operations with these ids are cut into, from an open range
that has `count` operations, `last` the id of its last one. -/
def cutsOf (max : ℕ) (hi : Bound) : Bound → ℕ → ℕ → List ℕ → List (Bound × Bound)
  | lo, _, _, [] => [(lo, hi)]
  | lo, count, last, id :: ids =>
    if count > max then (lo, .included last) :: cutsOf max hi (.excluded last) 1 id ids
    else cutsOf max hi lo (count + 1) id ids

def lastId (items : List Item) : ℕ :=
  match items.getLast? with
  | none => 0
  | some item => item.1.operationId

/-- Pushing sorted operations to an open range and closing the last one makes consecutive
ranges, each with the operations between its bounds. -/
theorem pushOperations_open (config : PendingSyncConfig) (pre : List SyncRangeBuilder)
    (lo hi : Bound) (items rest : List Item)
    (hs : (items ++ rest).Pairwise fun a b => a.1.operationId < b.1.operationId)
    (hin : ∀ item ∈ items ++ rest, inRange lo hi item.1.operationId = true) :
    ∃ pushed cuts, (⟨config, pre ++ [buildRange lo (lastBound items) items]⟩ :
        SyncRangesBuilder).pushOperations rest = .ok pushed ∧
      cuts = cutsOf config.maxOperationsPerRange hi lo items.length (lastId items)
        (rest.map fun item => item.1.operationId) ∧
      Cuts config.maxOperationsPerRange lo hi cuts ∧
      pushed.setLastRangeToBound hi =
        ⟨config, pre ++ cuts.map fun c => buildRange c.1 c.2 (between c (items ++ rest))⟩ := by
  induction rest generalizing pre lo items with
  | nil =>
    rw [List.append_nil] at hin ⊢
    refine ⟨_, [(lo, hi)], rfl, rfl, .last lo hi, ?_⟩
    have hall : between (lo, hi) items = items := List.filter_eq_self.mpr hin
    rw [SyncRangesBuilder.setLastRangeToBound, updateLast_append, List.map_singleton, hall]
    rfl
  | cons item rest ih =>
    by_cases hfull : items.length > config.maxOperationsPerRange
    · -- the range is full, it is closed after its last operation
      obtain ⟨front, last, rfl⟩ : ∃ front last, items = front ++ [last] :=
        ⟨items.dropLast, items.getLast (List.ne_nil_of_length_pos (by omega)),
          (List.dropLast_append_getLast _).symm⟩
      have hlast := hin last (by simp)
      rw [inRange_iff] at hlast
      obtain ⟨hfront, hrest, hafter⟩ := List.pairwise_append.mp hs
      have hin' : ∀ x ∈ [item] ++ rest,
          inRange (.excluded last.1.operationId) hi x.1.operationId = true := by
        intro x hx
        have hx' := hin x (List.mem_append_right _ hx)
        have hlt := hafter last (by simp) x hx
        rw [inRange_iff] at hx' ⊢
        exact ⟨by simpa [Bound.lowerAllows] using hlt, hx'.2⟩
      obtain ⟨pushed, cuts, hpushed, hcutsOf, hcuts, hclosed⟩ := ih
        (pre ++ [buildRange lo (.included last.1.operationId) (front ++ [last])])
        (.excluded last.1.operationId) [item] hrest hin'
      refine ⟨pushed, (lo, .included last.1.operationId) :: cuts, ?_, ?_, ?_, ?_⟩
      · rw [SyncRangesBuilder.pushOperations, pushOperation_full config pre lo front last item
          hfull, ok_bind]
        exact hpushed
      · have hid : lastId (front ++ [last]) = last.1.operationId := by simp [lastId]
        rw [List.map_cons, cutsOf, if_pos hfull, hid, hcutsOf]
        rfl
      · have hmin := length_le_of_sorted front last hfront
        rw [List.length_append, List.length_singleton] at hfull
        exact .cut lo hi last.1.operationId cuts hlast.1 hlast.2 (by omega) hcuts
      · have hmap : (cuts.map fun c => buildRange c.1 c.2 (between c (front ++ [last] ++
            item :: rest))) = cuts.map fun c => buildRange c.1 c.2 (between c ([item] ++ rest)) :=
          List.map_congr_left fun c hc => by
            rw [between_after _ hi front last (item :: rest) cuts hcuts hs c hc]
            rfl
        rw [hclosed, List.map_cons, hmap, between_closed lo front last (item :: rest) hs
          fun x hx => ((inRange_iff _ _ _).mp (hin x hx)).1, List.append_assoc]
        rfl
    · have hassoc : items ++ item :: rest = items ++ [item] ++ rest := by simp
      rw [hassoc] at hs hin ⊢
      obtain ⟨pushed, cuts, hpushed, hcutsOf, hcuts, hclosed⟩ :=
        ih pre lo (items ++ [item]) hs hin
      refine ⟨pushed, cuts, ?_, ?_, hcuts, hclosed⟩
      · rw [SyncRangesBuilder.pushOperations, pushOperation_open config pre lo items item hfull,
          ok_bind]
        exact hpushed
      · have hid : lastId (items ++ [item]) = item.1.operationId := by simp [lastId]
        rw [List.map_cons, cutsOf, if_neg hfull, hcutsOf, List.length_append, hid]
        rfl

/-- Same from a new range. -/
theorem pushOperations_new (out : SyncRangesBuilder) (lo hi : Bound) (items : List Item)
    (hs : items.Pairwise fun a b => a.1.operationId < b.1.operationId)
    (hin : ∀ item ∈ items, inRange lo hi item.1.operationId = true) :
    ∃ pushed cuts, (out.pushNewRange lo).pushOperations items = .ok pushed ∧
      cuts = cutsOf out.config.maxOperationsPerRange hi lo 0 0
        (items.map fun item => item.1.operationId) ∧
      Cuts out.config.maxOperationsPerRange lo hi cuts ∧
      pushed.setLastRangeToBound hi =
        ⟨out.config, out.ranges ++ cuts.map fun c => buildRange c.1 c.2 (between c items)⟩ := by
  have h := pushOperations_open out.config out.ranges lo hi [] items hs hin
  rw [List.nil_append] at h
  exact h

end Build

end Exocore.Engine
