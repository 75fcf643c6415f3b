import Mathlib
import Exocore.StoreOrderingValue

/-! The comparison of ordering values is lawful for values of one kind, whose ends are the same. -/
namespace Exocore.Store.OrderingValues

open Comparison Float32Bits

/-- Two values that are both the least, or both the greatest, carry the same flag. -/
def SameEnds (v w : Value) : Prop :=
  (∀ p q, v = .min p → w = .min q → p = q) ∧ ∀ p q, v = .max p → w = .max q → p = q

theorem number_cmp (p q : Place) :
    cmp ((p : WithTop Place) : WithBot (WithTop Place)) (q : WithTop Place) = cmp p q := by
  rw [WithBot.coe_strictMono.cmp_map_eq, WithTop.coe_strictMono.cmp_map_eq]

theorem number_inj (p q : Place) :
    ((p : WithTop Place) : WithBot (WithTop Place)) = (q : WithTop Place) ↔ p = q := by
  rw [WithBot.coe_inj, WithTop.coe_inj]

theorem cmp_ends : cmp (⊥ : WithBot (WithTop Place)) ⊤ = .lt ∧
    cmp (⊤ : WithBot (WithTop Place)) ⊥ = .gt :=
  ⟨(cmp_eq_lt_iff _ _).mpr bot_lt_top, (cmp_eq_gt_iff _ _).mpr bot_lt_top⟩

theorem cmp_least (p : Place) :
    cmp (⊥ : WithBot (WithTop Place)) (p : WithTop Place) = .lt ∧
      cmp ((p : WithTop Place) : WithBot (WithTop Place)) ⊥ = .gt := by
  have hlt : (⊥ : WithBot (WithTop Place)) < (p : WithTop Place) := WithBot.bot_lt_coe _
  exact ⟨(cmp_eq_lt_iff _ _).mpr hlt, (cmp_eq_gt_iff _ _).mpr hlt⟩

theorem cmp_greatest (p : Place) :
    cmp (⊤ : WithBot (WithTop Place)) (p : WithTop Place) = .gt ∧
      cmp ((p : WithTop Place) : WithBot (WithTop Place)) ⊤ = .lt := by
  have hlt : ((p : WithTop Place) : WithBot (WithTop Place)) < ⊤ :=
    WithBot.coe_lt_coe.mpr (WithTop.coe_lt_top p)
  exact ⟨(cmp_eq_gt_iff _ _).mpr hlt, (cmp_eq_lt_iff _ _).mpr hlt⟩

section Values
variable {kind : Kind} {v w : Value}

theorem eq_iff_place (hv : v.IsOf kind) (hw : w.IsOf kind) (hends : SameEnds v w) :
    v.eq w = true ↔ v.place = w.place := by
  cases v with
  | float a =>
    cases w with
    | float b =>
      rw [Value.eq, F32.eq_iff a b hv.2 hw.2, Value.place, Value.place, number_inj, toLex_inj,
        Prod.mk.injEq, and_iff_left rfl]
    | uint64 b => cases hv.1.symm.trans hw
    | date b => cases hv.1.symm.trans hw
    | min | max => simp [Value.eq, Value.place]
  | uint64 a =>
    cases w with
    | uint64 b =>
      rw [Value.eq, decide_eq_true_iff, Value.place, Value.place, number_inj, toLex_inj,
        Prod.mk.injEq, and_iff_left rfl, Nat.cast_inj, Fin.ext_iff]
    | float b => cases hv.symm.trans hw.1
    | date b => cases hv.symm.trans hw
    | min | max => simp [Value.eq, Value.place]
  | date a =>
    cases w with
    | date b =>
      rw [Value.eq, decide_eq_true_iff, Value.place, Value.place, number_inj, toLex_inj,
        Prod.mk.injEq]
      exact ⟨fun h => h ▸ ⟨rfl, rfl⟩, fun h => congrArg₂ Timestamp.mk h.1 h.2⟩
    | float b => cases hv.symm.trans hw.1
    | uint64 b => cases hv.symm.trans hw
    | min | max => simp [Value.eq, Value.place]
  | min p =>
    cases w with
    | min q => simp [Value.eq, Value.place, hends.1 p q rfl rfl]
    | _ => simp [Value.eq, Value.place]
  | max p =>
    cases w with
    | max q => simp [Value.eq, Value.place, hends.2 p q rfl rfl]
    | _ => simp [Value.eq, Value.place]

/-- Two values that are not equal are compared by their places alone. -/
theorem partialCmp_of_ne (hv : v.IsOf kind) (hw : w.IsOf kind) (hends : SameEnds v w)
    (hne : v.eq w = false) (i j : OperationId) :
    (⟨some v, i⟩ : OrderingValue).partialCmp ⟨some w, j⟩ = some (cmp v.place w.place) := by
  rw [OrderingValue.partialCmp, valueEq, hne, if_neg Bool.false_ne_true]
  cases v with
  | float a =>
    cases w with
    | float b =>
      have hcmp : cmp (Value.float a).place (Value.float b).place = cmp a.value b.value := by
        rw [Value.place, Value.place, number_cmp, cmp_toLex, cmp_self_eq_eq, Ordering.then_eq]
      rw [hcmp]
      exact F32.partialCmp_eq a b hv.2 hw.2
    | uint64 b => cases hv.1.symm.trans hw
    | date b => cases hv.1.symm.trans hw
    | min => exact congrArg some (cmp_least _).2.symm
    | max => exact congrArg some (cmp_greatest _).2.symm
  | uint64 a =>
    cases w with
    | uint64 b =>
      have hcmp : cmp (Value.uint64 a).place (Value.uint64 b).place = cmp a b := by
        have hmono : StrictMono fun x : Fin (2^64) => (x.val : ℤ) :=
          fun x y hlt => Int.ofNat_lt.mpr hlt
        rw [Value.place, Value.place, number_cmp, cmp_toLex, cmp_self_eq_eq, Ordering.then_eq]
        exact hmono.cmp_map_eq a b
      rw [hcmp]
    | float b => cases hv.symm.trans hw.1
    | date b => cases hv.symm.trans hw
    | min => exact congrArg some (cmp_least _).2.symm
    | max => exact congrArg some (cmp_greatest _).2.symm
  | date a =>
    cases w with
    | date b =>
      have hcmp : cmp (Value.date a).place (Value.date b).place =
          (cmp a.seconds b.seconds).then (cmp a.nanos b.nanos) := by
        rw [Value.place, Value.place, number_cmp, cmp_toLex]
      rw [hcmp]
      dsimp only
      by_cases hseconds : a.seconds = b.seconds
      · rw [if_neg (not_not.mpr hseconds), hseconds, cmp_self_eq_eq, Ordering.eq_then]
      · rw [if_pos hseconds, cmp_then_of_ne hseconds]
    | float b => cases hv.symm.trans hw.1
    | uint64 b => cases hv.symm.trans hw
    | min => exact congrArg some (cmp_least _).2.symm
    | max => exact congrArg some (cmp_greatest _).2.symm
  | min p =>
    cases w with
    | min q => exact absurd (decide_eq_true (hends.1 p q rfl rfl)) (Bool.eq_false_iff.mp hne)
    | max => exact congrArg some cmp_ends.1.symm
    | _ => exact congrArg some (cmp_least _).1.symm
  | max p =>
    cases w with
    | max q => exact absurd (decide_eq_true (hends.2 p q rfl rfl)) (Bool.eq_false_iff.mp hne)
    | min => exact congrArg some cmp_ends.2.symm
    | _ => exact congrArg some (cmp_greatest _).1.symm

end Values

/-- The values are the ends or numbers of one kind. -/
def Uniform (values : List OrderingValue) : Prop :=
  ∃ kind, ∀ v ∈ values, ∃ value, v.value = some value ∧ value.IsOf kind

/-- The values that are the same end carry the same flag. -/
def EndsAgree (values : List OrderingValue) : Prop :=
  ∀ v ∈ values, ∀ w ∈ values, ∀ x y, v.value = some x → w.value = some y → SameEnds x y

/-- The ends that are made here carry the same flag. -/
theorem endsAgree_of_true {values : List OrderingValue}
    (h : ∀ v ∈ values, v.value ≠ some (.min false) ∧ v.value ≠ some (.max false)) :
    EndsAgree values := by
  have htrue (v : OrderingValue) (hv : v ∈ values) (p : Bool) :
      (v.value = some (.min p) → p = true) ∧ (v.value = some (.max p) → p = true) := by
    cases p with
    | false => exact ⟨fun hmin => absurd hmin (h v hv).1, fun hmax => absurd hmax (h v hv).2⟩
    | true => exact ⟨fun _ => rfl, fun _ => rfl⟩
  intro v hv w hw x y hx hy
  constructor
  · rintro p q rfl rfl
    exact ((htrue v hv p).1 hx).trans ((htrue w hw q).1 hy).symm
  · rintro p q rfl rfl
    exact ((htrue v hv p).2 hx).trans ((htrue w hw q).2 hy).symm

section Lists
variable {values : List OrderingValue} {a b : OrderingValue}

theorem value_eq_iff (h : Uniform values) (hends : EndsAgree values) (ha : a ∈ values)
    (hb : b ∈ values) : a.eq b = true ↔ a.place = b.place := by
  obtain ⟨kind, hkind⟩ := h
  obtain ⟨v, hv, hvkind⟩ := hkind a ha
  obtain ⟨w, hw, hwkind⟩ := hkind b hb
  have hsame := eq_iff_place hvkind hwkind (hends a ha b hb v w hv hw)
  rw [OrderingValue.eq, hv, hw, valueEq, Bool.and_eq_true, hsame, decide_eq_true_iff,
    OrderingValue.place, OrderingValue.place, toLex_inj, Prod.mk.injEq, hv, hw]
  rfl

/-- The comparison of the values is that of their places. -/
theorem partialCmp_eq_place (h : Uniform values) (hends : EndsAgree values) (ha : a ∈ values)
    (hb : b ∈ values) : a.partialCmp b = some (cmp a.place b.place) := by
  obtain ⟨kind, hkind⟩ := h
  obtain ⟨v, hv, hvkind⟩ := hkind a ha
  obtain ⟨w, hw, hwkind⟩ := hkind b hb
  have hsame := hends a ha b hb v w hv hw
  obtain ⟨value, i⟩ := a
  obtain ⟨value', j⟩ := b
  subst hv hw
  rw [OrderingValue.place, OrderingValue.place, cmp_toLex]
  change _ = some ((cmp v.place w.place).then (cmp i j))
  cases heq : v.eq w with
  | false =>
    have hdiffer : v.place ≠ w.place := by
      intro h
      rw [(eq_iff_place hvkind hwkind hsame).mpr h] at heq
      cases heq
    rw [partialCmp_of_ne hvkind hwkind hsame heq, cmp_then_of_ne hdiffer]
  | true =>
    rw [(eq_iff_place hvkind hwkind hsame).mp heq, cmp_self_eq_eq, Ordering.eq_then,
      OrderingValue.partialCmp, valueEq, if_pos heq]

end Lists

/-! ## The wrappers -/

/-- A wrapper among those of its direction, of which the ignored ones are the least. -/
def OrderingValueWrapper.rank (reverse : Bool) (w : OrderingValueWrapper) :
    WithBot (Search.OrderingValueWrapper (WithBot (WithTop Place)) reverse) :=
  if w.ignore then ⊥ else ((⟨w.value.place⟩ : Search.OrderingValueWrapper _ reverse))

/-- The abstract wrapper turns the comparison of its values round. -/
theorem cmp_wrapped (reverse : Bool) (a b : Search.OrderingValue (WithBot (WithTop Place))) :
    cmp (⟨a⟩ : Search.OrderingValueWrapper _ reverse) ⟨b⟩ =
      if reverse then (cmp a b).swap else cmp a b := by
  cases reverse with
  | false => exact (cmp_compares a b).cmp_eq
  | true =>
    have hturned : (cmp b a).Compares (⟨a⟩ : Search.OrderingValueWrapper _ true) ⟨b⟩ := by
      rcases lt_trichotomy a b with hlt | rfl | hlt
      · rw [(cmp_eq_gt_iff b a).mpr hlt]
        exact hlt
      · rw [cmp_self_eq_eq]
        exact rfl
      · rw [(cmp_eq_lt_iff b a).mpr hlt]
        exact hlt
    rw [if_pos rfl, cmp_swap]
    exact hturned.cmp_eq

/-- A comparison of two wrappers is that of their ranks. -/
theorem cmp_eq_rank {values : List OrderingValue} (h : Uniform values) (hends : EndsAgree values)
    (a b : OrderingValueWrapper) (ha : a.value ∈ values) (hb : b.value ∈ values) :
    a.cmp b = some (cmp (a.rank a.reverse) (b.rank a.reverse)) := by
  rw [OrderingValueWrapper.cmp, OrderingValueWrapper.rank, OrderingValueWrapper.rank]
  cases a.ignore with
  | true =>
    cases b.ignore with
    | true => exact congrArg some (cmp_self_eq_eq _).symm
    | false => exact congrArg some ((cmp_eq_lt_iff _ _).mpr (WithBot.bot_lt_coe _)).symm
  | false =>
    cases b.ignore with
    | true => exact congrArg some ((cmp_eq_gt_iff _ _).mpr (WithBot.bot_lt_coe _)).symm
    | false =>
      have hvalues := partialCmp_eq_place h hends ha hb
      have hranks := cmp_wrapped a.reverse a.value.place b.value.place
      calc
        _ = (a.value.partialCmp b.value).map fun o => if a.reverse then o.swap else o := rfl
        _ = some (if a.reverse then (cmp a.value.place b.value.place).swap
            else cmp a.value.place b.value.place) := by rw [hvalues, Option.map_some]
        _ = _ := by rw [← hranks]; exact congrArg some (WithBot.coe_strictMono.cmp_map_eq _ _).symm

theorem rank_eq_iff {values : List OrderingValue} (h : Uniform values) (hends : EndsAgree values)
    (a b : OrderingValueWrapper) (ha : a.value ∈ values) (hb : b.value ∈ values)
    (hreverse : a.reverse = b.reverse) (reverse : Bool) :
    (a.eq b = true ∨ a.ignore = true ∧ b.ignore = true) ↔ a.rank reverse = b.rank reverse := by
  rw [OrderingValueWrapper.eq, Bool.and_eq_true, Bool.and_eq_true, value_eq_iff h hends ha hb,
    decide_eq_true_iff, decide_eq_true_iff, OrderingValueWrapper.rank, OrderingValueWrapper.rank]
  cases a.ignore with
  | true =>
    cases b.ignore with
    | true => exact iff_of_true (Or.inr ⟨rfl, rfl⟩) rfl
    | false => simp
  | false =>
    cases b.ignore with
    | true => simp
    | false =>
      rw [if_neg Bool.false_ne_true, if_neg Bool.false_ne_true, WithBot.coe_inj]
      constructor
      · rintro (⟨⟨hplace, -⟩, -⟩ | ⟨hfalse, -⟩)
        · rw [hplace]
        · cases hfalse
      · intro hwrapped
        exact Or.inl ⟨⟨congrArg Search.OrderingValueWrapper.value hwrapped, hreverse⟩, rfl⟩

/-- Two wrappers that are not ignored are compared the other way round in the other direction,
whatever their values are. -/
theorem cmp_reversed (a b : OrderingValueWrapper) (ha : a.ignore = false) (hb : b.ignore = false) :
    ({ a with reverse := !a.reverse } : OrderingValueWrapper).cmp
      { b with reverse := !b.reverse } = (a.cmp b).map Ordering.swap := by
  have hturn (o : Ordering) : (if (!a.reverse) = true then o.swap else o) =
      (if a.reverse = true then o.swap else o).swap := by
    cases a.reverse with
    | false => rfl
    | true => exact o.swap_swap.symm
  simp only [OrderingValueWrapper.cmp, ha, hb, Bool.and_self, Bool.false_eq_true, ↓reduceIte,
    Option.map_map, hturn]
  rfl

/-! ## The bounds of a page -/

section Bounds
variable {values : List OrderingValue} (h : Uniform values) (hends : EndsAgree values)

include h hends

theorem isBefore_iff (v w : OrderingValue) (hv : v ∈ values) (hw : w ∈ values) :
    v.isBefore w = true ↔ v.place < w.place := by
  rw [OrderingValue.isBefore, partialCmp_eq_place h hends hv hw, decide_eq_true_iff,
    Option.some.injEq, cmp_eq_lt_iff]

theorem isAfter_iff (v w : OrderingValue) (hv : v ∈ values) (hw : w ∈ values) :
    v.isAfter w = true ↔ w.place < v.place := by
  rw [OrderingValue.isAfter, partialCmp_eq_place h hends hv hw, decide_eq_true_iff,
    Option.some.injEq, cmp_eq_gt_iff]

end Bounds

def Paging.bounds (page : Paging) : List OrderingValue :=
  page.beforeOrderingValue.toList ++ page.afterOrderingValue.toList

/-- The values between the bounds of a page, without the bounds. -/
def StrictlyWithin (page : Paging) (v : OrderingValue) : Prop :=
  (∀ before ∈ page.beforeOrderingValue, v.place < before.place) ∧
    ∀ after ∈ page.afterOrderingValue, after.place < v.place

theorem isWithinPageBound_iff {values : List OrderingValue} (h : Uniform values)
    (hends : EndsAgree values) (v : OrderingValue) (page : Paging) (hv : v ∈ values)
    (hpage : page.bounds ⊆ values) :
    v.isWithinPageBound page = true ↔ StrictlyWithin page v := by
  have hbefore (w : OrderingValue) (hw : w ∈ page.beforeOrderingValue) :
      v.isBefore w = true ↔ v.place < w.place :=
    isBefore_iff h hends v w hv (hpage (List.mem_append_left _ (Option.mem_toList.mpr hw)))
  have hafter (w : OrderingValue) (hw : w ∈ page.afterOrderingValue) :
      v.isAfter w = true ↔ w.place < v.place :=
    isAfter_iff h hends v w hv (hpage (List.mem_append_right _ (Option.mem_toList.mpr hw)))
  rw [OrderingValue.isWithinPageBound, Bool.and_eq_true, Option.all_eq_true, Option.all_eq_true]
  apply and_congr
  · exact forall₂_congr hbefore
  · exact forall₂_congr hafter

/-- The bounds of a wrapper are those of a page that has both. -/
theorem isWithinBound_eq (w : OrderingValueWrapper) (lower higher : OrderingValue) :
    w.isWithinBound lower higher = w.value.isWithinPageBound ⟨some lower, some higher⟩ := by
  rw [OrderingValueWrapper.isWithinBound, OrderingValue.isWithinPageBound, Option.all_some,
    Option.all_some, Bool.and_comm]

/-- The search takes the places of the values for the values. -/
theorem isWithinPageBound_eq_search {values : List OrderingValue} (h : Uniform values)
    (hends : EndsAgree values) (v : OrderingValue) (page : Paging) (hv : v ∈ values)
    (hpage : page.bounds ⊆ values) (count : ℕ) :
    v.isWithinPageBound page = Search.isWithinPageBound v.place
      ⟨count, page.beforeOrderingValue.map OrderingValue.place,
        page.afterOrderingValue.map OrderingValue.place⟩ := by
  rw [Bool.eq_iff_iff, isWithinPageBound_iff h hends v page hv hpage, Search.isWithinPageBound,
    Bool.and_eq_true, Option.all_map, Option.all_map, Option.all_eq_true, Option.all_eq_true]
  simp only [decide_eq_true_eq]
  rfl

/-! ## The laws -/

/-- What is expected of three wrappers of one direction, and of the bounds of a page. -/
structure Lawful (same : OrderingValueWrapper → OrderingValueWrapper → Prop)
    (a b c : OrderingValueWrapper) (page : Paging) : Prop where
  ordered : LawfulAt OrderingValueWrapper.cmp same a b c
  reversed : a.ignore = false → b.ignore = false →
    ({ a with reverse := !a.reverse } : OrderingValueWrapper).cmp
      { b with reverse := !b.reverse } = (a.cmp b).map Ordering.swap
  within : a.value.isWithinPageBound page = true ↔ StrictlyWithin page a.value

theorem wrappers_lawful (a b c : OrderingValueWrapper) (page : Paging)
    (hreverse : b.reverse = a.reverse ∧ c.reverse = a.reverse)
    (hkind : Uniform ([a.value, b.value, c.value] ++ page.bounds))
    (hends : EndsAgree ([a.value, b.value, c.value] ++ page.bounds)) :
    Lawful (fun a b => a.eq b = true ∨ a.ignore = true ∧ b.ignore = true) a b c page := by
  have hmem (x : OrderingValueWrapper) (hx : x ∈ [a, b, c]) :
      x.value ∈ [a.value, b.value, c.value] ++ page.bounds :=
    List.mem_append_left _ (List.mem_map_of_mem hx)
  have hdirection (x : OrderingValueWrapper) (hx : x ∈ [a, b, c]) : x.reverse = a.reverse := by
    simp only [List.mem_cons, List.not_mem_nil, or_false] at hx
    rcases hx with rfl | rfl | rfl
    · rfl
    · exact hreverse.1
    · exact hreverse.2
  refine ⟨?_, cmp_reversed a b, ?_⟩
  · apply lawfulAt_of_key _ _ (OrderingValueWrapper.rank a.reverse)
    · intro x hx y hy
      rw [cmp_eq_rank hkind hends x y (hmem x hx) (hmem y hy), hdirection x hx]
    · exact rank_eq_iff hkind hends a b (hmem a (by simp)) (hmem b (by simp)) hreverse.1.symm _
  · exact isWithinPageBound_iff hkind hends a.value page (hmem a (by simp))
      (List.subset_append_right _ _)

section Samples

def openPage : Paging := ⟨none, none⟩

/-- Everything between the two ends. -/
def wholePage : Paging := ⟨some valueMin, some valueMax⟩

def ignored (value : Fin (2^64)) : OrderingValueWrapper := ⟨valueFromU64 value 1, false, true⟩

def least (flag : Bool) : OrderingValueWrapper := ⟨⟨some (.min flag), 1⟩, false, false⟩

/-- Two ignored wrappers compare equal and are not. Two least values with different flags are each
less than the other. -/
theorem not_lawful :
    (Uniform ([(ignored 1).value, (ignored 2).value, (ignored 2).value] ++ openPage.bounds) ∧
      ¬ Lawful (fun a b => a.eq b = true) (ignored 1) (ignored 2) (ignored 2) openPage) ∧
    Uniform ([(least true).value, (least false).value, (least false).value] ++ openPage.bounds) ∧
      ¬ Lawful (fun a b => a.eq b = true) (least true) (least false) (least false) openPage := by
  refine ⟨⟨⟨.uint64, ?_⟩, fun h => ?_⟩, ⟨.float, ?_⟩, fun h => ?_⟩
  · simp [openPage, Paging.bounds, ignored, valueFromU64, Value.IsOf]
  · have hequal : (ignored 1).eq (ignored 2) = true := h.ordered.equal.mp (by decide +kernel)
    exact absurd hequal (by decide +kernel)
  · simp [openPage, Paging.bounds, least, Value.IsOf]
  · have hturned := h.ordered.antisymmetric
    exact absurd hturned (by decide +kernel)

def scored (bits : Fin (2^32)) (operationId : OperationId) : OrderingValueWrapper :=
  ⟨valueFromF32 ⟨bits⟩ operationId, true, false⟩

/-- The score 1, the zeros and the bounds of the whole page. -/
theorem scores_lawful :
    Lawful (fun a b => a.eq b = true ∨ a.ignore = true ∧ b.ignore = true)
      (scored 1065353216 7) (scored 0 8) (scored (2^31) 9) wholePage := by
  refine wrappers_lawful (scored 1065353216 7) (scored 0 8) (scored (2^31) 9) wholePage ⟨rfl, rfl⟩
    ?_ ?_
  · refine ⟨.float, ?_⟩
    simp [wholePage, Paging.bounds, scored, valueFromF32, valueMin, valueMax, Value.IsOf]
    decide +kernel
  · apply endsAgree_of_true
    simp [wholePage, Paging.bounds, scored, valueFromF32, valueMin, valueMax]

end Samples

end Exocore.Store.OrderingValues
