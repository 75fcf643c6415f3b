import Exocore.LibHeap
import Exocore.StoreTopResults

/-! The iterator over the best results, with a reserve that is any heap: which of two items with
the same penalized score leaves it first is left open. -/
namespace Exocore.Store

/-- Before the first call there is an inner iterator, and afterwards there are results. -/
structure RescoredTopResultsIterator (E : Type*) where
  innerIter : Option (List E)
  topResults : List E

namespace RescoredTopResultsIterator

variable {E S : Type*} [LinearOrder S] {scorer : E → S × S}
variable (reserveHeap : MaxHeap E S fun item => (scorer item).2) (count : ℕ)

/-- The items of the reserve whose penalized score is not below the score. -/
def drain (score : S) (topResults : List E) (reserve : reserveHeap.Heap) :
    List E × reserveHeap.Heap :=
  match hpop : reserveHeap.pop reserve with
  | none => (topResults, reserve)
  | some (item, reserve') =>
    have := reserveHeap.pop_card reserve reserve' item hpop
    if score ≤ (scorer item).2 ∧ topResults.length < count then
      drain score (topResults ++ [item]) reserve'
    else (topResults, reserve)
termination_by (reserveHeap.items reserve).card

/-- The loop over the inner iterator. -/
def consume : List E → List E → reserveHeap.Heap → List E × reserveHeap.Heap
  | [], topResults, reserve => (topResults, reserve)
  | item :: rest, topResults, reserve =>
    let (topResults, reserve) := drain reserveHeap count (scorer item).1 topResults reserve
    if count ≤ topResults.length then (topResults, reserve)
    else consume rest topResults (reserveHeap.push item reserve)

/-- What is left in the reserve, until there are enough results. -/
def fill (topResults : List E) (reserve : reserveHeap.Heap) : List E × reserveHeap.Heap :=
  match hpop : reserveHeap.pop reserve with
  | none => (topResults, reserve)
  | some (item, reserve') =>
    have := reserveHeap.pop_card reserve reserve' item hpop
    if topResults.length < count then fill (topResults ++ [item]) reserve'
    else (topResults, reserve)
termination_by (reserveHeap.items reserve).card

def build (items : List E) (topResults : List E) : List E :=
  let (topResults, reserve) := consume reserveHeap count items topResults reserveHeap.empty
  (fill reserveHeap count topResults reserve).1

def next (iter : RescoredTopResultsIterator E) : Option E × RescoredTopResultsIterator E :=
  let topResults := match iter.innerIter with
    | some items => build reserveHeap count items iter.topResults
    | none => iter.topResults
  (topResults.head?, ⟨none, topResults.tail⟩)

/-- What this many calls of `next` yield. -/
def yields : ℕ → RescoredTopResultsIterator E → List (Option E)
  | 0, _ => []
  | calls + 1, iter =>
    let (item, iter) := next reserveHeap count iter
    item :: yields calls iter

end RescoredTopResultsIterator

def topNegativelyRescored {E : Type*} (items : List E) : RescoredTopResultsIterator E :=
  ⟨some items, []⟩

namespace RescoredTopResultsIterator

variable {E S : Type*} [LinearOrder S] {scorer : E → S × S}
variable {reserveHeap : MaxHeap E S fun item => (scorer item).2} {count : ℕ}

/-- The results are sorted, and nothing that the reserve holds is above them. -/
structure Ranked (topResults : List E) (reserve : reserveHeap.Heap) : Prop where
  descends : Descends scorer topResults
  above : ∀ a ∈ topResults, ∀ b ∈ reserveHeap.items reserve, (scorer b).2 ≤ (scorer a).2

/-- The greatest item of the reserve goes behind the results. -/
theorem Ranked.pop {topResults : List E} {reserve reserve' : reserveHeap.Heap} {item : E}
    (h : Ranked topResults reserve) (hpop : reserveHeap.pop reserve = some (item, reserve')) :
    Ranked (topResults ++ [item]) reserve' := by
  obtain ⟨hitems, hmax⟩ := reserveHeap.pop_some reserve item reserve' hpop
  have habove := h.above
  simp only [hitems, Multiset.mem_cons] at habove
  constructor
  · refine List.pairwise_append.mpr ⟨h.descends, List.pairwise_singleton _ _, ?_⟩
    intro a ha b hb
    rw [List.mem_singleton.mp hb]
    exact habove a ha item (Or.inl rfl)
  · intro a ha b hb
    rcases List.mem_append.mp ha with ha | ha
    · exact habove a ha b (Or.inr hb)
    · rw [List.mem_singleton.mp ha]
      exact hmax b hb

/-- Nothing is lost between the results and the reserve. -/
def SameItems (top top' : List E) (reserve reserve' : reserveHeap.Heap) : Prop :=
  (top' : Multiset E) + reserveHeap.items reserve' = top + reserveHeap.items reserve

theorem sameItems_pop (topResults : List E) (reserve reserve' : reserveHeap.Heap) (item : E)
    (hpop : reserveHeap.pop reserve = some (item, reserve')) :
    SameItems topResults (topResults ++ [item]) reserve reserve' := by
  unfold SameItems
  rw [(reserveHeap.pop_some reserve item reserve' hpop).1, ← Multiset.coe_add, add_assoc,
    Multiset.coe_singleton, Multiset.singleton_add]

/-- What the drain leaves: results that are still ranked, and that are above the score as far as
they are new. -/
structure Drained (count : ℕ) (score : S) (topResults : List E) (reserve : reserveHeap.Heap)
    (drained : List E × reserveHeap.Heap) : Prop where
  same : SameItems topResults drained.1 reserve drained.2
  ranked : Ranked drained.1 drained.2
  fits : drained.1.length ≤ count
  beats : ∀ a ∈ drained.1, a ∈ topResults ∨ score ≤ (scorer a).2

theorem drain_spec (score : S) (topResults : List E) (reserve : reserveHeap.Heap)
    (hranked : Ranked topResults reserve) (hfits : topResults.length ≤ count) :
    Drained count score topResults reserve (drain reserveHeap count score topResults reserve) := by
  have hstop : Drained count score topResults reserve (topResults, reserve) :=
    ⟨rfl, hranked, hfits, fun a ha => Or.inl ha⟩
  fun_induction drain reserveHeap count score topResults reserve with
  | case1 => exact hstop
  | case2 topResults reserve item reserve' hpop _ hroom ih =>
    have hlength : (topResults ++ [item]).length ≤ count := by
      rw [List.length_append, List.length_singleton]
      exact hroom.2
    have hnext := ih (hranked.pop hpop) hlength
      ⟨rfl, hranked.pop hpop, hlength, fun a ha => Or.inl ha⟩
    refine ⟨hnext.same.trans (sameItems_pop topResults reserve reserve' item hpop), hnext.ranked,
      hnext.fits, ?_⟩
    intro a ha
    rcases hnext.beats a ha with htop | hscore
    · rcases List.mem_append.mp htop with htop | hitem
      · exact Or.inl htop
      · exact Or.inr (List.mem_singleton.mp hitem ▸ hroom.1)
    · exact Or.inr hscore
  | case3 => exact hstop

/-- What the fill leaves: enough results, or an empty reserve. -/
structure Filled (count : ℕ) (topResults : List E) (reserve : reserveHeap.Heap)
    (filled : List E × reserveHeap.Heap) : Prop where
  same : SameItems topResults filled.1 reserve filled.2
  ranked : Ranked filled.1 filled.2
  fits : filled.1.length ≤ count
  full : filled.1.length = count ∨ reserveHeap.items filled.2 = 0

theorem fill_spec (topResults : List E) (reserve : reserveHeap.Heap)
    (hranked : Ranked topResults reserve) (hfits : topResults.length ≤ count) :
    Filled count topResults reserve (fill reserveHeap count topResults reserve) := by
  fun_induction fill reserveHeap count topResults reserve with
  | case1 topResults reserve hpop =>
    exact ⟨rfl, hranked, hfits, Or.inr (reserveHeap.pop_none reserve hpop)⟩
  | case2 topResults reserve item reserve' hpop _ hroom ih =>
    have hlength : (topResults ++ [item]).length ≤ count := by
      rw [List.length_append, List.length_singleton]
      exact hroom
    have hnext := ih (hranked.pop hpop) hlength
    exact ⟨hnext.same.trans (sameItems_pop topResults reserve reserve' item hpop), hnext.ranked,
      hnext.fits, hnext.full⟩
  | case3 topResults reserve item reserve' hpop _ hroom =>
    exact ⟨rfl, hranked, hfits, Or.inl (le_antisymm hfits (not_lt.mp hroom))⟩

theorem drain_of_none (score : S) (topResults : List E) (reserve : reserveHeap.Heap)
    (hpop : reserveHeap.pop reserve = none) :
    drain reserveHeap count score topResults reserve = (topResults, reserve) := by
  unfold drain
  split
  · rfl
  · next hsome =>
    rw [hpop] at hsome
    cases hsome

theorem drain_of_some (score : S) (topResults : List E) (reserve reserve' : reserveHeap.Heap)
    (item : E) (hpop : reserveHeap.pop reserve = some (item, reserve')) :
    drain reserveHeap count score topResults reserve =
      if score ≤ (scorer item).2 ∧ topResults.length < count then
        drain reserveHeap count score (topResults ++ [item]) reserve'
      else (topResults, reserve) := by
  rw [drain]
  split
  · next hnone =>
    rw [hpop] at hnone
    cases hnone
  · next hsome =>
    rw [hpop] at hsome
    cases hsome
    rfl

theorem fill_of_none (topResults : List E) (reserve : reserveHeap.Heap)
    (hpop : reserveHeap.pop reserve = none) :
    fill reserveHeap count topResults reserve = (topResults, reserve) := by
  unfold fill
  split
  · rfl
  · next hsome =>
    rw [hpop] at hsome
    cases hsome

theorem fill_of_some (topResults : List E) (reserve reserve' : reserveHeap.Heap) (item : E)
    (hpop : reserveHeap.pop reserve = some (item, reserve')) :
    fill reserveHeap count topResults reserve =
      if topResults.length < count then
        fill reserveHeap count (topResults ++ [item]) reserve'
      else (topResults, reserve) := by
  rw [fill]
  split
  · next hnone =>
    rw [hpop] at hnone
    cases hnone
  · next hsome =>
    rw [hpop] at hsome
    cases hsome
    rfl

theorem fill_of_full (topResults : List E) (reserve : reserveHeap.Heap)
    (hfull : count ≤ topResults.length) :
    (fill reserveHeap count topResults reserve).1 = topResults := by
  cases hpop : reserveHeap.pop reserve with
  | none => rw [fill_of_none topResults reserve hpop]
  | some popped => rw [fill_of_some topResults reserve _ _ hpop, if_neg (not_lt.mpr hfull)]

/-- The results are the items with the highest penalized scores, from the highest on. -/
structure Tops (scorer : E → S × S) (count : ℕ) (items : Multiset E) (results : List E) : Prop where
  descends : Descends scorer results
  above : ∃ left, items = results + left ∧ ∀ a ∈ results, ∀ b ∈ left, (scorer b).2 ≤ (scorer a).2
  length : results.length = min count items.card

/-- The results are sorted and above all that is to come, whose scores descend. -/
structure Consumes (count : ℕ) (items topResults : List E) (reserve : reserveHeap.Heap) :
    Prop where
  ranked : Ranked topResults reserve
  fits : topResults.length ≤ count
  above : ∀ a ∈ topResults, ∀ b ∈ items, (scorer b).1 ≤ (scorer a).2
  descends : items.Pairwise fun a b => (scorer b).1 ≤ (scorer a).1
  penalized : ∀ a ∈ items, (scorer a).2 ≤ (scorer a).1

section Consumes

variable {item : E} {rest topResults : List E} {reserve : reserveHeap.Heap}

theorem Consumes.drain (h : Consumes count (item :: rest) topResults reserve)
    (drained : List E × reserveHeap.Heap)
    (hdrain : Drained count (scorer item).1 topResults reserve drained) :
    Consumes count (item :: rest) drained.1 drained.2 := by
  refine ⟨hdrain.ranked, hdrain.fits, ?_, h.descends, h.penalized⟩
  intro a ha b hb
  have hle : (scorer b).1 ≤ (scorer item).1 := by
    rcases List.mem_cons.mp hb with hb | hb
    · rw [hb]
    · exact (List.pairwise_cons.mp h.descends).1 b hb
  rcases hdrain.beats a ha with htop | hscore
  · exact h.above a htop b hb
  · exact hle.trans hscore

theorem Consumes.push (h : Consumes count (item :: rest) topResults reserve) :
    Consumes count rest topResults (reserveHeap.push item reserve) := by
  have hitem : item ∈ item :: rest := List.mem_cons_self
  refine ⟨⟨h.ranked.descends, ?_⟩, h.fits, ?_, (List.pairwise_cons.mp h.descends).2, ?_⟩
  · intro a ha b hb
    rw [reserveHeap.items_push, Multiset.mem_cons] at hb
    rcases hb with rfl | hb
    · exact (h.penalized b hitem).trans (h.above a ha b hitem)
    · exact h.ranked.above a ha b hb
  · intro a ha b hb
    exact h.above a ha b (List.mem_cons_of_mem item hb)
  · intro a ha
    exact h.penalized a (List.mem_cons_of_mem item ha)

/-- Where the results are full, nothing that was not consumed could have entered them. -/
theorem Consumes.tops_of_full (h : Consumes count (item :: rest) topResults reserve)
    (hfull : count ≤ topResults.length) :
    Tops scorer count (topResults + reserveHeap.items reserve + (item :: rest)) topResults := by
  have hlength : topResults.length = count := le_antisymm h.fits hfull
  refine ⟨h.ranked.descends, ⟨reserveHeap.items reserve + (item :: rest), by rw [add_assoc], ?_⟩,
    ?_⟩
  · intro a ha b hb
    rcases Multiset.mem_add.mp hb with hb | hb
    · exact h.ranked.above a ha b hb
    · rw [Multiset.mem_coe] at hb
      exact (h.penalized b hb).trans (h.above a ha b hb)
  · rw [Multiset.card_add, Multiset.card_add, Multiset.coe_card]
    omega

end Consumes

theorem consume_tops (items topResults : List E) (reserve : reserveHeap.Heap)
    (h : Consumes count items topResults reserve) :
    Tops scorer count (topResults + reserveHeap.items reserve + items)
      (fill reserveHeap count (consume reserveHeap count items topResults reserve).1
        (consume reserveHeap count items topResults reserve).2).1 := by
  induction items generalizing topResults reserve with
  | nil =>
    have hfill := fill_spec topResults reserve h.ranked h.fits
    have hsame := hfill.same
    unfold SameItems at hsame
    rw [consume, Multiset.coe_nil, add_zero]
    dsimp only
    refine ⟨hfill.ranked.descends, ⟨_, hsame.symm, hfill.ranked.above⟩, ?_⟩
    rw [← hsame, Multiset.card_add, Multiset.coe_card]
    have hfits := hfill.fits
    rcases hfill.full with hfull | hempty
    · omega
    · rw [hempty, Multiset.card_zero]
      omega
  | cons item rest ih =>
    have hdrain := drain_spec (scorer item).1 topResults reserve h.ranked h.fits
    have hnext := h.drain _ hdrain
    have hsame := hdrain.same
    unfold SameItems at hsame
    rw [← hsame]
    unfold consume
    generalize drain reserveHeap count (scorer item).1 topResults reserve = drained at hnext
    obtain ⟨top, reserve'⟩ := drained
    dsimp only at hnext ⊢
    by_cases hfull : count ≤ top.length
    · rw [if_pos hfull, fill_of_full top reserve' hfull]
      exact hnext.tops_of_full hfull
    · rw [if_neg hfull]
      have hrest := ih top (reserveHeap.push item reserve') hnext.push
      have hitems : (top : Multiset E) + reserveHeap.items (reserveHeap.push item reserve') + rest =
          top + reserveHeap.items reserve' + (item :: rest) := by
        rw [reserveHeap.items_push, ← Multiset.cons_coe, ← Multiset.singleton_add,
          ← Multiset.singleton_add item (rest : Multiset E)]
        abel
      rw [← hitems]
      exact hrest

theorem build_tops (items : List E)
    (hitems : items.Pairwise fun a b => (scorer b).1 ≤ (scorer a).1)
    (hpenalized : ∀ a ∈ items, (scorer a).2 ≤ (scorer a).1) :
    Tops scorer count items (build reserveHeap count items []) := by
  have hstart : Consumes count items [] reserveHeap.empty := by
    refine ⟨⟨List.Pairwise.nil, ?_⟩, Nat.zero_le _, ?_, hitems, hpenalized⟩
    · exact fun a ha => absurd ha List.not_mem_nil
    · exact fun a ha => absurd ha List.not_mem_nil
  have htops := consume_tops items [] reserveHeap.empty hstart
  rw [reserveHeap.items_empty, Multiset.coe_nil, add_zero, zero_add] at htops
  exact htops

/-- The penalized scores of the results are the first of all the penalized scores. -/
theorem Tops.scores_eq {items results : List E} (h : Tops scorer count items results) :
    results.map (fun a => (scorer a).2) =
      ((items.map fun a => (scorer a).2).insertionSort (· ≥ ·)).take count := by
  obtain ⟨left, hitems, habove⟩ := h.above
  let scores := left.toList.map fun a => (scorer a).2
  let ranked := results.map (fun a => (scorer a).2) ++ scores.insertionSort (· ≥ ·)
  have hperm : ranked.Perm (items.map fun a => (scorer a).2) := by
    have hsplit : (results ++ left.toList).Perm items := by
      rw [← Multiset.coe_eq_coe, hitems, ← Multiset.coe_add, Multiset.coe_toList]
    have hmap := hsplit.map fun a => (scorer a).2
    rw [List.map_append] at hmap
    exact ((List.perm_insertionSort (· ≥ ·) scores).append_left _).trans hmap
  have hsorted : ranked.Pairwise (· ≥ ·) := by
    refine List.pairwise_append.mpr ⟨?_, List.pairwise_insertionSort (· ≥ ·) scores, ?_⟩
    · exact List.pairwise_map.mpr h.descends
    · intro x hx y hy
      obtain ⟨a, ha, rfl⟩ := List.mem_map.mp hx
      rw [List.mem_insertionSort] at hy
      obtain ⟨b, hb, rfl⟩ := List.mem_map.mp hy
      exact habove a ha b (Multiset.mem_toList.mp hb)
  have heq : (items.map fun a => (scorer a).2).insertionSort (· ≥ ·) = ranked :=
    List.Perm.eq_of_pairwise' (List.pairwise_insertionSort (· ≥ ·) _) hsorted
      ((List.perm_insertionSort (· ≥ ·) _).trans hperm.symm)
  rw [heq]
  have hlength := h.length
  rw [Multiset.coe_card] at hlength
  rcases Nat.lt_or_ge items.length count with hlt | hge
  · -- all the items are results
    have hcard := congrArg Multiset.card hitems
    rw [Multiset.card_add, Multiset.coe_card, Multiset.coe_card] at hcard
    have hleft : left = 0 := Multiset.card_eq_zero.mp (by omega)
    have hranked : ranked = results.map fun a => (scorer a).2 := by
      simp only [ranked, scores, hleft, Multiset.toList_zero, List.map_nil, List.insertionSort_nil,
        List.append_nil]
    rw [hranked, List.take_of_length_le]
    rw [List.length_map]
    omega
  · have hcount : (results.map fun a => (scorer a).2).length = count := by
      rw [List.length_map, hlength, min_eq_left hge]
    rw [← hcount, List.take_left]

/-- The calls of `next` yield the results one by one, and then nothing. -/
theorem yields_built (calls : ℕ) (results : List E) :
    yields reserveHeap count calls ⟨none, results⟩ =
      (List.range calls).map fun i => results[i]? := by
  induction calls generalizing results with
  | zero => rfl
  | succ calls ih =>
    rw [yields, next]
    dsimp only
    rw [ih, List.range_succ_eq_map, List.map_cons, List.map_map, List.head?_eq_getElem?]
    congr 2
    funext i
    exact List.getElem?_tail

theorem yields_eq (calls : ℕ) (items : List E) :
    yields reserveHeap count calls (topNegativelyRescored items) =
      (List.range calls).map fun i => (build reserveHeap count items [])[i]? := by
  have hbuilt : yields reserveHeap count calls ⟨none, build reserveHeap count items []⟩ = _ :=
    yields_built calls _
  rw [← hbuilt]
  cases calls <;> rfl

/-- Whatever the heap does among equals, the iterator yields the items with the highest penalized
scores from the highest on. -/
theorem topNegativelyRescored_exact (items : List E)
    (hitems : items.Pairwise fun a b => (scorer b).1 ≤ (scorer a).1)
    (hpenalized : ∀ a ∈ items, (scorer a).2 ≤ (scorer a).1) :
    ∃ results : List E,
      (∀ calls, yields reserveHeap count calls (topNegativelyRescored items) =
        (List.range calls).map fun i => results[i]?) ∧
      results.Subperm items ∧ Descends scorer results ∧
      results.length = min count items.length ∧
      results.map (fun a => (scorer a).2) =
        ((items.map fun a => (scorer a).2).insertionSort (· ≥ ·)).take count := by
  have htops : Tops scorer count items (build reserveHeap count items []) :=
    build_tops items hitems hpenalized
  refine ⟨build reserveHeap count items [], fun calls => yields_eq calls items, ?_,
    htops.descends, ?_, htops.scores_eq⟩
  · obtain ⟨left, hleft, _⟩ := htops.above
    rw [← Multiset.coe_le, hleft]
    exact Multiset.le_add_right _ _
  · rw [htops.length, Multiset.coe_card]

section SortedReserve

variable (scorer : E → S × S) (count : ℕ)

/-- The reserve of the search: a list from the highest penalized score on. -/
abbrev sortedReserve : MaxHeap E S fun item => (scorer item).2 := MaxHeap.sorted _

theorem drain_sortedReserve (score : S) (top : List E) (reserve : (sortedReserve scorer).Heap) :
    (drain (sortedReserve scorer) count score top reserve).1 =
        (drainReserve scorer count score top reserve.val).1 ∧
      (drain (sortedReserve scorer) count score top reserve).2.val =
        (drainReserve scorer count score top reserve.val).2 := by
  obtain ⟨items, hitems⟩ := reserve
  induction items generalizing top with
  | nil =>
    rw [drain_of_none score top _ rfl]
    exact ⟨rfl, rfl⟩
  | cons item items ih =>
    rw [drain_of_some score top _ _ item rfl, drainReserve]
    by_cases hroom : score ≤ (scorer item).2 ∧ top.length < count
    · rw [if_pos hroom, if_pos hroom]
      exact ih (top ++ [item]) (List.pairwise_cons.mp hitems).2
    · rw [if_neg hroom, if_neg hroom]
      exact ⟨rfl, rfl⟩

theorem fill_sortedReserve (top : List E) (reserve : (sortedReserve scorer).Heap) :
    (fill (sortedReserve scorer) count top reserve).1 = fillResults count (top, reserve.val) := by
  obtain ⟨items, hitems⟩ := reserve
  induction items generalizing top with
  | nil =>
    rw [fill_of_none top _ rfl]
    simp only [fillResults, List.take_nil, List.append_nil]
  | cons item items ih =>
    rw [fill_of_some top _ _ item rfl]
    by_cases hroom : top.length < count
    · have hleft : count - top.length = (count - (top ++ [item]).length) + 1 := by
        rw [List.length_append, List.length_singleton]
        omega
      rw [if_pos hroom, fillResults, hleft, List.take_succ_cons]
      have hnext := ih (top ++ [item]) (List.pairwise_cons.mp hitems).2
      rw [fillResults, List.append_assoc, List.singleton_append] at hnext
      exact hnext
    · rw [if_neg hroom, fillResults, Nat.sub_eq_zero_of_le (not_lt.mp hroom), List.take_zero,
        List.append_nil]

theorem consume_sortedReserve (items top : List E) (reserve : (sortedReserve scorer).Heap) :
    (consume (sortedReserve scorer) count items top reserve).1 =
        (consumeItems scorer count top reserve.val items).1 ∧
      (consume (sortedReserve scorer) count items top reserve).2.val =
        (consumeItems scorer count top reserve.val items).2 := by
  induction items generalizing top reserve with
  | nil => exact ⟨rfl, rfl⟩
  | cons item rest ih =>
    obtain ⟨htop, hreserve⟩ := drain_sortedReserve scorer count (scorer item).1 top reserve
    unfold consume consumeItems
    generalize drain (sortedReserve scorer) count (scorer item).1 top reserve = drained at *
    generalize drainReserve scorer count (scorer item).1 top reserve.val = drained' at *
    obtain ⟨top', reserve'⟩ := drained
    obtain ⟨top'', reserve''⟩ := drained'
    dsimp only at htop hreserve ⊢
    subst htop hreserve
    by_cases hfull : count ≤ top'.length
    · simp only [if_pos hfull, and_self]
    · simp only [if_neg hfull]
      exact ih top' ((sortedReserve scorer).push item reserve')

/-- The results that the search takes are those of the iterator. -/
theorem build_sortedReserve (items : List E) :
    build (sortedReserve scorer) count items [] =
      topNegativelyRescoredResults scorer count items := by
  obtain ⟨htop, hreserve⟩ := consume_sortedReserve scorer count items [] (sortedReserve scorer).empty
  unfold build topNegativelyRescoredResults
  dsimp only
  rw [fill_sortedReserve, htop, hreserve]

/-- Two items whose scores are equal once one of them is penalized. -/
theorem topNegativelyRescored_tied :
    ∃ results : List (ℕ × ℕ),
      (∀ calls, yields (sortedReserve fun a : ℕ × ℕ => a) 2 calls
          (topNegativelyRescored [(9, 5), (7, 3), (5, 5)]) =
        (List.range calls).map fun i => results[i]?) ∧
      results.Subperm [(9, 5), (7, 3), (5, 5)] ∧ Descends (fun a : ℕ × ℕ => a) results ∧
      results.length = min 2 3 ∧
      results.map (fun a : ℕ × ℕ => a.2) =
        (([(9, 5), (7, 3), (5, 5)].map fun a : ℕ × ℕ => a.2).insertionSort (· ≥ ·)).take 2 :=
  topNegativelyRescored_exact [(9, 5), (7, 3), (5, 5)] (by decide) (by decide)

end SortedReserve

end RescoredTopResultsIterator

end Exocore.Store
