import Mathlib.Data.List.Sort
import Mathlib.Order.Basic
import Mathlib.Tactic

/-! The extraction of the best results from an iterator that gives its items by a score, when
each is to be ranked by a penalized score. -/
namespace Exocore.Store

open scoped List

variable {E S : Type*} [LinearOrder S]

section Extraction

variable (scorer : E → S × S) (count : ℕ)

/-- The reserve is a heap; its items stand here from the highest penalized score on. -/
def pushReserve (item : E) (reserve : List E) : List E :=
  reserve.orderedInsert (fun a b => (scorer b).2 ≤ (scorer a).2) item

/-- The items of the reserve that nothing behind the current item can beat. -/
def drainReserve (score : S) : List E → List E → List E × List E
  | topResults, [] => (topResults, [])
  | topResults, item :: reserve =>
    if score ≤ (scorer item).2 ∧ topResults.length < count then
      drainReserve score (topResults ++ [item]) reserve
    else (topResults, item :: reserve)

def consumeItems : List E → List E → List E → List E × List E
  | topResults, reserve, [] => (topResults, reserve)
  | topResults, reserve, item :: rest =>
    let (topResults, reserve) := drainReserve scorer count (scorer item).1 topResults reserve
    if count ≤ topResults.length then (topResults, reserve)
    else consumeItems topResults (pushReserve scorer item reserve) rest

/-- What is left in the reserve fills the results up. -/
def fillResults (consumed : List E × List E) : List E :=
  consumed.1 ++ consumed.2.take (count - consumed.1.length)

def topNegativelyRescoredResults (items : List E) : List E :=
  fillResults count (consumeItems scorer count [] [] items)

end Extraction

variable {scorer : E → S × S} {count : ℕ}

/-- The items from the highest penalized score on. -/
def Descends (scorer : E → S × S) (items : List E) : Prop :=
  items.Pairwise fun a b => (scorer b).2 ≤ (scorer a).2

theorem drainReserve_append (score : S) (top reserve : List E) :
    (drainReserve scorer count score top reserve).1 ++
      (drainReserve scorer count score top reserve).2 = top ++ reserve := by
  induction reserve generalizing top with
  | nil => simp [drainReserve]
  | cons item reserve ih =>
    unfold drainReserve
    split
    · rw [ih, List.append_assoc, List.singleton_append]
    · rfl

theorem drainReserve_length (score : S) (top reserve : List E) (hlen : top.length ≤ count) :
    (drainReserve scorer count score top reserve).1.length ≤ count := by
  induction reserve generalizing top with
  | nil => simpa [drainReserve] using hlen
  | cons item reserve ih =>
    unfold drainReserve
    split
    case isTrue h =>
      apply ih
      rw [List.length_append, List.length_singleton]
      omega
    case isFalse => exact hlen

/-- What the drain adds to the results beats the score it was given. -/
theorem drainReserve_beats (score : S) (top reserve : List E) (a : E)
    (ha : a ∈ (drainReserve scorer count score top reserve).1) :
    a ∈ top ∨ score ≤ (scorer a).2 := by
  induction reserve generalizing top with
  | nil => exact Or.inl (by simpa [drainReserve] using ha)
  | cons item reserve ih =>
    unfold drainReserve at ha
    split at ha
    case isTrue h =>
      rcases ih (top ++ [item]) ha with hmem | hscore
      · rcases List.mem_append.mp hmem with htop | hitem
        · exact Or.inl htop
        · exact Or.inr (List.mem_singleton.mp hitem ▸ h.1)
      · exact Or.inr hscore
    case isFalse => exact Or.inl ha

/-- The results are above all that is behind them, and what is behind them is still to be
sorted. -/
theorem descends_append_sort (top rest : List E) (htop : Descends scorer top)
    (habove : ∀ a ∈ top, ∀ b ∈ rest, (scorer b).2 ≤ (scorer a).2) :
    ∃ sorted, sorted ~ top ++ rest ∧ Descends scorer sorted ∧ sorted.take top.length = top := by
  let r : E → E → Prop := fun a b => (scorer b).2 ≤ (scorer a).2
  have htotal : Std.Total r := ⟨fun a b => le_total (scorer b).2 (scorer a).2⟩
  have htrans : IsTrans E r := ⟨fun _ _ _ hab hbc => le_trans hbc hab⟩
  have hperm := List.perm_insertionSort r rest
  refine ⟨top ++ rest.insertionSort r, hperm.append_left top, ?_, List.take_left⟩
  refine List.pairwise_append.mpr ⟨htop, List.pairwise_insertionSort r rest, ?_⟩
  intro a ha b hb
  exact habove a ha b (hperm.mem_iff.mp hb)

theorem descends_pushReserve (top reserve : List E) (item : E)
    (hsorted : Descends scorer (top ++ reserve))
    (habove : ∀ a ∈ top, (scorer item).2 ≤ (scorer a).2) :
    Descends scorer (top ++ pushReserve scorer item reserve) := by
  let r : E → E → Prop := fun a b => (scorer b).2 ≤ (scorer a).2
  have htotal : Std.Total r := ⟨fun a b => le_total (scorer b).2 (scorer a).2⟩
  have htrans : IsTrans E r := ⟨fun _ _ _ hab hbc => le_trans hbc hab⟩
  rw [Descends, List.pairwise_append] at hsorted ⊢
  refine ⟨hsorted.1, List.Pairwise.orderedInsert (r := r) item reserve hsorted.2.1, ?_⟩
  intro a ha b hb
  rcases List.mem_orderedInsert _ |>.mp hb with hitem | hreserve
  · exact hitem ▸ habove a ha
  · exact hsorted.2.2 a ha b hreserve

/-- The invariant of the consumption: the results and the reserve are sorted, and the results
are above the score of every item that is still to come. -/
structure Consuming (scorer : E → S × S) (count : ℕ) (top reserve rest : List E) : Prop where
  fits : top.length ≤ count
  descends : Descends scorer (top ++ reserve)
  above : ∀ a ∈ top, ∀ b ∈ rest, (scorer b).1 ≤ (scorer a).2

theorem Consuming.drain {top reserve rest : List E} {item : E}
    (h : Consuming scorer count top reserve (item :: rest))
    (hitems : (item :: rest).Pairwise fun a b => (scorer b).1 ≤ (scorer a).1) :
    Consuming scorer count (drainReserve scorer count (scorer item).1 top reserve).1
      (drainReserve scorer count (scorer item).1 top reserve).2 (item :: rest) := by
  refine ⟨drainReserve_length _ _ _ h.fits, ?_, ?_⟩
  · rw [drainReserve_append]
    exact h.descends
  · intro a ha b hb
    have hle : (scorer b).1 ≤ (scorer item).1 := by
      rcases List.mem_cons.mp hb with hitem | hrest
      · rw [hitem]
      · exact (List.pairwise_cons.mp hitems).1 b hrest
    rcases drainReserve_beats _ _ _ a ha with htop | hscore
    · exact h.above a htop b hb
    · exact le_trans hle hscore

theorem Consuming.push {top reserve rest : List E} {item : E}
    (h : Consuming scorer count top reserve (item :: rest))
    (hlower : ∀ a ∈ item :: rest, (scorer a).2 ≤ (scorer a).1) :
    Consuming scorer count top (pushReserve scorer item reserve) rest := by
  have hitem : item ∈ item :: rest := List.mem_cons_self
  refine ⟨h.fits, descends_pushReserve _ _ _ h.descends ?_, ?_⟩
  · intro a ha
    exact le_trans (hlower item hitem) (h.above a ha item hitem)
  · intro a ha b hb
    exact h.above a ha b (List.mem_cons_of_mem _ hb)

theorem consumeItems_take (items top reserve : List E)
    (h : Consuming scorer count top reserve items)
    (hitems : items.Pairwise fun a b => (scorer b).1 ≤ (scorer a).1)
    (hlower : ∀ a ∈ items, (scorer a).2 ≤ (scorer a).1) :
    ∃ sorted, sorted ~ top ++ reserve ++ items ∧ Descends scorer sorted ∧
      fillResults count (consumeItems scorer count top reserve items) = sorted.take count := by
  induction items generalizing top reserve with
  | nil =>
    refine ⟨top ++ reserve, by simp, h.descends, ?_⟩
    rw [fillResults, consumeItems, List.take_append, List.take_of_length_le h.fits]
  | cons item rest ih =>
    have hdrain := h.drain hitems
    have happend := @drainReserve_append _ _ _ scorer count (scorer item).1 top reserve
    unfold consumeItems
    generalize drainReserve scorer count (scorer item).1 top reserve = drained at *
    obtain ⟨top', reserve'⟩ := drained
    dsimp only at hdrain happend ⊢
    split
    case isTrue hfull =>
      -- the results are full, and nothing that was not consumed could have entered them
      have hlen : top'.length = count := le_antisymm hdrain.fits hfull
      obtain ⟨htop, -, hover⟩ := List.pairwise_append.mp hdrain.descends
      have habove : ∀ a ∈ top', ∀ b ∈ reserve' ++ item :: rest, (scorer b).2 ≤ (scorer a).2 := by
        intro a ha b hb
        rcases List.mem_append.mp hb with hreserve | hleft
        · exact hover a ha b hreserve
        · exact le_trans (hlower b hleft) (hdrain.above a ha b hleft)
      obtain ⟨sorted, hperm, hdesc, htake⟩ := descends_append_sort _ _ htop habove
      refine ⟨sorted, ?_, hdesc, ?_⟩
      · rw [← happend, List.append_assoc]
        exact hperm
      · rw [fillResults, ← hlen, htake]
        simp
    case isFalse hroom =>
      obtain ⟨sorted, hperm, hdesc, heq⟩ := ih _ _ (hdrain.push hlower)
        (List.pairwise_cons.mp hitems).2 (fun a ha => hlower a (List.mem_cons_of_mem _ ha))
      refine ⟨sorted, hperm.trans ?_, hdesc, heq⟩
      calc top' ++ pushReserve scorer item reserve' ++ rest
          ~ top' ++ (item :: reserve') ++ rest :=
            ((List.perm_orderedInsert _ _ _).append_left top').append_right rest
        _ ~ top' ++ reserve' ++ item :: rest := by
            simp only [List.append_assoc, List.cons_append]
            exact List.perm_middle.symm.append_left top'
        _ = top ++ reserve ++ item :: rest := by rw [happend]

/-- The early exit loses nothing: the results are the first of all the items, sorted by their
penalized scores. -/
theorem topNegativelyRescoredResults_take (items : List E)
    (hitems : items.Pairwise fun a b => (scorer b).1 ≤ (scorer a).1)
    (hlower : ∀ a ∈ items, (scorer a).2 ≤ (scorer a).1) :
    ∃ sorted, sorted ~ items ∧ Descends scorer sorted ∧
      topNegativelyRescoredResults scorer count items = sorted.take count := by
  have hstart : Consuming scorer count [] [] items :=
    ⟨Nat.zero_le _, List.Pairwise.nil, fun a ha => absurd ha List.not_mem_nil⟩
  exact consumeItems_take items [] [] hstart hitems hlower

end Exocore.Store
