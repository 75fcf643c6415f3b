import Exocore.StoreRanking

/-! The pages of a search, from the first to the empty one. Each is cut out of the same ranking,
so that only the direction of the bound decides whether they add up to it. -/
namespace Exocore.Store.Search

variable {V ε : Type} [LinearOrder V]

namespace Searcher

/-- The pages from the first to the empty one end, and together they are complete. -/
def PagesComplete (s : Searcher V ε) (hits : List (MatchedMutation V)) (count : ℕ) : Prop :=
  ∃ fuel pages, s.searchPages fuel ⟨count, none, none⟩ = .ok (some pages) ∧
    s.Complete hits pages.flatten

/-- In a list that falls strictly, what is below one of its elements stands behind it. -/
theorem filter_below {α β : Type*} [LinearOrder β] (key : α → β) (before behind : List α) (r : α)
    (hstrict : (before ++ r :: behind).Pairwise fun a b => key b < key a) :
    (before ++ r :: behind).filter (fun a => key a < key r) = behind := by
  obtain ⟨-, hright, hcross⟩ := List.pairwise_append.mp hstrict
  have hbefore : before.filter (fun a => key a < key r) = [] := by
    rw [List.filter_eq_nil_iff]
    intro a ha
    rw [decide_eq_true_eq]
    exact not_lt.mpr (hcross a ha r List.mem_cons_self).le
  have hbehind : behind.filter (fun a => key a < key r) = behind := by
    rw [List.filter_eq_self]
    intro a ha
    exact decide_eq_true ((List.pairwise_cons.mp hright).1 a ha)
  rw [List.filter_append, hbefore, List.nil_append, List.filter_cons_of_neg (by simp), hbehind]

theorem filter_above {α β : Type*} [LinearOrder β] (key : α → β) (before behind : List α) (r : α)
    (hstrict : (before ++ r :: behind).Pairwise fun a b => key b < key a) :
    (before ++ r :: behind).filter (fun a => key r < key a) = before := by
  obtain ⟨-, hright, hcross⟩ := List.pairwise_append.mp hstrict
  have hbefore : before.filter (fun a => key r < key a) = before := by
    rw [List.filter_eq_self]
    intro a ha
    exact decide_eq_true (hcross a ha r List.mem_cons_self)
  have hbehind : behind.filter (fun a => key r < key a) = [] := by
    rw [List.filter_eq_nil_iff]
    intro a ha
    rw [decide_eq_true_eq]
    exact not_lt.mpr ((List.pairwise_cons.mp hright).1 a ha).le
  rw [List.filter_append, hbefore, List.filter_cons_of_neg (by simp), hbehind, List.append_nil]

/-- The pages that a search returns have one bound at most. -/
def boundedPage (s : Searcher V ε) (count : ℕ) (bound : Option (OrderingValue V)) : Paging V :=
  if s.query.ascending then ⟨count, none, bound⟩ else ⟨count, bound, none⟩

omit [LinearOrder V] in
theorem boundedPage_none (s : Searcher V ε) (count : ℕ) :
    s.boundedPage count none = ⟨count, none, none⟩ := by
  unfold boundedPage
  split <;> rfl

omit [LinearOrder V] in
theorem boundedPage_count (s : Searcher V ε) (count : ℕ) (bound : Option (OrderingValue V)) :
    (s.boundedPage count bound).count = count := by
  unfold boundedPage
  split <;> rfl

omit [LinearOrder V] in
theorem nextPaging_boundedPage (s : Searcher V ε) (results : List (SearchResult V)) (count : ℕ)
    (bound : Option (OrderingValue V)) :
    s.nextPaging results (s.boundedPage count bound) =
      results.getLast?.map fun last => s.boundedPage count (some last.orderingValue) := by
  unfold nextPaging boundedPage
  cases s.query.ascending <;> rfl

/-- The results of the page that ends before a bound. -/
def pageResults (s : Searcher V ε) (ranked : List (SearchResult V)) (count : ℕ)
    (bound : Option (OrderingValue V)) : List (SearchResult V) :=
  (ranked.filter fun r => isWithinPageBound r.orderingValue (s.boundedPage count bound)).take count

theorem pageResults_none (s : Searcher V ε) (ranked : List (SearchResult V)) (count : ℕ) :
    s.pageResults ranked count none = ranked.take count := by
  unfold pageResults
  rw [boundedPage_none]
  congr 1
  exact List.filter_eq_self.mpr fun _ _ => rfl

/-- Where the bound is on the side that the indices are read to, the next page is behind it. -/
theorem isWithin_of_agree (s : Searcher V ε) (hagree : s.reverse = s.query.ascending) (count : ℕ)
    (value bound : OrderingValue V) :
    isWithinPageBound value (s.boundedPage count (some bound)) =
      decide (s.rank value < s.rank bound) := by
  rw [Bool.eq_iff_iff, decide_eq_true_eq, rank_lt_iff, hagree]
  unfold boundedPage isWithinPageBound
  cases s.query.ascending <;> simp

/-- Where it is on the other side, the next page is before it. -/
theorem isWithin_of_differ (s : Searcher V ε) (hdiffer : s.reverse ≠ s.query.ascending) (count : ℕ)
    (value bound : OrderingValue V) :
    isWithinPageBound value (s.boundedPage count (some bound)) =
      decide (s.rank bound < s.rank value) := by
  rw [Bool.eq_iff_iff, decide_eq_true_eq, rank_lt_iff]
  unfold boundedPage isWithinPageBound
  cases hrev : s.reverse <;> cases hasc : s.query.ascending
  · exact absurd (hrev.trans hasc.symm) hdiffer
  · simp
  · simp
  · exact absurd (hrev.trans hasc.symm) hdiffer

theorem pageResults_of_agree (s : Searcher V ε) (hagree : s.reverse = s.query.ascending) (count : ℕ)
    (before behind : List (SearchResult V)) (r : SearchResult V)
    (hstrict : (before ++ r :: behind).Pairwise fun a b =>
      s.rank b.orderingValue < s.rank a.orderingValue) :
    s.pageResults (before ++ r :: behind) count (some r.orderingValue) = behind.take count := by
  unfold pageResults
  simp only [s.isWithin_of_agree hagree]
  rw [filter_below (fun a : SearchResult V => s.rank a.orderingValue) before behind r hstrict]

theorem pageResults_of_differ (s : Searcher V ε) (hdiffer : s.reverse ≠ s.query.ascending)
    (count : ℕ) (before behind : List (SearchResult V)) (r : SearchResult V)
    (hstrict : (before ++ r :: behind).Pairwise fun a b =>
      s.rank b.orderingValue < s.rank a.orderingValue) :
    s.pageResults (before ++ r :: behind) count (some r.orderingValue) = before.take count := by
  unfold pageResults
  simp only [s.isWithin_of_differ hdiffer]
  rw [filter_above (fun a : SearchResult V => s.rank a.orderingValue) before behind r hstrict]

theorem search_eq (s : Searcher V ε) {chainHits pendingHits : ℕ}
    {combined : List (MatchedMutation V × EntityResultSource)}
    (hhits : s.searchHits = .ok (chainHits, pendingHits, combined)) :
    let page := fillDefaultPaging (s.query.paging.getD defaultPaging)
    let results := topNegativelyRescoredResults s.scorer page.count
      (s.matchEntities page [] combined)
    s.search = .ok ⟨results, s.nextPaging results page, page, chainHits + pendingHits⟩ := by
  unfold search
  rw [hhits]
  rfl

/-- A match does not read the paging of the query. -/
theorem atPage_matchEntities (s : Searcher V ε) (at_ page : Paging V) (matched : List String)
    (hits : List (MatchedMutation V × EntityResultSource)) :
    (s.atPage at_).matchEntities page matched hits = s.matchEntities page matched hits := by
  induction hits generalizing matched with
  | nil => rfl
  | cons hit rest ih =>
    simp only [matchEntities, ih]
    rfl

section Pages

variable {s : Searcher V ε} {chain pending : List (MatchedMutation V)}
  (h : s.Answered chain pending) (hdeleted : s.query.includeDeleted = false) {count : ℕ}
  (hcount : 1 ≤ count)

include h hdeleted hcount

theorem Answered.search_atPage (bound : Option (OrderingValue V)) :
    (s.atPage (s.boundedPage count bound)).search =
      .ok ⟨s.pageResults (s.ranking chain pending) count bound,
        (s.pageResults (s.ranking chain pending) count bound).getLast?.map fun last =>
          s.boundedPage count (some last.orderingValue),
        s.boundedPage count bound, chain.length + pending.length⟩ := by
  have hpage : fillDefaultPaging (s.boundedPage count bound) = s.boundedPage count bound := by
    unfold fillDefaultPaging
    rw [if_neg (by rw [boundedPage_count]; omega)]
  have htop := h.topResults_eq hdeleted (s.boundedPage count bound)
  rw [← atPage_matchEntities s (s.boundedPage count bound), boundedPage_count] at htop
  have hsearch := (s.atPage (s.boundedPage count bound)).search_eq h.searchHits_eq
  have hfill : fillDefaultPaging ((s.atPage (s.boundedPage count bound)).query.paging.getD
      defaultPaging) = s.boundedPage count bound := hpage
  rw [hfill] at hsearch
  dsimp only at hsearch
  rw [boundedPage_count] at hsearch
  rw [hsearch, ← nextPaging_boundedPage, pageResults, ← htop]
  rfl

theorem Answered.searchPages_empty (fuel : ℕ) (bound : Option (OrderingValue V))
    (hempty : s.pageResults (s.ranking chain pending) count bound = []) :
    s.searchPages (fuel + 1) (s.boundedPage count bound) = .ok (some []) := by
  have hsearch := h.search_atPage hdeleted hcount bound
  rw [hempty] at hsearch
  rw [searchPages, hsearch]
  rfl

theorem Answered.searchPages_next (fuel : ℕ) (bound : Option (OrderingValue V))
    (before : List (SearchResult V)) (last : SearchResult V)
    (hresults : s.pageResults (s.ranking chain pending) count bound = before ++ [last]) :
    s.searchPages (fuel + 1) (s.boundedPage count bound) =
      (s.searchPages fuel (s.boundedPage count (some last.orderingValue))).map
        (Option.map ((before ++ [last]) :: ·)) := by
  have hsearch := h.search_atPage hdeleted hcount bound
  rw [hresults, List.getLast?_concat] at hsearch
  rw [searchPages, hsearch]
  show (do
    let pages ← s.searchPages fuel (s.boundedPage count (some last.orderingValue))
    return pages.map ((before ++ [last]) :: ·)) = _
  cases s.searchPages fuel (s.boundedPage count (some last.orderingValue)) <;> rfl

/-- The pages of the rest of the ranking, where the bound is on the side of the ranking. -/
theorem Answered.searchPages_rest (hagree : s.reverse = s.query.ascending) (fuel : ℕ)
    (before rest : List (SearchResult V)) (bound : Option (OrderingValue V))
    (hlen : rest.length ≤ fuel) (hranking : s.ranking chain pending = before ++ rest)
    (hresults : s.pageResults (s.ranking chain pending) count bound = rest.take count) :
    ∃ pages, s.searchPages (fuel + 1) (s.boundedPage count bound) = .ok (some pages) ∧
      pages.flatten = rest := by
  induction fuel generalizing before rest bound with
  | zero =>
    have hnil : rest = [] := List.length_eq_zero_iff.mp (by omega)
    rw [hnil, List.take_nil] at hresults
    exact ⟨[], h.searchPages_empty hdeleted hcount 0 bound hresults, hnil.symm⟩
  | succ fuel ih =>
    rcases List.eq_nil_or_concat (rest.take count) with hnil | ⟨init, last, hpage⟩
    · rw [hnil] at hresults
      refine ⟨[], h.searchPages_empty hdeleted hcount _ bound hresults, ?_⟩
      rcases List.take_eq_nil_iff.mp hnil with hzero | hrest
      · omega
      · exact hrest.symm
    · rw [List.concat_eq_append] at hpage
      rw [hpage] at hresults
      have hsplit : rest = init ++ last :: rest.drop count := by
        calc rest = rest.take count ++ rest.drop count := (List.take_append_drop count rest).symm
          _ = init ++ last :: rest.drop count := by rw [hpage, List.append_assoc,
                List.singleton_append]
      have hshorter : (rest.drop count).length ≤ fuel := by
        have hpos : 0 < rest.length := by
          rw [hsplit]
          simp
        rw [List.length_drop]
        omega
      have hranking' : s.ranking chain pending = (before ++ init) ++ last :: rest.drop count := by
        rw [hranking, List.append_assoc, ← hsplit]
      have hstrict := h.ranking_strict hdeleted
      rw [hranking'] at hstrict
      have hnext := s.pageResults_of_agree hagree count _ _ last hstrict
      rw [← hranking'] at hnext
      obtain ⟨pages, hpages, hflat⟩ := ih (before ++ init ++ [last]) (rest.drop count)
        (some last.orderingValue) hshorter (by rw [hranking']; simp) hnext
      refine ⟨(init ++ [last]) :: pages, ?_, ?_⟩
      · rw [h.searchPages_next hdeleted hcount (fuel + 1) bound init last hresults, hpages]
        rfl
      · rw [List.flatten_cons, hflat, ← hpage, List.take_append_drop]

theorem Answered.pagesComplete_of_agree (hagree : s.reverse = s.query.ascending) :
    s.PagesComplete (chain ++ pending) count := by
  obtain ⟨pages, hpages, hflat⟩ := h.searchPages_rest hdeleted hcount hagree _ []
    (s.ranking chain pending) none le_rfl rfl (s.pageResults_none _ count)
  rw [boundedPage_none] at hpages
  refine ⟨_, pages, hpages, ?_⟩
  rw [hflat]
  exact h.ranking_complete hdeleted

/-- A ranking of one result at most is on its first page. -/
theorem Answered.pagesComplete_of_short (hshort : (s.ranking chain pending).length ≤ 1) :
    s.PagesComplete (chain ++ pending) count := by
  by_cases hagree : s.reverse = s.query.ascending
  · exact h.pagesComplete_of_agree hdeleted hcount hagree
  · have hcomplete := h.ranking_complete hdeleted
    have hstrict := h.ranking_strict hdeleted
    have hfirst := s.pageResults_none (s.ranking chain pending) count
    rw [List.take_of_length_le (by omega)] at hfirst
    rcases List.eq_nil_or_concat (s.ranking chain pending) with hnil | ⟨init, r, hranked⟩
    · have hpages := h.searchPages_empty hdeleted hcount 0 none (hfirst.trans hnil)
      rw [boundedPage_none] at hpages
      refine ⟨1, [], hpages, ?_⟩
      rw [hnil] at hcomplete
      exact hcomplete
    · have hinit : init = [] := by
        rw [hranked, List.concat_eq_append, List.length_append, List.length_singleton] at hshort
        exact List.length_eq_zero_iff.mp (by omega)
      rw [hinit] at hranked
      have hbound : s.pageResults (s.ranking chain pending) count (some r.orderingValue) = [] := by
        rw [hranked] at hstrict ⊢
        have h := s.pageResults_of_differ hagree count [] [] r hstrict
        rwa [List.take_nil] at h
      have hpages := h.searchPages_next hdeleted hcount 1 none [] r (hfirst.trans hranked)
      rw [h.searchPages_empty hdeleted hcount 0 _ hbound, boundedPage_none] at hpages
      refine ⟨2, [[r]], hpages, ?_⟩
      rw [hranked] at hcomplete
      exact hcomplete

/-- The first of the pages is empty and the last, or it is followed by those behind its bound. -/
theorem Answered.searchPages_cases (fuel : ℕ) (bound : Option (OrderingValue V))
    (pages : List (List (SearchResult V)))
    (hpages : s.searchPages fuel (s.boundedPage count bound) = .ok (some pages)) :
    (s.pageResults (s.ranking chain pending) count bound = [] ∧ pages = []) ∨
    ∃ fuel' init last rest,
      s.pageResults (s.ranking chain pending) count bound = init ++ [last] ∧
      pages = (init ++ [last]) :: rest ∧
      s.searchPages fuel' (s.boundedPage count (some last.orderingValue)) = .ok (some rest) := by
  cases fuel with
  | zero =>
    rw [searchPages] at hpages
    cases hpages
  | succ fuel =>
    rcases List.eq_nil_or_concat (s.pageResults (s.ranking chain pending) count bound) with
      hnil | ⟨init, last, hresults⟩
    · rw [h.searchPages_empty hdeleted hcount fuel bound hnil] at hpages
      cases hpages
      exact Or.inl ⟨hnil, rfl⟩
    · rw [List.concat_eq_append] at hresults
      rw [h.searchPages_next hdeleted hcount fuel bound init last hresults] at hpages
      cases hnext : s.searchPages fuel (s.boundedPage count (some last.orderingValue)) with
      | error e =>
        rw [hnext] at hpages
        cases hpages
      | ok behind =>
        rw [hnext] at hpages
        cases behind with
        | none => cases hpages
        | some rest =>
          cases hpages
          exact Or.inr ⟨fuel, init, last, rest, hresults, rfl, hnext⟩

/-- With the bound on the other side the second page goes back to the best result, or it is
empty while there is a second result. -/
theorem Answered.not_pagesComplete (hdiffer : s.reverse ≠ s.query.ascending)
    (hlong : 2 ≤ (s.ranking chain pending).length) :
    ¬ s.PagesComplete (chain ++ pending) count := by
  rintro ⟨fuel, pages, hpages, hcomplete⟩
  rw [← boundedPage_none s] at hpages
  have hfirst := s.pageResults_none (s.ranking chain pending) count
  rcases h.searchPages_cases hdeleted hcount fuel none pages hpages with
    ⟨hnil, -⟩ | ⟨fuel', init, last, rest, hresults, rfl, hrest⟩
  · -- the first page has a result
    rw [hnil] at hfirst
    have hzero := congrArg List.length hfirst
    rw [List.length_take, List.length_nil] at hzero
    omega
  · rw [hresults] at hfirst
    have hsplit : s.ranking chain pending =
        init ++ last :: (s.ranking chain pending).drop count := by
      conv_lhs => rw [← List.take_append_drop count (s.ranking chain pending), ← hfirst]
      rw [List.append_assoc, List.singleton_append]
    have hstrict := h.ranking_strict hdeleted
    rw [hsplit] at hstrict
    have hsecond := s.pageResults_of_differ hdiffer count _ _ last hstrict
    rw [← hsplit] at hsecond
    have hback := h.searchPages_cases hdeleted hcount fuel' _ rest hrest
    rw [hsecond] at hback
    cases init with
    | nil =>
      -- one result was asked for: the second page is empty
      rcases hback with ⟨-, rfl⟩ | ⟨_, init', last', _, hconcat, -⟩
      · have hall := h.ranking_complete hdeleted
        have hsub : (s.ranking chain pending).map SearchResult.entityId ⊆ [last.entityId] := by
          intro entityId hmem
          exact (hcomplete.found entityId).mpr ((hall.found entityId).mp hmem)
        have hle := (hall.once.subperm hsub).length_le
        rw [List.length_map, List.length_singleton] at hle
        omega
      · rw [List.take_nil] at hconcat
        exact absurd hconcat.symm (by simp)
    | cons best init =>
      -- the best result is on the second page again
      have hmem : best ∈ rest.flatten := by
        rcases hback with ⟨hnil, -⟩ | ⟨_, init', last', behind, hconcat, rfl, -⟩
        · rcases List.take_eq_nil_iff.mp hnil with hzero | hcons
          · omega
          · cases hcons
        · rw [List.flatten_cons, ← hconcat, List.mem_append]
          obtain ⟨n, rfl⟩ := Nat.exists_eq_add_of_le' hcount
          exact Or.inl List.mem_cons_self
      have honce := hcomplete.once
      rw [List.flatten_cons, List.map_append, List.nodup_append] at honce
      exact honce.2.2 best.entityId (List.mem_map_of_mem List.mem_cons_self) best.entityId
        (List.mem_map_of_mem hmem) rfl

end Pages

/-- The pages are complete exactly where the query names the direction that the indices read
it in, or where there are no two entities to tell apart. -/
theorem pagesComplete_iff (s : Searcher V ε) (chain pending : List (MatchedMutation V))
    (h : s.Answered chain pending) (hdeleted : s.query.includeDeleted = false) (count : ℕ)
    (hcount : 1 ≤ count) :
    s.PagesComplete (chain ++ pending) count ↔
      s.query.parsedOrdering.ascending = s.query.ascending ∨
        ∀ a b, s.Found (chain ++ pending) a → s.Found (chain ++ pending) b → a = b := by
  have hall := h.ranking_complete hdeleted
  constructor
  · intro hpages
    by_contra hnot
    rw [not_or] at hnot
    refine h.not_pagesComplete hdeleted hcount hnot.1 ?_ hpages
    by_contra hshort
    apply hnot.2
    intro a b ha hb
    -- two entities of a ranking of one result are the same
    have ha' := (hall.found a).mpr ha
    have hb' := (hall.found b).mpr hb
    have hlen : ((s.ranking chain pending).map SearchResult.entityId).length ≤ 1 := by
      rw [List.length_map]
      omega
    generalize (s.ranking chain pending).map SearchResult.entityId = ids at *
    rcases ids with _ | ⟨id, _ | ⟨id', ids⟩⟩
    · exact absurd ha' List.not_mem_nil
    · exact (List.mem_singleton.mp ha').trans (List.mem_singleton.mp hb').symm
    · exact absurd hlen (by simp)
  · rintro (hagree | hone)
    · exact h.pagesComplete_of_agree hdeleted hcount hagree
    · apply h.pagesComplete_of_short hdeleted hcount
      have honce := hall.once
      have hsame (a b : String)
          (ha : a ∈ (s.ranking chain pending).map SearchResult.entityId)
          (hb : b ∈ (s.ranking chain pending).map SearchResult.entityId) : a = b :=
        hone a b ((hall.found a).mp ha) ((hall.found b).mp hb)
      rw [← List.length_map SearchResult.entityId]
      generalize (s.ranking chain pending).map SearchResult.entityId = ids at *
      rcases ids with _ | ⟨a, _ | ⟨b, ids⟩⟩
      · exact Nat.zero_le _
      · exact le_rfl
      · have hab := hsame a b (by simp) (by simp)
        exact absurd honce (by simp [hab])

end Searcher

/-! ## Two entities that are asked for by their ids -/

/-- A put of a trait in a block, with the operation id that it matches by. -/
def sampleMatch (operationId : OperationId) (entityId : String) : MatchedMutation ℕ :=
  ⟨operationId, entityId, operationId.val⟩

def sampleEntity (operationId : OperationId) (entityId : String) : Option EntityAggregator :=
  EntityAggregator.new [⟨operationId, some 10, entityId, .traitPut ⟨"t", none, none, none, false⟩⟩]

/-- Two entities of the chain, the ids of which the query asks for. -/
def sampleSearcher (ordering : Option Ordering) : Searcher ℕ Unit where
  chainIndex _ := .ok [sampleMatch 1 "a", sampleMatch 2 "b"]
  pendingIndex _ := .ok []
  metaFetcher entityId :=
    if entityId = "a" then sampleEntity 1 "a"
    else if entityId = "b" then sampleEntity 2 "b"
    else none
  boostScore reverse score := if reverse then 2 * score else score / 2
  query := ⟨.sub .ids, none, ordering, false⟩

theorem sampleSearcher_answered (ordering : Option Ordering)
    (hascending : (sampleSearcher ordering).reverse = true) :
    (sampleSearcher ordering).Answered [sampleMatch 1 "a", sampleMatch 2 "b"] [] := by
  refine ⟨rfl, rfl, ?_, List.Pairwise.nil, by decide, ?_, ?_⟩
  · simp only [Searcher.rank_le_iff, hascending, cond_true]
    decide
  · intro v
    exact Nat.div_le_self v 2
  · intro v
    show v ≤ 2 * v
    omega

theorem sampleSearcher_ranking :
    2 ≤ ((sampleSearcher none).ranking [sampleMatch 1 "a", sampleMatch 2 "b"] []).length := by
  have hcombine : (sampleSearcher none).combine [sampleMatch 1 "a", sampleMatch 2 "b"] [] =
      [(sampleMatch 1 "a", .chain), (sampleMatch 2 "b", .chain)] := List.merge_right _
  rw [Searcher.ranking, hcombine]
  decide +kernel

/-- The indices read the ids from the first operation on, while the bound of the second page is
set for the other direction: the first entity is on both pages. -/
theorem unnamedDirection_not_pagesComplete :
    (sampleSearcher none).Answered [sampleMatch 1 "a", sampleMatch 2 "b"] [] ∧
      (sampleSearcher none).query.includeDeleted = false ∧
      ¬ (sampleSearcher none).PagesComplete ([sampleMatch 1 "a", sampleMatch 2 "b"] ++ []) 10 := by
  have hanswered := sampleSearcher_answered none rfl
  refine ⟨hanswered, rfl, ?_⟩
  exact hanswered.not_pagesComplete rfl (by decide) (by decide) sampleSearcher_ranking

/-- With the direction named, the pages are complete. -/
theorem namedDirection_pagesComplete :
    (sampleSearcher (some ⟨true, some .operationId, false⟩)).PagesComplete
      ([sampleMatch 1 "a", sampleMatch 2 "b"] ++ []) 10 := by
  have hanswered := sampleSearcher_answered (some ⟨true, some .operationId, false⟩) rfl
  exact (Searcher.pagesComplete_iff _ _ _ hanswered rfl 10 (by decide)).mpr (Or.inl rfl)

end Exocore.Store.Search
