import Exocore.StoreSearch

/-! The ranking of the entities that a search finds. The bounds of a page only filter it, and
the early exit of the extraction only cuts it. -/
namespace Exocore.Store.Search

open scoped List

variable {V ε : Type} [LinearOrder V]

namespace Searcher

/-- The values in the order of the wrapper, where the best is the greatest. -/
def rank (s : Searcher V ε) (value : OrderingValue V) : OrderingValueWrapper V s.reverse := ⟨value⟩

/-- A match of an entity that is not deleted, by an operation that no later one has replaced. -/
structure ActiveMatch (s : Searcher V ε) (m : MatchedMutation V) (mutations : EntityAggregator) :
    Prop where
  fetched : s.metaFetcher m.entityId = some mutations
  live : mutations.deletionDate = none
  active : m.operationId ∈ mutations.activeOperations

def Found (s : Searcher V ε) (hits : List (MatchedMutation V)) (entityId : String) : Prop :=
  ∃ m ∈ hits, m.entityId = entityId ∧ ∃ mutations, s.ActiveMatch m mutations

/-- What is assumed of the indices and of the scores: the indices answer the query, each by the
order of the wrapper and with operations of its own, and an entity without a reference is never
scored higher for it. -/
structure Answered (s : Searcher V ε) (chain pending : List (MatchedMutation V)) : Prop where
  chainHits : s.chainIndex { s.query with paging := none } = .ok chain
  pendingHits : s.pendingIndex { s.query with paging := none } = .ok pending
  chainSorted : chain.Pairwise fun a b => s.rank b.sortValue ≤ s.rank a.sortValue
  pendingSorted : pending.Pairwise fun a b => s.rank b.sortValue ≤ s.rank a.sortValue
  distinct : ((chain ++ pending).map MatchedMutation.operationId).Nodup
  lowers : ∀ v, s.boostScore false v ≤ v
  raises : ∀ v, v ≤ s.boostScore true v

/-- The result stands for the best of the active matches of its entity. -/
structure BestMatch (s : Searcher V ε) (hits : List (MatchedMutation V)) (r : SearchResult V) :
    Prop where
  hit : r.matchedMutation ∈ hits
  active : s.ActiveMatch r.matchedMutation r.mutations
  value : r.orderingValue = s.orderingValue r.matchedMutation r.mutations
  best : ∀ m ∈ hits, m.entityId = r.entityId → m.operationId ∈ r.mutations.activeOperations →
    s.rank m.sortValue ≤ s.rank r.matchedMutation.sortValue

/-- Every entity with an active match once, by the value of its best one. -/
structure Complete (s : Searcher V ε) (hits : List (MatchedMutation V))
    (results : List (SearchResult V)) : Prop where
  once : (results.map SearchResult.entityId).Nodup
  found : ∀ entityId, entityId ∈ results.map SearchResult.entityId ↔ s.Found hits entityId
  best : ∀ r ∈ results, s.BestMatch hits r
  sorted : results.Pairwise fun a b => s.rank b.orderingValue ≤ s.rank a.orderingValue

/-! ## The order of the wrapper -/

theorem rank_le_iff (s : Searcher V ε) (a b : OrderingValue V) :
    s.rank a ≤ s.rank b ↔ bif s.reverse then b ≤ a else a ≤ b := by
  unfold rank
  generalize s.reverse = reverse
  cases reverse <;> exact Iff.rfl

theorem rank_lt_iff (s : Searcher V ε) (a b : OrderingValue V) :
    s.rank a < s.rank b ↔ bif s.reverse then b < a else a < b := by
  rw [← not_le, rank_le_iff]
  cases s.reverse <;> exact not_le

omit [LinearOrder V] in
theorem rank_injective (s : Searcher V ε) : Function.Injective s.rank := by
  intro a b h
  exact congrArg OrderingValueWrapper.value h

omit [LinearOrder V] in
theorem orderingValue_snd (s : Searcher V ε) (m : MatchedMutation V) (mutations : EntityAggregator) :
    (ofLex (s.orderingValue m mutations)).2 = m.operationId := by
  unfold orderingValue
  split <;> rfl

/-- The penalty lowers, in the order of the wrapper. -/
theorem Answered.penalized_le {s : Searcher V ε} {chain pending : List (MatchedMutation V)}
    (h : s.Answered chain pending) (m : MatchedMutation V) (mutations : EntityAggregator) :
    s.rank (s.orderingValue m mutations) ≤ s.rank m.sortValue := by
  unfold orderingValue
  split
  case isFalse => exact le_rfl
  case isTrue =>
    rw [rank_le_iff]
    have lex (v w : V) (hle : v ≤ w) :
        (toLex (v, m.operationId) : OrderingValue V) ≤ toLex (w, m.operationId) := by
      rcases hle.lt_or_eq with hlt | heq
      · exact Prod.Lex.toLex_le_toLex.mpr (Or.inl hlt)
      · exact Prod.Lex.toLex_le_toLex.mpr (Or.inr ⟨heq, le_rfl⟩)
    cases s.reverse
    · exact lex _ _ (h.lowers m.value)
    · exact lex _ _ (h.raises m.value)

/-! ## The candidates -/

/-- The matches that a page without bounds is cut out of. -/
def candidates (s : Searcher V ε) (matched : List String)
    (hits : List (MatchedMutation V × EntityResultSource)) : List (SearchResult V) :=
  s.matchEntities ⟨1, none, none⟩ matched hits

/-- An entity is matched before its value is checked, so that the bounds only filter. -/
theorem matchEntities_eq_filter (s : Searcher V ε) (page : Paging V) (matched : List String)
    (hits : List (MatchedMutation V × EntityResultSource)) :
    s.matchEntities page matched hits =
      (s.candidates matched hits).filter fun r => isWithinPageBound r.orderingValue page := by
  unfold candidates
  induction hits generalizing matched with
  | nil => rfl
  | cons hit rest ih =>
    obtain ⟨m, source⟩ := hit
    simp only [matchEntities]
    split
    · exact ih matched
    · split
      · exact ih matched
      · split
        · exact ih matched
        · have hopen : isWithinPageBound (s.orderingValue m ‹_›) ⟨1, none, none⟩ = true := rfl
          rw [if_pos hopen, List.filter_cons, ih]

/-- What holds of every candidate. -/
structure Candidate (s : Searcher V ε) (matched : List String) (r : SearchResult V) : Prop where
  unmatched : r.entityId ∉ matched
  active : s.ActiveMatch r.matchedMutation r.mutations
  value : r.orderingValue = s.orderingValue r.matchedMutation r.mutations
  original : r.originalOrderingValue = r.matchedMutation.sortValue

/-- A hit is passed over, or it is the candidate of its entity. -/
theorem candidates_cons (s : Searcher V ε) (hdeleted : s.query.includeDeleted = false)
    (matched : List String) (m : MatchedMutation V) (source : EntityResultSource)
    (rest : List (MatchedMutation V × EntityResultSource)) :
    (s.candidates matched ((m, source) :: rest) = s.candidates matched rest ∧
      (m.entityId ∈ matched ∨ ∀ mutations, ¬ s.ActiveMatch m mutations)) ∨
    (m.entityId ∉ matched ∧ ∃ mutations, s.ActiveMatch m mutations ∧
      s.candidates matched ((m, source) :: rest) =
        ⟨m, s.orderingValue m mutations, m.sortValue, source, mutations⟩ ::
          s.candidates (m.entityId :: matched) rest) := by
  unfold candidates
  simp only [matchEntities]
  split
  case isTrue hmatched => exact Or.inl ⟨rfl, Or.inl hmatched⟩
  case isFalse hmatched =>
    split
    case h_1 hfetch =>
      refine Or.inl ⟨rfl, Or.inr fun mutations h => ?_⟩
      rw [h.fetched] at hfetch
      cases hfetch
    case h_2 mutations hfetch =>
      split
      case isTrue hinactive =>
        refine Or.inl ⟨rfl, Or.inr fun mutations' h => ?_⟩
        rw [h.fetched, Option.some_inj] at hfetch
        subst hfetch
        simp [h.live, h.active] at hinactive
      case isFalse hactive =>
        refine Or.inr ⟨hmatched, mutations, ?_, rfl⟩
        simp only [hdeleted, Bool.not_false, Bool.and_true, Bool.or_eq_true, not_or,
          Bool.not_eq_true, Option.isSome_eq_false_iff, Option.isNone_iff_eq_none,
          decide_eq_true_eq, not_not] at hactive
        exact ⟨hfetch, hactive.1, hactive.2⟩

section Candidates

variable {s : Searcher V ε} (hdeleted : s.query.includeDeleted = false)

include hdeleted

theorem candidate_of_mem (matched : List String)
    (hits : List (MatchedMutation V × EntityResultSource)) (r : SearchResult V)
    (hr : r ∈ s.candidates matched hits) : s.Candidate matched r := by
  induction hits generalizing matched with
  | nil => exact absurd hr List.not_mem_nil
  | cons hit rest ih =>
    obtain ⟨m, source⟩ := hit
    rcases s.candidates_cons hdeleted matched m source rest with ⟨heq, -⟩ | ⟨hnew, mutations, hact, heq⟩
    · exact ih matched (heq ▸ hr)
    · rw [heq] at hr
      rcases List.mem_cons.mp hr with rfl | hrest
      · exact ⟨hnew, hact, rfl, rfl⟩
      · have h := ih _ hrest
        exact ⟨fun hmem => h.unmatched (List.mem_cons_of_mem _ hmem), h.active, h.value, h.original⟩

theorem candidates_sublist (matched : List String)
    (hits : List (MatchedMutation V × EntityResultSource)) :
    (s.candidates matched hits).map SearchResult.matchedMutation <+ hits.map Prod.fst := by
  induction hits generalizing matched with
  | nil => exact List.Sublist.slnil
  | cons hit rest ih =>
    obtain ⟨m, source⟩ := hit
    rcases s.candidates_cons hdeleted matched m source rest with ⟨heq, -⟩ | ⟨-, mutations, -, heq⟩
    · rw [heq]
      exact (ih matched).cons m
    · rw [heq]
      exact (ih (m.entityId :: matched)).cons_cons m

theorem candidates_once (matched : List String)
    (hits : List (MatchedMutation V × EntityResultSource)) :
    ((s.candidates matched hits).map SearchResult.entityId).Nodup := by
  induction hits generalizing matched with
  | nil => exact List.nodup_nil
  | cons hit rest ih =>
    obtain ⟨m, source⟩ := hit
    rcases s.candidates_cons hdeleted matched m source rest with ⟨heq, -⟩ | ⟨-, mutations, -, heq⟩
    · rw [heq]
      exact ih matched
    · rw [heq, List.map_cons, List.nodup_cons]
      refine ⟨fun hmem => ?_, ih _⟩
      obtain ⟨r, hr, hid⟩ := List.mem_map.mp hmem
      apply (candidate_of_mem hdeleted _ _ r hr).unmatched
      rw [hid]
      exact List.mem_cons_self

/-- No entity with an active match is passed over. -/
theorem candidates_found (matched : List String)
    (hits : List (MatchedMutation V × EntityResultSource)) (entityId : String)
    (hnew : entityId ∉ matched) (hfound : s.Found (hits.map Prod.fst) entityId) :
    entityId ∈ (s.candidates matched hits).map SearchResult.entityId := by
  induction hits generalizing matched with
  | nil =>
    obtain ⟨m, hm, -⟩ := hfound
    exact absurd hm List.not_mem_nil
  | cons hit rest ih =>
    obtain ⟨m, source⟩ := hit
    obtain ⟨m', hm', hid, hact'⟩ := hfound
    have hrest (hne : m' ≠ m) : s.Found (rest.map Prod.fst) entityId :=
      ⟨m', (List.mem_cons.mp hm').resolve_left hne, hid, hact'⟩
    rcases s.candidates_cons hdeleted matched m source rest with ⟨heq, hskip⟩ | ⟨-, mutations, -, heq⟩
    · rw [heq]
      refine ih matched hnew (hrest ?_)
      rintro rfl
      rcases hskip with hmatched | hinactive
      · exact hnew (hid ▸ hmatched)
      · exact hinactive _ hact'.choose_spec
    · rw [heq, List.map_cons, List.mem_cons]
      by_cases hsame : entityId = m.entityId
      · exact Or.inl hsame
      · refine Or.inr (ih _ (List.not_mem_cons_of_ne_of_not_mem hsame hnew) (hrest ?_))
        rintro rfl
        exact hsame hid.symm

/-- The candidate of an entity is the first of its active matches. -/
theorem candidates_best (matched : List String)
    (hits : List (MatchedMutation V × EntityResultSource)) (r : SearchResult V)
    (hsorted : (hits.map Prod.fst).Pairwise fun a b => s.rank b.sortValue ≤ s.rank a.sortValue)
    (hr : r ∈ s.candidates matched hits) (m' : MatchedMutation V) (hm' : m' ∈ hits.map Prod.fst)
    (hid : m'.entityId = r.entityId) (hactive : m'.operationId ∈ r.mutations.activeOperations) :
    s.rank m'.sortValue ≤ s.rank r.matchedMutation.sortValue := by
  induction hits generalizing matched with
  | nil => exact absurd hr List.not_mem_nil
  | cons hit rest ih =>
    obtain ⟨m, source⟩ := hit
    rw [List.map_cons, List.pairwise_cons] at hsorted
    have hmem := List.mem_cons.mp hm'
    have hcand := candidate_of_mem hdeleted matched _ r hr
    have hact' : s.ActiveMatch m' r.mutations := by
      refine ⟨?_, hcand.active.live, hactive⟩
      rw [hid]
      exact hcand.active.fetched
    rcases s.candidates_cons hdeleted matched m source rest with ⟨heq, hskip⟩ | ⟨-, mutations, -, heq⟩
    · refine ih matched hsorted.2 (heq ▸ hr) (hmem.resolve_left ?_)
      rintro rfl
      rcases hskip with hmatched | hinactive
      · exact hcand.unmatched (hid ▸ hmatched)
      · exact hinactive _ hact'
    · rw [heq] at hr
      rcases List.mem_cons.mp hr with rfl | hrest
      · rcases hmem with rfl | hbehind
        · exact le_rfl
        · exact hsorted.1 m' hbehind
      · refine ih _ hsorted.2 hrest (hmem.resolve_left ?_)
        rintro rfl
        apply (candidate_of_mem hdeleted _ _ r hrest).unmatched
        rw [← hid]
        exact List.mem_cons_self

end Candidates

/-! ## The ranking that the pages are cut out of -/

/-- The results from the best on. -/
def Ranks (s : Searcher V ε) (a b : SearchResult V) : Prop :=
  s.rank b.orderingValue ≤ s.rank a.orderingValue

instance (s : Searcher V ε) : DecidableRel s.Ranks := fun a b =>
  inferInstanceAs (Decidable (s.rank b.orderingValue ≤ s.rank a.orderingValue))

instance (s : Searcher V ε) : Std.Total s.Ranks := ⟨fun _ _ => le_total _ _⟩

instance (s : Searcher V ε) : IsTrans (SearchResult V) s.Ranks :=
  ⟨fun _ _ _ hab hbc => le_trans hbc hab⟩

/-- The candidates of the combined matches, from the best on. -/
def ranking (s : Searcher V ε) (chain pending : List (MatchedMutation V)) :
    List (SearchResult V) :=
  (s.candidates [] (s.combine chain pending)).insertionSort s.Ranks

theorem combine_perm (s : Searcher V ε) (chain pending : List (MatchedMutation V)) :
    (s.combine chain pending).map Prod.fst ~ chain ++ pending := by
  have h : s.combine chain pending ~ (chain.map fun m => (m, EntityResultSource.chain)) ++
    pending.map fun m => (m, EntityResultSource.pending) := List.merge_perm_append _
  simpa [Function.comp_def] using h.map Prod.fst

theorem ranking_perm (s : Searcher V ε) (chain pending : List (MatchedMutation V)) :
    s.ranking chain pending ~ s.candidates [] (s.combine chain pending) :=
  List.perm_insertionSort _ _

section Ranking

variable {s : Searcher V ε} {chain pending : List (MatchedMutation V)}
  (h : s.Answered chain pending)

include h

theorem Answered.combine_sorted : ((s.combine chain pending).map Prod.fst).Pairwise
    fun a b => s.rank b.sortValue ≤ s.rank a.sortValue := by
  rw [List.pairwise_map]
  let le (a b : MatchedMutation V × EntityResultSource) : Bool :=
    decide (s.rank b.1.sortValue ≤ s.rank a.1.sortValue)
  have trans (a b c : MatchedMutation V × EntityResultSource) (hab : le a b) (hbc : le b c) :
      le a c := by
    rw [decide_eq_true_eq] at *
    exact le_trans hbc hab
  have total (a b : MatchedMutation V × EntityResultSource) : le a b || le b a := by
    rw [Bool.or_eq_true, decide_eq_true_eq, decide_eq_true_eq]
    exact le_total _ _
  have hmerge := List.pairwise_merge trans total
    (chain.map fun m => (m, .chain)) (pending.map fun m => (m, .pending))
    (by simpa [le, List.pairwise_map] using h.chainSorted)
    (by simpa [le, List.pairwise_map] using h.pendingSorted)
  simp only [le, decide_eq_true_eq] at hmerge
  exact hmerge

theorem Answered.searchHits_eq :
    s.searchHits = .ok (chain.length, pending.length, s.combine chain pending) := by
  unfold searchHits
  dsimp only
  rw [h.chainHits, h.pendingHits]
  rfl

variable (hdeleted : s.query.includeDeleted = false)

include hdeleted

/-- The original values of the candidates do not rise. -/
theorem Answered.candidates_sorted :
    (s.candidates [] (s.combine chain pending)).Pairwise fun a b =>
      (s.scorer b).1 ≤ (s.scorer a).1 := by
  have hsub := h.combine_sorted.sublist (candidates_sublist hdeleted [] (s.combine chain pending))
  rw [List.pairwise_map] at hsub
  refine hsub.imp_of_mem ?_
  intro a b ha hb hle
  have ha' := (candidate_of_mem hdeleted _ _ a ha).original
  have hb' := (candidate_of_mem hdeleted _ _ b hb).original
  show s.rank b.originalOrderingValue ≤ s.rank a.originalOrderingValue
  rw [ha', hb']
  exact hle

theorem Answered.candidates_penalized (r : SearchResult V)
    (hr : r ∈ s.candidates [] (s.combine chain pending)) : (s.scorer r).2 ≤ (s.scorer r).1 := by
  have hcand := candidate_of_mem hdeleted _ _ r hr
  show s.rank r.orderingValue ≤ s.rank r.originalOrderingValue
  rw [hcand.value, hcand.original]
  exact h.penalized_le _ _

/-- The operation of a candidate is in its value, and no two candidates have the same. -/
theorem Answered.candidates_distinct (a b : SearchResult V)
    (ha : a ∈ s.candidates [] (s.combine chain pending))
    (hb : b ∈ s.candidates [] (s.combine chain pending))
    (heq : a.orderingValue = b.orderingValue) : a = b := by
  have hnodup : ((s.candidates [] (s.combine chain pending)).map
      fun r => r.matchedMutation.operationId).Nodup := by
    have hperm := (s.combine_perm chain pending).map MatchedMutation.operationId
    have hsub := (candidates_sublist hdeleted [] (s.combine chain pending)).map
      MatchedMutation.operationId
    rw [List.map_map] at hsub
    exact (hperm.nodup_iff.mpr h.distinct).sublist hsub
  apply List.inj_on_of_nodup_map hnodup ha hb
  have ha' := (candidate_of_mem hdeleted _ _ a ha).value
  have hb' := (candidate_of_mem hdeleted _ _ b hb).value
  calc a.matchedMutation.operationId
      = (ofLex a.orderingValue).2 := by rw [ha', orderingValue_snd]
    _ = (ofLex b.orderingValue).2 := by rw [heq]
    _ = b.matchedMutation.operationId := by rw [hb', orderingValue_snd]

theorem Answered.ranking_strict : (s.ranking chain pending).Pairwise fun a b =>
    s.rank b.orderingValue < s.rank a.orderingValue := by
  have hperm := s.ranking_perm chain pending
  have hle : (s.ranking chain pending).Pairwise s.Ranks := List.pairwise_insertionSort _ _
  have hnodup : (s.ranking chain pending).Nodup :=
    hperm.nodup_iff.mpr (candidates_once hdeleted [] _).of_map
  refine (hle.and hnodup).imp_of_mem ?_
  intro a b ha hb hab
  refine lt_of_le_of_ne hab.1 fun heq => hab.2 ?_
  exact h.candidates_distinct hdeleted a b (hperm.mem_iff.mp ha) (hperm.mem_iff.mp hb)
    (s.rank_injective heq.symm)

/-- The results of a page are the first of the ranking within its bounds. -/
theorem Answered.topResults_eq (page : Paging V) :
    topNegativelyRescoredResults s.scorer page.count
        (s.matchEntities page [] (s.combine chain pending)) =
      ((s.ranking chain pending).filter fun r =>
        isWithinPageBound r.orderingValue page).take page.count := by
  rw [matchEntities_eq_filter]
  have hsub := List.filter_sublist (l := s.candidates [] (s.combine chain pending))
    (p := fun r => isWithinPageBound r.orderingValue page)
  obtain ⟨sorted, hperm, hdesc, heq⟩ :=
    @topNegativelyRescoredResults_take _ _ _ s.scorer page.count _
      ((h.candidates_sorted hdeleted).sublist hsub)
      (fun r hr => h.candidates_penalized hdeleted r (hsub.subset hr))
  have hfilter := (s.ranking_perm chain pending).filter
    fun r => isWithinPageBound r.orderingValue page
  have hranked : ((s.ranking chain pending).filter fun r =>
      isWithinPageBound r.orderingValue page).Pairwise s.Ranks :=
    (List.pairwise_insertionSort _ _).sublist List.filter_sublist
  rw [heq]
  congr 1
  refine List.Perm.eq_of_pairwise ?_ hdesc hranked (hperm.trans hfilter.symm)
  intro a b ha hb hab hba
  exact h.candidates_distinct hdeleted a b (hsub.subset (hperm.mem_iff.mp ha))
    (hsub.subset (hfilter.mem_iff.mp hb)) (s.rank_injective (le_antisymm hba hab))

/-- The ranking itself is what the pages should add up to. -/
theorem Answered.ranking_complete :
    s.Complete (chain ++ pending) (s.ranking chain pending) := by
  have hperm := s.ranking_perm chain pending
  have hhits := s.combine_perm chain pending
  refine ⟨?_, ?_, ?_, List.pairwise_insertionSort _ _⟩
  · exact (hperm.map _).nodup_iff.mpr (candidates_once hdeleted [] _)
  · intro entityId
    rw [(hperm.map SearchResult.entityId).mem_iff]
    constructor
    · intro hmem
      obtain ⟨r, hr, rfl⟩ := List.mem_map.mp hmem
      have hsub := (candidates_sublist hdeleted [] (s.combine chain pending)).subset
        (List.mem_map_of_mem hr)
      exact ⟨r.matchedMutation, hhits.mem_iff.mp hsub, rfl, r.mutations,
        (candidate_of_mem hdeleted _ _ r hr).active⟩
    · rintro ⟨m, hm, hid, hact⟩
      exact candidates_found hdeleted [] _ entityId List.not_mem_nil
        ⟨m, hhits.mem_iff.mpr hm, hid, hact⟩
  · intro r hr
    have hr' := hperm.mem_iff.mp hr
    have hcand := candidate_of_mem hdeleted _ _ r hr'
    have hsub := (candidates_sublist hdeleted [] (s.combine chain pending)).subset
      (List.mem_map_of_mem hr')
    refine ⟨hhits.mem_iff.mp hsub, hcand.active, hcand.value, ?_⟩
    intro m hm
    exact candidates_best hdeleted [] _ r h.combine_sorted hr' m (hhits.mem_iff.mpr hm)

end Ranking

end Searcher

end Exocore.Store.Search
