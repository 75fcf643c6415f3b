import Exocore.StoreAggregator
import Exocore.StoreTopResults

/-! The searcher of the entity index: the ordering that the indices parse out of a query, the
matches of the two indices, and the pages that are cut out of them. -/
namespace Exocore.Store.Search

inductive OrderingKind where
  | score
  | operationId
  | createdAt
  | updatedAt
  | field (name : String)
deriving DecidableEq

structure Ordering where
  ascending : Bool
  value : Option OrderingKind
  noReferenceBoost : Bool
deriving DecidableEq

def Ordering.default : Ordering := ⟨false, none, false⟩

/-- Where the query asks for no value, the value and the direction of its predicate. -/
def Ordering.orValue (ordering : Ordering) (kind : OrderingKind) (ascending : Bool) : Ordering :=
  if ordering.value = none then { ordering with value := some kind, ascending } else ordering

/-! ## The query string -/

inductive QSOccur where
  | must
  | mustNot
  | should
deriving DecidableEq

structure QSPart where
  occur : QSOccur
  text : List Char
  field : List Char
  phrase : Bool
  inParenthesis : Bool
deriving DecidableEq

namespace QSPart

def default : QSPart := ⟨.should, [], [], false, false⟩

def isEmpty (part : QSPart) : Bool := part.text.isEmpty

def isPlain (part : QSPart) : Bool :=
  part.occur = .should && !part.phrase && !part.inParenthesis && part.field.isEmpty

def combineFrom (part other : QSPart) : QSPart :=
  { part with text := if part.text.isEmpty then other.text else part.text ++ ' ' :: other.text }

end QSPart

structure QueryString where
  parts : List QSPart
  plainPart : QSPart
deriving DecidableEq

namespace QueryString

def push (qs : QueryString) (part : QSPart) : QueryString :=
  if part.isEmpty then qs
  else if part.isPlain then { qs with plainPart := qs.plainPart.combineFrom part }
  else { qs with parts := qs.parts ++ [part] }

/-- The characters with the property `White_Space`. -/
def isWhitespace (chr : Char) : Bool :=
  (9 ≤ chr.toNat && chr.toNat ≤ 13) || (0x2000 ≤ chr.toNat && chr.toNat ≤ 0x200a) ||
    [0x20, 0x85, 0xa0, 0x1680, 0x2028, 0x2029, 0x202f, 0x205f, 0x3000].contains chr.toNat

def step (qs : QueryString) (part : QSPart) (chr : Char) : QueryString × QSPart :=
  if part.phrase then
    if chr = '"' then (qs.push part, .default)
    else (qs, { part with text := part.text ++ [chr] })
  else if part.inParenthesis then
    if chr = ')' then (qs.push part, .default)
    else (qs, { part with text := part.text ++ [chr] })
  else if isWhitespace chr then (qs.push part, .default)
  else if chr = '+' then (qs, { part with occur := .must })
  else if chr = '-' then (qs, { part with occur := .mustNot })
  else if chr = ':' then (qs, { part with field := part.text, text := [] })
  else if chr = '"' then (qs, { part with phrase := true })
  else if chr = '(' then (qs, { part with inParenthesis := true })
  else (qs, { part with text := part.text ++ [chr] })

def scan : QueryString → QSPart → List Char → QueryString
  | qs, part, [] => qs.push part
  | qs, part, chr :: rest => scan (qs.step part chr).1 (qs.step part chr).2 rest

/-- Of the text in lower case. -/
def parse (query : List Char) : QueryString :=
  let qs := scan ⟨[], .default⟩ .default query
  if qs.plainPart.isEmpty then qs
  else { parts := qs.parts ++ [qs.plainPart], plainPart := .default }

end QueryString

/-! ## The ordering of a query -/

/-- What a trait predicate may ask of the trait. -/
inductive TraitQuery where
  | match_
  | field
  | reference
  | queryString (query : List Char)
deriving DecidableEq

inductive SubPredicate where
  | match_
  | trait (query : Option TraitQuery)
  | ids
  | reference
  | operations
  | all
  | boolean (queries : List SubPredicate)

/-- The texts, names and ids of a predicate decide what an index matches; only what decides the
ordering is kept of it. -/
inductive Predicate where
  | sub (predicate : SubPredicate)
  | queryString (query : List Char)

namespace Ordering

def parseMatchPred (ordering : Ordering) : Ordering :=
  ordering.orValue .score ordering.ascending

def parseIdsPred (ordering : Ordering) : Ordering := ordering.orValue .operationId true

def parseRefPred (ordering : Ordering) : Ordering := ordering.orValue .operationId true

def parseOperationPred (ordering : Ordering) : Ordering := ordering.orValue .operationId true

def parseAllPred (ordering : Ordering) : Ordering := ordering.orValue .operationId false

def parseSortPart (ordering : Ordering) (part : QSPart) : Ordering :=
  let ordering :=
    if "update".toList.isPrefixOf part.text then
      { ordering with value := some .updatedAt, ascending := false }
    else if part.text = "date".toList || "create".toList.isPrefixOf part.text then
      { ordering with value := some .createdAt, ascending := false }
    else if part.text = "score".toList then
      { ordering with value := some .score, ascending := false }
    else ordering
  if part.occur = .mustNot then { ordering with ascending := !ordering.ascending } else ordering

/-- Only the parts of the field `sort` change the ordering. -/
def parsePart (ordering : Ordering) (part : QSPart) : Ordering :=
  if part.field = "sort".toList then ordering.parseSortPart part else ordering

def queryStringPred (ordering : Ordering) (query : List Char) : Ordering :=
  let ordering := ordering.orValue .score ordering.ascending
  let parsed := QueryString.parse query
  if parsed.parts.isEmpty then ordering.parseAllPred else parsed.parts.foldl parsePart ordering

def parseTraitPred (ordering : Ordering) (query : Option TraitQuery) : Ordering :=
  let ordering := ordering.orValue .operationId ordering.ascending
  match query with
  | some .match_ => ordering.parseMatchPred
  | some .field => ordering
  | some .reference => ordering.parseRefPred
  | some (.queryString query) => ordering.queryStringPred query
  | none => ordering

mutual

def parseSub : SubPredicate → Ordering → Ordering
  | .match_, ordering => ordering.parseMatchPred
  | .trait query, ordering => ordering.parseTraitPred query
  | .ids, ordering => ordering.parseIdsPred
  | .reference, ordering => ordering.parseRefPred
  | .operations, ordering => ordering.parseOperationPred
  | .all, ordering => ordering.parseAllPred
  | .boolean queries, ordering => parseSubs queries ordering

def parseSubs : List SubPredicate → Ordering → Ordering
  | [], ordering => ordering
  | query :: rest, ordering => parseSubs rest (parseSub query ordering)

end

def parsePredicate (ordering : Ordering) : Predicate → Ordering
  | .sub predicate => parseSub predicate ordering
  | .queryString query => ordering.queryStringPred query

end Ordering

/-! ## The values that the matches are ordered by -/

/-- A value, and the operation that tells apart the equal ones. The values of one query are all
scores or all integers. -/
abbrev OrderingValue (V : Type) := V ×ₗ OperationId

/-- The wrapper of the values of a query, which all have the same direction. -/
structure OrderingValueWrapper (V : Type) (reverse : Bool) where
  value : OrderingValue V

theorem OrderingValueWrapper.value_injective {V : Type} (reverse : Bool) :
    Function.Injective (OrderingValueWrapper.value : OrderingValueWrapper V reverse → _) := by
  rintro ⟨a⟩ ⟨b⟩ h
  exact congrArg _ h

variable {V ε : Type} [LinearOrder V]

instance (reverse : Bool) : LinearOrder (OrderingValueWrapper V reverse) :=
  match reverse with
  | false => LinearOrder.lift' OrderingValueWrapper.value
      (OrderingValueWrapper.value_injective false)
  | true => LinearOrder.lift' (fun wrapper => OrderDual.toDual wrapper.value)
      (OrderDual.toDual.injective.comp (OrderingValueWrapper.value_injective true))

structure Paging (V : Type) where
  count : ℕ
  beforeOrderingValue : Option (OrderingValue V)
  afterOrderingValue : Option (OrderingValue V)

def isWithinPageBound (value : OrderingValue V) (page : Paging V) : Bool :=
  page.beforeOrderingValue.all (fun before => value < before) &&
    page.afterOrderingValue.all (fun after => after < value)

def defaultPaging : Paging V := ⟨10, none, none⟩

def fillDefaultPaging (paging : Paging V) : Paging V :=
  if paging.count = 0 then { paging with count := 10 } else paging

/-! ## The search -/

structure EntityQuery (V : Type) where
  predicate : Predicate
  paging : Option (Paging V)
  ordering : Option Ordering
  includeDeleted : Bool

namespace EntityQuery

/-- The ordering by which an index answers the query. -/
def parsedOrdering (query : EntityQuery V) : Ordering :=
  (query.ordering.getD .default).parsePredicate query.predicate

/-- The direction that the query names itself. -/
def ascending (query : EntityQuery V) : Bool := (query.ordering.map Ordering.ascending).getD false

def referenceBoost (query : EntityQuery V) : Bool :=
  query.ordering.all fun ordering => !ordering.noReferenceBoost

end EntityQuery

/-- A mutation that an index gives for a query, with the value it is sorted by. -/
structure MatchedMutation (V : Type) where
  operationId : OperationId
  entityId : String
  value : V
deriving DecidableEq

def MatchedMutation.sortValue (m : MatchedMutation V) : OrderingValue V :=
  toLex (m.value, m.operationId)

inductive EntityResultSource where
  | chain
  | pending
deriving DecidableEq

structure SearchResult (V : Type) where
  matchedMutation : MatchedMutation V
  orderingValue : OrderingValue V
  originalOrderingValue : OrderingValue V
  source : EntityResultSource
  mutations : EntityAggregator

def SearchResult.entityId (r : SearchResult V) : String := r.matchedMutation.entityId

structure EntityResults (V : Type) where
  entities : List (SearchResult V)
  nextPage : Option (Paging V)
  currentPage : Paging V
  estimatedCount : ℕ

/-- An index gives all its matches of a query. The multiplication of a score by the factor of
the entities without a reference is its division where the values are reversed. -/
structure Searcher (V ε : Type) where
  chainIndex : EntityQuery V → Except ε (List (MatchedMutation V))
  pendingIndex : EntityQuery V → Except ε (List (MatchedMutation V))
  metaFetcher : String → Option EntityAggregator
  boostScore : Bool → V → V
  query : EntityQuery V

namespace Searcher

/-- The direction of the wrappers of the query's values. -/
def reverse (s : Searcher V ε) : Bool := s.query.parsedOrdering.ascending

/-- The scores of a query are its only values that are not integers. -/
def isScore (s : Searcher V ε) : Bool := s.query.parsedOrdering.value = some .score

def orderingValue (s : Searcher V ε) (m : MatchedMutation V) (mutations : EntityAggregator) :
    OrderingValue V :=
  if s.query.referenceBoost && s.isScore && !mutations.hasReference then
    toLex (s.boostScore s.reverse m.value, m.operationId)
  else m.sortValue

/-- The matches of entities that were not matched before, for one page. -/
def matchEntities (s : Searcher V ε) (page : Paging V) :
    List String → List (MatchedMutation V × EntityResultSource) → List (SearchResult V)
  | _, [] => []
  | matched, (m, source) :: rest =>
    if m.entityId ∈ matched then s.matchEntities page matched rest
    else match s.metaFetcher m.entityId with
      | none => s.matchEntities page matched rest
      | some mutations =>
        if (mutations.deletionDate.isSome || m.operationId ∉ mutations.activeOperations) &&
            !s.query.includeDeleted then
          s.matchEntities page matched rest
        else if isWithinPageBound (s.orderingValue m mutations) page then
          ⟨m, s.orderingValue m mutations, m.sortValue, source, mutations⟩ ::
            s.matchEntities page (m.entityId :: matched) rest
        else s.matchEntities page (m.entityId :: matched) rest

/-- By the original value, then by the value that may have been lowered. -/
def scorer (s : Searcher V ε) (r : SearchResult V) :
    OrderingValueWrapper V s.reverse × OrderingValueWrapper V s.reverse :=
  (⟨r.originalOrderingValue⟩, ⟨r.orderingValue⟩)

/-- Of two matches the one of the chain comes first, unless the other is better. -/
def combine (s : Searcher V ε) (chain pending : List (MatchedMutation V)) :
    List (MatchedMutation V × EntityResultSource) :=
  (chain.map fun m => (m, .chain)).merge (pending.map fun m => (m, .pending)) fun a b =>
    decide ((⟨b.1.sortValue⟩ : OrderingValueWrapper V s.reverse) ≤ ⟨a.1.sortValue⟩)

/-- The indices are asked without the paging of the query. -/
def searchHits (s : Searcher V ε) :
    Except ε (ℕ × ℕ × List (MatchedMutation V × EntityResultSource)) := do
  let mutationsQuery := { s.query with paging := none }
  let chain ← s.chainIndex mutationsQuery
  let pending ← s.pendingIndex mutationsQuery
  return (chain.length, pending.length, s.combine chain pending)

/-- The bound is set on the side of the direction that the query names. -/
def nextPaging (s : Searcher V ε) (results : List (SearchResult V)) (page : Paging V) :
    Option (Paging V) :=
  results.getLast?.map fun last =>
    if s.query.ascending then { page with afterOrderingValue := some last.orderingValue }
    else { page with beforeOrderingValue := some last.orderingValue }

def search (s : Searcher V ε) : Except ε (EntityResults V) := do
  let page := fillDefaultPaging (s.query.paging.getD defaultPaging)
  let (chainHits, pendingHits, combined) ← s.searchHits
  let results := topNegativelyRescoredResults s.scorer page.count (s.matchEntities page [] combined)
  return ⟨results, s.nextPaging results page, page, chainHits + pendingHits⟩

/-- The same searcher at another page. -/
def atPage (s : Searcher V ε) (page : Paging V) : Searcher V ε :=
  { s with query := { s.query with paging := some page } }

/-- The pages from one on, each asked for with the paging that the page before returned, to the
one that is empty. None where the fuel runs out before. -/
def searchPages (s : Searcher V ε) : ℕ → Paging V → Except ε (Option (List (List (SearchResult V))))
  | 0, _ => return none
  | fuel + 1, page => do
    let results ← (s.atPage page).search
    match results.nextPage with
    | none => return some []
    | some nextPage =>
      let pages ← s.searchPages fuel nextPage
      return pages.map (results.entities :: ·)

end Searcher

end Exocore.Store.Search
