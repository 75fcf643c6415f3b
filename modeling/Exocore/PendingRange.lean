import Mathlib.Data.List.Sort
import Exocore.PendingMemory

/-! Iteration over ranges of operation ids, and the content of a store: its frames by id. -/
namespace Exocore.Pending

open Exocore.Core Exocore.Chain SortedMap

/-- `std::ops::Bound` on operation ids. -/
inductive Bound where
  | included (id : ℕ)
  | excluded (id : ℕ)
  | unbounded
deriving DecidableEq

def Bound.lowerAllows : Bound → ℕ → Bool
  | .included b, id => b ≤ id
  | .excluded b, id => b < id
  | .unbounded, _ => true

def Bound.upperAllows : Bound → ℕ → Bool
  | .included b, id => id ≤ b
  | .excluded b, id => id < b
  | .unbounded, _ => true

def inRange (lo hi : Bound) (id : ℕ) : Bool := lo.lowerAllows id && hi.upperAllows id

/-- The ranges on which `BTreeMap::range` panics, once the map was ever filled. -/
def rangePanics : Bound → Bound → Bool
  | .included a, .included b => a > b
  | .included a, .excluded b => a > b
  | .excluded a, .included b => a > b
  | .excluded a, .excluded b => a ≥ b
  | _, _ => false

variable [Crates]

namespace MemoryPendingStore

def getGroupOperation (s : MemoryPendingStore) (groupId operationId : ℕ) : Option GroupOperation := do
  let ops ← s.groupsOperations.get groupId
  ops.get operationId

/-- `OperationsIterator`: it ends at the first id whose group does not have it. -/
def iterOperations (s : MemoryPendingStore) : List (ℕ × ℕ) → List StoredOperation
  | [] => []
  | (id, groupId) :: rest => match s.getGroupOperation groupId id with
    | none => []
    | some op =>
      ⟨groupId, id, op.operationType, op.commitStatus, op.frame⟩ :: s.iterOperations rest

/-- The bounds are only looked at under a root: a map that was never filled has nothing in any
range. -/
def operationsIter (s : MemoryPendingStore) (lo hi : Bound) :
    Res PendingError (List StoredOperation) :=
  if s.timelineFilled then
    if rangePanics lo hi then .error .panic
    else .ok (s.iterOperations (s.operationsTimeline.entries.filter fun e => inRange lo hi e.1))
  else .ok []

/-- All the operations, in the order of their ids. -/
def operations (s : MemoryPendingStore) : List StoredOperation :=
  s.iterOperations s.operationsTimeline.entries

theorem getOperation_eq_some (s : MemoryPendingStore) (id : ℕ) (op : StoredOperation) :
    s.getOperation id = some op ↔ s.operationsTimeline.get id = some op.groupId ∧
      ∃ g, s.getGroupOperation op.groupId id = some g ∧
        op = ⟨op.groupId, id, g.operationType, g.commitStatus, g.frame⟩ := by
  simp only [getOperation, getGroupOperation, Option.bind_eq_bind, Option.bind_eq_some_iff, pure,
    Option.some.injEq]
  constructor
  · rintro ⟨groupId, htime, ops, hops, g, hg, rfl⟩
    have hid := (s.filed groupId ops id g hops hg).id_eq
    exact ⟨htime, g, ⟨ops, hops, hg⟩, by simp only [storedOperation, hid]⟩
  · rintro ⟨htime, g, ⟨ops, hops, hg⟩, hop⟩
    have hid := (s.filed op.groupId ops id g hops hg).id_eq
    exact ⟨op.groupId, htime, ops, hops, g, hg, by rw [storedOperation, hid, ← hop]⟩

theorem getOperation_id (s : MemoryPendingStore) (id : ℕ) (op : StoredOperation)
    (h : s.getOperation id = some op) : op.operationId = id := by
  obtain ⟨-, g, -, hop⟩ := (s.getOperation_eq_some id op).mp h
  rw [hop]

/-- A stored operation is what its frame reads. -/
theorem getOperation_reads (s : MemoryPendingStore) (id : ℕ) (op : StoredOperation)
    (h : s.getOperation id = some op) : ∃ r, op.frame.frame.reader = some r ∧
      r.operationId = id ∧ r.groupId = op.groupId ∧
      r.operation.operationType = .ok op.operationType := by
  obtain ⟨-, g, hg, hop⟩ := (s.getOperation_eq_some id op).mp h
  simp only [getGroupOperation, Option.bind_eq_bind, Option.bind_eq_some_iff] at hg
  obtain ⟨ops, hops, hget⟩ := hg
  obtain ⟨r, hr, hid, hgroup, htype⟩ := (s.filed op.groupId ops id g hops hget).reads
  rw [hop]
  exact ⟨r, hr, hid, hgroup, htype⟩

/-- On entries of the timeline the iterator does not end early. -/
theorem iterOperations_eq (s : MemoryPendingStore) (l : List (ℕ × ℕ))
    (hl : ∀ e ∈ l, s.operationsTimeline.get e.1 = some e.2) :
    s.iterOperations l = l.filterMap fun e => s.getOperation e.1 := by
  induction l with
  | nil => rfl
  | cons e rest ih =>
    obtain ⟨id, groupId⟩ := e
    have htime := hl (id, groupId) List.mem_cons_self
    obtain ⟨ops, op, hops, hop⟩ := s.grouped id groupId htime
    have hgroup : s.getGroupOperation groupId id = some op := by
      simp only [getGroupOperation, hops, Option.bind_eq_bind, Option.bind_some, hop]
    have hget : s.getOperation id =
        some ⟨groupId, id, op.operationType, op.commitStatus, op.frame⟩ := by
      rw [getOperation_eq_some]
      exact ⟨htime, op, hgroup, rfl⟩
    have hrest := ih fun x hx => hl x (List.mem_cons_of_mem _ hx)
    rw [iterOperations, hgroup, List.filterMap_cons]
    simp only [hget, hrest]

theorem operations_eq (s : MemoryPendingStore) :
    s.operations = s.operationsTimeline.entries.filterMap fun e => s.getOperation e.1 :=
  s.iterOperations_eq _ fun _ he => (Map.mem_entries_iff _ _ _).mp he

theorem mem_operations_iff (s : MemoryPendingStore) (op : StoredOperation) :
    op ∈ s.operations ↔ s.getOperation op.operationId = some op := by
  rw [operations_eq, List.mem_filterMap]
  constructor
  · rintro ⟨e, -, he⟩
    rw [s.getOperation_id e.1 op he]
    exact he
  · intro h
    obtain ⟨htime, -⟩ := (s.getOperation_eq_some _ _).mp h
    exact ⟨(op.operationId, op.groupId), (Map.mem_entries_iff _ _ _).mpr htime, h⟩

theorem operations_sorted (s : MemoryPendingStore) :
    s.operations.Pairwise fun a b => a.operationId < b.operationId := by
  rw [operations_eq, List.pairwise_filterMap]
  refine s.operationsTimeline.sorted.imp ?_
  intro e e' hlt a ha b hb
  rw [s.getOperation_id _ _ ha, s.getOperation_id _ _ hb]
  exact hlt

theorem operations_eq_nil (s : MemoryPendingStore) (h : s.timelineFilled = false) :
    s.operations = [] := by
  have hentries : s.operationsTimeline.entries = [] := by
    apply List.eq_nil_iff_forall_not_mem.mpr
    intro e he
    have hfilled := s.rooted e.1 e.2 ((Map.mem_entries_iff _ _ _).mp he)
    rw [h] at hfilled
    contradiction
  rw [operations, hentries, iterOperations]

/-- A range of the store is the operations whose ids are in it. -/
theorem operationsIter_eq (s : MemoryPendingStore) (lo hi : Bound)
    (hr : s.timelineFilled = true → rangePanics lo hi = false) :
    s.operationsIter lo hi = .ok (s.operations.filter fun op => inRange lo hi op.operationId) := by
  by_cases hfilled : s.timelineFilled = true
  · rw [operationsIter, if_pos hfilled, hr hfilled, if_neg (by simp), Except.ok.injEq,
      s.iterOperations_eq _ fun _ he => (Map.mem_entries_iff _ _ _).mp (List.mem_filter.mp he).1,
      operations_eq, List.filter_filterMap, List.filterMap_filter]
    congr 1
    funext e
    cases hget : s.getOperation e.1 with
    | none => simp
    | some op =>
      have hid := s.getOperation_id _ _ hget
      by_cases hin : inRange lo hi e.1 = true
      · simp [Option.filter, hin, hid]
      · simp [Option.filter, hin, hid]
  · rw [operationsIter, if_neg hfilled, s.operations_eq_nil (Bool.eq_false_of_not_eq_true hfilled),
      List.filter_nil]

theorem operationsIter_unbounded (s : MemoryPendingStore) :
    s.operationsIter .unbounded .unbounded = .ok s.operations := by
  rw [s.operationsIter_eq _ _ fun _ => rfl]
  simp [inRange, Bound.lowerAllows, Bound.upperAllows]

/-- The frames of the store by operation id. -/
def content (s : MemoryPendingStore) : Map ℕ OperationFrame where
  entries := s.operations.map fun op => (op.operationId, op.frame)
  sorted := List.pairwise_map.mpr s.operations_sorted

theorem get_content (s : MemoryPendingStore) (id : ℕ) :
    s.content.get id = (s.getOperation id).map StoredOperation.frame := by
  apply Option.ext
  intro f
  rw [← Map.mem_entries_iff, Option.map_eq_some_iff]
  simp only [content, List.mem_map, Prod.mk.injEq]
  constructor
  · rintro ⟨op, hop, hid, hf⟩
    rw [mem_operations_iff, hid] at hop
    exact ⟨op, hop, hf⟩
  · rintro ⟨op, hop, hf⟩
    have hid := s.getOperation_id _ _ hop
    exact ⟨op, (s.mem_operations_iff op).mpr (by rw [hid]; exact hop), hid, hf⟩

/-- The two stores have the same frame for each operation that both have. -/
def Agree (s t : MemoryPendingStore) : Prop :=
  ∀ id f g, s.content.get id = some f → t.content.get id = some g → f = g

/-- The operation after a put: its frame, under its id, with no commit status. -/
theorem getOperation_insertOperation (s : MemoryPendingStore) (frame : OperationFrame)
    (reader : ChainOperation) (type : OperationType) (hreader : frame.frame.reader = some reader)
    (htype : reader.operation.operationType = .ok type) (id : ℕ) :
    (s.insertOperation frame reader type hreader htype).getOperation id =
      if id = reader.operationId then
        some ⟨reader.groupId, reader.operationId, type, .unknown, frame⟩
      else s.getOperation id := by
  by_cases hid : id = reader.operationId
  · rw [if_pos hid, getOperation_eq_some]
    simp [insertOperation, getGroupOperation, hid]
  · rw [if_neg hid]
    apply Option.ext
    intro op
    rw [getOperation_eq_some, getOperation_eq_some]
    have htime : (s.insertOperation frame reader type hreader htype).operationsTimeline.get id =
        s.operationsTimeline.get id := by
      simp [insertOperation, hid]
    rw [htime]
    apply and_congr_right
    intro hop
    have hgroup : (s.insertOperation frame reader type hreader htype).getGroupOperation op.groupId
        id = s.getGroupOperation op.groupId id := by
      simp only [getGroupOperation, insertOperation, Map.get_insert]
      split_ifs with hg
      · -- the group was there already, the timeline names it
        obtain ⟨ops, -, hops, -⟩ := s.grouped id op.groupId hop
        rw [← hg, group, hops]
        simp [hid]
      · rfl
    rw [hgroup]

theorem putOperation_eq (s : MemoryPendingStore) (operation : NewOperation)
    (reader : ChainOperation) (type : OperationType)
    (hreader : operation.frame.frame.reader = some reader)
    (htype : reader.operation.operationType = .ok type) :
    s.putOperation operation = .ok ((s.operationsTimeline.get reader.operationId).isSome,
      s.insertOperation operation.frame reader type hreader htype) := by
  unfold putOperation
  split
  · rename_i hnone
    rw [hreader] at hnone
    contradiction
  · rename_i r hr
    rw [hreader] at hr
    obtain rfl := Option.some.inj hr
    split
    · rename_i code hcode
      rw [htype] at hcode
      contradiction
    · rename_i t ht
      rw [htype] at ht
      obtain rfl := Except.ok.inj ht
      rfl

theorem putOperation_eq_ok (s : MemoryPendingStore) (operation : NewOperation)
    (res : Bool × MemoryPendingStore) (h : s.putOperation operation = .ok res) :
    ∃ reader type, operation.frame.frame.reader = some reader ∧
      reader.operation.operationType = .ok type := by
  unfold putOperation at h
  split at h
  · contradiction
  · rename_i reader hreader
    split at h
    · contradiction
    · rename_i type htype
      exact ⟨reader, type, hreader, htype⟩

end MemoryPendingStore

end Exocore.Pending
