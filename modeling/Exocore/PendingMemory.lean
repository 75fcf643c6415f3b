import Exocore.LibSortedMap
import Exocore.ChainOperation

/-! The pending store in memory: a timeline of operation ids, and the operations by group. -/
namespace Exocore.Pending

open Exocore.Core Exocore.Chain SortedMap

inductive CommitStatus where
  | unknown
  | committed (offset height : ℕ)
deriving DecidableEq

inductive PendingError where
  | operation (e : OperationError)
  | notFound
deriving DecidableEq

variable [Crates]

structure GroupOperation where
  operationId : ℕ
  operationType : OperationType
  commitStatus : CommitStatus
  frame : OperationFrame
deriving DecidableEq

structure StoredOperation where
  groupId : ℕ
  operationId : ℕ
  operationType : OperationType
  commitStatus : CommitStatus
  frame : OperationFrame
deriving DecidableEq

/-- The operation is filed under the ids and the type of its frame. -/
structure GroupOperation.FiledAt (op : GroupOperation) (groupId operationId : ℕ) : Prop where
  id_eq : op.operationId = operationId
  reads : ∃ r, op.frame.frame.reader = some r ∧ r.operationId = operationId ∧
    r.groupId = groupId ∧ r.operation.operationType = .ok op.operationType

/-- An id of the timeline is in the group the timeline gives, filed as its frame says.
`timelineFilled` says that the timeline was ever inserted into: its tree has a root then, and keeps
it when the last id is removed. -/
structure MemoryPendingStore where
  operationsTimeline : Map ℕ ℕ
  timelineFilled : Bool
  groupsOperations : Map ℕ (Map ℕ GroupOperation)
  rooted : ∀ id g, operationsTimeline.get id = some g → timelineFilled = true
  grouped : ∀ id g, operationsTimeline.get id = some g →
    ∃ ops op, groupsOperations.get g = some ops ∧ ops.get id = some op
  filed : ∀ g ops id op, groupsOperations.get g = some ops → ops.get id = some op →
    op.FiledAt g id

namespace MemoryPendingStore

def new : MemoryPendingStore where
  operationsTimeline := .empty
  timelineFilled := false
  groupsOperations := .empty
  rooted id g h := by simp at h
  grouped id g h := by simp at h
  filed g ops id op h := by simp at h

def group (s : MemoryPendingStore) (groupId : ℕ) : Map ℕ GroupOperation :=
  (s.groupsOperations.get groupId).getD .empty

/-- `put_operation` once the frame was read. -/
def insertOperation (s : MemoryPendingStore) (frame : OperationFrame) (reader : ChainOperation)
    (type : OperationType) (hreader : frame.frame.reader = some reader)
    (htype : reader.operation.operationType = .ok type) : MemoryPendingStore where
  operationsTimeline := s.operationsTimeline.insert reader.operationId reader.groupId
  timelineFilled := true
  groupsOperations := s.groupsOperations.insert reader.groupId
    ((s.group reader.groupId).insert reader.operationId
      ⟨reader.operationId, type, .unknown, frame⟩)
  rooted id g h := rfl
  grouped id g h := by
    rw [Map.get_insert] at h
    by_cases hid : id = reader.operationId
    · rw [if_pos hid] at h
      obtain rfl := Option.some.inj h
      exact ⟨_, ⟨reader.operationId, type, .unknown, frame⟩, by rw [Map.get_insert, if_pos rfl],
        by rw [Map.get_insert, if_pos hid]⟩
    · rw [if_neg hid] at h
      obtain ⟨ops, op, hops, hop⟩ := s.grouped id g h
      by_cases hg : g = reader.groupId
      · refine ⟨_, op, by rw [Map.get_insert, if_pos hg], ?_⟩
        rw [Map.get_insert, if_neg hid, group, ← hg, hops]
        exact hop
      · exact ⟨ops, op, by rw [Map.get_insert, if_neg hg, hops], hop⟩
  filed g ops id op hops hop := by
    rw [Map.get_insert] at hops
    by_cases hg : g = reader.groupId
    · rw [if_pos hg] at hops
      obtain rfl := Option.some.inj hops
      rw [Map.get_insert] at hop
      by_cases hid : id = reader.operationId
      · rw [if_pos hid] at hop
        obtain rfl := Option.some.inj hop
        exact ⟨hid.symm, reader, hreader, hid.symm, hg.symm, htype⟩
      · rw [if_neg hid] at hop
        rw [group] at hop
        cases hgroup : s.groupsOperations.get reader.groupId with
        | none =>
          rw [hgroup] at hop
          simp at hop
        | some ops' =>
          rw [hgroup] at hop
          exact hg ▸ s.filed reader.groupId ops' id op hgroup hop
    · rw [if_neg hg] at hops
      exact s.filed g ops id op hops hop

/-- Whether the operation existed, and the store after. -/
def putOperation (s : MemoryPendingStore) (operation : NewOperation) :
    Res PendingError (Bool × MemoryPendingStore) :=
  match hreader : operation.frame.frame.reader with
  | none => .error (.error (.operation .serialization))
  | some reader => match htype : reader.operation.operationType with
    | .error code => .error (.error (.operation (.serializationNotInSchema code)))
    | .ok type => .ok ((s.operationsTimeline.get reader.operationId).isSome,
        s.insertOperation operation.frame reader type hreader htype)

def storedOperation (groupId : ℕ) (op : GroupOperation) : StoredOperation :=
  ⟨groupId, op.operationId, op.operationType, op.commitStatus, op.frame⟩

def getOperation (s : MemoryPendingStore) (operationId : ℕ) : Option StoredOperation := do
  let groupId ← s.operationsTimeline.get operationId
  let ops ← s.groupsOperations.get groupId
  let op ← ops.get operationId
  pure (storedOperation groupId op)

def getGroupOperations (s : MemoryPendingStore) (groupId : ℕ) : Option (List StoredOperation) :=
  (s.groupsOperations.get groupId).map fun ops => ops.values.map (storedOperation groupId)

/-- The operation with another commit status, in its place. -/
def setCommitStatus (s : MemoryPendingStore) (groupId operationId : ℕ)
    (ops : Map ℕ GroupOperation) (op : GroupOperation) (status : CommitStatus)
    (hops : s.groupsOperations.get groupId = some ops) (hop : ops.get operationId = some op) :
    MemoryPendingStore where
  operationsTimeline := s.operationsTimeline
  timelineFilled := s.timelineFilled
  groupsOperations := s.groupsOperations.insert groupId
    (ops.insert operationId { op with commitStatus := status })
  rooted := s.rooted
  grouped id g h := by
    obtain ⟨ops', op', hops', hop'⟩ := s.grouped id g h
    by_cases hg : g = groupId
    · refine ⟨_, if id = operationId then { op with commitStatus := status } else op',
        by rw [Map.get_insert, if_pos hg], ?_⟩
      rw [Map.get_insert]
      rw [hg, hops] at hops'
      obtain rfl := Option.some.inj hops'
      split_ifs with hid
      · rfl
      · exact hop'
    · exact ⟨ops', op', by rw [Map.get_insert, if_neg hg, hops'], hop'⟩
  filed g ops' id op' hops' hop' := by
    rw [Map.get_insert] at hops'
    by_cases hg : g = groupId
    · rw [if_pos hg] at hops'
      obtain rfl := Option.some.inj hops'
      rw [Map.get_insert] at hop'
      by_cases hid : id = operationId
      · rw [if_pos hid] at hop'
        obtain rfl := Option.some.inj hop'
        have hfiled := s.filed groupId ops operationId op hops hop
        rw [hg, hid]
        exact ⟨hfiled.id_eq, hfiled.reads⟩
      · rw [if_neg hid] at hop'
        exact hg ▸ s.filed groupId ops id op' hops hop'
    · rw [if_neg hg] at hops'
      exact s.filed g ops' id op' hops' hop'

def updateOperationCommitStatus (s : MemoryPendingStore) (operationId : ℕ)
    (status : CommitStatus) : Res PendingError MemoryPendingStore :=
  match s.operationsTimeline.get operationId with
  | none => .error (.error .notFound)
  | some groupId => match hops : s.groupsOperations.get groupId with
    | none => .error (.error .notFound)
    | some ops => match hop : ops.get operationId with
      | none => .error (.error .notFound)
      | some op => .ok (s.setCommitStatus groupId operationId ops op status hops hop)

/-- The group goes, with the timeline of all its operations and of its id. -/
def deleteGroup (s : MemoryPendingStore) (groupId : ℕ) (ops : Map ℕ GroupOperation)
    (hops : s.groupsOperations.get groupId = some ops) : MemoryPendingStore where
  operationsTimeline := s.operationsTimeline.filterKeys fun id =>
    decide (id ∉ ops.keys ∧ id ≠ groupId)
  timelineFilled := s.timelineFilled
  groupsOperations := s.groupsOperations.erase groupId
  rooted id g h := by
    rw [Map.get_filterKeys] at h
    split_ifs at h with hkeep
    exact s.rooted id g h
  grouped id g h := by
    rw [Map.get_filterKeys] at h
    split_ifs at h with hkeep
    obtain ⟨hkeys, -⟩ := of_decide_eq_true hkeep
    obtain ⟨ops', op', hops', hop'⟩ := s.grouped id g h
    have hg : g ≠ groupId := by
      intro hg
      rw [hg, hops] at hops'
      obtain rfl := Option.some.inj hops'
      exact hkeys ((Map.mem_keys_iff ops id).mpr ⟨op', hop'⟩)
    exact ⟨ops', op', by rw [Map.get_erase, if_neg hg, hops'], hop'⟩
  filed g ops' id op' hops' hop' := by
    rw [Map.get_erase] at hops'
    split_ifs at hops' with hg
    exact s.filed g ops' id op' hops' hop'

/-- One operation goes, from its group and from the timeline. -/
def deleteFromGroup (s : MemoryPendingStore) (operationId : ℕ) : MemoryPendingStore where
  operationsTimeline := s.operationsTimeline.erase operationId
  timelineFilled := s.timelineFilled
  groupsOperations := match s.operationsTimeline.get operationId with
    | none => s.groupsOperations
    | some groupId => match s.groupsOperations.get groupId with
      | none => s.groupsOperations
      | some ops => s.groupsOperations.insert groupId (ops.erase operationId)
  rooted id g h := by
    rw [Map.get_erase] at h
    split_ifs at h with hid
    exact s.rooted id g h
  grouped id g h := by
    rw [Map.get_erase] at h
    split_ifs at h with hid
    obtain ⟨ops', op', hops', hop'⟩ := s.grouped id g h
    split
    · exact ⟨ops', op', hops', hop'⟩
    · rename_i groupId htime
      split
      · exact ⟨ops', op', hops', hop'⟩
      · rename_i ops hops
        by_cases hg : g = groupId
        · refine ⟨_, op', by rw [Map.get_insert, if_pos hg], ?_⟩
          rw [hg, hops] at hops'
          obtain rfl := Option.some.inj hops'
          rw [Map.get_erase, if_neg hid, hop']
        · exact ⟨ops', op', by rw [Map.get_insert, if_neg hg, hops'], hop'⟩
  filed g ops' id op' hops' hop' := by
    split at hops'
    · exact s.filed g ops' id op' hops' hop'
    · rename_i groupId htime
      split at hops'
      · exact s.filed g ops' id op' hops' hop'
      · rename_i ops hops
        rw [Map.get_insert] at hops'
        by_cases hg : g = groupId
        · rw [if_pos hg] at hops'
          obtain rfl := Option.some.inj hops'
          rw [Map.get_erase] at hop'
          split_ifs at hop' with hid
          exact s.filed g ops id op' (hg ▸ hops) hop'
        · rw [if_neg hg] at hops'
          exact s.filed g ops' id op' hops' hop'

/-- An id that names a group deletes the group, else the one operation. -/
def deleteOperation (s : MemoryPendingStore) (operationId : ℕ) : MemoryPendingStore :=
  match hops : s.groupsOperations.get operationId with
  | some ops => s.deleteGroup operationId ops hops
  | none => s.deleteFromGroup operationId

end MemoryPendingStore

end Exocore.Pending
