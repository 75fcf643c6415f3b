import Exocore.LibRun
import Exocore.ChainMessages
import Exocore.PendingGroups
import Exocore.PendingSyncNewOperation

/-! Runs of the calls of the pending store, and when its two maps describe one set. -/
namespace Exocore.Pending

open Exocore.Core Exocore.Chain SortedMap

section Runs
variable [Crates]

inductive StoreCall where
  | putOperation (operation : NewOperation)
  | deleteOperation (operationId : ℕ)
  | updateOperationCommitStatus (operationId : ℕ) (status : CommitStatus)

namespace MemoryPendingStore

def operationsCount (s : MemoryPendingStore) : ℕ := s.operationsTimeline.size

/-- A call that fails leaves the store as it was. -/
def call (s : MemoryPendingStore) : StoreCall → MemoryPendingStore
  | .putOperation operation => match s.putOperation operation with
    | .ok (_, s') => s'
    | .error _ => s
  | .deleteOperation operationId => s.deleteOperation operationId
  | .updateOperationCommitStatus operationId status =>
    match s.updateOperationCommitStatus operationId status with
    | .ok s' => s'
    | .error _ => s

/-- An id is in the timeline with a group if and only if the group holds it. -/
def TimelineMatches (s : MemoryPendingStore) : Prop :=
  ∀ id g, s.operationsTimeline.get id = some g ↔ (s.groupFrame g id).isSome

/-- All the readers describe one set of operations. -/
structure OneSet (s : MemoryPendingStore) : Prop where
  timeline : s.TimelineMatches
  iter_get : ∃ ops, s.operationsIter .unbounded .unbounded = .ok ops ∧
    (∀ op, op ∈ ops ↔ s.getOperation op.operationId = some op) ∧
    (∀ op, op ∈ ops ↔ ∃ group, s.getGroupOperations op.groupId = some group ∧ op ∈ group) ∧
    ops.length = s.operationsCount

/-- What a call needs so that no operation stays behind in another group. -/
def CallFits (s : MemoryPendingStore) : StoreCall → Prop
  | .putOperation operation => ∀ r type, operation.frame.frame.reader = some r →
    r.operation.operationType = .ok type →
    ∀ g, s.operationsTimeline.get r.operationId = some g → g = r.groupId
  | .deleteOperation operationId => (s.groupsOperations.get operationId).isSome →
    ∀ g, s.operationsTimeline.get operationId = some g → g = operationId
  | .updateOperationCommitStatus _ _ => True

/-- The group that the timeline gives has the operation, in every store. -/
theorem timeline_groupFrame (s : MemoryPendingStore) (id g : ℕ)
    (h : s.operationsTimeline.get id = some g) : (s.groupFrame g id).isSome := by
  obtain ⟨ops, op, hops, hop⟩ := s.grouped id g h
  rw [Option.isSome_iff_exists]
  exact ⟨op.frame, (s.groupFrame_eq_some_iff g id op.frame).mpr ⟨ops, op, hops, hop, rfl⟩⟩

/-- The operation of a group that the timeline does not contradict is the one found by id. -/
theorem mem_group_iff (s : MemoryPendingStore) (h : s.TimelineMatches) (op : StoredOperation) :
    s.getOperation op.operationId = some op ↔
      ∃ group, s.getGroupOperations op.groupId = some group ∧ op ∈ group := by
  constructor
  · intro hget
    obtain ⟨-, g, hg, hop⟩ := (s.getOperation_eq_some _ _).mp hget
    simp only [getGroupOperation, Option.bind_eq_bind, Option.bind_eq_some_iff] at hg
    obtain ⟨ops, hops, hget'⟩ := hg
    have hid := (s.filed op.groupId ops op.operationId g hops hget').id_eq
    refine ⟨ops.values.map (storedOperation op.groupId), ?_, ?_⟩
    · simp only [getGroupOperations, hops, Option.map_some]
    · apply List.mem_map.mpr
      refine ⟨g, ?_, ?_⟩
      · exact List.mem_map.mpr ⟨(op.operationId, g), (Map.mem_entries_iff _ _ _).mpr hget', rfl⟩
      · rw [storedOperation, hid, ← hop]
  · rintro ⟨group, hgroup, hop⟩
    obtain ⟨hframe, -⟩ := s.mem_getGroupOperations op.groupId group hgroup op hop
    have htime := (h op.operationId op.groupId).mpr (by rw [hframe]; rfl)
    simp only [getGroupOperations, Option.map_eq_some_iff] at hgroup
    obtain ⟨ops, hops, rfl⟩ := hgroup
    obtain ⟨g, hg, hstored⟩ := List.mem_map.mp hop
    obtain ⟨e, he, rfl⟩ := List.mem_map.mp hg
    have hget := (Map.mem_entries_iff ops e.1 e.2).mp he
    have hid := (s.filed op.groupId ops e.1 e.2 hops hget).id_eq
    have hkey : op.operationId = e.1 := by
      rw [← hstored, storedOperation]
      exact hid
    rw [getOperation_eq_some]
    refine ⟨htime, e.2, ?_, ?_⟩
    · simp only [getGroupOperation, hops, Option.bind_eq_bind, Option.bind_some, hkey, hget]
    · rw [hkey, ← hid]
      exact hstored.symm

theorem operations_length (s : MemoryPendingStore) : s.operations.length = s.operationsCount := by
  have hmap : s.operations.map StoredOperation.operationId = s.operationsTimeline.keys := by
    rw [operations_eq, List.map_filterMap, Map.keys, ← List.filterMap_eq_map]
    apply List.filterMap_congr
    rintro ⟨id, g⟩ he
    have htime := (Map.mem_entries_iff _ _ _).mp he
    obtain ⟨ops, op, hops, hop⟩ := s.grouped id g htime
    have hid := (s.filed g ops id op hops hop).id_eq
    simp [getOperation, htime, hops, hop, storedOperation, hid]
  have hlen := congrArg List.length hmap
  rw [List.length_map, Map.keys, List.length_map] at hlen
  exact hlen

theorem oneSet_iff (s : MemoryPendingStore) : s.OneSet ↔ s.TimelineMatches := by
  constructor
  · intro h
    exact h.timeline
  · intro h
    refine ⟨h, s.operations, s.operationsIter_unbounded, s.mem_operations_iff, ?_,
      s.operations_length⟩
    intro op
    rw [s.mem_operations_iff, s.mem_group_iff h]

theorem timeline_deleteOperation (s : MemoryPendingStore) (operationId id : ℕ) :
    (s.deleteOperation operationId).operationsTimeline.get id =
      if id = operationId ∨ (s.groupFrame operationId id).isSome then none
      else s.operationsTimeline.get id := by
  have hget := s.getOperation_deleteOperation operationId id
  have hlookup (t : MemoryPendingStore) : t.operationsTimeline.get id =
      (t.getOperation id).map StoredOperation.groupId := by
    cases htime : t.operationsTimeline.get id with
    | none => simp [getOperation, htime]
    | some g =>
      obtain ⟨ops, op, hops, hop⟩ := t.grouped id g htime
      simp [getOperation, htime, hops, hop, storedOperation]
  rw [hlookup (s.deleteOperation operationId), hlookup s, hget]
  split_ifs <;> rfl

/-- A put keeps the two maps in step if and only if the id was in no other group. -/
theorem put_matches_iff (s : MemoryPendingStore) (h : s.TimelineMatches)
    (operation : NewOperation) :
    (s.call (.putOperation operation)).TimelineMatches ↔ s.CallFits (.putOperation operation) := by
  rw [call, CallFits]
  cases hput : s.putOperation operation with
  | error e =>
    refine iff_of_true h ?_
    intro r type hr htype
    rw [s.putOperation_eq operation r type hr htype] at hput
    contradiction
  | ok res =>
    obtain ⟨existed, s'⟩ := res
    obtain ⟨r, type, hr, htype⟩ := s.putOperation_eq_ok operation _ hput
    have hframe := s.putOperation_groupFrame s' operation existed r hr hput
    have htime : s'.operationsTimeline = s.operationsTimeline.insert r.operationId r.groupId := by
      rw [s.putOperation_eq operation r type hr htype] at hput
      obtain ⟨-, rfl⟩ := Prod.mk.inj (Except.ok.inj hput)
      rfl
    constructor
    · intro hafter r' type' hr' htype' g hg
      rw [hr] at hr'
      obtain rfl := Option.some.inj hr'
      by_contra hne
      -- the old group still has the id, the timeline has the new one
      have hold := (hafter r.operationId g).mpr (by
        rw [hframe, if_neg (by simp [hne])]
        exact s.timeline_groupFrame _ _ hg)
      rw [htime, Map.get_insert, if_pos rfl] at hold
      exact hne (Option.some.inj hold).symm
    · intro hfits id g
      rw [htime, Map.get_insert, hframe]
      by_cases hid : id = r.operationId
      · subst hid
        rw [if_pos rfl]
        by_cases hg : g = r.groupId
        · simp [hg]
        · rw [if_neg (by simp [hg]), ← h]
          constructor
          · intro heq
            exact absurd (Option.some.inj heq).symm hg
          · intro heq
            exact absurd (hfits r type hr htype g heq) hg
      · rw [if_neg hid, if_neg (by simp [hid])]
        exact h id g

/-- A deletion keeps them in step unless it takes a group and leaves the operation of that id
in another. -/
theorem delete_matches_iff (s : MemoryPendingStore) (h : s.TimelineMatches) (t : ℕ) :
    (s.call (.deleteOperation t)).TimelineMatches ↔ s.CallFits (.deleteOperation t) := by
  rw [call, CallFits]
  have htime := s.timeline_deleteOperation t
  have hframe := s.groupFrame_deleteOperation t
  cases hgroup : s.groupsOperations.get t with
  | none =>
    refine iff_of_true ?_ (by simp)
    have hnone : ∀ id, s.groupFrame t id = none := by
      intro id
      simp [groupFrame, getGroupOperation, hgroup]
    intro id g
    rw [htime, hframe, hnone, hgroup]
    simp only [Option.isSome_none, Bool.false_eq_true, or_false, if_false]
    by_cases hid : id = t
    · subst hid
      rw [if_pos rfl]
      by_cases hg : s.operationsTimeline.get id = some g
      · simp [hg]
      · rw [if_neg (by simp [hg]), ← h]
        simp [hg]
    · rw [if_neg hid, if_neg (by simp [hid])]
      exact h id g
  | some ops =>
    simp only [hgroup, Option.isSome_some, if_true, forall_const] at hframe ⊢
    constructor
    · intro hafter g hg
      by_contra hne
      have hold := (hafter t g).mpr (by
        rw [hframe, if_neg hne]
        exact s.timeline_groupFrame _ _ hg)
      rw [htime, if_pos (Or.inl rfl)] at hold
      contradiction
    · intro hfits id g
      rw [htime, hframe]
      by_cases hg : g = t
      · subst hg
        rw [if_pos rfl]
        simp only [Option.isSome_none, Bool.false_eq_true, iff_false]
        intro heq
        split_ifs at heq with hgone
        exact hgone (Or.inr (s.timeline_groupFrame _ _ heq))
      · rw [if_neg hg, ← h id g]
        by_cases hgone : id = t ∨ (s.groupFrame t id).isSome
        · rw [if_pos hgone]
          constructor
          · intro heq
            contradiction
          · intro heq
            exfalso
            rcases hgone with rfl | hin
            · exact hg (hfits g heq)
            · rw [(h id t).mpr hin] at heq
              exact hg (Option.some.inj heq).symm
        · rw [if_neg hgone]

theorem update_matches (s : MemoryPendingStore) (h : s.TimelineMatches) (id : ℕ)
    (status : CommitStatus) : (s.call (.updateOperationCommitStatus id status)).TimelineMatches := by
  rw [call]
  cases hupdate : s.updateOperationCommitStatus id status with
  | error e => exact h
  | ok s' =>
    obtain ⟨hframe, htime, -⟩ := s.updateOperationCommitStatus_eq_ok s' id status hupdate
    intro id g
    rw [htime, hframe]
    exact h id g

theorem call_oneSet_iff (s : MemoryPendingStore) (c : StoreCall) (h : s.OneSet) :
    (s.call c).OneSet ↔ s.CallFits c := by
  rw [oneSet_iff] at h ⊢
  cases c with
  | putOperation operation => exact s.put_matches_iff h operation
  | deleteOperation t => exact s.delete_matches_iff h t
  | updateOperationCommitStatus id status => exact iff_of_true (s.update_matches h id status) trivial

theorem new_oneSet : new.OneSet := by
  rw [oneSet_iff]
  intro id g
  simp [new, groupFrame, getGroupOperation]

/-- The readers agree all along a run if and only if each put files its id under the group it
was in, and no deletion of a group is at the id of an operation of another group. -/
theorem run_oneSet_iff (calls : List StoreCall) :
    (∀ before after, calls = before ++ after → (Run.exec call new before).OneSet) ↔
      Run.Allowed call CallFits new calls :=
  (Run.allowed_iff_invariant call CallFits OneSet call_oneSet_iff new calls new_oneSet).symm

end MemoryPendingStore

end Runs

open Exocore.Engine MemoryPendingStore

/-- Entry 5, in group 7. -/
def movedMessage : Bytes := fiveMessage.take 16 ++ le64 7 ++ fiveMessage.drop 24

def movedMultihash : Bytes := ofNats
    [22, 32, 13, 153, 113, 6, 182, 3, 132, 57, 19, 132, 21, 98, 200, 72, 189, 98, 208, 89, 234,
    175, 148, 12, 91, 150, 199, 220, 220, 137, 194, 65, 120, 167]

def movedOperation : ChainOperation := ⟨7, 5, some firstNode, .entry (some [1])⟩

def movedTables : Tables where
  operations := [(fiveMessage, entryOperation 5 [1]), (movedMessage, movedOperation)]
  headers := []
  signatures := []
  digests := []
  nodeIds := [firstNode]

section Samples

local instance : Crates := movedTables.crates

def fiveOperation : NewOperation :=
  ⟨5, ⟨⟨sizedBytes (fiveMessage ++ fiveMultihash), fiveMultihash, some (entryOperation 5 [1])⟩,
    by decide +kernel⟩⟩

def fiveMovedOperation : NewOperation :=
  ⟨5, ⟨⟨sizedBytes (movedMessage ++ movedMultihash), movedMultihash, some movedOperation⟩,
    by decide +kernel⟩⟩

/-- The entry is put in its own group and then in another: the first group keeps it. -/
theorem movedOperation_not_oneSet :
    ¬ (Run.exec call new [.putOperation fiveOperation, .putOperation fiveMovedOperation]).OneSet := by
  intro h
  have hgroup := (h.timeline 5 5).mpr (by decide +kernel)
  have htime : (Run.exec call new [.putOperation fiveOperation,
      .putOperation fiveMovedOperation]).operationsTimeline.get 5 = some 7 := by
    decide +kernel
  rw [htime] at hgroup
  exact absurd (Option.some.inj hgroup) (by decide)

end Samples

end Exocore.Pending
