import Exocore.PendingRange

/-! The frames of a group, and what the operations of the store do to them. -/
namespace Exocore.Pending

open Exocore.Core Exocore.Chain SortedMap

variable [Crates]

namespace MemoryPendingStore

/-- Frame of an operation in a group. Its commit status is left out. -/
def groupFrame (s : MemoryPendingStore) (groupId operationId : ℕ) : Option OperationFrame :=
  (s.getGroupOperation groupId operationId).map GroupOperation.frame

theorem groupFrame_eq_some_iff (s : MemoryPendingStore) (groupId id : ℕ) (f : OperationFrame) :
    s.groupFrame groupId id = some f ↔
      ∃ ops op, s.groupsOperations.get groupId = some ops ∧ ops.get id = some op ∧ op.frame = f := by
  simp only [groupFrame, getGroupOperation, Option.bind_eq_bind, Option.map_eq_some_iff,
    Option.bind_eq_some_iff]
  constructor
  · rintro ⟨op, ⟨ops, hops, hop⟩, hf⟩
    exact ⟨ops, op, hops, hop, hf⟩
  · rintro ⟨ops, op, hops, hop, hf⟩
    exact ⟨op, ⟨ops, hops, hop⟩, hf⟩

/-- The operations of a group are its frames, each under the id it reads. -/
theorem mem_getGroupOperations (s : MemoryPendingStore) (groupId : ℕ) (ops : List StoredOperation)
    (h : s.getGroupOperations groupId = some ops) (op : StoredOperation) (hop : op ∈ ops) :
    s.groupFrame groupId op.operationId = some op.frame ∧ op.groupId = groupId ∧
      ∃ r, op.frame.frame.reader = some r ∧ r.operationId = op.operationId ∧
        r.groupId = groupId ∧ r.operation.operationType = .ok op.operationType := by
  simp only [getGroupOperations, Option.map_eq_some_iff] at h
  obtain ⟨group, hgroup, rfl⟩ := h
  obtain ⟨g, hg, rfl⟩ := List.mem_map.mp hop
  obtain ⟨e, he, rfl⟩ := List.mem_map.mp hg
  have hget := (Map.mem_entries_iff group e.1 e.2).mp he
  have hfiled := s.filed groupId group e.1 e.2 hgroup hget
  obtain ⟨r, hr, hid, hgroupId, htype⟩ := hfiled.reads
  have hop : (storedOperation groupId e.2).operationId = e.1 := hfiled.id_eq
  refine ⟨?_, rfl, r, hr, hid.trans hop.symm, hgroupId, htype⟩
  rw [hop, groupFrame_eq_some_iff]
  exact ⟨group, e.2, hgroup, hget, rfl⟩

theorem getGroupOperations_of_groupFrame (s : MemoryPendingStore) (groupId id : ℕ)
    (f : OperationFrame) (h : s.groupFrame groupId id = some f) :
    ∃ ops, s.getGroupOperations groupId = some ops ∧
      ∃ op ∈ ops, op.operationId = id ∧ op.frame = f := by
  obtain ⟨group, op, hgroup, hop, rfl⟩ := (s.groupFrame_eq_some_iff groupId id f).mp h
  have hfiled := s.filed groupId group id op hgroup hop
  refine ⟨group.values.map (storedOperation groupId), ?_, storedOperation groupId op, ?_,
    hfiled.id_eq, rfl⟩
  · simp only [getGroupOperations, hgroup, Option.map_some]
  · apply List.mem_map_of_mem
    exact List.mem_map.mpr ⟨(id, op), (Map.mem_entries_iff _ _ _).mpr hop, rfl⟩

/-- No two operations of a group have one id. -/
theorem getGroupOperations_nodup (s : MemoryPendingStore) (groupId : ℕ)
    (ops : List StoredOperation) (h : s.getGroupOperations groupId = some ops) :
    ops.Pairwise fun a b => a.operationId < b.operationId := by
  simp only [getGroupOperations, Option.map_eq_some_iff] at h
  obtain ⟨group, hgroup, rfl⟩ := h
  have hid : ∀ e ∈ group.entries, (storedOperation groupId e.2).operationId = e.1 := by
    intro e he
    exact (s.filed groupId group e.1 e.2 hgroup ((Map.mem_entries_iff _ _ _).mp he)).id_eq
  rw [List.pairwise_map, Map.values, List.pairwise_map]
  refine group.sorted.imp_of_mem ?_
  intro a b ha hb hlt
  rw [hid a ha, hid b hb]
  exact hlt

theorem getOperation_groupFrame (s : MemoryPendingStore) (id : ℕ) (op : StoredOperation)
    (h : s.getOperation id = some op) : s.groupFrame op.groupId id = some op.frame := by
  obtain ⟨-, g, hg, hop⟩ := (s.getOperation_eq_some id op).mp h
  rw [groupFrame, hg, hop]
  rfl

theorem groupFrame_insertOperation (s : MemoryPendingStore) (frame : OperationFrame)
    (reader : ChainOperation) (type : OperationType) (hreader : frame.frame.reader = some reader)
    (htype : reader.operation.operationType = .ok type) (g id : ℕ) :
    (s.insertOperation frame reader type hreader htype).groupFrame g id =
      if g = reader.groupId ∧ id = reader.operationId then some frame else s.groupFrame g id := by
  simp only [groupFrame, getGroupOperation, insertOperation, Map.get_insert]
  by_cases hg : g = reader.groupId
  · subst hg
    by_cases hid : id = reader.operationId
    · simp [hid]
    · simp only [if_true, hid, and_false, if_false, Option.bind_eq_bind, Option.bind_some,
        Map.get_insert, group]
      cases s.groupsOperations.get reader.groupId <;> simp
  · simp [hg]

/-- A put changes the frame at the ids of its own frame and no other. -/
theorem putOperation_groupFrame (s s' : MemoryPendingStore) (operation : NewOperation)
    (existed : Bool) (reader : ChainOperation)
    (hreader : operation.frame.frame.reader = some reader)
    (h : s.putOperation operation = .ok (existed, s')) (g id : ℕ) :
    s'.groupFrame g id =
      if g = reader.groupId ∧ id = reader.operationId then some operation.frame
      else s.groupFrame g id := by
  obtain ⟨r, type, hr, htype⟩ := s.putOperation_eq_ok operation _ h
  rw [hreader] at hr
  obtain rfl := Option.some.inj hr
  rw [s.putOperation_eq operation reader type hreader htype] at h
  obtain ⟨-, rfl⟩ := Prod.mk.inj (Except.ok.inj h)
  exact s.groupFrame_insertOperation operation.frame reader type hreader htype g id

theorem putOperation_getOperation (s s' : MemoryPendingStore) (operation : NewOperation)
    (existed : Bool) (reader : ChainOperation)
    (hreader : operation.frame.frame.reader = some reader)
    (h : s.putOperation operation = .ok (existed, s')) :
    ∃ type, reader.operation.operationType = .ok type ∧ ∀ id, s'.getOperation id =
      if id = reader.operationId then
        some ⟨reader.groupId, reader.operationId, type, .unknown, operation.frame⟩
      else s.getOperation id := by
  obtain ⟨r, type, hr, htype⟩ := s.putOperation_eq_ok operation _ h
  rw [hreader] at hr
  obtain rfl := Option.some.inj hr
  rw [s.putOperation_eq operation reader type hreader htype] at h
  obtain ⟨-, rfl⟩ := Prod.mk.inj (Except.ok.inj h)
  exact ⟨type, htype,
    s.getOperation_insertOperation operation.frame reader type hreader htype⟩

theorem groupFrame_setCommitStatus (s : MemoryPendingStore) (groupId operationId : ℕ)
    (ops : Map ℕ GroupOperation) (op : GroupOperation) (status : CommitStatus)
    (hops : s.groupsOperations.get groupId = some ops) (hop : ops.get operationId = some op)
    (g id : ℕ) :
    (s.setCommitStatus groupId operationId ops op status hops hop).groupFrame g id =
      s.groupFrame g id := by
  simp only [groupFrame, getGroupOperation, setCommitStatus, Map.get_insert]
  by_cases hg : g = groupId
  · subst hg
    by_cases hid : id = operationId
    · subst hid
      simp [hops, hop]
    · simp [hops, hid]
  · simp [hg]

theorem getOperation_setCommitStatus (s : MemoryPendingStore) (groupId operationId : ℕ)
    (ops : Map ℕ GroupOperation) (op : GroupOperation) (status : CommitStatus)
    (hops : s.groupsOperations.get groupId = some ops) (hop : ops.get operationId = some op)
    (id : ℕ) :
    ((s.setCommitStatus groupId operationId ops op status hops hop).getOperation id).map
        (fun o => (o.groupId, o.operationType, o.frame)) =
      (s.getOperation id).map fun o => (o.groupId, o.operationType, o.frame) := by
  simp only [getOperation, setCommitStatus, Map.get_insert]
  cases htime : s.operationsTimeline.get id with
  | none => simp
  | some g =>
    simp only [Option.bind_eq_bind, Option.bind_some]
    by_cases hg : g = groupId
    · subst hg
      by_cases hid : id = operationId
      · subst hid
        simp [hops, hop, storedOperation]
      · simp [hops, hid]
    · simp [hg]

/-- What an update of the commit status leaves as it was. -/
theorem updateOperationCommitStatus_eq_ok (s s' : MemoryPendingStore) (operationId : ℕ)
    (status : CommitStatus) (h : s.updateOperationCommitStatus operationId status = .ok s') :
    (∀ g id, s'.groupFrame g id = s.groupFrame g id) ∧
      s'.operationsTimeline = s.operationsTimeline ∧
      ∀ id, (s'.getOperation id).map (fun o => (o.groupId, o.operationType, o.frame)) =
        (s.getOperation id).map fun o => (o.groupId, o.operationType, o.frame) := by
  unfold updateOperationCommitStatus at h
  split at h
  · contradiction
  · split at h
    · contradiction
    · rename_i ops hops
      split at h
      · contradiction
      · rename_i op hop
        obtain rfl := Except.ok.inj h
        exact ⟨groupFrame_setCommitStatus s _ _ ops op status hops hop, rfl,
          getOperation_setCommitStatus s _ _ ops op status hops hop⟩

/-- An id that names a group takes the group with it, else its own frame. -/
theorem groupFrame_deleteOperation (s : MemoryPendingStore) (operationId g id : ℕ) :
    (s.deleteOperation operationId).groupFrame g id =
      if (s.groupsOperations.get operationId).isSome then
        if g = operationId then none else s.groupFrame g id
      else if s.operationsTimeline.get operationId = some g ∧ id = operationId then none
      else s.groupFrame g id := by
  unfold deleteOperation
  split
  · rename_i ops hops
    simp only [hops, Option.isSome_some, if_true, groupFrame, getGroupOperation, deleteGroup,
      Map.get_erase]
    split_ifs <;> simp
  · rename_i hnone
    simp only [hnone, Option.isSome_none, Bool.false_eq_true, if_false, groupFrame,
      getGroupOperation, deleteFromGroup]
    cases htime : s.operationsTimeline.get operationId with
    | none => simp
    | some groupId =>
      cases hops : s.groupsOperations.get groupId with
      | none =>
        obtain ⟨ops, op, hops', -⟩ := s.grouped operationId groupId htime
        rw [hops] at hops'
        contradiction
      | some ops =>
        simp only [hops, Map.get_insert]
        by_cases hg : g = groupId
        · subst hg
          by_cases hid : id = operationId
          · simp [hid]
          · simp [hid, hops]
        · simp [hg, Ne.symm hg]

/-- What a deletion leaves: the ids that are not the one given and not in the group it names. -/
theorem getOperation_deleteOperation (s : MemoryPendingStore) (operationId id : ℕ) :
    (s.deleteOperation operationId).getOperation id =
      if id = operationId ∨ (s.groupFrame operationId id).isSome then none
      else s.getOperation id := by
  unfold deleteOperation
  split
  · rename_i ops hops
    have hframe : (s.groupFrame operationId id).isSome ↔ id ∈ ops.keys := by
      rw [Map.mem_keys_iff, Option.isSome_iff_exists]
      simp only [groupFrame_eq_some_iff, hops, Option.some.injEq]
      constructor
      · rintro ⟨f, ops', op, rfl, hop, -⟩
        exact ⟨op, hop⟩
      · rintro ⟨op, hop⟩
        exact ⟨op.frame, ops, op, rfl, hop, rfl⟩
    simp only [getOperation, deleteGroup, Map.get_filterKeys, hframe]
    by_cases hid : id = operationId
    · simp [hid]
    · by_cases hkey : id ∈ ops.keys
      · simp [hkey]
      · simp only [hkey, hid, not_false_eq_true, ne_eq, and_self, decide_true, if_true, or_self,
          if_false]
        cases htime : s.operationsTimeline.get id with
        | none => rfl
        | some g =>
          obtain ⟨ops', op', hops', hop'⟩ := s.grouped id g htime
          have hg : g ≠ operationId := by
            intro hg
            rw [hg, hops] at hops'
            obtain rfl := Option.some.inj hops'
            exact hkey ((Map.mem_keys_iff ops id).mpr ⟨op', hop'⟩)
          simp [hg]
  · rename_i hnone
    have hframe : s.groupFrame operationId id = none := by
      simp [groupFrame, getGroupOperation, hnone]
    rw [hframe]
    simp only [Option.isSome_none, Bool.false_eq_true, or_false]
    by_cases hid : id = operationId
    · simp [getOperation, deleteFromGroup, hid]
    · rw [if_neg hid]
      simp only [getOperation, deleteFromGroup, Map.get_erase, if_neg hid]
      cases htime : s.operationsTimeline.get id with
      | none => rfl
      | some g =>
        simp only [Option.bind_eq_bind, Option.bind_some]
        split
        · rfl
        · rename_i groupId htime'
          split
          · rfl
          · rename_i ops hops
            rw [Map.get_insert]
            by_cases hg : g = groupId
            · subst hg
              simp [hops, hid]
            · rw [if_neg hg]

end MemoryPendingStore

end Exocore.Pending
