import Exocore.ChainDirectory
import Exocore.ChainTrackerRuns

/-! The calls on the tracked segments that the operations of the chain store make: the store
decides by its offsets, and has the same segments mapped for writing. -/
namespace Exocore.Chain.Tracking

open Exocore.Core

/-- Which segments of the chain store are mapped for writing. -/
def writable (segments : List DirectorySegment) : List Bool :=
  segments.map fun seg => decide (seg.segmentFile.mmap = .write)

/-- The same of the tracked segments. -/
def writtenTo (segments : List SegmentFile) : List Bool :=
  segments.map fun f => decide (f.mmap = .write)

/-- The call that writes a block: by the size of the last segment, and that of its file. -/
def writeCall (s : Chain.DirectoryChainStore) (block : DataBlock) : Call :=
  if s.needNewSegment block then .rollOver
  else .writeBlock (match s.segments.getLast? with
    | none => false
    | some seg => decide (seg.segmentFile.currentSize < seg.nextFileOffset + block.totalSize))

/-- The call that truncates: by the segment that the offset falls in, none where there is none. -/
def truncateCall [Crates] (s : Chain.DirectoryChainStore) (offset : ℕ) : Option Call := do
  let index ← s.getSegmentIndexForBlockOffset offset
  let segment ← s.segments[index]?
  pure (.truncateFromOffset index (decide (offset > segment.firstBlockOffset)))

section Lists
variable {A : Type}

theorem dropLast_append_eq_set (l : List A) (a : A) (h : l ≠ []) :
    l.dropLast ++ [a] = l.set (l.length - 1) a := by
  induction l using List.reverseRecOn with
  | nil => exact absurd rfl h
  | append_singleton l b _ =>
    rw [List.dropLast_concat, List.length_append, List.length_singleton, Nat.add_sub_cancel,
      List.set_append_right _ _ le_rfl, Nat.sub_self, List.set_cons_zero]

theorem take_append_eq_take_set (l : List A) (i : ℕ) (a : A) (h : i < l.length) :
    l.take i ++ [a] = (l.set i a).take (i + 1) := by
  rw [List.take_succ_eq_append_getElem (by rw [List.length_set]; exact h),
    List.take_set_of_le le_rfl, List.getElem_set_self]

end Lists

theorem writable_closeWriteLast (segments : List DirectorySegment) :
    writable (Chain.DirectoryChainStore.closeWriteLast segments) =
      (writable segments).set (segments.length - 1) false := by
  induction segments with
  | nil => rfl
  | cons seg rest ih =>
    cases rest with
    | nil => rfl
    | cons seg' rest =>
      rw [Chain.DirectoryChainStore.closeWriteLast]
      · rw [writable, List.map_cons, ← writable, ih]
        rfl
      · intro h
        contradiction

section Calls
variable (s : DirectoryChainStore)

theorem writtenTo_onSegment (index : ℕ) (call : SegmentTracker → SegmentFile → Outcome)
    (hcall : ∀ t f, MapsWrite t f (call t f)) (hok : (s.onSegment index call).1 = true) :
    writtenTo (s.onSegment index call).2.segments = (writtenTo s.segments).set index true := by
  rw [DirectoryChainStore.onSegment] at hok ⊢
  cases hget : s.segments[index]? with
  | none =>
    rw [hget] at hok
    contradiction
  | some f =>
    rw [hget] at hok
    have hopen := (hcall s.segmentTracker f).ok_iff.mp hok
    simp only [writtenTo, List.map_set, hopen, decide_true]

theorem writtenTo_getBlock (env : ℕ → Env) (index : ℕ) :
    writtenTo (s.getBlock env index).2.segments = writtenTo s.segments := by
  rw [DirectoryChainStore.getBlock, DirectoryChainStore.onSegment]
  cases hget : s.segments[index]? with
  | none => rfl
  | some f =>
    obtain ⟨pre, post, hsplit, rfl⟩ := DirectoryChainStore.exists_split s.segments index f hget
    have hsame := (maybeMmapRead_changes (env 0) s.nextMap s.segmentTracker f).2
    simp only [writtenTo, List.map_set, hsame]
    rw [hsplit, List.map_append, List.map_cons, List.set_append_right _ _ (by rw [List.length_map]),
      List.length_map, Nat.sub_self, List.set_cons_zero]

theorem writtenTo_writeBlock (env : ℕ → Env) (grow : Bool)
    (hok : (s.writeBlock env grow).1 = true) :
    writtenTo (s.writeBlock env grow).2.segments =
      (writtenTo s.segments).set (s.segments.length - 1) true := by
  have hwrite : ∀ t f, MapsWrite t f (SegmentFile.maybeMmapWrite (env 3) t f) :=
    maybeMmapWrite_mapsWrite (env 3)
  rw [DirectoryChainStore.writeBlock] at hok ⊢
  cases grow with
  | false =>
    simp only [Bool.false_eq_true, if_false, if_true] at hok ⊢
    exact writtenTo_onSegment s _ _ hwrite hok
  | true =>
    simp only [if_true] at hok ⊢
    split_ifs at hok ⊢ with hgrown
    · rw [writtenTo_onSegment _ _ _ hwrite hok,
        writtenTo_onSegment s _ _ (setLen_mapsWrite env) hgrown, List.set_set]
    · exact absurd hok hgrown

theorem writtenTo_rollOver (env : ℕ → Env) (hok : (s.rollOver env).1 = true) :
    writtenTo (s.rollOver env).2.segments =
      (writtenTo s.segments).set (s.segments.length - 1) false ++ [true] := by
  have hclosed : writtenTo (s.onSegment (s.segments.length - 1)
      fun t f => ⟨true, t, f.closeWrite⟩).2.segments =
      (writtenTo s.segments).set (s.segments.length - 1) false := by
    rw [DirectoryChainStore.onSegment]
    cases hget : s.segments[s.segments.length - 1]? with
    | none =>
      have hlen := List.getElem?_eq_none_iff.mp hget
      rw [List.set_eq_of_length_le]
      rw [writtenTo, List.length_map]
      exact hlen
    | some f =>
      have hfile : f.closeWrite.mmap ≠ .write := by
        rw [SegmentFile.closeWrite]
        split_ifs with hopen
        · intro h
          cases h
        · exact hopen
      simp only [writtenTo, List.map_set, hfile, decide_false]
  rw [DirectoryChainStore.rollOver] at hok ⊢
  simp only at hok ⊢
  split_ifs at hok ⊢ with hcreate hwrote hopen
  have hfile := (maybeMmapWrite_mapsWrite (env 2) _ _).ok_iff.mp hopen
  rw [writtenTo, List.map_append, ← writtenTo, hclosed]
  simp only [List.map_cons, List.map_nil, hfile, decide_true]

theorem writtenTo_truncateFromOffset (env : ℕ → Env) (index : ℕ) (cut : Bool)
    (hok : (s.truncateFromOffset env index cut).1 = true) :
    writtenTo (s.truncateFromOffset env index cut).2.segments =
      if cut then ((writtenTo s.segments).set index true).take (index + 1)
      else (writtenTo s.segments).take index := by
  rw [DirectoryChainStore.truncateFromOffset] at hok ⊢
  by_cases hindex : index < s.segments.length
  · rw [if_pos hindex] at hok ⊢
    by_cases hcut : (s.cutAt env index cut).1 = true
    · simp only [if_pos hcut]
      cases cut with
      | false =>
        rw [DirectoryChainStore.deleteFrom]
        simp only [Bool.false_eq_true, if_false, writtenTo, List.map_take]
        rfl
      | true =>
        have hset := writtenTo_onSegment s index _ (setLen_mapsWrite env) hcut
        rw [if_pos rfl, ← hset, DirectoryChainStore.deleteFrom]
        simp only [writtenTo, List.map_take, if_true]
        rfl
    · simp only [if_neg hcut] at hok
      exact absurd hok hcut
  · rw [if_neg hindex] at hok
    contradiction

end Calls

/-- A segment that was written to is mapped for writing. -/
theorem writeBlock_write (config : DirectoryChainStoreConfig) (seg seg' : DirectorySegment)
    (block : DataBlock) (h : seg.writeBlock config block = .ok seg') :
    seg'.segmentFile.mmap = .write := by
  rw [DirectorySegment.writeBlock] at h
  split_ifs at h with hoffset
  obtain ⟨file, hfile, hseg⟩ := (bind_eq_ok_iff _ _ _).mp h
  have hroom := Chain.SegmentFile.room_of_writeBlock _ file _ block hfile
  obtain ⟨file', hwritten, -, hopen⟩ := Chain.SegmentFile.writeBlock_eq_ok _ _ block hroom
  obtain rfl := Except.ok.inj (hfile.symm.trans hwritten)
  rw [← Except.ok.inj hseg]
  exact hopen

/-- The store and its tracked segments have the same segments mapped for writing. -/
def Agrees (s : Chain.DirectoryChainStore) (m : DirectoryChainStore) : Prop :=
  writtenTo m.segments = writable s.segments

theorem Agrees.length_eq {s : Chain.DirectoryChainStore} {m : DirectoryChainStore}
    (h : Agrees s m) : m.segments.length = s.segments.length := by
  have hlen := congrArg List.length h
  rwa [writtenTo, writable, List.length_map, List.length_map] at hlen

theorem agrees_create (config : DirectoryChainStoreConfig) (maxOpen : ℕ) :
    Agrees (.create config) (.create maxOpen) := rfl

/-- Writing a block makes the call that the store decides for, and both agree after it. -/
theorem agrees_writeBlock (s : Chain.DirectoryChainStore) (block : DataBlock)
    (m : DirectoryChainStore) (h : Agrees s m) (env : ℕ → Env) (segments : List DirectorySegment)
    (hwritten : s.writeSegment block = (.ok (), segments))
    (hok : (perform m ⟨writeCall s block, env⟩).1 = true) :
    Agrees { s with segments := segments } (step m ⟨writeCall s block, env⟩) := by
  have hlen := h.length_eq
  rw [Chain.DirectoryChainStore.writeSegment] at hwritten
  rw [Agrees, step]
  by_cases hnew : s.needNewSegment block = true
  · rw [if_pos hnew] at hwritten
    rw [writeCall, if_pos hnew] at hok ⊢
    have hroll : writtenTo (perform m ⟨.rollOver, env⟩).2.segments = _ :=
      writtenTo_rollOver m env hok
    rw [hroll, h, hlen, ← writable_closeWriteLast]
    dsimp only at hwritten
    split at hwritten
    · exact absurd (congrArg Prod.fst hwritten) (fun h => by cases h)
    · obtain ⟨-, rfl⟩ := Prod.mk.inj hwritten
      rw [writable, writable, List.map_append]
      rfl
  · rw [if_neg hnew] at hwritten
    rw [writeCall, if_neg hnew] at hok ⊢
    have hwrite : writtenTo (perform m ⟨.writeBlock _, env⟩).2.segments = _ :=
      writtenTo_writeBlock m env _ hok
    rw [hwrite, h, hlen]
    cases hseg : s.segments.getLast? with
    | none =>
      rw [hseg] at hwritten
      exact absurd (congrArg Prod.fst hwritten) (fun h => by cases h)
    | some seg =>
      rw [hseg] at hwritten
      have hne : s.segments ≠ [] := by
        intro hnil
        rw [hnil] at hseg
        contradiction
      dsimp only at hwritten
      split at hwritten
      · exact absurd (congrArg Prod.fst hwritten) (fun h => by cases h)
      · rename_i seg' hseg'
        obtain ⟨-, rfl⟩ := Prod.mk.inj hwritten
        have hopen := writeBlock_write s.config seg seg' block hseg'
        rw [dropLast_append_eq_set _ _ hne, writable, writable, List.map_set, hopen]
        rfl

/-- The same of a truncation. -/
theorem agrees_truncateFromOffset [Crates] (s : Chain.DirectoryChainStore) (offset : ℕ)
    (m : DirectoryChainStore) (h : Agrees s m) (env : ℕ → Env) (segments : List DirectorySegment)
    (htruncated : s.truncateSegments offset = .ok segments) :
    ∃ index cut, truncateCall s offset = some (.truncateFromOffset index cut) ∧
      ((m.truncateFromOffset env index cut).1 = true → Agrees { s with segments := segments }
        (step m ⟨.truncateFromOffset index cut, env⟩)) := by
  rw [Chain.DirectoryChainStore.truncateSegments] at htruncated
  simp only [bind_eq_ok_iff, orError_eq_ok_iff, orPanic_eq_ok_iff] at htruncated
  obtain ⟨index, hindex, segment, hsegment, hcut⟩ := htruncated
  refine ⟨index, decide (offset > segment.firstBlockOffset), ?_, ?_⟩
  · rw [truncateCall, hindex]
    simp only [Option.bind_eq_bind, Option.bind_some, hsegment]
    rfl
  intro hok
  have hmap : writtenTo (perform m ⟨.truncateFromOffset index _, env⟩).2.segments = _ :=
    writtenTo_truncateFromOffset m env index _ hok
  have hlt := (List.getElem?_eq_some_iff.mp hsegment).1
  rw [Agrees, step, hmap, h]
  by_cases hinside : offset > segment.firstBlockOffset
  · rw [if_pos hinside] at hcut
    obtain ⟨segment', hsegment', hmade⟩ := (bind_eq_ok_iff _ _ _).mp hcut
    obtain rfl := Except.ok.inj hmade
    rw [DirectorySegment.truncateFromBlockOffset, if_neg (by omega)] at hsegment'
    obtain rfl := Except.ok.inj hsegment'
    rw [if_pos (decide_eq_true hinside), take_append_eq_take_set _ _ _ hlt, writable, writable,
      List.map_take, List.map_set]
    rfl
  · rw [if_neg hinside] at hcut
    obtain rfl := Except.ok.inj hcut
    rw [if_neg (by simpa using hinside), writable, writable, List.map_take]

/-- Reading leaves the segments that are written to as they are. -/
theorem agrees_getBlock (s : Chain.DirectoryChainStore) (m : DirectoryChainStore)
    (h : Agrees s m) (env : ℕ → Env) (index : ℕ) :
    Agrees s (step m ⟨.getBlock index, env⟩) := by
  rw [Agrees, step]
  exact (writtenTo_getBlock m env index).trans h

end Exocore.Chain.Tracking
