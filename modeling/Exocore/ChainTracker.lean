import Mathlib.Data.List.Sort
import Exocore.LibSort
import Exocore.LibSortedMap

/-! The tracker of the segments that are mapped, which bounds how many are open at once. -/
namespace Exocore.Chain.Tracking

open SortedMap Sorting

def usizeMax : ℕ := 2 ^ 64 - 1

/-- An entry for reading owns the map; maps are told apart by a number. -/
inductive OpenState where
  | read (map : ℕ)
  | write
deriving DecidableEq

structure TrackedSegment where
  accessCountLast : ℕ
  state : OpenState
deriving DecidableEq

/-- The table of open segments, and the access counters that it shares with the segments. The
most segments that were tracked after an open are not part of the source. -/
structure SegmentTracker where
  nextId : ℕ
  maxOpen : ℕ
  opened : Map ℕ TrackedSegment
  accessCounts : ℕ → ℕ
  mostTracked : ℕ

/-- What a call depends on besides the state: the order of the hash table, the maps that readers
hold, and whether the calls to the system succeed. -/
structure Env where
  order : ValuesOrder (ℕ × TrackedSegment)
  held : List ℕ
  succeeds : Bool

structure SegmentStats where
  index : ℕ
  accessCount : ℕ
  write : Bool

/-- Counters roll over. -/
def deltaAccessCount (live last : ℕ) : ℕ :=
  if live ≥ last then live - last else (usizeMax - last) + live

def OpenState.isWrite : OpenState → Bool
  | .read _ => false
  | .write => true

/-- The loop over the sorted segments, `closed` of which were closed before. -/
def closeLoop (lastSegment toClose : ℕ) :
    List SegmentStats → ℕ → Map ℕ TrackedSegment → Map ℕ TrackedSegment
  | [], _, opened => opened
  | segment :: rest, closed, opened =>
    if segment.index = lastSegment ∨ segment.write then
      closeLoop lastSegment toClose rest closed opened
    else if closed + 1 ≥ toClose then opened.erase segment.index
    else closeLoop lastSegment toClose rest (closed + 1) (opened.erase segment.index)

namespace SegmentTracker

def new (maxOpen : ℕ) : SegmentTracker := ⟨0, maxOpen, Map.empty, fun _ => 0, 0⟩

/-- `register`: the segment is its number. -/
def register (t : SegmentTracker) : ℕ × SegmentTracker :=
  (t.nextId, { t with nextId := t.nextId + 1 })

def access (t : SegmentTracker) (segment : ℕ) : SegmentTracker :=
  { t with accessCounts :=
      Function.update t.accessCounts segment ((t.accessCounts segment + 1) % 2 ^ 64) }

def saveAccessCount (t : SegmentTracker) : SegmentTracker :=
  { t with
    opened := t.opened.mapValues fun id s => { s with accessCountLast := t.accessCounts id } }

def stats (t : SegmentTracker) (env : Env) : List SegmentStats :=
  (env.order.order t.opened.entries).map fun (id, s) =>
    ⟨id, deltaAccessCount (t.accessCounts id) s.accessCountLast, s.state.isWrite⟩

/-- Taking the counts of the segments saves them as well. -/
def closeLeastUsed (t : SegmentTracker) (env : Env) (lastSegment : ℕ) : SegmentTracker :=
  let segmentStats := (t.stats env).insertionSort fun a b => a.accessCount ≤ b.accessCount
  let saved := t.saveAccessCount
  let toClose := segmentStats.length - t.maxOpen
  { saved with opened := closeLoop lastSegment toClose segmentStats 0 saved.opened }

def openState (t : SegmentTracker) (env : Env) (segment : ℕ) (state : OpenState) :
    SegmentTracker :=
  let added := { t with opened := t.opened.insert segment ⟨0, state⟩ }
  let t :=
    if added.opened.size > added.maxOpen then added.closeLeastUsed env segment
    else added.saveAccessCount
  { t with mostTracked := max t.mostTracked t.opened.size }

def openWrite (t : SegmentTracker) (env : Env) (segment : ℕ) : SegmentTracker :=
  t.openState env segment .write

def openRead (t : SegmentTracker) (env : Env) (segment map : ℕ) : SegmentTracker :=
  t.openState env segment (.read map)

def close (t : SegmentTracker) (segment : ℕ) : SegmentTracker :=
  { t with opened := t.opened.erase segment }

/-- How the tracker has a segment, none where it does not track it. -/
def stateOf (t : SegmentTracker) (segment : ℕ) : Option OpenState :=
  (t.opened.get segment).map (·.state)

/-- The tracker owns the map. -/
def owns (t : SegmentTracker) (map : ℕ) : Bool :=
  t.opened.values.any fun s => s.state = .read map

end SegmentTracker

section CloseLoop
variable (lastSegment toClose : ℕ)

/-- The loop only removes, and neither the last segment nor one that is written to. -/
theorem closeLoop_get (list : List SegmentStats) (closed : ℕ) (opened : Map ℕ TrackedSegment)
    (id : ℕ) : (closeLoop lastSegment toClose list closed opened).get id = opened.get id ∨
      (closeLoop lastSegment toClose list closed opened).get id = none ∧ id ≠ lastSegment ∧
        ∃ segment ∈ list, segment.index = id ∧ segment.write = false := by
  induction list generalizing closed opened with
  | nil => exact Or.inl rfl
  | cons segment rest ih =>
    have hwiden (h : ∃ s ∈ rest, s.index = id ∧ s.write = false) :
        ∃ s ∈ segment :: rest, s.index = id ∧ s.write = false := by
      obtain ⟨s, hs, hsid⟩ := h
      exact ⟨s, List.mem_cons_of_mem _ hs, hsid⟩
    rw [closeLoop]
    by_cases hkeep : segment.index = lastSegment ∨ segment.write = true
    · rw [if_pos hkeep]
      rcases ih closed opened with hsame | ⟨hnone, hlast, hs⟩
      · exact Or.inl hsame
      · exact Or.inr ⟨hnone, hlast, hwiden hs⟩
    rw [if_neg hkeep]
    obtain ⟨hlast, hread⟩ := not_or.mp hkeep
    rw [Bool.not_eq_true] at hread
    have herase : (opened.erase segment.index).get id = opened.get id ∨
        (opened.erase segment.index).get id = none ∧ id ≠ lastSegment ∧
          ∃ s ∈ segment :: rest, s.index = id ∧ s.write = false := by
      rw [Map.get_erase]
      split_ifs with hid
      · exact Or.inr ⟨rfl, hid ▸ hlast, segment, List.mem_cons_self, hid.symm, hread⟩
      · exact Or.inl rfl
    split_ifs with hdone
    · exact herase
    · rcases ih (closed + 1) (opened.erase segment.index) with hsame | ⟨hnone, hid, hs⟩
      · rw [hsame]
        exact herase
      · exact Or.inr ⟨hnone, hid, hwiden hs⟩

/-- A segment that the loop may close. -/
def SegmentStats.Closable (segment : SegmentStats) : Prop :=
  ¬ (segment.index = lastSegment ∨ segment.write = true)

instance (segment : SegmentStats) : Decidable (segment.Closable lastSegment) :=
  inferInstanceAs (Decidable (¬ _))

/-- As many are closed as there are to close, where so many may be closed. -/
theorem closeLoop_size (list : List SegmentStats) (closed : ℕ) (opened : Map ℕ TrackedSegment)
    (hnodup : (list.map (·.index)).Nodup) (hkeys : ∀ s ∈ list, s.index ∈ opened.keySet)
    (hclosed : closed < toClose)
    (hmany : toClose ≤ closed + list.countP fun s => s.Closable lastSegment) :
    (closeLoop lastSegment toClose list closed opened).size + (toClose - closed) =
      opened.size := by
  induction list generalizing closed opened with
  | nil =>
    rw [List.countP_nil] at hmany
    omega
  | cons segment rest ih =>
    obtain ⟨hfirst, hrest⟩ := List.nodup_cons.mp hnodup
    have hothers : ∀ s ∈ rest, s.index ∈ opened.keySet := fun s hs =>
      hkeys s (List.mem_cons_of_mem _ hs)
    rw [closeLoop]
    by_cases hkeep : segment.index = lastSegment ∨ segment.write = true
    · rw [if_pos hkeep]
      have hcount : (segment :: rest).countP (fun s => s.Closable lastSegment) =
          rest.countP fun s => s.Closable lastSegment := by
        rw [List.countP_cons_of_neg]
        rw [decide_eq_true_eq]
        exact not_not.mpr hkeep
      rw [hcount] at hmany
      exact ih closed opened hrest hothers hclosed hmany
    rw [if_neg hkeep]
    have hcount : (segment :: rest).countP (fun s => s.Closable lastSegment) =
        rest.countP (fun s => s.Closable lastSegment) + 1 := by
      rw [List.countP_cons_of_pos]
      exact decide_eq_true hkeep
    have hone : (opened.erase segment.index).size + 1 = opened.size := by
      rw [← Map.card_keySet, ← Map.card_keySet, Map.keySet_erase]
      exact Finset.card_erase_add_one (hkeys segment List.mem_cons_self)
    split_ifs with hdone
    · omega
    · have hkept : ∀ s ∈ rest, s.index ∈ (opened.erase segment.index).keySet := by
        intro s hs
        rw [Map.keySet_erase, Finset.mem_erase]
        refine ⟨?_, hothers s hs⟩
        intro heq
        exact hfirst (List.mem_map.mpr ⟨s, hs, heq⟩)
      have hnext := ih (closed + 1) (opened.erase segment.index) hrest hkept (by omega) (by omega)
      omega

end CloseLoop

namespace SegmentTracker

@[simp] theorem stateOf_saveAccessCount (t : SegmentTracker) (id : ℕ) :
    t.saveAccessCount.stateOf id = t.stateOf id := by
  rw [stateOf, stateOf, saveAccessCount, Map.get_mapValues, Option.map_map]
  rfl

theorem keySet_saveAccessCount (t : SegmentTracker) :
    t.saveAccessCount.opened.keySet = t.opened.keySet :=
  Map.keySet_mapValues _ _

theorem mem_stats (t : SegmentTracker) (env : Env) (s : SegmentStats) (h : s ∈ t.stats env) :
    ∃ state, t.stateOf s.index = some state ∧ s.write = state.isWrite := by
  obtain ⟨⟨id, segment⟩, hentry, rfl⟩ := List.mem_map.mp h
  rw [ValuesOrder.mem_order, Map.mem_entries_iff] at hentry
  exact ⟨segment.state, by rw [stateOf, hentry, Option.map_some], rfl⟩

theorem stats_perm_keys (t : SegmentTracker) (env : Env) :
    ((t.stats env).map (·.index)).Perm t.opened.keys := by
  rw [stats, List.map_map]
  exact (env.order.perm t.opened.entries).map Prod.fst

theorem stats_length (t : SegmentTracker) (env : Env) :
    (t.stats env).length = t.opened.size := by
  rw [stats, List.length_map, (env.order.perm _).length_eq, Map.size]

/-- Closing the least used segments leaves the last one and those that are written to. -/
theorem stateOf_closeLeastUsed (t : SegmentTracker) (env : Env) (lastSegment id : ℕ) :
    (t.closeLeastUsed env lastSegment).stateOf id = t.stateOf id ∨
      (t.closeLeastUsed env lastSegment).stateOf id = none ∧ id ≠ lastSegment ∧
        t.stateOf id ≠ some .write := by
  have hloop := closeLoop_get lastSegment
    (((t.stats env).insertionSort fun a b => a.accessCount ≤ b.accessCount).length - t.maxOpen)
    ((t.stats env).insertionSort fun a b => a.accessCount ≤ b.accessCount) 0
    t.saveAccessCount.opened id
  rcases hloop with hsame | ⟨hnone, hlast, s, hs, rfl, hwrite⟩
  · rw [← stateOf_saveAccessCount t id]
    exact Or.inl (congrArg (Option.map _) hsame)
  · refine Or.inr ⟨congrArg (Option.map _) hnone, hlast, ?_⟩
    obtain ⟨state, hstate, hopen⟩ := t.mem_stats env s ((List.perm_insertionSort _ _).mem_iff.mp hs)
    rw [hstate]
    rintro hstate
    obtain rfl := Option.some.inj hstate
    rw [hwrite] at hopen
    contradiction

/-- The segments that have to stay are few enough: then no more stay than may be open. -/
theorem size_closeLeastUsed (t : SegmentTracker) (env : Env) (lastSegment : ℕ) (pinned : Finset ℕ)
    (hwrite : ∀ id, t.stateOf id = some .write → id ∈ pinned) (hlast : lastSegment ∈ pinned)
    (hpinned : pinned.card ≤ t.maxOpen) (hmany : t.opened.size > t.maxOpen) :
    (t.closeLeastUsed env lastSegment).opened.size = t.maxOpen := by
  let sorted := (t.stats env).insertionSort fun a b => a.accessCount ≤ b.accessCount
  have hperm : sorted.Perm (t.stats env) := List.perm_insertionSort _ _
  have hlength : sorted.length = t.opened.size := hperm.length_eq.trans (t.stats_length env)
  have hkeys := (hperm.map (·.index)).trans (t.stats_perm_keys env)
  have hnodup : (sorted.map (·.index)).Nodup := hkeys.nodup_iff.mpr t.opened.keys_nodup
  have hkept : (sorted.countP fun s => ¬ s.Closable lastSegment) ≤ pinned.card := by
    rw [List.countP_eq_length_filter]
    have hsub : (sorted.filter fun s => ¬ s.Closable lastSegment).map (·.index) ⊆ pinned.toList := by
      intro id hid
      obtain ⟨s, hs, rfl⟩ := List.mem_map.mp hid
      obtain ⟨hs, hkeep⟩ := List.mem_filter.mp hs
      rw [Finset.mem_toList]
      rcases not_not.mp (of_decide_eq_true hkeep) with hindex | hopen
      · exact hindex ▸ hlast
      · obtain ⟨state, hstate, hsame⟩ := t.mem_stats env s (hperm.mem_iff.mp hs)
        apply hwrite
        rw [hopen] at hsame
        cases state with
        | read map => contradiction
        | write => exact hstate
    have hfilter : ((sorted.filter fun s => ¬ s.Closable lastSegment).map (·.index)).Nodup :=
      hnodup.sublist (List.filter_sublist.map _)
    have hle := (hfilter.subperm hsub).length_le
    rwa [List.length_map, Finset.length_toList] at hle
  have hcount := List.length_eq_countP_add_countP (fun s => decide (s.Closable lastSegment))
    (l := sorted)
  simp only [decide_eq_true_eq] at hcount
  have hsize := closeLoop_size lastSegment (sorted.length - t.maxOpen) sorted 0
    t.saveAccessCount.opened hnodup ?_ (by omega) (by omega)
  · rw [← Map.card_keySet t.saveAccessCount.opened, keySet_saveAccessCount, Map.card_keySet] at hsize
    have hresult : (t.closeLeastUsed env lastSegment).opened.size =
        (closeLoop lastSegment (sorted.length - t.maxOpen) sorted 0 t.saveAccessCount.opened).size :=
      rfl
    omega
  · intro s hs
    obtain ⟨state, hstate, -⟩ := t.mem_stats env s (hperm.mem_iff.mp hs)
    rw [keySet_saveAccessCount, Map.mem_keySet_iff]
    obtain ⟨segment, hsegment, -⟩ := Option.map_eq_some_iff.mp hstate
    exact ⟨segment, hsegment⟩

/-- What opening a segment does to the table. -/
structure Opens (t t' : SegmentTracker) (segment : ℕ) (state : OpenState) : Prop where
  nextId_eq : t'.nextId = t.nextId
  maxOpen_eq : t'.maxOpen = t.maxOpen
  opened_state : t'.stateOf segment = some state
  others : ∀ id, id ≠ segment →
    t'.stateOf id = t.stateOf id ∨ t'.stateOf id = none ∧ t.stateOf id ≠ some .write
  size_le : ∀ pinned : Finset ℕ, (∀ id, t.stateOf id = some .write → id ∈ pinned) →
    segment ∈ pinned → pinned.card ≤ t.maxOpen → t'.opened.size ≤ t.maxOpen
  mostTracked_eq : t'.mostTracked = max t.mostTracked t'.opened.size

theorem openState_opens (t : SegmentTracker) (env : Env) (segment : ℕ) (state : OpenState) :
    t.Opens (t.openState env segment state) segment state := by
  let added : SegmentTracker := { t with opened := t.opened.insert segment ⟨0, state⟩ }
  have hself : added.stateOf segment = some state := by
    rw [stateOf, Map.get_insert, if_pos rfl]
    rfl
  have hothers : ∀ id, id ≠ segment → added.stateOf id = t.stateOf id := by
    intro id hid
    rw [stateOf, Map.get_insert, if_neg hid]
    rfl
  by_cases hmany : added.opened.size > added.maxOpen
  · have hopen : (t.openState env segment state).opened =
        (added.closeLeastUsed env segment).opened := by
      rw [openState, if_pos hmany]
    have hstate : ∀ id, (t.openState env segment state).stateOf id =
        (added.closeLeastUsed env segment).stateOf id := fun id => by rw [stateOf, hopen, stateOf]
    refine ⟨?_, ?_, ?_, ?_, ?_, ?_⟩
    · rw [openState, if_pos hmany]
      rfl
    · rw [openState, if_pos hmany]
      rfl
    · rw [hstate]
      rcases added.stateOf_closeLeastUsed env segment segment with hsame | ⟨-, hne, -⟩
      · exact hsame.trans hself
      · exact absurd rfl hne
    · intro id hid
      have hclose := added.stateOf_closeLeastUsed env segment id
      rw [hothers id hid] at hclose
      rw [hstate]
      rcases hclose with hsame | ⟨hnone, -, hwrite⟩
      · exact Or.inl hsame
      · exact Or.inr ⟨hnone, hwrite⟩
    · intro pinned hwrite hsegment hpinned
      rw [hopen]
      apply le_of_eq
      apply added.size_closeLeastUsed env segment pinned _ hsegment hpinned hmany
      intro id hid
      by_cases heq : id = segment
      · rw [heq]
        exact hsegment
      · rw [hothers id heq] at hid
        exact hwrite id hid
    · rw [openState, if_pos hmany]
      rfl
  · have hopen : (t.openState env segment state).opened = added.saveAccessCount.opened := by
      rw [openState, if_neg hmany]
    have hstate : ∀ id, (t.openState env segment state).stateOf id = added.stateOf id := by
      intro id
      rw [← stateOf_saveAccessCount added, stateOf, hopen, stateOf]
    refine ⟨?_, ?_, ?_, ?_, ?_, ?_⟩
    · rw [openState, if_neg hmany]
      rfl
    · rw [openState, if_neg hmany]
      rfl
    · rw [hstate]
      exact hself
    · intro id hid
      rw [hstate]
      exact Or.inl (hothers id hid)
    · intro _ _ _ _
      rw [hopen, ← Map.card_keySet, keySet_saveAccessCount, Map.card_keySet]
      exact Nat.le_of_not_lt hmany
    · rw [openState, if_neg hmany]
      rfl

theorem stateOf_close (t : SegmentTracker) (segment id : ℕ) :
    (t.close segment).stateOf id = if id = segment then none else t.stateOf id := by
  rw [stateOf, close, Map.get_erase]
  split_ifs <;> rfl

theorem size_close_le (t : SegmentTracker) (segment : ℕ) :
    (t.close segment).opened.size ≤ t.opened.size := by
  rw [← Map.card_keySet, ← Map.card_keySet, close, Map.keySet_erase]
  exact Finset.card_erase_le

end SegmentTracker

end Exocore.Chain.Tracking
