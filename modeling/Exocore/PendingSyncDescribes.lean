import Exocore.CommitCleanup
import Exocore.PendingSyncFirstRange

/-! What the ranges of a request say about the store they were built from, and what a node with
the same store answers. -/
namespace Exocore.Engine

open Exocore.Core Exocore.Chain Exocore.Pending SortedMap

section Described
variable [Crates]

/-- The id is between the decoded bounds of the range. -/
def Covers (range : PendingSyncRange) (id : ℕ) : Prop :=
  inRange (extractSyncBounds range).1.1 (extractSyncBounds range).1.2 id = true

/-- The ranges cut the requested ids into parts, and give the hash and the count of each part. -/
structure DescribesStore (store : MemoryPendingStore) (height : Option ℕ) (lo : Bound)
    (ranges : List PendingSyncRange) : Prop where
  disjoint : ranges.Pairwise fun r r' => ∀ id, Covers r id → ¬ Covers r' id
  covers : ∀ id, (∃ r ∈ ranges, Covers r id) ↔ inRange lo .unbounded id = true
  info : ∀ r ∈ ranges, ∃ hash, r.operationsHash.bind Crates.multihashFromBytes = some hash ∧
    localStoreRangeInfo store (extractSyncBounds r).1 height = .ok (hash, r.operationsCount)

/-- A range ends with the operation 0, and there are others: the next range starts behind the id 0,
which is written as no bound. -/
def CutAtZero (max : ℕ) (operations : List StoredOperation) : Prop :=
  max = 0 ∧ ∃ first rest, operations = first :: rest ∧ first.operationId = 0 ∧ rest ≠ []

omit [Crates] in
theorem cuts_head (min : ℕ) (lo hi : Bound) (cuts : List (Bound × Bound)) (h : Cuts min lo hi cuts) :
    ∃ first rest, cuts = first :: rest ∧ first.1 = lo := by
  cases h with
  | last => exact ⟨_, _, rfl, rfl⟩
  | cut => exact ⟨_, _, rfl, rfl⟩

omit [Crates] in
/-- No cut is after the operation 0, if no range starts behind it. -/
theorem cuts_pos (min : ℕ) (lo hi : Bound) (cuts : List (Bound × Bound)) (h : Cuts min lo hi cuts)
    (hstarts : ∀ c ∈ cuts, c.1 ≠ .excluded 0) : Cuts 1 lo hi cuts := by
  induction h with
  | last lo hi => exact .last lo hi
  | cut lo hi x rest hlo hhi hx hrest ih =>
    obtain ⟨first, later, hfirst, hstart⟩ := cuts_head _ _ _ _ hrest
    have hmem : first ∈ (lo, .included x) :: rest := by
      rw [hfirst]
      exact List.mem_cons_of_mem _ List.mem_cons_self
    have hx' : 1 ≤ x := by
      by_contra hzero
      obtain rfl : x = 0 := by omega
      exact hstarts first hmem hstart
    exact .cut lo hi x rest hlo hhi hx' (ih fun c hc => hstarts c (List.mem_cons_of_mem _ hc))

omit [Crates] in
/-- The ranges after the first one start behind operations of the list. -/
theorem cutsOf_starts (max : ℕ) (hi lo : Bound) (count last : ℕ) (ids : List ℕ)
    (hlast : 0 < count → 1 ≤ last) (hids : ∀ id ∈ ids, 1 ≤ id) (hlo : lo ≠ .excluded 0) :
    ∀ c ∈ cutsOf max hi lo count last ids, c.1 ≠ .excluded 0 := by
  induction ids generalizing lo count last with
  | nil =>
    intro c hc
    rw [List.mem_singleton.mp hc]
    exact hlo
  | cons id ids ih =>
    have hid := hids id List.mem_cons_self
    have hrest (x : ℕ) (hx : x ∈ ids) : 1 ≤ x := hids x (List.mem_cons_of_mem id hx)
    rw [cutsOf]
    split_ifs with hfull
    · have hpos := hlast (by omega)
      intro c hc
      rcases List.mem_cons.mp hc with rfl | hc
      · exact hlo
      · refine ih (.excluded last) 1 id (fun _ => hid) hrest ?_ c hc
        intro heq
        rw [Bound.excluded.inj heq] at hpos
        omega
    · exact ih lo (count + 1) id (fun _ => hid) hrest hlo

omit [Crates] in
theorem cuts_starts (min : ℕ) (hmin : 1 ≤ min) (lo hi : Bound) (cuts : List (Bound × Bound))
    (h : Cuts min lo hi cuts) (hlo : lo ≠ .excluded 0) : ∀ c ∈ cuts, c.1 ≠ .excluded 0 := by
  induction h with
  | last lo hi =>
    intro c hc
    rw [List.mem_singleton.mp hc]
    exact hlo
  | cut lo hi x rest _ _ hx hrest ih =>
    intro c hc
    rcases List.mem_cons.mp hc with rfl | hc
    · exact hlo
    · refine ih ?_ c hc
      intro heq
      rw [Bound.excluded.inj heq] at hx
      omega

variable (store : MemoryPendingStore) (height : Option ℕ)

/-- Without a cut after the operation 0 no range starts behind it. -/
theorem starts_of_not_cutAtZero (max : ℕ) (lo : Bound) (hlo : lo ≠ .excluded 0)
    (hcuts : Cuts max lo .unbounded (cutsOf max .unbounded lo 0 0
      ((visible store height (lo, .unbounded)).map StoredOperation.operationId)))
    (h : ¬ CutAtZero max (visible store height (lo, .unbounded))) :
    ∀ c ∈ cutsOf max .unbounded lo 0 0
      ((visible store height (lo, .unbounded)).map StoredOperation.operationId),
      c.1 ≠ .excluded 0 := by
  by_cases hmax : 1 ≤ max
  · exact cuts_starts max hmax lo .unbounded _ hcuts hlo
  · obtain rfl : max = 0 := by omega
    have hsorted := visible_sorted store height (lo, .unbounded)
    cases hops : visible store height (lo, .unbounded) with
    | nil =>
      intro c hc
      rw [List.mem_singleton.mp hc]
      exact hlo
    | cons first rest =>
      rw [hops] at h hsorted
      by_cases hrest : rest = []
      · intro c hc
        rw [hrest] at hc
        rw [List.mem_singleton.mp hc]
        exact hlo
      · have hfirst : 1 ≤ first.operationId := by
          by_contra hzero
          exact h ⟨rfl, first, rest, rfl, by omega, hrest⟩
        apply cutsOf_starts
        · exact fun hcount => absurd hcount (Nat.lt_irrefl 0)
        · intro id hid
          obtain ⟨op, hop, rfl⟩ := List.mem_map.mp hid
          rcases List.mem_cons.mp hop with rfl | hop
          · exact hfirst
          · have hlt := (List.pairwise_cons.mp hsorted).1 op hop
            omega
        · exact hlo

section Message
variable (details : StoredOperation → OperationDetailsLevel)

/-- Where all bounds are read back, the messages describe the store. -/
theorem describesStore_of_boundsRead (hmh : MultihashReadsBack) (max : ℕ) (lo : Bound)
    (cuts : List (Bound × Bound)) (hcuts : Cuts max lo .unbounded cuts)
    (hb : ∀ c ∈ cuts, BoundsRead c.1 c.2) :
    DescribesStore store height lo (cuts.map (rangeMessage store height details)) := by
  have hcovers (c : Bound × Bound) (hc : c ∈ cuts) (id : ℕ) :
      Covers (rangeMessage store height details c) id ↔ inRange c.1 c.2 id = true := by
    rw [Covers, extractSyncBounds_rangeMessage store height details c (hb c hc)]
  refine ⟨?_, ?_, ?_⟩
  · apply List.pairwise_map.mpr
    refine (cuts_disjoint max lo .unbounded cuts hcuts).imp_of_mem ?_
    intro c c' hc hc' hdisjoint id hin
    rw [hcovers c' hc', hdisjoint id ((hcovers c hc id).mp hin)]
    exact Bool.false_ne_true
  · intro id
    constructor
    · rintro ⟨r, hr, hin⟩
      obtain ⟨c, hc, rfl⟩ := List.mem_map.mp hr
      exact cuts_inside max lo .unbounded cuts hcuts c hc id ((hcovers c hc id).mp hin)
    · intro hin
      obtain ⟨c, hc, hin'⟩ := cuts_cover max lo .unbounded cuts hcuts id hin
      exact ⟨_, List.mem_map_of_mem hc, (hcovers c hc id).mpr hin'⟩
  · intro r hr
    obtain ⟨c, hc, rfl⟩ := List.mem_map.mp hr
    refine ⟨_, rangeMessage_hash store height details c hmh, ?_⟩
    rw [extractSyncBounds_rangeMessage store height details c (hb c hc), localStoreRangeInfo,
      operationsIterFromHeight_eq store height c (fun _ => (hb c hc).noPanic), ok_bind,
      rangeMessage_count]
    rfl

/-- After a cut behind the operation 0 two ranges have the id 0. -/
theorem not_describesStore_of_cutAtZero (lo : Bound)
    (h : CutAtZero 0 (visible store height (lo, .unbounded))) :
    ¬ DescribesStore store height lo ((cutsOf 0 .unbounded lo 0 0
      ((visible store height (lo, .unbounded)).map StoredOperation.operationId)).map
        (rangeMessage store height details)) := by
  obtain ⟨-, first, rest, hops, hzero, hrest⟩ := h
  obtain ⟨second, later, rfl⟩ := List.exists_cons_of_ne_nil hrest
  intro hdescribes
  have hin : lo.lowerAllows 0 = true := by
    have hmem : first ∈ visible store height (lo, .unbounded) := by
      rw [hops]
      exact List.mem_cons_self
    obtain ⟨-, hrange, -⟩ := (mem_visible_iff store height _ first).mp hmem
    rw [hzero, inRange_iff] at hrange
    exact hrange.1
  obtain ⟨tail, htail⟩ := cutsOf_head 0 .unbounded (.excluded 0) 1 second.operationId
    (later.map StoredOperation.operationId) (le_refl _)
  have hcuts : cutsOf 0 .unbounded lo 0 0 ((visible store height (lo, .unbounded)).map
      StoredOperation.operationId) = (lo, .included 0) :: cutsOf 0 .unbounded (.excluded 0) 1
        second.operationId (later.map StoredOperation.operationId) := by
    rw [hops, List.map_cons, List.map_cons, hzero]
    rfl
  rw [hcuts, htail, List.map_cons, List.map_cons] at hdescribes
  have hdisjoint := (List.pairwise_cons.mp hdescribes.disjoint).1 _ List.mem_cons_self 0
  apply hdisjoint
  · show inRange (readBound (SyncRangeBuilder.writeBound lo).1 (SyncRangeBuilder.writeBound lo).2)
      (.included 0) 0 = true
    rw [inRange_iff]
    refine ⟨?_, rfl⟩
    cases lo with
    | included x =>
      rw [SyncRangeBuilder.writeBound, readBound_included]
      exact hin
    | excluded x =>
      simp [Bound.lowerAllows] at hin
    | unbounded => rfl
  · show inRange .unbounded _ 0 = true
    rw [inRange_iff]
    refine ⟨rfl, ?_⟩
    split_ifs
    · rfl
    · show (readBound _ true).upperAllows 0 = true
      rw [readBound_included]
      rfl

end Message

end Described

section Answered
variable [Crates]

/-- What the hash and the count of a range are made of. -/
def shown (store : MemoryPendingStore) (height : Option ℕ) (c : Bound × Bound) :
    List (ℕ × OperationFrame) :=
  (visible store height c).map fun op => (op.operationId, op.frame)

theorem hashInput_shown (store : MemoryPendingStore) (height : Option ℕ) (c : Bound × Bound) :
    hashInput (visible store height c) =
      (shown store height c).flatMap fun e => e.2.multihashBytes := by
  rw [shown, List.flatMap_map]
  rfl

theorem shown_sorted (store : MemoryPendingStore) (height : Option ℕ) (c : Bound × Bound) :
    (shown store height c).Pairwise fun a b => a.1 < b.1 :=
  List.pairwise_map.mpr (visible_sorted store height c)

theorem mem_shown_iff (store : MemoryPendingStore) (height : Option ℕ) (c : Bound × Bound) (id : ℕ)
    (frame : OperationFrame) : (id, frame) ∈ shown store height c ↔
      ∃ op, store.getOperation id = some op ∧ op.frame = frame ∧ inRange c.1 c.2 id = true ∧
        fromHeightAllows height op = true := by
  rw [shown, List.mem_map]
  constructor
  · rintro ⟨op, hop, heq⟩
    obtain ⟨hget, hin, hallow⟩ := (mem_visible_iff store height c op).mp hop
    obtain ⟨rfl, rfl⟩ := Prod.mk.inj heq
    exact ⟨op, hget, rfl, hin, hallow⟩
  · rintro ⟨op, hget, rfl, hin, hallow⟩
    have hid := store.getOperation_id id op hget
    subst hid
    exact ⟨op, (mem_visible_iff store height c op).mpr ⟨hget, hin, hallow⟩, rfl⟩

/-- What is shown is determined by which frames are. -/
theorem shown_ext (s t : MemoryPendingStore) (height height' : Option ℕ) (c : Bound × Bound)
    (h : ∀ id frame, (id, frame) ∈ shown s height c ↔ (id, frame) ∈ shown t height' c) :
    shown s height c = shown t height' c := by
  have hmaps : (⟨shown s height c, shown_sorted s height c⟩ : Map ℕ OperationFrame) =
      ⟨shown t height' c, shown_sorted t height' c⟩ := by
    apply Map.ext_get
    intro id
    apply Option.ext
    intro frame
    rw [← Map.mem_entries_iff, ← Map.mem_entries_iff]
    exact h id frame
  exact congrArg Map.entries hmaps

variable (store : MemoryPendingStore) (height : Option ℕ)
  (details : StoredOperation → OperationDetailsLevel)

/-- Storing the operations that come with a range changes nothing of what is shown, where it is
shown already. -/
theorem shown_stored (localHeight : Option ℕ) (c : Bound × Bound) (before after : PendingState)
    (hstored : Stored before after (sentWith .full store height details c))
    (hsame : shown before.store localHeight c = shown store height c) :
    shown after.store localHeight c = shown store height c := by
  apply shown_ext
  intro id frame
  by_cases hfull : id ∈ (sentWith .full store height details c).map StoredOperation.operationId
  · obtain ⟨op, hop, rfl⟩ := List.mem_map.mp hfull
    have hvisible := (sentWith_sublist store height details c .full).subset hop
    obtain ⟨hget, hin, hallow⟩ := (mem_visible_iff store height c op).mp hvisible
    rw [mem_shown_iff, mem_shown_iff, hstored.stored op hop, hget]
    constructor
    · rintro ⟨op', heq, hframe, -, -⟩
      refine ⟨op, rfl, ?_, hin, hallow⟩
      rw [← Option.some.inj heq] at hframe
      exact hframe
    · rintro ⟨op', heq, hframe, -, -⟩
      obtain rfl := Option.some.inj heq
      refine ⟨_, rfl, hframe, hin, ?_⟩
      -- a stored operation has no status, so that no height hides it
      cases localHeight <;> rfl
  · rw [← hsame, mem_shown_iff, mem_shown_iff, hstored.others id hfull]

theorem shown_stored_of_disjoint (localHeight : Option ℕ) (c c' : Bound × Bound)
    (before after : PendingState)
    (hstored : Stored before after (sentWith .full store height details c))
    (hdisjoint : ∀ id, inRange c.1 c.2 id = true → inRange c'.1 c'.2 id = false) :
    shown after.store localHeight c' = shown before.store localHeight c' := by
  have hvisible : visible after.store localHeight c' = visible before.store localHeight c' := by
    apply visible_congr
    intro id hin
    apply hstored.others
    intro hmem
    obtain ⟨op, hop, rfl⟩ := List.mem_map.mp hmem
    obtain ⟨-, hin', -⟩ := (mem_visible_iff store height c op).mp
      ((sentWith_sublist store height details c .full).subset hop)
    rw [hdisjoint _ hin'] at hin
    contradiction
  rw [shown, hvisible, shown]

/-- A store that shows the same has nothing to answer to a range. -/
theorem handleIncomingSyncRange_same (hmh : MultihashReadsBack) (localHeight : Option ℕ)
    (c : Bound × Bound) (hb : BoundsRead c.1 c.2) (out : SyncRangesBuilder) (state : PendingState)
    (hsame : shown state.store localHeight c = shown store height c) :
    ∃ out' after, handleIncomingSyncRange localHeight (rangeMessage store height details c) out
        state = (.ok (false, out'), after) ∧
      Stored state after (sentWith .full store height details c) := by
  obtain ⟨included, after, hstored, -, hhandle⟩ := handleIncomingSyncRange_eq store height details c
    localHeight out state hb.ordered
  have hshown := shown_stored store height details localHeight c state after hstored hsame
  have hbounds := extractSyncBounds_rangeMessage store height details c hb
  have hlength : (visible after.store localHeight c).length = (visible store height c).length := by
    have hlengths := congrArg List.length hshown
    rw [shown, shown, List.length_map, List.length_map] at hlengths
    exact hlengths
  have hp : rangePanics (extractSyncBounds (rangeMessage store height details c)).1.1
      (extractSyncBounds (rangeMessage store height details c)).1.2 = false := by
    rw [hbounds]
    exact hb.noPanic
  have hinfo : toMultihash (hashInput (visible store height c)) =
        toMultihash (hashInput (visible after.store localHeight
          (extractSyncBounds (rangeMessage store height details c)).1)) ∧
      (visible after.store localHeight
        (extractSyncBounds (rangeMessage store height details c)).1).length =
          (rangeMessage store height details c).operationsCount := by
    rw [hbounds, hashInput_shown, hashInput_shown, hshown, hlength, rangeMessage_count]
    exact ⟨rfl, rfl⟩
  have hcompare := compareRange_same after.store localHeight _ included out _ hp
    (rangeMessage_hash store height details c hmh) hinfo
  exact ⟨_, after, by rw [hhandle, hcompare], hstored⟩

theorem handleIncomingSyncRangesLoop_same (hmh : MultihashReadsBack) (localHeight : Option ℕ)
    (cuts : List (Bound × Bound)) (hb : ∀ c ∈ cuts, BoundsRead c.1 c.2)
    (hdisjoint : cuts.Pairwise fun c c' => ∀ id, inRange c.1 c.2 id = true →
      inRange c'.1 c'.2 id = false)
    (out : SyncRangesBuilder) (state : PendingState)
    (hsame : ∀ c ∈ cuts, shown state.store localHeight c = shown store height c) :
    ∃ after, handleIncomingSyncRangesLoop localHeight (cuts.map (rangeMessage store height details))
        false out state = (.ok none, after) ∧
      after.syncContext.messages = state.syncContext.messages := by
  induction cuts generalizing out state with
  | nil => exact ⟨state, rfl, rfl⟩
  | cons c rest ih =>
    obtain ⟨hfirst, hrest⟩ := List.pairwise_cons.mp hdisjoint
    obtain ⟨out', mid, hhandle, hstored⟩ := handleIncomingSyncRange_same store height details hmh
      localHeight c (hb c List.mem_cons_self) out state (hsame c List.mem_cons_self)
    obtain ⟨after, hloop, hmessages⟩ := ih (fun c' hc' => hb c' (List.mem_cons_of_mem _ hc')) hrest
      out' mid (by
        intro c' hc'
        rw [shown_stored_of_disjoint store height details localHeight c c' state mid hstored
          (hfirst c' hc')]
        exact hsame c' (List.mem_cons_of_mem _ hc'))
    refine ⟨after, ?_, hmessages.trans hstored.messages⟩
    rw [List.map_cons, handleIncomingSyncRangesLoop_cons_ok _ _ _ _ _ _ _ _ _ hhandle]
    exact hloop

end Answered

section Requests
variable [Crates] (p : PendingSynchronizer)

omit [Crates] in
/-- The node itself reads the height it wrote: a height 0 stands for its own one. -/
theorem getFromBlockHeight_own (syncContext : SyncContext) (ranges : ListPointer PendingSyncRange) :
    p.getFromBlockHeight syncContext
        (some ⟨ranges, (p.getFromBlockHeight syncContext none).getD 0⟩) =
      p.getFromBlockHeight syncContext none := by
  have hzero : p.getFromBlockHeight syncContext (some ⟨ranges, 0⟩) =
      p.getFromBlockHeight syncContext none := rfl
  cases hown : p.getFromBlockHeight syncContext none with
  | none => exact hzero.trans hown
  | some height =>
    cases height with
    | zero => exact hzero.trans hown
    | succ height => rfl

/-- The same operations, and heights that let the same of them through. -/
structure SameStore (store : MemoryPendingStore) (height : Option ℕ) (receiver : MemoryPendingStore)
    (receiverHeight : Option ℕ) : Prop where
  operations : ∀ id, receiver.getOperation id = store.getOperation id
  heights : ∀ op ∈ store.operations,
    fromHeightAllows receiverHeight op = fromHeightAllows height op

theorem SameStore.shown_eq {store : MemoryPendingStore} {height : Option ℕ}
    {receiver : MemoryPendingStore} {receiverHeight : Option ℕ}
    (h : SameStore store height receiver receiverHeight) (c : Bound × Bound) :
    shown receiver receiverHeight c = shown store height c := by
  apply shown_ext
  intro id frame
  rw [mem_shown_iff, mem_shown_iff, h.operations id]
  apply exists_congr
  intro op
  constructor
  · rintro ⟨hget, hframe, hin, hallow⟩
    have hmem : op ∈ store.operations := by
      rw [store.mem_operations_iff, store.getOperation_id id op hget]
      exact hget
    exact ⟨hget, hframe, hin, (h.heights op hmem) ▸ hallow⟩
  · rintro ⟨hget, hframe, hin, hallow⟩
    have hmem : op ∈ store.operations := by
      rw [store.mem_operations_iff, store.getOperation_id id op hget]
      exact hget
    exact ⟨hget, hframe, hin, (h.heights op hmem).symm ▸ hallow⟩

/-- The ranges of a request describe the store exactly, unless one of them is cut off behind the
operation 0. A node with the same store that filters by the same height does not answer them. -/
theorem createSyncRequestForRange_describes (hmh : MultihashReadsBack) (syncContext : SyncContext)
    (store : MemoryPendingStore) (lo : Bound) (hlo : lo = .unbounded ∨ ∃ id, lo = .included id)
    (details : StoredOperation → OperationDetailsLevel) :
    ∃ ranges : List PendingSyncRange, ∃ request : PendingSyncRequest,
      p.createSyncRequestForRange syncContext store (lo, .unbounded) details = .ok request ∧
      request.ranges.get = .ok ranges ∧
      (DescribesStore store (p.getFromBlockHeight syncContext (some request)) lo ranges ↔
        ¬ CutAtZero p.config.maxOperationsPerRange
          (visible store (p.getFromBlockHeight syncContext none) (lo, .unbounded))) ∧
      (¬ CutAtZero p.config.maxOperationsPerRange
          (visible store (p.getFromBlockHeight syncContext none) (lo, .unbounded)) →
        ∀ (q : PendingSynchronizer) (fromNode : NodeId) (state : PendingState),
          SameStore store (p.getFromBlockHeight syncContext none) state.store
            (q.getFromBlockHeight state.syncContext (some request)) →
          ∃ after, q.handleIncomingSyncRequest fromNode (some request) state = (.ok (), after) ∧
            after.syncContext.messages = state.syncContext.messages) := by
  obtain ⟨cuts, hcutsOf, hcuts, hcreate⟩ := createSyncRequestForRange_eq p syncContext store lo
    details
  refine ⟨_, _, hcreate, rfl, ?_, ?_⟩
  all_goals
    have hstart : lo ≠ .excluded 0 := by
      rcases hlo with rfl | ⟨id, rfl⟩
      · exact fun h => Bound.noConfusion h
      · exact fun h => Bound.noConfusion h
    have hwhole : BoundsRead lo .unbounded := by
      rcases hlo with rfl | ⟨id, rfl⟩
      · exact boundsRead_unbounded
      · exact ⟨readBound_included id, rfl, by simp [SyncRangeBuilder.writeBound], rfl⟩
    have hread (h : ¬ CutAtZero p.config.maxOperationsPerRange
        (visible store (p.getFromBlockHeight syncContext none) (lo, .unbounded))) :
        ∀ c ∈ cuts, BoundsRead c.1 c.2 := by
      have hcuts' := hcuts
      rw [hcutsOf] at hcuts'
      have hstarts := starts_of_not_cutAtZero store (p.getFromBlockHeight syncContext none)
        p.config.maxOperationsPerRange lo hstart hcuts' h
      rw [← hcutsOf] at hstarts
      exact cuts_boundsRead 1 (le_refl 1) lo .unbounded cuts (cuts_pos _ _ _ _ hcuts hstarts) hwhole
  · rw [getFromBlockHeight_own]
    constructor
    · intro hdescribes hzero
      have hmax := hzero.1
      rw [hmax] at hcutsOf hzero
      rw [hcutsOf] at hdescribes
      exact not_describesStore_of_cutAtZero store _ details lo hzero hdescribes
    · intro h
      exact describesStore_of_boundsRead store _ details hmh _ lo cuts hcuts (hread h)
  · intro h q fromNode state hsame
    obtain ⟨after, hloop, hmessages⟩ := handleIncomingSyncRangesLoop_same store
      (p.getFromBlockHeight syncContext none) details hmh _ cuts (hread h)
      (cuts_disjoint _ _ _ _ hcuts) (.new q.config) state fun c _ => hsame.shown_eq c
    refine ⟨after, ?_, hmessages⟩
    rw [handleIncomingSyncRequest_eq q fromNode _ _ state _ rfl, hloop]

end Requests

section Samples

local instance describedCrates : Crates := entryTables.crates

/-- Each operation gets a range of its own. -/
def singleSynchronizer : PendingSynchronizer := ⟨⟨0, 2⟩, twoNodes⟩

def bothStore : MemoryPendingStore :=
  sevenStore.insertOperation fiveFrame (entryOperation 5 [1]) .entry fiveFrame_reader
    fiveFrame_type

/-- The same operations, put in the other order. -/
def sameStore : MemoryPendingStore :=
  (MemoryPendingStore.new.insertOperation fiveFrame (entryOperation 5 [1]) .entry fiveFrame_reader
    fiveFrame_type).insertOperation sevenFrame (entryOperation 7 [2]) .entry
    sevenFrame_reader sevenFrame_type

theorem sameStore_getOperation (id : ℕ) :
    sameStore.getOperation id = bothStore.getOperation id := by
  simp only [sameStore, bothStore, sevenStore, MemoryPendingStore.getOperation_insertOperation,
    entryOperation]
  split_ifs with hseven hfive
  · omega
  · rfl
  · rfl
  · rfl

/-- Nothing of it is committed, so that every height lets it through. -/
theorem bothStore_allows (height height' : Option ℕ) (op : StoredOperation)
    (hop : op ∈ bothStore.operations) :
    fromHeightAllows height op = fromHeightAllows height' op := by
  have hunknown : ∀ op ∈ bothStore.operations, op.commitStatus = .unknown := by decide +kernel
  have hallows (height : Option ℕ) : fromHeightAllows height op = true := by
    cases height with
    | none => simp [fromHeightAllows]
    | some height => simp [fromHeightAllows, hunknown op hop]
  rw [hallows, hallows]

/-- A node with the operations 5 and 7 asks for all of them, with two ranges of which the second
brings 7. A node that has both, and was cleaned up, does not answer. -/
theorem bothRequest_describes :
    ∃ (ranges : List PendingSyncRange) (request : PendingSyncRequest) (after : PendingState),
      singleSynchronizer.createSyncRequestForRange (.new ⟨none⟩) bothStore
        (.unbounded, .unbounded) (PendingSynchronizer.newOperationDetails 7) = .ok request ∧
      request.ranges.get = .ok ranges ∧ ranges.length = 2 ∧
      DescribesStore bothStore
        (singleSynchronizer.getFromBlockHeight (.new ⟨none⟩) (some request)) .unbounded ranges ∧
      otherSynchronizer.handleIncomingSyncRequest ⟨firstNode⟩ (some request)
        ⟨.new ⟨some (0, 5)⟩, sameStore⟩ = (.ok (), after) ∧ after.syncContext.messages = [] := by
  obtain ⟨ranges, request, hcreate, hranges, hiff, hanswer⟩ := createSyncRequestForRange_describes
    singleSynchronizer entryTables_readsBack (.new ⟨none⟩) bothStore .unbounded (Or.inl rfl)
    (PendingSynchronizer.newOperationDetails 7)
  have hlength : (singleSynchronizer.createSyncRequestForRange (.new ⟨none⟩) bothStore
      (.unbounded, .unbounded) (PendingSynchronizer.newOperationDetails 7)).toOption.bind
        (fun request => request.ranges.get.toOption.map List.length) = some 2 := by
    decide +kernel
  have hcut : ¬ CutAtZero singleSynchronizer.config.maxOperationsPerRange (visible bothStore
      (singleSynchronizer.getFromBlockHeight (.new ⟨none⟩) none) (.unbounded, .unbounded)) := by
    rintro ⟨-, first, rest, hvisible, hzero, -⟩
    have hids : (visible bothStore (singleSynchronizer.getFromBlockHeight (.new ⟨none⟩) none)
      (.unbounded, .unbounded)).map StoredOperation.operationId = [5, 7] := by decide +kernel
    rw [hvisible, List.map_cons, hzero] at hids
    exact absurd (List.cons.inj hids).1 (by decide)
  obtain ⟨after, hhandled, hmessages⟩ := hanswer hcut otherSynchronizer ⟨firstNode⟩
    ⟨.new ⟨some (0, 5)⟩, sameStore⟩ ⟨sameStore_getOperation, bothStore_allows _ _⟩
  simp only [hcreate, hranges, Except.toOption, Option.bind_some, Option.map_some,
    Option.some.injEq] at hlength
  exact ⟨ranges, request, after, hcreate, hranges, hlength, hiff.mpr hcut, hhandled, hmessages⟩

end Samples

section Samples

attribute [local instance] commitCrates

def forgedRequest : PendingSyncRequest :=
  (singleSynchronizer.createSyncRequestForRange (.new ⟨none⟩) forgedState.pendingStore
    (.unbounded, .unbounded) fun _ => .none).toOption.getD ⟨.null, 0⟩

/-- The entry, committed at the height 1. -/
def committedFifty : MemoryPendingStore :=
  (fiftyStore.updateOperationCommitStatus 50 (.committed 254 1)).toOption.getD .new

def committedRequest : PendingSyncRequest :=
  (sampleSynchronizer.createSyncRequestForRange (.new ⟨none⟩) committedFifty
    (.unbounded, .unbounded) fun _ => .none).toOption.getD ⟨.null, 0⟩

/-- Both ranges of the operations 0 and 50 have the id 0. A node with the same operations that was
cleaned up to the height 5 answers a request of a node that was not. -/
theorem forgedRequest_not_describes :
    (singleSynchronizer.createSyncRequestForRange (.new ⟨none⟩) forgedState.pendingStore
        (.unbounded, .unbounded) (fun _ => .none) = .ok forgedRequest ∧
      ∀ ranges, forgedRequest.ranges.get = .ok ranges →
        ¬ DescribesStore forgedState.pendingStore none .unbounded ranges) ∧
    sampleSynchronizer.createSyncRequestForRange (.new ⟨none⟩) committedFifty
        (.unbounded, .unbounded) (fun _ => .none) = .ok committedRequest ∧
      (sampleSynchronizer.handleIncomingSyncRequest ⟨otherNode⟩ (some committedRequest)
        ⟨.new ⟨some (0, 5)⟩, committedFifty⟩).2.syncContext.messages ≠ [] := by
  have hforged : (singleSynchronizer.createSyncRequestForRange (.new ⟨none⟩)
      forgedState.pendingStore (.unbounded, .unbounded) fun _ => .none) = .ok forgedRequest := by
    decide +kernel
  have hbounds : forgedRequest.ranges.get.toOption.map (fun ranges => ranges.map fun r =>
      (extractSyncBounds r).1) =
        some [(.unbounded, .included 0), (.unbounded, .unbounded)] := by
    decide +kernel
  refine ⟨⟨hforged, ?_⟩, by decide +kernel, by decide +kernel⟩
  intro ranges hget hdescribes
  rw [hget] at hbounds
  have hmap : ranges.map (fun r => (extractSyncBounds r).1) =
      [(.unbounded, .included 0), (.unbounded, .unbounded)] := Option.some.inj hbounds
  have hpair : (ranges.map fun r => (extractSyncBounds r).1).Pairwise fun c c' =>
      ∀ id, inRange c.1 c.2 id = true → ¬ inRange c'.1 c'.2 id = true :=
    List.pairwise_map.mpr hdescribes.disjoint
  rw [hmap] at hpair
  exact (List.pairwise_cons.mp hpair).1 _ List.mem_cons_self 0 rfl rfl

end Samples

end Exocore.Engine
