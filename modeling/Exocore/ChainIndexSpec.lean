import Exocore.ChainDirectorySteps

/-! What the operation index holds: each of its maps covers a run of blocks, and together
they cover the chain. A strict index has no other entry than those of its blocks. -/
namespace Exocore.Chain

open Exocore.Core

variable [Crates]

/-- The ids a block is looked up by: its proposal and the operations it contains. -/
def HasOperation (b : DataBlock) (id : ℕ) : Prop :=
  (∃ header, b.header.reader = some header ∧ header.proposedOperationId = id) ∨
    ∃ frames, b.operations = .ok frames ∧
      ∃ f ∈ frames, ∃ r, f.frame.reader = some r ∧ r.operationId = id

/-- The same ids, listed. -/
def operationIds (b : DataBlock) : List ℕ :=
  (b.header.reader.map BlockHeader.proposedOperationId).toList ++
    (b.operations.toOption.getD []).filterMap fun f => f.frame.reader.map ChainOperation.operationId

theorem hasOperation_iff_mem (b : DataBlock) (id : ℕ) : HasOperation b id ↔ id ∈ operationIds b := by
  simp only [HasOperation, operationIds, List.mem_append, Option.mem_toList, Option.map_eq_some_iff,
    List.mem_filterMap]
  apply or_congr_right
  cases b.operations with
  | ok frames => simp [Except.toOption]
  | error e => simp [Except.toOption]

instance (b : DataBlock) (id : ℕ) : Decidable (HasOperation b id) :=
  decidable_of_iff' _ (hasOperation_iff_mem b id)

/-- What the index reads of a block: the operations that its iterator yields. -/
def Indexable (b : DataBlock) : Prop :=
  ∃ frames, b.operations = .ok frames ∧ ∀ f ∈ frames, ∃ r, f.frame.reader = some r

theorem iterOperations_eq_ok (operationsData : Bytes) (headers : List BlockOperationHeader)
    (hr : ∀ h ∈ headers, ∃ f r, h.readFrame operationsData = .ok f ∧ f.frame.reader = some r) :
    ∃ frames, DataBlock.iterOperations operationsData headers = .ok frames ∧
      ∀ f ∈ frames, ∃ r, f.frame.reader = some r := by
  induction headers with
  | nil => exact ⟨[], rfl, fun f hf => by contradiction⟩
  | cons h rest ih =>
    obtain ⟨f, r, hf, hreader⟩ := hr h List.mem_cons_self
    obtain ⟨frames, hiter, hall⟩ := ih fun x hx => hr x (List.mem_cons_of_mem _ hx)
    refine ⟨f :: frames, ?_, ?_⟩
    · simp only [DataBlock.iterOperations, hf, hiter, ok_bind, pure, Except.pure]
    · intro g hg
      rcases List.mem_cons.mp hg with rfl | hg
      · exact ⟨r, hreader⟩
      · exact hall g hg

theorem WellFormed.indexable {b : DataBlock} (hb : WellFormed b) : Indexable b := by
  obtain ⟨headers, hheaders, hreads⟩ := hb.operationsRead
  obtain ⟨frames, hiter, hall⟩ := iterOperations_eq_ok b.operationsData headers hreads
  exact ⟨frames, by rw [DataBlock.operations, hheaders, ok_bind, hiter], hall⟩

/-- One of the frames has the operation. -/
def FramesHave (frames : List OperationFrame) (id : ℕ) : Prop :=
  ∃ f ∈ frames, ∃ r, f.frame.reader = some r ∧ r.operationId = id

/-- The loop takes the operations that the iterator yields: it only adds to the map in memory, and
all of them. -/
theorem indexOperations_eq (operationsData : Bytes) (offset : ℕ)
    (headers : List BlockOperationHeader) (frames : List OperationFrame)
    (hiter : DataBlock.iterOperations operationsData headers = .ok frames)
    (hr : ∀ f ∈ frames, ∃ r, f.frame.reader = some r) (i : OperationIndex) :
    ∃ m, OperationIndex.indexOperations operationsData offset headers i =
        (.ok (), { i with memoryIndex := m }) ∧
      (∀ id, FramesHave frames id → m.get id = some offset) ∧
      ∀ id, ¬ FramesHave frames id → m.get id = i.memoryIndex.get id := by
  induction headers generalizing i frames with
  | nil =>
    obtain rfl := Except.ok.inj hiter
    exact ⟨i.memoryIndex, rfl, by simp [FramesHave], fun _ _ => rfl⟩
  | cons h rest ih =>
    rw [DataBlock.iterOperations] at hiter
    cases hf : h.readFrame operationsData with
    | error e =>
      rw [hf] at hiter
      cases e with
      | panic => contradiction
      | error e =>
        -- both end at a frame that does not read
        obtain rfl := Except.ok.inj hiter
        refine ⟨i.memoryIndex, ?_, by simp [FramesHave], fun _ _ => rfl⟩
        rw [OperationIndex.indexOperations, hf]
    | ok f =>
      rw [hf] at hiter
      obtain ⟨frames', hrest, hframes⟩ := (bind_eq_ok_iff _ _ _).mp hiter
      obtain rfl := Except.ok.inj hframes
      obtain ⟨r, hreader⟩ := hr f List.mem_cons_self
      obtain ⟨m, hloop, hin, hout⟩ := ih frames' hrest
        (fun g hg => hr g (List.mem_cons_of_mem _ hg)) (i.putOperationBlock r.operationId offset)
      have hhead (id : ℕ) : FramesHave (f :: frames') id ↔
          r.operationId = id ∨ FramesHave frames' id := by
        simp only [FramesHave, List.mem_cons, exists_eq_or_imp, hreader, Option.some.injEq,
          exists_eq_left']
      refine ⟨m, ?_, ?_, ?_⟩
      · rw [OperationIndex.indexOperations, hf]
        simp only [hreader, hloop]
        rfl
      · intro id hid
        by_cases htail : FramesHave frames' id
        · exact hin id htail
        · rw [hout id htail]
          rcases (hhead id).mp hid with rfl | hbad
          · simp [OperationIndex.putOperationBlock]
          · exact absurd hbad htail
      · intro id hid
        rw [hhead, not_or] at hid
        rw [hout id hid.2]
        simp [OperationIndex.putOperationBlock, Ne.symm hid.1]

/-- The map has an entry for each id of the blocks; a strict one for nothing else. -/
structure Indexes (strict : Prop) (m : SortedMap.Map ℕ ℕ) (bs : List DataBlock) : Prop where
  covers : ∀ b ∈ bs, ∀ id, HasOperation b id → m.get id ≠ none
  sound : strict → ∀ id offset, m.get id = some offset →
    ∃ b ∈ bs, b.offset = offset ∧ HasOperation b id
  indexable : ∀ b ∈ bs, Indexable b

theorem indexes_empty (strict : Prop) : Indexes strict .empty [] :=
  ⟨fun b hb => by contradiction, fun _ id offset h => by simp at h, fun b hb => by contradiction⟩

/-- The files hold the blocks from an offset up to another. -/
inductive StoredHold (strict : Prop) : ℕ → List StoredIndex → List DataBlock → ℕ → Prop
  | nil (start : ℕ) : StoredHold strict start [] [] start
  | cons (start : ℕ) (x : StoredIndex) (xs : List StoredIndex) (bs rest : List DataBlock)
      (stop : ℕ) (hlink : Linked start bs x.stop) (hindex : Indexes strict x.entries bs)
      (hrest : StoredHold strict x.stop xs rest stop) :
      StoredHold strict start (x :: xs) (bs ++ rest) stop

theorem storedHold_linked (strict : Prop) (start stop : ℕ) (xs : List StoredIndex)
    (bs : List DataBlock) (h : StoredHold strict start xs bs stop) : Linked start bs stop := by
  induction h with
  | nil start => exact rfl
  | cons start x xs bs rest stop hlink hindex hrest ih =>
    exact (linked_append_iff bs rest _ _).mpr ⟨x.stop, hlink, ih⟩

theorem storedHold_snoc (strict : Prop) (start mid : ℕ) (xs : List StoredIndex)
    (bl bs : List DataBlock) (x : StoredIndex) (h : StoredHold strict start xs bl mid)
    (hlink : Linked mid bs x.stop) (hindex : Indexes strict x.entries bs) :
    StoredHold strict start (xs ++ [x]) (bl ++ bs) x.stop := by
  induction h with
  | nil start =>
    have hc := StoredHold.cons start x [] bs [] x.stop hlink hindex (.nil _)
    rwa [List.append_nil] at hc
  | cons start y ys bs' rest stop hlink' hindex' hrest ih =>
    rw [List.append_assoc]
    exact .cons start y (ys ++ [x]) bs' (rest ++ bs) x.stop hlink' hindex' (ih hlink)

theorem storedHold_le (strict : Prop) (start stop : ℕ) (xs : List StoredIndex)
    (bs : List DataBlock) (h : StoredHold strict start xs bs stop) :
    ∀ x ∈ xs, start ≤ x.stop ∧ x.stop ≤ stop := by
  induction h with
  | nil start => intro x hx; contradiction
  | cons start x xs bs rest stop hlink hindex hrest ih =>
    have hstart := linked_stop bs start x.stop hlink
    have hstop := linked_stop rest x.stop stop (storedHold_linked _ _ _ _ _ hrest)
    intro y hy
    rcases List.mem_cons.mp hy with rfl | hy
    · omega
    · have hle := ih y hy
      omega

theorem storedHold_indexable (strict : Prop) (start stop : ℕ) (xs : List StoredIndex)
    (bs : List DataBlock) (h : StoredHold strict start xs bs stop) : ∀ b ∈ bs, Indexable b := by
  induction h with
  | nil start => exact fun b hb => by contradiction
  | cons start x xs bs rest stop hlink hindex hrest ih =>
    intro b hb
    rcases List.mem_append.mp hb with hb | hb
    · exact hindex.indexable b hb
    · exact ih b hb

/-- The files that end before an offset are the first ones. -/
theorem storedHold_filter (strict : Prop) (start stop limit : ℕ) (xs : List StoredIndex)
    (bs : List DataBlock) (h : StoredHold strict start xs bs stop) :
    ∃ bl br, bs = bl ++ br ∧ StoredHold strict start
      (xs.filter fun index => !decide (index.stop ≥ limit)) bl
      (((xs.filter fun index => !decide (index.stop ≥ limit)).getLast?.map
        StoredIndex.stop).getD start) := by
  induction h with
  | nil start => exact ⟨[], [], rfl, .nil start⟩
  | cons start x xs bs rest stop hlink hindex hrest ih =>
    by_cases hx : x.stop ≥ limit
    · have hnone : (x :: xs).filter (fun index => !decide (index.stop ≥ limit)) = [] := by
        rw [List.filter_eq_nil_iff]
        intro y hy
        rcases List.mem_cons.mp hy with rfl | hy
        · simpa using hx
        · have hle := storedHold_le _ _ _ _ _ hrest y hy
          simp only [ge_iff_le, Bool.not_eq_eq_eq_not, Bool.not_true, decide_eq_false_iff_not,
            not_le]
          omega
      rw [hnone]
      exact ⟨[], bs ++ rest, rfl, .nil start⟩
    · obtain ⟨bl, br, rfl, hkept⟩ := ih
      have hcons : (x :: xs).filter (fun index => !decide (index.stop ≥ limit)) =
          x :: xs.filter fun index => !decide (index.stop ≥ limit) := by
        rw [List.filter_cons_of_pos (by simpa using hx)]
      rw [hcons]
      refine ⟨bs ++ bl, br, by rw [List.append_assoc], ?_⟩
      have hlast : ((x :: xs.filter fun index => !decide (index.stop ≥ limit)).getLast?.map
          StoredIndex.stop).getD start =
          ((xs.filter fun index => !decide (index.stop ≥ limit)).getLast?.map
            StoredIndex.stop).getD x.stop := by
        rw [List.getLast?_cons]
        cases (xs.filter fun index => !decide (index.stop ≥ limit)).getLast? <;> rfl
      rw [hlast]
      exact .cons start x _ bs bl _ hlink hindex hkept

/-- The whole index: the files, then the map in memory, up to the end of the chain. -/
structure IndexHolds (strict : Prop) (i : OperationIndex) (blocks : List DataBlock) (stop : ℕ) :
    Prop where
  next : i.nextExpectedOffset = stop
  parts : ∃ stored memory, blocks = stored ++ memory ∧
    StoredHold strict 0 i.storedIndices stored i.memoryOffsetFrom ∧
    Linked i.memoryOffsetFrom memory stop ∧ Indexes strict i.memoryIndex memory

theorem IndexHolds.indexable {strict : Prop} {i : OperationIndex} {blocks : List DataBlock}
    {stop : ℕ} (h : IndexHolds strict i blocks stop) (b : DataBlock) (hb : b ∈ blocks) :
    Indexable b := by
  obtain ⟨-, stored, memory, rfl, hstored, -, hindex⟩ := h
  rcases List.mem_append.mp hb with hb | hb
  · exact storedHold_indexable _ _ _ _ _ hstored b hb
  · exact hindex.indexable b hb

end Exocore.Chain
