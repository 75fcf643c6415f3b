import Exocore.ChainIndexSpec

/-! Indexing a block, re-indexing, truncation and lookup, on the blocks the index holds. -/
namespace Exocore.Chain

open Exocore.Core

/-- The truncation that keeps a strict index strict: it stays in the part in memory, or
there is nothing in memory. -/
def IndexClears (i : OperationIndex) (offset : ℕ) : Prop :=
  offset ≥ i.memoryOffsetFrom ∨ i.memoryIndex = .empty

instance (i : OperationIndex) (offset : ℕ) : Decidable (IndexClears i offset) :=
  decidable_of_iff (offset ≥ i.memoryOffsetFrom ∨ i.memoryIndex.entries = [])
    (or_congr_right (SortedMap.Map.eq_empty_iff i.memoryIndex).symm)

variable [Crates]

/-- The map after the ids of one more block were put in it. -/
theorem indexes_insert (strict : Prop) (m m' : SortedMap.Map ℕ ℕ) (bs : List DataBlock)
    (b : DataBlock) (h : Indexes strict m bs) (hb : Indexable b)
    (hin : ∀ id, HasOperation b id → m'.get id = some b.offset)
    (hout : ∀ id, ¬ HasOperation b id → m'.get id = m.get id) :
    Indexes strict m' (bs ++ [b]) := by
  refine ⟨?_, ?_, ?_⟩
  · intro c hc id hid
    by_cases hhas : HasOperation b id
    · rw [hin id hhas]
      simp
    · rw [hout id hhas]
      rcases List.mem_append.mp hc with hc | hc
      · exact h.covers c hc id hid
      · rw [List.mem_singleton.mp hc] at hid
        exact absurd hid hhas
  · intro hstrict id offset hget
    by_cases hhas : HasOperation b id
    · rw [hin id hhas] at hget
      exact ⟨b, by simp, Option.some.inj hget, hhas⟩
    · rw [hout id hhas] at hget
      obtain ⟨c, hc, hoff, hid⟩ := h.sound hstrict id offset hget
      exact ⟨c, List.mem_append_left _ hc, hoff, hid⟩
  · intro c hc
    rcases List.mem_append.mp hc with hc | hc
    · exact h.indexable c hc
    · rw [List.mem_singleton.mp hc]
      exact hb

theorem maybeFlushToDisk_holds (config : DirectoryChainStoreConfig) (strict : Prop)
    (i : OperationIndex) (blocks : List DataBlock) (stop : ℕ) (h : IndexHolds strict i blocks stop) :
    IndexHolds strict (i.maybeFlushToDisk config) blocks stop := by
  rw [OperationIndex.maybeFlushToDisk]
  split_ifs with hflush
  · obtain ⟨hnext, stored, memory, rfl, hstored, hmemory, hindex⟩ := h
    refine ⟨hnext, stored ++ memory, [], by rw [List.append_nil], ?_, ?_, indexes_empty strict⟩
    · exact storedHold_snoc strict 0 i.memoryOffsetFrom _ stored memory
        ⟨i.memoryOffsetFrom, i.nextExpectedOffset, i.memoryIndex⟩ hstored
        (by rw [hnext]; exact hmemory) hindex
    · exact hnext
  · exact h

theorem indexBlock_holds (config : DirectoryChainStoreConfig) (strict : Prop) (i : OperationIndex)
    (blocks : List DataBlock) (b : DataBlock) (stop : ℕ) (h : IndexHolds strict i blocks stop)
    (hb : Indexable b) (hoff : b.offset = stop) :
    ∃ i', i.indexBlock config b = (.ok (), i') ∧
      IndexHolds strict i' (blocks ++ [b]) b.nextOffset := by
  obtain ⟨hnext, stored, memory, rfl, hstored, hmemory, hindex⟩ := h
  have hindexable := hb
  obtain ⟨frames, hframes, hread⟩ := hb
  obtain ⟨headers, hheaders, hiter⟩ := (bind_eq_ok_iff _ _ _).mp hframes
  obtain ⟨header, hheader, hlist⟩ := (bind_eq_ok_iff _ _ _).mp hheaders
  rw [DataBlock.headerReader, orError_eq_ok_iff] at hheader
  rw [orError_eq_ok_iff] at hlist
  obtain ⟨m, hloop, hin, hout⟩ := indexOperations_eq b.operationsData b.offset headers frames hiter
    hread (i.putOperationBlock header.proposedOperationId b.offset)
  have hhas (id : ℕ) :
      HasOperation b id ↔ header.proposedOperationId = id ∨ FramesHave frames id := by
    simp only [HasOperation, hheader, Option.some.injEq, exists_eq_left', hframes, Except.ok.injEq,
      FramesHave]
  set i₁ : OperationIndex := { i with memoryIndex := m, nextExpectedOffset := b.nextOffset }
  refine ⟨i₁.maybeFlushToDisk config, ?_, maybeFlushToDisk_holds config strict i₁ _ _
    ⟨rfl, stored, memory ++ [b], by rw [List.append_assoc], hstored, ?_, ?_⟩⟩
  · have hsame : ¬ i.nextExpectedOffset ≠ b.offset := by
      rw [hnext, hoff]
      simp
    simp only [OperationIndex.indexBlock, if_neg hsame, hheader, hlist, hloop]
    rfl
  · exact (linked_append_iff memory [b] _ _).mpr ⟨stop, hmemory, hoff, rfl⟩
  · apply indexes_insert strict i.memoryIndex m memory b hindex hindexable
    · intro id hid
      by_cases hframe : FramesHave frames id
      · exact hin id hframe
      · rw [hout id hframe]
        rcases (hhas id).mp hid with rfl | hbad
        · simp [OperationIndex.putOperationBlock]
        · exact absurd hbad hframe
    · intro id hid
      rw [hhas, not_or] at hid
      rw [hout id hid.2]
      simp [OperationIndex.putOperationBlock, Ne.symm hid.1]

/-- Re-indexing runs over the blocks that follow the part already indexed. -/
theorem indexBlocks_holds (config : DirectoryChainStoreConfig) (strict : Prop)
    (i : OperationIndex) (l r : List DataBlock) (mid stop : ℕ) (h : IndexHolds strict i l mid)
    (hlink : Linked mid r stop) (hread : ∀ b ∈ r, Indexable b) :
    ∃ i', i.indexBlocks config (r.map .ok) = (.ok (), i') ∧ IndexHolds strict i' (l ++ r) stop := by
  induction r generalizing i l mid with
  | nil =>
    obtain rfl : mid = stop := hlink
    exact ⟨i, rfl, by rwa [List.append_nil]⟩
  | cons b r ih =>
    obtain ⟨hoff, hrest⟩ := hlink
    obtain ⟨i₁, hblock, hi₁⟩ := indexBlock_holds config strict i l b mid h
      (hread b List.mem_cons_self) hoff
    obtain ⟨i', hloop, hi'⟩ := ih i₁ (l ++ [b]) b.nextOffset hi₁ hrest
      fun c hc => hread c (List.mem_cons_of_mem _ hc)
    refine ⟨i', ?_, by rwa [List.append_assoc] at hi'⟩
    have hge : b.offset ≥ i.memoryOffsetFrom := by
      obtain ⟨-, stored, memory, -, -, hmemory, -⟩ := h
      have hstop := linked_stop memory _ _ hmemory
      omega
    rw [List.map_cons, OperationIndex.indexBlocks, if_pos hge, hblock]
    exact hloop

/-- The index is cut at a boundary at or before the offset, to be rebuilt from there. -/
theorem index_truncate_holds (strict : Prop) (i : OperationIndex) (l r : List DataBlock)
    (b : DataBlock) (stop : ℕ) (h : IndexHolds strict i (l ++ b :: r) stop)
    (hl : Linked 0 l b.offset) (hpos : ∀ c ∈ l ++ b :: r, 0 < c.totalSize)
    (hclear : strict → IndexClears i b.offset) :
    ∃ kept cut, l = kept ++ cut ∧ IndexHolds strict (i.truncateFromOffset b.offset) kept
      (i.truncateFromOffset b.offset).nextExpectedOffset := by
  obtain ⟨-, stored, memory, hsplit, hstored, hmemory, hindex⟩ := h
  have hlinked := storedHold_linked _ _ _ _ _ hstored
  rw [OperationIndex.truncateFromOffset]
  split_ifs with hge
  · obtain ⟨cut, rfl⟩ := linked_front stored memory l r b _ hsplit.symm hlinked hl hge
      (by rw [← hsplit]; exact hpos)
    exact ⟨stored, cut, rfl, rfl, stored, [], by rw [List.append_nil], hstored, rfl,
      indexes_empty strict⟩
  · obtain ⟨kept, dropped, rfl, hkept⟩ := storedHold_filter strict 0 i.memoryOffsetFrom b.offset
      _ stored hstored
    have hle : ((i.storedIndices.filter fun index => !decide (index.stop ≥ b.offset)).getLast?.map
        StoredIndex.stop).getD 0 ≤ b.offset := by
      cases hlast : (i.storedIndices.filter fun index => !decide (index.stop ≥ b.offset)).getLast? with
      | none => simp
      | some x =>
        have hmem := List.mem_of_getLast? hlast
        have hx := (List.mem_filter.mp hmem).2
        simp only [ge_iff_le, Bool.not_eq_eq_eq_not, Bool.not_true, decide_eq_false_iff_not,
          not_le] at hx
        simp only [Option.map_some, Option.getD_some]
        omega
    obtain ⟨cut, rfl⟩ := linked_front kept (dropped ++ memory) l r b _
      (by rw [hsplit, List.append_assoc]) (storedHold_linked _ _ _ _ _ hkept) hl hle
      (by rw [← List.append_assoc, ← hsplit]; exact hpos)
    refine ⟨kept, cut, rfl, rfl, kept, [], by rw [List.append_nil], hkept, rfl, ?_⟩
    refine ⟨fun c hc => by contradiction, fun hstrict id offset hget => ?_,
      fun c hc => by contradiction⟩
    rcases hclear hstrict with hbad | hempty
    · exact absurd hbad hge
    · rw [hempty] at hget
      simp at hget

theorem storedHold_find_sound (start stop : ℕ) (xs : List StoredIndex) (bs : List DataBlock)
    (h : StoredHold True start xs bs stop) (id offset : ℕ)
    (hget : (xs.findSome? fun index => index.entries.get id) = some offset) :
    ∃ b ∈ bs, b.offset = offset ∧ HasOperation b id := by
  induction h with
  | nil start => simp at hget
  | cons start x xs bs rest stop hlink hindex hrest ih =>
    rw [List.findSome?_cons] at hget
    cases hx : x.entries.get id with
    | some o =>
      rw [hx] at hget
      obtain ⟨b, hb, hoff, hid⟩ := hindex.sound trivial id o hx
      exact ⟨b, List.mem_append_left _ hb, by rw [hoff]; exact Option.some.inj hget, hid⟩
    | none =>
      rw [hx] at hget
      obtain ⟨b, hb, hrest'⟩ := ih hget
      exact ⟨b, List.mem_append_right _ hb, hrest'⟩

theorem storedHold_find_complete (strict : Prop) (start stop : ℕ) (xs : List StoredIndex)
    (bs : List DataBlock) (h : StoredHold strict start xs bs stop) (id : ℕ) (b : DataBlock)
    (hb : b ∈ bs) (hid : HasOperation b id) :
    (xs.findSome? fun index => index.entries.get id) ≠ none := by
  induction h with
  | nil start => contradiction
  | cons start x xs bs rest stop hlink hindex hrest ih =>
    rw [List.findSome?_cons]
    cases hx : x.entries.get id with
    | some o => simp
    | none =>
      rcases List.mem_append.mp hb with hb | hb
      · exact absurd hx (hindex.covers b hb id hid)
      · exact ih hb

/-- A strict index finds a block of the chain that has the operation. -/
theorem getOperationBlock_sound (i : OperationIndex) (blocks : List DataBlock) (stop id offset : ℕ)
    (h : IndexHolds True i blocks stop) (hget : i.getOperationBlock id = some offset) :
    ∃ b ∈ blocks, b.offset = offset ∧ HasOperation b id := by
  obtain ⟨-, stored, memory, rfl, hstored, -, hindex⟩ := h
  rw [OperationIndex.getOperationBlock] at hget
  cases hm : i.memoryIndex.get id with
  | some o =>
    rw [hm] at hget
    obtain ⟨b, hb, hoff, hid⟩ := hindex.sound trivial id o hm
    exact ⟨b, List.mem_append_right _ hb, by rw [hoff]; exact Option.some.inj hget, hid⟩
  | none =>
    rw [hm] at hget
    obtain ⟨b, hb, hrest⟩ := storedHold_find_sound _ _ _ _ hstored id offset hget
    exact ⟨b, List.mem_append_left _ hb, hrest⟩

/-- Whatever the index, an operation of the chain is found. -/
theorem getOperationBlock_complete (strict : Prop) (i : OperationIndex) (blocks : List DataBlock)
    (stop id : ℕ) (h : IndexHolds strict i blocks stop) (b : DataBlock) (hb : b ∈ blocks)
    (hid : HasOperation b id) : i.getOperationBlock id ≠ none := by
  obtain ⟨-, stored, memory, rfl, hstored, -, hindex⟩ := h
  rw [OperationIndex.getOperationBlock]
  cases hm : i.memoryIndex.get id with
  | some o => simp
  | none =>
    rcases List.mem_append.mp hb with hb | hb
    · exact storedHold_find_complete _ _ _ _ _ hstored id b hb hid
    · exact absurd hm (hindex.covers b hb id hid)

end Exocore.Chain
