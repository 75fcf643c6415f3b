import Mathlib.Tactic

/-! A sequence that is read in chunks which are not empty: single reads with a buffer, and reads
that go on until their buffer is full. -/
namespace Chunks

variable {α : Type}

structure Chunk (α : Type) where
  items : List α
  nonempty : items ≠ []

def ofList : List α → List (Chunk α)
  | [] => []
  | a :: rest => [⟨a :: rest, List.cons_ne_nil a rest⟩]

/-- The items of the chunks, one chunk after the other. -/
def items (chunks : List (Chunk α)) : List α := chunks.flatMap Chunk.items

@[simp] theorem items_nil : items ([] : List (Chunk α)) = [] := rfl

@[simp] theorem items_cons (c : Chunk α) (chunks : List (Chunk α)) :
    items (c :: chunks) = c.items ++ items chunks := rfl

@[simp] theorem items_append (l r : List (Chunk α)) : items (l ++ r) = items l ++ items r :=
  List.flatMap_append

@[simp] theorem items_ofList (l : List α) : items (ofList l) = l := by
  cases l with
  | nil => rfl
  | cons a rest => exact List.append_nil (a :: rest)

theorem items_eq_nil_iff (chunks : List (Chunk α)) : items chunks = [] ↔ chunks = [] := by
  cases chunks with
  | nil => exact iff_of_true rfl rfl
  | cons c rest =>
    refine iff_of_false ?_ (List.cons_ne_nil c rest)
    intro hnil
    exact c.nonempty (List.append_eq_nil_iff.mp hnil).1

/-- One read with a buffer of that size: what of the first chunk fits in. -/
def read (size : ℕ) : List (Chunk α) → List α × List (Chunk α)
  | [] => ([], [])
  | c :: rest => (c.items.take size, ofList (c.items.drop size) ++ rest)

theorem read_items (size : ℕ) (chunks : List (Chunk α)) :
    (read size chunks).1 ++ items (read size chunks).2 = items chunks := by
  cases chunks with
  | nil => rfl
  | cons c rest =>
    rw [read, items_append, items_ofList, ← List.append_assoc, List.take_append_drop]
    rfl

/-- Only at the end of the chunks a read gives nothing. -/
theorem read_ne_nil {size : ℕ} (hsize : 0 < size) (c : Chunk α) (rest : List (Chunk α)) :
    (read size (c :: rest)).1 ≠ [] := by
  intro hnil
  rcases List.take_eq_nil_iff.mp hnil with hzero | hempty
  · omega
  · exact c.nonempty hempty

/-- Reads until there are this many items, none where the chunks end before. -/
def readExact : ℕ → List (Chunk α) → Option (List α × List (Chunk α))
  | 0, chunks => some ([], chunks)
  | _ + 1, [] => none
  | size + 1, c :: rest =>
    if size + 1 ≤ c.items.length then some (read (size + 1) (c :: rest))
    else (readExact (size + 1 - c.items.length) rest).map fun r => (c.items ++ r.1, r.2)

/-- However the items are cut into chunks, the read gives the same. -/
theorem readExact_items (size : ℕ) (chunks : List (Chunk α)) (h : size ≤ (items chunks).length) :
    ∃ rest, readExact size chunks = some ((items chunks).take size, rest) ∧
      items rest = (items chunks).drop size := by
  induction chunks generalizing size with
  | nil =>
    obtain rfl : size = 0 := Nat.le_zero.mp h
    exact ⟨[], rfl, rfl⟩
  | cons c rest ih =>
    cases size with
    | zero => exact ⟨c :: rest, rfl, rfl⟩
    | succ size =>
      rw [readExact, items_cons]
      by_cases hfits : size + 1 ≤ c.items.length
      · refine ⟨(read (size + 1) (c :: rest)).2, ?_, ?_⟩
        · rw [if_pos hfits, List.take_append_of_le_length hfits]
          rfl
        · rw [read, items_append, items_ofList, List.drop_append_of_le_length hfits]
      · have hmore : c.items.length ≤ size + 1 := by omega
        have hrest : size + 1 - c.items.length ≤ (items rest).length := by
          rw [items_cons, List.length_append] at h
          omega
        obtain ⟨rest', hread, hitems⟩ := ih _ hrest
        refine ⟨rest', ?_, ?_⟩
        · rw [if_neg hfits, hread, List.take_append, List.take_of_length_le hmore]
          rfl
        · rw [hitems, List.drop_append, List.drop_of_length_le hmore, List.nil_append]

theorem readExact_append (l r : List α) (chunks : List (Chunk α)) (h : items chunks = l ++ r) :
    ∃ rest, readExact l.length chunks = some (l, rest) ∧ items rest = r := by
  have hlength : l.length ≤ (items chunks).length := by
    rw [h, List.length_append]
    omega
  obtain ⟨rest, hread, hitems⟩ := readExact_items l.length chunks hlength
  rw [h, List.take_left] at hread
  rw [h, List.drop_left] at hitems
  exact ⟨rest, hread, hitems⟩

end Chunks
