import Exocore.LibRun

/-! The file in memory, and the file that it stands for: an array of bytes with a cursor for each
handle. -/
namespace Exocore.Core.Dir

inductive SeekFrom where
  | start (pos : UInt64)
  | fromEnd (pos : Int64)
  | current (pos : Int64)

/-- A call on a handle. A read takes the length of its buffer. -/
inductive FileCall where
  | read (length : ℕ)
  | write (buf : List UInt8)
  | seek (pos : SeekFrom)

inductive Outcome where
  | read (bytes : List UInt8)
  | wrote (count : ℕ)
  | position (pos : ℕ)
  | error
  | panic
deriving DecidableEq

/-- Where a seek goes, as a number without bounds. -/
def SeekFrom.target (length cursor : ℕ) : SeekFrom → ℤ
  | .start pos => pos.toNat
  | .fromEnd pos => length + pos.toInt
  | .current pos => cursor + pos.toInt

/-- A file of the operating system: bytes, and a cursor for each handle. -/
structure ByteFile where
  bytes : List UInt8
  cursors : ℕ → ℕ

namespace ByteFile

/-- The gap before a write behind the end is filled with zeros. An empty write does nothing. -/
def writeAt (bytes : List UInt8) (cursor : ℕ) (buf : List UInt8) : List UInt8 :=
  if buf = [] then bytes
  else (bytes.rightpad cursor 0).take cursor ++ buf ++ bytes.drop (cursor + buf.length)

def step (s : ByteFile) : ℕ × FileCall → Outcome × ByteFile
  | (handle, .read length) =>
    let bytes := (s.bytes.drop (s.cursors handle)).take length
    (.read bytes,
      { s with cursors := Function.update s.cursors handle (s.cursors handle + bytes.length) })
  | (handle, .write buf) =>
    (.wrote buf.length, ⟨writeAt s.bytes (s.cursors handle) buf,
      Function.update s.cursors handle (s.cursors handle + buf.length)⟩)
  | (handle, .seek pos) =>
    let target := pos.target s.bytes.length (s.cursors handle)
    if target < 0 then (.error, s)
    else (.position target.toNat,
      { s with cursors := Function.update s.cursors handle target.toNat })

end ByteFile

def isizeMax : ℕ := 2^63 - 1

/-- The bytes of a vector, which are never more than `isize` counts. -/
structure ByteVec where
  bytes : List UInt8
  fits : bytes.length ≤ isizeMax

def ByteVec.push (data : ByteVec) (byte : UInt8) : Option ByteVec :=
  if h : (data.bytes ++ [byte]).length ≤ isizeMax then some ⟨data.bytes ++ [byte], h⟩ else none

def ByteVec.set (data : ByteVec) (i : ℕ) (byte : UInt8) : ByteVec :=
  ⟨data.bytes.set i byte, by rw [List.length_set]; exact data.fits⟩

/-- A sum of words. Where overflow is checked, one that does not fit panics. -/
def wordAdd (overflowChecks : Bool) (a b : ℕ) : Option ℕ :=
  if a + b < 2^64 then some (a + b)
  else if overflowChecks then none
  else some ((a + b) % 2^64)

def asI64 (n : ℕ) : ℤ := Int.bmod n (2^64)

def asU64 (x : ℤ) : ℕ := (x % 2^64).toNat

def FitsI64 (x : ℤ) : Prop := -2^63 ≤ x ∧ x < 2^63

instance (x : ℤ) : Decidable (FitsI64 x) := inferInstanceAs (Decidable (_ ∧ _))

def i64Add (overflowChecks : Bool) (a b : ℤ) : Option ℤ :=
  if FitsI64 (a + b) then some (a + b)
  else if overflowChecks then none
  else some ((a + b).bmod (2^64))

/-- The data that the handles share, under its lock. A panic during a write poisons the lock. -/
structure RamFileData where
  bytes : ByteVec
  poisoned : Bool

namespace RamFile

def read (data : RamFileData) (cursor length : ℕ) : Outcome × ℕ :=
  if data.poisoned then (.panic, cursor)
  else if data.bytes.bytes.length ≤ cursor then (.read [], cursor)
  else
    let upTo := min (cursor + length) data.bytes.bytes.length
    let bytes := (data.bytes.bytes.take upTo).drop cursor
    (.read bytes, cursor + bytes.length)

def seekPosition (overflowChecks : Bool) (length cursor : ℕ) : SeekFrom → Option ℕ
  | .start pos => some pos.toNat
  | .fromEnd pos => (i64Add overflowChecks (asI64 length) pos.toInt).map asU64
  | .current pos => (i64Add overflowChecks (asI64 cursor) pos.toInt).map asU64

def seek (overflowChecks : Bool) (data : RamFileData) (cursor : ℕ) (pos : SeekFrom) :
    Outcome × ℕ :=
  if data.poisoned then (.panic, cursor)
  else match seekPosition overflowChecks data.bytes.bytes.length cursor pos with
    | none => (.panic, cursor)
    | some pos => (.position pos, pos)

/-- The loop over the buffer, with whether it reached the end. -/
def writeFrom (overflowChecks : Bool) (cursor : ℕ) : ℕ → List UInt8 → ByteVec → ByteVec × Bool
  | _, [], data => (data, true)
  | i, byte :: buf, data => match wordAdd overflowChecks cursor i with
    | none => (data, false)
    | some at' =>
      if data.bytes.length ≤ at' then match data.push byte with
        | none => (data, false)
        | some data => writeFrom overflowChecks cursor (i + 1) buf data
      else writeFrom overflowChecks cursor (i + 1) buf (data.set at' byte)

def write (overflowChecks : Bool) (data : RamFileData) (cursor : ℕ) (buf : List UInt8) :
    Outcome × RamFileData × ℕ :=
  if data.poisoned then (.panic, data, cursor)
  else match writeFrom overflowChecks cursor 0 buf data.bytes with
    | (bytes, false) => (.panic, ⟨bytes, true⟩, cursor)
    | (bytes, true) => match wordAdd overflowChecks cursor buf.length with
      | none => (.panic, ⟨bytes, true⟩, cursor)
      | some cursor => (.wrote buf.length, ⟨bytes, false⟩, cursor)

end RamFile

/-- The handles on one file in memory. -/
structure RamFiles where
  data : RamFileData
  cursors : ℕ → ℕ

def RamFiles.new (bytes : ByteVec) : RamFiles := ⟨⟨bytes, false⟩, fun _ => 0⟩

def RamFiles.step (overflowChecks : Bool) (s : RamFiles) : ℕ × FileCall → Outcome × RamFiles
  | (handle, .read length) =>
    let (outcome, cursor) := RamFile.read s.data (s.cursors handle) length
    (outcome, { s with cursors := Function.update s.cursors handle cursor })
  | (handle, .write buf) =>
    let (outcome, data, cursor) := RamFile.write overflowChecks s.data (s.cursors handle) buf
    (outcome, ⟨data, Function.update s.cursors handle cursor⟩)
  | (handle, .seek pos) =>
    let (outcome, cursor) := RamFile.seek overflowChecks s.data (s.cursors handle) pos
    (outcome, { s with cursors := Function.update s.cursors handle cursor })

/-- The signed sum that a seek makes fits its word. -/
def SeekFrom.Sums (length cursor : ℕ) : SeekFrom → Prop
  | .start _ => True
  | .fromEnd pos => FitsI64 (length + pos.toInt)
  | .current pos => FitsI64 (asI64 cursor + pos.toInt)

/-- A write starts at the end or before it and stays within what a vector holds, and a seek stays
within a word. Where overflow is checked, so does the signed sum. -/
def Within (overflowChecks : Bool) (s : RamFiles) : ℕ × FileCall → Prop
  | (_, .read _) => True
  | (handle, .write buf) => buf = [] ∨
    s.cursors handle ≤ s.data.bytes.bytes.length ∧ s.cursors handle + buf.length ≤ isizeMax
  | (handle, .seek pos) =>
    let target := pos.target s.data.bytes.bytes.length (s.cursors handle)
    0 ≤ target ∧ target < 2^64 ∧
      (overflowChecks = true → pos.Sums s.data.bytes.bytes.length (s.cursors handle))

theorem wordAdd_of_lt (overflowChecks : Bool) (a b : ℕ) (h : a + b < 2^64) :
    wordAdd overflowChecks a b = some (a + b) := if_pos h

theorem isizeMax_lt : isizeMax < 2^64 := by decide

theorem ByteVec.push_eq_some_iff (data data' : ByteVec) (byte : UInt8) :
    data.push byte = some data' ↔ data'.bytes = data.bytes ++ [byte] := by
  unfold ByteVec.push
  constructor
  · intro h
    split at h
    · rw [← Option.some.inj h]
    · cases h
  · intro h
    have hfits := data'.fits
    rw [h] at hfits
    rw [dif_pos hfits]
    exact congrArg some (by cases data'; simp_all)

theorem push_isSome (data : ByteVec) (byte : UInt8) (h : data.bytes.length < isizeMax) :
    ∃ data', data.push byte = some data' ∧ data'.bytes = data.bytes ++ [byte] := by
  have hfits : (data.bytes ++ [byte]).length ≤ isizeMax := by
    rw [List.length_append, List.length_singleton]
    omega
  exact ⟨⟨data.bytes ++ [byte], hfits⟩, dif_pos hfits, rfl⟩

section Write

variable (overflowChecks : Bool) (cursor : ℕ)

/-- From the end or before it, the loop puts the buffer over what is there. -/
theorem writeFrom_bytes (i : ℕ) (buf : List UInt8) (data : ByteVec)
    (hle : cursor + i ≤ data.bytes.length)
    (hend : (RamFile.writeFrom overflowChecks cursor i buf data).2 = true) :
    (RamFile.writeFrom overflowChecks cursor i buf data).1.bytes =
      data.bytes.take (cursor + i) ++ buf ++ data.bytes.drop (cursor + i + buf.length) := by
  induction buf generalizing i data with
  | nil => simp [RamFile.writeFrom]
  | cons byte buf ih =>
    have hfits := data.fits
    have hlt := isizeMax_lt
    have hword := wordAdd_of_lt overflowChecks cursor i (by omega)
    simp only [RamFile.writeFrom, hword] at hend ⊢
    by_cases hat : data.bytes.length ≤ cursor + i
    · have hat : cursor + i = data.bytes.length := by omega
      rw [if_pos (by omega)] at hend ⊢
      cases hpush : data.push byte with
      | none =>
        rw [hpush] at hend
        cases hend
      | some data' =>
        have hbytes := (ByteVec.push_eq_some_iff data data' byte).mp hpush
        rw [hpush] at hend
        have hlength : data'.bytes.length = cursor + i + 1 := by
          rw [hbytes, List.length_append, List.length_singleton, hat]
        have hnext := ih (i + 1) data' (by omega) hend
        rw [List.take_of_length_le (by omega), List.drop_eq_nil_of_le (by omega), hbytes] at hnext
        rw [List.take_of_length_le (by omega),
          List.drop_eq_nil_of_le (by rw [List.length_cons]; omega)]
        simp only [hnext, List.append_assoc, List.append_nil, List.singleton_append]
    · rw [if_neg hat] at hend ⊢
      have hlt : cursor + i < data.bytes.length := by omega
      rw [ih (i + 1) (data.set (cursor + i) byte) (by simp [ByteVec.set]; omega) hend]
      have htake : (data.bytes.set (cursor + i) byte).take (cursor + i + 1) =
          data.bytes.take (cursor + i) ++ [byte] := by
        rw [List.set_eq_take_append_cons_drop, if_pos hlt]
        simp [List.take_append, Nat.min_eq_left (le_of_lt hlt)]
      have hdrop : (data.bytes.set (cursor + i) byte).drop (cursor + i + 1 + buf.length) =
          data.bytes.drop (cursor + i + 1 + buf.length) :=
        List.drop_set_of_lt (by omega)
      simp only [ByteVec.set, ← add_assoc, htake, hdrop, List.length_cons]
      simp [Nat.add_assoc, Nat.add_comm 1]

theorem writeFrom_ends (i : ℕ) (buf : List UInt8) (data : ByteVec)
    (hle : cursor + i ≤ data.bytes.length) (hfit : cursor + i + buf.length ≤ isizeMax) :
    (RamFile.writeFrom overflowChecks cursor i buf data).2 = true := by
  induction buf generalizing i data with
  | nil => rfl
  | cons byte buf ih =>
    have hlt := isizeMax_lt
    rw [List.length_cons] at hfit
    simp only [RamFile.writeFrom, wordAdd_of_lt overflowChecks cursor i (by omega)]
    split
    · next hat =>
      obtain ⟨data', hpush, hbytes⟩ := push_isSome data byte (by omega)
      simp only [hpush]
      apply ih (i + 1) data'
      · rw [hbytes, List.length_append, List.length_singleton]
        omega
      · omega
    · next hat =>
      apply ih (i + 1) (data.set (cursor + i) byte)
      · simp only [ByteVec.set, List.length_set]
        omega
      · omega

theorem writeFrom_length_le (i : ℕ) (buf : List UInt8) (data : ByteVec) :
    (RamFile.writeFrom overflowChecks cursor i buf data).1.bytes.length ≤
      data.bytes.length + buf.length := by
  induction buf generalizing i data with
  | nil => exact le_refl _
  | cons byte buf ih =>
    simp only [RamFile.writeFrom, List.length_cons]
    split
    · exact Nat.le_add_right _ _
    · split
      · split
        · exact Nat.le_add_right _ _
        · next data' hpush =>
          have hbytes := (ByteVec.push_eq_some_iff data data' byte).mp hpush
          have hnext := ih (i + 1) data'
          rw [hbytes, List.length_append, List.length_singleton] at hnext
          omega
      · next at' _ _ =>
        have hnext := ih (i + 1) (data.set at' byte)
        have hset : (data.set at' byte).bytes.length = data.bytes.length := List.length_set
        omega

end Write

theorem asI64_of_le (n : ℕ) (h : n ≤ isizeMax) : asI64 n = n := by
  unfold isizeMax at h
  unfold asI64
  apply Int.bmod_eq_of_le
  · omega
  · push_cast
    omega

/-- Where the signed sum does not panic, it is the sum without bounds, modulo the word. -/
theorem i64Add_asI64 (overflowChecks : Bool) (n : ℕ) (pos : ℤ) :
    (i64Add overflowChecks (asI64 n) pos).map asU64 =
      if overflowChecks = true ∧ ¬ FitsI64 (asI64 n + pos) then none
      else some (((n + pos) % 2^64).toNat) := by
  have hmod : (asI64 n + pos) % 2^64 = ((n : ℤ) + pos) % 2^64 := by
    unfold asI64
    rw [Int.add_emod, show ((2 : ℤ)^64) = ((2^64 : ℕ) : ℤ) by norm_num, Int.bmod_emod,
      ← Int.add_emod]
  have hwrap : (asI64 n + pos).bmod (2^64) % 2^64 = ((n : ℤ) + pos) % 2^64 := by
    rw [show ((2 : ℤ)^64) = ((2^64 : ℕ) : ℤ) by norm_num, Int.bmod_emod]
    exact hmod
  unfold i64Add
  by_cases hfits : FitsI64 (asI64 n + pos)
  · rw [if_pos hfits, if_neg (fun h => h.2 hfits), Option.map_some, asU64, hmod]
  · rw [if_neg hfits]
    cases overflowChecks with
    | true => rw [if_pos rfl, if_pos ⟨rfl, hfits⟩, Option.map_none]
    | false =>
      rw [if_neg (by decide), if_neg (fun h => by simp at h), Option.map_some, asU64, hwrap]

/-- A seek whose sum fits, or is not checked, goes to its target modulo the word. -/
theorem seekPosition_of_sums (overflowChecks : Bool) (length cursor : ℕ) (pos : SeekFrom)
    (hlength : length ≤ isizeMax) (hsums : overflowChecks = true → pos.Sums length cursor) :
    RamFile.seekPosition overflowChecks length cursor pos =
      some (pos.target length cursor % 2^64).toNat := by
  cases pos with
  | start pos =>
    have hlt := pos.toNat_lt
    have hmod : (pos.toNat : ℤ) % 2^64 = pos.toNat := by omega
    rw [RamFile.seekPosition, SeekFrom.target, hmod, Int.toNat_natCast]
  | fromEnd pos =>
    have hsum := i64Add_asI64 overflowChecks length pos.toInt
    rw [asI64_of_le length hlength, if_neg (fun h => h.2 (hsums h.1))] at hsum
    rw [RamFile.seekPosition, SeekFrom.target, asI64_of_le length hlength, hsum]
  | current pos =>
    have hsum := i64Add_asI64 overflowChecks cursor pos.toInt
    rw [if_neg (fun h => h.2 (hsums h.1))] at hsum
    rw [RamFile.seekPosition, SeekFrom.target, hsum]

theorem seekPosition_eq_none (length cursor : ℕ) (pos : SeekFrom) (hlength : length ≤ isizeMax)
    (hsums : ¬ pos.Sums length cursor) : RamFile.seekPosition true length cursor pos = none := by
  cases pos with
  | start pos => exact absurd trivial hsums
  | fromEnd pos =>
    have hsum := i64Add_asI64 true length pos.toInt
    rw [asI64_of_le length hlength, if_pos ⟨rfl, hsums⟩] at hsum
    rw [RamFile.seekPosition, asI64_of_le length hlength, hsum]
  | current pos =>
    have hsum := i64Add_asI64 true cursor pos.toInt
    rw [if_pos ⟨rfl, hsums⟩] at hsum
    rw [RamFile.seekPosition, hsum]

def SameBytes (s : RamFiles) (t : ByteFile) : Prop := s.data.bytes.bytes = t.bytes

/-- The file in memory stands for the array of bytes. -/
structure Stands (s : RamFiles) (t : ByteFile) : Prop where
  clean : s.data.poisoned = false
  bytes : SameBytes s t
  cursors : s.cursors = t.cursors
  words : ∀ handle, s.cursors handle < 2^64

/-- Both sides move the cursor of one handle, and agree on what they give out. -/
theorem Stands.moved {s : RamFiles} {t : ByteFile} (hst : Stands s t) (data : RamFileData)
    (bytes : List UInt8) (handle cursor : ℕ) (hdata : data.poisoned = false)
    (hbytes : data.bytes.bytes = bytes) (hcursor : cursor < 2^64) :
    Stands ⟨data, Function.update s.cursors handle cursor⟩
      ⟨bytes, Function.update s.cursors handle cursor⟩ := by
  constructor
  case clean => exact hdata
  case bytes => exact hbytes
  case cursors => rfl
  case words =>
    intro handle'
    dsimp only
    by_cases h : handle' = handle
    · rw [h, Function.update_self]
      exact hcursor
    · rw [Function.update_of_ne h]
      exact hst.words handle'

theorem read_eq (data : RamFileData) (cursor length : ℕ) (hdata : data.poisoned = false) :
    RamFile.read data cursor length = (.read ((data.bytes.bytes.drop cursor).take length),
      cursor + ((data.bytes.bytes.drop cursor).take length).length) := by
  unfold RamFile.read
  rw [if_neg (by rw [hdata]; decide)]
  by_cases hle : data.bytes.bytes.length ≤ cursor
  · rw [if_pos hle, List.drop_eq_nil_of_le hle, List.take_nil, List.length_nil, add_zero]
  · have htake : (data.bytes.bytes.take (min (cursor + length) data.bytes.bytes.length)).drop
        cursor = (data.bytes.bytes.drop cursor).take length := by
      rw [List.take_eq_take_min.symm, List.drop_take]
      congr 1
      omega
    rw [if_neg hle]
    simp only [htake]

theorem step_read (overflowChecks : Bool) (s : RamFiles) (t : ByteFile) (handle length : ℕ)
    (hst : Stands s t) :
    (s.step overflowChecks (handle, .read length)).1 = (t.step (handle, .read length)).1 ∧
      Stands (s.step overflowChecks (handle, .read length)).2
        (t.step (handle, .read length)).2 := by
  have hread := read_eq s.data (s.cursors handle) length hst.clean
  have hbytes : s.data.bytes.bytes = t.bytes := hst.bytes
  have hfits := s.data.bytes.fits
  have hlt := isizeMax_lt
  have hword := hst.words handle
  simp only [RamFiles.step, ByteFile.step, hread, ← hst.cursors, ← hbytes, true_and]
  refine hst.moved s.data s.data.bytes.bytes handle _ hst.clean rfl ?_
  rw [List.length_take, List.length_drop]
  omega

theorem writeAt_of_le (bytes : List UInt8) (cursor : ℕ) (buf : List UInt8)
    (h : cursor ≤ bytes.length) : ByteFile.writeAt bytes cursor buf =
      bytes.take cursor ++ buf ++ bytes.drop (cursor + buf.length) := by
  unfold ByteFile.writeAt
  split
  · next he => rw [he, List.append_nil, List.length_nil, add_zero, List.take_append_drop]
  · rw [List.rightpad, Nat.sub_eq_zero_of_le h, List.replicate_zero, List.append_nil]

theorem writeAt_length (bytes : List UInt8) (cursor : ℕ) (buf : List UInt8) (h : buf ≠ []) :
    (ByteFile.writeAt bytes cursor buf).length = max bytes.length (cursor + buf.length) := by
  unfold ByteFile.writeAt
  rw [if_neg h]
  simp only [List.rightpad, List.length_append, List.length_take, List.length_replicate,
    List.length_drop]
  omega

theorem step_write_within (overflowChecks : Bool) (s : RamFiles) (t : ByteFile) (handle : ℕ)
    (buf : List UInt8) (hst : Stands s t) (hw : Within overflowChecks s (handle, .write buf)) :
    (s.step overflowChecks (handle, .write buf)).1 = (t.step (handle, .write buf)).1 ∧
      Stands (s.step overflowChecks (handle, .write buf)).2
        (t.step (handle, .write buf)).2 := by
  have hbytes : s.data.bytes.bytes = t.bytes := hst.bytes
  have hfits := s.data.bytes.fits
  have hlt := isizeMax_lt
  have hword := hst.words handle
  -- the loop reaches its end, with the bytes of the array
  have hloop : ∃ bytes, RamFile.writeFrom overflowChecks (s.cursors handle) 0 buf s.data.bytes =
      (bytes, true) ∧
      bytes.bytes = ByteFile.writeAt s.data.bytes.bytes (s.cursors handle) buf := by
    rcases hw with hnil | ⟨hle, hmax⟩
    · exact ⟨s.data.bytes, by rw [hnil, RamFile.writeFrom], (if_pos hnil).symm⟩
    · have hend := writeFrom_ends overflowChecks (s.cursors handle) 0 buf s.data.bytes hle hmax
      refine ⟨_, Prod.ext rfl hend, ?_⟩
      rw [writeFrom_bytes overflowChecks (s.cursors handle) 0 buf s.data.bytes hle hend,
        writeAt_of_le _ _ _ hle, add_zero]
  have hsum : s.cursors handle + buf.length < 2^64 := by
    rcases hw with hnil | ⟨_, hmax⟩
    · rw [hnil]
      exact hword
    · omega
  obtain ⟨bytes, hloop, hwritten⟩ := hloop
  have hwrite : RamFile.write overflowChecks s.data (s.cursors handle) buf =
      (.wrote buf.length, ⟨bytes, false⟩, s.cursors handle + buf.length) := by
    unfold RamFile.write
    rw [if_neg (by rw [hst.clean]; decide), hloop]
    simp only [wordAdd_of_lt overflowChecks _ _ hsum]
  simp only [RamFiles.step, ByteFile.step, hwrite, ← hst.cursors, ← hbytes, true_and]
  exact hst.moved ⟨bytes, false⟩ _ handle _ rfl hwritten hsum

/-- A write behind the end leaves no gap, and one that would fill more than a vector panics. -/
theorem step_write_apart (overflowChecks : Bool) (s : RamFiles) (t : ByteFile) (handle : ℕ)
    (buf : List UInt8) (hst : Stands s t) (hw : ¬ Within overflowChecks s (handle, .write buf)) :
    ¬ ((s.step overflowChecks (handle, .write buf)).1 = (t.step (handle, .write buf)).1 ∧
      SameBytes (s.step overflowChecks (handle, .write buf)).2
        (t.step (handle, .write buf)).2) := by
  have hbytes : s.data.bytes.bytes = t.bytes := hst.bytes
  have hnil : buf ≠ [] := fun h => hw (Or.inl h)
  have hpos : 0 < buf.length := List.length_pos_of_ne_nil hnil
  rintro ⟨hout, hsame⟩
  unfold SameBytes at hsame
  simp only [RamFiles.step, ByteFile.step] at hout hsame
  rw [← hbytes, ← hst.cursors] at hsame
  -- a write that has not panicked has come to the end of its loop
  have hend : (RamFile.writeFrom overflowChecks (s.cursors handle) 0 buf s.data.bytes).2 = true ∧
      (RamFile.write overflowChecks s.data (s.cursors handle) buf).2.1.bytes =
        (RamFile.writeFrom overflowChecks (s.cursors handle) 0 buf s.data.bytes).1 := by
    unfold RamFile.write at hout ⊢
    rw [if_neg (by rw [hst.clean]; decide)] at hout ⊢
    cases hloop : RamFile.writeFrom overflowChecks (s.cursors handle) 0 buf s.data.bytes with
    | mk bytes ended =>
      rw [hloop] at hout
      cases ended with
      | false => cases hout
      | true =>
        refine ⟨rfl, ?_⟩
        cases hsum : wordAdd overflowChecks (s.cursors handle) buf.length <;> rfl
  rw [hend.2] at hsame
  have hlength := congrArg List.length hsame
  rw [writeAt_length _ _ _ hnil] at hlength
  have hgrown := writeFrom_length_le overflowChecks (s.cursors handle) 0 buf s.data.bytes
  have hfits := (RamFile.writeFrom overflowChecks (s.cursors handle) 0 buf s.data.bytes).1.fits
  apply hw
  refine Or.inr ⟨?_, ?_⟩
  · omega
  · omega

theorem step_seek_within (overflowChecks : Bool) (s : RamFiles) (t : ByteFile) (handle : ℕ)
    (pos : SeekFrom) (hst : Stands s t) (hw : Within overflowChecks s (handle, .seek pos)) :
    (s.step overflowChecks (handle, .seek pos)).1 = (t.step (handle, .seek pos)).1 ∧
      Stands (s.step overflowChecks (handle, .seek pos)).2
        (t.step (handle, .seek pos)).2 := by
  have hbytes : s.data.bytes.bytes = t.bytes := hst.bytes
  obtain ⟨hpos, hlt, hsums⟩ := hw
  have hmod := Int.emod_eq_of_lt hpos hlt
  have hposition := seekPosition_of_sums overflowChecks s.data.bytes.bytes.length
    (s.cursors handle) pos s.data.bytes.fits hsums
  rw [hmod] at hposition
  have hseek : RamFile.seek overflowChecks s.data (s.cursors handle) pos =
      (.position (pos.target s.data.bytes.bytes.length (s.cursors handle)).toNat,
        (pos.target s.data.bytes.bytes.length (s.cursors handle)).toNat) := by
    unfold RamFile.seek
    rw [if_neg (by rw [hst.clean]; decide), hposition]
  simp only [RamFiles.step, ByteFile.step, hseek, ← hst.cursors, ← hbytes, if_neg (not_lt.mpr hpos),
    true_and]
  refine hst.moved s.data s.data.bytes.bytes handle _ hst.clean rfl ?_
  omega

/-- A seek to a negative position succeeds. -/
theorem step_seek_apart (overflowChecks : Bool) (s : RamFiles) (t : ByteFile) (handle : ℕ)
    (pos : SeekFrom) (hst : Stands s t) (hw : ¬ Within overflowChecks s (handle, .seek pos)) :
    (s.step overflowChecks (handle, .seek pos)).1 ≠ (t.step (handle, .seek pos)).1 := by
  have hbytes : s.data.bytes.bytes = t.bytes := hst.bytes
  have hspec : (t.step (handle, .seek pos)).1 =
      if pos.target s.data.bytes.bytes.length (s.cursors handle) < 0 then .error
      else .position (pos.target s.data.bytes.bytes.length (s.cursors handle)).toNat := by
    simp only [ByteFile.step, ← hst.cursors, ← hbytes]
    split_ifs <;> rfl
  intro hout
  rw [hspec] at hout
  simp only [RamFiles.step, RamFile.seek] at hout
  rw [if_neg (by rw [hst.clean]; decide)] at hout
  by_cases hsums : overflowChecks = true →
      pos.Sums s.data.bytes.bytes.length (s.cursors handle)
  · rw [seekPosition_of_sums overflowChecks _ _ pos s.data.bytes.fits hsums] at hout
    dsimp only at hout
    by_cases hneg : pos.target s.data.bytes.bytes.length (s.cursors handle) < 0
    · rw [if_pos hneg] at hout
      cases hout
    · rw [if_neg hneg] at hout
      have hposition := Outcome.position.inj hout
      exact hw ⟨by omega, by omega, hsums⟩
  · obtain ⟨hchecks, hover⟩ := Classical.not_imp.mp hsums
    rw [hchecks, seekPosition_eq_none _ _ pos s.data.bytes.fits hover] at hout
    dsimp only at hout
    split_ifs at hout

/-- The file in memory is an array of bytes with a cursor for each handle, exactly as long as no
write starts behind the end and no seek leaves the positions there are. -/
theorem ramFile_refines_iff (overflowChecks : Bool) (bytes : ByteVec)
    (calls : List (ℕ × FileCall)) :
    (∀ before after, calls = before ++ after →
      Run.outputs (RamFiles.step overflowChecks) (RamFiles.new bytes) before =
          Run.outputs ByteFile.step ⟨bytes.bytes, fun _ => 0⟩ before ∧
        SameBytes (Run.final (RamFiles.step overflowChecks) (RamFiles.new bytes) before)
          (Run.final ByteFile.step ⟨bytes.bytes, fun _ => 0⟩ before)) ↔
      Run.Allowed (fun s call => (s.step overflowChecks call).2) (Within overflowChecks)
        (RamFiles.new bytes) calls := by
  apply Run.outputs_agree_iff (RamFiles.step overflowChecks) ByteFile.step Stands SameBytes
  case hsame => exact fun s t h => h.bytes
  case hstep =>
    rintro s t ⟨handle, call⟩ hst
    cases call with
    | read length =>
      have hread := step_read overflowChecks s t handle length hst
      exact iff_of_true ⟨hread.1, hread.2.bytes⟩ trivial
    | write buf =>
      constructor
      · intro h
        by_contra hw
        exact step_write_apart overflowChecks s t handle buf hst hw h
      · intro hw
        have hwrite := step_write_within overflowChecks s t handle buf hst hw
        exact ⟨hwrite.1, hwrite.2.bytes⟩
    | seek pos =>
      constructor
      · intro h
        by_contra hw
        exact step_seek_apart overflowChecks s t handle pos hst hw h.1
      · intro hw
        have hseek := step_seek_within overflowChecks s t handle pos hst hw
        exact ⟨hseek.1, hseek.2.bytes⟩
  case hkeep =>
    rintro s t ⟨handle, call⟩ hst hw
    cases call with
    | read length => exact (step_read overflowChecks s t handle length hst).2
    | write buf => exact (step_write_within overflowChecks s t handle buf hst hw).2
    | seek pos => exact (step_seek_within overflowChecks s t handle pos hst hw).2
  case hst =>
    constructor
    case clean => rfl
    case bytes => rfl
    case cursors => rfl
    case words => exact fun _ => Nat.two_pow_pos 64

def emptyFile : ByteVec := ⟨[], Nat.zero_le _⟩

/-- A write behind the end leaves no gap, and a seek before the start of the file goes to a position
far behind it. -/
theorem ramFile_not_refines :
    ¬ SameBytes
        (Run.final (RamFiles.step false) (RamFiles.new emptyFile)
          [(0, .seek (.start 3)), (0, .write [1])])
        (Run.final ByteFile.step ⟨[], fun _ => 0⟩ [(0, .seek (.start 3)), (0, .write [1])]) ∧
      Run.outputs (RamFiles.step false) (RamFiles.new emptyFile) [(0, .seek (.current (-1)))] =
        [.position (2^64 - 1)] ∧
      Run.outputs ByteFile.step ⟨[], fun _ => 0⟩ [(0, .seek (.current (-1)))] = [.error] := by
  refine ⟨?_, ?_, ?_⟩
  · unfold SameBytes
    decide +kernel
  · decide +kernel
  · decide +kernel

end Exocore.Core.Dir
