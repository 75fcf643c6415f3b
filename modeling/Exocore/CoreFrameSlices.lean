import Exocore.CorePanic

/-! The iteration over a series of sized frames that stand one after the other in some bytes. -/
namespace Exocore.Core

def SizedFrame.size {I : Type} (f : SizedFrame I) : ℕ := f.innerSize + 4 + 4

structure IteratedSizedSliceFrame where
  offset : ℕ
  frame : SizedFrame Bytes

structure SizedFrameSliceIterator where
  buffer : Bytes
  currentOffset : ℕ
  lastError : Option FramingError

namespace SizedFrameSliceIterator

def new (buffer : Bytes) : SizedFrameSliceIterator := ⟨buffer, 0, none⟩

/-- `next`, with the iterator it leaves, none where it panics. -/
def next (it : SizedFrameSliceIterator) :
    Option (Option IteratedSizedSliceFrame × SizedFrameSliceIterator) := do
  let offset := it.currentOffset
  let data ← slice it.buffer offset it.buffer.length
  match SizedFrame.new data with
  | .ok frame =>
    pure (some ⟨offset, frame⟩, { it with currentOffset := it.currentOffset + frame.size })
  | .error (.error err) => pure (none, { it with lastError := some err })
  | .error .panic => none

/-- The frames that the calls of `next` return one after the other, until one returns none. -/
inductive Yields : SizedFrameSliceIterator → List IteratedSizedSliceFrame →
    SizedFrameSliceIterator → Prop
  | done {it it' : SizedFrameSliceIterator} (h : it.next = some (none, it')) : Yields it [] it'
  | more {it it' it'' : SizedFrameSliceIterator} {f : IteratedSizedSliceFrame}
    {rest : List IteratedSizedSliceFrame} (h : it.next = some (some f, it'))
    (hrest : Yields it' rest it'') : Yields it (f :: rest) it''

/-- The call either ends the series or gives the frame at the current offset and moves past it. -/
theorem next_cases (it : SizedFrameSliceIterator) (h : it.currentOffset ≤ it.buffer.length) :
    (∃ err, it.next = some (none, { it with lastError := some err })) ∨
      ∃ n, readLe32 (it.buffer.drop it.currentOffset) = some n ∧
        it.currentOffset + (n + 8) ≤ it.buffer.length ∧
        it.next = some (some ⟨it.currentOffset, ⟨it.buffer.drop it.currentOffset, 0, n⟩⟩,
          { it with currentOffset := it.currentOffset + (n + 8) }) := by
  have hslice : slice it.buffer it.currentOffset it.buffer.length =
      some (it.buffer.drop it.currentOffset) := by
    rw [slice, if_pos ⟨h, le_rfl⟩, List.take_length]
  cases hnew : SizedFrame.new (it.buffer.drop it.currentOffset) with
  | ok frame =>
    have hnext : it.next = some (some ⟨it.currentOffset, frame⟩,
        { it with currentOffset := it.currentOffset + frame.size }) := by
      simp only [next, hslice, hnew, Option.bind_eq_bind, Option.bind_some, Option.pure_def]
    obtain ⟨n, hn, hlen, rfl⟩ := (sizedFrame_new_eq_ok_iff _ _).mp hnew
    rw [List.length_drop] at hlen
    exact Or.inr ⟨n, hn, by omega, hnext⟩
  | error fault =>
    cases fault with
    | error err =>
      have hnext : it.next = some (none, { it with lastError := some err }) := by
        simp only [next, hslice, hnew, Option.bind_eq_bind, Option.bind_some, Option.pure_def]
      exact Or.inl ⟨err, hnext⟩
    | panic => exact absurd hnew (noPanic_sizedFrame_new _)

/-- A series of frames from an offset on, each beginning where the one before it ends, and none
reaching past the end of the bytes. -/
def Consecutive (buffer : Bytes) : ℕ → List IteratedSizedSliceFrame → Prop
  | offset, [] => offset ≤ buffer.length
  | offset, f :: rest =>
    f.offset = offset ∧
      FrameReader.wholeData f.frame = slice buffer offset (offset + f.frame.size) ∧
      8 ≤ f.frame.size ∧ Consecutive buffer (offset + f.frame.size) rest

theorem sizedFrame_wholeData_drop (buffer : Bytes) (offset n : ℕ)
    (hlen : offset + (n + 8) ≤ buffer.length) :
    FrameReader.wholeData (⟨buffer.drop offset, 0, n⟩ : SizedFrame Bytes) =
      slice buffer offset (offset + (n + 8)) := by
  simp only [FrameReader.wholeData, Option.bind_eq_bind, Option.bind_some, slice]
  rw [if_pos (by rw [List.length_drop]; omega), if_pos (by omega), List.drop_zero, List.drop_take]
  congr 2
  omega

theorem yields_consecutive (it last : SizedFrameSliceIterator)
    (frames : List IteratedSizedSliceFrame) (h : Yields it frames last)
    (hle : it.currentOffset ≤ it.buffer.length) :
    Consecutive it.buffer it.currentOffset frames := by
  induction h with
  | done h => exact hle
  | more h hrest ih =>
    rename_i it it' it'' f rest
    rcases next_cases it hle with ⟨err, hnone⟩ | ⟨n, -, hlen, hsome⟩
    · rw [hnone] at h
      simp at h
    · rw [hsome] at h
      obtain ⟨hf, rfl⟩ := Prod.mk.inj (Option.some.inj h)
      obtain rfl := Option.some.inj hf
      have hsize : SizedFrame.size (⟨it.buffer.drop it.currentOffset, 0, n⟩ : SizedFrame Bytes) =
          n + 8 := rfl
      refine ⟨rfl, ?_, ?_, ?_⟩
      · rw [hsize]
        exact sizedFrame_wholeData_drop it.buffer it.currentOffset n hlen
      · rw [hsize]
        omega
      · rw [hsize]
        exact ih hlen

/-- Each frame takes at least the eight bytes of its sizes, so that the series ends. -/
theorem yields_exists (it : SizedFrameSliceIterator) (hle : it.currentOffset ≤ it.buffer.length) :
    ∃ frames last, Yields it frames last := by
  induction hleft : it.buffer.length - it.currentOffset using Nat.strong_induction_on
    generalizing it with
  | _ left ih =>
    rcases next_cases it hle with ⟨err, hnone⟩ | ⟨n, -, hlen, hsome⟩
    · exact ⟨[], _, Yields.done hnone⟩
    · obtain ⟨rest, last, hrest⟩ := ih (it.buffer.length - (it.currentOffset + (n + 8))) (by omega)
        { it with currentOffset := it.currentOffset + (n + 8) } hlen rfl
      exact ⟨_ :: rest, last, Yields.more hsome hrest⟩

theorem Consecutive.within {buffer : Bytes} {offset : ℕ} {frames : List IteratedSizedSliceFrame}
    (h : Consecutive buffer offset frames) :
    ∀ f ∈ frames, offset ≤ f.offset ∧ f.offset + f.frame.size ≤ buffer.length ∧
      FrameReader.wholeData f.frame = slice buffer f.offset (f.offset + f.frame.size) := by
  induction frames generalizing offset with
  | nil => simp
  | cons f rest ih =>
    obtain ⟨rfl, hdata, hsize, hrest⟩ := h
    intro g hg
    rcases List.mem_cons.mp hg with rfl | hg
    · refine ⟨le_rfl, ?_, hdata⟩
      cases rest with
      | nil => exact hrest
      | cons f' rest =>
        have hnext := ih hrest f' List.mem_cons_self
        omega
    · obtain ⟨hle, hlen, hslice⟩ := ih hrest g hg
      exact ⟨by omega, hlen, hslice⟩

theorem Consecutive.disjoint {buffer : Bytes} {offset : ℕ} {frames : List IteratedSizedSliceFrame}
    (h : Consecutive buffer offset frames) :
    frames.Pairwise fun f g => f.offset + f.frame.size ≤ g.offset := by
  induction frames generalizing offset with
  | nil => exact List.Pairwise.nil
  | cons f rest ih =>
    obtain ⟨rfl, -, -, hrest⟩ := h
    exact List.pairwise_cons.mpr ⟨fun g hg => (hrest.within g hg).1, ih hrest⟩

theorem Consecutive.isChain {buffer : Bytes} {offset : ℕ} {frames : List IteratedSizedSliceFrame}
    (h : Consecutive buffer offset frames) :
    frames.IsChain fun f g => g.offset = f.offset + f.frame.size := by
  induction frames generalizing offset with
  | nil => exact List.IsChain.nil
  | cons f rest ih =>
    obtain ⟨rfl, -, -, hrest⟩ := h
    refine List.isChain_cons.mpr ⟨?_, ih hrest⟩
    intro g hg
    cases rest with
    | nil => simp at hg
    | cons f' rest =>
      obtain rfl := Option.some.inj hg
      exact hrest.1

/-- What the iteration over some bytes gives: frames that begin where the one before ends, that
share no byte, and that are parts of the bytes. -/
structure FramesOf (buffer : Bytes) (frames : List IteratedSizedSliceFrame) : Prop where
  first : ∀ f ∈ frames.head?, f.offset = 0
  consecutive : frames.IsChain fun f g => g.offset = f.offset + f.frame.size
  disjoint : frames.Pairwise fun f g => f.offset + f.frame.size ≤ g.offset
  within : ∀ f ∈ frames, f.offset + f.frame.size ≤ buffer.length
  data : ∀ f ∈ frames,
    FrameReader.wholeData f.frame = slice buffer f.offset (f.offset + f.frame.size)

theorem framesOf_of_yields (buffer : Bytes) (frames : List IteratedSizedSliceFrame)
    (last : SizedFrameSliceIterator) (h : Yields (new buffer) frames last) :
    FramesOf buffer frames := by
  have hframes : Consecutive buffer 0 frames := yields_consecutive _ _ _ h (Nat.zero_le _)
  refine ⟨?_, hframes.isChain, hframes.disjoint, fun f hf => (hframes.within f hf).2.1,
    fun f hf => (hframes.within f hf).2.2⟩
  intro f hf
  cases frames with
  | nil => simp at hf
  | cons f' rest =>
    obtain rfl := Option.some.inj hf
    exact hframes.1

end SizedFrameSliceIterator

end Exocore.Core
