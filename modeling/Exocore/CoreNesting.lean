import Exocore.CoreCompound
import Exocore.CoreFrameSlices

/-! Frames read from bytes that nobody has checked, in any nesting of the readers. -/
namespace Exocore.Core

open FrameReader ToOwnedFrame

/-- The constructors that were called, the one over the bytes innermost. A compound frame is read
further through one of its sides. -/
inductive Nesting where
  | bytes
  | sized (below : Nesting)
  | sizedFromNextOffset (nextOffset : ℕ) (below : Nesting)
  | padded (below : Nesting)
  | multihash (d : Digest) (below : Nesting)
  | left (below : Nesting)
  | right (below : Nesting)

def Nesting.Reader : Nesting → Type
  | .bytes => Bytes
  | .sized below => SizedFrame below.Reader
  | .sizedFromNextOffset _ below => SizedFrame below.Reader
  | .padded below => PaddedFrame below.Reader
  | .multihash d below => MultihashFrameOf d below.Reader
  | .left below => CompoundSideReader below.Reader
  | .right below => CompoundSideReader below.Reader

instance Nesting.frameReader : (n : Nesting) → FrameReader n.Reader
  | .bytes => inferInstanceAs (FrameReader Bytes)
  | .sized below =>
    have := frameReader below
    inferInstanceAs (FrameReader (SizedFrame below.Reader))
  | .sizedFromNextOffset _ below =>
    have := frameReader below
    inferInstanceAs (FrameReader (SizedFrame below.Reader))
  | .padded below =>
    have := frameReader below
    inferInstanceAs (FrameReader (PaddedFrame below.Reader))
  | .multihash d below =>
    have := frameReader below
    inferInstanceAs (FrameReader (MultihashFrameOf d below.Reader))
  | .left below =>
    have := frameReader below
    inferInstanceAs (FrameReader (CompoundSideReader below.Reader))
  | .right below =>
    have := frameReader below
    inferInstanceAs (FrameReader (CompoundSideReader below.Reader))

instance Nesting.toOwnedFrame : (n : Nesting) → ToOwnedFrame n.Reader
  | .bytes => inferInstanceAs (ToOwnedFrame Bytes)
  | .sized below => inferInstanceAs (ToOwnedFrame (SizedFrame below.Reader))
  | .sizedFromNextOffset _ below => inferInstanceAs (ToOwnedFrame (SizedFrame below.Reader))
  | .padded below =>
    have := toOwnedFrame below
    inferInstanceAs (ToOwnedFrame (PaddedFrame below.Reader))
  | .multihash d below =>
    have := toOwnedFrame below
    inferInstanceAs (ToOwnedFrame (MultihashFrameOf d below.Reader))
  | .left below => inferInstanceAs (ToOwnedFrame (CompoundSideReader below.Reader))
  | .right below => inferInstanceAs (ToOwnedFrame (CompoundSideReader below.Reader))

/-- The calls of the constructors, each over what the one before it returned. -/
def Nesting.construct : (n : Nesting) → Bytes → Res FramingError n.Reader
  | .bytes, data => .ok data
  | .sized below, data => do SizedFrame.new (← below.construct data)
  | .sizedFromNextOffset nextOffset below, data => do
    SizedFrame.newFromNextOffset (← below.construct data) nextOffset
  | .padded below, data => do PaddedFrame.new (← below.construct data)
  | .multihash d below, data => do MultihashFrameOf.new d (← below.construct data)
  | .left below, data => do
    let frame ← CompoundFrame.new (← below.construct data)
    pure frame.readerLeft
  | .right below, data => do
    let frame ← CompoundFrame.new (← below.construct data)
    pure frame.readerRight

/-- Every accessor that a reader has whatever it is made of returns. -/
structure Accessible {I : Type} [FrameReader I] [ToOwnedFrame I] (reader : I) : Prop where
  exposed : (exposedData reader).isSome
  whole : (wholeData reader).isSome
  owned : (toOwnedFrame reader).isSome

/-- The accessors of every frame of the nesting return. -/
def Nesting.AccessorsReturn : (n : Nesting) → n.Reader → Prop
  | .bytes, data => Accessible (I := Bytes) data
  | .sized below, (f : SizedFrame below.Reader) => Accessible f ∧ below.AccessorsReturn f.inner
  | .sizedFromNextOffset _ below, (f : SizedFrame below.Reader) =>
    Accessible f ∧ below.AccessorsReturn f.inner
  | .padded below, (f : PaddedFrame below.Reader) => Accessible f ∧ below.AccessorsReturn f.inner
  | .multihash _ below, (f : MultihashFrameOf _ below.Reader) =>
    Accessible f ∧ f.multihashBytes.isSome ∧ NoPanic f.verify ∧ below.AccessorsReturn f.inner
  | .left below, (side : CompoundSideReader below.Reader) =>
    Accessible side.frame.readerLeft ∧ Accessible side.frame.readerRight ∧
      below.AccessorsReturn side.frame.inner
  | .right below, (side : CompoundSideReader below.Reader) =>
    Accessible side.frame.readerLeft ∧ Accessible side.frame.readerRight ∧
      below.AccessorsReturn side.frame.inner

/-- The size or offset that stands at a position of the data. -/
def u32At (data : Bytes) (position : ℕ) : ℕ := (readLe32 (data.drop position)).getD 0

/-- Where the right part begins, by the last four bytes. -/
def offsetRightOf (data : Bytes) : ℕ := u32At data (data.length - 4)

/-- The part of the bytes that a nesting hands on, whether they are well formed or not. -/
def Nesting.view : Nesting → Bytes → Bytes
  | .bytes, data => data
  | .sized below, data =>
    let inner := below.view data
    (inner.take (4 + u32At inner 0)).drop 4
  | .sizedFromNextOffset nextOffset below, data =>
    let inner := below.view data
    (inner.take (nextOffset - 4)).drop (nextOffset - (u32At inner (nextOffset - 4) + 8) + 4)
  | .padded below, data =>
    let inner := below.view data
    inner.take (inner.length - 4 - u32At inner (inner.length - 4))
  | .multihash d below, data =>
    let inner := below.view data
    inner.take (inner.length - d.multihashSize)
  | .left below, data =>
    let inner := below.view data
    inner.take (offsetRightOf inner)
  | .right below, data =>
    let inner := below.view data
    (inner.take (inner.length - 4)).drop (offsetRightOf inner)

/-- In every compound frame of the nesting the right part begins within what it is given, the
four bytes of its offset left aside. -/
def Nesting.OffsetsInside : Nesting → Bytes → Prop
  | .bytes, _ => True
  | .sized below, data => below.OffsetsInside data
  | .sizedFromNextOffset _ below, data => below.OffsetsInside data
  | .padded below, data => below.OffsetsInside data
  | .multihash _ below, data => below.OffsetsInside data
  | .left below, data =>
    offsetRightOf (below.view data) + 4 ≤ (below.view data).length ∧ below.OffsetsInside data
  | .right below, data =>
    offsetRightOf (below.view data) + 4 ≤ (below.view data).length ∧ below.OffsetsInside data

theorem u32At_eq (data : Bytes) (position n : ℕ) (h : readLe32 (data.drop position) = some n) :
    u32At data position = n := by
  rw [u32At, h, Option.getD_some]

theorem slice_eq_some_iff (data s : Bytes) (start stop : ℕ) :
    slice data start stop = some s ↔
      start ≤ stop ∧ stop ≤ data.length ∧ s = (data.take stop).drop start := by
  unfold slice
  split_ifs with h
  · rw [Option.some.injEq]
    constructor
    · rintro rfl
      exact ⟨h.1, h.2, rfl⟩
    · rintro ⟨-, -, rfl⟩
      rfl
  · constructor
    · intro hnone
      contradiction
    · rintro ⟨hle, hlen, -⟩
      exact absurd ⟨hle, hlen⟩ h

theorem slice_isSome_iff (data : Bytes) (start stop : ℕ) :
    (slice data start stop).isSome ↔ start ≤ stop ∧ stop ≤ data.length := by
  rw [Option.isSome_iff_exists]
  simp only [slice_eq_some_iff]
  constructor
  · rintro ⟨_, hle, hlen, -⟩
    exact ⟨hle, hlen⟩
  · rintro ⟨hle, hlen⟩
    exact ⟨_, hle, hlen, rfl⟩

/-- What a reader hands on, and that the whole of it is no shorter. -/
structure HandsOn {I : Type} [FrameReader I] (reader : I) (view : Bytes) : Prop where
  exposed : ∀ data, exposedData reader = some data → data = view
  whole : ∃ whole, wholeData reader = some whole ∧ view.length ≤ whole.length

section Layers
variable {I : Type} [FrameReader I]

theorem sizedFrame_handsOn (inner : I) (offset n : ℕ) (view : Bytes) (h : HandsOn inner view)
    (hlen : offset + n + 8 ≤ view.length) :
    HandsOn (⟨inner, offset, n⟩ : SizedFrame I)
      ((view.take (offset + 4 + n)).drop (offset + 4)) := by
  obtain ⟨whole, hwhole, hle⟩ := h.whole
  constructor
  · intro data hdata
    simp only [exposedData, Option.bind_eq_bind, Option.bind_eq_some_iff, slice_eq_some_iff] at hdata
    obtain ⟨innerData, hinner, -, -, rfl⟩ := hdata
    rw [h.exposed innerData hinner]
  · have hslice : slice whole offset (offset + n + 8) =
        some ((whole.take (offset + n + 8)).drop offset) := by
      rw [slice_eq_some_iff]
      exact ⟨by omega, by omega, rfl⟩
    refine ⟨(whole.take (offset + n + 8)).drop offset, ?_, ?_⟩
    · simp only [wholeData, hwhole, Option.bind_eq_bind, Option.bind_some]
      exact hslice
    · simp only [List.length_drop, List.length_take]
      omega

theorem sizedFrame_accessible (inner : I) (offset n : ℕ) (view : Bytes) (h : HandsOn inner view)
    (hview : exposedData inner = some view) (hlen : offset + n + 8 ≤ view.length) :
    Accessible (⟨inner, offset, n⟩ : SizedFrame I) := by
  obtain ⟨whole, hwhole, hle⟩ := h.whole
  have hsome : (wholeData (⟨inner, offset, n⟩ : SizedFrame I)).isSome := by
    simp only [wholeData, hwhole, Option.bind_eq_bind, Option.bind_some, slice_isSome_iff]
    omega
  constructor
  · simp only [exposedData, hview, Option.bind_eq_bind, Option.bind_some, slice_isSome_iff]
    omega
  · exact hsome
  · rw [toOwnedFrame, instToOwnedFrameSizedFrame, Option.isSome_map]
    exact hsome

theorem paddedFrame_handsOn (inner : I) (n : ℕ) (view : Bytes) (h : HandsOn inner view) :
    HandsOn (⟨inner, n⟩ : PaddedFrame I) (view.take (view.length - 4 - n)) := by
  obtain ⟨whole, hwhole, hle⟩ := h.whole
  constructor
  · intro data hdata
    simp only [exposedData, Option.bind_eq_bind, Option.bind_eq_some_iff,
      Option.ite_none_right_eq_some, slice_eq_some_iff, List.drop_zero] at hdata
    obtain ⟨innerData, hinner, -, -, -, rfl⟩ := hdata
    rw [h.exposed innerData hinner]
  · refine ⟨whole, hwhole, ?_⟩
    rw [List.length_take]
    omega

theorem paddedFrame_accessible [ToOwnedFrame I] (inner : I) (n : ℕ) (view : Bytes)
    (h : HandsOn inner view) (hview : exposedData inner = some view)
    (howned : (toOwnedFrame inner).isSome) (hlen : 4 + n ≤ view.length) :
    Accessible (⟨inner, n⟩ : PaddedFrame I) := by
  obtain ⟨whole, hwhole, -⟩ := h.whole
  constructor
  · simp only [exposedData, hview, Option.bind_eq_bind, Option.bind_some, if_pos hlen,
      slice_isSome_iff]
    omega
  · exact Option.isSome_of_eq_some hwhole
  · rw [toOwnedFrame, instToOwnedFramePaddedFrame, Option.isSome_map]
    exact howned

theorem multihashFrameOf_handsOn (d : Digest) (inner : I) (view : Bytes) (h : HandsOn inner view) :
    HandsOn (⟨inner⟩ : MultihashFrameOf d I) (view.take (view.length - d.multihashSize)) := by
  obtain ⟨whole, hwhole, hle⟩ := h.whole
  constructor
  · intro data hdata
    simp only [exposedData, Option.bind_eq_bind, Option.bind_eq_some_iff,
      Option.ite_none_right_eq_some, slice_eq_some_iff, List.drop_zero] at hdata
    obtain ⟨innerData, hinner, -, -, -, rfl⟩ := hdata
    rw [h.exposed innerData hinner]
  · refine ⟨whole, hwhole, ?_⟩
    rw [List.length_take]
    omega

theorem multihashFrameOf_exposed (d : Digest) (inner : I) (view : Bytes)
    (hview : exposedData inner = some view) (hlen : d.multihashSize ≤ view.length) :
    exposedData (⟨inner⟩ : MultihashFrameOf d I) =
        some (view.take (view.length - d.multihashSize)) ∧
      (⟨inner⟩ : MultihashFrameOf d I).multihashBytes =
        some (view.drop (view.length - d.multihashSize)) := by
  constructor
  · simp only [exposedData, hview, Option.bind_eq_bind, Option.bind_some, if_pos hlen]
    rw [slice_eq_some_iff, List.drop_zero]
    exact ⟨by omega, by omega, rfl⟩
  · simp only [MultihashFrameOf.multihashBytes, hview, Option.bind_eq_bind, Option.bind_some,
      if_pos hlen]
    rw [slice_eq_some_iff, List.take_length]
    exact ⟨by omega, by omega, rfl⟩

theorem multihashFrameOf_accessible [ToOwnedFrame I] (d : Digest) (inner : I) (view : Bytes)
    (h : HandsOn inner view) (hview : exposedData inner = some view)
    (howned : (toOwnedFrame inner).isSome) (hlen : d.multihashSize ≤ view.length) :
    Accessible (⟨inner⟩ : MultihashFrameOf d I) := by
  obtain ⟨whole, hwhole, -⟩ := h.whole
  obtain ⟨hexposed, -⟩ := multihashFrameOf_exposed d inner view hview hlen
  constructor
  · exact Option.isSome_of_eq_some hexposed
  · exact Option.isSome_of_eq_some hwhole
  · rw [toOwnedFrame, instToOwnedFrameMultihashFrameOf, Option.isSome_map]
    exact howned

theorem noPanic_multihashFrameOf_verify (d : Digest) (inner : I) (view : Bytes)
    (hview : exposedData inner = some view) (hlen : d.multihashSize ≤ view.length) :
    NoPanic (⟨inner⟩ : MultihashFrameOf d I).verify := by
  obtain ⟨hexposed, hmultihash⟩ := multihashFrameOf_exposed d inner view hview hlen
  rw [MultihashFrameOf.verify, hexposed, hmultihash]
  simp only [orPanic_some, ok_bind]
  exact noPanic_bind _ _ (noPanic_orError _ _) fun _ _ => noPanic_pure _

theorem sideReader_exposed (inner : I) (offsetRight : ℕ) (view : Bytes)
    (hview : exposedData inner = some view) (hlen : 4 ≤ view.length) :
    exposedData (⟨inner, offsetRight⟩ : CompoundFrame I).readerLeft =
        slice view 0 offsetRight ∧
      exposedData (⟨inner, offsetRight⟩ : CompoundFrame I).readerRight =
        slice view offsetRight (view.length - 4) := by
  constructor
  · simp only [exposedData, CompoundFrame.readerLeft, hview, Option.bind_eq_bind, Option.bind_some,
      if_true]
  · simp only [exposedData, CompoundFrame.readerRight, hview, Option.bind_eq_bind,
      Option.bind_some, Bool.false_eq_true, if_false, if_pos hlen]

theorem sideReader_handsOn (inner : I) (offsetRight : ℕ) (view : Bytes) (h : HandsOn inner view)
    (hview : exposedData inner = some view) (hlen : 4 ≤ view.length) :
    HandsOn (⟨inner, offsetRight⟩ : CompoundFrame I).readerLeft (view.take offsetRight) ∧
      HandsOn (⟨inner, offsetRight⟩ : CompoundFrame I).readerRight
        ((view.take (view.length - 4)).drop offsetRight) := by
  obtain ⟨whole, hwhole, hle⟩ := h.whole
  obtain ⟨hleft, hright⟩ := sideReader_exposed inner offsetRight view hview hlen
  refine ⟨⟨?_, whole, hwhole, ?_⟩, ⟨?_, whole, hwhole, ?_⟩⟩
  · intro data hdata
    rw [hleft, slice_eq_some_iff, List.drop_zero] at hdata
    exact hdata.2.2
  · rw [List.length_take]
    omega
  · intro data hdata
    rw [hright, slice_eq_some_iff] at hdata
    exact hdata.2.2
  · rw [List.length_drop, List.length_take]
    omega

/-- The two sides of a compound frame can be read exactly where the offset is inside. -/
theorem sideReaders_accessible_iff (inner : I) (offsetRight : ℕ) (view : Bytes)
    (h : HandsOn inner view) (hview : exposedData inner = some view) (hlen : 4 ≤ view.length) :
    (Accessible (⟨inner, offsetRight⟩ : CompoundFrame I).readerLeft ∧
      Accessible (⟨inner, offsetRight⟩ : CompoundFrame I).readerRight) ↔
      offsetRight + 4 ≤ view.length := by
  obtain ⟨whole, hwhole, -⟩ := h.whole
  obtain ⟨hleft, hright⟩ := sideReader_exposed inner offsetRight view hview hlen
  constructor
  · rintro ⟨-, hreadable⟩
    have hsome := hreadable.exposed
    rw [hright, slice_isSome_iff] at hsome
    omega
  · intro hinside
    have hleftSome : (slice view 0 offsetRight).isSome := by
      rw [slice_isSome_iff]
      omega
    have hrightSome : (slice view offsetRight (view.length - 4)).isSome := by
      rw [slice_isSome_iff]
      omega
    rw [← hleft] at hleftSome
    rw [← hright] at hrightSome
    exact ⟨⟨hleftSome, Option.isSome_of_eq_some hwhole, hleftSome⟩,
      ⟨hrightSome, Option.isSome_of_eq_some hwhole, hrightSome⟩⟩

/-- The size that the constructor reads was checked against all that is used of it later. -/
theorem sizedFrame_new_reads (inner : I) (f : SizedFrame I) (view : Bytes) (h : HandsOn inner view)
    (hnew : SizedFrame.new inner = .ok f) :
    f.inner = inner ∧ Accessible f ∧ HandsOn f ((view.take (4 + u32At view 0)).drop 4) := by
  obtain ⟨data, n, hdata, hn, hlen, rfl⟩ := sizedFrame_new_ok inner f hnew
  obtain rfl := h.exposed data hdata
  have hsize : u32At data 0 = n := u32At_eq data 0 n hn
  have hframe := sizedFrame_handsOn inner 0 n data h (by omega)
  rw [Nat.zero_add, ← congrArg (4 + ·) hsize] at hframe
  exact ⟨rfl, sizedFrame_accessible inner 0 n data h hdata (by omega), hframe⟩

theorem sizedFrame_newFromNextOffset_reads (inner : I) (nextOffset : ℕ) (f : SizedFrame I)
    (view : Bytes) (h : HandsOn inner view)
    (hnew : SizedFrame.newFromNextOffset inner nextOffset = .ok f) :
    f.inner = inner ∧ Accessible f ∧
      HandsOn f ((view.take (nextOffset - 4)).drop
        (nextOffset - (u32At view (nextOffset - 4) + 8) + 4)) := by
  obtain ⟨data, n, hdata, hn, hroom, hlen, rfl⟩ :=
    sizedFrame_newFromNextOffset_ok inner nextOffset f hnew
  obtain rfl := h.exposed data hdata
  obtain rfl := u32At_eq data _ n hn
  have hframe := sizedFrame_handsOn inner (nextOffset - (u32At data (nextOffset - 4) + 8))
    (u32At data (nextOffset - 4)) data h (by omega)
  have hend : nextOffset - (u32At data (nextOffset - 4) + 8) + 4 + u32At data (nextOffset - 4) =
      nextOffset - 4 := by omega
  rw [hend] at hframe
  exact ⟨rfl, sizedFrame_accessible inner _ _ data h hdata (by omega), hframe⟩

theorem paddedFrame_new_reads [ToOwnedFrame I] (inner : I) (f : PaddedFrame I) (view : Bytes)
    (h : HandsOn inner view)
    (howned : (exposedData inner).isSome → (ToOwnedFrame.toOwnedFrame inner).isSome)
    (hnew : PaddedFrame.new inner = .ok f) :
    f.inner = inner ∧ Accessible f ∧
      HandsOn f (view.take (view.length - 4 - u32At view (view.length - 4))) := by
  obtain ⟨data, n, hdata, hn, hlen, rfl⟩ := paddedFrame_new_ok inner f hnew
  obtain rfl := h.exposed data hdata
  obtain rfl := u32At_eq data _ n hn
  have hcopy := howned (Option.isSome_of_eq_some hdata)
  exact ⟨rfl, paddedFrame_accessible inner _ data h hdata hcopy hlen,
    paddedFrame_handsOn inner _ data h⟩

theorem multihashFrameOf_new_reads [ToOwnedFrame I] (d : Digest) (inner : I)
    (f : MultihashFrameOf d I) (view : Bytes) (h : HandsOn inner view)
    (howned : (exposedData inner).isSome → (ToOwnedFrame.toOwnedFrame inner).isSome)
    (hnew : MultihashFrameOf.new d inner = .ok f) :
    f.inner = inner ∧ (Accessible f ∧ f.multihashBytes.isSome ∧ NoPanic f.verify) ∧
      HandsOn f (view.take (view.length - d.multihashSize)) := by
  obtain ⟨data, hdata, hlen, rfl⟩ := multihashFrameOf_new_ok d inner f hnew
  obtain rfl := h.exposed data hdata
  have hcopy := howned (Option.isSome_of_eq_some hdata)
  have hbytes := (multihashFrameOf_exposed d inner data hdata hlen).2
  refine ⟨rfl, ⟨?_, ?_, ?_⟩, multihashFrameOf_handsOn d inner data h⟩
  · exact multihashFrameOf_accessible d inner data h hdata hcopy hlen
  · exact Option.isSome_of_eq_some hbytes
  · exact noPanic_multihashFrameOf_verify d inner data hdata hlen

theorem compoundFrame_new_reads (inner : I) (f : CompoundFrame I) (view : Bytes)
    (h : HandsOn inner view) (hnew : CompoundFrame.new inner = .ok f) :
    f.inner = inner ∧
      (Accessible f.readerLeft ∧ Accessible f.readerRight ↔
        offsetRightOf view + 4 ≤ view.length) ∧
      HandsOn f.readerLeft (view.take (offsetRightOf view)) ∧
      HandsOn f.readerRight ((view.take (view.length - 4)).drop (offsetRightOf view)) := by
  obtain ⟨data, n, hdata, hlen, hn, rfl⟩ := compoundFrame_new_ok inner f hnew
  obtain rfl := h.exposed data hdata
  obtain rfl := u32At_eq data _ n hn
  exact ⟨rfl, sideReaders_accessible_iff inner _ data h hdata hlen,
    sideReader_handsOn inner _ data h hdata hlen⟩

end Layers

/-- What is known of a reader that was constructed over some bytes. -/
structure Nesting.Reads (n : Nesting) (data : Bytes) (r : n.Reader) : Prop where
  handsOn : HandsOn r (n.view data)
  owned : (exposedData r).isSome → (ToOwnedFrame.toOwnedFrame r).isSome
  exposed : n.OffsetsInside data → (exposedData r).isSome
  returns_iff : n.AccessorsReturn r ↔ n.OffsetsInside data

/-- One case for each layer: what it adds to what the layers below it are known for. -/
theorem Nesting.construct_reads (n : Nesting) (data : Bytes) (r : n.Reader)
    (h : n.construct data = .ok r) : n.Reads data r := by
  induction n with
  | bytes =>
    obtain rfl := Except.ok.inj h
    refine ⟨⟨?_, data, rfl, le_rfl⟩, fun _ => rfl, fun _ => rfl,
      iff_of_true ⟨rfl, rfl, rfl⟩ trivial⟩
    intro _ hdata
    exact (Option.some.inj hdata).symm
  | sized below ih =>
    obtain ⟨inner, hinner, hnew⟩ := (bind_eq_ok_iff _ _ _).mp h
    have hbelow := ih inner hinner
    obtain ⟨rfl, hframe, hhands⟩ := sizedFrame_new_reads inner r _ hbelow.handsOn hnew
    exact ⟨hhands, fun _ => hframe.owned, fun _ => hframe.exposed,
      (and_iff_right hframe).trans hbelow.returns_iff⟩
  | sizedFromNextOffset nextOffset below ih =>
    obtain ⟨inner, hinner, hnew⟩ := (bind_eq_ok_iff _ _ _).mp h
    have hbelow := ih inner hinner
    obtain ⟨rfl, hframe, hhands⟩ :=
      sizedFrame_newFromNextOffset_reads inner nextOffset r _ hbelow.handsOn hnew
    exact ⟨hhands, fun _ => hframe.owned, fun _ => hframe.exposed,
      (and_iff_right hframe).trans hbelow.returns_iff⟩
  | padded below ih =>
    obtain ⟨inner, hinner, hnew⟩ := (bind_eq_ok_iff _ _ _).mp h
    have hbelow := ih inner hinner
    obtain ⟨rfl, hframe, hhands⟩ :=
      paddedFrame_new_reads inner r _ hbelow.handsOn hbelow.owned hnew
    exact ⟨hhands, fun _ => hframe.owned, fun _ => hframe.exposed,
      (and_iff_right hframe).trans hbelow.returns_iff⟩
  | multihash d below ih =>
    obtain ⟨inner, hinner, hnew⟩ := (bind_eq_ok_iff _ _ _).mp h
    have hbelow := ih inner hinner
    obtain ⟨rfl, ⟨hframe, hbytes, hverify⟩, hhands⟩ :=
      multihashFrameOf_new_reads d inner r _ hbelow.handsOn hbelow.owned hnew
    refine ⟨hhands, fun _ => hframe.owned, fun _ => hframe.exposed, ?_⟩
    constructor
    · rintro ⟨-, -, -, hreturn⟩
      exact hbelow.returns_iff.mp hreturn
    · intro hinside
      exact ⟨hframe, hbytes, hverify, hbelow.returns_iff.mpr hinside⟩
  | left below ih =>
    obtain ⟨inner, hinner, hside⟩ := (bind_eq_ok_iff _ _ _).mp h
    obtain ⟨frame, hnew, hreader⟩ := (bind_eq_ok_iff _ _ _).mp hside
    obtain rfl := Except.ok.inj hreader
    have hbelow := ih inner hinner
    obtain ⟨rfl, hsides, hhands, -⟩ := compoundFrame_new_reads inner frame _ hbelow.handsOn hnew
    -- the copy of a side is of what it exposes
    exact ⟨hhands, id, fun hinside => (hsides.mpr hinside.1).1.exposed,
      and_assoc.symm.trans (and_congr hsides hbelow.returns_iff)⟩
  | right below ih =>
    obtain ⟨inner, hinner, hside⟩ := (bind_eq_ok_iff _ _ _).mp h
    obtain ⟨frame, hnew, hreader⟩ := (bind_eq_ok_iff _ _ _).mp hside
    obtain rfl := Except.ok.inj hreader
    have hbelow := ih inner hinner
    obtain ⟨rfl, hsides, -, hhands⟩ := compoundFrame_new_reads inner frame _ hbelow.handsOn hnew
    exact ⟨hhands, id, fun hinside => (hsides.mpr hinside.1).2.exposed,
      and_assoc.symm.trans (and_congr hsides hbelow.returns_iff)⟩

section Construction
variable {I : Type} [FrameReader I]

theorem noPanic_exposedData_bind {B : Type} (inner : I) (f : Bytes → Res FramingError B)
    (h : (exposedData inner).isSome) (hf : ∀ data, NoPanic (f data)) :
    NoPanic (orPanic (exposedData inner) >>= f) :=
  noPanic_bind _ _ ((noPanic_orPanic _).mpr h) fun data _ => hf data

/-- Over a reader that exposes its data, no constructor panics. -/
theorem noPanic_new (inner : I) (h : (exposedData inner).isSome) :
    NoPanic (SizedFrame.new inner) ∧
      (∀ nextOffset, NoPanic (SizedFrame.newFromNextOffset inner nextOffset)) ∧
      NoPanic (PaddedFrame.new inner) ∧ (∀ d, NoPanic (MultihashFrameOf.new d inner)) ∧
      NoPanic (CompoundFrame.new inner) := by
  refine ⟨?_, ?_, ?_, ?_, ?_⟩
  · apply noPanic_exposedData_bind inner _ h
    intro data
    apply noPanic_bind _ _ (noPanic_checkFromSize 4 data)
    intro _ _
    apply noPanic_bind _ _ (noPanic_orError _ _)
    intro n _
    exact noPanic_bind _ _ (noPanic_checkFromSize _ _) fun _ _ => noPanic_pure _
  · intro nextOffset
    apply noPanic_exposedData_bind inner _ h
    intro data
    apply noPanic_bind _ _ (noPanic_checkOffsetSubtract _ _)
    intro _ _
    apply noPanic_bind _ _ (noPanic_checkFromSize _ _)
    intro _ _
    apply noPanic_bind _ _ (noPanic_orError _ _)
    intro n _
    exact noPanic_bind _ _ (noPanic_checkOffsetSubtract _ _) fun _ _ => noPanic_pure _
  · apply noPanic_exposedData_bind inner _ h
    intro data
    apply noPanic_bind _ _ (noPanic_checkFromSize 4 data)
    intro _ _
    apply noPanic_bind _ _ (noPanic_orError _ _)
    intro n _
    exact noPanic_bind _ _ (noPanic_checkFromSize _ _) fun _ _ => noPanic_pure _
  · intro d
    apply noPanic_exposedData_bind inner _ h
    intro data
    exact noPanic_bind _ _ (noPanic_checkFromSize _ _) fun _ _ => noPanic_pure _
  · apply noPanic_exposedData_bind inner _ h
    intro data
    apply noPanic_bind _ _ (noPanic_checkFromSize 4 data)
    intro _ _
    exact noPanic_bind _ _ (noPanic_orError _ _) fun _ _ => noPanic_pure _

end Construction

/-- Where the right parts begin inside, the construction itself does not panic either. -/
theorem Nesting.noPanic_construct (n : Nesting) (data : Bytes) (h : n.OffsetsInside data) :
    NoPanic (n.construct data) := by
  have hexposed : ∀ (below : Nesting) (inner : below.Reader), below.construct data = .ok inner →
      below.OffsetsInside data → (exposedData inner).isSome := fun below inner hinner hinside =>
    (below.construct_reads data inner hinner).exposed hinside
  induction n with
  | bytes => exact noPanic_ok _
  | sized below ih =>
    apply noPanic_bind _ _ (ih h)
    intro inner hinner
    exact (noPanic_new inner (hexposed below inner hinner h)).1
  | sizedFromNextOffset nextOffset below ih =>
    apply noPanic_bind _ _ (ih h)
    intro inner hinner
    exact (noPanic_new inner (hexposed below inner hinner h)).2.1 nextOffset
  | padded below ih =>
    apply noPanic_bind _ _ (ih h)
    intro inner hinner
    exact (noPanic_new inner (hexposed below inner hinner h)).2.2.1
  | multihash d below ih =>
    apply noPanic_bind _ _ (ih h)
    intro inner hinner
    exact (noPanic_new inner (hexposed below inner hinner h)).2.2.2.1 d
  | left below ih =>
    apply noPanic_bind _ _ (ih h.2)
    intro inner hinner
    apply noPanic_bind _ _ (noPanic_new inner (hexposed below inner hinner h.2)).2.2.2.2
    exact fun _ _ => noPanic_pure _
  | right below ih =>
    apply noPanic_bind _ _ (ih h.2)
    intro inner hinner
    apply noPanic_bind _ _ (noPanic_new inner (hexposed below inner hinner h.2)).2.2.2.2
    exact fun _ _ => noPanic_pure _

/-- Readers over bytes that nobody has checked: the accessors return exactly where the right part
of every compound frame begins inside, and a series of sized frames ends within the bytes. -/
theorem readers_return_iff (n : Nesting) (data : Bytes) (r : n.Reader)
    (h : n.construct data = .ok r) (buffer : Bytes) :
    (n.AccessorsReturn r ↔ n.OffsetsInside data) ∧
      (∃ frames last, SizedFrameSliceIterator.Yields (.new buffer) frames last) ∧
        ∀ frames last, SizedFrameSliceIterator.Yields (.new buffer) frames last →
          SizedFrameSliceIterator.FramesOf buffer frames := by
  refine ⟨(n.construct_reads data r h).returns_iff,
    SizedFrameSliceIterator.yields_exists _ (Nat.zero_le _), ?_⟩
  intro frames last hyields
  exact SizedFrameSliceIterator.framesOf_of_yields buffer frames last hyields

/-- A padded frame in the right part of a compound one. -/
theorem readers_return_sample :
    (Nesting.padded (.right .bytes)).AccessorsReturn
      (⟨⟨⟨([1, 7, 0, 0, 0, 0, 1, 0, 0, 0] : Bytes), 1⟩, false⟩, 0⟩ :
        PaddedFrame (CompoundSideReader Bytes)) := by
  have hinside : (Nesting.padded (.right .bytes)).OffsetsInside [1, 7, 0, 0, 0, 0, 1, 0, 0, 0] :=
    ⟨by decide, trivial⟩
  exact (readers_return_iff (.padded (.right .bytes)) [1, 7, 0, 0, 0, 0, 1, 0, 0, 0] _
    rfl []).1.mpr hinside

/-- The frame is constructed, and neither of its sides can be read. -/
theorem compound_offset_outside :
    ∃ r, (Nesting.left .bytes).construct [5, 0, 0, 0] = .ok r ∧
      ¬ (Nesting.left .bytes).AccessorsReturn r := by
  refine ⟨(⟨⟨([5, 0, 0, 0] : Bytes), 5⟩, true⟩ : CompoundSideReader Bytes), rfl, ?_⟩
  rintro ⟨hleft, -⟩
  have hsome := hleft.exposed
  contradiction

end Exocore.Core
