import Exocore.CoreNesting
import Exocore.CoreTypedFrame

/-! Owned copies of frames, and when a copy reads as the frame it was taken of. -/
namespace Exocore.Core

open FrameReader ToOwnedFrame

instance : FrameReader (OwnedType Bytes) := inferInstanceAs (FrameReader Bytes)

section Copies
variable {I : Type} [FrameReader I]

instance : FrameReader (OwnedType (SizedFrame I)) :=
  inferInstanceAs (FrameReader (SizedFrame Bytes))

instance [ToOwnedFrame I] [FrameReader (OwnedType I)] : FrameReader (OwnedType (PaddedFrame I)) :=
  inferInstanceAs (FrameReader (PaddedFrame (OwnedType I)))

instance (d : Digest) [ToOwnedFrame I] [FrameReader (OwnedType I)] :
    FrameReader (OwnedType (MultihashFrameOf d I)) :=
  inferInstanceAs (FrameReader (MultihashFrameOf d (OwnedType I)))

instance : FrameReader (OwnedType (CompoundSideReader I)) := inferInstanceAs (FrameReader Bytes)

/-- Two frames that read the same. -/
structure SameFrame {C : Type} [FrameReader C] (copy : C) (reader : I) : Prop where
  exposed : exposedData copy = exposedData reader
  whole : wholeData copy = wholeData reader

/-- The owned copy can be made, and reads as the frame does. -/
def CopiesSame [ToOwnedFrame I] [FrameReader (OwnedType I)] (reader : I) : Prop :=
  ∃ copy, toOwnedFrame reader = some copy ∧ SameFrame copy reader

end Copies

instance Nesting.ownedReader : (n : Nesting) → FrameReader (OwnedType n.Reader)
  | .bytes => inferInstanceAs (FrameReader Bytes)
  | .sized _ => inferInstanceAs (FrameReader (SizedFrame Bytes))
  | .sizedFromNextOffset _ _ => inferInstanceAs (FrameReader (SizedFrame Bytes))
  | .padded below =>
    have := ownedReader below
    inferInstanceAs (FrameReader (PaddedFrame (OwnedType below.Reader)))
  | .multihash d below =>
    have := ownedReader below
    inferInstanceAs (FrameReader (MultihashFrameOf d (OwnedType below.Reader)))
  | .left _ => inferInstanceAs (FrameReader Bytes)
  | .right _ => inferInstanceAs (FrameReader Bytes)

/-- The part of the bytes that a nesting gives as its whole data. -/
def Nesting.wholeView : Nesting → Bytes → Bytes
  | .bytes, data => data
  | .sized below, data => (below.wholeView data).take (u32At (below.view data) 0 + 8)
  | .sizedFromNextOffset nextOffset below, data =>
    let innerSize := u32At (below.view data) (nextOffset - 4)
    ((below.wholeView data).take nextOffset).drop (nextOffset - (innerSize + 8))
  | .padded below, data => below.wholeView data
  | .multihash _ below, data => below.wholeView data
  | .left below, data => below.wholeView data
  | .right below, data => below.wholeView data

/-- The copy is as a whole what the frame is. The copy of a sized frame keeps the offset at which
the frame stood in what it was read from, and the copy of a side is of what the side exposes. -/
def Nesting.KeepsWhole : Nesting → Bytes → Prop
  | .bytes, _ => True
  | .sized _, _ => True
  | .sizedFromNextOffset nextOffset below, data =>
    nextOffset = u32At (below.view data) (nextOffset - 4) + 8
  | .padded below, data => below.KeepsWhole data
  | .multihash _ below, data => below.KeepsWhole data
  | .left below, data =>
    offsetRightOf (below.view data) ≤ (below.view data).length ∧
      (below.view data).take (offsetRightOf (below.view data)) = below.wholeView data
  | .right _, _ => False

/-- The bytes of the whole frame that the copy has before what it exposes. -/
def Nesting.lead : Nesting → ℕ
  | .bytes => 0
  | .sized _ => 4
  | .sizedFromNextOffset _ _ => 4
  | .padded below => below.lead
  | .multihash _ below => below.lead
  | .left _ => 0
  | .right _ => 0

/-- What the frame exposes stands right behind the leading size of the whole frame. Over a frame
whose whole data begins before what it exposes it need not. -/
def Nesting.InPlace (n : Nesting) (data : Bytes) : Prop :=
  n.view data <+: (n.wholeView data).drop n.lead

/-- What a frame reads as, and its copy, where the copy is as a whole what the frame is. -/
structure Copied {I : Type} [FrameReader I] [ToOwnedFrame I] [FrameReader (OwnedType I)]
    (reader : I) (whole : Bytes) (lead : ℕ) (view : Bytes) : Prop where
  exposed : exposedData reader = some view
  whole_eq : wholeData reader = some whole
  fits : lead + view.length ≤ whole.length
  copy : ∃ c, toOwnedFrame reader = some c ∧
    exposedData c = some ((whole.drop lead).take view.length) ∧ wholeData c = some whole

section Layers
variable {I : Type} [FrameReader I]

theorem Copied.copiesSame_iff [ToOwnedFrame I] [FrameReader (OwnedType I)] {reader : I}
    {whole view : Bytes} {lead : ℕ} (h : Copied reader whole lead view) :
    CopiesSame reader ↔ view <+: whole.drop lead := by
  obtain ⟨c, hc, hexposed, hwhole⟩ := h.copy
  rw [List.prefix_iff_eq_take]
  constructor
  · rintro ⟨c', hc', hsame⟩
    obtain rfl := Option.some.inj (hc.symm.trans hc')
    have heq := hsame.exposed
    rw [hexposed, h.exposed] at heq
    exact (Option.some.inj heq).symm
  · intro heq
    refine ⟨c, hc, ?_, hwhole.trans h.whole_eq.symm⟩
    rw [hexposed, h.exposed, ← heq]

theorem take_of_take_drop (whole : Bytes) (lead m n : ℕ) (h : n ≤ m) :
    ((whole.drop lead).take m).take n = (whole.drop lead).take n := by
  rw [List.take_take, Nat.min_eq_left h]

/-- A sized frame at the start of what it was read from. Its copy is read from the whole frame. -/
theorem sizedFrame_copied (inner : I) (n : ℕ) (view whole : Bytes)
    (hview : exposedData inner = some view) (hwhole : wholeData inner = some whole)
    (hle : view.length ≤ whole.length) (hlen : n + 8 ≤ view.length) :
    Copied (⟨inner, 0, n⟩ : SizedFrame I) (whole.take (n + 8)) 4 ((view.take (4 + n)).drop 4) := by
  have hviewLength : ((view.take (4 + n)).drop 4).length = n := by
    rw [List.length_drop, List.length_take]
    omega
  have hwholeLength : (whole.take (n + 8)).length = n + 8 := by
    rw [List.length_take]
    omega
  have hwholeData : wholeData (⟨inner, 0, n⟩ : SizedFrame I) = some (whole.take (n + 8)) := by
    simp only [wholeData, hwhole, Option.bind_eq_bind, Option.bind_some]
    rw [slice_eq_some_iff]
    exact ⟨by omega, by omega, by rw [List.drop_zero, Nat.zero_add]⟩
  refine ⟨?_, hwholeData, by omega, ⟨whole.take (n + 8), 0, n⟩, ?_, ?_, ?_⟩
  · simp only [exposedData, hview, Option.bind_eq_bind, Option.bind_some]
    rw [slice_eq_some_iff]
    exact ⟨by omega, by omega, by rw [Nat.zero_add]⟩
  · show (wholeData (⟨inner, 0, n⟩ : SizedFrame I)).map _ = _
    rw [hwholeData]
    rfl
  · show slice (whole.take (n + 8)) (0 + 4) (0 + 4 + n) = _
    rw [slice_eq_some_iff, hviewLength]
    exact ⟨by omega, by omega, by rw [Nat.zero_add, List.take_drop]⟩
  · show slice (whole.take (n + 8)) 0 (0 + n + 8) = _
    rw [slice_eq_some_iff]
    exact ⟨by omega, by omega, by rw [List.drop_zero, Nat.zero_add, List.take_take, min_self]⟩

variable [ToOwnedFrame I] [FrameReader (OwnedType I)]

theorem paddedFrame_copied (inner : I) (n lead : ℕ) (view whole : Bytes)
    (h : Copied inner whole lead view) (hlen : 4 + n ≤ view.length) :
    Copied (⟨inner, n⟩ : PaddedFrame I) whole lead (view.take (view.length - 4 - n)) := by
  obtain ⟨c, hc, hexposed, hwhole⟩ := h.copy
  have hfits := h.fits
  have hcopyLength : ((whole.drop lead).take view.length).length = view.length := by
    rw [List.length_take, List.length_drop]
    omega
  have hviewLength : (view.take (view.length - 4 - n)).length = view.length - 4 - n := by
    rw [List.length_take]
    omega
  refine ⟨?_, h.whole_eq, by omega, (⟨c, n⟩ : PaddedFrame (OwnedType I)), ?_, ?_, hwhole⟩
  · simp only [exposedData, h.exposed, Option.bind_eq_bind, Option.bind_some, if_pos hlen]
    rw [slice_eq_some_iff]
    exact ⟨by omega, by omega, by rw [List.drop_zero]⟩
  · show (toOwnedFrame inner).map _ = _
    rw [hc]
    rfl
  · show exposedData (⟨c, n⟩ : PaddedFrame (OwnedType I)) = _
    simp only [exposedData, hexposed, Option.bind_eq_bind, Option.bind_some, hcopyLength,
      if_pos hlen]
    rw [slice_eq_some_iff, hviewLength, hcopyLength, List.drop_zero]
    exact ⟨by omega, by omega, (take_of_take_drop whole lead _ _ (by omega)).symm⟩

theorem multihashFrameOf_copied (d : Digest) (inner : I) (lead : ℕ) (view whole : Bytes)
    (h : Copied inner whole lead view) (hlen : d.multihashSize ≤ view.length) :
    Copied (⟨inner⟩ : MultihashFrameOf d I) whole lead
      (view.take (view.length - d.multihashSize)) := by
  obtain ⟨c, hc, hexposed, hwhole⟩ := h.copy
  have hfits := h.fits
  have hcopyLength : ((whole.drop lead).take view.length).length = view.length := by
    rw [List.length_take, List.length_drop]
    omega
  have hviewLength : (view.take (view.length - d.multihashSize)).length =
      view.length - d.multihashSize := by
    rw [List.length_take]
    omega
  refine ⟨(multihashFrameOf_exposed d inner view h.exposed hlen).1, h.whole_eq, by omega,
    (⟨c⟩ : MultihashFrameOf d (OwnedType I)), ?_, ?_, hwhole⟩
  · show (toOwnedFrame inner).map _ = _
    rw [hc]
    rfl
  · show exposedData (⟨c⟩ : MultihashFrameOf d (OwnedType I)) = _
    rw [(multihashFrameOf_exposed d c _ hexposed (by omega)).1, hviewLength, hcopyLength,
      take_of_take_drop whole lead _ _ (by omega)]

end Layers

theorem Nesting.construct_whole (n : Nesting) (data : Bytes) (r : n.Reader)
    (h : n.construct data = .ok r) : wholeData r = some (n.wholeView data) := by
  induction n with
  | bytes =>
    obtain rfl := Except.ok.inj h
    rfl
  | sized below ih =>
    obtain ⟨inner, hinner, hnew⟩ := (bind_eq_ok_iff _ _ _).mp h
    have hhands := (below.construct_reads data inner hinner).handsOn
    obtain ⟨view, n, hview, hn, hlen, rfl⟩ := sizedFrame_new_ok inner r hnew
    obtain rfl := hhands.exposed view hview
    obtain ⟨whole, hwhole, hle⟩ := hhands.whole
    obtain rfl := Option.some.inj ((ih inner hinner).symm.trans hwhole)
    rw [wholeView, u32At_eq _ 0 n hn]
    exact (sizedFrame_copied inner n _ _ hview hwhole hle hlen).whole_eq
  | sizedFromNextOffset nextOffset below ih =>
    obtain ⟨inner, hinner, hnew⟩ := (bind_eq_ok_iff _ _ _).mp h
    have hhands := (below.construct_reads data inner hinner).handsOn
    obtain ⟨view, n, hview, hn, hroom, hlen, rfl⟩ :=
      sizedFrame_newFromNextOffset_ok inner nextOffset r hnew
    obtain rfl := hhands.exposed view hview
    obtain ⟨whole, hwhole, hle⟩ := hhands.whole
    obtain rfl := Option.some.inj ((ih inner hinner).symm.trans hwhole)
    rw [wholeView, u32At_eq _ _ n hn]
    show wholeData (⟨inner, nextOffset - (n + 8), n⟩ : SizedFrame below.Reader) = _
    simp only [wholeData, hwhole, Option.bind_eq_bind, Option.bind_some]
    rw [slice_eq_some_iff]
    exact ⟨by omega, by omega, by congr 2; omega⟩
  | padded below ih =>
    obtain ⟨inner, hinner, hnew⟩ := (bind_eq_ok_iff _ _ _).mp h
    obtain ⟨_, n, -, -, -, rfl⟩ := paddedFrame_new_ok inner r hnew
    exact ih inner hinner
  | multihash d below ih =>
    obtain ⟨inner, hinner, hnew⟩ := (bind_eq_ok_iff _ _ _).mp h
    obtain ⟨_, -, -, rfl⟩ := multihashFrameOf_new_ok d inner r hnew
    exact ih inner hinner
  | left below ih =>
    obtain ⟨inner, hinner, hside⟩ := (bind_eq_ok_iff _ _ _).mp h
    obtain ⟨frame, hnew, hreader⟩ := (bind_eq_ok_iff _ _ _).mp hside
    obtain rfl := Except.ok.inj hreader
    obtain ⟨_, n, -, -, -, rfl⟩ := compoundFrame_new_ok inner frame hnew
    exact ih inner hinner
  | right below ih =>
    obtain ⟨inner, hinner, hside⟩ := (bind_eq_ok_iff _ _ _).mp h
    obtain ⟨frame, hnew, hreader⟩ := (bind_eq_ok_iff _ _ _).mp hside
    obtain rfl := Except.ok.inj hreader
    obtain ⟨_, n, -, -, -, rfl⟩ := compoundFrame_new_ok inner frame hnew
    exact ih inner hinner

theorem Nesting.construct_copied (n : Nesting) (data : Bytes) (r : n.Reader)
    (h : n.construct data = .ok r) (hkeeps : n.KeepsWhole data) :
    Copied r (n.wholeView data) n.lead (n.view data) := by
  induction n with
  | bytes =>
    obtain rfl := Except.ok.inj h
    refine ⟨rfl, rfl, by rw [lead, view, wholeView]; omega, data, rfl, ?_, rfl⟩
    rw [lead, wholeView, view, List.drop_zero, List.take_length]
    rfl
  | sized below ih =>
    obtain ⟨inner, hinner, hnew⟩ := (bind_eq_ok_iff _ _ _).mp h
    have hhands := (below.construct_reads data inner hinner).handsOn
    obtain ⟨view, n, hview, hn, hlen, rfl⟩ := sizedFrame_new_ok inner r hnew
    obtain rfl := hhands.exposed view hview
    obtain ⟨whole, hwhole, hle⟩ := hhands.whole
    obtain rfl := Option.some.inj ((below.construct_whole data inner hinner).symm.trans hwhole)
    rw [Nesting.wholeView, Nesting.view, u32At_eq _ 0 n hn]
    exact sizedFrame_copied inner n _ _ hview hwhole hle hlen
  | sizedFromNextOffset nextOffset below ih =>
    obtain ⟨inner, hinner, hnew⟩ := (bind_eq_ok_iff _ _ _).mp h
    have hhands := (below.construct_reads data inner hinner).handsOn
    obtain ⟨view, n, hview, hn, hroom, hlen, rfl⟩ :=
      sizedFrame_newFromNextOffset_ok inner nextOffset r hnew
    obtain rfl := hhands.exposed view hview
    obtain ⟨whole, hwhole, hle⟩ := hhands.whole
    obtain rfl := Option.some.inj ((below.construct_whole data inner hinner).symm.trans hwhole)
    have hsize := u32At_eq _ _ n hn
    rw [KeepsWhole, hsize] at hkeeps
    have hcopied := sizedFrame_copied inner n _ _ hview hwhole hle (by omega)
    have hoffset : nextOffset - (n + 8) = 0 := by omega
    have hend : nextOffset - 4 = 4 + n := by omega
    rw [Nesting.wholeView, Nesting.view, hsize, hoffset, hend, Nat.zero_add, List.drop_zero,
      hkeeps]
    exact hcopied
  | padded below ih =>
    obtain ⟨inner, hinner, hnew⟩ := (bind_eq_ok_iff _ _ _).mp h
    have hbelow := ih inner hinner hkeeps
    obtain ⟨view, n, hview, hn, hlen, rfl⟩ := paddedFrame_new_ok inner r hnew
    obtain rfl := Option.some.inj (hbelow.exposed.symm.trans hview)
    rw [Nesting.view, u32At_eq _ _ n hn]
    exact paddedFrame_copied inner n _ _ _ hbelow hlen
  | multihash d below ih =>
    obtain ⟨inner, hinner, hnew⟩ := (bind_eq_ok_iff _ _ _).mp h
    have hbelow := ih inner hinner hkeeps
    obtain ⟨view, hview, hlen, rfl⟩ := multihashFrameOf_new_ok d inner r hnew
    obtain rfl := Option.some.inj (hbelow.exposed.symm.trans hview)
    exact multihashFrameOf_copied d inner _ _ _ hbelow hlen
  | left below ih =>
    have hwhole := (Nesting.left below).construct_whole data r h
    obtain ⟨inner, hinner, hside⟩ := (bind_eq_ok_iff _ _ _).mp h
    obtain ⟨frame, hnew, hreader⟩ := (bind_eq_ok_iff _ _ _).mp hside
    obtain rfl := Except.ok.inj hreader
    have hhands := (below.construct_reads data inner hinner).handsOn
    obtain ⟨view, n, hview, hlen, hn, rfl⟩ := compoundFrame_new_ok inner frame hnew
    obtain rfl := hhands.exposed view hview
    obtain ⟨hinside, heq⟩ := hkeeps
    have hexposed := (sideReader_exposed inner n _ hview hlen).1
    rw [offsetRightOf, u32At_eq _ _ n hn] at hinside heq
    have hslice : slice (below.view data) 0 n = some ((Nesting.left below).view data) := by
      rw [slice_eq_some_iff, Nesting.view, offsetRightOf, u32At_eq _ _ n hn]
      exact ⟨by omega, hinside, by rw [List.drop_zero]⟩
    have hview' : (Nesting.left below).view data = (Nesting.left below).wholeView data := by
      rw [Nesting.view, offsetRightOf, u32At_eq _ _ n hn, heq]
      rfl
    rw [hslice] at hexposed
    refine ⟨hexposed, hwhole, by rw [hview', lead]; omega, (Nesting.left below).view data, hexposed,
      ?_, ?_⟩
    · rw [lead, List.drop_zero, ← hview', List.take_length]
      rfl
    · rw [← hview']
      rfl
  | right below ih => exact hkeeps.elim

/-- Otherwise the copy is another frame, if it can be made: its whole data are out of range, or
those of a side alone. -/
theorem Nesting.copy_whole_ne (n : Nesting) (data : Bytes) (r : n.Reader)
    (h : n.construct data = .ok r) (hkeeps : ¬ n.KeepsWhole data) (c : OwnedType n.Reader)
    (hc : ToOwnedFrame.toOwnedFrame r = some c) : wholeData c ≠ some (n.wholeView data) := by
  induction n with
  | bytes => exact absurd trivial hkeeps
  | sized below ih => exact absurd trivial hkeeps
  | sizedFromNextOffset nextOffset below ih =>
    have hwhole := (Nesting.sizedFromNextOffset nextOffset below).construct_whole data r h
    obtain ⟨inner, hinner, hnew⟩ := (bind_eq_ok_iff _ _ _).mp h
    have hhands := (below.construct_reads data inner hinner).handsOn
    obtain ⟨view, n, hview, hn, hroom, hlen, rfl⟩ :=
      sizedFrame_newFromNextOffset_ok inner nextOffset r hnew
    obtain rfl := hhands.exposed view hview
    rw [KeepsWhole, u32At_eq _ _ n hn] at hkeeps
    obtain ⟨whole, hinnerWhole, hle⟩ := hhands.whole
    have hsome : slice whole (nextOffset - (n + 8)) (nextOffset - (n + 8) + n + 8) =
        some ((Nesting.sizedFromNextOffset nextOffset below).wholeView data) := by
      have hsliced := hwhole
      change wholeData (⟨inner, nextOffset - (n + 8), n⟩ : SizedFrame below.Reader) = _ at hsliced
      simp only [wholeData, hinnerWhole, Option.bind_eq_bind, Option.bind_some] at hsliced
      exact hsliced
    have hwholeLength := slice_length _ _ _ _ hsome
    change (wholeData (⟨inner, nextOffset - (n + 8), n⟩ : SizedFrame below.Reader)).map _ =
      some c at hc
    rw [show wholeData (⟨inner, nextOffset - (n + 8), n⟩ : SizedFrame below.Reader) = _
      from hwhole] at hc
    obtain rfl := Option.some.inj hc
    -- the offset is that in the larger buffer, and the copy is no longer than the frame
    show slice ((Nesting.sizedFromNextOffset nextOffset below).wholeView data)
      (nextOffset - (n + 8)) (nextOffset - (n + 8) + n + 8) ≠ _
    intro hslice
    rw [slice_eq_some_iff] at hslice
    omega
  | padded below ih =>
    obtain ⟨inner, hinner, hnew⟩ := (bind_eq_ok_iff _ _ _).mp h
    obtain ⟨_, n, -, -, -, rfl⟩ := paddedFrame_new_ok inner r hnew
    obtain ⟨c', hc', rfl⟩ := Option.map_eq_some_iff.mp hc
    exact ih inner hinner hkeeps c' hc'
  | multihash d below ih =>
    obtain ⟨inner, hinner, hnew⟩ := (bind_eq_ok_iff _ _ _).mp h
    obtain ⟨_, -, -, rfl⟩ := multihashFrameOf_new_ok d inner r hnew
    obtain ⟨c', hc', rfl⟩ := Option.map_eq_some_iff.mp hc
    exact ih inner hinner hkeeps c' hc'
  | left below ih =>
    obtain ⟨inner, hinner, hside⟩ := (bind_eq_ok_iff _ _ _).mp h
    obtain ⟨frame, hnew, hreader⟩ := (bind_eq_ok_iff _ _ _).mp hside
    obtain rfl := Except.ok.inj hreader
    have hhands := (below.construct_reads data inner hinner).handsOn
    obtain ⟨view, n, hview, hlen, hn, rfl⟩ := compoundFrame_new_ok inner frame hnew
    obtain rfl := hhands.exposed view hview
    rw [KeepsWhole, offsetRightOf, u32At_eq _ _ n hn] at hkeeps
    have hslice : slice (below.view data) 0 n = some c :=
      (sideReader_exposed inner n _ hview hlen).1.symm.trans hc
    rw [slice_eq_some_iff, List.drop_zero] at hslice
    intro heq
    exact hkeeps ⟨hslice.2.1, hslice.2.2.symm.trans (Option.some.inj heq)⟩
  | right below ih =>
    obtain ⟨inner, hinner, hside⟩ := (bind_eq_ok_iff _ _ _).mp h
    obtain ⟨frame, hnew, hreader⟩ := (bind_eq_ok_iff _ _ _).mp hside
    obtain rfl := Except.ok.inj hreader
    have hhands := (below.construct_reads data inner hinner).handsOn
    obtain ⟨view, n, hview, hlen, hn, rfl⟩ := compoundFrame_new_ok inner frame hnew
    obtain rfl := hhands.exposed view hview
    obtain ⟨whole, hwhole, hle⟩ := hhands.whole
    obtain rfl := Option.some.inj ((below.construct_whole data inner hinner).symm.trans hwhole)
    have hslice : slice (below.view data) n ((below.view data).length - 4) = some c :=
      (sideReader_exposed inner n _ hview hlen).2.symm.trans hc
    have hlength := slice_length _ _ _ _ hslice
    intro heq
    have hshort : c.length = (below.wholeView data).length :=
      congrArg List.length (Option.some.inj heq)
    omega

/-- A frame and its copy read the same exactly where the copy has the whole frame and finds there
what the frame exposes. -/
theorem Nesting.copiesSame_iff (n : Nesting) (data : Bytes) (r : n.Reader)
    (h : n.construct data = .ok r) : CopiesSame r ↔ n.KeepsWhole data ∧ n.InPlace data := by
  by_cases hkeeps : n.KeepsWhole data
  · rw [(n.construct_copied data r h hkeeps).copiesSame_iff, InPlace]
    exact (and_iff_right hkeeps).symm
  · refine iff_of_false ?_ fun hboth => hkeeps hboth.1
    rintro ⟨c, hc, hsame⟩
    exact n.copy_whole_ne data r h hkeeps c hc (hsame.whole.trans (n.construct_whole data r h))

/-- What stands behind the leading size of a frame, with the trailing one or without it. -/
theorem behind_size_prefix (data : Bytes) (n : ℕ) :
    (data.take (4 + n)).drop 4 <+: (data.take (n + 8)).drop 4 :=
  (List.take_prefix_take_left (by omega)).drop 4

/-- A sized frame over one that begins where its whole data begin finds what it exposes. -/
theorem Nesting.inPlace_sized (below : Nesting) (data : Bytes)
    (h : below.view data <+: below.wholeView data)
    (hlen : u32At (below.view data) 0 + 8 ≤ (below.view data).length) :
    (Nesting.sized below).InPlace data := by
  obtain ⟨rest, hrest⟩ := h
  rw [InPlace, view, wholeView, lead, ← hrest, List.take_append_of_le_length hlen]
  exact behind_size_prefix _ _

/-- A sized frame that was read from its first byte. -/
theorem sizedFrame_copiesSame (data : Bytes) (f : SizedFrame Bytes)
    (h : SizedFrame.new data = .ok f) : CopiesSame f := by
  obtain ⟨n, -, hlen, rfl⟩ := (sizedFrame_new_eq_ok_iff data f).mp h
  have hcopied := sizedFrame_copied data n data data rfl rfl le_rfl hlen
  rw [hcopied.copiesSame_iff]
  exact behind_size_prefix data n

section Lifting
variable {I : Type} [FrameReader I] [ToOwnedFrame I] [FrameReader (OwnedType I)]

/-- What a padded frame reads is made of what is below it. -/
theorem paddedFrame_copiesSame (inner : I) (n : ℕ) (h : CopiesSame inner) :
    CopiesSame (⟨inner, n⟩ : PaddedFrame I) := by
  obtain ⟨copy, hcopy, hsame⟩ := h
  refine ⟨(⟨copy, n⟩ : PaddedFrame (OwnedType I)), ?_, ?_, hsame.whole⟩
  · exact Option.map_eq_some_iff.mpr ⟨copy, hcopy, rfl⟩
  · show exposedData (⟨copy, n⟩ : PaddedFrame (OwnedType I)) = _
    simp only [exposedData, hsame.exposed]

end Lifting

structure CapnpFrame (I : Type) where
  inner : I

/-- A frame with its message, whose segments were read when it was constructed. -/
structure TypedCapnpFrame {T : Type} (decode : MessageReader T) (I : Type) where
  inner : CapnpFrame I
  reader : Option T

section Capnp
variable {I T : Type} [FrameReader I] (decode : MessageReader T)

instance : FrameReader (CapnpFrame I) where
  exposedData f := exposedData f.inner
  wholeData f := wholeData f.inner

instance [ToOwnedFrame I] : ToOwnedFrame (CapnpFrame I) where
  OwnedType := CapnpFrame (OwnedType I)
  toOwnedFrame f := (toOwnedFrame f.inner).map fun inner => ⟨inner⟩

instance : FrameReader (TypedCapnpFrame decode I) where
  exposedData f := exposedData f.inner
  wholeData f := wholeData f.inner

def TypedCapnpFrame.fromCapnp (capnpFrame : CapnpFrame I) :
    Res FramingError (TypedCapnpFrame decode I) := do
  let data ← orPanic (exposedData capnpFrame)
  let reader ← orError .capnp (decode data)
  pure ⟨capnpFrame, reader⟩

def TypedCapnpFrame.new (data : I) : Res FramingError (TypedCapnpFrame decode I) :=
  fromCapnp decode ⟨data⟩

variable [ToOwnedFrame I] [FrameReader (OwnedType I)]

instance : FrameReader (OwnedType (CapnpFrame I)) :=
  inferInstanceAs (FrameReader (CapnpFrame (OwnedType I)))

/-- The copy reads its message again, and panics where that fails. -/
instance : ToOwnedFrame (TypedCapnpFrame decode I) where
  OwnedType := TypedCapnpFrame decode (CapnpFrame (OwnedType I))
  toOwnedFrame f := (toOwnedFrame f.inner).bind fun inner =>
    (TypedCapnpFrame.new decode inner).toOption

instance : FrameReader (OwnedType (TypedCapnpFrame decode I)) :=
  inferInstanceAs (FrameReader (TypedCapnpFrame decode (CapnpFrame (OwnedType I))))

/-- The `to_owned` that blocks are copied with. -/
def TypedCapnpFrame.toOwned (f : TypedCapnpFrame decode I) :
    Option (TypedCapnpFrame decode (OwnedType I)) :=
  (toOwnedFrame f.inner).bind fun inner => (TypedCapnpFrame.fromCapnp decode inner).toOption

variable {decode}

omit [ToOwnedFrame I] [FrameReader (OwnedType I)] in
theorem fromCapnp_eq_ok_iff (capnpFrame : CapnpFrame I) (f : TypedCapnpFrame decode I) :
    TypedCapnpFrame.fromCapnp decode capnpFrame = .ok f ↔
      ∃ data reader, exposedData capnpFrame = some data ∧ decode data = some reader ∧
        f = ⟨capnpFrame, reader⟩ := by
  simp only [TypedCapnpFrame.fromCapnp, bind_eq_ok_iff, orPanic_eq_ok_iff, orError_eq_ok_iff, pure,
    Except.pure, Except.ok.injEq]
  constructor
  · rintro ⟨data, hdata, reader, hreader, rfl⟩
    exact ⟨data, reader, hdata, hreader, rfl⟩
  · rintro ⟨data, reader, hdata, hreader, rfl⟩
    exact ⟨data, hdata, reader, hreader, rfl⟩

/-- A message on top of a frame changes nothing about its copies: where the copy is the same frame
its message reads as before, and where it is another one no message makes it the same. -/
theorem typedCapnpFrame_copiesSame_iff (r : I) (f : TypedCapnpFrame decode I)
    (h : TypedCapnpFrame.new decode r = .ok f) : CopiesSame f ↔ CopiesSame r := by
  obtain ⟨data, reader, hdata, hreader, rfl⟩ := (fromCapnp_eq_ok_iff _ f).mp h
  constructor
  · rintro ⟨c, hc, hsame⟩
    obtain ⟨c', hc', htyped⟩ := Option.bind_eq_some_iff.mp hc
    obtain ⟨copy, hcopy, rfl⟩ := Option.map_eq_some_iff.mp hc'
    obtain ⟨_, _, -, -, rfl⟩ := (fromCapnp_eq_ok_iff _ c).mp ((toOption_eq_some_iff _ _).mp htyped)
    exact ⟨copy, hcopy, hsame.exposed, hsame.whole⟩
  · rintro ⟨copy, hcopy, hsame⟩
    have hexposed : exposedData (⟨⟨copy⟩⟩ : CapnpFrame (CapnpFrame (OwnedType I))) = some data :=
      hsame.exposed.trans hdata
    refine ⟨⟨⟨⟨copy⟩⟩, reader⟩, Option.bind_eq_some_iff.mpr ⟨⟨copy⟩, ?_, ?_⟩, hsame.exposed,
      hsame.whole⟩
    · exact Option.map_eq_some_iff.mpr ⟨copy, hcopy, rfl⟩
    · exact (toOption_eq_some_iff _ _).mpr ((fromCapnp_eq_ok_iff _ _).mpr
        ⟨data, reader, hexposed, hreader, rfl⟩)

/-- The copy that a block makes of its frames. -/
theorem toOwned_same (r : I) (f : TypedCapnpFrame decode I)
    (h : TypedCapnpFrame.new decode r = .ok f) (hr : CopiesSame r) :
    ∃ copy, f.toOwned = some copy ∧ SameFrame copy f := by
  obtain ⟨data, reader, hdata, hreader, rfl⟩ := (fromCapnp_eq_ok_iff _ f).mp h
  obtain ⟨copy, hcopy, hsame⟩ := hr
  have hexposed : exposedData (⟨copy⟩ : CapnpFrame (OwnedType I)) = some data :=
    hsame.exposed.trans hdata
  refine ⟨⟨⟨copy⟩, reader⟩, Option.bind_eq_some_iff.mpr ⟨⟨copy⟩, ?_, ?_⟩, hsame.exposed,
    hsame.whole⟩
  · exact Option.map_eq_some_iff.mpr ⟨copy, hcopy, rfl⟩
  · rw [toOption_eq_some_iff, fromCapnp_eq_ok_iff]
    exact ⟨data, reader, hexposed, hreader, rfl⟩

omit [FrameReader I] in
theorem toOwned_eq_none (f : TypedCapnpFrame decode I)
    (h : ∀ copy, toOwnedFrame f.inner.inner = some copy → exposedData copy = none) :
    f.toOwned = none := by
  rw [TypedCapnpFrame.toOwned, Option.bind_eq_none_iff]
  intro copy hcopy
  obtain ⟨copy', hcopy', rfl⟩ := Option.map_eq_some_iff.mp hcopy
  have hnone : exposedData (⟨copy'⟩ : CapnpFrame (OwnedType I)) = none := h copy' hcopy'
  rw [TypedCapnpFrame.fromCapnp, hnone]
  rfl

end Capnp

end Exocore.Core
