import Mathlib
import Exocore.ChainOpenScan
import Exocore.ChainTakes

/-! Opening a directory that a store left: the saved offsets do not matter to what is opened,
and a chain whose segments were opened at its end opens as it was written. -/
namespace Exocore.Chain

open Exocore.Core

open DirectorySegment (segmentPath isSegmentFile openWithMetadata)
open StoreOnDisk (saveMetadata segmentFile)

theorem segmentPath_injective (a b : ℕ) (h : segmentPath a = segmentPath b) : a = b := by
  have hchars := congrArg String.toList h
  simp only [segmentPath, String.toList_append, List.append_cancel_left_eq,
    List.append_cancel_right_eq] at hchars
  exact Nat.repr_injective (String.toList_injective hchars)

theorem isSegmentFile_segmentPath (offset : ℕ) : isSegmentFile (segmentPath offset) = true := by
  rw [isSegmentFile, String.startsWith_string_iff]
  simp only [segmentPath, String.toList_append, List.append_assoc]
  exact List.prefix_append _ _

/-- The segment as it is after its file was opened again. -/
def reopened (s : DirectorySegment) : DirectorySegment :=
  openWithMetadata s.segmentFile.data s.metadata

theorem saveMetadata_concat (l : List DirectorySegment) (seg : DirectorySegment) :
    saveMetadata (l ++ [seg]) = l.map DirectorySegment.metadata := by
  rw [saveMetadata, List.map_append, List.map_singleton, List.dropLast_concat]

/-- Segments that start at different offsets are sorted in one way. -/
theorem sortByFirstOffset_perm (l l' : List DirectorySegment) (hperm : l.Perm l')
    (hdistinct : (l'.map DirectorySegment.firstBlockOffset).Nodup) :
    DirectoryChainStore.sortByFirstOffset l = DirectoryChainStore.sortByFirstOffset l' := by
  set le : DirectorySegment → DirectorySegment → Prop :=
    fun a b => a.firstBlockOffset ≤ b.firstBlockOffset
  have : Std.Total le := ⟨fun a b => Nat.le_total _ _⟩
  have : IsTrans DirectorySegment le := ⟨fun a b c => Nat.le_trans⟩
  have hsorted := List.pairwise_insertionSort le l
  have hsorted' := List.pairwise_insertionSort le l'
  have hsame := ((List.perm_insertionSort le l).trans hperm).trans
    (List.perm_insertionSort le l').symm
  refine List.Perm.eq_of_pairwise ?_ hsorted hsorted' hsame
  intro a b ha hb hab hba
  have ha' := hperm.mem_iff.mp ((List.perm_insertionSort le l).mem_iff.mp ha)
  have hb' := (List.perm_insertionSort le l').mem_iff.mp hb
  exact List.inj_on_of_nodup_map hdistinct ha' hb' (Nat.le_antisymm hab hba)

variable [Crates]

/-- A segment as writes leave it. -/
def SegmentKept (s : DirectorySegment) : Prop :=
  (∃ blocks, SegmentHolds s blocks) ∧ InStep s ∧ ZeroPadded s

theorem segmentKept_mmap (s : DirectorySegment) (mode : SegmentMmap) (h : SegmentKept s) :
    SegmentKept { s with segmentFile := { s.segmentFile with mmap := mode } } := by
  obtain ⟨⟨blocks, hblocks⟩, hstep, hzero⟩ := h
  exact ⟨⟨blocks, segmentHolds_mmap s blocks mode hblocks⟩, hstep, hzero⟩

/-- What every write keeps, wherever it puts its block: the segments are sound one by one, they
have their own files, and all but the last have their offsets saved. -/
structure Kept (d : StoreOnDisk) : Prop where
  segments : ∀ seg ∈ d.store.segments, SegmentKept seg
  distinct : (d.store.segments.map DirectorySegment.firstBlockOffset).Nodup
  metadata : d.metadata.getD [] = saveMetadata d.store.segments
  operationIndex : d.store.operationIndex.isSome

theorem kept_create (config : DirectoryChainStoreConfig) : Kept (StoreOnDisk.create config) :=
  ⟨fun seg hseg => by contradiction, List.nodup_nil, rfl, rfl⟩

/-- The ways a write can end on the segments, where what it takes is framed. -/
theorem writeSegment_kept (s : DirectoryChainStore) (b : DataBlock)
    (hb : TakesBlock s b → Framed b) (hkept : ∀ seg ∈ s.segments, SegmentKept seg) :
    (∃ e, s.writeSegment b = (.error e, refusedSegments s b)) ∨
      (s.needNewSegment b = true ∧ ∃ seg, s.writeSegment b =
          (.ok (), DirectoryChainStore.closeWriteLast s.segments ++ [seg]) ∧ SegmentKept seg ∧
        seg.firstBlockOffset ∉ s.segments.map DirectorySegment.firstBlockOffset) ∨
      (s.needNewSegment b = false ∧ ∃ l seg seg', s.segments = l ++ [seg] ∧
        s.writeSegment b = (.ok (), l ++ [seg']) ∧ SegmentKept seg' ∧
        seg'.firstBlockOffset = seg.firstBlockOffset) := by
  by_cases htaken : TakesBlock s b
  case neg => exact Or.inl (writeSegment_not_taken s b htaken)
  have hframed := hb htaken
  right
  rw [TakesBlock] at htaken
  rw [DirectoryChainStore.writeSegment]
  cases hnew : s.needNewSegment b with
  | true =>
    rw [if_pos hnew] at htaken
    obtain ⟨header, hreader, hfree⟩ := htaken
    obtain ⟨m, hm, hoff, -, -⟩ := hframed.headerAgrees
    obtain rfl := Option.some.inj (hreader.symm.trans hm)
    rw [hoff] at hfree
    have hmem := hfree
    rw [← closeWriteLast_first] at hmem
    obtain ⟨seg, hcreate, hseg, hstep, hfirst, -⟩ :=
      segment_create_holds s.config _ b hframed hmem
    have hzero := create_zeroPadded _ _ _ _ hcreate
    left
    refine ⟨rfl, { seg with segmentFile := seg.segmentFile.openWrite },
      by simp only [↓reduceIte, hcreate],
      segmentKept_mmap seg .write ⟨⟨[b], hseg⟩, hstep, hzero⟩, ?_⟩
    simpa only [hfirst] using hfree
  | false =>
    rw [if_neg (by simp [hnew])] at htaken
    obtain ⟨seg, hlast, hoff⟩ := htaken
    obtain ⟨l, last, hsegs⟩ := exists_last_segment s b (by simp [hnew])
    rw [hsegs, List.getLast?_concat] at hlast
    obtain rfl := Option.some.inj hlast
    obtain ⟨⟨blocks, hblocks⟩, hstep, hzero⟩ := hkept last (by rw [hsegs]; simp)
    obtain ⟨seg', hwrite, hseg', hstep', hfirst, -⟩ := segment_writeBlock_holds s.config last
      blocks b hblocks hstep hframed hoff
    have hzero' := writeBlock_zeroPadded _ _ _ _ hzero hwrite
    right
    refine ⟨rfl, l, last, seg', hsegs, ?_, ⟨⟨_, hseg'⟩, hstep', hzero'⟩, hfirst⟩
    simp only [Bool.false_eq_true, ↓reduceIte, hsegs, List.getLast?_concat, hwrite,
      List.dropLast_concat]

theorem writeBlock_operationIndex (s : DirectoryChainStore) (b : DataBlock)
    (h : s.operationIndex.isSome) : (s.writeBlock b).2.operationIndex.isSome := by
  rw [DirectoryChainStore.writeBlock]
  cases s.writeSegment b with
  | mk res segments =>
    cases res with
    | error e => exact h
    | ok u =>
      simp only
      split
      · split <;> rfl
      · exact h

theorem closeWriteLast_kept (segs : List DirectorySegment) (h : ∀ seg ∈ segs, SegmentKept seg) :
    ∀ seg ∈ DirectoryChainStore.closeWriteLast segs, SegmentKept seg := by
  rcases List.eq_nil_or_concat segs with rfl | ⟨l, last, rfl⟩
  · exact h
  · rw [List.concat_eq_append] at h ⊢
    rw [closeWriteLast_append]
    intro seg hseg
    rcases List.mem_append.mp hseg with hseg | hseg
    · exact h seg (List.mem_append_left _ hseg)
    · rw [List.mem_singleton.mp hseg]
      exact segmentKept_mmap last .read (h last (by simp))

theorem refusedSegments_kept (s : DirectoryChainStore) (b : DataBlock)
    (h : ∀ seg ∈ s.segments, SegmentKept seg) : ∀ seg ∈ refusedSegments s b, SegmentKept seg := by
  rw [refusedSegments]
  split_ifs
  · exact closeWriteLast_kept s.segments h
  · exact h

/-- One write, with whatever result. -/
theorem writeBlock_kept (d : StoreOnDisk) (b : DataBlock) (h : Kept d)
    (hb : TakesBlock d.store b → Framed b) : Kept (d.writeBlock b).2 := by
  have hindex := writeBlock_operationIndex d.store b h.operationIndex
  have hsegs := writeBlock_segments d.store b
  have hmeta := h.metadata
  rcases writeSegment_kept d.store b hb h.segments with ⟨e, hwrite⟩ |
    ⟨hnew, seg, hwrite, hseg, hfresh⟩ | ⟨hnew, l, seg, seg', hsplit, hwrite, hseg, hsame⟩
  · rw [hwrite] at hsegs
    have hfirsts := refusedSegments_map DirectorySegment.firstBlockOffset d.store b fun _ => rfl
    have hsaved := refusedSegments_map DirectorySegment.metadata d.store b fun _ => rfl
    refine ⟨?_, ?_, ?_, hindex⟩
    · rw [StoreOnDisk.writeBlock, hsegs]
      exact refusedSegments_kept d.store b h.segments
    · rw [StoreOnDisk.writeBlock, hsegs, hfirsts]
      exact h.distinct
    · simp only [StoreOnDisk.writeBlock, StoreOnDisk.savedByWrite, hwrite, hsegs, ite_self]
      rw [hmeta, saveMetadata, saveMetadata, hsaved]
  · rw [hwrite] at hsegs
    have hfirsts := closeWriteLast_first d.store.segments
    refine ⟨?_, ?_, ?_, hindex⟩
    · rw [StoreOnDisk.writeBlock, hsegs]
      intro x hx
      rcases List.mem_append.mp hx with hx | hx
      · exact closeWriteLast_kept d.store.segments h.segments x hx
      · rw [List.mem_singleton.mp hx]
        exact hseg
    · rw [StoreOnDisk.writeBlock, hsegs, List.map_append, hfirsts, List.map_singleton]
      exact List.nodup_append.mpr ⟨h.distinct, List.nodup_singleton _, fun a ha c hc => by
        rw [List.mem_singleton.mp hc]
        rintro rfl
        exact hfresh ha⟩
    · simp only [StoreOnDisk.writeBlock, StoreOnDisk.savedByWrite, hnew, hwrite, hsegs, if_true,
        Option.getD_some]
  · rw [hwrite] at hsegs
    refine ⟨?_, ?_, ?_, hindex⟩
    · rw [StoreOnDisk.writeBlock, hsegs]
      intro x hx
      rcases List.mem_append.mp hx with hx | hx
      · exact h.segments x (by rw [hsplit]; exact List.mem_append_left _ hx)
      · rw [List.mem_singleton.mp hx]
        exact hseg
    · have hd := h.distinct
      rw [hsplit, List.map_append, List.map_singleton, ← hsame] at hd
      rw [StoreOnDisk.writeBlock, hsegs, List.map_append, List.map_singleton]
      exact hd
    · simp only [StoreOnDisk.writeBlock, StoreOnDisk.savedByWrite, hnew, hsegs]
      rw [saveMetadata_concat]
      rw [hsplit, saveMetadata_concat] at hmeta
      exact hmeta

/-- A file of the store opens as its segment, from offsets that were saved for it or from a
scan. -/
theorem openSegment_eq (segs : List DirectorySegment) (saved : List SegmentMetadata)
    (hdistinct : (segs.map DirectorySegment.firstBlockOffset).Nodup)
    (hsaved : ∀ m ∈ saved, ∃ seg ∈ segs, seg.metadata = m) (seg : DirectorySegment)
    (hseg : seg ∈ segs) (hkept : SegmentKept seg) :
    DirectoryChainStore.openSegment saved (segmentFile seg) = .ok (reopened seg) := by
  rw [DirectoryChainStore.openSegment]
  cases hfind : saved.reverse.find? fun m => m.filename = (segmentFile seg).1 with
  | some m =>
    obtain ⟨seg', hseg', hm⟩ := hsaved m (List.mem_reverse.mp (List.mem_of_find?_eq_some hfind))
    have hname : m.filename = (segmentFile seg).1 := by simpa using List.find?_some hfind
    rw [← hm] at hname
    have hsame := List.inj_on_of_nodup_map hdistinct hseg' hseg (segmentPath_injective _ _ hname)
    rw [← hm, hsame]
    rfl
  | none =>
    obtain ⟨⟨blocks, hblocks⟩, hstep, hzero⟩ := hkept
    simp only [DirectorySegment.openScan, segmentFile, ok_bind,
      fromSegmentFile_eq seg blocks _ hblocks hstep hzero]
    rfl

/-- The entries that are not segment files are passed over. -/
theorem openSegments_eq (saved : List SegmentMetadata) (files : List (String × Bytes))
    (f : String × Bytes → DirectorySegment) (h : ∀ file ∈ files, isSegmentFile file.1 = true →
      DirectoryChainStore.openSegment saved file = .ok (f file)) :
    DirectoryChainStore.openSegments saved files =
      .ok ((files.filter fun file => isSegmentFile file.1).map f) := by
  induction files with
  | nil => rfl
  | cons file files ih =>
    have hrest := ih fun x hx => h x (List.mem_cons_of_mem _ hx)
    rw [DirectoryChainStore.openSegments]
    cases hfile : isSegmentFile file.1 with
    | true =>
      rw [List.filter_cons_of_pos (by simpa using hfile), List.map_cons, if_pos rfl,
        h file List.mem_cons_self hfile, hrest]
      rfl
    | false =>
      rw [List.filter_cons_of_neg (by simp [hfile]), if_neg (by simp), hrest]

omit [Crates] in
/-- The segment files among the entries of the directory. -/
theorem leftIn_segmentFiles (d : StoreOnDisk) (dir : ChainDirectory) (h : d.LeftIn dir) :
    (dir.files.filter fun file => isSegmentFile file.1).Perm (d.store.segments.map segmentFile) := by
  obtain ⟨others, hothers, hperm⟩ := h.files
  refine (hperm.filter _).trans ?_
  rw [List.filter_append, List.filter_eq_self.mpr, List.filter_eq_nil_iff.mpr, List.append_nil]
  · intro file hfile
    simp [hothers file hfile]
  · intro file hfile
    obtain ⟨seg, -, rfl⟩ := List.mem_map.mp hfile
    exact isSegmentFile_segmentPath _

/-- Whichever offsets of the store are used, the directory opens from the segments and the
index files that the store left. -/
theorem openDirectory_eq (config : DirectoryChainStoreConfig) (d : StoreOnDisk) (h : Kept d)
    (dir : ChainDirectory) (hdir : d.LeftIn dir) (saved : Option (List SegmentMetadata))
    (hsaved : saved = dir.metadata ∨ saved = none) :
    DirectoryChainStore.openDirectory config { dir with metadata := saved } =
      DirectoryChainStore.openIndex config (DirectoryChainStore.openWriteLast
        (DirectoryChainStore.sortByFirstOffset (d.store.segments.map reopened)))
        (d.store.operationIndex.map OperationIndex.storedIndices) := by
  have hlisted : ∀ m ∈ saved.getD [], ∃ seg ∈ d.store.segments, seg.metadata = m := by
    intro m hm
    rcases hsaved with rfl | rfl
    · rw [hdir.metadata, h.metadata] at hm
      exact List.mem_map.mp (List.mem_of_mem_dropLast hm)
    · contradiction
  have hopen : ∀ seg ∈ d.store.segments,
      DirectoryChainStore.openSegment (saved.getD []) (segmentFile seg) = .ok (reopened seg) :=
    fun seg hseg => openSegment_eq _ _ h.distinct hlisted seg hseg (h.segments seg hseg)
  -- what a file opens as, for the files that are not of this store too
  set f : String × Bytes → DirectorySegment := fun file =>
    (DirectoryChainStore.openSegment (saved.getD []) file).toOption.getD
      (openWithMetadata file.2 ⟨file.1, 0, 0⟩) with hf
  have hfiles := leftIn_segmentFiles d dir hdir
  have hsegments := openSegments_eq (saved.getD []) dir.files f (by
    intro file hfile hname
    have hmem := hfiles.mem_iff.mp (List.mem_filter.mpr ⟨hfile, hname⟩)
    obtain ⟨seg, hseg, rfl⟩ := List.mem_map.mp hmem
    rw [hf]
    simp only [hopen seg hseg]
    rfl)
  have hmap : (d.store.segments.map segmentFile).map f = d.store.segments.map reopened := by
    rw [List.map_map]
    apply List.map_congr_left
    intro seg hseg
    simp only [Function.comp, hf, hopen seg hseg]
    rfl
  have hperm := hfiles.map f
  rw [hmap] at hperm
  have hdistinct : ((d.store.segments.map reopened).map DirectorySegment.firstBlockOffset).Nodup := by
    rw [List.map_map]
    exact h.distinct
  rw [DirectoryChainStore.openDirectory]
  simp only [hsegments, ok_bind, sortByFirstOffset_perm _ _ hperm hdistinct, hdir.operationIndex]

end Exocore.Chain
