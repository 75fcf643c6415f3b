import Exocore.ChainTrackerFiles

/-! What the tracker has of the segments of a store, in every run that does not forget it. -/
namespace Exocore.Chain.Tracking

open SegmentTracker

/-- What a call on a segment file does to the tracker, as far as the other segments go. -/
structure Changes (t : SegmentTracker) (f : SegmentFile) (t' : SegmentTracker) (f' : SegmentFile) :
    Prop where
  segment_eq : f'.registeredSegment = f.registeredSegment
  nextId_eq : t'.nextId = t.nextId
  maxOpen_eq : t'.maxOpen = t.maxOpen
  others : ∀ id, id ≠ f.registeredSegment →
    t'.stateOf id = t.stateOf id ∨ t'.stateOf id = none ∧ t.stateOf id ≠ some .write
  own : (t.stateOf f.registeredSegment = some .write ↔ f.mmap = .write) →
    (t'.stateOf f.registeredSegment = some .write ↔ f'.mmap = .write)
  size_le : ∀ pinned : Finset ℕ, (∀ id, t.stateOf id = some .write → id ∈ pinned) →
    f.registeredSegment ∈ pinned → pinned.card ≤ t.maxOpen → t.opened.size ≤ t.maxOpen →
      t.mostTracked ≤ t.maxOpen → t'.opened.size ≤ t.maxOpen ∧ t'.mostTracked ≤ t.maxOpen

theorem Changes.refl (t : SegmentTracker) (f : SegmentFile) : Changes t f t f :=
  ⟨rfl, rfl, rfl, fun _ _ => Or.inl rfl, id, fun _ _ _ _ hsize hmost => ⟨hsize, hmost⟩⟩

theorem Changes.trans {t t' t'' : SegmentTracker} {f f' f'' : SegmentFile}
    (h : Changes t f t' f') (h' : Changes t' f' t'' f'') : Changes t f t'' f'' := by
  refine ⟨h'.segment_eq.trans h.segment_eq, h'.nextId_eq.trans h.nextId_eq,
    h'.maxOpen_eq.trans h.maxOpen_eq, ?_, ?_, ?_⟩
  · intro id hid
    rcases h'.others id (by rwa [h.segment_eq]) with hsame | ⟨hnone, hwrite⟩
    · rw [hsame]
      exact h.others id hid
    · refine Or.inr ⟨hnone, ?_⟩
      rcases h.others id hid with hsame | ⟨-, hnot⟩
      · rwa [← hsame]
      · exact hnot
  · intro hown
    have hnext := h'.own
    rw [h.segment_eq] at hnext
    exact hnext (h.own hown)
  · intro pinned hwrite hsegment hpinned hsize hmost
    obtain ⟨hsize', hmost'⟩ := h.size_le pinned hwrite hsegment hpinned hsize hmost
    have hnext := h'.size_le pinned
    rw [h.segment_eq, h.maxOpen_eq] at hnext
    refine hnext ?_ hsegment hpinned hsize' hmost'
    intro id hid
    by_cases heq : id = f.registeredSegment
    · rw [heq]
      exact hsegment
    · rcases h.others id heq with hsame | ⟨hnone, -⟩
      · rw [hsame] at hid
        exact hwrite id hid
      · rw [hnone] at hid
        contradiction

theorem changes_access (t : SegmentTracker) (f : SegmentFile) :
    Changes t f (t.access f.registeredSegment) f :=
  ⟨rfl, rfl, rfl, fun _ _ => Or.inl rfl, id, fun _ _ _ _ hsize hmost => ⟨hsize, hmost⟩⟩

/-- A segment that is closed by a call, or left alone by it, is closed if it was. -/
theorem Changes.stateOf_eq_none {t t' : SegmentTracker} {f f' : SegmentFile}
    (h : Changes t f t' f') (id : ℕ) (hid : id ≠ f.registeredSegment)
    (hnone : t.stateOf id = none) : t'.stateOf id = none := by
  rcases h.others id hid with hsame | ⟨hnone', -⟩
  · rw [hsame, hnone]
  · exact hnone'

theorem Changes.others_write_iff {t t' : SegmentTracker} {f f' : SegmentFile}
    (h : Changes t f t' f') (id : ℕ) (hid : id ≠ f.registeredSegment) :
    t'.stateOf id = some .write ↔ t.stateOf id = some .write := by
  rcases h.others id hid with hsame | ⟨hnone, hnot⟩
  · rw [hsame]
  · rw [hnone]
    exact iff_of_false (fun h => by cases h) hnot

/-- A file that is opened in the same way by the tracker. -/
theorem Changes.of_opens {t t' : SegmentTracker} {f : SegmentFile} {state : OpenState}
    (mmap : SegmentMmap) (h : t.Opens t' f.registeredSegment state)
    (hsame : state = .write ↔ mmap = .write) : Changes t f t' { f with mmap := mmap } := by
  refine ⟨rfl, h.nextId_eq, h.maxOpen_eq, h.others, ?_, ?_⟩
  · intro _
    rw [h.opened_state, Option.some.injEq]
    exact hsame
  · intro pinned hwrite hsegment hpinned _ hmost
    have hsize := h.size_le pinned hwrite hsegment hpinned
    refine ⟨hsize, ?_⟩
    rw [h.mostTracked_eq]
    exact max_le hmost hsize

theorem changes_close (t : SegmentTracker) (f : SegmentFile) (mmap : SegmentMmap)
    (hmmap : mmap ≠ .write) :
    Changes t f (t.close f.registeredSegment) { f with mmap := mmap } := by
  refine ⟨rfl, rfl, rfl, ?_, ?_, ?_⟩
  · intro id hid
    rw [stateOf_close, if_neg hid]
    exact Or.inl rfl
  · intro _
    rw [stateOf_close, if_pos rfl]
    exact iff_of_false (fun h => by cases h) hmmap
  · intro _ _ _ _ hsize hmost
    exact ⟨(t.size_close_le _).trans hsize, hmost⟩

theorem maybeMmapRead_changes (env : Env) (newMap : ℕ) (t : SegmentTracker) (f : SegmentFile) :
    Changes t f (f.maybeMmapRead env newMap t).tracker (f.maybeMmapRead env newMap t).file ∧
      ((f.maybeMmapRead env newMap t).file.mmap = .write ↔ f.mmap = .write) := by
  have haccess := changes_access t f
  have hopen : Changes t f ((t.access f.registeredSegment).openRead env f.registeredSegment newMap)
      { f with mmap := .read newMap } :=
    haccess.trans (Changes.of_opens _ (openState_opens _ env f.registeredSegment (.read newMap))
      (by simp))
  cases hmmap : f.mmap with
  | write =>
    simp only [SegmentFile.maybeMmapRead, hmmap]
    exact ⟨haccess, trivial⟩
  | read map =>
    simp only [SegmentFile.maybeMmapRead, hmmap]
    split_ifs
    · exact ⟨haccess, by simp [hmmap]⟩
    · exact ⟨hopen, by simp⟩
    · exact ⟨haccess, by simp [hmmap]⟩
  | closed =>
    simp only [SegmentFile.maybeMmapRead, hmmap]
    split_ifs
    · exact ⟨hopen, by simp⟩
    · exact ⟨haccess, by simp [hmmap]⟩

/-- A call that maps the file for writing, or fails. -/
structure MapsWrite (t : SegmentTracker) (f : SegmentFile) (o : Outcome) : Prop where
  changes : Changes t f o.tracker o.file
  ok_iff : o.ok = true ↔ o.file.mmap = .write

theorem maybeMmapWrite_mapsWrite (env : Env) (t : SegmentTracker) (f : SegmentFile) :
    MapsWrite t f (f.maybeMmapWrite env t) := by
  have haccess := changes_access t f
  have hopen : ∀ t', Changes t f t' f →
      Changes t f (t'.openWrite env f.registeredSegment) { f with mmap := .write } := by
    intro t' h
    have hopens := Changes.of_opens .write (openState_opens t' env f.registeredSegment .write)
      (iff_of_true rfl rfl)
    exact h.trans hopens
  cases hmmap : f.mmap with
  | write =>
    simp only [SegmentFile.maybeMmapWrite, hmmap]
    exact ⟨haccess, iff_of_true rfl hmmap⟩
  | read map =>
    have hclose : Changes t f ((t.access f.registeredSegment).close f.registeredSegment) f := by
      have h := changes_close (t.access f.registeredSegment) f f.mmap (by simp [hmmap])
      exact haccess.trans h
    simp only [SegmentFile.maybeMmapWrite, hmmap]
    by_cases hheld : upgrades env (t.access f.registeredSegment) map = true
    · simp only [if_pos hheld]
      split_ifs
      · exact ⟨hclose, by simp [hmmap]⟩
      · exact ⟨hopen _ hclose, by simp⟩
      · exact ⟨hclose, by simp [hmmap]⟩
    · simp only [if_neg hheld]
      split_ifs
      · exact ⟨hopen _ haccess, by simp⟩
      · exact ⟨haccess, by simp [hmmap]⟩
  | closed =>
    simp only [SegmentFile.maybeMmapWrite, hmmap]
    split_ifs
    · exact ⟨hopen _ haccess, by simp⟩
    · exact ⟨haccess, by simp [hmmap]⟩

/-- Here the tracker is told when the map is given up. -/
theorem setLen_mapsWrite (env : ℕ → Env) (t : SegmentTracker) (f : SegmentFile) :
    MapsWrite t f (f.setLen env t) := by
  have hfirst := maybeMmapWrite_mapsWrite (env 0) t f
  rw [SegmentFile.setLen]
  split_ifs with hok hlen
  · have hclose := hfirst.changes.trans (changes_close _ _ .closed (by simp))
    have hsecond := maybeMmapWrite_mapsWrite (env 2)
      ((f.maybeMmapWrite (env 0) t).tracker.close
        (f.maybeMmapWrite (env 0) t).file.registeredSegment)
      { (f.maybeMmapWrite (env 0) t).file with mmap := .closed }
    exact ⟨hclose.trans hsecond.changes, hsecond.ok_iff⟩
  · exact ⟨hfirst.changes.trans (changes_close _ _ .closed (by simp)), by simp⟩
  · exact hfirst

namespace DirectoryChainStore

/-- What the tracker has of the segments. The segments are told apart by their numbers. -/
structure Accounted (maxOpen : ℕ) (s : DirectoryChainStore) : Prop where
  maxOpen_eq : s.segmentTracker.maxOpen = maxOpen
  nodup : (s.segments.map (·.registeredSegment)).Nodup
  registered : ∀ f ∈ s.segments, f.registeredSegment < s.segmentTracker.nextId
  unregistered : ∀ id, s.segmentTracker.nextId ≤ id → s.segmentTracker.stateOf id = none
  deleted : ∀ id ∈ s.deleted, id < s.segmentTracker.nextId ∧
    id ∉ s.segments.map (·.registeredSegment) ∧ s.segmentTracker.stateOf id = none
  write_iff : ∀ id, s.segmentTracker.stateOf id = some .write ↔
    ∃ f ∈ s.segments, f.registeredSegment = id ∧ f.mmap = .write
  size_le : s.segmentTracker.opened.size ≤ maxOpen
  mostTracked_le : s.segmentTracker.mostTracked ≤ maxOpen

/-- Only the last segment is written to. -/
def OnlyLast (s : DirectoryChainStore) : Prop :=
  ∀ (i : ℕ) (f : SegmentFile), s.segments[i]? = some f → f.mmap = .write →
    i + 1 = s.segments.length

theorem exists_split {A : Type} (l : List A) (i : ℕ) (a : A) (h : l[i]? = some a) :
    ∃ pre post, l = pre ++ a :: post ∧ pre.length = i := by
  obtain ⟨hi, rfl⟩ := List.getElem?_eq_some_iff.mp h
  refine ⟨l.take i, l.drop (i + 1), ?_, ?_⟩
  · rw [List.cons_getElem_drop_succ, List.take_append_drop]
  · rw [List.length_take]
    omega

theorem mem_middle {A : Type} (pre post : List A) (a b : A) :
    b ∈ pre ++ a :: post ↔ b = a ∨ b ∈ pre ++ post :=
  List.perm_middle.mem_iff.trans List.mem_cons

/-- The tracker has a segment as written to where its file is. -/
theorem Accounted.own_iff {maxOpen : ℕ} {s : DirectoryChainStore} (h : s.Accounted maxOpen)
    (f : SegmentFile) (hf : f ∈ s.segments) :
    s.segmentTracker.stateOf f.registeredSegment = some .write ↔ f.mmap = .write := by
  rw [h.write_iff]
  constructor
  · rintro ⟨g, hg, hid, hopen⟩
    have heq : g = f := List.inj_on_of_nodup_map h.nodup hg hf hid
    rwa [← heq]
  · intro hopen
    exact ⟨f, hf, rfl, hopen⟩

theorem Accounted.others_ne {maxOpen : ℕ} {s : DirectoryChainStore} (h : s.Accounted maxOpen)
    {pre post : List SegmentFile} {f : SegmentFile} (hsplit : s.segments = pre ++ f :: post) :
    ∀ g ∈ pre ++ post, g.registeredSegment ≠ f.registeredSegment := by
  have hnodup := h.nodup
  rw [hsplit, List.map_append, List.map_cons, List.nodup_middle, List.nodup_cons,
    ← List.map_append] at hnodup
  intro g hg heq
  exact hnodup.1 (List.mem_map.mpr ⟨g, hg, heq⟩)

/-- The segments that are written to, after a call on one of them. -/
theorem Accounted.write_iff_of_changes {maxOpen : ℕ} {s : DirectoryChainStore}
    (h : s.Accounted maxOpen) {pre post : List SegmentFile} {f f' : SegmentFile}
    {t' : SegmentTracker} (hsplit : s.segments = pre ++ f :: post)
    (hchange : Changes s.segmentTracker f t' f') (id : ℕ) :
    t'.stateOf id = some .write ↔
      ∃ g ∈ pre ++ f' :: post, g.registeredSegment = id ∧ g.mmap = .write := by
  have hothers := h.others_ne hsplit
  have hmem := mem_middle pre post
  by_cases hid : id = f.registeredSegment
  · rw [hid, hchange.own (h.own_iff f (by rw [hsplit]; exact (hmem f f).mpr (Or.inl rfl)))]
    constructor
    · intro hopen
      exact ⟨f', (hmem f' f').mpr (Or.inl rfl), hchange.segment_eq, hopen⟩
    · rintro ⟨g, hg, heq, hopen⟩
      rcases (hmem f' g).mp hg with rfl | hg
      · exact hopen
      · exact absurd heq (hothers g hg)
  · rw [hchange.others_write_iff id hid, h.write_iff, hsplit]
    constructor
    · rintro ⟨g, hg, heq, hopen⟩
      rcases (hmem f g).mp hg with rfl | hg
      · exact absurd heq.symm hid
      · exact ⟨g, (hmem f' g).mpr (Or.inr hg), heq, hopen⟩
    · rintro ⟨g, hg, heq, hopen⟩
      rcases (hmem f' g).mp hg with rfl | hg
      · exact absurd (heq.symm.trans hchange.segment_eq) hid
      · exact ⟨g, (hmem f g).mpr (Or.inr hg), heq, hopen⟩

/-- A segment that a call has changed keeps the account, where that segment and those that are
written to are few enough. -/
theorem Accounted.set {maxOpen : ℕ} {s : DirectoryChainStore} (h : s.Accounted maxOpen)
    (index : ℕ) (f : SegmentFile) (hget : s.segments[index]? = some f) (o : Outcome)
    (hchange : Changes s.segmentTracker f o.tracker o.file) (pinned : Finset ℕ)
    (hwrite : ∀ g ∈ s.segments, g.mmap = .write → g.registeredSegment ∈ pinned)
    (hsegment : f.registeredSegment ∈ pinned) (hpinned : pinned.card ≤ maxOpen) :
    Accounted maxOpen
      { s with segments := s.segments.set index o.file, segmentTracker := o.tracker } := by
  have hf : f ∈ s.segments := List.mem_of_getElem? hget
  obtain ⟨pre, post, hsplit, rfl⟩ := exists_split s.segments index f hget
  have hset : s.segments.set pre.length o.file = pre ++ o.file :: post := by
    rw [hsplit, List.set_append_right _ _ le_rfl, Nat.sub_self, List.set_cons_zero]
  have hids : (pre ++ o.file :: post).map (·.registeredSegment) =
      s.segments.map (·.registeredSegment) := by
    rw [hsplit, List.map_append, List.map_append, List.map_cons, List.map_cons,
      hchange.segment_eq]
  have htracked : ∀ id, s.segmentTracker.stateOf id = some .write → id ∈ pinned := by
    intro id hid
    obtain ⟨g, hg, rfl, hopen⟩ := (h.write_iff id).mp hid
    exact hwrite g hg hopen
  have hsize := hchange.size_le pinned htracked hsegment (by rw [h.maxOpen_eq]; exact hpinned)
    (by rw [h.maxOpen_eq]; exact h.size_le) (by rw [h.maxOpen_eq]; exact h.mostTracked_le)
  rw [h.maxOpen_eq] at hsize
  have hregistered : f.registeredSegment < s.segmentTracker.nextId := h.registered f hf
  simp only [hset]
  refine ⟨hchange.maxOpen_eq.trans h.maxOpen_eq, ?_, ?_, ?_, ?_,
    h.write_iff_of_changes hsplit hchange, hsize.1, hsize.2⟩
  · show ((pre ++ o.file :: post).map (·.registeredSegment)).Nodup
    rw [hids]
    exact h.nodup
  · intro g hg
    have hid := List.mem_map_of_mem (f := (·.registeredSegment)) hg
    rw [hids] at hid
    obtain ⟨g', hg', heq⟩ := List.mem_map.mp hid
    simp only [hchange.nextId_eq, ← heq]
    exact h.registered g' hg'
  · intro id hid
    simp only [hchange.nextId_eq] at hid
    exact hchange.stateOf_eq_none id (by omega) (h.unregistered id hid)
  · intro id hid
    obtain ⟨hlt, hnot, hnone⟩ := h.deleted id hid
    simp only [hids, hchange.nextId_eq]
    refine ⟨hlt, hnot, hchange.stateOf_eq_none id ?_ hnone⟩
    rintro rfl
    exact hnot (List.mem_map_of_mem hf)

theorem onSegment_accounted (maxOpen : ℕ) (s : DirectoryChainStore) (h : s.Accounted maxOpen)
    (index : ℕ) (call : SegmentTracker → SegmentFile → Outcome)
    (hcall : ∀ t f, Changes t f (call t f).tracker (call t f).file) (pinned : Finset ℕ)
    (hwrite : ∀ f ∈ s.segments, f.mmap = .write → f.registeredSegment ∈ pinned)
    (hindex : ∀ f, s.segments[index]? = some f → f.registeredSegment ∈ pinned)
    (hpinned : pinned.card ≤ maxOpen) : (s.onSegment index call).2.Accounted maxOpen := by
  rw [onSegment]
  cases hget : s.segments[index]? with
  | none => exact h
  | some f => exact h.set index f hget _ (hcall _ f) pinned hwrite (hindex f hget) hpinned

/-- A new segment is registered under a number of its own, and not open yet. -/
theorem Accounted.register {maxOpen : ℕ} {s : DirectoryChainStore} (h : s.Accounted maxOpen) :
    Accounted maxOpen
      { s with
        segments := s.segments ++ [⟨s.segmentTracker.register.1, .closed⟩]
        segmentTracker := s.segmentTracker.register.2 } := by
  have hfresh : s.segmentTracker.nextId ∉ s.segments.map (·.registeredSegment) := by
    intro hmem
    obtain ⟨f, hf, heq⟩ := List.mem_map.mp hmem
    exact absurd (h.registered f hf) (by omega)
  refine ⟨h.maxOpen_eq, ?_, ?_, ?_, ?_, ?_, h.size_le, h.mostTracked_le⟩
  · simp only [List.map_append, List.map_cons, List.map_nil]
    refine List.nodup_append.mpr ⟨h.nodup, List.nodup_singleton _, ?_⟩
    rintro a ha b hb rfl
    have heq : a = s.segmentTracker.nextId := List.mem_singleton.mp hb
    rw [heq] at ha
    exact hfresh ha
  · intro f hf
    rcases List.mem_append.mp hf with hf | hf
    · exact Nat.lt_succ_of_lt (h.registered f hf)
    · obtain rfl := List.mem_singleton.mp hf
      exact Nat.lt_succ_self _
  · intro id hid
    exact h.unregistered id (Nat.le_of_succ_le hid)
  · intro id hid
    obtain ⟨hlt, hnot, hnone⟩ := h.deleted id hid
    refine ⟨Nat.lt_succ_of_lt hlt, ?_, hnone⟩
    simp only [List.map_append, List.map_cons, List.map_nil, List.mem_append, List.mem_singleton]
    rintro (hmem | rfl)
    · exact hnot hmem
    · exact lt_irrefl _ hlt
  · intro id
    change s.segmentTracker.stateOf id = _ ↔ _
    rw [h.write_iff]
    constructor
    · rintro ⟨f, hf, hid, hopen⟩
      exact ⟨f, List.mem_append_left _ hf, hid, hopen⟩
    · rintro ⟨f, hf, hid, hopen⟩
      rcases List.mem_append.mp hf with hf | hf
      · exact ⟨f, hf, hid, hopen⟩
      · obtain rfl := List.mem_singleton.mp hf
        contradiction

/-- Segments that are not written to may be dropped, and the others put in another order. -/
theorem Accounted.keep {maxOpen : ℕ} {s : DirectoryChainStore} (h : s.Accounted maxOpen)
    (segments : List SegmentFile)
    (hnodup : (segments.map (·.registeredSegment)).Nodup) (hsub : segments ⊆ s.segments)
    (hwrite : ∀ f ∈ s.segments, f.mmap = .write → f ∈ segments) :
    Accounted maxOpen { s with segments := segments } := by
  refine ⟨h.maxOpen_eq, hnodup, fun f hf => h.registered f (hsub hf), h.unregistered, ?_, ?_,
    h.size_le, h.mostTracked_le⟩
  · intro id hid
    obtain ⟨hlt, hnot, hnone⟩ := h.deleted id hid
    exact ⟨hlt, fun hmem => hnot (List.map_subset _ hsub hmem), hnone⟩
  · intro id
    change s.segmentTracker.stateOf id = _ ↔ _
    rw [h.write_iff]
    constructor
    · rintro ⟨f, hf, hid, hopen⟩
      exact ⟨f, hwrite f hf hopen, hid, hopen⟩
    · rintro ⟨f, hf, hid, hopen⟩
      exact ⟨f, hsub hf, hid, hopen⟩

/-- The segments that may be open whatever is closed: the last, and one more. -/
theorem OnlyLast.pinned {s : DirectoryChainStore} (h : s.OnlyLast) (index : ℕ) :
    ∃ pinned : Finset ℕ, pinned.card ≤ 2 ∧
      (∀ f ∈ s.segments, f.mmap = .write → f.registeredSegment ∈ pinned) ∧
      ∀ f, s.segments[index]? = some f → f.registeredSegment ∈ pinned := by
  let number (i : ℕ) : ℕ := (s.segments[i]?.map (·.registeredSegment)).getD 0
  have hnumber : ∀ i f, s.segments[i]? = some f → number i = f.registeredSegment := by
    intro i f hf
    simp only [number, hf, Option.map_some, Option.getD_some]
  refine ⟨{number (s.segments.length - 1), number index}, Finset.card_le_two, ?_, ?_⟩
  · intro f hf hopen
    obtain ⟨i, hi⟩ := List.mem_iff_getElem?.mp hf
    have hlast := h i f hi hopen
    rw [← hnumber i f hi, ← hlast, Nat.add_sub_cancel]
    exact Finset.mem_insert_self _ _
  · intro f hf
    rw [← hnumber index f hf]
    exact Finset.mem_insert_of_mem (Finset.mem_singleton_self _)

/-- A segment other than the last that is changed and not written to, or the last however it is
changed. -/
theorem OnlyLast.set {s : DirectoryChainStore} (h : s.OnlyLast) (index : ℕ) (f' : SegmentFile)
    (t : SegmentTracker) (hchange : f'.mmap = .write → index + 1 = s.segments.length) :
    OnlyLast { s with segments := s.segments.set index f', segmentTracker := t } := by
  intro i f hf hopen
  simp only [List.getElem?_set, List.length_set] at hf ⊢
  split_ifs at hf with heq hlt
  · obtain rfl := Option.some.inj hf
    rw [← heq]
    exact hchange hopen
  · exact h i f hf hopen

end DirectoryChainStore

open Exocore.Chain.Tracking.DirectoryChainStore

/-- What holds between the calls on a store. -/
structure Tracks (maxOpen : ℕ) (s : DirectoryChainStore) : Prop where
  accounted : s.Accounted maxOpen
  onlyLast : s.OnlyLast

theorem tracks_getBlock (maxOpen : ℕ) (hmax : 2 ≤ maxOpen) (s : DirectoryChainStore)
    (h : Tracks maxOpen s) (env : ℕ → Env) (index : ℕ) :
    Tracks maxOpen (s.getBlock env index).2 := by
  let counted : DirectoryChainStore := { s with nextMap := s.nextMap + 1 }
  have haccounted : counted.Accounted maxOpen :=
    ⟨h.accounted.maxOpen_eq, h.accounted.nodup, h.accounted.registered, h.accounted.unregistered,
      h.accounted.deleted, h.accounted.write_iff, h.accounted.size_le, h.accounted.mostTracked_le⟩
  have honly : counted.OnlyLast := h.onlyLast
  obtain ⟨pinned, hcard, hwrite, hindex⟩ := honly.pinned index
  constructor
  · exact onSegment_accounted maxOpen counted haccounted index _
      (fun t f => (maybeMmapRead_changes (env 0) s.nextMap t f).1) pinned hwrite hindex
      (hcard.trans hmax)
  · rw [getBlock, onSegment]
    cases hget : s.segments[index]? with
    | none => exact honly
    | some f =>
      apply honly.set index _ _
      intro hopen
      rw [(maybeMmapRead_changes (env 0) s.nextMap _ f).2] at hopen
      exact h.onlyLast index f hget hopen

/-- A call that maps one segment for writing: the account is kept, and where it is the last or the
call fails, it is still the only one. -/
theorem accounted_mapsWrite (maxOpen : ℕ) (hmax : 2 ≤ maxOpen) (s : DirectoryChainStore)
    (h : Tracks maxOpen s) (index : ℕ) (call : SegmentTracker → SegmentFile → Outcome)
    (hcall : ∀ t f, MapsWrite t f (call t f)) : (s.onSegment index call).2.Accounted maxOpen := by
  obtain ⟨pinned, hcard, hwrite, hindex⟩ := h.onlyLast.pinned index
  exact onSegment_accounted maxOpen s h.accounted index call (fun t f => (hcall t f).changes)
    pinned hwrite hindex (hcard.trans hmax)

theorem onlyLast_mapsWrite (s : DirectoryChainStore) (h : s.OnlyLast) (index : ℕ)
    (call : SegmentTracker → SegmentFile → Outcome) (hcall : ∀ t f, MapsWrite t f (call t f))
    (hindex : (s.onSegment index call).1 = true → index + 1 = s.segments.length) :
    (s.onSegment index call).2.OnlyLast := by
  rw [onSegment] at hindex ⊢
  cases hget : s.segments[index]? with
  | none => exact h
  | some f =>
    rw [hget] at hindex
    apply h.set index _ _
    intro hopen
    exact hindex ((hcall _ f).ok_iff.mpr hopen)

theorem tracks_mapsWrite_last (maxOpen : ℕ) (hmax : 2 ≤ maxOpen) (s : DirectoryChainStore)
    (h : Tracks maxOpen s) (call : SegmentTracker → SegmentFile → Outcome)
    (hcall : ∀ t f, MapsWrite t f (call t f)) :
    Tracks maxOpen (s.onSegment (s.segments.length - 1) call).2 := by
  refine ⟨accounted_mapsWrite maxOpen hmax s h _ call hcall,
    onlyLast_mapsWrite s h.onlyLast _ call hcall ?_⟩
  intro hok
  have hne : s.segments.length ≠ 0 := by
    intro hzero
    rw [onSegment, List.getElem?_eq_none (by omega)] at hok
    contradiction
  omega

theorem onSegment_length (s : DirectoryChainStore) (index : ℕ)
    (call : SegmentTracker → SegmentFile → Outcome) :
    (s.onSegment index call).2.segments.length = s.segments.length := by
  rw [onSegment]
  cases s.segments[index]? with
  | none => rfl
  | some f => exact List.length_set

theorem tracks_writeBlock (maxOpen : ℕ) (hmax : 2 ≤ maxOpen) (s : DirectoryChainStore)
    (h : Tracks maxOpen s) (env : ℕ → Env) (grow : Bool) :
    Tracks maxOpen (s.writeBlock env grow).2 := by
  let grown := if grow then s.onSegment (s.segments.length - 1) fun t f => f.setLen env t
    else (true, s)
  have hgrown : Tracks maxOpen grown.2 ∧ grown.2.segments.length = s.segments.length := by
    cases grow with
    | false => exact ⟨h, rfl⟩
    | true =>
      exact ⟨tracks_mapsWrite_last maxOpen hmax s h _ fun t f => setLen_mapsWrite env t f,
        onSegment_length s _ _⟩
  rw [writeBlock]
  change Tracks maxOpen (if grown.1 then grown.2.onSegment (s.segments.length - 1)
    (fun t f => f.maybeMmapWrite (env 3) t) else grown).2
  split_ifs
  · rw [← hgrown.2]
    exact tracks_mapsWrite_last maxOpen hmax grown.2 hgrown.1 _
      fun t f => maybeMmapWrite_mapsWrite (env 3) t f
  · exact hgrown.1

/-- A new segment, pushed to a store that writes to none, or dropped again. -/
theorem accounted_new (maxOpen : ℕ) (hmax : 1 ≤ maxOpen) (s : DirectoryChainStore)
    (h : s.Accounted maxOpen) (hclosed : ∀ f ∈ s.segments, f.mmap ≠ .write) (o : Outcome)
    (hchange : Changes s.segmentTracker.register.2 ⟨s.segmentTracker.register.1, .closed⟩
      o.tracker o.file) :
    Accounted maxOpen { s with segments := s.segments ++ [o.file], segmentTracker := o.tracker } ∧
      (o.file.mmap ≠ .write → Accounted maxOpen { s with segmentTracker := o.tracker }) := by
  let added : DirectoryChainStore :=
    { s with
      segments := s.segments ++ [⟨s.segmentTracker.register.1, .closed⟩]
      segmentTracker := s.segmentTracker.register.2 }
  have hadded : added.Accounted maxOpen := h.register
  have hnone : ∀ f ∈ added.segments, f.mmap = .write →
      f.registeredSegment ∈ ({s.segmentTracker.register.1} : Finset ℕ) := by
    intro f hf hopen
    rcases List.mem_append.mp hf with hf | hf
    · exact absurd hopen (hclosed f hf)
    · obtain rfl := List.mem_singleton.mp hf
      contradiction
  have hpushed := hadded.set s.segments.length ⟨s.segmentTracker.register.1, .closed⟩
    List.getElem?_concat_length o hchange {s.segmentTracker.register.1} hnone
    (Finset.mem_singleton_self _) (by rw [Finset.card_singleton]; exact hmax)
  have hset : added.segments.set s.segments.length o.file = s.segments ++ [o.file] := by
    rw [List.set_append_right _ _ le_rfl, Nat.sub_self, List.set_cons_zero]
  rw [hset] at hpushed
  refine ⟨hpushed, ?_⟩
  intro hdropped
  refine hpushed.keep s.segments h.nodup (List.subset_append_left _ _) ?_
  intro f hf hopen
  rcases List.mem_append.mp hf with hf | hf
  · exact hf
  · obtain rfl := List.mem_singleton.mp hf
    exact absurd hopen hdropped

/-- Where the last segment is not written to, none is. -/
theorem DirectoryChainStore.OnlyLast.none_written {s : DirectoryChainStore} (h : s.OnlyLast)
    (hlast : ∀ f ∈ s.segments.getLast?, f.mmap ≠ .write) : ∀ f ∈ s.segments, f.mmap ≠ .write := by
  intro f hf hopen
  obtain ⟨i, hi⟩ := List.mem_iff_getElem?.mp hf
  have hindex := h i f hi hopen
  apply hlast f _ hopen
  rw [List.getLast?_eq_getElem?, ← hindex, Nat.add_sub_cancel]
  exact hi

theorem closeWrite_last_eq (s : DirectoryChainStore)
    (hlast : ∀ f ∈ s.segments.getLast?, f.mmap ≠ .write) :
    (s.onSegment (s.segments.length - 1) fun t f => ⟨true, t, f.closeWrite⟩).2 = s := by
  rw [onSegment]
  cases hget : s.segments[s.segments.length - 1]? with
  | none => rfl
  | some f =>
    rw [← List.getLast?_eq_getElem?] at hget
    have hsame : f.closeWrite = f := by rw [SegmentFile.closeWrite, if_neg (hlast f hget)]
    rw [List.getLast?_eq_getElem?] at hget
    obtain ⟨pre, post, hsplit, hlen⟩ := exists_split _ _ _ hget
    have hset : s.segments.set (s.segments.length - 1) f = s.segments := by
      rw [← hlen, hsplit, List.set_append_right _ _ le_rfl, Nat.sub_self, List.set_cons_zero]
    simp only [hsame, hset]

theorem tracks_rollOver (maxOpen : ℕ) (hmax : 2 ≤ maxOpen) (s : DirectoryChainStore)
    (h : Tracks maxOpen s) (env : ℕ → Env)
    (hlast : ∀ f ∈ s.segments.getLast?, f.mmap ≠ .write) :
    Tracks maxOpen (s.rollOver env).2 := by
  have hclosed := h.onlyLast.none_written hlast
  have hdropped (t : SegmentTracker) : OnlyLast { s with segmentTracker := t } := h.onlyLast
  let written := SegmentFile.maybeMmapWrite (env 1) s.segmentTracker.register.2
    ⟨s.segmentTracker.register.1, .closed⟩
  have hwritten := maybeMmapWrite_mapsWrite (env 1) s.segmentTracker.register.2
    ⟨s.segmentTracker.register.1, .closed⟩
  have hopened := maybeMmapWrite_mapsWrite (env 2) written.tracker written.file
  have hboth := hwritten.changes.trans hopened.changes
  rw [rollOver, closeWrite_last_eq s hlast]
  simp only
  split_ifs with hcreate hwrote hopen
  · refine ⟨(accounted_new maxOpen (by omega) s h.accounted hclosed _ hboth).1, ?_⟩
    intro i f hf hwrites
    have hget := hf
    rw [List.getElem?_append] at hget
    split_ifs at hget with hi
    · exact absurd hwrites (hclosed f (List.mem_of_getElem? hget))
    · have hlt := (List.getElem?_eq_some_iff.mp hf).1
      simp only [List.length_append, List.length_singleton] at hlt ⊢
      omega
  · refine ⟨(accounted_new maxOpen (by omega) s h.accounted hclosed _ hboth).2 ?_, hdropped _⟩
    exact fun hwrites => hopen (hopened.ok_iff.mpr hwrites)
  · refine ⟨(accounted_new maxOpen (by omega) s h.accounted hclosed _ hwritten.changes).2 ?_,
      hdropped _⟩
    exact fun hwrites => hwrote (hwritten.ok_iff.mpr hwrites)
  · exact h

/-- No segment that a truncation drops is tracked once the segment that it falls in was cut. -/
def DropsUntracked (s : DirectoryChainStore) (env : ℕ → Env) (index : ℕ) (cut : Bool) : Prop :=
  (s.cutAt env index cut).1 = true →
    ∀ f ∈ (s.cutAt env index cut).2.segments.drop (if cut then index + 1 else index),
      (s.cutAt env index cut).2.segmentTracker.stateOf f.registeredSegment = none

theorem accounted_cutAt (maxOpen : ℕ) (hmax : 2 ≤ maxOpen) (s : DirectoryChainStore)
    (h : Tracks maxOpen s) (env : ℕ → Env) (index : ℕ) (cut : Bool) :
    (s.cutAt env index cut).2.Accounted maxOpen := by
  cases cut with
  | false => exact h.accounted
  | true =>
    exact accounted_mapsWrite maxOpen hmax s h index _ fun t f => setLen_mapsWrite env t f

/-- Dropping segments that are not tracked keeps the account, whichever files could be deleted. -/
theorem DirectoryChainStore.Accounted.deleteFrom {maxOpen : ℕ} {s : DirectoryChainStore}
    (h : s.Accounted maxOpen) (env : ℕ → Env) (keep : ℕ)
    (huntracked : ∀ f ∈ s.segments.drop keep,
      s.segmentTracker.stateOf f.registeredSegment = none) :
    (s.deleteFrom env keep).2.Accounted maxOpen := by
  have hsplit : s.segments.take keep ++ s.segments.drop keep = s.segments :=
    List.take_append_drop _ _
  have hnodup := h.nodup
  rw [← hsplit, List.map_append, List.nodup_append] at hnodup
  have hkept := h.keep (s.segments.take keep) hnodup.1 (List.take_subset _ _) (by
    intro f hf hopen
    rw [← hsplit] at hf
    rcases List.mem_append.mp hf with hf | hf
    · exact hf
    · have hwrite := (h.write_iff f.registeredSegment).mpr
        ⟨f, List.mem_of_mem_drop hf, rfl, hopen⟩
      rw [huntracked f hf] at hwrite
      contradiction)
  refine ⟨hkept.maxOpen_eq, hkept.nodup, hkept.registered, hkept.unregistered, ?_, hkept.write_iff,
    hkept.size_le, hkept.mostTracked_le⟩
  intro id hid
  rcases List.mem_append.mp hid with hid | hid
  · exact hkept.deleted id hid
  · obtain ⟨f, hf, rfl⟩ := List.mem_map.mp hid
    have hdrop := List.mem_of_mem_take hf
    refine ⟨h.registered f (List.mem_of_mem_drop hdrop), ?_, huntracked f hdrop⟩
    intro hmem
    exact hnodup.2.2 _ hmem _ (List.mem_map_of_mem hdrop) rfl

theorem onlyLast_take (s : DirectoryChainStore) (h : s.OnlyLast) (env : ℕ → Env) (index : ℕ)
    (hindex : index < s.segments.length) (cut : Bool) (segments : List SegmentFile)
    (hsegments : segments =
      (s.cutAt env index cut).2.segments.take (if cut then index + 1 else index))
    (t : SegmentTracker) (nextMap : ℕ) (deleted : List ℕ) :
    OnlyLast ⟨segments, t, nextMap, deleted⟩ := by
  intro i f hf hopen
  simp only at hf ⊢
  rw [hsegments] at hf ⊢
  cases cut with
  | false =>
    simp only [cutAt, Bool.false_eq_true, if_false, List.getElem?_take] at hf
    split_ifs at hf with hi
    have hlast := h i f hf hopen
    omega
  | true =>
    simp only [cutAt, if_true, List.length_take, onSegment_length] at hf ⊢
    rw [List.getElem?_take] at hf
    split_ifs at hf with hi
    rw [onSegment, List.getElem?_eq_getElem hindex] at hf
    rw [List.getElem?_set] at hf
    split_ifs at hf with heq
    · omega
    · have hlast := h i f hf hopen
      omega

theorem tracks_truncateFromOffset (maxOpen : ℕ) (hmax : 2 ≤ maxOpen) (s : DirectoryChainStore)
    (h : Tracks maxOpen s) (env : ℕ → Env) (index : ℕ) (cut : Bool)
    (hdrops : DropsUntracked s env index cut) :
    Tracks maxOpen (s.truncateFromOffset env index cut).2 := by
  have hcut := accounted_cutAt maxOpen hmax s h env index cut
  rw [truncateFromOffset]
  by_cases hindex : index < s.segments.length
  · rw [if_pos hindex]
    by_cases hok : (s.cutAt env index cut).1 = true
    · simp only [if_pos hok]
      refine ⟨hcut.deleteFrom _ _ (hdrops hok), ?_⟩
      exact onlyLast_take s h.onlyLast env index hindex cut _ rfl _ _ _
    · simp only [if_neg hok]
      refine ⟨hcut, ?_⟩
      cases cut with
      | false => exact h.onlyLast
      | true =>
        apply onlyLast_mapsWrite s h.onlyLast index _ fun t f => setLen_mapsWrite env t f
        intro hdone
        exact absurd hdone hok
  · rw [if_neg hindex]
    exact h

theorem DirectoryChainStore.Accounted.withNextMap {maxOpen : ℕ} {s : DirectoryChainStore}
    (h : s.Accounted maxOpen) (nextMap : ℕ) : Accounted maxOpen { s with nextMap := nextMap } :=
  ⟨h.maxOpen_eq, h.nodup, h.registered, h.unregistered, h.deleted, h.write_iff, h.size_le,
    h.mostTracked_le⟩

/-- Reading through a file any number of times leaves it not written to. -/
theorem scan_changes (newMap : ℕ) (envs : List Env) (t : SegmentTracker) (f : SegmentFile)
    (o : Outcome) (h : Changes t f o.tracker o.file) (hread : o.file.mmap ≠ .write) :
    let scanned := envs.foldl (fun (o : Outcome) env => o.file.maybeMmapRead env newMap o.tracker) o
    Changes t f scanned.tracker scanned.file ∧ scanned.file.mmap ≠ .write := by
  induction envs generalizing o with
  | nil => exact ⟨h, hread⟩
  | cons env rest ih =>
    obtain ⟨hchange, hwrite⟩ := maybeMmapRead_changes env newMap o.tracker o.file
    exact ih _ (h.trans hchange) (fun hopen => hread (hwrite.mp hopen))

theorem accounted_create (maxOpen : ℕ) : (create maxOpen).Accounted maxOpen := by
  refine ⟨rfl, List.nodup_nil, ?_, fun _ _ => rfl, ?_, ?_, Nat.zero_le _, Nat.zero_le _⟩
  · intro f hf
    exact absurd hf List.not_mem_nil
  · intro id hid
    exact absurd hid List.not_mem_nil
  · intro id
    refine iff_of_false (fun h => by cases h) ?_
    rintro ⟨f, hf, -⟩
    exact absurd hf List.not_mem_nil

theorem scanned_accounted (maxOpen : ℕ) (hmax : 2 ≤ maxOpen) (s : DirectoryChainStore)
    (h : Scanned maxOpen s) : s.Accounted maxOpen ∧ ∀ f ∈ s.segments, f.mmap ≠ .write := by
  induction h with
  | empty =>
    refine ⟨accounted_create maxOpen, ?_⟩
    intro f hf
    exact absurd hf List.not_mem_nil
  | register h ih =>
    refine ⟨ih.1.register, ?_⟩
    intro f hf
    rcases List.mem_append.mp hf with hf | hf
    · exact ih.2 f hf
    · obtain rfl := List.mem_singleton.mp hf
      intro hopen
      cases hopen
  | scan h envs ih =>
    rename_i s
    obtain ⟨hchange, hread⟩ := scan_changes s.nextMap envs s.segmentTracker.register.2
      ⟨s.segmentTracker.register.1, .closed⟩
      ⟨true, s.segmentTracker.register.2, ⟨s.segmentTracker.register.1, .closed⟩⟩
      (Changes.refl _ _) (fun hopen => by cases hopen)
    have hdropped := (accounted_new maxOpen (by omega) s ih.1 ih.2 _ hchange).2 hread
    exact ⟨hdropped.withNextMap (s.nextMap + 1), ih.2⟩
  | sort h segments hperm ih =>
    refine ⟨ih.1.keep segments ?_ hperm.subset fun f hf _ => hperm.symm.subset hf, ?_⟩
    · exact (hperm.map _).nodup_iff.mpr ih.1.nodup
    · intro f hf
      exact ih.2 f (hperm.subset hf)

theorem tracks_initial (maxOpen : ℕ) (hmax : 2 ≤ maxOpen) (s : DirectoryChainStore)
    (h : Initial maxOpen s) : Tracks maxOpen s := by
  have hscanned : ∀ s, Scanned maxOpen s → Tracks maxOpen s := by
    intro s h
    obtain ⟨haccounted, hnone⟩ := scanned_accounted maxOpen hmax s h
    exact ⟨haccounted, fun i f hf hopen => absurd hopen (hnone f (List.mem_of_getElem? hf))⟩
  cases h with
  | created => exact hscanned _ .empty
  | openedEmpty h _ => exact hscanned s h
  | opened h env _ =>
    exact tracks_mapsWrite_last maxOpen hmax _ (hscanned _ h) _
      fun t f => maybeMmapWrite_mapsWrite env t f

/-- The calls after which the tracker is not left with a segment that it was not told of: no new
segment while the last one is written to, and no segment dropped that is tracked. -/
def Careful (s : DirectoryChainStore) : Move → Prop
  | ⟨.getBlock _, _⟩ => True
  | ⟨.writeBlock _, _⟩ => True
  | ⟨.rollOver, _⟩ => ∀ f ∈ s.segments.getLast?, f.mmap ≠ .write
  | ⟨.truncateFromOffset index cut, env⟩ => DropsUntracked s env index cut

instance (s : DirectoryChainStore) (env : ℕ → Env) (index : ℕ) (cut : Bool) :
    Decidable (DropsUntracked s env index cut) :=
  inferInstanceAs (Decidable (_ → _))

instance : ∀ (s : DirectoryChainStore) (m : Move), Decidable (Careful s m)
  | _, ⟨.getBlock _, _⟩ => isTrue trivial
  | _, ⟨.writeBlock _, _⟩ => isTrue trivial
  | s, ⟨.rollOver, _⟩ =>
    inferInstanceAs (Decidable (∀ f ∈ s.segments.getLast?, f.mmap ≠ .write))
  | s, ⟨.truncateFromOffset index cut, env⟩ =>
    inferInstanceAs (Decidable (DropsUntracked s env index cut))

theorem tracks_step (maxOpen : ℕ) (hmax : 2 ≤ maxOpen) (s : DirectoryChainStore) (m : Move)
    (h : Tracks maxOpen s) (hcareful : Careful s m) : Tracks maxOpen (step s m) := by
  obtain ⟨call, env⟩ := m
  cases call with
  | getBlock index => exact tracks_getBlock maxOpen hmax s h env index
  | writeBlock grow => exact tracks_writeBlock maxOpen hmax s h env grow
  | rollOver => exact tracks_rollOver maxOpen hmax s h env hcareful
  | truncateFromOffset index cut =>
    exact tracks_truncateFromOffset maxOpen hmax s h env index cut hcareful

/-- The tracker knows the open maps of the store: those that are written to, no more than may be
open, after every open too, and none whose file was deleted. -/
structure Bounded (maxOpen : ℕ) (s : DirectoryChainStore) : Prop where
  write_iff : ∀ id, s.segmentTracker.stateOf id = some .write ↔
    ∃ f ∈ s.segments, f.registeredSegment = id ∧ f.mmap = .write
  tracked_le : s.segmentTracker.opened.size ≤ maxOpen
  mostTracked_le : s.segmentTracker.mostTracked ≤ maxOpen
  deleted_untracked : ∀ id ∈ s.deleted, s.segmentTracker.stateOf id = none

theorem Tracks.bounded {maxOpen : ℕ} {s : DirectoryChainStore} (h : Tracks maxOpen s) :
    Bounded maxOpen s :=
  ⟨h.accounted.write_iff, h.accounted.size_le, h.accounted.mostTracked_le,
    fun id hid => (h.accounted.deleted id hid).2.2⟩

/-- In every run that closes no segment behind the tracker's back the open maps are bounded; and
whatever is tracked, the segment just opened and those written to are not closed. -/
theorem bounded_of_careful (maxOpen : ℕ) (hmax : 2 ≤ maxOpen) :
    (∀ (s : DirectoryChainStore) (moves : List Move), Initial maxOpen s →
      Run.Allowed step Careful s moves → Bounded maxOpen (Run.exec step s moves)) ∧
    ∀ (t : SegmentTracker) (env : Env) (lastSegment id : ℕ),
      id = lastSegment ∨ t.stateOf id = some .write →
        (t.closeLeastUsed env lastSegment).stateOf id = t.stateOf id := by
  constructor
  · intro s moves hs hrun
    have hinv := tracks_initial maxOpen hmax s hs
    exact (Run.exec_invariant step Careful (Tracks maxOpen) (tracks_step maxOpen hmax) s moves hinv
      hrun).bounded
  · intro t env lastSegment id hid
    rcases t.stateOf_closeLeastUsed env lastSegment id with hsame | ⟨-, hne, hread⟩
    · exact hsame
    · exact absurd hid (not_or.mpr ⟨hne, hread⟩)

def sampleEnv : ℕ → Env := fun _ => ⟨Sorting.ValuesOrder.same, [], true⟩

theorem bounded_of_careful_sample : Bounded 2 (Run.exec step (.create 2)
    [⟨.rollOver, sampleEnv⟩, ⟨.writeBlock true, sampleEnv⟩,
      ⟨.truncateFromOffset 0 true, sampleEnv⟩, ⟨.getBlock 0, sampleEnv⟩]) :=
  (bounded_of_careful 2 le_rfl).1 (.create 2) _ .created (by decide +kernel)

/-- A second segment leaves the first one tracked as written to, a third one makes three of two,
and a deleted one stays. -/
theorem rollOver_untold :
    ¬ Bounded 2 (Run.exec step (.create 2) [⟨.rollOver, sampleEnv⟩, ⟨.rollOver, sampleEnv⟩]) ∧
    ¬ Bounded 2 (Run.exec step (.create 2)
      [⟨.rollOver, sampleEnv⟩, ⟨.rollOver, sampleEnv⟩, ⟨.rollOver, sampleEnv⟩]) ∧
    ¬ Bounded 2 (Run.exec step (.create 2)
      [⟨.rollOver, sampleEnv⟩, ⟨.truncateFromOffset 0 false, sampleEnv⟩]) := by
  refine ⟨?_, ?_, ?_⟩
  · intro h
    obtain ⟨f, hf, hid, hopen⟩ := (h.write_iff 0).mp (by decide +kernel)
    have hclosed : ∀ f ∈ (Run.exec step (.create 2)
        [⟨.rollOver, sampleEnv⟩, ⟨.rollOver, sampleEnv⟩]).segments,
        ¬ (f.registeredSegment = 0 ∧ f.mmap = .write) := by decide +kernel
    exact hclosed f hf ⟨hid, hopen⟩
  · intro h
    exact absurd h.tracked_le (by decide +kernel)
  · intro h
    exact absurd (h.deleted_untracked 0 (by decide +kernel)) (by decide +kernel)

end Exocore.Chain.Tracking
