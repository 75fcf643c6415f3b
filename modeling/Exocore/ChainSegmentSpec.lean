import Exocore.ChainSegment

/-! What a segment holds: a run of linked blocks at the front of its file. Each operation
of the segment is stated on that run. -/
namespace Exocore.Chain

open Exocore.Core

def dataOf (blocks : List DataBlock) : Bytes := (blocks.map DataBlock.asDataVec).flatten

/-- Blocks that follow each other from an offset up to another. -/
def Linked : ℕ → List DataBlock → ℕ → Prop
  | start, [], stop => start = stop
  | start, b :: rest, stop => b.offset = start ∧ Linked b.nextOffset rest stop

@[simp] theorem dataOf_nil : dataOf [] = [] := rfl

@[simp] theorem dataOf_append (l r : List DataBlock) : dataOf (l ++ r) = dataOf l ++ dataOf r := by
  simp only [dataOf, List.map_append, List.flatten_append]

@[simp] theorem dataOf_cons (b : DataBlock) (r : List DataBlock) :
    dataOf (b :: r) = b.asDataVec ++ dataOf r := rfl

theorem linked_append_iff (l r : List DataBlock) (start stop : ℕ) :
    Linked start (l ++ r) stop ↔ ∃ mid, Linked start l mid ∧ Linked mid r stop := by
  induction l generalizing start with
  | nil => simp only [List.nil_append, Linked, exists_eq_left']
  | cons b l ih => simp only [List.cons_append, Linked, ih, and_assoc, exists_and_left]

theorem linked_stop (blocks : List DataBlock) (start stop : ℕ)
    (h : Linked start blocks stop) : stop = start + (dataOf blocks).length := by
  induction blocks generalizing start with
  | nil => simpa [Linked] using h.symm
  | cons b rest ih =>
    obtain ⟨rfl, hrest⟩ := h
    rw [ih _ hrest, dataOf_cons, List.length_append, DataBlock.asDataVec_length,
      DataBlock.nextOffset, Nat.add_assoc]

/-- A block of a linked run stands at its own offset. -/
theorem linked_middle (l r : List DataBlock) (b : DataBlock) (start stop : ℕ)
    (h : Linked start (l ++ b :: r) stop) :
    b.offset = start + (dataOf l).length ∧ Linked start l b.offset ∧
      Linked b.nextOffset r stop := by
  obtain ⟨mid, hl, hb, hr⟩ := (linked_append_iff l (b :: r) start stop).mp h
  refine ⟨?_, ?_, hr⟩
  · rw [hb, linked_stop l start mid hl]
  · rw [hb]
    exact hl

theorem linked_offset_lt (blocks : List DataBlock) (b : DataBlock) (start stop : ℕ)
    (h : Linked start blocks stop) (hb : b ∈ blocks) (hpos : 0 < b.totalSize) :
    start ≤ b.offset ∧ b.offset < stop ∧ b.nextOffset ≤ stop := by
  obtain ⟨l, r, rfl⟩ := List.append_of_mem hb
  obtain ⟨hoff, -, hr⟩ := linked_middle l r b start stop h
  have hstop := linked_stop r b.nextOffset stop hr
  have hnext : b.nextOffset = b.offset + b.totalSize := rfl
  omega

theorem cut_in_front (bs rear l r : List DataBlock) (b : DataBlock)
    (hsplit : bs ++ rear = l ++ b :: r) (hhi : (dataOf l).length < (dataOf bs).length) :
    ∃ tail, bs = l ++ b :: tail := by
  induction bs generalizing l with
  | nil => simp at hhi
  | cons c bs ih =>
    cases l with
    | nil =>
      obtain ⟨rfl, -⟩ := List.cons.inj hsplit
      exact ⟨bs, rfl⟩
    | cons c' l =>
      obtain ⟨rfl, htail⟩ := List.cons.inj hsplit
      simp only [dataOf_cons, List.length_append] at hhi
      obtain ⟨tail, rfl⟩ := ih l htail (by omega)
      exact ⟨tail, rfl⟩

/-- Two ways to cut a list of blocks agree where the bytes before the cut do. -/
theorem cut_in_middle (front bs rear l r : List DataBlock) (b : DataBlock)
    (hsplit : front ++ bs ++ rear = l ++ b :: r) (hlo : (dataOf front).length ≤ (dataOf l).length)
    (hhi : (dataOf l).length < (dataOf front).length + (dataOf bs).length)
    (hpos : ∀ c ∈ front, 0 < c.totalSize) :
    ∃ cut tail, bs = cut ++ b :: tail ∧ l = front ++ cut := by
  induction front generalizing l with
  | nil =>
    simp only [List.nil_append, dataOf_nil, List.length_nil, Nat.zero_add] at hsplit hhi ⊢
    obtain ⟨tail, hbs⟩ := cut_in_front bs rear l r b hsplit hhi
    exact ⟨l, tail, hbs, rfl⟩
  | cons c front ih =>
    have hc := hpos c List.mem_cons_self
    cases l with
    | nil =>
      simp only [dataOf_cons, List.length_append, DataBlock.asDataVec_length, dataOf_nil,
        List.length_nil] at hlo
      omega
    | cons c' l =>
      obtain ⟨rfl, htail⟩ := List.cons.inj hsplit
      simp only [dataOf_cons, List.length_append] at hlo hhi
      obtain ⟨cut, tail, rfl, rfl⟩ := ih l htail (by omega) (by omega)
        (fun d hd => hpos d (List.mem_cons_of_mem _ hd))
      exact ⟨cut, tail, rfl, rfl⟩

/-- Blocks before a boundary of the chain are before any block that starts after it. -/
theorem linked_front (front rest l r : List DataBlock) (b : DataBlock) (stop : ℕ)
    (hsplit : front ++ rest = l ++ b :: r) (hfront : Linked 0 front stop)
    (hl : Linked 0 l b.offset) (hle : stop ≤ b.offset)
    (hpos : ∀ c ∈ front ++ rest, 0 < c.totalSize) : ∃ cut, l = front ++ cut := by
  have hflen := linked_stop front 0 stop hfront
  have hllen := linked_stop l 0 b.offset hl
  have hbpos := hpos b (by rw [hsplit]; simp)
  have htotal : (dataOf front).length + (dataOf rest).length =
      (dataOf l).length + (b.totalSize + (dataOf r).length) := by
    have hlen := congrArg (fun bs => (dataOf bs).length) hsplit
    simpa only [dataOf_append, dataOf_cons, List.length_append, DataBlock.asDataVec_length] using hlen
  obtain ⟨cut, -, -, hcut⟩ := cut_in_middle front rest [] l r b (by rw [List.append_nil, hsplit])
    (by omega) (by omega) fun c hc => hpos c (List.mem_append_left _ hc)
  exact ⟨cut, hcut⟩

theorem resize_of_le (data : Bytes) (size : ℕ) (h : size ≤ data.length) :
    SegmentFile.resize data size = data.take size := by
  rw [SegmentFile.resize, Nat.sub_eq_zero_of_le h, List.replicate_zero, List.append_nil]

theorem resize_front (front rest : Bytes) (size : ℕ) (h : front.length ≤ size) :
    ∃ rest', SegmentFile.resize (front ++ rest) size = front ++ rest' := by
  refine ⟨rest.take (size - front.length) ++ List.replicate (size - (front ++ rest).length) 0, ?_⟩
  rw [SegmentFile.resize, List.take_append, List.take_of_length_le h, List.append_assoc]

/-- A write at the end of the front keeps it and puts the block right after. -/
theorem segmentFile_writeBlock_eq (f : SegmentFile) (front rest : Bytes) (b : DataBlock)
    (hd : f.data = front ++ rest) (hroom : b.totalSize ≤ rest.length) :
    ∃ f', f.writeBlock front.length b = .ok f' ∧
      f'.data = front ++ b.asDataVec ++ rest.drop b.totalSize := by
  obtain ⟨f', hwrite, hdata, -⟩ := f.writeBlock_eq_ok front.length b
    (by rw [hd, List.length_append]; omega)
  refine ⟨f', hwrite, ?_⟩
  rw [hdata, hd, List.take_left, List.drop_append, List.drop_eq_nil_of_le (by omega),
    List.nil_append, Nat.add_sub_cancel_left]

variable [Crates]

/-- The segment holds these blocks, in this order, at the front of its file. -/
structure SegmentHolds (s : DirectorySegment) (blocks : List DataBlock) : Prop where
  linked : Linked s.firstBlockOffset blocks s.nextBlockOffset
  framed : ∀ b ∈ blocks, Framed b
  nonempty : blocks ≠ []
  data : ∃ rest, s.segmentFile.data = dataOf blocks ++ rest

/-- The file cursor is where the block cursor says, so that the next block lands after
the last one. -/
def InStep (s : DirectorySegment) : Prop :=
  s.nextFileOffset = s.nextBlockOffset - s.firstBlockOffset

theorem segmentFile_getBlock_eq (f : SegmentFile) (front rest : Bytes) (b : DataBlock)
    (hb : Framed b) (hd : f.data = front ++ b.asDataVec ++ rest) :
    f.getBlock front.length = .ok b := by
  have hslice : slice f.data front.length f.data.length = some (b.asDataVec ++ rest) := by
    rw [slice, if_pos (by rw [hd, List.append_assoc, List.length_append]; omega), List.take_length,
      hd, List.append_assoc, List.drop_left]
  rw [SegmentFile.getBlock]
  cases f.mmap with
  | write =>
    simp only [hslice, orPanic_some, ok_bind, dataBlock_new_append .ref b rest hb, liftError_ok,
      dataBlock_new_asDataVec .bytes b hb]
  | read =>
    simp only [f.sized, hslice, orPanic_some, ok_bind, dataBlock_new_append .ref b rest hb,
      liftError_ok]

theorem segmentFile_getBlockFromNext_eq (f : SegmentFile) (front rest : Bytes) (b : DataBlock)
    (hb : Framed b) (hd : f.data = front ++ b.asDataVec ++ rest) :
    f.getBlockFromNext (front.length + b.totalSize) = .ok b := by
  have hslice : slice f.data 0 f.data.length = some f.data := by
    rw [slice, if_pos (by omega), List.take_length, List.drop_zero]
  have hnew := dataBlock_newFromNextOffset_append .ref b front rest hb
  rw [← hd] at hnew
  rw [SegmentFile.getBlockFromNext]
  cases f.mmap with
  | write =>
    simp only [hnew, liftError_ok, ok_bind, dataBlock_new_asDataVec .bytes b hb]
  | read =>
    simp only [f.sized, hslice, orPanic_some, ok_bind, hnew, liftError_ok]

/-- Where a held block stands in the file. -/
theorem segmentHolds_split (s : DirectorySegment) (l r : List DataBlock) (b : DataBlock)
    (h : SegmentHolds s (l ++ b :: r)) :
    ∃ rest, s.segmentFile.data = dataOf l ++ b.asDataVec ++ rest ∧
      b.offset = s.firstBlockOffset + (dataOf l).length ∧ b.nextOffset ≤ s.nextBlockOffset := by
  obtain ⟨rest, hd⟩ := h.data
  obtain ⟨hoff, -, hr⟩ := linked_middle l r b _ _ h.linked
  refine ⟨dataOf r ++ rest, ?_, hoff, ?_⟩
  · rw [hd]
    simp only [dataOf_append, dataOf_cons, List.append_assoc]
  · have hstop := linked_stop r b.nextOffset s.nextBlockOffset hr
    omega

theorem segment_getBlock_eq (s : DirectorySegment) (blocks : List DataBlock) (b : DataBlock)
    (h : SegmentHolds s blocks) (hb : b ∈ blocks) : s.getBlock b.offset = .ok b := by
  have hframed := h.framed b hb
  have hpos := hframed.totalSize_pos
  obtain ⟨hfirst, hnext, -⟩ := linked_offset_lt blocks b _ _ h.linked hb hpos
  obtain ⟨l, r, rfl⟩ := List.append_of_mem hb
  obtain ⟨rest, hd, hoff, -⟩ := segmentHolds_split s l r b h
  rw [DirectorySegment.getBlock, if_neg (by omega), if_neg (by omega),
    show b.offset - s.firstBlockOffset = (dataOf l).length by omega]
  exact segmentFile_getBlock_eq s.segmentFile (dataOf l) rest b hframed hd

theorem segment_getBlockFromNextOffset_eq (s : DirectorySegment) (blocks : List DataBlock)
    (b : DataBlock) (h : SegmentHolds s blocks) (hb : b ∈ blocks) :
    s.getBlockFromNextOffset b.nextOffset = .ok b := by
  have hframed := h.framed b hb
  have hnextEq : b.nextOffset = b.offset + b.totalSize := rfl
  obtain ⟨l, r, rfl⟩ := List.append_of_mem hb
  obtain ⟨rest, hd, hoff, hle⟩ := segmentHolds_split s l r b h
  rw [DirectorySegment.getBlockFromNextOffset, if_neg (by omega), if_neg (by omega),
    show b.nextOffset - s.firstBlockOffset = (dataOf l).length + b.totalSize by omega]
  exact segmentFile_getBlockFromNext_eq s.segmentFile (dataOf l) rest b hframed hd

/-- A new segment holds its block, with its cursors in step. -/
theorem segment_create_holds (config : DirectoryChainStoreConfig) (existing : List ℕ)
    (b : DataBlock) (hb : Framed b) (hnew : b.offset ∉ existing) :
    ∃ s, DirectorySegment.create config existing b = .ok s ∧ SegmentHolds s [b] ∧ InStep s ∧
      s.firstBlockOffset = b.offset ∧ s.nextBlockOffset = b.nextOffset := by
  obtain ⟨m, hm, hoff, -, -⟩ := hb.headerAgrees
  have hpos := hb.totalSize_pos
  set alloc := max config.segmentOverAllocateSize b.totalSize with halloc
  have hopen : (SegmentFile.openFile [] alloc).data = [] ++ SegmentFile.resize [] alloc := by
    rw [SegmentFile.openFile, if_pos (by simp only [List.length_nil]; omega), List.nil_append]
  obtain ⟨f, hwrite, hdata⟩ := segmentFile_writeBlock_eq (SegmentFile.openFile [] alloc) []
    (SegmentFile.resize [] alloc) b hopen (by rw [SegmentFile.resize_length]; omega)
  rw [List.length_nil] at hwrite
  refine ⟨⟨f, m.offset, m.offset + b.totalSize, b.totalSize⟩, ?_, ?_, ?_, hoff, ?_⟩
  · rw [← hoff] at hnew
    simp only [DirectorySegment.create, hm, orPanic_some, ok_bind, if_neg hnew, ← halloc, hwrite,
      pure, Except.pure]
  · refine ⟨⟨hoff.symm, ?_⟩, ?_, by simp, ?_⟩
    · change b.offset + b.totalSize = m.offset + b.totalSize
      rw [hoff]
    · intro c hc
      rw [List.mem_singleton.mp hc]
      exact hb
    · refine ⟨(SegmentFile.resize [] alloc).drop b.totalSize, ?_⟩
      rw [hdata, List.nil_append, dataOf_cons, dataOf_nil, List.append_nil]
  · simp only [InStep]
    omega
  · simp only [hoff, DataBlock.nextOffset]

/-- A write at the end of a segment in step appends the block. -/
theorem segment_writeBlock_holds (config : DirectoryChainStoreConfig) (s : DirectorySegment)
    (blocks : List DataBlock) (b : DataBlock) (h : SegmentHolds s blocks) (hstep : InStep s)
    (hb : Framed b) (hoff : b.offset = s.nextBlockOffset) :
    ∃ s', s.writeBlock config b = .ok s' ∧ SegmentHolds s' (blocks ++ [b]) ∧ InStep s' ∧
      s'.firstBlockOffset = s.firstBlockOffset ∧ s'.nextBlockOffset = b.nextOffset := by
  obtain ⟨rest, hd⟩ := h.data
  have hlen : (dataOf blocks).length = s.nextFileOffset := by
    have hstop := linked_stop blocks _ _ h.linked
    rw [InStep] at hstep
    omega
  have hge : s.firstBlockOffset ≤ s.nextBlockOffset := by
    have hstop := linked_stop blocks _ _ h.linked
    omega
  -- the file is large enough for the block once its size was ensured
  obtain ⟨rest', hd', hroom⟩ : ∃ rest',
      (s.ensureFileSize config b.totalSize).segmentFile.data = dataOf blocks ++ rest' ∧
      b.totalSize ≤ rest'.length := by
    rw [DirectorySegment.ensureFileSize]
    split_ifs with hsmall
    · set target := s.nextFileOffset + b.totalSize + config.segmentOverAllocateSize
      obtain ⟨rest', hr⟩ := resize_front (dataOf blocks) rest target (by omega)
      have hlen' := SegmentFile.resize_length (dataOf blocks ++ rest) target
      rw [hr, List.length_append] at hlen'
      exact ⟨rest', by simp only [SegmentFile.setLen, hd, hr], by omega⟩
    · have hl := s.segmentFile.sized
      rw [hd, List.length_append] at hl
      exact ⟨rest, hd, by omega⟩
  have hsame : (s.ensureFileSize config b.totalSize).nextFileOffset = s.nextFileOffset ∧
      (s.ensureFileSize config b.totalSize).firstBlockOffset = s.firstBlockOffset ∧
      (s.ensureFileSize config b.totalSize).nextBlockOffset = s.nextBlockOffset := by
    rw [DirectorySegment.ensureFileSize]
    split_ifs <;> exact ⟨rfl, rfl, rfl⟩
  obtain ⟨f, hwrite, hdata⟩ := segmentFile_writeBlock_eq _ (dataOf blocks) rest' b hd' hroom
  rw [hlen] at hwrite
  refine ⟨⟨f, s.firstBlockOffset, s.nextBlockOffset + b.totalSize,
    s.nextFileOffset + b.totalSize⟩, ?_, ?_, ?_, rfl, ?_⟩
  · simp only [DirectorySegment.writeBlock, ne_eq, hoff, not_true_eq_false, if_false, hwrite,
      ok_bind, pure, Except.pure, hsame]
  · refine ⟨?_, ?_, by simp, rest'.drop b.totalSize, ?_⟩
    · refine (linked_append_iff blocks [b] _ _).mpr ⟨s.nextBlockOffset, h.linked, hoff, ?_⟩
      change b.offset + b.totalSize = s.nextBlockOffset + b.totalSize
      rw [hoff]
    · intro c hc
      rcases List.mem_append.mp hc with hc | hc
      · exact h.framed c hc
      · rw [List.mem_singleton.mp hc]
        exact hb
    · simp only [hdata, dataOf_append, dataOf_cons, dataOf_nil, List.append_nil]
  · simp only [InStep] at hstep ⊢
    omega
  · simp only [DataBlock.nextOffset, hoff]

/-- A truncation inside a segment keeps the blocks before the offset. The file cursor does
not move, so that the segment is left out of step. -/
theorem segment_truncate_holds (s : DirectorySegment) (l r : List DataBlock) (b : DataBlock)
    (h : SegmentHolds s (l ++ b :: r)) (hl : l ≠ []) :
    ∃ s', s.truncateFromBlockOffset b.offset = .ok s' ∧ SegmentHolds s' l ∧
      s'.firstBlockOffset = s.firstBlockOffset ∧ s'.nextBlockOffset = b.offset ∧
      s'.nextFileOffset = s.nextFileOffset := by
  obtain ⟨rest, hd, hoff, -⟩ := segmentHolds_split s l r b h
  obtain ⟨-, hlink, -⟩ := linked_middle l r b _ _ h.linked
  have hkeep : b.offset - s.firstBlockOffset = (dataOf l).length := by omega
  have hresize : SegmentFile.resize s.segmentFile.data (dataOf l).length = dataOf l := by
    rw [resize_of_le _ _ (by rw [hd]; simp only [List.length_append]; omega), hd,
      List.append_assoc, List.take_left]
  refine ⟨{ s with nextBlockOffset := b.offset
                   segmentFile := s.segmentFile.setLen (dataOf l).length }, ?_, ?_, rfl, rfl, rfl⟩
  · rw [DirectorySegment.truncateFromBlockOffset, if_neg (by omega)]
    simp only [hkeep]
  · refine ⟨hlink, ?_, hl, [], ?_⟩
    · intro c hc
      exact h.framed c (List.mem_append_left _ hc)
    · simp only [SegmentFile.setLen, hresize, List.append_nil]

end Exocore.Chain
