import Exocore.ChainOpen

/-! The scan of a segment file: it walks over the blocks of the file and ends in the zeros
behind them, so that it finds the offsets the segment had when it was written to. -/
namespace Exocore.Chain

open Exocore.Core

/-- Nothing was ever written behind the file cursor. -/
def ZeroPadded (s : DirectorySegment) : Prop :=
  s.nextFileOffset ≤ s.segmentFile.data.length ∧
    ∀ byte ∈ s.segmentFile.data.drop s.nextFileOffset, byte = 0

theorem readLe32_zeros (size : ℕ) (h : 4 ≤ size) :
    readLe32 (List.replicate size 0) = some 0 := by
  obtain ⟨n, rfl⟩ : ∃ n, size = n + 4 := ⟨size - 4, by omega⟩
  simp [List.replicate_succ, readLe32]

/-- A frame of size zero has no room for a multihash. -/
theorem hashedFrame_read_zeros {T : Type} (decode : MessageReader T) (size : ℕ) :
    ∃ e, HashedFrame.read decode (List.replicate size 0) = .error (.error e) := by
  rw [HashedFrame.read]
  by_cases h4 : size < 4
  · refine ⟨.sourceTooSmall 4 size, ?_⟩
    simp only [SizedFrame.new, FrameReader.exposedData, orPanic_some, ok_bind, checkFromSize,
      List.length_replicate, if_pos h4, error_bind]
  by_cases h8 : size < 8
  · refine ⟨.sourceTooSmall 4 (size - 4), ?_⟩
    have hshort : size - 4 < 4 + 0 := by omega
    simp only [SizedFrame.new, FrameReader.exposedData, orPanic_some, ok_bind, checkFromSize,
      List.length_replicate, if_neg h4, readU32, readLe32_zeros size (by omega), orError_some,
      List.length_drop, if_pos hshort, error_bind]
  · have hsized : SizedFrame.new (List.replicate size (0 : UInt8)) =
        .ok ⟨List.replicate size 0, 0, 0⟩ :=
      (sizedFrame_new_eq_ok_iff _ _).mpr
        ⟨0, readLe32_zeros size (by omega), by rw [List.length_replicate]; omega, rfl⟩
    have hexp : FrameReader.exposedData
        (⟨List.replicate size 0, 0, 0⟩ : SizedFrame Bytes) = some [] := by
      change slice (List.replicate size 0) (0 + 4) (0 + 4 + 0) = some []
      rw [slice, if_pos (by rw [List.length_replicate]; omega)]
      congr 1
      apply List.drop_eq_nil_of_le
      rw [List.length_take]
      omega
    refine ⟨.sourceTooSmall multihashSize 0, ?_⟩
    rw [hsized, ok_bind, HashedFrame.ofSized, MultihashFrame.new, hexp]
    rfl

theorem zeros_eq_replicate (data : Bytes) (h : ∀ byte ∈ data, byte = 0) :
    data = List.replicate data.length 0 := List.eq_replicate_iff.mpr ⟨rfl, h⟩

theorem mem_drop_resize (data : Bytes) (size n : ℕ) (h : ∀ byte ∈ data.drop n, byte = 0) :
    ∀ byte ∈ (SegmentFile.resize data size).drop n, byte = 0 := by
  intro byte hbyte
  rw [SegmentFile.resize, List.drop_append] at hbyte
  rcases List.mem_append.mp hbyte with hold | hnew
  · rw [List.drop_take] at hold
    exact h byte (List.mem_of_mem_take hold)
  · exact List.eq_of_mem_replicate (List.mem_of_mem_drop hnew)

/-- A block that is written at the end of the front leaves the zeros behind it. -/
theorem segmentFile_writeBlock_zeros (f f' : SegmentFile) (n : ℕ) (b : DataBlock)
    (hzero : ∀ byte ∈ f.data.drop n, byte = 0)
    (h : f.writeBlock n b = .ok f') :
    n + b.totalSize ≤ f'.data.length ∧ ∀ byte ∈ f'.data.drop (n + b.totalSize), byte = 0 := by
  have hroom := f.room_of_writeBlock f' n b h
  obtain ⟨f'', hwrite, hdata, -⟩ := f.writeBlock_eq_ok n b hroom
  obtain rfl := Except.ok.inj (hwrite.symm.trans h)
  have hfront : (f.data.take n).length = n := by
    rw [List.length_take]
    omega
  rw [hdata]
  constructor
  · simp only [List.length_append, DataBlock.asDataVec_length, List.length_take, List.length_drop]
    omega
  · intro byte hbyte
    rw [List.drop_left' (by rw [List.length_append, hfront, DataBlock.asDataVec_length]),
      ← List.drop_drop] at hbyte
    exact hzero byte (List.mem_of_mem_drop hbyte)

theorem create_zeroPadded (config : DirectoryChainStoreConfig) (existing : List ℕ)
    (b : DataBlock) (s : DirectorySegment)
    (h : DirectorySegment.create config existing b = .ok s) : ZeroPadded s := by
  simp only [DirectorySegment.create, bind_eq_ok_iff] at h
  obtain ⟨header, -, h⟩ := h
  split_ifs at h
  simp only [bind_eq_ok_iff, pure, Except.pure, Except.ok.injEq] at h
  obtain ⟨file, hwrite, rfl⟩ := h
  have hzero : ∀ byte ∈ (SegmentFile.openFile []
      (max config.segmentOverAllocateSize b.totalSize)).data.drop 0, byte = 0 := by
    intro byte hbyte
    rw [List.drop_zero, SegmentFile.openFile] at hbyte
    split_ifs at hbyte
    · simp only [SegmentFile.resize, List.take_nil, List.nil_append] at hbyte
      exact List.eq_of_mem_replicate hbyte
    · contradiction
  have hwritten := segmentFile_writeBlock_zeros _ _ 0 b hzero hwrite
  rwa [Nat.zero_add] at hwritten

theorem ensureFileSize_zeroPadded (config : DirectoryChainStoreConfig) (s : DirectorySegment)
    (size : ℕ) (h : ZeroPadded s) : ZeroPadded (s.ensureFileSize config size) := by
  rw [DirectorySegment.ensureFileSize]
  split_ifs
  · refine ⟨?_, mem_drop_resize _ _ _ h.2⟩
    simp only [SegmentFile.setLen, SegmentFile.resize_length]
    omega
  · exact h

theorem writeBlock_zeroPadded (config : DirectoryChainStoreConfig) (s s' : DirectorySegment)
    (b : DataBlock) (h : ZeroPadded s) (hwrite : s.writeBlock config b = .ok s') :
    ZeroPadded s' := by
  have hsame : (s.ensureFileSize config b.totalSize).nextFileOffset = s.nextFileOffset := by
    rw [DirectorySegment.ensureFileSize]
    split_ifs <;> rfl
  have hensured := ensureFileSize_zeroPadded config s b.totalSize h
  simp only [DirectorySegment.writeBlock] at hwrite
  split_ifs at hwrite
  simp only [bind_eq_ok_iff, pure, Except.pure, Except.ok.injEq] at hwrite
  obtain ⟨file, hfile, rfl⟩ := hwrite
  rw [ZeroPadded, hsame] at hensured
  have hwritten := segmentFile_writeBlock_zeros _ _ _ b hensured.2 hfile
  simpa only [ZeroPadded, hsame] using hwritten

variable [Crates]

theorem dataBlock_new_zeros (kind : DataKind) (size : ℕ) :
    ∃ e, DataBlock.new kind (List.replicate size 0) = .error (.error e) := by
  obtain ⟨e, he⟩ := hashedFrame_read_zeros Crates.readBlockHeader size
  refine ⟨BlockError.ofFraming e, ?_⟩
  rw [DataBlock.new, readHeaderFrame, he]
  rfl

/-- The scan goes from block to block and keeps the last one. -/
theorem lastBlock_eq (data : Bytes) (size : ℕ) (l r : List DataBlock) (fuel : ℕ)
    (last : Option DataBlock) (hdata : data = dataOf (l ++ r) ++ List.replicate size 0)
    (hframed : ∀ b ∈ r, Framed b) (hfuel : (dataOf r).length < fuel) :
    SegmentFile.lastBlock ⟨data, data.length, .read, rfl⟩ fuel (dataOf l).length last =
      .ok (r.getLast?.or last) := by
  induction r generalizing l fuel last with
  | nil =>
    obtain ⟨fuel, rfl⟩ : ∃ n, fuel = n + 1 := ⟨fuel - 1, by omega⟩
    rw [List.append_nil] at hdata
    rw [SegmentFile.lastBlock]
    split_ifs with hend
    · rfl
    · -- the zeros behind the last block are not a block
      have hslice : slice data (dataOf l).length data.length = some (List.replicate size 0) := by
        rw [slice, if_pos ⟨by rw [hdata, List.length_append]; omega, le_rfl⟩, List.take_length,
          hdata, List.drop_left]
      obtain ⟨e, he⟩ := dataBlock_new_zeros .ref size
      have hread : SegmentFile.getBlock ⟨data, data.length, .read, rfl⟩ (dataOf l).length =
          .error (.error (ChainError.block e)) := by
        simp only [SegmentFile.getBlock, hslice, orPanic_some, ok_bind, he, liftError_error,
          Fault.map]
      rw [hread]
      rfl
  | cons b r ih =>
    have hb := hframed b List.mem_cons_self
    have hpos := hb.totalSize_pos
    obtain ⟨fuel, rfl⟩ : ∃ n, fuel = n + 1 := ⟨fuel - 1, by omega⟩
    have hfront : data = dataOf l ++ b.asDataVec ++ (dataOf r ++ List.replicate size 0) := by
      rw [hdata]
      simp only [dataOf_append, dataOf_cons, List.append_assoc]
    have hread := segmentFile_getBlock_eq ⟨data, data.length, .read, rfl⟩ (dataOf l)
      (dataOf r ++ List.replicate size 0) b hb hfront
    have hlen : (dataOf l).length < data.length := by
      rw [hfront]
      simp only [List.length_append, DataBlock.asDataVec_length]
      omega
    have hnext : (dataOf l).length + b.totalSize = (dataOf (l ++ [b])).length := by
      simp only [dataOf_append, dataOf_cons, dataOf_nil, List.length_append,
        DataBlock.asDataVec_length, List.length_nil, Nat.add_zero]
    rw [dataOf_cons, List.length_append, DataBlock.asDataVec_length] at hfuel
    rw [SegmentFile.lastBlock, if_neg (by simpa using hlen), hread]
    simp only [hnext]
    rw [ih (l ++ [b]) fuel (some b) (by rw [hdata, List.append_assoc]; rfl)
      (fun c hc => hframed c (List.mem_cons_of_mem b hc)) (by omega)]
    cases hr : r.getLast? with
    | none =>
      rw [List.getLast?_eq_none_iff.mp hr]
      rfl
    | some c =>
      rw [List.getLast?_cons, hr]
      rfl

/-- The file of a segment in step, blocks and zeros. -/
theorem zeroPadded_data (s : DirectorySegment) (blocks : List DataBlock)
    (h : SegmentHolds s blocks) (hstep : InStep s) (hzero : ZeroPadded s) :
    ∃ size, s.segmentFile.data = dataOf blocks ++ List.replicate size 0 := by
  obtain ⟨rest, hd⟩ := h.data
  have hstop := linked_stop blocks _ _ h.linked
  have hcursor : s.nextFileOffset = (dataOf blocks).length := by
    rw [InStep] at hstep
    omega
  have hrest := hzero.2
  rw [hcursor, hd, List.drop_left] at hrest
  exact ⟨rest.length, by rw [hd, ← zeros_eq_replicate rest hrest]⟩

/-- The scan finds the offsets the segment has in memory. -/
theorem fromSegmentFile_eq (s : DirectorySegment) (blocks : List DataBlock) (filename : String)
    (h : SegmentHolds s blocks) (hstep : InStep s) (hzero : ZeroPadded s) :
    SegmentMetadata.fromSegmentFile filename (SegmentFile.openFile s.segmentFile.data 0) =
      .ok ⟨filename, s.firstBlockOffset, s.nextBlockOffset⟩ := by
  obtain ⟨size, hd⟩ := zeroPadded_data s blocks h hstep hzero
  have hopen : SegmentFile.openFile s.segmentFile.data 0 =
      ⟨s.segmentFile.data, s.segmentFile.data.length, .read, rfl⟩ := by
    rw [SegmentFile.openFile, if_neg (by omega)]
  obtain ⟨first, rest, rfl⟩ := List.exists_cons_of_ne_nil h.nonempty
  obtain ⟨l, last, hlast⟩ := List.eq_nil_or_concat (first :: rest) |>.resolve_left h.nonempty
  rw [List.concat_eq_append] at hlast
  have hfirst : first.offset = s.firstBlockOffset := h.linked.1
  have hread := segmentFile_getBlock_eq (SegmentFile.openFile s.segmentFile.data 0) []
    (dataOf rest ++ List.replicate size 0) first (h.framed first List.mem_cons_self)
    (by rw [hopen, hd, dataOf_cons, List.nil_append, List.append_assoc])
  have hscan := lastBlock_eq s.segmentFile.data size [] (first :: rest)
    (s.segmentFile.data.length + 1) none hd h.framed
    (by rw [hd, List.length_append]; omega)
  have hnext : last.offset + last.totalSize = s.nextBlockOffset := by
    have hlinked := h.linked
    rw [hlast] at hlinked
    exact (linked_middle l [] last _ _ hlinked).2.2
  rw [List.length_nil] at hread
  rw [dataOf_nil, List.length_nil, hlast, List.getLast?_concat] at hscan
  rw [SegmentMetadata.fromSegmentFile, hread]
  simp only [ok_bind, hopen, hscan, Option.some_or, orError_some, pure, Except.pure, hfirst, hnext]

end Exocore.Chain
