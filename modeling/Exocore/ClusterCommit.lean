import Exocore.ClusterGroups

/-! The block that a node of a cluster commits: it is made of the entries of its proposal, and is
certified. -/
namespace Exocore.Engine

open Exocore.Core Exocore.Chain Exocore.Pending Ballots SortedMap

section Entries
variable [Crates] {c : Cluster} {created : Set OperationFrame} {store : MemoryPendingStore} {p : ℕ}
  {frame : BlockHeaderFrame} {header : BlockHeader} {entries : List OperationFrame}

/-- Each position cuts the bytes of its frame out of all of them. -/
theorem positions_slice (frames : List OperationFrame) (before : Bytes)
    (hsmall : (before ++ framesData frames).length < 2^32) (x : BlockOperationHeader)
    (hx : x ∈ positions frames before.length) :
    ∃ f ∈ frames, x.operationId = frameId f ∧
      slice (before ++ framesData frames) x.dataOffset (x.dataOffset + x.dataSize) =
        some f.wholeData := by
  induction frames generalizing before with
  | nil => exact absurd hx List.not_mem_nil
  | cons f rest ih =>
    have hdata : before ++ framesData (f :: rest) = before ++ f.wholeData ++ framesData rest := by
      rw [framesData_cons, List.append_assoc]
    rw [hdata] at hsmall ⊢
    have hlength : (before ++ f.wholeData ++ framesData rest).length =
        before.length + f.wholeData.length + (framesData rest).length := by
      rw [List.length_append, List.length_append]
    rw [positions, Nat.mod_eq_of_lt (by omega), Nat.mod_eq_of_lt (by omega)] at hx
    rcases List.mem_cons.mp hx with rfl | hx
    · exact ⟨f, List.mem_cons_self, rfl, slice_append before f.wholeData (framesData rest)⟩
    · rw [← List.length_append] at hx
      obtain ⟨g, hg, hid, hslice⟩ := ih (before ++ f.wholeData) hsmall hx
      exact ⟨g, List.mem_cons_of_mem f hg, hid, hslice⟩

/-- What the store has under the ids of created frames is these frames. -/
theorem getOperation_entries (hl : Ledger c created) (hstored : StoredIn store created)
    (entries : List OperationFrame) (hin : ∀ e ∈ entries, e ∈ created)
    (hpresent : ∀ e ∈ entries, (store.getOperation (frameId e)).isSome) :
    ((entries.map frameId).filterMap store.getOperation).map StoredOperation.frame = entries ∧
      ((entries.map frameId).filterMap store.getOperation).map StoredOperation.operationId =
        entries.map frameId := by
  induction entries with
  | nil => exact ⟨rfl, rfl⟩
  | cons e rest ih =>
    obtain ⟨hframes, hids⟩ := ih (fun x hx => hin x (List.mem_cons_of_mem e hx))
      fun x hx => hpresent x (List.mem_cons_of_mem e hx)
    obtain ⟨op, hop⟩ := Option.isSome_iff_exists.mp (hpresent e List.mem_cons_self)
    obtain ⟨hframe, hid⟩ := getOperation_frame store _ op hop
    have heq : op.frame = e :=
      hl.unique _ (hstored _ _ _ hframe) e (hin e List.mem_cons_self) hid
    have hopId : op.operationId = frameId e := by
      obtain ⟨-, g, -, hg⟩ := (store.getOperation_eq_some _ op).mp hop
      rw [hg]
    simp only [List.map_cons, List.filterMap_cons_some hop, heq, hopId, hframes, hids,
      and_self]

theorem storedFrames_entries (hl : Ledger c created) (hstored : StoredIn store created)
    (h : BuiltOfEntries created p frame header entries)
    (hpresent : ∀ id ∈ entries.map frameId, (store.getOperation id).isSome) :
    storedFrames store (entries.map frameId) = entries := by
  obtain ⟨hframes, hids⟩ := getOperation_entries hl hstored entries
    (fun e he => (h.created e he).1) fun e he => hpresent _ (List.mem_map_of_mem he)
  -- the operations are in the order of their ids already
  have hsorted : ((entries.map frameId).filterMap store.getOperation).Pairwise fun a b =>
      a.operationId ≤ b.operationId := by
    have hle : (entries.map frameId).Pairwise (· ≤ ·) :=
      List.pairwise_map.mpr (h.increasing.sorted.imp fun hlt => hlt.le)
    rw [← hids] at hle
    exact List.pairwise_map.mp hle
  rw [storedFrames, hsorted.insertionSort_eq, hframes]

theorem BuiltOfEntries.size (h : BuiltOfEntries created p frame header entries) :
    header.operationsSize = (framesData entries).length ∧ (framesData entries).length < 2^32 := by
  obtain ⟨block, cell, operations, hoperations, ⟨-, hsmall, height, offset, hash, id, -, rfl⟩, -⟩ :=
    h.built
  have hdata := (fromOperations_eq_ok entries operations hoperations).1
  rw [builtHeader, ← hdata]
  exact ⟨Nat.mod_eq_of_lt hsmall, hsmall⟩

/-- The header of a proposal fits the entries that it was built from. -/
theorem headerFits_of_built (hh : HeadersReadBack) (hl : Ledger c created)
    (hstored : StoredIn store created) (h : BuiltOfEntries created p frame header entries)
    (hpresent : ∀ id ∈ entries.map frameId, (store.getOperation id).isSome) :
    HeaderFits store (entries.map frameId) header := by
  have hframes := storedFrames_entries hl hstored h hpresent
  obtain ⟨hsize, hsmall⟩ := h.size
  refine ⟨positions entries 0, h.listed, by rw [hframes, hsize], ?_⟩
  intro x hx
  obtain ⟨e, he, hxid, hslice⟩ := positions_slice entries [] hsmall x hx
  obtain ⟨op, hop⟩ := Option.isSome_iff_exists.mp (hpresent _ (List.mem_map_of_mem he))
  obtain ⟨hframe, hid⟩ := getOperation_frame store _ op hop
  have heq : op.frame = e := hl.unique _ (hstored _ _ _ hframe) e (h.created e he).1 hid
  refine ⟨⟨op, by rw [hxid, hop], ?_⟩, ?_⟩
  · rw [hframes, heq]
    exact hslice
  · -- the search finds the entry in the block of the proposer
    obtain ⟨block, cell, operations, hoperations, hbuilt, -⟩ := h.built
    obtain ⟨hreader, hdata, -⟩ := built_parts hh block cell operations header hbuilt
    have hheaders : block.operationsHeader = .ok (positions entries 0) := by
      simp only [DataBlock.operationsHeader, DataBlock.headerReader, hreader, orError_some, ok_bind,
        h.listed]
    have hread := positions_read entries [] hsmall
    rw [List.nil_append, ← (fromOperations_eq_ok entries operations hoperations).1, ← hdata]
      at hread
    have hget := getOperation_of_positions block entries h.increasing hheaders hread x.operationId
    obtain ⟨found, hfound⟩ : ∃ found, (entries.find? fun f => frameId f = x.operationId) =
        some found := by
      apply Option.isSome_iff_exists.mp
      rw [List.find?_isSome]
      exact ⟨e, he, decide_eq_true hxid.symm⟩
    rw [hfound] at hget
    exact search_of_getOperation block header _ x.operationId found hreader h.listed hget

/-- The frame of the header has its size at both ends. -/
theorem BuiltOfEntries.sized (hh : HeadersReadBack)
    (h : BuiltOfEntries created p frame header entries) : ∃ n, SizedBy frame.wholeData n := by
  obtain ⟨block, cell, operations, -, hbuilt, rfl, -⟩ := h.built
  obtain ⟨-, -, -, -, -, -, -, -, hread, hlength⟩ :=
    built_parts hh block cell operations header hbuilt
  rw [readHeaderFrame, liftError_eq_ok_iff] at hread
  rw [hashedFrame_read_built _ _ _ hlength hread]
  exact ⟨_, sizedBytes_sizedBy _ hlength⟩

end Entries

section Builds
variable [Crates] {c : Cluster} {created : Set OperationFrame} {n : NodeId}
  {store : MemoryPendingStore} {chain : DirectoryChainStore} {p : ℕ} {f : OperationFrame}
  {frame : BlockHeaderFrame} {header header' : BlockHeader} {signed : PendingBlock} {b : DataBlock}
  {ops : BlockOperations}

/-- The block that is built for a proposal with enough signatures is certified, and reads back. -/
theorem builds_certified (hh : HeadersReadBack) (hsigs : SignaturesReadBack)
    (hsize : SignaturesSizeFits) (hl : Ledger c created) (hstored : StoredIn store created)
    (hreads : ReadsProposal created signed p f frame header)
    (hbuilds : Builds (c.cell n) signed store chain b header' ops)
    (hmajority : Majority c.members fun m => (votesOf created).signed m p) :
    WellFormed b ∧ b.offset = header.offset ∧ Certified c created b := by
  obtain ⟨entries, hentries⟩ := hl.built f hreads.mem p frame header hreads.proposes
  have hframe : b.header = frame := Except.ok.inj (hbuilds.frame.symm.trans hreads.getBlock)
  obtain rfl : header' = header := by
    obtain ⟨-, -, -, -, hreader⟩ := hreads.proposes
    rw [← hframe, hbuilds.reader] at hreader
    exact Option.some.inj hreader
  have hids : signed.operations = entries.map frameId := by
    rw [hreads.operations, hentries.listed, Option.getD_some, positions_ids]
    rfl
  have hpresent : ∀ id ∈ entries.map frameId, (store.getOperation id).isSome := by
    rw [← hids]
    exact hbuilds.present
  have hfits : HeaderFits store signed.operations header' := by
    rw [hids]
    exact headerFits_of_built hh hl hstored hentries hpresent
  have hsized : ∃ n, SizedBy b.header.wholeData n := by
    rw [hframe]
    exact hentries.sized hh
  have hoffset : b.offset = header'.offset := hbuilds.offset.trans hreads.offset
  have hwell := builds_wellFormed hsigs hsize _ signed store chain b header' ops hbuilds hoffset
    hsized hfits
  have hdata : b.operationsData = framesData entries := by
    rw [builds_data _ signed store chain b header' ops hbuilds, hids,
      storedFrames_entries hl hstored hentries hpresent]
  refine ⟨hwell, hoffset, f, p, header', entries, hreads.mem, ?_, ?_, hoffset, hdata, hmajority, ?_⟩
  · rw [hframe]
    exact hreads.proposes
  · rw [hframe]
    exact hentries
  · rintro id (⟨m, hm, rfl⟩ | hcontains)
    · left
      rw [hbuilds.reader] at hm
      rw [← Option.some.inj hm]
      obtain ⟨-, -, -, -, -, -, hid⟩ := hentries.built
      exact hid
    · right
      obtain ⟨hs, hhs, x, hx, rfl⟩ := (builds_contains_iff _ signed store chain b header' ops hbuilds
        hfits id).mp hcontains
      rw [hentries.listed] at hhs
      obtain rfl := Option.some.inj hhs
      obtain ⟨e, he, hid, -⟩ := positions_slice entries [] hentries.size.2 x hx
      exact ⟨e, he, hid.symm⟩

end Builds

end Exocore.Engine
