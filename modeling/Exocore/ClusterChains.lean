import Exocore.ClusterNode

/-! The chains of the nodes of a cluster: certified blocks at one offset are blocks of one proposal,
and of two chains one continues the other. -/
namespace Exocore.Engine

open Exocore.Core Exocore.Chain Exocore.Pending Ballots

section Lists

/-- Blocks at one offset have the same content and end at the same offset. -/
def SameByOffset (l l' : List DataBlock) : Prop :=
  ∀ b ∈ l, ∀ b' ∈ l', b.offset = b'.offset →
    contentOf b = contentOf b' ∧ b.nextOffset = b'.nextOffset

theorem SameByOffset.tail {b b' : DataBlock} {l l' : List DataBlock}
    (h : SameByOffset (b :: l) (b' :: l')) : SameByOffset l l' := fun x hx x' hx' =>
  h x (List.mem_cons_of_mem b hx) x' (List.mem_cons_of_mem b' hx')

/-- Of two chains from one offset on, one has the contents of the other. -/
theorem contents_prefix (l l' : List DataBlock) (start stop stop' : ℕ) (hl : Linked start l stop)
    (hl' : Linked start l' stop') (hsame : SameByOffset l l') :
    l.map contentOf <+: l'.map contentOf ∨ l'.map contentOf <+: l.map contentOf := by
  induction l generalizing start l' with
  | nil => exact Or.inl List.nil_prefix
  | cons b rest ih =>
    cases l' with
    | nil => exact Or.inr List.nil_prefix
    | cons b' rest' =>
      obtain ⟨hb, hrest⟩ := hl
      obtain ⟨hb', hrest'⟩ := hl'
      obtain ⟨hcontent, hnext⟩ := hsame b List.mem_cons_self b' List.mem_cons_self
        (hb.trans hb'.symm)
      rw [← hnext] at hrest'
      simp only [List.map_cons, hcontent, List.prefix_cons_inj]
      exact ih rest' b.nextOffset hrest hrest' hsame.tail

/-- A chain that reaches behind the start of a block of the other one has a block there. -/
theorem exists_block_at (l l' : List DataBlock) (start stop stop' : ℕ) (hl : Linked start l stop)
    (hl' : Linked start l' stop') (hpos : ∀ b ∈ l', 0 < b.totalSize) (hsame : SameByOffset l l')
    (x : DataBlock) (hx : x ∈ l') (hlt : x.offset < stop) : ∃ b ∈ l, b.offset = x.offset := by
  induction l generalizing start l' with
  | nil =>
    have hle := (linked_offset_lt l' x start stop' hl' hx (hpos x hx)).1
    have hstart : start = stop := hl
    omega
  | cons b rest ih =>
    cases l' with
    | nil => exact absurd hx List.not_mem_nil
    | cons b' rest' =>
      obtain ⟨hb, hrest⟩ := hl
      obtain ⟨hb', hrest'⟩ := hl'
      rcases List.mem_cons.mp hx with rfl | hx
      · exact ⟨b, List.mem_cons_self, hb.trans hb'.symm⟩
      · obtain ⟨-, hnext⟩ := hsame b List.mem_cons_self b' List.mem_cons_self (hb.trans hb'.symm)
        rw [← hnext] at hrest'
        obtain ⟨found, hfound, hoffset⟩ := ih rest' b.nextOffset hrest hrest'
          (fun y hy => hpos y (List.mem_cons_of_mem b' hy)) hsame.tail hx
        exact ⟨found, List.mem_cons_of_mem b hfound, hoffset⟩

end Lists

section Certified
variable [Crates] {c : Cluster} {created : Set OperationFrame}

theorem BuiltOfEntries.listed {p : ℕ} {frame : BlockHeaderFrame} {header : BlockHeader}
    {entries : List OperationFrame} (h : BuiltOfEntries created p frame header entries) :
    header.operationsHeader = some (positions entries 0) := by
  obtain ⟨block, cell, operations, hoperations, ⟨-, -, height, offset, hash, id, -, rfl⟩, -⟩ :=
    h.built
  rw [builtHeader, (fromOperations_eq_ok entries operations hoperations).2.1]

/-- The entries of a proposal are known from its header. -/
theorem entries_eq (hl : Ledger c created) {p : ℕ} {frame : BlockHeaderFrame}
    {header : BlockHeader} {entries entries' : List OperationFrame}
    (h : BuiltOfEntries created p frame header entries)
    (h' : BuiltOfEntries created p frame header entries') : entries = entries' := by
  have hpositions := Option.some.inj (h.listed.symm.trans h'.listed)
  have hids : entries.map frameId = entries'.map frameId := by
    have hmap := congrArg (List.map BlockOperationHeader.operationId) hpositions
    rw [positions_ids, positions_ids] at hmap
    exact hmap
  -- frames with the same ids are the same
  have hsame (l l' : List OperationFrame) (hin : ∀ e ∈ l, e ∈ created)
      (hin' : ∀ e ∈ l', e ∈ created) (heq : l.map frameId = l'.map frameId) : l = l' := by
    induction l generalizing l' with
    | nil => exact (List.map_eq_nil_iff.mp heq.symm).symm
    | cons e rest ih =>
      cases l' with
      | nil => exact absurd heq (List.cons_ne_nil _ _)
      | cons e' rest' =>
        obtain ⟨hid, hrest⟩ := List.cons.inj heq
        have he := hl.unique e (hin e List.mem_cons_self) e' (hin' e' List.mem_cons_self) hid
        rw [he, ih rest' (fun x hx => hin x (List.mem_cons_of_mem e hx))
          (fun x hx => hin' x (List.mem_cons_of_mem e' hx)) hrest]
  exact hsame entries entries' (fun e he => (h.created e he).1) (fun e he => (h'.created e he).1)
    hids

/-- Certified blocks at one offset are blocks of one proposal. -/
theorem certified_content (hl : Ledger c created) {b b' : DataBlock} (h : Certified c created b)
    (h' : Certified c created b') (hoffset : b.offset = b'.offset) : contentOf b = contentOf b' := by
  obtain ⟨f, p, header, entries, h⟩ := h
  obtain ⟨f', p', header', entries', h'⟩ := h'
  have hp : (votesOf created).proposed p header.offset :=
    ⟨f, h.mem, b.header, header, h.proposes, rfl⟩
  have hp' : (votesOf created).proposed p' header.offset :=
    ⟨f', h'.mem, b'.header, header', h'.proposes, by rw [← h'.offset, ← hoffset, h.offset]⟩
  obtain rfl := hl.fair.agree p p' header.offset h.signed h'.signed hp hp'
  obtain ⟨-, hframe, rfl⟩ := hl.proposal_eq h.mem h'.mem h.proposes h'.proposes
  have hbuilt := h'.built
  rw [← hframe] at hbuilt
  obtain rfl := entries_eq hl h.built hbuilt
  rw [contentOf, contentOf, hoffset, hframe, h.operationsData, h'.operationsData]

/-- The size of a block is that of its content: the header says how much room the signatures take. -/
theorem nextOffset_of_content {b b' : DataBlock} (hb : Framed b) (hb' : Framed b')
    (h : contentOf b = contentOf b') : b.nextOffset = b'.nextOffset := by
  simp only [contentOf, BlockContent.mk.injEq] at h
  obtain ⟨hoffset, hheader, hdata⟩ := h
  obtain ⟨m, hm, -, -, hsize⟩ := hb.headerAgrees
  obtain ⟨m', hm', -, -, hsize'⟩ := hb'.headerAgrees
  rw [hheader, hm'] at hm
  obtain rfl := Option.some.inj hm
  simp only [DataBlock.nextOffset, DataBlock.totalSize, hoffset, hheader, hdata, ← hsize, ← hsize']

end Certified

section Nodes
variable [Crates] {c : Cluster} {created : Set OperationFrame} {n m : NodeId}
  {store store' : MemoryPendingStore} {chain chain' : DirectoryChainStore}
  {blocks blocks' : List DataBlock}

/-- The parts of two chains behind the one that both nodes started with. -/
theorem sameByOffset_own (hl : Ledger c created) {own own' : List DataBlock}
    (hframed : ∀ b ∈ own, Framed b) (hframed' : ∀ b ∈ own', Framed b)
    (hown : ∀ b ∈ own, Certified c created b) (hown' : ∀ b ∈ own', Certified c created b) :
    SameByOffset own own' := by
  intro b hb b' hb' hoffset
  have hcontent := certified_content hl (hown b hb) (hown' b' hb') hoffset
  exact ⟨hcontent, nextOffset_of_content (hframed b hb) (hframed' b' hb') hcontent⟩

/-- Of the chains of two nodes, one continues the other. -/
theorem NodeSound.prefixes (h : NodeSound c created n store chain blocks)
    (h' : NodeSound c created m store' chain' blocks') (hl : Ledger c created) :
    blocks.map contentOf <+: blocks'.map contentOf ∨
      blocks'.map contentOf <+: blocks.map contentOf := by
  obtain ⟨own, rfl, hown⟩ := h.composed
  obtain ⟨own', rfl, hown'⟩ := h'.composed
  obtain ⟨mid, hinitial, hlinked⟩ := (linked_append_iff _ own 0 _).mp h.toHoldsFramed.linked
  obtain ⟨mid', hinitial', hlinked'⟩ := (linked_append_iff _ own' 0 _).mp h'.toHoldsFramed.linked
  obtain rfl : mid = mid' :=
    (linked_stop _ 0 mid hinitial).trans (linked_stop _ 0 mid' hinitial').symm
  have hsame := sameByOffset_own hl
    (fun b hb => h.toHoldsFramed.framed b (List.mem_append_right _ hb))
    (fun b hb => h'.toHoldsFramed.framed b (List.mem_append_right _ hb)) hown hown'
  simp only [List.map_append, List.prefix_append_right_inj]
  exact contents_prefix own own' mid _ _ hlinked hlinked' hsame

/-- A chain that reaches behind the start of a block of another one has a block that ends where
that one does. -/
theorem NodeSound.shares (h : NodeSound c created n store chain blocks)
    (h' : NodeSound c created m store' chain' blocks') (hl : Ledger c created) (x : DataBlock)
    (hx : x ∈ blocks') (hlt : x.offset < endOf blocks) :
    ∃ b ∈ blocks, b.nextOffset = x.nextOffset := by
  have hlinks := h.toHoldsFramed.linked
  obtain ⟨own, rfl, hown⟩ := h.composed
  obtain ⟨own', rfl, hown'⟩ := h'.composed
  obtain ⟨mid, hinitial, hlinked⟩ := (linked_append_iff _ own 0 _).mp hlinks
  obtain ⟨mid', hinitial', hlinked'⟩ := (linked_append_iff _ own' 0 _).mp h'.toHoldsFramed.linked
  obtain rfl : mid = mid' :=
    (linked_stop _ 0 mid hinitial).trans (linked_stop _ 0 mid' hinitial').symm
  have hframed' (b : DataBlock) (hb : b ∈ own') : Framed b :=
    h'.toHoldsFramed.framed b (List.mem_append_right _ hb)
  have hsame := sameByOffset_own hl
    (fun b hb => h.toHoldsFramed.framed b (List.mem_append_right _ hb)) hframed' hown hown'
  rcases List.mem_append.mp hx with hx | hx
  · exact ⟨x, List.mem_append_left _ hx, rfl⟩
  · obtain ⟨b, hb, hoffset⟩ := exists_block_at own own' mid _ _ hlinked hlinked'
      (fun y hy => (hframed' y hy).totalSize_pos) hsame x hx hlt
    exact ⟨b, List.mem_append_right _ hb, (hsame b hb x hx hoffset).2⟩

end Nodes

end Exocore.Engine
