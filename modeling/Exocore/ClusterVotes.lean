import Exocore.ClusterWorld

/-! What the operations that the nodes of a cluster have created say: entries, proposals of blocks
made of entries, and the votes of the chain nodes on the proposals. -/
namespace Exocore.Engine

open Exocore.Core Exocore.Chain Exocore.Pending Ballots SortedMap

section Readings
variable [Crates] {f g : OperationFrame} {id p q : ℕ} {n m : NodeId}
  {frame frame' : BlockHeaderFrame} {header header' : BlockHeader}

def IsEntry (f : OperationFrame) : Prop := ∃ id, Enters f id

/-- The frame is a vote of the node on the proposal. -/
def VoteOf (f : OperationFrame) (n : NodeId) (p : ℕ) : Prop := Signs f n p ∨ Refuses f n p

theorem frameId_of_reader {r : ChainOperation} (h : f.frame.reader = some r) :
    frameId f = r.operationId := by
  rw [frameId, h]
  rfl

theorem Enters.frameId_eq (h : Enters f id) : frameId f = id := by
  obtain ⟨n, data, hr⟩ := h
  exact frameId_of_reader hr

theorem Proposes.frameId_eq (h : Proposes f p frame header) : frameId f = p := by
  obtain ⟨n, data, hr, -⟩ := h
  exact frameId_of_reader hr

/-- A proposal has one header. -/
theorem Proposes.unique (h : Proposes f p frame header) (h' : Proposes f q frame' header') :
    p = q ∧ frame = frame' ∧ header = header' := by
  obtain ⟨n, data, hr, hread, hheader⟩ := h
  obtain ⟨n', data', hr', hread', hheader'⟩ := h'
  have hmessage := Option.some.inj (hr.symm.trans hr')
  simp only [OperationBuilder.newBlockProposalFromData, ChainOperation.mk.injEq,
    OperationBody.blockPropose.injEq, Option.some.injEq] at hmessage
  obtain ⟨rfl, -, -, rfl⟩ := hmessage
  have hframe := Except.ok.inj (hread.symm.trans hread')
  subst hframe
  exact ⟨rfl, rfl, Option.some.inj (hheader.symm.trans hheader')⟩

theorem VoteOf.unique (h : VoteOf f n p) (h' : VoteOf f m q) : n = m ∧ p = q := by
  have hnode {a b : NodeId} (hab : a.str = b.str) : a = b := by
    cases a
    cases b
    exact congrArg NodeId.mk hab
  rcases h with ⟨id, hr⟩ | ⟨id, hr⟩ <;> rcases h' with ⟨id', hr'⟩ | ⟨id', hr'⟩ <;>
    have hmessage := Option.some.inj (hr.symm.trans hr') <;>
    simp only [OperationBuilder.newSignatureForBlock, OperationBuilder.newRefusal,
      ChainOperation.mk.injEq, Option.some.injEq, reduceCtorEq, and_false] at hmessage
  · exact ⟨hnode hmessage.2.2.1, hmessage.1⟩
  · exact ⟨hnode hmessage.2.2.1, hmessage.1⟩

theorem Signs.not_refuses (h : Signs f n p) : ¬ Refuses f m q := by
  rintro ⟨id', hr'⟩
  obtain ⟨id, hr⟩ := h
  have hmessage := Option.some.inj (hr.symm.trans hr')
  simp [OperationBuilder.newSignatureForBlock, OperationBuilder.newRefusal] at hmessage

theorem VoteOf.not_proposes (h : VoteOf f n p) : ¬ Proposes f q frame header := by
  rintro ⟨m, data, hr', -⟩
  rcases h with ⟨id, hr⟩ | ⟨id, hr⟩ <;>
    have hmessage := Option.some.inj (hr.symm.trans hr') <;>
    simp [OperationBuilder.newSignatureForBlock, OperationBuilder.newRefusal,
      OperationBuilder.newBlockProposalFromData] at hmessage

theorem IsEntry.not_proposes (h : IsEntry f) : ¬ Proposes f q frame header := by
  rintro ⟨m, data, hr', -⟩
  obtain ⟨id, n, data', hr⟩ := h
  have hmessage := Option.some.inj (hr.symm.trans hr')
  simp [OperationBuilder.newEntry, OperationBuilder.newBlockProposalFromData] at hmessage

theorem IsEntry.not_vote (h : IsEntry f) : ¬ VoteOf f n p := by
  rintro (⟨id', hr'⟩ | ⟨id', hr'⟩) <;>
    obtain ⟨id, m, data, hr⟩ := h <;>
    have hmessage := Option.some.inj (hr.symm.trans hr') <;>
    simp [OperationBuilder.newEntry, OperationBuilder.newSignatureForBlock,
      OperationBuilder.newRefusal] at hmessage

end Readings

section Members

/-- The chain nodes of the cluster. -/
def Cluster.members (c : Cluster) : Finset NodeId :=
  ((c.nodes.filter fun n => n.hasRole .chain).map CellNode.id).toFinset

theorem Cluster.mem_members_iff (c : Cluster) (id n : NodeId) :
    n ∈ c.members ↔ IsChainNode (c.cell id) n := by
  simp only [members, List.mem_toFinset, List.mem_map, List.mem_filter, IsChainNode]
  constructor
  · rintro ⟨node, ⟨hnode, hrole⟩, rfl⟩
    refine ⟨node, ?_, hrole⟩
    obtain ⟨found, hfound⟩ : ∃ found, (c.cell id).get node.id = some found := by
      apply Option.isSome_iff_exists.mp
      rw [Cell.get, List.find?_isSome]
      exact ⟨node, hnode, by simp⟩
    have hmem : found ∈ c.nodes := List.mem_of_find?_eq_some hfound
    have hid : found.id = node.id := by
      have hsome := List.find?_some hfound
      exact of_decide_eq_true hsome
    rw [hfound, List.inj_on_of_nodup_map c.nodup hmem hnode hid]
  · rintro ⟨node, hnode, hrole⟩
    have hid := List.find?_some hnode
    exact ⟨node, ⟨List.mem_of_find?_eq_some hnode, hrole⟩, of_decide_eq_true hid⟩

theorem Cluster.card_members (c : Cluster) (id : NodeId) :
    c.members.card = (c.cell id).countWithRole .chain := by
  have hnodup : ((c.nodes.filter fun n => n.hasRole .chain).map CellNode.id).Nodup :=
    c.nodup.sublist (List.filter_sublist.map _)
  rw [members, List.toFinset_card_of_nodup hnodup, List.length_map]
  rfl

/-- A quorum of the chain nodes is a majority of them. -/
theorem Cluster.majority_iff (c : Cluster) (id : NodeId) (p : NodeId → Prop) :
    Majority c.members p ↔ ChainQuorum (c.cell id) p := by
  simp only [Majority, ChainQuorum, c.mem_members_iff id, c.card_members id]

end Members

section Ledgers
variable [Crates]

/-- What the operations propose, and the votes that they cast. -/
def votesOf (created : Set OperationFrame) : Votes NodeId ℕ ℕ where
  proposed p offset := ∃ f ∈ created, ∃ frame header, Proposes f p frame header ∧
    header.offset = offset
  signed n p := ∃ f ∈ created, Signs f n p
  refused n p := ∃ f ∈ created, Refuses f n p

section Insert
variable {created : Set OperationFrame} {f : OperationFrame}

theorem exists_insert_iff (P : OperationFrame → Prop) :
    (∃ g ∈ insert f created, P g) ↔ (∃ g ∈ created, P g) ∨ P f := by
  simp only [Set.mem_insert_iff, exists_eq_or_imp]
  exact or_comm

theorem exists_insert_iff_of_not (P : OperationFrame → Prop) (hf : ¬ P f) :
    (∃ g ∈ insert f created, P g) ↔ ∃ g ∈ created, P g := by
  rw [exists_insert_iff, or_iff_left hf]

theorem votesOf_insert_entry (hf : IsEntry f) :
    votesOf (insert f created) = votesOf created := by
  ext n p
  · refine exists_insert_iff_of_not _ ?_
    rintro ⟨frame, header, hp, -⟩
    exact hf.not_proposes hp
  · exact exists_insert_iff_of_not _ fun hs => hf.not_vote (Or.inl hs)
  · exact exists_insert_iff_of_not _ fun hr => hf.not_vote (Or.inr hr)

theorem votesOf_insert_proposal {p : ℕ} {frame : BlockHeaderFrame} {header : BlockHeader}
    (hf : Proposes f p frame header) :
    votesOf (insert f created) = (votesOf created).propose p header.offset := by
  ext n q
  · refine (exists_insert_iff _).trans (or_congr_right ?_)
    constructor
    · rintro ⟨frame', header', hp, rfl⟩
      obtain ⟨rfl, -, rfl⟩ := hf.unique hp
      exact ⟨rfl, rfl⟩
    · rintro ⟨rfl, rfl⟩
      exact ⟨frame, header, hf, rfl⟩
  · refine exists_insert_iff_of_not _ fun hs => ?_
    have hvote : VoteOf f n q := Or.inl hs
    exact hvote.not_proposes hf
  · refine exists_insert_iff_of_not _ fun hr => ?_
    have hvote : VoteOf f n q := Or.inr hr
    exact hvote.not_proposes hf

theorem votesOf_insert_signature {n : NodeId} {p : ℕ} (hf : Signs f n p) :
    votesOf (insert f created) = (votesOf created).sign n p := by
  have hvote : VoteOf f n p := Or.inl hf
  ext m q
  · refine exists_insert_iff_of_not _ ?_
    rintro ⟨frame, header, hp, -⟩
    exact hvote.not_proposes hp
  · refine (exists_insert_iff _).trans (or_congr_right ?_)
    constructor
    · intro hs
      obtain ⟨rfl, rfl⟩ := hvote.unique (Or.inl hs)
      exact ⟨rfl, rfl⟩
    · rintro ⟨rfl, rfl⟩
      exact hf
  · exact exists_insert_iff_of_not _ hf.not_refuses

theorem votesOf_insert_refusal {n : NodeId} {p : ℕ} (hf : Refuses f n p) :
    votesOf (insert f created) = (votesOf created).refuse n p := by
  have hvote : VoteOf f n p := Or.inr hf
  ext m q
  · refine exists_insert_iff_of_not _ ?_
    rintro ⟨frame, header, hp, -⟩
    exact hvote.not_proposes hp
  · exact exists_insert_iff_of_not _ fun hs => hs.not_refuses hf
  · refine (exists_insert_iff _).trans (or_congr_right ?_)
    constructor
    · intro hr
      obtain ⟨rfl, rfl⟩ := hvote.unique (Or.inr hr)
      exact ⟨rfl, rfl⟩
    · rintro ⟨rfl, rfl⟩
      exact hf

end Insert

/-- The block of the proposal was built from these entries. -/
structure BuiltOfEntries (created : Set OperationFrame) (p : ℕ) (frame : BlockHeaderFrame)
    (header : BlockHeader) (entries : List OperationFrame) : Prop where
  created : ∀ e ∈ entries, e ∈ created ∧ IsEntry e
  increasing : Increasing entries
  built : ∃ block cell operations, BlockOperations.fromOperations entries = .ok operations ∧
    Built block cell operations header ∧ block.header = frame ∧ header.proposedOperationId = p

/-- What holds of the operations that the nodes have created, wherever they are by now. -/
structure Ledger (c : Cluster) (created : Set OperationFrame) : Prop where
  kinds : ∀ f ∈ created, IsEntry f ∨ (∃ p frame header, Proposes f p frame header) ∨
    ∃ n p, VoteOf f n p
  unique : ∀ f ∈ created, ∀ g ∈ created, frameId f = frameId g → f = g
  notInitial : ∀ f ∈ created, ∀ b ∈ c.initial, ¬ HasOperation b (frameId f)
  voters : ∀ f ∈ created, ∀ n p, VoteOf f n p → n ∈ c.members ∧ NodeIdReadsBack n ∧
    ∃ g ∈ created, ∃ frame header, Proposes g p frame header
  once : ∀ f ∈ created, ∀ g ∈ created, ∀ n p, VoteOf f n p → VoteOf g n p → f = g
  built : ∀ f ∈ created, ∀ p frame header, Proposes f p frame header →
    ∃ entries, BuiltOfEntries created p frame header entries
  fair : (votesOf created).Fair c.members

variable {c : Cluster} {created : Set OperationFrame}

theorem BuiltOfEntries.mono {created' : Set OperationFrame} {p : ℕ} {frame : BlockHeaderFrame}
    {header : BlockHeader} {entries : List OperationFrame}
    (h : BuiltOfEntries created p frame header entries) (hsub : created ⊆ created') :
    BuiltOfEntries created' p frame header entries :=
  ⟨fun e he => ⟨hsub (h.created e he).1, (h.created e he).2⟩, h.increasing, h.built⟩

theorem ledger_empty (c : Cluster) : Ledger c ∅ where
  kinds f hf := hf.elim
  unique f hf := hf.elim
  notInitial f hf := hf.elim
  voters f hf := hf.elim
  once f hf := hf.elim
  built f hf := hf.elim
  fair := ⟨fun n x h => by
    obtain ⟨f, hf, -⟩ := h
    exact hf.elim, fun n x y a h => by
    obtain ⟨f, hf, -⟩ := h
    exact hf.elim⟩

/-- Proposals are found by their ids. -/
theorem Ledger.proposal_eq (h : Ledger c created) {f g : OperationFrame} {p : ℕ}
    {frame frame' : BlockHeaderFrame} {header header' : BlockHeader} (hf : f ∈ created)
    (hg : g ∈ created) (hp : Proposes f p frame header) (hp' : Proposes g p frame' header') :
    f = g ∧ frame = frame' ∧ header = header' := by
  obtain rfl := h.unique f hf g hg (by rw [hp.frameId_eq, hp'.frameId_eq])
  exact ⟨rfl, (hp.unique hp').2⟩

/-- A new operation: what it says is new as well, and what it refers to is there. -/
theorem Ledger.insert (h : Ledger c created) (f : OperationFrame)
    (hkind : IsEntry f ∨ (∃ p frame header, Proposes f p frame header) ∨ ∃ n p, VoteOf f n p)
    (hid : ∀ g ∈ created, frameId g ≠ frameId f)
    (hinitial : ∀ b ∈ c.initial, ¬ HasOperation b (frameId f))
    (hvote : ∀ n p, VoteOf f n p → n ∈ c.members ∧ NodeIdReadsBack n ∧
      (∃ g ∈ created, ∃ frame header, Proposes g p frame header) ∧
      ∀ g ∈ created, ¬ VoteOf g n p)
    (hbuilt : ∀ p frame header, Proposes f p frame header →
      ∃ entries, BuiltOfEntries created p frame header entries)
    (hfair : (votesOf (insert f created)).Fair c.members) : Ledger c (insert f created) where
  kinds g hg := by
    rcases hg with rfl | hg
    · exact hkind
    · exact h.kinds g hg
  unique g hg k hk heq := by
    rcases hg with rfl | hg <;> rcases hk with rfl | hk
    · rfl
    · exact absurd heq.symm (hid k hk)
    · exact absurd heq (hid g hg)
    · exact h.unique g hg k hk heq
  notInitial g hg := by
    rcases hg with rfl | hg
    · exact hinitial
    · exact h.notInitial g hg
  voters g hg n p hvoted := by
    have hthere : n ∈ c.members ∧ NodeIdReadsBack n ∧
        ∃ k ∈ created, ∃ frame header, Proposes k p frame header := by
      rcases hg with rfl | hg
      · obtain ⟨hmember, hreads, hproposed, -⟩ := hvote n p hvoted
        exact ⟨hmember, hreads, hproposed⟩
      · exact h.voters g hg n p hvoted
    obtain ⟨hmember, hreads, k, hk, hproposed⟩ := hthere
    exact ⟨hmember, hreads, k, Set.mem_insert_of_mem f hk, hproposed⟩
  once g hg k hk n p hvg hvk := by
    rcases hg with rfl | hg <;> rcases hk with rfl | hk
    · rfl
    · exact absurd hvk ((hvote n p hvg).2.2.2 k hk)
    · exact absurd hvg ((hvote n p hvk).2.2.2 g hg)
    · exact h.once g hg k hk n p hvg hvk
  built g hg p frame header hp := by
    have hentries : ∃ entries, BuiltOfEntries created p frame header entries := by
      rcases hg with rfl | hg
      · exact hbuilt p frame header hp
      · exact h.built g hg p frame header hp
    obtain ⟨entries, he⟩ := hentries
    exact ⟨entries, he.mono (Set.subset_insert f created)⟩
  fair := hfair

end Ledgers

end Exocore.Engine
