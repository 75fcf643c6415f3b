import Exocore.ClusterStages

/-! What a node of a cluster knows when it looks at its best candidate: whether it has voted on it,
that the candidate is for the end of its chain, and that all it has signed there before is lost. -/
namespace Exocore.Engine

open Exocore.Core Exocore.Chain Exocore.Pending Ballots SortedMap

section Candidates
variable [Crates] {c : Cluster} {n : NodeId} {created : Set OperationFrame}
  {store : MemoryPendingStore} {chain : DirectoryChainStore} {blocks : List DataBlock}
  {config : CommitManagerConfig} {now : ℕ} {pb : PendingBlocks}

/-- The blocks of a tick, with the offset that is the next one of the chain. -/
theorem NodeSound.blockOf (h : NodeSound c created n store chain blocks)
    (hblocks : BlocksOf config now (c.cell n) store chain pb) :
    ∃ last : DataBlock, last.nextOffset = endOf blocks ∧ ∀ g block,
      pb.blocks.get g = some block →
        BlockOf config now (c.cell n) store chain last.nextOffset g block := by
  obtain ⟨last, hlast, hof⟩ := hblocks.last
  have hgetLast := h.toHoldsFramed.getLastBlock
  have hsame : blocks.getLast? = some last := Except.ok.inj (hgetLast.symm.trans hlast)
  refine ⟨last, ?_, hof⟩
  rw [endOf, hsame]
  rfl

section Votes
variable {last : DataBlock} {p : ℕ} {block : PendingBlock} {f : OperationFrame}
  {frame : BlockHeaderFrame} {header : BlockHeader}

/-- While a proposal is live, a node finds all its votes on it. -/
theorem hasMySignature_iff_signed (hl : Ledger c created)
    (h : NodeSound c created n store chain blocks)
    (hblock : BlockOf config now (c.cell n) store chain last.nextOffset p block)
    (hreads : ReadsProposal created block p f frame header) (hlive : endOf blocks ≤ header.offset) :
    block.hasMySignature = true ↔ (votesOf created).signed n p := by
  rw [hblock.hasMySignature_iff, mem_signers_iff hl h.stored]
  constructor
  · rintro ⟨id, s, hs, hsigns⟩
    exact ⟨s, h.stored p id s hs, hsigns⟩
  · rintro ⟨s, hs, hsigns⟩
    exact ⟨_, s, (h.keeps s hs f hreads.mem p frame header (Or.inl hsigns) hreads.proposes hlive).1,
      hsigns⟩

theorem hasMyRefusal_iff_refused (hl : Ledger c created)
    (h : NodeSound c created n store chain blocks)
    (hblock : BlockOf config now (c.cell n) store chain last.nextOffset p block)
    (hreads : ReadsProposal created block p f frame header) (hlive : endOf blocks ≤ header.offset) :
    block.hasMyRefusal = true ↔ (votesOf created).refused n p := by
  rw [hblock.hasMyRefusal_iff, mem_refusers_iff hl h.stored]
  constructor
  · rintro ⟨id, s, hs, hrefuses⟩
    exact ⟨s, h.stored p id s hs, hrefuses⟩
  · rintro ⟨s, hs, hrefuses⟩
    exact ⟨_, s,
      (h.keeps s hs f hreads.mem p frame header (Or.inr hrefuses) hreads.proposes hlive).1,
      hrefuses⟩

theorem hasExpired_eq_false (hreads : ReadsProposal created block p f frame header)
    (hlives : now < p + config.blockProposalTimeout) :
    block.proposal.hasExpired config now = false := by
  rw [PendingBlockProposal.hasExpired, hreads.operation.2]
  split_ifs with hbefore
  · rfl
  · exact decide_eq_false (by omega)

end Votes

/-- No two candidates have the signature of the node: of two that it has signed for the end of its
chain, it has refusals of one from most chain nodes. -/
theorem oneSigned_candidates (hl : Ledger c created)
    (h : NodeSound c created n store chain blocks) (hn : n ∈ c.members)
    (hblocks : BlocksOf config now (c.cell n) store chain pb) : OneSigned pb.candidates := by
  obtain ⟨last, hlast, hof⟩ := h.blockOf hblocks
  -- a candidate with the signature of the node is for the end of the chain, and not lost
  have hsigned (a : PendingBlock) (ha : a ∈ pb.candidates) (hmine : a.hasMySignature = true) :
      (votesOf created).signed n a.groupId ∧
        (votesOf created).proposed a.groupId (endOf blocks) ∧
        ¬ Majority c.members (RefusedIn store a.groupId) := by
    obtain ⟨⟨g, hg⟩, hstatus⟩ := (mem_candidates_iff pb a).mp ha
    have hblock := hof g a hg
    rw [hblock.groupId_eq]
    obtain ⟨hle, -, hquorum⟩ := hblock.of_nextPotential hlast hstatus
    obtain ⟨f, frame, header, hreads⟩ := hblock.readsProposal hl h.stored
    rw [hreads.offset] at hle
    have hvoted := (hasMySignature_iff_signed hl h hblock hreads hle).mp hmine
    have hproposed : (votesOf created).proposed g header.offset :=
      ⟨f, hreads.mem, frame, header, hreads.proposes, rfl⟩
    have hend := h.inPlace g header.offset hvoted hproposed
    have hoffset : header.offset = endOf blocks := by omega
    rw [hoffset] at hproposed
    refine ⟨hvoted, hproposed, ?_⟩
    rw [← hasQuorum_refusers_iff hl h.stored hn, hquorum]
    simp
  intro a ha b hb hamine hbmine
  obtain ⟨hasigned, haproposed, halive⟩ := hsigned a ha hamine
  obtain ⟨hbsigned, hbproposed, hblive⟩ := hsigned b hb hbmine
  have hkeys : ∀ g block, pb.blocks.get g = some block → block.groupId = g :=
    fun g block hg => (hof g block hg).groupId_eq
  refine candidates_ids pb hkeys a ha b hb ?_
  by_contra hne
  rcases h.lost _ _ _ hasigned hbsigned haproposed hbproposed le_rfl hne with hlost | hlost
  · exact halive hlost
  · exact hblive hlost

/-- Of what the node has signed for an offset that is not behind the end of its chain, only what
is lost is no candidate. -/
theorem candidate_or_lost (hl : Ledger c created) (h : NodeSound c created n store chain blocks)
    (hn : n ∈ c.members) (hblocks : BlocksOf config now (c.cell n) store chain pb)
    (hlives : ∀ f ∈ created, ∀ p frame header, Proposes f p frame header →
      (votesOf created).signed n p → endOf blocks ≤ header.offset →
        ¬ Majority c.members (RefusedIn store p) → now < p + config.blockProposalTimeout)
    (q offset : ℕ)
    (hsigned : (votesOf created).signed n q) (hproposed : (votesOf created).proposed q offset)
    (hle : endOf blocks ≤ offset) :
    (∃ block ∈ pb.candidates, block.groupId = q ∧ block.hasMySignature = true) ∨
      Majority c.members (RefusedIn store q) := by
  obtain ⟨last, hlast, hof⟩ := h.blockOf hblocks
  obtain ⟨f, hf, frame, header, hproposes, rfl⟩ := hproposed
  obtain ⟨s, hs, hsigns⟩ := id hsigned
  obtain ⟨-, op, hop, rfl⟩ := h.keeps s hs f hf q frame header (Or.inl hsigns) hproposes hle
  -- the proposal is in the store, and its block among those of the tick
  have hthere : ∃ block, pb.blocks.get q = some block := by
    apply Option.isSome_iff_exists.mp
    obtain ⟨hframe, -⟩ := getOperation_frame store q op hop
    obtain ⟨r, hr, -, -, htype⟩ := store.getOperation_reads _ _ hop
    obtain ⟨m, data, hmessage, -⟩ := hproposes
    obtain rfl := Option.some.inj (hr.symm.trans hmessage)
    obtain ⟨r', hr', hgroup, -⟩ := groupFrame_reads store _ _ _ hframe
    obtain rfl := Option.some.inj (hr'.symm.trans hmessage)
    have hgroupId : op.groupId = q := hgroup.symm
    have hkind : op.operationType = .blockPropose := (Except.ok.inj htype).symm
    refine hblocks.complete q op hop hkind ?_
    rw [hgroupId] at hframe
    obtain ⟨ops, hops, -⟩ := exists_mem_group hframe
    rw [hops]
    rfl
  obtain ⟨block, hget⟩ := hthere
  have hblock := hof q block hget
  obtain ⟨f', frame', header', hreads⟩ := hblock.readsProposal hl h.stored
  obtain ⟨-, -, rfl⟩ := hl.proposal_eq hreads.mem hf hreads.proposes hproposes
  have hmine := (hasMySignature_iff_signed hl h hblock hreads hle).mpr hsigned
  by_cases hlost : Majority c.members (RefusedIn store q)
  · exact Or.inr hlost
  left
  refine ⟨block, (mem_candidates_iff pb block).mpr ⟨⟨q, hget⟩, ?_⟩, hblock.groupId_eq, hmine⟩
  apply hblock.nextPotential h.toHoldsFramed hlast (by rw [hreads.offset]; exact hle)
  · exact hasExpired_eq_false hreads
      (hlives _ hreads.mem q frame' header' hreads.proposes hsigned hle hlost)
  · rw [Bool.eq_false_iff]
    intro hrefused
    exact hl.fair.once n q hsigned ((hasMyRefusal_iff_refused hl h hblock hreads hle).mp hrefused)
  · rw [Bool.eq_false_iff]
    intro hquorum
    exact hlost ((hasQuorum_refusers_iff hl h.stored hn).mp hquorum)

section Best
variable {i : TickInput} {next : PendingBlock} {rest : List PendingBlock}

/-- Where the best candidate is not signed by the node, no candidate is. -/
theorem signed_of_best (hl : Ledger c created) (h : NodeSound c created n store chain blocks)
    (hn : n ∈ c.members) (hblocks : BlocksOf config now (c.cell n) store chain pb)
    (hpot : pb.potentialNextBlocks i.blocksOrder i.sorter = .ok (next :: rest))
    (block : PendingBlock) (hblock : block ∈ pb.candidates) (hmine : block.hasMySignature = true) :
    next.hasMySignature = true := by
  obtain ⟨last, -, hof⟩ := h.blockOf hblocks
  have hkeys : ∀ g block, pb.blocks.get g = some block → block.groupId = g :=
    fun g block hg => (hof g block hg).groupId_eq
  obtain ⟨potential, hall, -, hbest⟩ :=
    (sortsBest_of_oneSigned pb hkeys (oneSigned_candidates hl h hn hblocks)).sorted
  have hsame := Except.ok.inj ((hall i.blocksOrder i.sorter).symm.trans hpot)
  have hhead : potential.head? = some next := by
    rw [hsame]
    rfl
  exact (hbest next hhead).signed ⟨block, hblock, hmine⟩

/-- The check of a proposal finds the block before it in the chain: the proposal is not for an
offset behind the end. -/
theorem offset_le_of_check {m : NodeId} {store' : MemoryPendingStore}
    {chain' : DirectoryChainStore} {blocks' : List DataBlock} {f : OperationFrame} {p : ℕ}
    {frame : BlockHeaderFrame} {header : BlockHeader} (hl : Ledger c created)
    (h : NodeSound c created n store chain blocks)
    (h' : NodeSound c created m store' chain' blocks') (hfollows : FollowsIn blocks' header)
    (hget : pb.blocks.get p = some next) (hreads : ReadsProposal created next p f frame header)
    (order : ℕ → Sorting.HashOrder)
    (hcheck : checkShouldSignBlock pb chain store order p = .ok true) :
    header.offset ≤ endOf blocks := by
  simp only [checkShouldSignBlock, bind_eq_ok_iff, PendingBlocks.getBlock, hget, orPanic_some,
    Except.ok.injEq, orError_eq_ok_iff] at hcheck
  obtain ⟨_, rfl, frame', hframe, header', hheader, clear, -, hcheck⟩ := hcheck
  obtain rfl := Except.ok.inj (hreads.getBlock.symm.trans hframe)
  obtain rfl : header = header' := by
    obtain ⟨-, -, -, -, hreader⟩ := hreads.proposes
    exact Option.some.inj (hreader.symm.trans hheader)
  split_ifs at hcheck
  · simp only [bind_eq_ok_iff] at hcheck
    obtain ⟨u, hvalid, -⟩ := hcheck
    obtain ⟨prev, hprev, hprevOffset, hoffset⟩ := hfollows.follows
    rw [validateBlockPreviousHash, if_pos hfollows.height] at hvalid
    -- the read of the block before succeeds, so that the chain reaches behind its start
    have hlt : prev.offset < endOf blocks := by
      by_contra hnot
      have hmissing : ChainStore.getBlock chain header.previousOffset = .error (.error (.outOfBound
          s!"No segment has block with offset {header.previousOffset}")) :=
        h.toHoldsFramed.getBlock_end _ (by omega)
      rw [hmissing] at hvalid
      contradiction
    obtain ⟨b, hb, hnext⟩ := h.shares h' hl prev hprev hlt
    have hpos := (h.toHoldsFramed.framed b hb).totalSize_pos
    have hbound := (linked_offset_lt blocks b 0 _ h.toHoldsFramed.linked hb hpos).2.2
    omega
  · contradiction

end Best

end Candidates

end Exocore.Engine
