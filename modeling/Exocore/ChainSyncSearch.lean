import Exocore.ChainSyncScan
import Exocore.ChainSyncLinks

/-! The exchange in which a node looks for the last block that its chain has in common with the
chain of another node: where it ends, and with what. -/
namespace Exocore.Engine

open Exocore.Core Exocore.Chain Ascending

section Forks

/-- The chain has the block: its operations and its place, the signatures may be others. -/
def InChain (own : List DataBlock) (b : DataBlock) : Prop := ∃ c ∈ own, c.header = b.header

instance (own : List DataBlock) (b : DataBlock) : Decidable (InChain own b) :=
  inferInstanceAs (Decidable (∃ c ∈ own, _))

/-- Blocks of the two chains that have the same hash are the same. -/
def HashesTell (own chain : List DataBlock) : Prop :=
  ∀ c ∈ own, ∀ b ∈ chain, c.header.multihashBytes = b.header.multihashBytes → c.header = b.header

/-- The last block that the chain has in common with the own one. -/
structure LastCommon (own chain : List DataBlock) (b : DataBlock) : Prop where
  mem : b ∈ chain
  common : InChain own b
  last : ∀ c ∈ chain, InChain own c → c.offset ≤ b.offset

/-- A chain that starts as the own one does, up to where they part. -/
structure Forks (own chain : List DataBlock) : Prop where
  numbered : Numbered chain
  heightsFit : ∀ b ∈ chain, heightOf b < 2^64
  first : ∃ a, chain.head? = some a ∧ InChain own a
  closed : chain.Pairwise fun b c => InChain own c → InChain own b

variable [Crates] {store peerStore : DirectoryChainStore} {own chain : List DataBlock}

theorem inChain_offset (hown : Holds store own) (hchain : Holds peerStore chain) (b c : DataBlock)
    (hb : b ∈ chain) (hc : c ∈ own) (hheader : c.header = b.header) : c.offset = b.offset := by
  obtain ⟨m, hm, hoffset, -⟩ := (hchain.wellFormed b hb).headerAgrees
  obtain ⟨m', hm', hoffset', -⟩ := (hown.wellFormed c hc).headerAgrees
  rw [hheader, hm] at hm'
  rw [← hoffset, ← hoffset', Option.some.inj hm']

/-- Where two chains have a block in common they have the one before it in common. -/
theorem inChain_previous (hown : Holds store own) (hchain : Holds peerStore chain)
    (hlinked : HashLinked own) (htell : HashesTell own chain) (b c : DataBlock) (hb : b ∈ chain)
    (hc : c ∈ chain) (hfollows : Follows b c) (hin : InChain own c) : InChain own b := by
  obtain ⟨d, hd, hheader⟩ := hin
  obtain ⟨header, hreader, hlinks, -⟩ := hfollows
  have hoffset := inChain_offset hown hchain c d hc hd hheader
  have hnext : c.offset = b.nextOffset := by
    obtain ⟨m, hm, hagrees, -⟩ := (hchain.wellFormed c hc).headerAgrees
    rw [hreader] at hm
    rw [← hagrees, ← Option.some.inj hm, hlinks.offset]
  have hpos := (hchain.wellFormed b hb).totalSize_pos
  have hnextOffset : b.nextOffset = b.offset + b.totalSize := rfl
  obtain ⟨l, r, rfl⟩ := List.append_of_mem hd
  rcases List.eq_nil_or_concat l with rfl | ⟨front, p, rfl⟩
  · -- the first block of the own chain is at its start
    have hfirst : d.offset = 0 := hown.linked.1
    omega
  · rw [List.concat_eq_append] at hlinked hd htell ⊢
    have hp : p ∈ front ++ [p] ++ d :: r := by simp
    have hpd : Follows p d := by
      rw [HashLinked, List.append_assoc, List.singleton_append] at hlinked
      exact (List.isChain_append_cons_cons.mp hlinked).2.1
    obtain ⟨header', hreader', hlinks', -⟩ := hpd
    rw [hheader, hreader] at hreader'
    refine ⟨p, hp, htell p hp b hb ?_⟩
    apply Option.some.inj
    rw [← hlinks.previousHash, ← hlinks'.previousHash, Option.some.inj hreader']

theorem inChain_closed (hown : Holds store own) (hchain : Holds peerStore chain)
    (hownLinked : HashLinked own) (hlinked : HashLinked chain) (htell : HashesTell own chain) :
    chain.Pairwise fun b c => InChain own c → InChain own b := by
  have htrans : Trans (fun b c => InChain own c → InChain own b)
      (fun b c => InChain own c → InChain own b) fun b c => InChain own c → InChain own b :=
    ⟨fun hab hbc hc => hab (hbc hc)⟩
  rw [← List.isChain_iff_pairwise]
  apply List.IsChain.imp_of_mem_imp _ hlinked
  intro b c hb hc hfollows
  exact inChain_previous hown hchain hownLinked htell b c hb hc hfollows

end Forks

section Answered
variable [Crates] {store : DirectoryChainStore} {own chain : List DataBlock}

/-- The blocks behind the first one in what is answered for a range. -/
structure AnswersBlocks (chain : List DataBlock) (a : DataBlock) (limit : ℕ)
    (behind : List DataBlock) : Prop where
  ascends : Ascends DataBlock.offset (a :: behind)
  inChain : ∀ b ∈ a :: behind, b ∈ chain
  next : ∀ c ∈ chain, c.offset = a.nextOffset → c ∈ a :: behind
  reaches : ∀ c ∈ chain, c.offset < limit → ∃ b ∈ a :: behind, c.offset ≤ b.offset

theorem Answers.blocks (h : Holds store chain) {f : DataBlock → BlockMetadata}
    (hf : ∀ b ∈ chain, BlockMetadata.fromStoredBlock b = .ok (f b)) (a : DataBlock)
    (ha : a ∈ chain) (limit : ℕ) (ms : List BlockMetadata) (hanswers : Answers chain a limit ms) :
    ∃ behind, ms = (a :: behind).map f ∧ AnswersBlocks chain a limit behind := by
  have hoffset (b : DataBlock) (hb : b ∈ chain) : (f b).offset = b.offset :=
    fromStoredBlock_offset (hf b hb)
  have hmade : ∃ bs : List DataBlock, ms = bs.map f ∧ ∀ b ∈ bs, b ∈ chain := by
    have hin := hanswers.inChain
    clear hanswers
    induction ms with
    | nil => exact ⟨[], rfl, by simp⟩
    | cons m rest ih =>
      obtain ⟨bs, rfl, hbs⟩ := ih fun m' hm' => hin m' (List.mem_cons_of_mem m hm')
      obtain ⟨b, hb, hread⟩ := hin m List.mem_cons_self
      refine ⟨b :: bs, ?_, ?_⟩
      · rw [List.map_cons, Except.ok.inj ((hf b hb).symm.trans hread)]
      · intro c hc
        rcases List.mem_cons.mp hc with rfl | hc
        · exact hb
        · exact hbs c hc
  obtain ⟨bs, rfl, hbs⟩ := hmade
  -- metadata of a block are those that were made from it
  have hmem (c : DataBlock) (hc : c ∈ chain)
      (h' : ∃ m ∈ bs.map f, BlockMetadata.fromStoredBlock c = .ok m) : c ∈ bs := by
    obtain ⟨m, hm, hread⟩ := h'
    obtain ⟨b, hb, rfl⟩ := List.mem_map.mp hm
    have hsame : b.offset = c.offset := by
      rw [← hoffset b (hbs b hb), fromStoredBlock_offset hread]
    rw [← (holds_ascends h).eq_of_key b c (hbs b hb) hc hsame]
    exact hb
  have hascends : Ascends DataBlock.offset bs := by
    have hmapped := hanswers.ascends
    rw [Ascends, List.pairwise_map] at hmapped
    refine hmapped.imp_of_mem ?_
    intro x y hx hy hlt
    rw [hoffset x (hbs x hx), hoffset y (hbs y hy)] at hlt
    exact hlt
  obtain ⟨behind, rfl⟩ := hascends.eq_cons a (hmem a ha hanswers.first) fun b hb => by
    have hle := hanswers.above (f b) (List.mem_map_of_mem hb)
    rw [hoffset b (hbs b hb)] at hle
    exact hle
  refine ⟨behind, rfl, hascends, hbs, ?_, ?_⟩
  · intro c hc hnext
    exact hmem c hc (hanswers.next c hc hnext)
  · intro c hc hlt
    obtain ⟨m, hm, hle⟩ := hanswers.reaches c hc hlt
    obtain ⟨b, hb, rfl⟩ := List.mem_map.mp hm
    rw [hoffset b (hbs b hb)] at hle
    exact ⟨b, hb, hle⟩

/-- Where no block behind the first is in common, or all blocks are there up to one that is not,
the last one in common is known. -/
theorem AnswersBlocks.lastCommon (h : Holds store chain) (hforks : Forks own chain)
    (a : DataBlock) (hain : InChain own a) (limit : ℕ) (front rest : List DataBlock)
    (hanswers : AnswersBlocks chain a limit (front ++ rest))
    (hfront : ∀ b ∈ front, InChain own b) (hrest : ∀ b, rest.head? = some b → ¬ InChain own b)
    (hstop : front = [] ∨
      (a :: (front ++ rest)).IsChain fun b c => heightOf c = heightOf b + 1)
    (hlimit : limit = endOf chain ∨ ∃ b ∈ chain, b.offset = limit ∧ ¬ InChain own b)
    (last : DataBlock) (hlast : (a :: front).getLast? = some last) : LastCommon own chain last := by
  have hlastMem : last ∈ a :: front := List.mem_of_getLast? hlast
  have hlastIn : last ∈ a :: (front ++ rest) := by
    rw [← List.cons_append]
    exact List.mem_append_left rest hlastMem
  have hlastChain := hanswers.inChain last hlastIn
  have hchainAscends := holds_ascends h
  refine ⟨hlastChain, ?_, ?_⟩
  · rcases List.mem_cons.mp hlastMem with rfl | hmem
    · exact hain
    · exact hfront last hmem
  intro c hc hcin
  by_contra hnot
  have hbehind : last.offset < c.offset := not_le.mp hnot
  have hbefore (b : DataBlock) (hb : b ∈ chain) (hle : b.offset ≤ c.offset) : InChain own b := by
    rcases hle.lt_or_eq with hlt | heq
    · exact hchainAscends.rel_of_lt hforks.closed hb hc hlt hcin
    · rw [hchainAscends.eq_of_key b c hb hc heq]
      exact hcin
  -- a block of the answer that is not in common comes before
  have hdiffers (b : DataBlock) (hb : rest.head? = some b) : c.offset < b.offset := by
    have hbin : b ∈ a :: (front ++ rest) :=
      List.mem_cons_of_mem a (List.mem_append_right front (List.mem_of_head? hb))
    by_contra hle
    exact hrest b hb (hbefore b (hanswers.inChain b hbin) (not_lt.mp hle))
  rcases hstop with rfl | hchain
  · -- the block behind the first one is in the answer
    obtain rfl : a = last := Option.some.inj hlast
    obtain ⟨n, hn, hnext⟩ := holds_exists_next h a c hlastChain hc hbehind
    have hle : n.offset ≤ c.offset := by
      rw [hnext]
      exact holds_next_le h a c hlastChain hc hbehind
    have hpos := (h.wellFormed a hlastChain).totalSize_pos
    have hnextOffset : a.nextOffset = a.offset + a.totalSize := rfl
    have hmem := hanswers.next n hn hnext
    rcases List.mem_cons.mp hmem with rfl | hmem
    · omega
    · obtain ⟨b, more, hmore⟩ := List.exists_cons_of_ne_nil (List.ne_nil_of_mem hmem)
      rw [List.nil_append] at hmore
      have hhead : rest.head? = some b := by rw [hmore, List.head?_cons]
      have hlt := hdiffers b hhead
      have hascends := hanswers.ascends
      rw [List.nil_append, hmore] at hascends hmem
      have hbn : b.offset ≤ n.offset := by
        rcases List.mem_cons.mp hmem with rfl | hmem
        · exact le_rfl
        · exact ((List.pairwise_cons.mp (List.pairwise_cons.mp hascends).2).1 n hmem).le
      omega
  · cases rest with
    | nil =>
      -- all that was answered is in common, and nothing is behind it
      have hends (b : DataBlock) (hb : b ∈ a :: (front ++ [])) : b.offset ≤ last.offset := by
        rw [List.append_nil] at hb
        have hascends := hanswers.ascends
        rw [List.append_nil] at hascends
        exact hascends.le_getLast hlast b hb
      have hbeyond : limit ≤ c.offset := by
        by_contra hlt
        obtain ⟨b, hb, hle⟩ := hanswers.reaches c hc (not_le.mp hlt)
        have hble := hends b hb
        omega
      rcases hlimit with rfl | ⟨b, hb, hoffset, hnotIn⟩
      · have hinside := (linked_offset_lt chain c _ _ h.linked hc
          (h.wellFormed c hc).totalSize_pos).2.1
        omega
      · exact hnotIn (hbefore b hb (by omega))
    | cons b more =>
      have hlt := hdiffers b rfl
      have hheights : HeightsGrow chain := hforks.numbered.heightsGrow
      have hbin : b ∈ chain := hanswers.inChain b (by simp)
      have hlow := hchainAscends.rel_of_lt hheights hlastChain hc hbehind
      have hhigh := hchainAscends.rel_of_lt hheights hc hbin hlt
      rw [← List.cons_append, List.isChain_append] at hchain
      have hstep := hchain.2.2 last (Option.mem_def.mpr hlast) b (by simp)
      omega

end Answered

end Exocore.Engine
