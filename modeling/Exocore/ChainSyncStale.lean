import Exocore.ChainSyncDownload

/-! When a node takes itself for divergent from another one although neither chain is forked:
what it has recorded of the other chain is older than its own chain. -/
namespace Exocore.Engine

open Exocore.Core Exocore.Chain

section Heights

def heightOf (b : DataBlock) : ℕ := (b.header.reader.map BlockHeader.height).getD 0

def HeightsGrow (chain : List DataBlock) : Prop :=
  chain.Pairwise fun a b => heightOf a < heightOf b

theorem getHeight_eq_ok (b : DataBlock) (height : ℕ) (h : b.getHeight = .ok height) :
    height = heightOf b := by
  rw [DataBlock.getHeight, DataBlock.headerReader] at h
  cases hreader : b.header.reader with
  | none => simp [hreader, orError] at h
  | some header =>
    rw [hreader, orError_some, ok_bind] at h
    rw [heightOf, hreader, ← Except.ok.inj h]
    rfl

variable [Crates]

theorem getHeight_wellFormed (b : DataBlock) (hb : WellFormed b) : b.getHeight = .ok (heightOf b) := by
  obtain ⟨header, hreader, -⟩ := hb.headerAgrees
  rw [DataBlock.getHeight, DataBlock.headerReader, hreader, orError_some, heightOf, hreader]
  rfl

omit [Crates] in
theorem fromStoredBlock_height {b : DataBlock} {m : BlockMetadata}
    (h : BlockMetadata.fromStoredBlock b = .ok m) : m.height = heightOf b := by
  rw [BlockMetadata.fromStoredBlock] at h
  obtain ⟨header, hheader, h⟩ := (bind_eq_ok_iff _ _ _).mp h
  obtain ⟨hash, -, h⟩ := (bind_eq_ok_iff _ _ _).mp h
  rw [← Except.ok.inj h, heightOf, (orError_eq_ok_iff _ _ _).mp hheader]
  rfl

omit [Crates] in
theorem linked_ascends (blocks : List DataBlock) (start stop : ℕ) (h : Linked start blocks stop)
    (hpos : ∀ b ∈ blocks, 0 < b.totalSize) :
    blocks.Pairwise fun a b => a.offset < b.offset := by
  induction blocks generalizing start with
  | nil => exact .nil
  | cons b rest ih =>
    have hposrest : ∀ c ∈ rest, 0 < c.totalSize := fun c hc => hpos c (List.mem_cons_of_mem b hc)
    refine .cons ?_ (ih b.nextOffset h.2 hposrest)
    intro c hc
    have hle := linked_offset_lt rest c _ _ h.2 hc (hposrest c hc)
    have hb := hpos b List.mem_cons_self
    have hnext : b.nextOffset = b.offset + b.totalSize := rfl
    omega

/-- A chain in which both the offsets and the heights grow. -/
theorem HonestChain.ordered {chain : List DataBlock} (h : HonestChain chain)
    (hheights : HeightsGrow chain) :
    chain.Pairwise fun a b => a.offset < b.offset ∧ heightOf a < heightOf b := by
  exact List.Pairwise.and (linked_ascends chain 0 _ h.linked fun b hb => h.size_pos b hb) hheights

theorem HonestChain.offset_lt_iff {chain : List DataBlock} (h : HonestChain chain)
    (hheights : HeightsGrow chain) (a b : DataBlock) (ha : a ∈ chain) (hb : b ∈ chain) :
    a.offset < b.offset ↔ heightOf a < heightOf b := by
  have hcases : ∀ l : List DataBlock,
      l.Pairwise (fun a b => a.offset < b.offset ∧ heightOf a < heightOf b) → a ∈ l → b ∈ l →
      a = b ∨ (a.offset < b.offset ∧ heightOf a < heightOf b) ∨
        (b.offset < a.offset ∧ heightOf b < heightOf a) := by
    intro l hl
    induction hl with
    | nil => exact fun ha _ => absurd ha List.not_mem_nil
    | @cons x l hx _ ih =>
      intro ha hb
      rcases List.mem_cons.mp ha with hax | hal <;> rcases List.mem_cons.mp hb with hbx | hbl
      · exact Or.inl (hax.trans hbx.symm)
      · rw [hax]
        exact Or.inr (Or.inl (hx b hbl))
      · rw [hbx]
        exact Or.inr (Or.inr (hx a hal))
      · exact ih hal hbl
  rcases hcases chain (h.ordered hheights) ha hb with rfl | hlt | hlt
  · simp
  · exact iff_of_true hlt.1 hlt.2
  · constructor <;> omega

omit [Crates] in
/-- A later block starts at the end of the block or behind it. -/
theorem linked_nextOffset_le (chain : List DataBlock) (stop : ℕ) (h : Linked 0 chain stop)
    (hpos : ∀ c ∈ chain, 0 < c.totalSize) (a b : DataBlock) (ha : a ∈ chain) (hb : b ∈ chain)
    (hlt : a.offset < b.offset) : a.nextOffset ≤ b.offset := by
  obtain ⟨l, r, rfl⟩ := List.append_of_mem ha
  obtain ⟨-, hl, hr⟩ := linked_middle l r a _ _ h
  rcases List.mem_append.mp hb with hb' | hb'
  · have hle := linked_offset_lt l b _ _ hl hb' (hpos b hb)
    omega
  · rcases List.mem_cons.mp hb' with rfl | hb'
    · omega
    · exact (linked_offset_lt r b _ _ hr hb' (hpos b hb)).1

omit [Crates] in
/-- Behind a block that is not the last one there is one at its end. -/
theorem linked_exists_next (chain : List DataBlock) (stop : ℕ) (h : Linked 0 chain stop)
    (hpos : ∀ c ∈ chain, 0 < c.totalSize) (a b : DataBlock) (ha : a ∈ chain) (hb : b ∈ chain)
    (hlt : a.offset < b.offset) : ∃ c ∈ chain, c.offset = a.nextOffset := by
  obtain ⟨l, r, rfl⟩ := List.append_of_mem ha
  obtain ⟨-, hl, hr⟩ := linked_middle l r a _ _ h
  rcases List.mem_append.mp hb with hb' | hb'
  · have hle := linked_offset_lt l b _ _ hl hb' (hpos b hb)
    omega
  · rcases List.mem_cons.mp hb' with rfl | hb'
    · omega
    · cases r with
      | nil => exact absurd hb' List.not_mem_nil
      | cons c r => exact ⟨c, by simp, hr.1⟩

theorem HonestChain.nextOffset_le {chain : List DataBlock} (h : HonestChain chain) (a b : DataBlock)
    (ha : a ∈ chain) (hb : b ∈ chain) (hlt : a.offset < b.offset) : a.nextOffset ≤ b.offset :=
  linked_nextOffset_le chain _ h.linked h.size_pos a b ha hb hlt

theorem HonestChain.exists_next {chain : List DataBlock} (h : HonestChain chain) (a b : DataBlock)
    (ha : a ∈ chain) (hb : b ∈ chain) (hlt : a.offset < b.offset) :
    ∃ c ∈ chain, c.offset = a.nextOffset :=
  linked_exists_next chain _ h.linked h.size_pos a b ha hb hlt

end Heights

section Stale

/-- The own chain has a block behind the last common one that is recorded, and not behind the
last one of the other node: what is recorded was true once, and the own chain has grown. -/
def isStale (own : List DataBlock) (info : NodeSyncInfo) : Bool :=
  match info.lastKnownBlock with
  | none => false
  | some known =>
    own.any fun b => b.offset ≤ known.offset && isLatestOffset info.lastCommonBlock b.offset

variable [Crates]

/-- Among chains that are not forked, to be taken for divergent is to be behind the own chain. -/
theorem isDivergent_eq_isStale {own peer : List DataBlock} (store : DirectoryChainStore)
    (hholds : Holds store own) (hown : HonestChain own) (hpeer : HonestChain peer)
    (hheights : HeightsGrow own) (hpeerHeights : HeightsGrow peer) (info : NodeSyncInfo)
    (hinfo : InfoFits own peer info) : info.isDivergent store = .ok (isStale own info) := by
  have hlast : liftError EngineError.chainStore (ChainStore.getLastBlock store) =
      .ok own.getLast? := by
    have hget : ChainStore.getLastBlock store = .ok own.getLast? := hholds.getLastBlock
    rw [hget, liftError_ok]
  rw [NodeSyncInfo.isDivergent, isStale]
  cases hcommon : info.lastCommonBlock with
  | none =>
    simp only [hlast, ok_bind]
    cases hknown : info.lastKnownBlock with
    | none => simp [pure, Except.pure]
    | some known =>
      -- the first block is at offset zero
      cases own with
      | nil => simp [pure, Except.pure]
      | cons b rest =>
        have hzero : b.offset = 0 := hown.linked.1
        simp [isLatestOffset, hzero, pure, Except.pure]
  | some common =>
    cases hknown : info.lastKnownBlock with
    | none => rfl
    | some known =>
      obtain ⟨c, hcown, hcpeer, hc⟩ := hinfo.common common hcommon
      obtain ⟨k, hkpeer, hk⟩ := hinfo.known known hknown
      have hne : own ≠ [] := List.ne_nil_of_mem hcown
      obtain ⟨last, hlastEq⟩ : ∃ last, own.getLast? = some last :=
        ⟨own.getLast hne, List.getLast?_eq_some_getLast hne⟩
      have hlastMem : last ∈ own := List.mem_of_getLast? hlastEq
      simp only [hlast, ok_bind, hlastEq, orError_some,
        getHeight_wellFormed last (hown.wellFormed last hlastMem), liftError_ok, pure, Except.pure,
        Except.ok.injEq]
      rw [fromStoredBlock_height hc, fromStoredBlock_height hk, fromStoredBlock_offset hk,
        Bool.eq_iff_iff, decide_eq_true_iff, List.any_eq_true]
      have hlastGt := hown.offset_lt_iff hheights c last hcown hlastMem
      have hknownGt := hpeer.offset_lt_iff hpeerHeights c k hcpeer hkpeer
      constructor
      · rintro ⟨hl, hkc⟩
        obtain ⟨b, hb, hoff⟩ := hown.exists_next c last hcown hlastMem (hlastGt.mpr hl)
        have hle := hpeer.nextOffset_le c k hcpeer hkpeer (hknownGt.mpr hkc)
        have hpos := hown.size_pos c hcown
        have hnext : c.nextOffset = c.offset + c.totalSize := rfl
        refine ⟨b, hb, ?_⟩
        simp only [isLatestOffset, Bool.and_eq_true, decide_eq_true_eq, fromStoredBlock_offset hc]
        omega
      · rintro ⟨b, hb, hbetween⟩
        simp only [isLatestOffset, Bool.and_eq_true, decide_eq_true_eq,
          fromStoredBlock_offset hc] at hbetween
        have hbc := (hown.offset_lt_iff hheights c b hcown hb).mp hbetween.2
        refine ⟨?_, hknownGt.mp (by omega)⟩
        -- the last block is as high as any other
        obtain ⟨front, hfront⟩ := List.getLast?_eq_some_iff.mp hlastEq
        rw [hfront] at hb hheights
        rcases List.mem_append.mp hb with hb' | hb'
        · have hrise := (List.pairwise_append.mp hheights).2.2 b hb' last (by simp)
          omega
        · rw [List.mem_singleton.mp hb'] at hbc
          exact hbc

end Stale

end Exocore.Engine
