import Exocore.ChainWrites
import Exocore.ClusterVotes

/-! What a node of a cluster has of the operations that were created: it keeps its votes and their
proposals until the chain has passed them. -/
namespace Exocore.Engine

open Exocore.Core Exocore.Chain Exocore.Pending Ballots SortedMap

section Stores
variable [Crates]

/-- The store finds the proposal by its id. -/
def HasProposal (store : MemoryPendingStore) (p : ℕ) (f : OperationFrame) : Prop :=
  ∃ op, store.getOperation p = some op ∧ op.frame = f

/-- The store has a refusal of the proposal by the node. -/
def RefusedIn (store : MemoryPendingStore) (p : ℕ) (n : NodeId) : Prop :=
  ∃ id f, store.groupFrame p id = some f ∧ Refuses f n p

def StoredIn (store : MemoryPendingStore) (created : Set OperationFrame) : Prop :=
  ∀ g id f, store.groupFrame g id = some f → f ∈ created

/-- A frame is filed under the ids that it reads. -/
theorem groupFrame_reads (store : MemoryPendingStore) (g id : ℕ) (f : OperationFrame)
    (h : store.groupFrame g id = some f) :
    ∃ r, f.frame.reader = some r ∧ r.groupId = g ∧ r.operationId = id ∧ frameId f = id := by
  obtain ⟨ops, op, hops, hop, rfl⟩ := (store.groupFrame_eq_some_iff g id f).mp h
  obtain ⟨r, hr, hid, hg, -⟩ := (store.filed g ops id op hops hop).reads
  exact ⟨r, hr, hg, hid, (frameId_of_reader hr).trans hid⟩

theorem getOperation_frame (store : MemoryPendingStore) (id : ℕ) (op : StoredOperation)
    (h : store.getOperation id = some op) :
    store.groupFrame op.groupId id = some op.frame ∧ frameId op.frame = id := by
  have hframe := store.getOperation_groupFrame id op h
  obtain ⟨r, -, -, -, hid⟩ := groupFrame_reads store _ id _ hframe
  exact ⟨hframe, hid⟩

/-- The later store still has all that the earlier one had in the groups of the proposals that the
chain has not passed. -/
structure KeepsLive (created : Set OperationFrame) (blocks : List DataBlock)
    (store store' : MemoryPendingStore) : Prop where
  frames : ∀ P ∈ created, ∀ p frame header, Proposes P p frame header →
    endOf blocks ≤ header.offset → ∀ id f, store.groupFrame p id = some f →
      store'.groupFrame p id = some f
  proposal : ∀ P ∈ created, ∀ p frame header, Proposes P p frame header →
    endOf blocks ≤ header.offset → HasProposal store p P → HasProposal store' p P

variable {created : Set OperationFrame} {blocks : List DataBlock}
  {store store' store'' : MemoryPendingStore}

theorem KeepsLive.refl (store : MemoryPendingStore) : KeepsLive created blocks store store :=
  ⟨fun _ _ _ _ _ _ _ _ _ h => h, fun _ _ _ _ _ _ _ h => h⟩

theorem KeepsLive.trans (h : KeepsLive created blocks store store')
    (h' : KeepsLive created blocks store' store'') : KeepsLive created blocks store store'' where
  frames P hP p frame header hp hlive id f hf :=
    h'.frames P hP p frame header hp hlive id f (h.frames P hP p frame header hp hlive id f hf)
  proposal P hP p frame header hp hlive hhas :=
    h'.proposal P hP p frame header hp hlive (h.proposal P hP p frame header hp hlive hhas)

theorem KeepsLive.subset {created' : Set OperationFrame} (h : KeepsLive created' blocks store store')
    (hsub : created ⊆ created') : KeepsLive created blocks store store' where
  frames P hP := h.frames P (hsub hP)
  proposal P hP := h.proposal P (hsub hP)

variable {c : Cluster}

/-- A put of an operation of the ledger adds it to its group, and changes nothing else. -/
theorem put_adds (hl : Ledger c created) (hstored : StoredIn store created) (i : ℕ)
    (f : OperationFrame) (hf : f ∈ created) (existed : Bool)
    (hput : store.putOperation ⟨i, f⟩ = .ok (existed, store')) :
    (∀ g id k, store.groupFrame g id = some k → store'.groupFrame g id = some k) ∧
      (∀ P ∈ created, ∀ p, HasProposal store p P → HasProposal store' p P) ∧
      StoredIn store' created ∧
      ∀ r, f.frame.reader = some r → store'.groupFrame r.groupId r.operationId = some f := by
  obtain ⟨r, type, hr, -⟩ := store.putOperation_eq_ok ⟨i, f⟩ _ hput
  have hframe := MemoryPendingStore.putOperation_groupFrame _ _ _ existed r hr hput
  obtain ⟨type', -, hget⟩ := MemoryPendingStore.putOperation_getOperation _ _ _ existed r hr hput
  have hid : frameId f = r.operationId := frameId_of_reader hr
  refine ⟨?_, ?_, ?_, ?_⟩
  · intro g id k hk
    rw [hframe]
    split_ifs with hsame
    · obtain ⟨-, -, -, -, hkid⟩ := groupFrame_reads store g id k hk
      have heq : f = k := hl.unique f hf k (hstored g id k hk) (by rw [hid, hkid, hsame.2])
      rw [heq]
    · exact hk
  · rintro P hP p ⟨op, hop, rfl⟩
    obtain ⟨-, hopId⟩ := getOperation_frame store p op hop
    by_cases hp : p = r.operationId
    · have heq : f = op.frame := hl.unique f hf op.frame hP (by rw [hid, hopId, hp])
      exact ⟨_, by rw [hget, if_pos hp], heq⟩
    · exact ⟨op, by rw [hget, if_neg hp, hop], rfl⟩
  · intro g id k hk
    rw [hframe] at hk
    split_ifs at hk with hsame
    · rw [← Option.some.inj hk]
      exact hf
    · exact hstored g id k hk
  · intro r' hr'
    obtain rfl : r = r' := Option.some.inj (hr.symm.trans hr')
    rw [hframe, if_pos ⟨rfl, rfl⟩]

/-- An entry, or a proposal that the chain has passed. -/
def Disposable (created : Set OperationFrame) (blocks : List DataBlock) (id : ℕ) : Prop :=
  ∃ f ∈ created, frameId f = id ∧
    (IsEntry f ∨ ∃ p frame header, Proposes f p frame header ∧ header.offset < endOf blocks)

/-- A deletion of what is disposable takes nothing out of the groups of other proposals. -/
theorem delete_keepsLive (hl : Ledger c created) (hstored : StoredIn store created) (id : ℕ)
    (hid : Disposable created blocks id) :
    KeepsLive created blocks store (store.deleteOperation id) ∧
      StoredIn (store.deleteOperation id) created := by
  obtain ⟨f, hf, hfid, hkind⟩ := hid
  -- neither a proposal that is live nor a vote has this id
  have hlive (P : OperationFrame) (hP : P ∈ created) (p : ℕ) (frame : BlockHeaderFrame)
      (header : BlockHeader) (hp : Proposes P p frame header)
      (hoff : endOf blocks ≤ header.offset) : p ≠ id := by
    rintro rfl
    obtain rfl := hl.unique f hf P hP (by rw [hfid, hp.frameId_eq])
    rcases hkind with hentry | ⟨q, frame', header', hq, hpast⟩
    · exact hentry.not_proposes hp
    · obtain ⟨-, -, rfl⟩ := hp.unique hq
      omega
  refine ⟨⟨?_, ?_⟩, ?_⟩
  · intro P hP p frame header hp hoff k g hg
    rw [MemoryPendingStore.groupFrame_deleteOperation]
    have hne := hlive P hP p frame header hp hoff
    by_cases hgroup : (store.groupsOperations.get id).isSome
    · rw [if_pos hgroup, if_neg hne, hg]
    · rw [if_neg hgroup, if_neg, hg]
      -- the operation of the group would be the disposable one
      rintro ⟨-, rfl⟩
      obtain ⟨r, hr, hrg, hrid, hgid⟩ := groupFrame_reads store p k g hg
      obtain rfl := hl.unique f hf g (hstored p k g hg) (by rw [hfid, hgid])
      rcases hkind with ⟨e, n, data, hentry⟩ | ⟨q, frame', header', hq, hpast⟩
      · obtain rfl := Option.some.inj (hr.symm.trans hentry)
        exact hne (hrg.symm.trans hrid)
      · obtain ⟨n, data, hmessage, -⟩ := hq
        obtain rfl := Option.some.inj (hr.symm.trans hmessage)
        exact hne (hrg.symm.trans hrid)
  · rintro P hP p frame header hp hoff ⟨op, hop, rfl⟩
    have hne := hlive op.frame hP p frame header hp hoff
    refine ⟨op, ?_, rfl⟩
    rw [MemoryPendingStore.getOperation_deleteOperation, if_neg, hop]
    rintro (hsame | hgroup)
    · exact hne hsame
    · -- a group that has the proposal is its own
      obtain ⟨g, hg⟩ := Option.isSome_iff_exists.mp hgroup
      obtain ⟨r, hr, hrg, -, hgid⟩ := groupFrame_reads store id p g hg
      obtain rfl := hl.unique g (hstored id p g hg) op.frame hP (by rw [hgid, hp.frameId_eq])
      obtain ⟨n, data, hmessage, -⟩ := hp
      obtain rfl := Option.some.inj (hr.symm.trans hmessage)
      exact hne hrg
  · intro g k h hh
    rw [MemoryPendingStore.groupFrame_deleteOperation] at hh
    split_ifs at hh
    · exact hstored g k h hh
    · exact hstored g k h hh

theorem deleteAll_keepsLive (hl : Ledger c created) (ids : List ℕ)
    (hids : ∀ id ∈ ids, Disposable created blocks id) (store : MemoryPendingStore)
    (hstored : StoredIn store created) :
    KeepsLive created blocks store (ids.foldl MemoryPendingStore.deleteOperation store) ∧
      StoredIn (ids.foldl MemoryPendingStore.deleteOperation store) created := by
  induction ids generalizing store with
  | nil => exact ⟨.refl store, hstored⟩
  | cons id rest ih =>
    obtain ⟨hkeeps, hstored'⟩ := delete_keepsLive hl hstored id (hids id List.mem_cons_self)
    obtain ⟨hrest, hall⟩ := ih (fun k hk => hids k (List.mem_cons_of_mem id hk)) _ hstored'
    exact ⟨hkeeps.trans hrest, hall⟩

end Stores

section Nodes
variable [Crates]

/-- The block is the one of a proposal that most chain nodes have signed. -/
structure CertifiedBy (c : Cluster) (created : Set OperationFrame) (b : DataBlock)
    (f : OperationFrame) (p : ℕ) (header : BlockHeader) (entries : List OperationFrame) :
    Prop where
  mem : f ∈ created
  proposes : Proposes f p b.header header
  built : BuiltOfEntries created p b.header header entries
  offset : b.offset = header.offset
  operationsData : b.operationsData = framesData entries
  signed : Majority c.members fun n => (votesOf created).signed n p
  operations : ∀ id, HasOperation b id → id = p ∨ ∃ e ∈ entries, frameId e = id

def Certified (c : Cluster) (created : Set OperationFrame) (b : DataBlock) : Prop :=
  ∃ f p header entries, CertifiedBy c created b f p header entries

/-- What holds of a node with this pending store and this chain. -/
structure NodeSound (c : Cluster) (created : Set OperationFrame) (n : NodeId)
    (store : MemoryPendingStore) (chain : DirectoryChainStore) (blocks : List DataBlock) :
    Prop where
  holds : StoreHolds True chain blocks
  inStep : CursorsInStep chain
  composed : ∃ own, blocks = c.initial ++ own ∧ ∀ b ∈ own, Certified c created b
  stored : StoredIn store created
  keeps : ∀ f ∈ created, ∀ P ∈ created, ∀ p frame header, VoteOf f n p →
    Proposes P p frame header → endOf blocks ≤ header.offset →
      store.groupFrame p (frameId f) = some f ∧ HasProposal store p P
  /-- It signs for the end of its chain. -/
  inPlace : ∀ p offset, (votesOf created).signed n p → (votesOf created).proposed p offset →
    offset ≤ endOf blocks
  /-- Of two blocks that it has signed for one offset, it knows that one is lost. -/
  lost : ∀ p q offset, (votesOf created).signed n p → (votesOf created).signed n q →
    (votesOf created).proposed p offset → (votesOf created).proposed q offset →
    endOf blocks ≤ offset → p ≠ q →
      Majority c.members (RefusedIn store p) ∨ Majority c.members (RefusedIn store q)

variable {c : Cluster} {created : Set OperationFrame} {n : NodeId}
  {store store' : MemoryPendingStore} {chain : DirectoryChainStore} {blocks : List DataBlock}

theorem signed_mono {created' : Set OperationFrame} (hsub : created ⊆ created') {p : ℕ}
    (h : (votesOf created).signed n p) : (votesOf created').signed n p := by
  obtain ⟨f, hf, hs⟩ := h
  exact ⟨f, hsub hf, hs⟩

theorem Certified.mono {created' : Set OperationFrame} {b : DataBlock}
    (h : Certified c created b) (hsub : created ⊆ created') : Certified c created' b := by
  obtain ⟨f, p, header, entries, h⟩ := h
  exact ⟨f, p, header, entries, hsub h.mem, h.proposes, h.built.mono hsub, h.offset,
    h.operationsData, h.signed.mono fun n => signed_mono hsub, h.operations⟩

theorem NodeSound.toHoldsFramed (h : NodeSound c created n store chain blocks) :
    HoldsFramed chain blocks :=
  ⟨h.holds.loose, h.inStep⟩

theorem RefusedIn.keepsLive (hkeeps : KeepsLive created blocks store store') {p offset : ℕ}
    (hp : (votesOf created).proposed p offset) (hlive : endOf blocks ≤ offset) {m : NodeId}
    (h : RefusedIn store p m) : RefusedIn store' p m := by
  obtain ⟨P, hP, frame, header, hproposes, rfl⟩ := hp
  obtain ⟨id, f, hf, hr⟩ := h
  exact ⟨id, f, hkeeps.frames P hP p frame header hproposes hlive id f hf, hr⟩

/-- Refusals in a store are votes that were cast. -/
theorem lost_of_refusedIn (hstored : StoredIn store created) {p : ℕ}
    (h : Majority c.members (RefusedIn store p)) : (votesOf created).Lost c.members p := by
  refine h.mono ?_
  rintro m ⟨id, f, hf, hr⟩
  exact ⟨f, hstored p id f hf, hr⟩

/-- The node is as before where the store keeps the groups of the proposals that are live. -/
theorem NodeSound.restore (h : NodeSound c created n store chain blocks)
    (hkeeps : KeepsLive created blocks store store') (hstored : StoredIn store' created) :
    NodeSound c created n store' chain blocks where
  holds := h.holds
  inStep := h.inStep
  composed := h.composed
  stored := hstored
  keeps f hf P hP p frame header hvote hp hlive := by
    obtain ⟨hframe, hproposal⟩ := h.keeps f hf P hP p frame header hvote hp hlive
    exact ⟨hkeeps.frames P hP p frame header hp hlive _ f hframe,
      hkeeps.proposal P hP p frame header hp hlive hproposal⟩
  inPlace := h.inPlace
  lost p q offset hp hq hpo hqo hlive hne := by
    refine (h.lost p q offset hp hq hpo hqo hlive hne).imp ?_ ?_
    · exact fun hmajority => hmajority.mono fun m => RefusedIn.keepsLive hkeeps hpo hlive
    · exact fun hmajority => hmajority.mono fun m => RefusedIn.keepsLive hkeeps hqo hlive

/-- A vote is on a proposal that was there before the vote. -/
theorem proposed_of_insert (hl : Ledger c created) {f : OperationFrame}
    (hid : ∀ g ∈ created, frameId g ≠ frameId f) {p offset : ℕ}
    (hsigned : (votesOf created).signed n p)
    (hp : (votesOf (insert f created)).proposed p offset) :
    (votesOf created).proposed p offset := by
  obtain ⟨s, hs, hsigns⟩ := hsigned
  obtain ⟨-, -, P, hP, frame, header, hproposes⟩ := hl.voters s hs n p (Or.inl hsigns)
  obtain ⟨Q, hQ, frame', header', hproposes', rfl⟩ := hp
  rcases hQ with rfl | hQ
  · exact absurd (by rw [hproposes.frameId_eq, hproposes'.frameId_eq]) (hid P hP)
  · exact ⟨Q, hQ, frame', header', hproposes', rfl⟩

/-- An operation that is no vote of the node leaves it as it was. -/
theorem NodeSound.grow (h : NodeSound c created n store chain blocks) (hl : Ledger c created)
    (f : OperationFrame) (hid : ∀ g ∈ created, frameId g ≠ frameId f)
    (hnot : ∀ p, ¬ VoteOf f n p) : NodeSound c (insert f created) n store chain blocks := by
  have hsub : created ⊆ insert f created := Set.subset_insert f created
  have hsigned (p : ℕ) (hp : (votesOf (insert f created)).signed n p) :
      (votesOf created).signed n p := by
    obtain ⟨g, hg, hs⟩ := hp
    rcases hg with rfl | hg
    · exact absurd (Or.inl hs) (hnot p)
    · exact ⟨g, hg, hs⟩
  refine ⟨h.holds, h.inStep, ?_, ?_, ?_, ?_, ?_⟩
  · obtain ⟨own, hown, hcertified⟩ := h.composed
    exact ⟨own, hown, fun b hb => (hcertified b hb).mono hsub⟩
  · exact fun g id k hk => hsub (h.stored g id k hk)
  · intro g hg P hP p frame header hvote hp hlive
    rcases hg with rfl | hg
    · exact absurd hvote (hnot p)
    rcases hP with rfl | hP
    · obtain ⟨-, -, Q, hQ, frame', header', hq⟩ := hl.voters g hg n p hvote
      exact absurd (by rw [hq.frameId_eq, hp.frameId_eq]) (hid Q hQ)
    · exact h.keeps g hg P hP p frame header hvote hp hlive
  · intro p offset hp hpo
    exact h.inPlace p offset (hsigned p hp) (proposed_of_insert hl hid (hsigned p hp) hpo)
  · intro p q offset hp hq hpo hqo
    exact h.lost p q offset (hsigned p hp) (hsigned q hq)
      (proposed_of_insert hl hid (hsigned p hp) hpo) (proposed_of_insert hl hid (hsigned q hq) hqo)

/-- The node votes on a proposal that it has, and signs it only for the end of its chain, and
where it knows that all it has signed there before is lost. -/
theorem NodeSound.vote (h : NodeSound c created n store chain blocks) (hl : Ledger c created)
    (f P : OperationFrame) (p : ℕ) (frame : BlockHeaderFrame) (header : BlockHeader)
    (hid : ∀ g ∈ created, frameId g ≠ frameId f) (hvote : VoteOf f n p) (hP : P ∈ created)
    (hp : Proposes P p frame header) (hhas : HasProposal store p P)
    (hkeeps : KeepsLive created blocks store store')
    (hstored : StoredIn store' (insert f created)) (hf : store'.groupFrame p (frameId f) = some f)
    (hlive : endOf blocks ≤ header.offset) (hplace : Signs f n p → header.offset ≤ endOf blocks)
    (hlost : Signs f n p → ∀ q, (votesOf created).signed n q →
      (votesOf created).proposed q header.offset → q ≠ p →
        Majority c.members (RefusedIn store q)) :
    NodeSound c (insert f created) n store' chain blocks := by
  have hsub : created ⊆ insert f created := Set.subset_insert f created
  -- the proposals are those that were there
  have hproposed (q offset : ℕ) (hq : (votesOf (insert f created)).proposed q offset) :
      (votesOf created).proposed q offset := by
    obtain ⟨Q, hQ, frame', header', hq, rfl⟩ := hq
    rcases hQ with rfl | hQ
    · exact absurd hq hvote.not_proposes
    · exact ⟨Q, hQ, frame', header', hq, rfl⟩
  have hoffset (offset : ℕ) (ho : (votesOf created).proposed p offset) : offset = header.offset := by
    obtain ⟨Q, hQ, frame', header', hq, rfl⟩ := ho
    obtain ⟨-, -, rfl⟩ := hl.proposal_eq hQ hP hq hp
    rfl
  -- what the node has signed: as before, or the new signature
  have hsigned (q : ℕ) (hq : (votesOf (insert f created)).signed n q) :
      (votesOf created).signed n q ∨ (q = p ∧ Signs f n p) := by
    obtain ⟨g, hg, hs⟩ := hq
    rcases hg with rfl | hg
    · obtain ⟨-, rfl⟩ := hvote.unique (Or.inl hs)
      exact Or.inr ⟨rfl, hs⟩
    · exact Or.inl ⟨g, hg, hs⟩
  have hrefused (q offset : ℕ) (hqo : (votesOf created).proposed q offset)
      (hle : endOf blocks ≤ offset) (hq : Majority c.members (RefusedIn store q)) :
      Majority c.members (RefusedIn store' q) :=
    hq.mono fun m => RefusedIn.keepsLive hkeeps hqo hle
  refine ⟨h.holds, h.inStep, ?_, hstored, ?_, ?_, ?_⟩
  · obtain ⟨own, hown, hcertified⟩ := h.composed
    exact ⟨own, hown, fun b hb => (hcertified b hb).mono hsub⟩
  · intro g hg Q hQ q frame' header' hvoted hq hle
    have hQ' : Q ∈ created := by
      rcases hQ with rfl | hQ
      · exact absurd hq hvote.not_proposes
      · exact hQ
    rcases hg with rfl | hg
    · obtain ⟨-, rfl⟩ := hvote.unique hvoted
      obtain ⟨rfl, -, -⟩ := hl.proposal_eq hP hQ' hp hq
      exact ⟨hf, hkeeps.proposal P hP p frame header hp hlive hhas⟩
    · obtain ⟨hframe, hthere⟩ := h.keeps g hg Q hQ' q frame' header' hvoted hq hle
      exact ⟨hkeeps.frames Q hQ' q frame' header' hq hle _ g hframe,
        hkeeps.proposal Q hQ' q frame' header' hq hle hthere⟩
  · intro q offset hq hqo
    rcases hsigned q hq with hold | ⟨rfl, hs⟩
    · exact h.inPlace q offset hold (hproposed q offset hqo)
    · rw [hoffset offset (hproposed q offset hqo)]
      exact hplace hs
  · intro q q' offset hq hq' hqo hqo' hle hne
    have ho := hproposed q offset hqo
    have ho' := hproposed q' offset hqo'
    rcases hsigned q hq with hold | ⟨rfl, hs⟩
    · rcases hsigned q' hq' with hold' | ⟨rfl, hs⟩
      · exact (h.lost q q' offset hold hold' ho ho' hle hne).imp (hrefused q offset ho hle)
          (hrefused q' offset ho' hle)
      · left
        refine hrefused q offset ho hle (hlost hs q hold ?_ hne)
        rw [← hoffset offset ho']
        exact ho
    · rcases hsigned q' hq' with hold' | ⟨rfl, -⟩
      · right
        refine hrefused q' offset ho' hle (hlost hs q' hold' ?_ hne.symm)
        rw [← hoffset offset ho]
        exact ho'
      · exact absurd rfl hne

/-- A certified block at the end of the chain. -/
theorem NodeSound.commit (h : NodeSound c created n store chain blocks) (b : DataBlock)
    (chain' : DirectoryChainStore) (hholds : StoreHolds True chain' (blocks ++ [b]))
    (hinStep : CursorsInStep chain') (hcertified : Certified c created b)
    (hoffset : b.offset = endOf blocks) (hkeeps : KeepsLive created blocks store store')
    (hstored : StoredIn store' created) :
    NodeSound c created n store' chain' (blocks ++ [b]) := by
  have hend : endOf blocks ≤ endOf (blocks ++ [b]) := by
    rw [endOf, endOf, List.getLast?_concat, Option.map_some, Option.getD_some, ← endOf]
    have hnext : b.nextOffset = b.offset + b.totalSize := rfl
    omega
  have h' := h.restore hkeeps hstored
  refine ⟨hholds, hinStep, ?_, hstored, ?_, ?_, ?_⟩
  · obtain ⟨own, rfl, hown⟩ := h'.composed
    refine ⟨own ++ [b], List.append_assoc _ _ _, ?_⟩
    intro x hx
    rcases List.mem_append.mp hx with hx | hx
    · exact hown x hx
    · rw [List.mem_singleton.mp hx]
      exact hcertified
  · intro f hf P hP p frame header hvote hp hlive
    exact h'.keeps f hf P hP p frame header hvote hp (hend.trans hlive)
  · intro p offset hp hpo
    exact (h'.inPlace p offset hp hpo).trans hend
  · intro p q offset hp hq hpo hqo hlive hne
    exact h'.lost p q offset hp hq hpo hqo (hend.trans hlive) hne

end Nodes

end Exocore.Engine
