import Exocore.ChainSyncLinks
import Exocore.CommitQuorum
import Exocore.StoreEntitiesExported

/-! The entities that are exported from a chain agree with the aggregation of their mutations. -/
namespace Exocore.Store.Export

open Exocore.Core Exocore.Chain Exocore.Engine Spilled

/-- The mutations of an entity, in the order of their blocks and operations. -/
def inOrder (id : String) (committed : List CommittedEntityMutation) :
    List CommittedEntityMutation :=
  (committed.filter fun m => m.mutation.entityId = id).mergeSort fun a b =>
    toLex (a.blockOffset, a.operationId) ≤ toLex (b.blockOffset, b.operationId)

theorem ofId_eq_inOrder {l committed : List CommittedEntityMutation} (hperm : l.Perm committed)
    (hsorted : l.Pairwise fun a b => SortableMutation.key a ≤ SortableMutation.key b)
    (hnodup : (committed.map CommittedEntityMutation.operationId).Nodup) (id : String) :
    ChainEntityIterator.ofId id l = inOrder id committed := by
  have hpermId : (ChainEntityIterator.ofId id l).Perm (inOrder id committed) :=
    (hperm.filter _).trans (List.mergeSort_perm _ _).symm
  have hmem {m : CommittedEntityMutation} (hm : m ∈ ChainEntityIterator.ofId id l) :
      m ∈ committed ∧ m.mutation.entityId = id := by
    obtain ⟨hl, hid⟩ := List.mem_filter.mp hm
    exact ⟨hperm.mem_iff.mp hl, of_decide_eq_true hid⟩
  have hleft : (ChainEntityIterator.ofId id l).Pairwise fun a b =>
      toLex (a.blockOffset, a.operationId) ≤ toLex (b.blockOffset, b.operationId) := by
    refine (hsorted.filter _).imp_of_mem ?_
    intro a b ha hb hab
    have hsame : a.mutation.entityId = b.mutation.entityId := (hmem ha).2.trans (hmem hb).2.symm
    rw [SortableMutation.key, SortableMutation.key, hsame, Prod.Lex.toLex_le_toLex] at hab
    rcases hab with hlt | ⟨-, hle⟩
    · exact absurd hlt (lt_irrefl _)
    · exact hle
  have hright : (inOrder id committed).Pairwise fun a b =>
      toLex (a.blockOffset, a.operationId) ≤ toLex (b.blockOffset, b.operationId) := by
    have hmerged := @List.pairwise_mergeSort CommittedEntityMutation
      (fun a b => decide
        (toLex (a.blockOffset, a.operationId) ≤ toLex (b.blockOffset, b.operationId)))
      (fun a b d hab hbd => decide_eq_true
        ((of_decide_eq_true hab).trans (of_decide_eq_true hbd)))
      (fun a b => by
        rw [Bool.or_eq_true, decide_eq_true_iff, decide_eq_true_iff]
        exact le_total _ _)
      (committed.filter fun m => m.mutation.entityId = id)
    exact hmerged.imp fun hab => of_decide_eq_true hab
  refine hpermId.eq_of_pairwise ?_ hleft hright
  intro a b ha hb hab hba
  -- two mutations at one place have one operation id
  have hplace := toLex_inj.mp (le_antisymm hab hba)
  have hb' : b ∈ ChainEntityIterator.ofId id l := hpermId.mem_iff.mpr hb
  exact List.inj_on_of_nodup_map hnodup (hmem ha).1 (hmem hb').1 (Prod.mk.inj hplace).2

section Chain
variable [Crates]

/-- The iterator yields one entity for each id, in the order of the ids, and each is what the
aggregator makes of the mutations of the entity. -/
def Agrees (env : Env) (chainStore : DirectoryChainStore)
    (committed : List CommittedEntityMutation) : Prop :=
  ∃ mutations, ChainEntityMutationIterator.new env chainStore = .ok mutations ∧
    ∃ entities : List Entity,
      ChainEntityIterator.Yields env mutations (entities.map .ok) ∧
      (entities.map Entity.id).Pairwise (· < ·) ∧
      (∀ id, id ∈ entities.map Entity.id ↔ ∃ m ∈ committed, m.mutation.entityId = id) ∧
      ∀ entity ∈ entities, ∃ aggr,
        EntityAggregator.new ((inOrder entity.id committed).filterMap indexed) = some aggr ∧
        Exports (inOrder entity.id committed) aggr entity

theorem entities_agree (env : Env) (chainStore : DirectoryChainStore) (blocks : List DataBlock)
    (committed : List CommittedEntityMutation) (hchain : Holds chainStore blocks)
    (hcommitted : ChainHolds env.codec blocks committed)
    (hwrites : ∀ m ∈ committed, env.codec.Writes m)
    (hids : ∀ m ∈ committed, m.mutation.entityId ≠ "")
    (hnodup : (committed.map CommittedEntityMutation.operationId).Nodup)
    (hkinds : ∀ m ∈ committed, HasKind m) : Agrees env chainStore committed := by
  obtain ⟨mutations, hnew, hperm, hsorted⟩ := mutationIterator_sorted env hchain hcommitted hwrites
  have hentities : mutations.Pairwise fun a b => a.mutation.entityId ≤ b.mutation.entityId := by
    refine hsorted.imp ?_
    intro a b hab
    rw [SortableMutation.key, SortableMutation.key, Prod.Lex.toLex_le_toLex] at hab
    rcases hab with hlt | ⟨heq, -⟩
    · exact le_of_lt hlt
    · exact le_of_eq heq
  obtain ⟨entities, hyields, hascends, hall, hexports⟩ :=
    ChainEntityIterator.yields_entities env mutations hentities
      (fun m hm => hids m (hperm.mem_iff.mp hm)) (fun m hm => hkinds m (hperm.mem_iff.mp hm))
      ((hperm.map _).nodup_iff.mpr hnodup)
  refine ⟨mutations, hnew, entities, hyields, hascends, ?_, ?_⟩
  · intro id
    rw [hall id]
    constructor
    · rintro ⟨m, hm, hid⟩
      exact ⟨m, hperm.mem_iff.mp hm, hid⟩
    · rintro ⟨m, hm, hid⟩
      exact ⟨m, hperm.mem_iff.mpr hm, hid⟩
  · intro entity hentity
    obtain ⟨aggr, hnewAggr, hshows⟩ := hexports entity hentity
    rw [ofId_eq_inOrder hperm hsorted hnodup entity.id] at hnewAggr hshows
    exact ⟨aggr, hnewAggr, hshows⟩

end Chain

/-! Blocks of entries after the genesis block: one entry whose mutation is of no kind, or puts of
traits of two entities. -/

def entryMessage (id : ℕ) (data : Bytes) : Bytes :=
  operationMessage id id 0 firstNodeText (dataContent data)

def entryOperation (id : ℕ) (data : Bytes) : ChainOperation :=
  ⟨id, id, some firstNode, .entry (some data)⟩

/-- The entries with these ids, data and multihashes. -/
def entriesData (entries : List (ℕ × Bytes × Bytes)) : Bytes :=
  entries.flatMap fun (id, data, multihash) => sizedBytes (entryMessage id data ++ multihash)

def entriesHeader (offset height previousOffset id : ℕ) (previousHash : Bytes) (size : ℕ)
    (operations : List BlockOperationHeader) (operationsHash : Bytes) : BlockHeader :=
  ⟨offset, height, previousOffset, some previousHash, id, some otherNode, size, some operations,
    some operationsHash, 324⟩

def entriesBlock (header : BlockHeader) (headerMultihash : Bytes)
    (entries : List (ℕ × Bytes × Bytes)) : DataBlock :=
  ⟨header.offset, ⟨sizedBytes (proposedMessage header ++ headerMultihash), headerMultihash,
      some header⟩, entriesData entries,
    ⟨sizedBytes (paddedBytes (signaturesMessage header.operationsSize
        [firstNodeText, otherNodeText]) 0),
      some (emptySignatures header.operationsSize [(firstNode, firstNodeText),
        (otherNode, otherNodeText)]).2⟩⟩

def kindlessData : Bytes := ofNats [10, 1, 97]

/-- The put of a trait, each with an id of one byte. -/
def putData (entityId traitId : ℕ) : Bytes :=
  ofNats [10, 1, entityId, 18, 5, 10, 3, 10, 1, traitId]

def kindlessMultihash : Bytes := ofNats
  [22, 32, 206, 122, 121, 7, 61, 1, 208, 146, 152, 106, 194, 191, 229, 47, 133, 75, 237, 184, 47,
  140, 119, 214, 144, 221, 8, 120, 236, 132, 212, 5, 103, 248]

def kindlessHash : Bytes := ofNats
  [22, 32, 146, 240, 43, 28, 185, 63, 255, 127, 222, 248, 167, 83, 44, 6, 67, 185, 221, 47, 58,
  239, 108, 84, 94, 0, 168, 109, 179, 235, 251, 247, 207, 210]

def kindlessHeaderMultihash : Bytes := ofNats
  [22, 32, 92, 120, 145, 147, 72, 165, 215, 75, 182, 60, 29, 143, 38, 210, 176, 73, 196, 234, 96,
  224, 220, 52, 182, 69, 50, 7, 216, 105, 43, 54, 189, 253]

def firstMultihash : Bytes := ofNats
  [22, 32, 250, 205, 94, 198, 137, 42, 74, 10, 8, 135, 135, 184, 80, 198, 95, 217, 126, 208, 181,
  151, 165, 128, 216, 186, 177, 230, 72, 223, 226, 62, 139, 254]

def otherEntityMultihash : Bytes := ofNats
  [22, 32, 117, 182, 108, 252, 117, 223, 240, 12, 37, 236, 66, 14, 60, 50, 104, 200, 33, 215, 103,
  177, 8, 172, 61, 19, 209, 103, 144, 41, 206, 12, 11, 113]

def lateMultihash : Bytes := ofNats
  [22, 32, 74, 73, 239, 110, 23, 102, 219, 1, 156, 37, 188, 29, 81, 90, 166, 65, 139, 31, 252, 173,
  221, 165, 234, 210, 19, 196, 255, 132, 253, 18, 71, 24]

def putsHash : Bytes := ofNats
  [22, 32, 100, 200, 184, 218, 212, 54, 4, 13, 84, 164, 76, 218, 136, 100, 205, 15, 196, 95, 51,
  165, 95, 69, 133, 247, 12, 213, 92, 156, 65, 250, 10, 129]

def lateHash : Bytes := ofNats
  [22, 32, 130, 219, 197, 49, 243, 175, 197, 196, 132, 75, 213, 163, 38, 193, 199, 13, 178, 39,
  136, 185, 83, 73, 49, 58, 114, 44, 50, 237, 139, 245, 92, 24]

def putsHeaderMultihash : Bytes := ofNats
  [22, 32, 32, 27, 59, 115, 143, 137, 226, 2, 222, 114, 225, 105, 94, 82, 218, 232, 66, 109, 127,
  243, 33, 246, 153, 31, 42, 252, 151, 96, 84, 49, 57, 50]

def lateHeaderMultihash : Bytes := ofNats
  [22, 32, 254, 231, 70, 138, 49, 74, 196, 92, 184, 108, 143, 92, 50, 246, 59, 243, 146, 139, 92,
  144, 142, 101, 162, 178, 18, 68, 143, 107, 54, 249, 120, 94]

def kindlessHeader : BlockHeader :=
  entriesHeader 254 2 0 100 genesisMultihash 170 [⟨50, 0, 170⟩] kindlessHash

def putsHeader : BlockHeader :=
  entriesHeader 254 2 0 100 genesisMultihash 356 [⟨50, 0, 178⟩, ⟨60, 178, 178⟩] putsHash

def lateHeader : BlockHeader :=
  entriesHeader 1240 3 254 200 putsHeaderMultihash 178 [⟨55, 0, 178⟩] lateHash

def kindlessBlock : DataBlock :=
  entriesBlock kindlessHeader kindlessHeaderMultihash [(50, kindlessData, kindlessMultihash)]

/-- A put of the entity `b`, and one of the entity `a`. -/
def putsBlock : DataBlock :=
  entriesBlock putsHeader putsHeaderMultihash
    [(50, putData 98 116, firstMultihash), (60, putData 97 116, otherEntityMultihash)]

/-- Another put of the entity `b`, with an id between the two. -/
def lateBlock : DataBlock :=
  entriesBlock lateHeader lateHeaderMultihash [(55, putData 98 117, lateMultihash)]

def exportTables : Tables where
  operations := [(50, kindlessData), (50, putData 98 116), (60, putData 97 116),
    (55, putData 98 117)].map fun (id, data) => (entryMessage id data, entryOperation id data)
  headers := (genesisMessage, genesisHeader) ::
    [kindlessHeader, putsHeader, lateHeader].map fun h => (proposedMessage h, h)
  signatures := (emptySignaturesMessage, ⟨0, some []⟩) :: [170, 356, 178].map fun size =>
    emptySignatures size [(firstNode, firstNodeText), (otherNode, otherNodeText)]
  digests := [(kindlessMultihash, kindlessHash.drop 2)]
  nodeIds := [firstNode, otherNode]

@[reducible] def exportCrates : Crates := exportTables.crates

def kindlessMutation : EntityMutation := ⟨"a", none⟩

def putMutation (entityId : String) (traitId : TraitId) : EntityMutation :=
  ⟨entityId, some (.putTrait (some ⟨traitId, none, none, none⟩))⟩

def committedKindless : CommittedEntityMutation := ⟨254, 50, kindlessMutation⟩

def committedPuts : List CommittedEntityMutation :=
  [⟨254, 50, putMutation "b" "t"⟩, ⟨254, 60, putMutation "a" "t"⟩, ⟨1240, 55, putMutation "b" "u"⟩]

def exportedMutations : List (Bytes × EntityMutation) :=
  [(kindlessData, kindlessMutation), (putData 98 116, putMutation "b" "t"),
    (putData 97 116, putMutation "a" "t"), (putData 98 117, putMutation "b" "u")]

def exportedCommitted : List (Bytes × CommittedEntityMutation) :=
  (ofNats [8, 254, 1, 16, 50, 26, 3] ++ kindlessData, committedKindless) ::
    [ofNats [8, 254, 1, 16, 50, 26, 10] ++ putData 98 116,
      ofNats [8, 254, 1, 16, 60, 26, 10] ++ putData 97 116,
      ofNats [8, 216, 9, 16, 55, 26, 10] ++ putData 98 117].zip committedPuts

/-- The encodings of these mutations. -/
def exportCodec : Codec where
  decode data := (exportedMutations.find? fun entry => entry.1 = data).map Prod.snd
  encodeCommitted := encodeIn exportedCommitted
  decodeCommitted data := (exportedCommitted.find? fun entry => entry.1 = data).map Prod.snd

def exportEnv : Env := ⟨exportCodec, spillingSorter UInt8, fun traits => traits.entries,
  fun _ => List.Perm.refl _⟩

section Samples

attribute [local instance] exportCrates

def firstChain : DirectoryChainStore :=
  ((DirectoryChainStore.create ⟨0, 10000, 10⟩).writeBlock Chain.genesisBlock).2

theorem firstChain_holds : Holds firstChain [Chain.genesisBlock] :=
  ((holds_create ⟨0, 10000, 10⟩).writeBlock Chain.genesisBlock
    (wellFormedCheck_sound _ (by decide +kernel)) (by decide +kernel)).2

def kindlessChain : DirectoryChainStore := (firstChain.writeBlock kindlessBlock).2

def putsChain : DirectoryChainStore :=
  ((firstChain.writeBlock putsBlock).2.writeBlock lateBlock).2

theorem kindlessChain_holds : Holds kindlessChain [Chain.genesisBlock, kindlessBlock] :=
  (firstChain_holds.writeBlock kindlessBlock (wellFormedCheck_sound _ (by decide +kernel))
    (by decide +kernel)).2

theorem putsChain_holds : Holds putsChain [Chain.genesisBlock, putsBlock, lateBlock] :=
  ((firstChain_holds.writeBlock putsBlock (wellFormedCheck_sound _ (by decide +kernel))
    (by decide +kernel)).2.writeBlock lateBlock (wellFormedCheck_sound _ (by decide +kernel))
    (by decide +kernel)).2

def entryHashed (id : ℕ) (data multihash : Bytes) : HashedFrame ChainOperation :=
  ⟨sizedBytes (entryMessage id data ++ multihash), multihash, some (entryOperation id data)⟩

/-- The frame of an entry, which is read with the crates of these tables. -/
def entryFrameOf (id : ℕ) (data multihash : Bytes)
    (reads : HashedFrame.read Crates.readChainOperation (entryHashed id data multihash).wholeData =
      .ok (entryHashed id data multihash)) : OperationFrame :=
  ⟨entryHashed id data multihash, reads⟩

def kindlessFrame : OperationFrame :=
  entryFrameOf 50 kindlessData kindlessMultihash (by decide +kernel)

def putsFrames : List OperationFrame :=
  [entryFrameOf 50 (putData 98 116) firstMultihash (by decide +kernel),
    entryFrameOf 60 (putData 97 116) otherEntityMultihash (by decide +kernel)]

def lateFrame : OperationFrame :=
  entryFrameOf 55 (putData 98 117) lateMultihash (by decide +kernel)

theorem entry_operationHolds (block : DataBlock) (id : ℕ) (data multihash : Bytes) (reads)
    (mutation : EntityMutation) (hdecode : exportCodec.decode data = some mutation) :
    OperationHolds exportCodec block (entryFrameOf id data multihash reads)
      [⟨Fin.ofNat _ block.offset, Fin.ofNat _ id, mutation⟩] :=
  @OperationHolds.entry _ _ _ _ (entryOperation id data) _ _ rfl rfl hdecode

theorem genesis_blockHolds : BlockHolds exportCodec Chain.genesisBlock [] :=
  ⟨[], [], by decide +kernel, .nil, rfl⟩

theorem kindless_operations : kindlessBlock.operations = .ok [kindlessFrame] := by decide +kernel

theorem kindless_chainHolds :
    ChainHolds exportCodec [Chain.genesisBlock, kindlessBlock] [committedKindless] := by
  have hblock : BlockHolds exportCodec kindlessBlock [committedKindless] :=
    ⟨_, _, kindless_operations,
      .cons (entry_operationHolds _ _ _ _ _ kindlessMutation (by decide +kernel)) .nil, rfl⟩
  exact ⟨_, .cons genesis_blockHolds (.cons hblock .nil), rfl⟩

theorem puts_chainHolds :
    ChainHolds exportCodec [Chain.genesisBlock, putsBlock, lateBlock] committedPuts := by
  have hputs : putsBlock.operations = .ok putsFrames := by decide +kernel
  have hlate : lateBlock.operations = .ok [lateFrame] := by decide +kernel
  have hfirst : BlockHolds exportCodec putsBlock (committedPuts.take 2) :=
    ⟨_, _, hputs,
      .cons (entry_operationHolds _ _ _ _ _ (putMutation "b" "t") (by decide +kernel))
        (.cons (entry_operationHolds _ _ _ _ _ (putMutation "a" "t") (by decide +kernel)) .nil),
      rfl⟩
  have hlast : BlockHolds exportCodec lateBlock (committedPuts.drop 2) :=
    ⟨_, _, hlate,
      .cons (entry_operationHolds _ _ _ _ _ (putMutation "b" "u") (by decide +kernel)) .nil, rfl⟩
  exact ⟨_, .cons genesis_blockHolds (.cons hfirst (.cons hlast .nil)), rfl⟩

theorem kindless_follows : FollowsChain [Chain.genesisBlock] kindlessBlock := by
  intro tip htip
  obtain rfl : Chain.genesisBlock = tip := Option.some.inj htip
  refine ⟨kindlessHeader, rfl, ⟨by decide +kernel, by decide +kernel,
    ⟨1, by decide +kernel, by decide +kernel⟩, by decide +kernel⟩, fun _ => ?_⟩
  exact ⟨[kindlessFrame], kindlessHash, kindless_operations, rfl, by decide +kernel⟩

/-- A mutation of no kind is an error of the iterator, and no entity. -/
theorem kindless_disagrees :
    Holds kindlessChain [Chain.genesisBlock, kindlessBlock] ∧
    HashLinked [Chain.genesisBlock, kindlessBlock] ∧
    ChainHolds exportCodec [Chain.genesisBlock, kindlessBlock] [committedKindless] ∧
    (∀ m ∈ [committedKindless], exportCodec.Writes m ∧ m.mutation.entityId ≠ "") ∧
    ([committedKindless].map CommittedEntityMutation.operationId).Nodup ∧
    ¬ Agrees exportEnv kindlessChain [committedKindless] := by
  have hwrites : exportCodec.Writes committedKindless :=
    ⟨by decide +kernel, by decide +kernel⟩
  have hlinked : HashLinked [Chain.genesisBlock, kindlessBlock] :=
    (hashLinked_snoc [Chain.genesisBlock] kindlessBlock).mpr
      ⟨List.isChain_singleton _, kindless_follows⟩
  refine ⟨kindlessChain_holds, hlinked, kindless_chainHolds, ?_, by decide, ?_⟩
  · intro m hm
    obtain rfl := List.mem_singleton.mp hm
    exact ⟨hwrites, by decide⟩
  · rintro ⟨mutations, hnew, entities, hyields, -⟩
    obtain ⟨mutations', hnew', hperm, -⟩ :=
      mutationIterator_sorted exportEnv kindlessChain_holds kindless_chainHolds
        (fun m hm => (List.mem_singleton.mp hm) ▸ hwrites)
    obtain rfl : mutations = mutations' := Except.ok.inj (hnew.symm.trans hnew')
    obtain rfl := List.perm_singleton.mp hperm
    have hnext : ChainEntityIterator.next exportEnv [committedKindless] =
        (some (.error (.error (.other noMutation))), []) := by
      decide +kernel
    cases entities with
    | nil =>
      cases hyields with
      | finished hfinished =>
        rw [hnext] at hfinished
        cases (Prod.mk.inj hfinished).1
    | cons entity rest =>
      cases hyields with
      | item hitem =>
        rw [hnext] at hitem
        cases Option.some.inj (Prod.mk.inj hitem).1

theorem committedPuts_kinds : ∀ m ∈ committedPuts, HasKind m := by
  intro m hm
  simp only [committedPuts, List.mem_cons, List.not_mem_nil, or_false] at hm
  rcases hm with rfl | rfl | rfl
  · exact ⟨_, rfl, by simp⟩
  · exact ⟨_, rfl, by simp⟩
  · exact ⟨_, rfl, by simp⟩

/-- Two entities, whose mutations are mixed in the chain. -/
theorem puts_agree : Agrees exportEnv putsChain committedPuts := by
  have hwrites : ∀ m ∈ committedPuts,
      exportCodec.decodeCommitted (exportCodec.encodeCommitted m) = some m ∧
        (exportCodec.encodeCommitted m).length < 2^64 := by
    decide +kernel
  exact entities_agree exportEnv putsChain [Chain.genesisBlock, putsBlock, lateBlock] committedPuts
    putsChain_holds puts_chainHolds (fun m hm => ⟨(hwrites m hm).1, (hwrites m hm).2⟩)
    (by decide +kernel) (by decide +kernel) committedPuts_kinds

end Samples

end Exocore.Store.Export
