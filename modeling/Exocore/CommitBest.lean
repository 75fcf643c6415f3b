import Exocore.CommitOrder
import Exocore.CommitQuorum

/-! The best of the candidates, and the order of the hash map it is found in. -/
namespace Exocore.Engine

open Exocore.Core Exocore.Chain Exocore.Pending SortedMap

section Order
variable [Crates]

/-- The candidates are ordered, their list does not depend on the order of the hash map or on the
way it is sorted, and the best one is its head. -/
structure SortsBest (pb : PendingBlocks) : Prop where
  strict : StrictOrder pb.candidates
  sorted : ∃ potential : List PendingBlock,
    (∀ hash sorter, pb.potentialNextBlocks hash sorter = .ok potential) ∧
    potential.Perm pb.candidates ∧
    ∀ best, potential.head? = some best → Best pb.candidates best

theorem sortsBest_of_oneSigned (pb : PendingBlocks)
    (hkeys : ∀ g block, pb.blocks.get g = some block → block.groupId = g)
    (hone : OneSigned pb.candidates) : SortsBest pb := by
  have hsortable : Sortable pb.candidates := ⟨candidates_ids pb hkeys, hone⟩
  obtain ⟨potential, -, hperm, hsorted⟩ := potentialNextBlocks_sorted pb hkeys hone .same
    (Sorting.insertionSorter bestFirst)
  refine ⟨hsortable.strictOrder, potential, ?_, hperm, ?_⟩
  · intro hash sorter
    obtain ⟨other, hother, hperm', hsorted'⟩ := potentialNextBlocks_sorted pb hkeys hone hash sorter
    rw [hother, Sorting.sorted_unique bestFirst other potential (hperm'.trans hperm.symm) hsorted'
      hsorted]
  · intro best hbest
    obtain ⟨rest, rfl⟩ := List.head?_eq_some_iff.mp hbest
    exact hsortable.best_of_sorted best rest hperm hsorted

/-- The comparison is an order, and the best candidate does not depend on the hash map, iff at most
one of the blocks that are compared has our signature. -/
theorem potentialNextBlocks_order_iff (pb : PendingBlocks)
    (hkeys : ∀ g block, pb.blocks.get g = some block → block.groupId = g) :
    (StrictOrder pb.blocks.values ↔ OneSigned pb.blocks.values) ∧
      (SortsBest pb ↔ OneSigned pb.candidates) := by
  constructor
  · exact strictOrder_iff _ (values_ids pb hkeys)
  · constructor
    · exact fun h => h.strict.oneSigned
    · exact sortsBest_of_oneSigned pb hkeys

end Order

/-! Two proposals of the other node, of which the first has a signature in the name of the first
node, and the second one too, or one of the other node. -/

def bothSignedHash : Bytes := ofNats
    [22, 32, 74, 40, 89, 12, 93, 134, 148, 134, 111, 74, 124, 223, 23, 192, 187, 138, 92, 225, 72,
    242, 209, 169, 176, 224, 193, 176, 110, 135, 145, 229, 114, 237]

def oneSignedHash : Bytes := ofNats
    [22, 32, 202, 214, 19, 142, 124, 41, 70, 167, 238, 61, 177, 11, 36, 59, 201, 99, 226, 68, 244,
    164, 92, 195, 222, 96, 88, 132, 141, 137, 150, 15, 37, 240]

def twoProposalsTables : Tables :=
  { commitTables with
    digests := (fiftyMultihash ++ proposalMultihash ++ sign101Multihash ++ repeatMultihash ++
        sign201Multihash, bothSignedHash.drop 2) ::
      (fiftyMultihash ++ proposalMultihash ++ sign101Multihash ++ repeatMultihash ++
        sign203Multihash, oneSignedHash.drop 2) :: commitTables.digests }

section Samples

@[reducible] def twoProposalsCrates : Crates := twoProposalsTables.crates

attribute [local instance] twoProposalsCrates

def twoProposals (hash secondSignature : Bytes) : CommitState DirectoryChainStore :=
  (firstEngine.step ⟨⟨none⟩, .new, genesisChain⟩ (.pendingSyncRequest ⟨otherNode⟩ (some
    ⟨.list [⟨0, false, 0, false, some hash, 5, .list
      ([fiftyBytes, proposeBytes nextHeader nextHeaderMultihash proposalMultihash,
        signBytes 100 101 firstNodeText sign101Multihash,
        proposeBytes repeatHeader repeatHeaderMultihash repeatMultihash,
        secondSignature].map some), .null⟩], 0⟩))).state

/-- What a scan of the state finds. -/
def scanned (s : CommitState DirectoryChainStore) : PendingBlocks :=
  (PendingBlocks.new firstEngine.commitManager.config 110 firstEngine.commitManager.cell
    s.pendingStore s.chainStore).toOption.getD ⟨.empty, .empty, .empty, 0⟩

def bothSignedBlocks : PendingBlocks :=
  scanned (twoProposals bothSignedHash (signBytes 200 201 firstNodeText sign201Multihash))

def oneSignedBlocks : PendingBlocks :=
  scanned (twoProposals oneSignedHash (signBytes 200 203 otherNodeText sign203Multihash))

/-- Ids of the blocks a sort gives. -/
def sortedIds (pb : PendingBlocks) (hash : Sorting.HashOrder)
    (sorter : Sorting.Sorter PendingBlock bestFirst) : Option (List ℕ) :=
  (pb.potentialNextBlocks hash sorter).toOption.map (List.map PendingBlock.groupId)

def reversedOrder : Sorting.HashOrder := ⟨List.reverse, List.reverse_perm⟩

theorem keys_of_entries (pb : PendingBlocks)
    (h : pb.blocks.entries.all fun e => e.2.groupId = e.1) (g : ℕ) (block : PendingBlock)
    (hg : pb.blocks.get g = some block) : block.groupId = g :=
  of_decide_eq_true (List.all_eq_true.mp h (g, block) ((Map.mem_entries_iff _ _ _).mpr hg))

theorem twoProposals_keys :
    (bothSignedBlocks.blocks.entries.all fun e => e.2.groupId = e.1) ∧
      (oneSignedBlocks.blocks.entries.all fun e => e.2.groupId = e.1) := by
  decide +kernel

/-- One candidate with our signature: the list is the same for all orders. -/
theorem oneSigned_order :
    SortsBest oneSignedBlocks ∧ oneSignedBlocks.candidates.length = 2 := by
  have hsigned : oneSignedBlocks.candidates.map PendingBlock.hasMySignature = [true, false] := by
    decide +kernel
  have hlength : oneSignedBlocks.candidates.length = 2 := by
    rw [← List.length_map (f := PendingBlock.hasMySignature), hsigned]
    rfl
  refine ⟨?_, hlength⟩
  apply ((potentialNextBlocks_order_iff oneSignedBlocks
    (keys_of_entries _ twoProposals_keys.2)).2).mpr
  obtain ⟨a, b, hcandidates⟩ := List.length_eq_two.mp hlength
  rw [hcandidates] at hsigned ⊢
  simp only [List.map_cons, List.map_nil, List.cons.injEq, and_true] at hsigned
  simp [OneSigned, hsigned]

theorem bothSigned_sortedIds :
    sortedIds bothSignedBlocks .same (Sorting.insertionSorter bestFirst) = some [200, 100] ∧
      sortedIds bothSignedBlocks reversedOrder (Sorting.insertionSorter bestFirst) =
        some [100, 200] := by
  decide +kernel

/-- The insertion sort of the standard library gives the two blocks in the other order than the
hash map. -/
theorem bothSigned_not_sortsBest :
    (∀ g block, bothSignedBlocks.blocks.get g = some block → block.groupId = g) ∧
      ¬ SortsBest bothSignedBlocks := by
  refine ⟨keys_of_entries _ twoProposals_keys.1, ?_⟩
  rintro ⟨-, potential, hpotential, -, -⟩
  have hids (hash : Sorting.HashOrder) (sorter : Sorting.Sorter PendingBlock bestFirst) :
      sortedIds bothSignedBlocks hash sorter = some (potential.map PendingBlock.groupId) := by
    rw [sortedIds, hpotential hash sorter]
    rfl
  obtain ⟨hsame, hreversed⟩ := bothSigned_sortedIds
  rw [hids] at hsame hreversed
  rw [hsame] at hreversed
  revert hreversed
  decide

end Samples

end Exocore.Engine
