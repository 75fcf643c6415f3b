import Exocore.ChainTables
import Exocore.ChainRuns

/-! The directory store as a plain list of blocks, along every run of writes and truncations
whose appends find the cursors of the last segment in step. -/
namespace Exocore.Chain

open Exocore.Core

section Reads
variable [Crates]

/-- The run step: valid, and aligned where it appends. -/
def ChainStep.ValidAligned (st : StoreAndList) (a : ChainStep) : Prop := a.Valid st ∧ a.Aligned st

theorem chainRun_holds (config : DirectoryChainStoreConfig) (steps : List ChainStep)
    (hrun : Run.Allowed chainStep ChainStep.ValidAligned (freshStore config) steps) :
    StoreHolds False (Run.exec chainStep (freshStore config) steps).store
      (Run.exec chainStep (freshStore config) steps).blocks := by
  refine Run.exec_invariant chainStep ChainStep.ValidAligned
    (fun st => StoreHolds False st.store st.blocks) ?_ (freshStore config) steps
    (storeHolds_create False config) hrun
  intro st a hst ha
  exact (chainStep_holds False st a hst ha.1 ha.2 fun hbad => hbad.elim).2

/-- Along a run whose appends are all aligned, every step succeeds and the store reads as
the list after each of them. -/
theorem chainRun_readsAs (config : DirectoryChainStoreConfig) (steps : List ChainStep)
    (hrun : Run.Allowed chainStep ChainStep.ValidAligned (freshStore config) steps) :
    Run.Allowed chainStep ChainStep.Succeeds (freshStore config) steps ∧
      ∀ taken left, steps = taken ++ left →
        ReadsAs (Run.exec chainStep (freshStore config) taken).store
          (Run.exec chainStep (freshStore config) taken).blocks := by
  have htaken : ∀ taken left, steps = taken ++ left →
      StoreHolds False (Run.exec chainStep (freshStore config) taken).store
        (Run.exec chainStep (freshStore config) taken).blocks := by
    rintro taken left rfl
    exact chainRun_holds config taken ((Run.allowed_append_iff _ _ _ _ _).mp hrun).1
  refine ⟨?_, fun taken left hsplit => storeHolds_readsAs False _ _ (htaken taken left hsplit)⟩
  have hsteps : ∀ st steps', StoreHolds False st.store st.blocks →
      Run.Allowed chainStep ChainStep.ValidAligned st steps' →
      Run.Allowed chainStep ChainStep.Succeeds st steps' := by
    intro st steps' hst hallowed
    induction steps' generalizing st with
    | nil => trivial
    | cons a rest ih =>
      obtain ⟨⟨hv, hal⟩, hrest⟩ := hallowed
      obtain ⟨hok, hnext⟩ := chainStep_holds False st a hst hv hal fun hbad => hbad.elim
      exact ⟨⟨hv, hok⟩, ih _ hnext hrest⟩
  exact hsteps _ _ (storeHolds_create False config) hrun

end Reads

/-! A genesis block, two blocks after it and one after the second, as they are encoded. -/

def sampleNode : String := "12D3KooWPTCWpA2Xi73a1uREdWgF3ssywwth3Sd8A7M5vm3zgdKp"

def emptySignaturesMessage : Bytes := ofNats
    [0, 0, 0, 0, 4, 0, 0, 0, 0, 0, 0, 0, 1, 0, 1, 0, 0, 0, 0, 0, 0, 0, 0, 0, 1, 0, 0, 0, 7, 0, 0,
    0, 0, 0, 0, 0, 0, 0, 2, 0]

def genesisMessage : Bytes := ofNats
    [0, 0, 0, 0, 19, 0, 0, 0, 0, 0, 0, 0, 5, 0, 4, 0, 0, 0, 0, 0, 0, 0, 0, 0, 1, 0, 0, 0, 0, 0,
    0, 0, 0, 0, 0, 0, 0, 0, 0, 0, 0, 0, 0, 0, 0, 0, 0, 0, 0, 0, 0, 0, 52, 0, 0, 0, 13, 0, 0, 0,
    2, 0, 0, 0, 9, 0, 0, 0, 170, 1, 0, 0, 37, 0, 0, 0, 7, 0, 0, 0, 29, 0, 0, 0, 18, 0, 0, 0, 49,
    50, 68, 51, 75, 111, 111, 87, 80, 84, 67, 87, 112, 65, 50, 88, 105, 55, 51, 97, 49, 117, 82,
    69, 100, 87, 103, 70, 51, 115, 115, 121, 119, 119, 116, 104, 51, 83, 100, 56, 65, 55, 77, 53,
    118, 109, 51, 122, 103, 100, 75, 112, 0, 0, 0, 0, 0, 0, 0, 0, 0, 0, 0, 0, 0, 0, 0, 0, 2, 0,
    0, 0]

def genesisMultihash : Bytes := ofNats
    [22, 32, 191, 127, 248, 206, 39, 129, 234, 121, 215, 0, 33, 185, 172, 216, 33, 73, 61, 75,
    65, 81, 156, 234, 77, 8, 90, 77, 198, 29, 218, 167, 231, 107]

def genesisHeader : BlockHeader :=
  ⟨0, 1, 0, some [], 0, some sampleNode, 0, some [], some [0, 0], 52⟩

def secondMessage : Bytes := ofNats
    [0, 0, 0, 0, 24, 0, 0, 0, 0, 0, 0, 0, 5, 0, 4, 0, 254, 0, 0, 0, 0, 0, 0, 0, 2, 0, 0, 0, 0, 0,
    0, 0, 0, 0, 0, 0, 0, 0, 0, 0, 100, 0, 0, 0, 0, 0, 0, 0, 0, 0, 0, 0, 52, 0, 0, 0, 13, 0, 0, 0,
    18, 1, 0, 0, 29, 0, 0, 0, 170, 1, 0, 0, 57, 0, 0, 0, 7, 0, 0, 0, 49, 0, 0, 0, 18, 0, 0, 0,
    22, 32, 191, 127, 248, 206, 39, 129, 234, 121, 215, 0, 33, 185, 172, 216, 33, 73, 61, 75, 65,
    81, 156, 234, 77, 8, 90, 77, 198, 29, 218, 167, 231, 107, 0, 0, 0, 0, 0, 0, 49, 50, 68, 51,
    75, 111, 111, 87, 80, 84, 67, 87, 112, 65, 50, 88, 105, 55, 51, 97, 49, 117, 82, 69, 100, 87,
    103, 70, 51, 115, 115, 121, 119, 119, 116, 104, 51, 83, 100, 56, 65, 55, 77, 53, 118, 109,
    51, 122, 103, 100, 75, 112, 0, 0, 0, 0, 0, 0, 0, 0, 0, 0, 0, 0, 0, 0, 0, 0, 2, 0, 0, 0]

def secondMultihash : Bytes := ofNats
    [22, 32, 250, 241, 79, 104, 41, 159, 190, 156, 215, 109, 119, 162, 141, 183, 192, 84, 140,
    110, 240, 97, 187, 82, 223, 98, 187, 27, 148, 53, 70, 217, 237, 126]

def secondHeader : BlockHeader :=
  ⟨254, 2, 0, some genesisMultihash, 100, some sampleNode, 0, some [], some [0, 0], 52⟩

def otherMessage : Bytes := ofNats
    [0, 0, 0, 0, 24, 0, 0, 0, 0, 0, 0, 0, 5, 0, 4, 0, 254, 0, 0, 0, 0, 0, 0, 0, 2, 0, 0, 0, 0, 0,
    0, 0, 0, 0, 0, 0, 0, 0, 0, 0, 200, 0, 0, 0, 0, 0, 0, 0, 0, 0, 0, 0, 52, 0, 0, 0, 13, 0, 0, 0,
    18, 1, 0, 0, 29, 0, 0, 0, 170, 1, 0, 0, 57, 0, 0, 0, 7, 0, 0, 0, 49, 0, 0, 0, 18, 0, 0, 0,
    22, 32, 191, 127, 248, 206, 39, 129, 234, 121, 215, 0, 33, 185, 172, 216, 33, 73, 61, 75, 65,
    81, 156, 234, 77, 8, 90, 77, 198, 29, 218, 167, 231, 107, 0, 0, 0, 0, 0, 0, 49, 50, 68, 51,
    75, 111, 111, 87, 80, 84, 67, 87, 112, 65, 50, 88, 105, 55, 51, 97, 49, 117, 82, 69, 100, 87,
    103, 70, 51, 115, 115, 121, 119, 119, 116, 104, 51, 83, 100, 56, 65, 55, 77, 53, 118, 109,
    51, 122, 103, 100, 75, 112, 0, 0, 0, 0, 0, 0, 0, 0, 0, 0, 0, 0, 0, 0, 0, 0, 2, 0, 0, 0]

def otherMultihash : Bytes := ofNats
    [22, 32, 194, 145, 121, 18, 148, 154, 200, 129, 165, 127, 237, 209, 46, 199, 246, 99, 193,
    235, 240, 240, 39, 106, 78, 246, 237, 240, 69, 165, 37, 41, 182, 16]

def otherHeader : BlockHeader :=
  ⟨254, 2, 0, some genesisMultihash, 200, some sampleNode, 0, some [], some [0, 0], 52⟩

def thirdMessage : Bytes := ofNats
    [0, 0, 0, 0, 24, 0, 0, 0, 0, 0, 0, 0, 5, 0, 4, 0, 36, 2, 0, 0, 0, 0, 0, 0, 3, 0, 0, 0, 0, 0,
    0, 0, 254, 0, 0, 0, 0, 0, 0, 0, 44, 1, 0, 0, 0, 0, 0, 0, 0, 0, 0, 0, 52, 0, 0, 0, 13, 0, 0,
    0, 18, 1, 0, 0, 29, 0, 0, 0, 170, 1, 0, 0, 57, 0, 0, 0, 7, 0, 0, 0, 49, 0, 0, 0, 18, 0, 0, 0,
    22, 32, 250, 241, 79, 104, 41, 159, 190, 156, 215, 109, 119, 162, 141, 183, 192, 84, 140,
    110, 240, 97, 187, 82, 223, 98, 187, 27, 148, 53, 70, 217, 237, 126, 0, 0, 0, 0, 0, 0, 49,
    50, 68, 51, 75, 111, 111, 87, 80, 84, 67, 87, 112, 65, 50, 88, 105, 55, 51, 97, 49, 117, 82,
    69, 100, 87, 103, 70, 51, 115, 115, 121, 119, 119, 116, 104, 51, 83, 100, 56, 65, 55, 77, 53,
    118, 109, 51, 122, 103, 100, 75, 112, 0, 0, 0, 0, 0, 0, 0, 0, 0, 0, 0, 0, 0, 0, 0, 0, 2, 0,
    0, 0]

def thirdMultihash : Bytes := ofNats
    [22, 32, 32, 17, 134, 56, 74, 222, 172, 187, 222, 120, 97, 127, 50, 95, 165, 162, 131, 201,
    26, 130, 65, 208, 69, 146, 201, 82, 226, 84, 10, 249, 148, 85]

def thirdHeader : BlockHeader :=
  ⟨548, 3, 254, some secondMultihash, 300, some sampleNode, 0, some [], some [0, 0], 52⟩

def sampleTables : Tables where
  operations := []
  headers := [(genesisMessage, genesisHeader), (secondMessage, secondHeader),
    (otherMessage, otherHeader)]
  signatures := [(emptySignaturesMessage, ⟨0, some []⟩)]
  digests := []
  nodeIds := [sampleNode]

/-- A block without operations nor signatures. -/
def emptyBlock (message multihash : Bytes) (header : BlockHeader) : DataBlock :=
  ⟨header.offset, ⟨sizedBytes (message ++ multihash), multihash, some header⟩, [],
    ⟨sizedBytes (paddedBytes emptySignaturesMessage 0), some ⟨0, some []⟩⟩⟩

def genesisBlock : DataBlock := emptyBlock genesisMessage genesisMultihash genesisHeader
def secondBlock : DataBlock := emptyBlock secondMessage secondMultihash secondHeader
def otherBlock : DataBlock := emptyBlock otherMessage otherMultihash otherHeader
def thirdBlock : DataBlock := emptyBlock thirdMessage thirdMultihash thirdHeader

section Samples

local instance : Crates := sampleTables.crates

theorem sampleBlocks_wellFormed :
    WellFormed genesisBlock ∧ WellFormed secondBlock ∧ WellFormed otherBlock :=
  ⟨wellFormedCheck_sound _ (by decide +kernel), wellFormedCheck_sound _ (by decide +kernel),
    wellFormedCheck_sound _ (by decide +kernel)⟩

/-- Both blocks fit in the first segment, the truncation leaves its file cursor behind. -/
def staleCursorSteps : List ChainStep :=
  [.write genesisBlock, .write secondBlock, .truncate secondBlock.offset, .write otherBlock]

/-- Every call of the run succeeds, yet the last block is not readable at its own offset. -/
theorem staleCursor_not_readsAs :
    Run.Allowed chainStep ChainStep.Succeeds (freshStore ⟨0, 10000, 10⟩) staleCursorSteps ∧
      ¬ ReadsAs (Run.exec chainStep (freshStore ⟨0, 10000, 10⟩) staleCursorSteps).store
        (Run.exec chainStep (freshStore ⟨0, 10000, 10⟩) staleCursorSteps).blocks := by
  obtain ⟨hgenesis, hsecond, hother⟩ := sampleBlocks_wellFormed
  constructor
  · refine ⟨⟨⟨hgenesis, ?_⟩, ?_⟩, ⟨⟨hsecond, ?_⟩, ?_⟩, ⟨⟨secondBlock, ?_, rfl⟩, ?_⟩,
      ⟨⟨hother, ?_⟩, ?_⟩, trivial⟩
    all_goals decide +kernel
  · intro h
    have hread := h.getBlock otherBlock (by decide +kernel)
    have hbad : (Run.exec chainStep (freshStore ⟨0, 10000, 10⟩)
        staleCursorSteps).store.getBlock otherBlock.offset ≠ .ok otherBlock := by
      decide +kernel
    exact hbad hread

/-- With a segment for each block the same run is aligned. -/
theorem chainRun_readsAs_small_segments :
    Run.Allowed chainStep ChainStep.Succeeds (freshStore ⟨0, 1, 10⟩) staleCursorSteps ∧
      ∀ taken left, staleCursorSteps = taken ++ left →
        ReadsAs (Run.exec chainStep (freshStore ⟨0, 1, 10⟩) taken).store
          (Run.exec chainStep (freshStore ⟨0, 1, 10⟩) taken).blocks := by
  obtain ⟨hgenesis, hsecond, hother⟩ := sampleBlocks_wellFormed
  apply chainRun_readsAs
  refine ⟨⟨⟨hgenesis, ?_⟩, ?_⟩, ⟨⟨hsecond, ?_⟩, ?_⟩, ⟨⟨secondBlock, ?_, rfl⟩, trivial⟩,
    ⟨⟨hother, ?_⟩, ?_⟩, trivial⟩
  all_goals decide +kernel

end Samples

end Exocore.Chain
