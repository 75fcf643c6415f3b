import Exocore.ChainBlockRead

/-! The crates restricted to recorded messages: each message with the bytes it is encoded
to. On these bytes they answer as the real ones do, and the model can be run. -/
namespace Exocore.Chain

open Exocore.Core

def ofNats (bytes : List ℕ) : Bytes := bytes.map UInt8.ofNat

structure Tables where
  operations : List (Bytes × ChainOperation)
  headers : List (Bytes × BlockHeader)
  signatures : List (Bytes × SignaturesMessage)
  digests : List (Bytes × Bytes)
  nodeIds : List String

def decodeIn {T : Type} (table : List (Bytes × T)) : MessageReader T := fun data =>
  (table.find? fun entry => entry.1 = data).map fun entry => some entry.2

def encodeIn {T : Type} [DecidableEq T] (table : List (Bytes × T)) (message : T) : Bytes :=
  ((table.find? fun entry => entry.2 = message).map Prod.fst).getD []

/-- One byte of code and one of size, as for the codes and digests in use. -/
def multihashBytesOf (m : Multihash) : Bytes :=
  UInt8.ofNat m.code :: UInt8.ofNat m.digest.length :: m.digest

def multihashOfBytes : Bytes → Option Multihash
  | code :: size :: digest =>
    if digest.length = size.toNat ∧ size.toNat ≤ 32 ∧ code.toNat < 128 then
      some ⟨code.toNat, digest⟩
    else none
  | _ => none

theorem multihashOfBytes_multihashBytesOf (m : Multihash) (hcode : m.code < 128)
    (hsize : m.digest.length ≤ 32) : multihashOfBytes (multihashBytesOf m) = some m := by
  have hc : (UInt8.ofNat m.code).toNat = m.code := by
    simp only [UInt8.toNat_ofNat']
    omega
  have hs : (UInt8.ofNat m.digest.length).toNat = m.digest.length := by
    simp only [UInt8.toNat_ofNat']
    omega
  rw [multihashBytesOf, multihashOfBytes, hc, hs, if_pos ⟨rfl, hsize, hcode⟩]

@[reducible] def Tables.crates (t : Tables) : Crates where
  toBinarySearcher := Search.halving
  readChainOperation := decodeIn t.operations
  readBlockHeader := decodeIn t.headers
  readBlockSignatures := decodeIn t.signatures
  writeChainOperation := encodeIn t.operations
  writeBlockHeader := encodeIn t.headers
  writeBlockSignatures := encodeIn t.signatures
  sha3 input := ((t.digests.find? fun entry => entry.1 = input).map Prod.snd).getD []
  multihashToBytes := multihashBytesOf
  multihashFromBytes := multihashOfBytes
  nodeIdFromStr s := if s ∈ t.nodeIds then some ⟨s⟩ else none

def sizedCheck (whole : Bytes) : Bool :=
  match readLe32 whole with
  | none => false
  | some n => whole.length = n + 8 ∧ readLe32 (whole.drop (n + 4)) = some n

theorem sizedCheck_sound (whole : Bytes) (h : sizedCheck whole = true) : ∃ n, SizedBy whole n := by
  unfold sizedCheck at h
  split at h
  · contradiction
  · rename_i n hn
    obtain ⟨hlen, htrail⟩ := of_decide_eq_true h
    exact ⟨n, hlen, hn, htrail⟩

section Checks
variable [Crates]

def readableCheck (operationsData : Bytes) (h : BlockOperationHeader) : Bool :=
  match h.readFrame operationsData with
  | .ok f => f.frame.reader.isSome
  | .error _ => false

/-- The conditions of a well-formed block, evaluated. -/
def wellFormedCheck (b : DataBlock) : Bool :=
  sizedCheck b.header.wholeData &&
  decide (readHeaderFrame b.header.wholeData = .ok b.header) &&
  sizedCheck b.signatures.wholeData &&
  decide (readSignaturesFrame b.signatures.wholeData = .ok b.signatures) &&
  (match b.header.reader, b.signatures.reader, b.operationsHeader with
    | some m, some sm, .ok headers =>
      decide (m.offset = b.offset ∧ m.operationsSize = b.operationsData.length ∧
        m.signaturesSize = b.signatures.wholeData.length ∧
        sm.operationsSize = b.operationsData.length) &&
      headers.all fun h => readableCheck b.operationsData h
    | _, _, _ => false)

theorem readableCheck_sound (operationsData : Bytes) (h : BlockOperationHeader)
    (hc : readableCheck operationsData h = true) :
    ∃ f r, h.readFrame operationsData = .ok f ∧ f.frame.reader = some r := by
  unfold readableCheck at hc
  split at hc
  · rename_i f hf
    obtain ⟨r, hr⟩ := Option.isSome_iff_exists.mp hc
    exact ⟨f, r, hf, hr⟩
  · contradiction

theorem wellFormedCheck_sound (b : DataBlock) (h : wellFormedCheck b = true) : WellFormed b := by
  simp only [wellFormedCheck, Bool.and_eq_true, decide_eq_true_eq] at h
  obtain ⟨⟨⟨⟨hsized, hreads⟩, hsig⟩, hsigReads⟩, hrest⟩ := h
  split at hrest
  · rename_i m sm headers hm hsm hheaders
    rw [Bool.and_eq_true, decide_eq_true_eq, List.all_eq_true] at hrest
    obtain ⟨⟨hoff, hops, hsize, hsops⟩, hall⟩ := hrest
    exact ⟨⟨sizedCheck_sound _ hsized, hreads, sizedCheck_sound _ hsig, hsigReads,
      ⟨m, hm, hoff, hops, hsize⟩, ⟨sm, hsm, hsops⟩⟩, headers, hheaders,
      fun x hx => readableCheck_sound _ x (hall x hx)⟩
  · contradiction

end Checks

end Exocore.Chain
