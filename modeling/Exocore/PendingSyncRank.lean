import Exocore.PendingSyncHandle

/-! How far a range of a request is from needing no answer. A range is sent as a hash, then
with headers, then with the operations the other side misses. -/
namespace Exocore.Engine

open Exocore.Core Exocore.Chain Exocore.Pending SortedMap

variable [Crates]

/-- What the store has under an id. -/
def frameOf (store : MemoryPendingStore) (id : ℕ) : Option OperationFrame :=
  (store.getOperation id).map StoredOperation.frame

theorem frameOf_eq_some (store : MemoryPendingStore) (id : ℕ) (f : OperationFrame) :
    frameOf store id = some f ↔
      ∃ op, store.getOperation id = some op ∧ op.operationId = id ∧ op.frame = f := by
  rw [frameOf, Option.map_eq_some_iff]
  constructor
  · rintro ⟨op, hop, hf⟩
    exact ⟨op, hop, store.getOperation_id id op hop, hf⟩
  · rintro ⟨op, hop, -, hf⟩
    exact ⟨op, hop, hf⟩

/-- Without a height all the operations of a range are visible. -/
theorem mem_visible_none_iff (store : MemoryPendingStore) (c : Bound × Bound)
    (op : StoredOperation) : op ∈ visible store none c ↔
      store.getOperation op.operationId = some op ∧ inRange c.1 c.2 op.operationId = true := by
  rw [mem_visible_iff, fromHeightAllows]
  simp

theorem mem_ids_iff (store : MemoryPendingStore) (c : Bound × Bound) (id : ℕ) :
    id ∈ (visible store none c).map StoredOperation.operationId ↔
      (∃ f, frameOf store id = some f) ∧ inRange c.1 c.2 id = true := by
  rw [List.mem_map]
  constructor
  · rintro ⟨op, hop, rfl⟩
    obtain ⟨hget, hin⟩ := (mem_visible_none_iff store c op).mp hop
    exact ⟨⟨op.frame, by rw [frameOf, hget, Option.map_some]⟩, hin⟩
  · rintro ⟨⟨f, hf⟩, hin⟩
    obtain ⟨op, hget, rfl, -⟩ := (frameOf_eq_some store id f).mp hf
    exact ⟨op, (mem_visible_none_iff store c op).mpr ⟨hget, hin⟩, rfl⟩

/-- The ids and frames of a range, in order. -/
def entriesIn (store : MemoryPendingStore) (c : Bound × Bound) : List (ℕ × OperationFrame) :=
  (visible store none c).map fun op => (op.operationId, op.frame)

theorem mem_entriesIn_iff (store : MemoryPendingStore) (c : Bound × Bound)
    (e : ℕ × OperationFrame) :
    e ∈ entriesIn store c ↔ frameOf store e.1 = some e.2 ∧ inRange c.1 c.2 e.1 = true := by
  obtain ⟨id, f⟩ := e
  simp only [entriesIn, List.mem_map, Prod.mk.injEq, mem_visible_none_iff, frameOf_eq_some]
  constructor
  · rintro ⟨op, ⟨hget, hin⟩, rfl, hf⟩
    exact ⟨⟨op, hget, rfl, hf⟩, hin⟩
  · rintro ⟨⟨op, hget, rfl, hf⟩, hin⟩
    exact ⟨op, ⟨hget, hin⟩, rfl, hf⟩

theorem entriesIn_sorted (store : MemoryPendingStore) (c : Bound × Bound) :
    (entriesIn store c).Pairwise fun a b => a.1 < b.1 :=
  List.pairwise_map.mpr (visible_sorted store none c)

/-- Two stores have the same entries in a range when they have the same frames in it. -/
theorem entriesIn_eq_iff (s t : MemoryPendingStore) (c : Bound × Bound) :
    entriesIn s c = entriesIn t c ↔
      ∀ id, inRange c.1 c.2 id = true → frameOf s id = frameOf t id := by
  constructor
  · intro h id hin
    apply Option.ext
    intro f
    have hs := mem_entriesIn_iff s c (id, f)
    have ht := mem_entriesIn_iff t c (id, f)
    rw [h] at hs
    simp only [hin, and_true] at hs ht
    exact hs.symm.trans ht
  · intro h
    have hmaps : (⟨entriesIn s c, entriesIn_sorted s c⟩ : Map ℕ OperationFrame) =
        ⟨entriesIn t c, entriesIn_sorted t c⟩ := by
      apply Map.ext_get
      intro id
      apply Option.ext
      intro f
      rw [← Map.mem_entries_iff, ← Map.mem_entries_iff]
      change (id, f) ∈ entriesIn s c ↔ (id, f) ∈ entriesIn t c
      rw [mem_entriesIn_iff, mem_entriesIn_iff]
      constructor
      · rintro ⟨hf, hin⟩
        exact ⟨h id hin ▸ hf, hin⟩
      · rintro ⟨hf, hin⟩
        exact ⟨(h id hin).symm ▸ hf, hin⟩
    exact congrArg Map.entries hmaps

theorem hashInput_visible (store : MemoryPendingStore) (c : Bound × Bound) :
    hashInput (visible store none c) =
      (entriesIn store c).flatMap fun e => e.2.multihashBytes := by
  rw [entriesIn, List.flatMap_map]
  rfl

/-- Different sets of these frames have different hashes. -/
def CollisionFree (frames : ℕ → Option OperationFrame) : Prop :=
  ∀ l l' : List (ℕ × OperationFrame), l.Pairwise (fun a b => a.1 < b.1) →
    l'.Pairwise (fun a b => a.1 < b.1) → (∀ e ∈ l, frames e.1 = some e.2) →
    (∀ e ∈ l', frames e.1 = some e.2) →
    toMultihash (l.flatMap fun e => e.2.multihashBytes) =
      toMultihash (l'.flatMap fun e => e.2.multihashBytes) → l = l'

/-- The two stores are parts of `frames`, and nothing of it is missing in both. -/
structure Share (frames : ℕ → Option OperationFrame) (s t : MemoryPendingStore) : Prop where
  left : ∀ id f, frameOf s id = some f → frames id = some f
  right : ∀ id f, frameOf t id = some f → frames id = some f
  cover : ∀ id f, frames id = some f → frameOf s id = some f ∨ frameOf t id = some f

theorem share_symm (frames : ℕ → Option OperationFrame) (s t : MemoryPendingStore)
    (h : Share frames s t) : Share frames t s :=
  ⟨h.right, h.left, fun id f hf => (h.cover id f hf).symm⟩

/-- What both have is the same. -/
theorem share_agree (frames : ℕ → Option OperationFrame) (s t : MemoryPendingStore)
    (h : Share frames s t) (id : ℕ) (f g : OperationFrame) (hf : frameOf s id = some f)
    (hg : frameOf t id = some g) : f = g :=
  Option.some.inj ((h.left id f hf).symm.trans (h.right id g hg))

/-- The hash and the count of a range tell whether the stores have the same in it. -/
theorem sameInfo_iff (frames : ℕ → Option OperationFrame) (hfree : CollisionFree frames)
    (s t : MemoryPendingStore) (h : Share frames s t) (c : Bound × Bound) :
    (toMultihash (hashInput (visible s none c)) = toMultihash (hashInput (visible t none c)) ∧
      (visible t none c).length = (visible s none c).length) ↔
    ∀ id, inRange c.1 c.2 id = true → frameOf s id = frameOf t id := by
  rw [← entriesIn_eq_iff, hashInput_visible, hashInput_visible]
  constructor
  · rintro ⟨hhash, -⟩
    refine hfree _ _ (entriesIn_sorted s c) (entriesIn_sorted t c) ?_ ?_ hhash
    · intro e he
      exact h.left _ _ ((mem_entriesIn_iff s c e).mp he).1
    · intro e he
      exact h.right _ _ ((mem_entriesIn_iff t c e).mp he).1
  · intro heq
    have hlen := congrArg List.length heq
    simp only [entriesIn, List.length_map] at hlen
    exact ⟨by rw [heq], hlen.symm⟩

/-- A range of a request, with the details of the operations in it. -/
structure Piece where
  bounds : Bound × Bound
  details : StoredOperation → OperationDetailsLevel

def Piece.Has (p : Piece) (id : ℕ) : Prop := inRange p.bounds.1 p.bounds.2 id = true

def Piece.message (store : MemoryPendingStore) (p : Piece) : PendingSyncRange :=
  rangeMessage store none p.details p.bounds

/-- The ids of the operations that are sent in full. -/
def Piece.fullIds (store : MemoryPendingStore) (p : Piece) : List ℕ :=
  (sentWith .full store none p.details p.bounds).map StoredOperation.operationId

def Piece.headerIds (store : MemoryPendingStore) (p : Piece) : List ℕ :=
  (sentWith .header store none p.details p.bounds).map StoredOperation.operationId

section Rank
variable (sender receiver : MemoryPendingStore) (p : Piece)

/-- With the operations it is sent, the receiver has what the sender has. -/
def Settled : Prop := ∀ id, p.Has id → id ∉ p.fullIds sender →
  frameOf receiver id = frameOf sender id

/-- Every operation of the range is sent, by its header or in full. -/
def Described : Prop := ∀ op ∈ visible sender none p.bounds, p.details op ≠ .none

/-- The receiver has the operations that are not sent in full. -/
def Delivered : Prop := ∀ op ∈ visible sender none p.bounds, p.details op ≠ .full →
  frameOf receiver op.operationId = some op.frame

/-- The number of answers the range may still need. -/
def Rank : ℕ → Prop
  | 0 => Settled sender receiver p
  | 1 => Settled sender receiver p ∨ Described sender p ∧ Delivered sender receiver p
  | 2 => Settled sender receiver p ∨ Described sender p
  | _ => Settled sender receiver p ∨ Described sender p ∨ ∀ op, p.details op = .none

theorem rank_of_settled (n : ℕ) (h : Settled sender receiver p) : Rank sender receiver p n := by
  rcases n with _ | _ | _ | n
  · exact h
  · exact Or.inl h
  · exact Or.inl h
  · exact Or.inl h

theorem mem_fullIds_iff (id : ℕ) : id ∈ p.fullIds sender ↔
    ∃ op ∈ visible sender none p.bounds, p.details op = .full ∧ op.operationId = id := by
  simp only [Piece.fullIds, sentWith, List.mem_map, List.mem_filter, decide_eq_true_eq]
  constructor
  · rintro ⟨op, ⟨hop, hd⟩, hid⟩
    exact ⟨op, hop, hd, hid⟩
  · rintro ⟨op, hop, hd, hid⟩
    exact ⟨op, ⟨hop, hd⟩, hid⟩

theorem mem_headerIds_iff (id : ℕ) : id ∈ p.headerIds sender ↔
    ∃ op ∈ visible sender none p.bounds, p.details op = .header ∧ op.operationId = id := by
  simp only [Piece.headerIds, sentWith, List.mem_map, List.mem_filter, decide_eq_true_eq]
  constructor
  · rintro ⟨op, ⟨hop, hd⟩, hid⟩
    exact ⟨op, hop, hd, hid⟩
  · rintro ⟨op, hop, hd, hid⟩
    exact ⟨op, ⟨hop, hd⟩, hid⟩

end Rank

/-- A range only depends on what the sender has in it. -/
theorem rank_congr (s s' t : MemoryPendingStore) (p : Piece) (n : ℕ)
    (h : ∀ id, p.Has id → s.getOperation id = s'.getOperation id) (hr : Rank s t p n) :
    Rank s' t p n := by
  have hvisible : visible s none p.bounds = visible s' none p.bounds :=
    visible_congr s s' none p.bounds h
  have hfull : p.fullIds s = p.fullIds s' := by
    rw [Piece.fullIds, Piece.fullIds, sentWith, sentWith, hvisible]
  have hsettled : Settled s t p → Settled s' t p := by
    intro hs id hid hnot
    have hframe : frameOf s id = frameOf s' id := by rw [frameOf, frameOf, h id hid]
    rw [← hframe]
    exact hs id hid (hfull ▸ hnot)
  have hdescribed : Described s p → Described s' p := by
    intro hd op hop
    exact hd op (hvisible ▸ hop)
  have hdelivered : Delivered s t p → Delivered s' t p := by
    intro hd op hop
    exact hd op (hvisible ▸ hop)
  rcases n with _ | _ | _ | n
  · exact hsettled hr
  · exact hr.imp hsettled (And.imp hdescribed hdelivered)
  · exact hr.imp hsettled hdescribed
  · exact hr.imp hsettled (Or.imp hdescribed id)

/-- And on what the receiver has in it. -/
theorem rank_congr_receiver (s t t' : MemoryPendingStore) (p : Piece) (n : ℕ)
    (h : ∀ id, p.Has id → t.getOperation id = t'.getOperation id) (hr : Rank s t p n) :
    Rank s t' p n := by
  have hframe : ∀ id, p.Has id → frameOf t id = frameOf t' id := by
    intro id hid
    rw [frameOf, frameOf, h id hid]
  have hsettled : Settled s t p → Settled s t' p := by
    intro hs id hid hnot
    rw [← hframe id hid]
    exact hs id hid hnot
  have hdelivered : Delivered s t p → Delivered s t' p := by
    intro hd op hop hdet
    rw [← hframe _ ((mem_visible_none_iff s p.bounds op).mp hop).2]
    exact hd op hop hdet
  rcases n with _ | _ | _ | n
  · exact hsettled hr
  · exact hr.imp hsettled (And.imp_right hdelivered)
  · exact hr.imp_left hsettled
  · exact hr.imp_left hsettled

theorem message_congr (s s' : MemoryPendingStore) (p : Piece)
    (h : ∀ id, p.Has id → s.getOperation id = s'.getOperation id) :
    p.message s = p.message s' := by
  rw [Piece.message, Piece.message, rangeMessage, rangeMessage, describeRange, describeRange,
    visible_congr s s' none p.bounds h]

/-- The ranges are readable, apart from each other, and together have these ids. -/
structure Tiles (has : ℕ → Prop) (pieces : List Piece) : Prop where
  read : ∀ p ∈ pieces, BoundsRead p.bounds.1 p.bounds.2
  inside : ∀ p ∈ pieces, ∀ id, p.Has id → has id
  apart : pieces.Pairwise fun p q => ∀ id, p.Has id → ¬ q.Has id
  cover : ∀ id, has id → ∃ p ∈ pieces, p.Has id

theorem tiles_append (has has' : ℕ → Prop) (ps qs : List Piece) (hp : Tiles has ps)
    (hq : Tiles has' qs) (hapart : ∀ id, has id → ¬ has' id) :
    Tiles (fun id => has id ∨ has' id) (ps ++ qs) := by
  refine ⟨?_, ?_, ?_, ?_⟩
  · intro p hmem
    rcases List.mem_append.mp hmem with hmem | hmem
    · exact hp.read p hmem
    · exact hq.read p hmem
  · intro p hmem id hid
    rcases List.mem_append.mp hmem with hmem | hmem
    · exact Or.inl (hp.inside p hmem id hid)
    · exact Or.inr (hq.inside p hmem id hid)
  · refine List.pairwise_append.mpr ⟨hp.apart, hq.apart, ?_⟩
    intro p hpmem q hqmem id hid hid'
    exact hapart id (hp.inside p hpmem id hid) (hq.inside q hqmem id hid')
  · rintro id (hid | hid)
    · obtain ⟨p, hmem, hhas⟩ := hp.cover id hid
      exact ⟨p, List.mem_append_left _ hmem, hhas⟩
    · obtain ⟨p, hmem, hhas⟩ := hq.cover id hid
      exact ⟨p, List.mem_append_right _ hmem, hhas⟩

theorem tiles_of_cuts (min : ℕ) (hmin : 1 ≤ min) (c : Bound × Bound) (cuts : List (Bound × Bound))
    (hcuts : Cuts min c.1 c.2 cuts) (hb : BoundsRead c.1 c.2)
    (details : StoredOperation → OperationDetailsLevel) :
    Tiles (fun id => inRange c.1 c.2 id = true) (cuts.map fun cut => ⟨cut, details⟩) := by
  refine ⟨?_, ?_, ?_, ?_⟩
  · intro p hp
    obtain ⟨cut, hcut, rfl⟩ := List.mem_map.mp hp
    exact cuts_boundsRead min hmin c.1 c.2 cuts hcuts hb cut hcut
  · intro p hp id hid
    obtain ⟨cut, hcut, rfl⟩ := List.mem_map.mp hp
    exact cuts_inside min c.1 c.2 cuts hcuts cut hcut id hid
  · refine List.pairwise_map.mpr ((cuts_disjoint min c.1 c.2 cuts hcuts).imp ?_)
    intro cut cut' h id hid hid'
    rw [Piece.Has, h id hid] at hid'
    contradiction
  · intro id hid
    obtain ⟨cut, hcut, hin⟩ := cuts_cover min c.1 c.2 cuts hcuts id hid
    exact ⟨⟨cut, details⟩, List.mem_map_of_mem hcut, hin⟩

theorem diffDetails_append (remoteIds included : List ℕ) :
    diffDetails remoteIds included = diffDetails (remoteIds ++ included) [] := by
  funext op
  simp [diffDetails]

/-- The answer of a diff only leaves out in full what the sender has. -/
theorem delivered_of_diff (frames : ℕ → Option OperationFrame)
    (sender receiver : MemoryPendingStore) (hshare : Share frames sender receiver)
    (cut : Bound × Bound) (known : List ℕ)
    (hknown : ∀ id ∈ known, ∃ f, frameOf sender id = some f) :
    Delivered receiver sender ⟨cut, diffDetails known []⟩ := by
  intro op hop hd
  obtain ⟨hget, -⟩ := (mem_visible_none_iff receiver cut op).mp hop
  have hmem : op.operationId ∈ known := by
    by_contra hnot
    exact hd (by simp [diffDetails, hnot])
  obtain ⟨f, hf⟩ := hknown _ hmem
  have hop' : frameOf receiver op.operationId = some op.frame := by
    rw [frameOf, hget, Option.map_some]
  rw [hf, share_agree frames sender receiver hshare _ f op.frame hf hop']

section Ranks
variable (frames : ℕ → Option OperationFrame) (sender receiver : MemoryPendingStore)
  (hshare : Share frames sender receiver) (p : Piece) (cut : Bound × Bound)
  (hcut : ∀ id, inRange cut.1 cut.2 id = true → p.Has id)

include hcut

/-- A range of the sender that is empty is answered with everything. -/
theorem settled_of_empty (hempty : visible sender none p.bounds = []) :
    Settled receiver sender ⟨cut, fun _ => .full⟩ := by
  intro id hid hnot
  have hsender : frameOf sender id = none := by
    cases hf : frameOf sender id with
    | none => rfl
    | some f =>
      have hmem := (mem_ids_iff sender p.bounds id).mpr ⟨⟨f, hf⟩, hcut id hid⟩
      rw [hempty] at hmem
      contradiction
  cases hf : frameOf receiver id with
  | none => exact hsender
  | some f =>
    obtain ⟨op, hget, hopId, -⟩ := (frameOf_eq_some receiver id f).mp hf
    exfalso
    apply hnot
    rw [mem_fullIds_iff]
    refine ⟨op, (mem_visible_none_iff receiver cut op).mpr ⟨hopId ▸ hget, ?_⟩, rfl, hopId⟩
    exact hopId ▸ hid

include hshare

/-- When the receiver misses nothing, the answer of its diff settles the range. -/
theorem settled_of_diff (known : List ℕ)
    (hknown : ∀ id ∈ known, ∃ f, frameOf sender id = some f)
    (hmiss : ∀ id f, p.Has id → frameOf sender id = some f → frameOf receiver id = some f) :
    Settled receiver sender ⟨cut, diffDetails known []⟩ := by
  intro id hid hnot
  cases hf : frameOf receiver id with
  | none =>
    cases hs : frameOf sender id with
    | none => rfl
    | some f =>
      rw [hmiss id f (hcut id hid) hs] at hf
      contradiction
  | some f =>
    obtain ⟨op, hget, hopId, hopFrame⟩ := (frameOf_eq_some receiver id f).mp hf
    have hop : op ∈ visible receiver none cut :=
      (mem_visible_none_iff receiver cut op).mpr ⟨hopId ▸ hget, hopId ▸ hid⟩
    have hd : diffDetails known [] op ≠ .full := by
      intro hfull
      exact hnot ((mem_fullIds_iff _ _ _).mpr ⟨op, hop, hfull, hopId⟩)
    have hdelivered :=
      delivered_of_diff frames sender receiver hshare cut known hknown op hop hd
    rw [← hopId, hdelivered, hopFrame]

end Ranks

end Exocore.Engine
