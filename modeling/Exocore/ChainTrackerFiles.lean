import Exocore.ChainTracker
import Exocore.LibRun

/-! The maps of the segment files, each with the tracker, and what the calls on a directory chain
store make of both. The offsets that decide between the calls, and the bytes, are left aside. -/
namespace Exocore.Chain.Tracking

/-- A segment that is open for reading only knows its map, which others own. -/
inductive SegmentMmap where
  | write
  | read (map : ℕ)
  | closed
deriving DecidableEq

structure SegmentFile where
  registeredSegment : ℕ
  mmap : SegmentMmap
deriving DecidableEq

/-- How a call on a segment file ends: whether it returned `Ok`, and what it leaves. -/
structure Outcome where
  ok : Bool
  tracker : SegmentTracker
  file : SegmentFile

/-- The map can be upgraded while the tracker or a reader holds it. -/
def upgrades (env : Env) (t : SegmentTracker) (map : ℕ) : Bool := t.owns map || map ∈ env.held

namespace SegmentFile

/-- `newMap` is the number of the map, if one is made. -/
def maybeMmapRead (env : Env) (newMap : ℕ) (t : SegmentTracker) (f : SegmentFile) : Outcome :=
  let t := t.access f.registeredSegment
  let openRead : Outcome :=
    if env.succeeds then
      ⟨true, t.openRead env f.registeredSegment newMap, { f with mmap := .read newMap }⟩
    else ⟨false, t, f⟩
  match f.mmap with
  | .read map => if upgrades env t map then ⟨true, t, f⟩ else openRead
  | .write => ⟨true, t, f⟩
  | .closed => openRead

def maybeMmapWrite (env : Env) (t : SegmentTracker) (f : SegmentFile) : Outcome :=
  let t := t.access f.registeredSegment
  let openWrite (t : SegmentTracker) : Outcome :=
    if env.succeeds then
      ⟨true, t.openWrite env f.registeredSegment, { f with mmap := .write }⟩
    else ⟨false, t, f⟩
  match f.mmap with
  | .write => ⟨true, t, f⟩
  | .read map =>
    let t := if upgrades env t map then t.close f.registeredSegment else t
    -- still open: a reader holds it
    if upgrades env t map then ⟨false, t, f⟩ else openWrite t
  | .closed => openWrite t

/-- The tracker is not told. -/
def closeWrite (f : SegmentFile) : SegmentFile :=
  if f.mmap = .write then { f with mmap := .closed } else f

/-- `set_len` of a file maps it anew around the change of its length. -/
def setLen (env : ℕ → Env) (t : SegmentTracker) (f : SegmentFile) : Outcome :=
  let first := f.maybeMmapWrite (env 0) t
  if first.ok then
    let t := first.tracker.close first.file.registeredSegment
    let f := { first.file with mmap := .closed }
    if (env 1).succeeds then f.maybeMmapWrite (env 2) t else ⟨false, t, f⟩
  else first

end SegmentFile

/-- The segments of a store in their order, and its tracker. The numbers of the segments whose
files were deleted are not part of the source. -/
structure DirectoryChainStore where
  segments : List SegmentFile
  segmentTracker : SegmentTracker
  nextMap : ℕ
  deleted : List ℕ

namespace DirectoryChainStore

def create (maxOpen : ℕ) : DirectoryChainStore := ⟨[], SegmentTracker.new maxOpen, 0, []⟩

/-- A call on one of the segments. -/
def onSegment (s : DirectoryChainStore) (index : ℕ)
    (call : SegmentTracker → SegmentFile → Outcome) : Bool × DirectoryChainStore :=
  match s.segments[index]? with
  | none => (false, s)
  | some f =>
    let outcome := call s.segmentTracker f
    (outcome.ok,
      { s with segments := s.segments.set index outcome.file, segmentTracker := outcome.tracker })

/-- The reading of a block, which is in this segment. -/
def getBlock (env : ℕ → Env) (index : ℕ) (s : DirectoryChainStore) : Bool × DirectoryChainStore :=
  { s with nextMap := s.nextMap + 1 }.onSegment index
    fun t f => f.maybeMmapRead (env 0) s.nextMap t

/-- The writing of a block to the last segment, whose file may have to grow for it. -/
def writeBlock (env : ℕ → Env) (grow : Bool) (s : DirectoryChainStore) :
    Bool × DirectoryChainStore :=
  let last := s.segments.length - 1
  let grown := if grow then s.onSegment last fun t f => f.setLen env t else (true, s)
  if grown.1 then grown.2.onSegment last fun t f => f.maybeMmapWrite (env 3) t else grown

/-- The writing of a block that needs a new segment. -/
def rollOver (env : ℕ → Env) (s : DirectoryChainStore) : Bool × DirectoryChainStore :=
  let closed := (s.onSegment (s.segments.length - 1) fun t f => ⟨true, t, f.closeWrite⟩).2
  -- the file of the new segment may be there already, or not be opened
  if (env 0).succeeds then
    let (id, t) := closed.segmentTracker.register
    let written := SegmentFile.maybeMmapWrite (env 1) t ⟨id, .closed⟩
    if written.ok then
      let opened := written.file.maybeMmapWrite (env 2) written.tracker
      if opened.ok then
        (true, { closed with
          segments := closed.segments ++ [opened.file]
          segmentTracker := opened.tracker })
      else (false, { closed with segmentTracker := opened.tracker })
    else (false, { closed with segmentTracker := written.tracker })
  else (false, closed)

/-- The segment that a truncation falls in is cut, unless it falls on its beginning. -/
def cutAt (env : ℕ → Env) (index : ℕ) (cut : Bool) (s : DirectoryChainStore) :
    Bool × DirectoryChainStore :=
  if cut then s.onSegment index fun t f => f.setLen env t else (true, s)

/-- The segments from here on are dropped, and their files deleted up to the first error. -/
def deleteFrom (env : ℕ → Env) (keep : ℕ) (s : DirectoryChainStore) :
    Bool × DirectoryChainStore :=
  let removed := s.segments.drop keep
  let deleted := (List.range removed.length).takeWhile fun k => (env k).succeeds
  (decide (deleted.length = removed.length),
    { s with
      segments := s.segments.take keep
      deleted := s.deleted ++ (removed.take deleted.length).map (·.registeredSegment) })

/-- Up to the blocks that are read again for the index. -/
def truncateFromOffset (env : ℕ → Env) (index : ℕ) (cut : Bool) (s : DirectoryChainStore) :
    Bool × DirectoryChainStore :=
  if index < s.segments.length then
    let wasCut := s.cutAt env index cut
    if wasCut.1 then
      wasCut.2.deleteFrom (fun k => env (k + 3)) (if cut then index + 1 else index)
    else wasCut
  else (false, s)

end DirectoryChainStore

/-- The calls on a store: of a block only the segment matters that it is in. What a truncation
reads again are further calls. -/
inductive Call where
  | getBlock (index : ℕ)
  | writeBlock (grow : Bool)
  | rollOver
  | truncateFromOffset (index : ℕ) (cut : Bool)

/-- A call, and what it finds around the store. -/
structure Move where
  call : Call
  env : ℕ → Env

open Exocore.Chain.Tracking.DirectoryChainStore in
def perform (s : DirectoryChainStore) (m : Move) : Bool × DirectoryChainStore :=
  match m.call with
  | .getBlock index => s.getBlock m.env index
  | .writeBlock grow => s.writeBlock m.env grow
  | .rollOver => s.rollOver m.env
  | .truncateFromOffset index cut => s.truncateFromOffset m.env index cut

def step (s : DirectoryChainStore) (m : Move) : DirectoryChainStore := (perform s m).2

/-- The store while it is opened: segments whose metadata is known are only registered, the
others are first read through a file of their own, which is registered too and then dropped. -/
inductive Scanned (maxOpen : ℕ) : DirectoryChainStore → Prop
  | empty : Scanned maxOpen (.create maxOpen)
  | register {s : DirectoryChainStore} (h : Scanned maxOpen s) : Scanned maxOpen
      { s with
        segments := s.segments ++ [⟨s.segmentTracker.register.1, .closed⟩]
        segmentTracker := s.segmentTracker.register.2 }
  | scan {s : DirectoryChainStore} (h : Scanned maxOpen s) (envs : List Env) : Scanned maxOpen
      { s with
        segmentTracker := (envs.foldl (fun (o : Outcome) env => o.file.maybeMmapRead env s.nextMap
          o.tracker) ⟨true, s.segmentTracker.register.2,
            ⟨s.segmentTracker.register.1, .closed⟩⟩).tracker
        nextMap := s.nextMap + 1 }
  | sort {s : DirectoryChainStore} (h : Scanned maxOpen s) (segments : List SegmentFile)
      (hperm : segments.Perm s.segments) : Scanned maxOpen { s with segments := segments }

/-- A store that was created, or opened with its last segment mapped for writing. -/
inductive Initial (maxOpen : ℕ) : DirectoryChainStore → Prop
  | created : Initial maxOpen (.create maxOpen)
  | openedEmpty {s : DirectoryChainStore} (h : Scanned maxOpen s) (hnil : s.segments = []) :
      Initial maxOpen s
  | opened {s : DirectoryChainStore} (h : Scanned maxOpen s) (env : Env)
      (hok : (s.onSegment (s.segments.length - 1) fun t f => f.maybeMmapWrite env t).1) :
      Initial maxOpen (s.onSegment (s.segments.length - 1) fun t f => f.maybeMmapWrite env t).2

end Exocore.Chain.Tracking
