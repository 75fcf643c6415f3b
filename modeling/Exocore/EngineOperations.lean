import Exocore.ChainHolds
import Exocore.ChainValidate

/-! The iterator over the operations of the chain. Each call reads the chain as it is at that
moment, and blocks are written between two calls. -/
namespace Exocore.Engine

open Exocore.Core Exocore.Chain

inductive EngineOperationStatus where
  | committed (offset height : ℕ)
  | pending
deriving DecidableEq

structure EngineOperation [Crates] where
  operationId : ℕ
  status : EngineOperationStatus
  operationFrame : OperationFrame
deriving DecidableEq

/-- A chain store holds finitely many blocks, and no empty ones. -/
class FiniteChainStore (CS : Type) extends ChainStore CS where
  stop : CS → ℕ
  getBlock_lt : ∀ {s : CS} {offset : ℕ} {b : DataBlock}, getBlock s offset = .ok b → offset < stop s
  getBlock_pos : ∀ {s : CS} {offset : ℕ} {b : DataBlock}, getBlock s offset = .ok b →
    0 < b.totalSize

/-- The operations are kept with the next one last. -/
structure ChainOperationsIterator [Crates] where
  nextOffset : ℕ
  currentOperations : List EngineOperation

namespace ChainOperationsIterator
variable [Crates]

def new (fromOffset : Option ℕ) : ChainOperationsIterator := ⟨fromOffset.getD 0, []⟩

/-- The loop over the operations of a block. A frame that cannot be read ends the block's
iterator, an operation that cannot be read ends the fetch, with what was pushed before. -/
def pushOperations (block : DataBlock) (height : ℕ) :
    List BlockOperationHeader → List EngineOperation → Res EngineError Unit × List EngineOperation
  | [], operations => (.ok (), operations)
  | header :: headers, operations => match header.readFrame block.operationsData with
    | .error .panic => (.error .panic, operations)
    | .error (.error _) => (.ok (), operations)
    | .ok operation => match operation.frame.reader with
      | none => (.error (.error .serialization), operations)
      | some reader => pushOperations block height headers (operations ++
          [⟨reader.operationId, .committed block.offset height, operation⟩])

variable {CS : Type} [FiniteChainStore CS]

/-- One round of the loop over the blocks. -/
def fetchBlock (chain : CS) (it : ChainOperationsIterator) :
    Res EngineError Unit × ChainOperationsIterator :=
  match ChainStore.getBlock chain it.nextOffset with
  | .error e => (.error (e.map .chainStore), it)
  | .ok block => match block.getHeight, block.operationsHeader with
    | .error e, _ => (.error (e.map .block), it)
    | .ok _, .error e => (.error (e.map .block), it)
    | .ok height, .ok headers => match pushOperations block height headers it.currentOperations with
      | (.error e, operations) => (.error e, { it with currentOperations := operations })
      | (.ok (), operations) => (.ok (), ⟨block.nextOffset, operations.reverse⟩)

/-- None where the loop goes on for more blocks than the argument. -/
def fetchNextBlock (chain : CS) :
    ℕ → ChainOperationsIterator → Option (Res EngineError Unit × ChainOperationsIterator)
  | 0, it => if it.currentOperations.isEmpty then none else some (.ok (), it)
  | fuel + 1, it =>
    if it.currentOperations.isEmpty then match it.fetchBlock chain with
      | (.error e, it') => some (.error e, it')
      | (.ok (), it') => fetchNextBlock chain fuel it'
    else some (.ok (), it)

def pop (it : ChainOperationsIterator) : Option EngineOperation × ChainOperationsIterator :=
  (it.currentOperations.getLast?, { it with currentOperations := it.currentOperations.dropLast })

/-- None where the call does not return: it panics, or it reads more blocks than there are and so
reads one again, and again. -/
def next (chain : CS) (it : ChainOperationsIterator) :
    Option (Option EngineOperation × ChainOperationsIterator) :=
  if it.currentOperations.isEmpty then
    match it.fetchNextBlock chain (FiniteChainStore.stop chain + 1) with
    | none | some (.error .panic, _) => none
    | some (.error (.error (.chainStore (.outOfBound _))), it') => some (none, it')
    | some (_, it') => some it'.pop
  else some it.pop

end ChainOperationsIterator

section Chain
variable {CS : Type} [FiniteChainStore CS]

/-- The blocks that follow each other from an offset on, with their places, up to where no block
can be read. -/
def storedFrom (chain : CS) (offset : ℕ) : List (ℕ × DataBlock) :=
  match _h : ChainStore.getBlock chain offset with
  | .error _ => []
  | .ok block => (offset, block) :: storedFrom chain (offset + block.totalSize)
termination_by FiniteChainStore.stop chain - offset
decreasing_by
  have hlt := FiniteChainStore.getBlock_lt _h
  have hpos := FiniteChainStore.getBlock_pos _h
  omega

theorem storedFrom_ok {chain : CS} {offset : ℕ} {block : DataBlock}
    (h : ChainStore.getBlock chain offset = .ok block) :
    storedFrom chain offset = (offset, block) :: storedFrom chain (offset + block.totalSize) := by
  rw [storedFrom]
  split
  · rename_i e he
    rw [h] at he
    cases he
  · rename_i block' hblock
    rw [h] at hblock
    cases hblock
    rfl

theorem storedFrom_error {chain : CS} {offset : ℕ} {e : Fault ChainError}
    (h : ChainStore.getBlock chain offset = .error e) : storedFrom chain offset = [] := by
  rw [storedFrom]
  split
  · rfl
  · rename_i block hblock
    rw [h] at hblock
    cases hblock

/-- The place behind blocks that follow each other. -/
def placeBehind (offset : ℕ) (blocks : List (ℕ × DataBlock)) : ℕ :=
  offset + (blocks.map fun x => x.2.totalSize).sum

@[simp] theorem placeBehind_nil (offset : ℕ) : placeBehind offset [] = offset := rfl

@[simp] theorem placeBehind_cons (offset : ℕ) (x : ℕ × DataBlock) (blocks : List (ℕ × DataBlock)) :
    placeBehind offset (x :: blocks) = placeBehind (offset + x.2.totalSize) blocks := by
  simp only [placeBehind, List.map_cons, List.sum_cons]
  omega

theorem placeBehind_append (offset : ℕ) (l r : List (ℕ × DataBlock)) :
    placeBehind offset (l ++ r) = placeBehind (placeBehind offset l) r := by
  simp only [placeBehind, List.map_append, List.sum_append]
  omega

/-- Blocks at the front of those from an offset are followed by those from the place behind. -/
theorem storedFrom_split {chain : CS} {offset : ℕ} {l r : List (ℕ × DataBlock)}
    (h : storedFrom chain offset = l ++ r) : r = storedFrom chain (placeBehind offset l) := by
  induction l generalizing offset with
  | nil => exact h.symm
  | cons x l ih =>
    cases hget : ChainStore.getBlock chain offset with
    | error e =>
      rw [storedFrom_error hget] at h
      cases h
    | ok block =>
      rw [storedFrom_ok hget, List.cons_append, List.cons.injEq] at h
      rw [placeBehind_cons, ← h.1]
      exact ih h.2

end Chain

section Headers
variable {block : DataBlock} {e : Fault BlockError}

/-- A header that cannot be read is an error, and no panic. -/
theorem headerReader_error (h : block.headerReader = .error e) : ∃ e', e = .error e' := by
  unfold DataBlock.headerReader at h
  cases hreader : block.header.reader with
  | none =>
    rw [hreader] at h
    exact ⟨.serialization, (Except.error.inj h).symm⟩
  | some reader =>
    rw [hreader] at h
    cases h

theorem getHeight_error (h : block.getHeight = .error e) : ∃ e', e = .error e' := by
  unfold DataBlock.getHeight at h
  cases hreader : block.headerReader with
  | error e' =>
    rw [hreader] at h
    cases h
    exact headerReader_error hreader
  | ok reader =>
    rw [hreader] at h
    cases h

theorem operationsHeader_error (h : block.operationsHeader = .error e) : ∃ e', e = .error e' := by
  unfold DataBlock.operationsHeader at h
  cases hreader : block.headerReader with
  | error e' =>
    rw [hreader] at h
    cases h
    exact headerReader_error hreader
  | ok reader =>
    rw [hreader, ok_bind] at h
    cases hheaders : reader.operationsHeader with
    | none =>
      rw [hheaders] at h
      exact ⟨.serialization, (Except.error.inj h).symm⟩
    | some headers =>
      rw [hheaders] at h
      cases h

end Headers

section Operations
variable [Crates]

/-- An operation of a block as it is yielded, none where it cannot be read. -/
def engineOperation (offset height : ℕ) (block : DataBlock) (header : BlockOperationHeader) :
    Option EngineOperation :=
  match header.readFrame block.operationsData with
  | .error _ => none
  | .ok operation => operation.frame.reader.map fun reader =>
    ⟨reader.operationId, .committed offset height, operation⟩

/-- The operations of a block that can be read, with the place and the height of the block. -/
def blockOperations (x : ℕ × DataBlock) : List EngineOperation :=
  match x.2.getHeight, x.2.operationsHeader with
  | .ok height, .ok headers => headers.filterMap (engineOperation x.1 height x.2)
  | _, _ => []

def operationsOf (blocks : List (ℕ × DataBlock)) : List EngineOperation :=
  blocks.flatMap blockOperations

@[simp] theorem operationsOf_append (l r : List (ℕ × DataBlock)) :
    operationsOf (l ++ r) = operationsOf l ++ operationsOf r := List.flatMap_append

/-- The operation can be read, whatever the place and the height it is given. -/
def Reads (block : DataBlock) (header : BlockOperationHeader) : Prop :=
  ∃ operation reader, header.readFrame block.operationsData = .ok operation ∧
    operation.frame.reader = some reader

/-- All of a block can be read. -/
def Readable (block : DataBlock) : Prop :=
  ∃ height headers, block.getHeight = .ok height ∧ block.operationsHeader = .ok headers ∧
    ∀ header ∈ headers, Reads block header

/-- An operation behind others that can be read has a frame that can be read, and cannot be read
itself. -/
def BreaksOff (block : DataBlock) : Prop :=
  ∃ read header rest operation, block.operationsHeader = .ok (read ++ header :: rest) ∧
    read ≠ [] ∧ (∀ h ∈ read, Reads block h) ∧
    header.readFrame block.operationsData = .ok operation ∧ operation.frame.reader = none

/-- The place of an operation, behind others that can be read, is not inside the data. -/
def Panics (block : DataBlock) : Prop :=
  ∃ read header rest, block.operationsHeader = .ok (read ++ header :: rest) ∧
    (∀ h ∈ read, Reads block h) ∧ header.readFrame block.operationsData = .error .panic

/-- A block without operations, or whose first one is in a frame that cannot be read. -/
def Skips (block : DataBlock) : Prop :=
  ∃ height headers, block.getHeight = .ok height ∧ block.operationsHeader = .ok headers ∧
    ∀ header ∈ headers.head?, ∃ e, header.readFrame block.operationsData = .error (.error e)

end Operations

section Runs
variable [Crates] {CS : Type} [FiniteChainStore CS]

/-- The blocks up to the first one with operations lie where their headers say, and none of them
breaks off or panics. -/
inductive FetchesWell (chain : CS) : ℕ → Prop where
  | unreadable {offset : ℕ} {e : ChainError}
      (h : ChainStore.getBlock chain offset = .error (.error e)) : FetchesWell chain offset
  | block {offset : ℕ} {block : DataBlock} (h : ChainStore.getBlock chain offset = .ok block)
      (hplace : block.offset = offset) (hwhole : ¬ BreaksOff block) (hslices : ¬ Panics block)
      (hnext : Skips block → FetchesWell chain (offset + block.totalSize)) :
      FetchesWell chain offset

/-- A chain, an iterator over it, and what the iterator yielded so far. -/
structure OperationsRun (CS : Type) where
  chain : CS
  iterator : ChainOperationsIterator
  yielded : List EngineOperation

namespace OperationsRun

inductive Event where
  | write (block : DataBlock)
  | next

def start (chain : CS) (fromOffset : Option ℕ) : OperationsRun CS :=
  ⟨chain, .new fromOffset, []⟩

def step (s : OperationsRun CS) : Event → OperationsRun CS
  | .write block => { s with chain := (ChainStore.writeBlock s.chain block).2 }
  | .next => match s.iterator.next s.chain with
    | none => s
    | some (operation, it) => { s with iterator := it, yielded := s.yielded ++ operation.toList }

omit [FiniteChainStore CS] in
@[simp] theorem start_chain (chain : CS) (fromOffset : Option ℕ) :
    (start chain fromOffset).chain = chain := rfl

@[simp] theorem step_write_chain (s : OperationsRun CS) (block : DataBlock) :
    (s.step (.write block)).chain = (ChainStore.writeBlock s.chain block).2 := rfl

@[simp] theorem step_write_iterator (s : OperationsRun CS) (block : DataBlock) :
    (s.step (.write block)).iterator = s.iterator := rfl

@[simp] theorem step_next_chain (s : OperationsRun CS) : (s.step .next).chain = s.chain := by
  rw [step]
  split <;> rfl

/-- What is promised of a call of `next`: it returns, what was yielded are operations of the
blocks from the starting one on, in their order and each once, and as long as all of these blocks
can be read none is left out, and the iterator ends only behind the last one. -/
def Faithful (fromOffset : Option ℕ) (s : OperationsRun CS) : Event → Prop
  | .write _ => True
  | .next => ∃ operation it, s.iterator.next s.chain = some (operation, it) ∧
    let blocks := storedFrom s.chain (fromOffset.getD 0)
    let yielded := s.yielded ++ operation.toList
    yielded.Sublist (operationsOf blocks) ∧
      ((∀ x ∈ blocks, Readable x.2) → yielded <+: operationsOf blocks ∧
        (operation = none → yielded = operationsOf blocks))

theorem Faithful.yielded {fromOffset : Option ℕ} {s : OperationsRun CS}
    (h : Faithful fromOffset s .next) : (s.step .next).yielded.Sublist
      (operationsOf (storedFrom s.chain (fromOffset.getD 0))) := by
  obtain ⟨operation, it, hnext, hsublist, -⟩ := h
  rw [step, hnext]
  exact hsublist

/-- A write only adds blocks behind those from the starting one on, and a call of `next` fetches
well when no operation is left over from the call before. -/
def Careful (fromOffset : Option ℕ) (s : OperationsRun CS) : Event → Prop
  | .write block => storedFrom s.chain (fromOffset.getD 0) <+:
    storedFrom (ChainStore.writeBlock s.chain block).2 (fromOffset.getD 0)
  | .next => s.iterator.currentOperations = [] → FetchesWell s.chain s.iterator.nextOffset

end OperationsRun

end Runs

section Listed
variable [Crates]

theorem Reads.operation {block : DataBlock} {header : BlockOperationHeader}
    (h : Reads block header) (offset height : ℕ) :
    ∃ operation, engineOperation offset height block header = some operation := by
  obtain ⟨operation, reader, hframe, hreader⟩ := h
  refine ⟨⟨reader.operationId, .committed offset height, operation⟩, ?_⟩
  simp only [engineOperation, hframe, hreader, Option.map_some]

/-- The operations are some of those of the blocks, and all of them if these can be read. -/
def Listed (blocks : List (ℕ × DataBlock)) (operations : List EngineOperation) : Prop :=
  operations.Sublist (operationsOf blocks) ∧
    ((∀ x ∈ blocks, Readable x.2) → operations = operationsOf blocks)

theorem listed_nil : Listed [] [] := ⟨List.Sublist.refl [], fun _ => rfl⟩

theorem Listed.append {l r : List (ℕ × DataBlock)} {a b : List EngineOperation} (hl : Listed l a)
    (hr : Listed r b) : Listed (l ++ r) (a ++ b) := by
  unfold Listed
  rw [operationsOf_append]
  refine ⟨hl.1.append hr.1, ?_⟩
  intro hreadable
  have hleft := hl.2 fun x hx => hreadable x (List.mem_append_left r hx)
  have hright := hr.2 fun x hx => hreadable x (List.mem_append_right l hx)
  rw [hleft, hright]

/-- Where the loop over the operations of a block ends, and how. -/
theorem pushOperations_spec (block : DataBlock) (height : ℕ) (headers : List BlockOperationHeader)
    (operations : List EngineOperation) :
    ∃ read rest, headers = read ++ rest ∧ (∀ h ∈ read, Reads block h) ∧
      (ChainOperationsIterator.pushOperations block height headers operations).2 =
        operations ++ read.filterMap (engineOperation block.offset height block) ∧
      match (ChainOperationsIterator.pushOperations block height headers operations).1 with
      | .ok () => ∀ h ∈ rest.head?, ∃ e, h.readFrame block.operationsData = .error (.error e)
      | .error .panic => ∃ h ∈ rest.head?, h.readFrame block.operationsData = .error .panic
      | .error (.error _) => ∃ h ∈ rest.head?, ∃ operation,
        h.readFrame block.operationsData = .ok operation ∧ operation.frame.reader = none := by
  induction headers generalizing operations with
  | nil =>
    refine ⟨[], [], rfl, fun _ h => absurd h List.not_mem_nil, (List.append_nil _).symm, ?_⟩
    intro h hh
    cases hh
  | cons header headers ih =>
    rw [ChainOperationsIterator.pushOperations]
    cases hframe : header.readFrame block.operationsData with
    | error e =>
      refine ⟨[], header :: headers, rfl, fun _ h => absurd h List.not_mem_nil, ?_⟩
      cases e with
      | panic => exact ⟨(List.append_nil _).symm, header, rfl, hframe⟩
      | error e =>
        refine ⟨(List.append_nil _).symm, ?_⟩
        intro h hh
        cases hh
        exact ⟨e, hframe⟩
    | ok operation =>
      dsimp only
      cases hreader : operation.frame.reader with
      | none =>
        refine ⟨[], header :: headers, rfl, fun _ h => absurd h List.not_mem_nil, ?_⟩
        exact ⟨(List.append_nil _).symm, header, rfl, operation, hframe, hreader⟩
      | some reader =>
        have hone : engineOperation block.offset height block header =
            some ⟨reader.operationId, .committed block.offset height, operation⟩ := by
          simp only [engineOperation, hframe, hreader, Option.map_some]
        obtain ⟨read, rest, hheaders, hreads, hpushed, hend⟩ := ih (operations ++
          [⟨reader.operationId, .committed block.offset height, operation⟩])
        refine ⟨header :: read, rest, congrArg (header :: ·) hheaders, ?_, ?_, hend⟩
        · intro h hh
          rcases List.mem_cons.mp hh with rfl | hh
          · exact ⟨operation, reader, hframe, hreader⟩
          · exact hreads h hh
        · dsimp only
          rw [hpushed, List.filterMap_cons_some hone, List.append_assoc, List.singleton_append]

theorem Readable.reads {block : DataBlock} {headers : List BlockOperationHeader}
    {header : BlockOperationHeader} (h : Readable block)
    (hheaders : block.operationsHeader = .ok headers) (hmem : header ∈ headers) :
    Reads block header := by
  obtain ⟨-, headers', -, hheaders', hall⟩ := h
  rw [hheaders] at hheaders'
  cases hheaders'
  exact hall header hmem

section Pushed
variable {offset height : ℕ} {block : DataBlock} {read rest : List BlockOperationHeader}

/-- The operations of a block up to one whose frame is not there. -/
theorem listed_pushed (hheight : block.getHeight = .ok height)
    (hheaders : block.operationsHeader = .ok (read ++ rest))
    (hend : ∀ h ∈ rest.head?, ∃ e, h.readFrame block.operationsData = .error (.error e)) :
    Listed [(offset, block)] (read.filterMap (engineOperation offset height block)) := by
  have hoperations : operationsOf [(offset, block)] =
      read.filterMap (engineOperation offset height block) ++
        rest.filterMap (engineOperation offset height block) := by
    rw [operationsOf, List.flatMap_singleton]
    simp only [blockOperations, hheight, hheaders, List.filterMap_append]
  unfold Listed
  rw [hoperations]
  refine ⟨List.sublist_append_left _ _, fun hreadable => ?_⟩
  have hrest : rest = [] := by
    cases rest with
    | nil => rfl
    | cons header rest =>
      obtain ⟨e, he⟩ := hend header rfl
      have hmem : header ∈ read ++ header :: rest := List.mem_append_right read List.mem_cons_self
      obtain ⟨operation, -, hframe, -⟩ :=
        (hreadable _ List.mem_cons_self).reads hheaders hmem
      rw [he] at hframe
      cases hframe
  rw [hrest, List.filterMap_nil, List.append_nil]

theorem skips_of_pushed_nil (hheight : block.getHeight = .ok height)
    (hheaders : block.operationsHeader = .ok (read ++ rest)) (hreads : ∀ h ∈ read, Reads block h)
    (hend : ∀ h ∈ rest.head?, ∃ e, h.readFrame block.operationsData = .error (.error e))
    (hnone : read.filterMap (engineOperation offset height block) = []) : Skips block := by
  have hread : read = [] := by
    cases read with
    | nil => rfl
    | cons header read =>
      obtain ⟨operation, hoperation⟩ := (hreads header List.mem_cons_self).operation offset height
      rw [List.filterMap_cons_some hoperation] at hnone
      cases hnone
  refine ⟨height, read ++ rest, hheight, hheaders, ?_⟩
  rw [hread, List.nil_append]
  exact hend

/-- An error behind operations that were read would break the block off. -/
theorem unread_pushed (hwhole : ¬ BreaksOff block)
    (hheaders : block.operationsHeader = .ok (read ++ rest)) (hreads : ∀ h ∈ read, Reads block h)
    (hend : ∃ h ∈ rest.head?, ∃ operation, h.readFrame block.operationsData = .ok operation ∧
      operation.frame.reader = none) : read = [] ∧ ¬ Readable block := by
  obtain ⟨header, hhead, operation, hframe, hreader⟩ := hend
  obtain ⟨rest', rfl⟩ := List.head?_eq_some_iff.mp hhead
  refine ⟨?_, fun hreadable => ?_⟩
  · by_contra hsome
    exact hwhole ⟨read, header, rest', operation, hheaders, hsome, hreads, hframe, hreader⟩
  · obtain ⟨operation', reader, hframe', hreader'⟩ :=
      hreadable.reads hheaders (List.mem_append_right read List.mem_cons_self)
    cases hframe.symm.trans hframe'
    rw [hreader] at hreader'
    cases hreader'

end Pushed

variable {CS : Type} [FiniteChainStore CS] {chain : CS} {offset : ℕ}

/-- A block that lies where its header says and does not break off is read up to its end, or
nothing of it is kept. -/
theorem fetchBlock_cases {block : DataBlock}
    (h : ChainStore.getBlock chain offset = .ok block) (hplace : block.offset = offset)
    (hwhole : ¬ BreaksOff block) (hslices : ¬ Panics block) :
    (∃ e, ChainOperationsIterator.fetchBlock chain ⟨offset, []⟩ =
        (.error (.error e), ⟨offset, []⟩) ∧ ¬ Readable block) ∨
      ∃ operations, ChainOperationsIterator.fetchBlock chain ⟨offset, []⟩ =
          (.ok (), ⟨offset + block.totalSize, operations.reverse⟩) ∧
        Listed [(offset, block)] operations ∧ (operations = [] → Skips block) := by
  have hnext : block.nextOffset = offset + block.totalSize := by
    rw [DataBlock.nextOffset, hplace]
  unfold ChainOperationsIterator.fetchBlock
  rw [h]
  dsimp only
  cases hheight : block.getHeight with
  | error e =>
    obtain ⟨e', rfl⟩ := getHeight_error hheight
    refine Or.inl ⟨.block e', rfl, ?_⟩
    rintro ⟨height, -, hok, -⟩
    rw [hheight] at hok
    cases hok
  | ok height =>
    cases hheaders : block.operationsHeader with
    | error e =>
      obtain ⟨e', rfl⟩ := operationsHeader_error hheaders
      refine Or.inl ⟨.block e', rfl, ?_⟩
      rintro ⟨-, headers, -, hok, -⟩
      rw [hheaders] at hok
      cases hok
    | ok headers =>
      dsimp only
      obtain ⟨read, rest, rfl, hreads, hpushed, hend⟩ :=
        pushOperations_spec block height headers []
      rw [List.nil_append, hplace] at hpushed
      cases hresult : ChainOperationsIterator.pushOperations block height (read ++ rest) [] with
      | mk result operations =>
        rw [hresult] at hpushed hend
        dsimp only at hpushed hend ⊢
        cases result with
        | error e =>
          cases e with
          | panic =>
            obtain ⟨header, hhead, hpanic⟩ := hend
            obtain ⟨rest', rfl⟩ := List.head?_eq_some_iff.mp hhead
            exact absurd ⟨read, header, rest', hheaders, hreads, hpanic⟩ hslices
          | error e =>
            obtain ⟨hnone, hunreadable⟩ := unread_pushed hwhole hheaders hreads hend
            rw [hnone] at hpushed
            exact Or.inl ⟨e, by rw [hpushed]; rfl, hunreadable⟩
        | ok =>
          rw [hpushed]
          exact Or.inr ⟨_, by rw [hnext], listed_pushed hheight hheaders hend,
            skips_of_pushed_nil hheight hheaders hreads hend⟩

/-- What an iterator has yielded and what it holds are the operations of the blocks up to its
place. -/
def Reached (chain : CS) (start : ℕ) (it : ChainOperationsIterator)
    (yielded : List EngineOperation) : Prop :=
  ∃ blocks, storedFrom chain start = blocks ++ storedFrom chain it.nextOffset ∧
    it.nextOffset = placeBehind start blocks ∧
    Listed blocks (yielded ++ it.currentOperations.reverse)

theorem reached_start (chain : CS) (start : ℕ) : Reached chain start ⟨start, []⟩ [] :=
  ⟨[], rfl, rfl, listed_nil⟩

/-- A call that starts where another one ended, with nothing left over. -/
theorem Reached.trans {start : ℕ} {it it' : ChainOperationsIterator}
    {yielded : List EngineOperation} (h : Reached chain start it yielded)
    (hempty : it.currentOperations = []) (h' : Reached chain it.nextOffset it' []) :
    Reached chain start it' yielded := by
  obtain ⟨l, hblocks, hplace, hlisted⟩ := h
  obtain ⟨r, hblocks', hplace', hlisted'⟩ := h'
  rw [hempty, List.reverse_nil, List.append_nil] at hlisted
  refine ⟨l ++ r, ?_, ?_, hlisted.append hlisted'⟩
  · rw [hblocks, hblocks', List.append_assoc]
  · rw [hplace', hplace, placeBehind_append]

/-- A fetch ends with operations, or with an error and without them, behind the last block that
can be read. -/
def Fetched (chain : CS) (result : Res EngineError Unit × ChainOperationsIterator) : Prop :=
  (result.1 = .ok () ∧ result.2.currentOperations ≠ []) ∨
    ((∃ e, result.1 = .error (.error e)) ∧ result.2.currentOperations = [] ∧
      ((∀ x ∈ storedFrom chain result.2.nextOffset, Readable x.2) →
        storedFrom chain result.2.nextOffset = []))

theorem fetchNextBlock_nonempty (fuel : ℕ) (it : ChainOperationsIterator)
    (h : it.currentOperations ≠ []) : it.fetchNextBlock chain fuel = some (.ok (), it) := by
  have hempty : it.currentOperations.isEmpty = false := List.isEmpty_eq_false_iff.mpr h
  cases fuel with
  | zero => rw [ChainOperationsIterator.fetchNextBlock, hempty, if_neg Bool.false_ne_true]
  | succ fuel => rw [ChainOperationsIterator.fetchNextBlock, hempty, if_neg Bool.false_ne_true]

theorem fetchNextBlock_empty (fuel offset : ℕ) :
    ChainOperationsIterator.fetchNextBlock chain (fuel + 1) ⟨offset, []⟩ =
      match ChainOperationsIterator.fetchBlock chain ⟨offset, []⟩ with
      | (.error e, it') => some (.error e, it')
      | (.ok (), it') => ChainOperationsIterator.fetchNextBlock chain fuel it' := by
  rw [ChainOperationsIterator.fetchNextBlock]
  exact if_pos rfl

theorem fetchNextBlock_spec (h : FetchesWell chain offset) (fuel : ℕ)
    (hfuel : FiniteChainStore.stop chain - offset < fuel) :
    ∃ result, ChainOperationsIterator.fetchNextBlock chain fuel ⟨offset, []⟩ = some result ∧
      Reached chain offset result.2 [] ∧ Fetched chain result := by
  induction h generalizing fuel with
  | @unreadable offset e hget =>
    obtain ⟨fuel, rfl⟩ := Nat.exists_eq_succ_of_ne_zero (Nat.ne_zero_of_lt hfuel)
    have hfetch : ChainOperationsIterator.fetchBlock chain ⟨offset, []⟩ =
        (.error (.error (.chainStore e)), ⟨offset, []⟩) := by
      unfold ChainOperationsIterator.fetchBlock
      rw [hget]
      rfl
    refine ⟨(.error (.error (.chainStore e)), ⟨offset, []⟩), ?_, reached_start chain offset, ?_⟩
    · rw [fetchNextBlock_empty, hfetch]
    · exact Or.inr ⟨⟨.chainStore e, rfl⟩, rfl, fun _ => storedFrom_error hget⟩
  | @block offset block hget hplace hwhole hslices hnext ih =>
    obtain ⟨fuel, rfl⟩ := Nat.exists_eq_succ_of_ne_zero (Nat.ne_zero_of_lt hfuel)
    rw [fetchNextBlock_empty]
    rcases fetchBlock_cases hget hplace hwhole hslices with
      ⟨e, hfetch, hunreadable⟩ | ⟨operations, hfetch, hlisted, hskips⟩
    · refine ⟨(.error (.error e), ⟨offset, []⟩), ?_, reached_start chain offset, ?_⟩
      · rw [hfetch]
      · refine Or.inr ⟨⟨e, rfl⟩, rfl, fun hall => absurd (hall (offset, block) ?_) hunreadable⟩
        rw [storedFrom_ok hget]
        exact List.mem_cons_self
    · have hreached : Reached chain offset ⟨offset + block.totalSize, operations.reverse⟩ [] := by
        refine ⟨[(offset, block)], ?_, ?_, ?_⟩
        · rw [storedFrom_ok hget, List.singleton_append]
        · rw [placeBehind_cons, placeBehind_nil]
        · rw [List.nil_append, List.reverse_reverse]
          exact hlisted
      rw [hfetch]
      dsimp only
      by_cases hnone : operations = []
      · -- nothing in this block, the loop goes on behind it
        have hlt := FiniteChainStore.getBlock_lt hget
        have hpos := FiniteChainStore.getBlock_pos hget
        rw [hnone, List.reverse_nil] at hreached ⊢
        obtain ⟨result, hresult, hrest, hfetched⟩ := ih (hskips hnone) fuel (by omega)
        exact ⟨result, hresult, hreached.trans rfl hrest, hfetched⟩
      · have hsome : operations.reverse ≠ [] := by
          rwa [ne_eq, List.reverse_eq_nil_iff]
        refine ⟨_, fetchNextBlock_nonempty fuel _ hsome, hreached, Or.inl ⟨rfl, hsome⟩⟩

theorem Reached.pop {start : ℕ} {it : ChainOperationsIterator} {yielded : List EngineOperation}
    (h : Reached chain start it yielded) (hsome : it.currentOperations ≠ []) :
    ∃ operation, it.pop.1 = some operation ∧
      Reached chain start it.pop.2 (yielded ++ [operation]) := by
  obtain ⟨blocks, hblocks, hplace, hlisted⟩ := h
  obtain ⟨l, operation, hl⟩ := (List.eq_nil_or_concat it.currentOperations).resolve_left hsome
  rw [List.concat_eq_append] at hl
  refine ⟨operation, ?_, blocks, hblocks, hplace, ?_⟩
  · rw [ChainOperationsIterator.pop, hl, List.getLast?_concat]
  · rw [hl, List.reverse_append, List.reverse_singleton] at hlisted
    rw [ChainOperationsIterator.pop, hl, List.dropLast_concat, List.append_assoc]
    exact hlisted

theorem pop_empty {it : ChainOperationsIterator} (h : it.currentOperations = []) :
    it.pop = (none, it) := by
  obtain ⟨offset, operations⟩ := it
  cases h
  rfl

/-- A careful call returns an operation, or none behind the last block that can be read. -/
theorem next_spec {start : ℕ} {it : ChainOperationsIterator} {yielded : List EngineOperation}
    (h : Reached chain start it yielded)
    (hcareful : it.currentOperations = [] → FetchesWell chain it.nextOffset) :
    ∃ operation it', it.next chain = some (operation, it') ∧
      Reached chain start it' (yielded ++ operation.toList) ∧
      (operation = none → it'.currentOperations = [] ∧
        ((∀ x ∈ storedFrom chain it'.nextOffset, Readable x.2) →
          storedFrom chain it'.nextOffset = [])) := by
  have hpop (it' : ChainOperationsIterator) (hreached : Reached chain start it' yielded)
      (hsome : it'.currentOperations ≠ []) : ∃ operation it'',
        some it'.pop = some (operation, it'') ∧
        Reached chain start it'' (yielded ++ operation.toList) ∧
        (operation = none → it''.currentOperations = [] ∧
          ((∀ x ∈ storedFrom chain it''.nextOffset, Readable x.2) →
            storedFrom chain it''.nextOffset = [])) := by
    obtain ⟨operation, hlast, hpopped⟩ := hreached.pop hsome
    refine ⟨some operation, it'.pop.2, ?_, hpopped, fun hne => by cases hne⟩
    rw [← hlast]
  unfold ChainOperationsIterator.next
  by_cases hempty : it.currentOperations = []
  · obtain ⟨result, hresult, hrest, hfetched⟩ := fetchNextBlock_spec (hcareful hempty)
      (FiniteChainStore.stop chain + 1) (by omega)
    have hreached := h.trans hempty hrest
    have hit : it = ⟨it.nextOffset, []⟩ := by rw [← hempty]
    rw [← hit] at hresult
    rw [if_pos (List.isEmpty_iff.mpr hempty), hresult]
    obtain ⟨result, it'⟩ := result
    rcases hfetched with ⟨hok, hsome⟩ | ⟨⟨e, he⟩, hnone, hend⟩
    · dsimp only at hok hreached hsome
      rw [hok]
      exact hpop it' hreached hsome
    · dsimp only at he hnone hend hreached
      refine ⟨none, it', ?_, ?_, fun _ => ⟨hnone, hend⟩⟩
      · rw [he]
        split
        · rename_i hsome
          cases hsome
        · rename_i hsome
          cases hsome
        · rename_i hsome
          cases hsome
          rfl
        · rename_i hsome
          cases hsome
          rw [pop_empty hnone]
      · rw [Option.toList_none, List.append_nil]
        exact hreached
  · rw [if_neg (by rwa [List.isEmpty_iff])]
    exact hpop it h hempty

end Listed

namespace OperationsRun
variable [Crates] {CS : Type} [FiniteChainStore CS] {fromOffset : Option ℕ}

theorem Reached.faithful {s : OperationsRun CS} {operation : Option EngineOperation}
    {it : ChainOperationsIterator} (hnext : s.iterator.next s.chain = some (operation, it))
    (h : Reached s.chain (fromOffset.getD 0) it (s.yielded ++ operation.toList))
    (hend : operation = none → it.currentOperations = [] ∧
      ((∀ x ∈ storedFrom s.chain it.nextOffset, Readable x.2) →
        storedFrom s.chain it.nextOffset = [])) : Faithful fromOffset s .next := by
  obtain ⟨blocks, hblocks, -, hsublist, hall⟩ := h
  have hoperations : operationsOf (storedFrom s.chain (fromOffset.getD 0)) =
      operationsOf blocks ++ operationsOf (storedFrom s.chain it.nextOffset) := by
    rw [hblocks, operationsOf_append]
  have hheld : (s.yielded ++ operation.toList).Sublist
      (s.yielded ++ operation.toList ++ it.currentOperations.reverse) :=
    List.sublist_append_left _ _
  refine ⟨operation, it, hnext, ?_, ?_⟩
  · rw [hoperations]
    exact (hheld.trans hsublist).trans (List.sublist_append_left _ _)
  · intro hreadable
    have hwhole := hall fun x hx => hreadable x (hblocks ▸ List.mem_append_left _ hx)
    constructor
    · rw [hoperations, ← hwhole, List.append_assoc]
      exact List.prefix_append _ _
    · intro hnone
      obtain ⟨hempty, hlast⟩ := hend hnone
      have hnil := hlast fun x hx => hreadable x (hblocks ▸ List.mem_append_right _ hx)
      rw [hempty, List.reverse_nil, List.append_nil] at hwhole
      rw [hoperations, hnil, hwhole]
      exact (List.append_nil _).symm

/-- A careful step keeps what the iterator has reached, and a call of `next` is faithful. -/
theorem step_careful (s : OperationsRun CS) (event : Event)
    (h : Reached s.chain (fromOffset.getD 0) s.iterator s.yielded)
    (hcareful : Careful fromOffset s event) :
    Faithful fromOffset s event ∧ Reached (s.step event).chain (fromOffset.getD 0)
      (s.step event).iterator (s.step event).yielded := by
  cases event with
  | write block =>
    refine ⟨trivial, ?_⟩
    obtain ⟨blocks, hblocks, hplace, hlisted⟩ := h
    obtain ⟨more, hmore⟩ := hcareful
    rw [hblocks, List.append_assoc] at hmore
    refine ⟨blocks, ?_, hplace, hlisted⟩
    have hrest := storedFrom_split hmore.symm
    rw [← hplace] at hrest
    change storedFrom (ChainStore.writeBlock s.chain block).2 _ = _
    rw [← hmore, hrest]
    rfl
  | next =>
    obtain ⟨operation, it, hnext, hreached, hend⟩ := next_spec h hcareful
    refine ⟨Reached.faithful hnext hreached hend, ?_⟩
    rw [step, hnext]
    exact hreached

theorem careful_run (events : List Event) (s : OperationsRun CS)
    (h : Reached s.chain (fromOffset.getD 0) s.iterator s.yielded)
    (hcareful : Run.Allowed step (Careful fromOffset) s events) :
    Run.Allowed step (Faithful fromOffset) s events := by
  induction events generalizing s with
  | nil => trivial
  | cons event events ih =>
    obtain ⟨hfirst, hrest⟩ := hcareful
    obtain ⟨hfaithful, hreached⟩ := step_careful s event h hfirst
    exact ⟨hfaithful, ih _ hreached hrest⟩

/-- In every run of careful steps the iterator is faithful to the chain, from any block on. -/
theorem careful_faithful (chain : CS) (fromOffset : Option ℕ) (events : List Event)
    (hcareful : Run.Allowed step (Careful fromOffset) (start chain fromOffset) events) :
    Run.Allowed step (Faithful fromOffset) (start chain fromOffset) events :=
  careful_run events _ (reached_start chain _) hcareful

end OperationsRun

/-- The blocks with their places, as they follow each other. -/
def placed : ℕ → List DataBlock → List (ℕ × DataBlock)
  | _, [] => []
  | offset, b :: rest => (offset, b) :: placed (offset + b.totalSize) rest

theorem placed_append (l r : List DataBlock) (offset : ℕ) :
    placed offset l <+: placed offset (l ++ r) := by
  induction l generalizing offset with
  | nil => exact List.nil_prefix
  | cons b l ih => exact (List.prefix_cons_inj _).mpr (ih _)

/-- The block behind those up to a place lies there. -/
theorem linked_place {l r : List DataBlock} {b : DataBlock} {offset stop : ℕ}
    (h : Linked 0 (l ++ b :: r) stop) (hl : Linked 0 l offset) :
    b.offset = offset ∧ Linked 0 (l ++ [b]) (offset + b.totalSize) := by
  obtain ⟨mid, hmid, hoffset, -⟩ := (linked_append_iff l (b :: r) 0 stop).mp h
  have hplace : b.offset = offset := by
    rw [hoffset, ← linked_endOf l mid hmid, linked_endOf l offset hl]
  have hnext : b.nextOffset = offset + b.totalSize := by
    rw [DataBlock.nextOffset, hplace]
  exact ⟨hplace, (linked_append_iff l [b] 0 _).mpr ⟨offset, hl, hplace, hnext⟩⟩

section Directory
variable [Crates]

/-- A block that was read has a header of some bytes. -/
theorem dataBlock_new_pos {kind : DataKind} {data : Bytes} {block : DataBlock}
    (h : DataBlock.new kind data = .ok block) : 0 < block.totalSize := by
  obtain ⟨header, hheader, hrest⟩ := (bind_eq_ok_iff _ _ _).mp h
  rw [readHeaderFrame, liftError_eq_ok_iff] at hheader
  obtain ⟨n, -, -, hlen, -⟩ := hashedFrame_read_eq_ok _ _ _ hheader
  obtain ⟨reader, -, hrest⟩ := (bind_eq_ok_iff _ _ _).mp hrest
  dsimp only at hrest
  split_ifs at hrest
  obtain ⟨signaturesData, -, hrest⟩ := (bind_eq_ok_iff _ _ _).mp hrest
  obtain ⟨signatures, -, hrest⟩ := (bind_eq_ok_iff _ _ _).mp hrest
  obtain ⟨operationsData, -, hrest⟩ := (bind_eq_ok_iff _ _ _).mp hrest
  cases hrest
  rw [DataBlock.totalSize]
  dsimp only
  omega

theorem segmentFile_getBlock_pos {f : SegmentFile} {offset : ℕ} {block : DataBlock}
    (h : f.getBlock offset = .ok block) : 0 < block.totalSize := by
  unfold SegmentFile.getBlock at h
  cases hmmap : f.mmap with
  | write =>
    rw [hmmap] at h
    obtain ⟨data, -, h⟩ := (bind_eq_ok_iff _ _ _).mp h
    obtain ⟨copied, -, h⟩ := (bind_eq_ok_iff _ _ _).mp h
    exact dataBlock_new_pos ((liftError_eq_ok_iff _ _ _).mp h)
  | read =>
    rw [hmmap] at h
    obtain ⟨data, -, h⟩ := (bind_eq_ok_iff _ _ _).mp h
    exact dataBlock_new_pos ((liftError_eq_ok_iff _ _ _).mp h)

theorem directory_getBlock_ok {s : DirectoryChainStore} {offset : ℕ} {block : DataBlock}
    (h : s.getBlock offset = .ok block) :
    ∃ seg ∈ s.segments, offset < seg.nextBlockOffset ∧ 0 < block.totalSize := by
  unfold DirectoryChainStore.getBlock at h
  cases hseg : s.getSegmentForBlockOffset offset with
  | none =>
    rw [hseg] at h
    cases h
  | some seg =>
    rw [hseg] at h
    dsimp only at h
    obtain ⟨index, -, hindex⟩ := Option.bind_eq_some_iff.mp hseg
    unfold DirectorySegment.getBlock at h
    split_ifs at h with hlo hhi
    exact ⟨seg, List.mem_of_getElem? hindex, not_le.mp hhi, segmentFile_getBlock_pos h⟩

instance : FiniteChainStore DirectoryChainStore where
  stop s := (s.segments.map (·.nextBlockOffset)).foldl max 0
  getBlock_lt h := by
    obtain ⟨seg, hmem, hlt, -⟩ := directory_getBlock_ok h
    exact lt_of_lt_of_le hlt (le_foldl_max _ _ _ (Or.inl (List.mem_map_of_mem hmem)))
  getBlock_pos h := by
    obtain ⟨-, -, -, hpos⟩ := directory_getBlock_ok h
    exact hpos

section Held
variable {s : DirectoryChainStore} {blocks : List DataBlock} {offset : ℕ}

/-- In a chain that reads back as it was written, the blocks from a boundary on are those behind
it. -/
theorem storedFrom_of_holds {l r : List DataBlock} (h : Holds s (l ++ r))
    (hl : Linked 0 l offset) : storedFrom s offset = placed offset r := by
  induction r generalizing l offset with
  | nil =>
    have hend : endOf (l ++ []) ≤ offset := by
      rw [List.append_nil, linked_endOf l offset hl]
    exact storedFrom_error (h.getBlock_end offset hend)
  | cons b r ih =>
    obtain ⟨hplace, hnext⟩ := linked_place h.linked hl
    have hget := h.getBlock b (List.mem_append_right l List.mem_cons_self)
    rw [hplace] at hget
    rw [storedFrom_ok hget, placed]
    rw [List.append_cons] at h
    rw [ih h hnext]

/-- A block that is written at the end of such a chain is behind the others. -/
theorem storedFrom_writeBlock (h : Holds s blocks) (hstart : Boundary blocks offset)
    (b : DataBlock) (hb : WellFormed b) (hoff : b.offset = endOf blocks) :
    storedFrom s offset <+: storedFrom (s.writeBlock b).2 offset := by
  obtain ⟨l, r, rfl, hl⟩ := hstart
  have hwritten := (h.writeBlock b hb hoff).2
  rw [List.append_assoc] at hwritten
  rw [storedFrom_of_holds h hl, storedFrom_of_holds hwritten hl]
  exact placed_append r [b] offset

/-- All of such a chain can be read, and each fetch in it goes well. -/
theorem fetchesWell_of_holds (h : Holds s blocks) (hstart : Boundary blocks offset) :
    FetchesWell s offset := by
  obtain ⟨l, r, rfl, hl⟩ := hstart
  induction r generalizing l offset with
  | nil =>
    have hend : endOf (l ++ []) ≤ offset := by
      rw [List.append_nil, linked_endOf l offset hl]
    exact .unreadable (h.getBlock_end offset hend)
  | cons b r ih =>
    have hmem : b ∈ l ++ b :: r := List.mem_append_right l List.mem_cons_self
    obtain ⟨hplace, hnext⟩ := linked_place h.linked hl
    have hget := h.getBlock b hmem
    rw [hplace] at hget
    obtain ⟨headers, hheaders, hreads⟩ := (h.wellFormed b hmem).operationsRead
    refine .block hget hplace ?_ ?_ fun _ => ?_
    · rintro ⟨read, header, rest, operation, hheaders', -, -, hframe, hnone⟩
      cases hheaders.symm.trans hheaders'
      obtain ⟨operation', reader, hframe', hreader⟩ :=
        hreads header (List.mem_append_right read List.mem_cons_self)
      cases hframe.symm.trans hframe'
      rw [hnone] at hreader
      cases hreader
    · rintro ⟨read, header, rest, hheaders', -, hpanic⟩
      cases hheaders.symm.trans hheaders'
      obtain ⟨operation, -, hframe, -⟩ :=
        hreads header (List.mem_append_right read List.mem_cons_self)
      rw [hpanic] at hframe
      cases hframe
    · rw [List.append_cons] at h
      exact ih (l ++ [b]) hnext h

end Held

end Directory

/-! A block behind the genesis block, with the entry and with an operation whose message has a list
where its struct is to be: the message is one, and its root cannot be read. -/

def listMessage : Bytes := ofNats [0, 0, 0, 0, 1, 0, 0, 0, 1, 0, 0, 0, 0, 0, 0, 0]

def listMultihash : Bytes := ofNats
    [22, 32, 171, 6, 222, 203, 95, 107, 129, 182, 119, 230, 17, 59, 171, 254, 63, 223, 231, 54,
    166, 152, 15, 33, 16, 113, 100, 67, 165, 36, 64, 142, 93, 170]

def halfReadHash : Bytes := ofNats
    [22, 32, 236, 118, 13, 94, 31, 136, 49, 48, 55, 89, 16, 131, 26, 89, 160, 244, 196, 88, 215,
    164, 251, 245, 207, 80, 189, 202, 153, 82, 254, 118, 216, 94]

def halfReadMultihash : Bytes := ofNats
    [22, 32, 211, 199, 106, 169, 202, 160, 141, 136, 149, 99, 56, 83, 101, 76, 151, 135, 49, 87,
    38, 16, 36, 192, 59, 193, 151, 172, 207, 39, 0, 91, 205, 144]

def halfReadHeader : BlockHeader :=
  ⟨254, 2, 0, some genesisMultihash, 100, some otherNode, 228,
    some [⟨50, 0, 170⟩, ⟨60, 170, 58⟩], some halfReadHash, 188⟩

def halfReadBlock : DataBlock :=
  ⟨254, ⟨sizedBytes (proposedMessage halfReadHeader ++ halfReadMultihash), halfReadMultihash,
      some halfReadHeader⟩, fiftyBytes ++ sizedBytes (listMessage ++ listMultihash),
    ⟨sizedBytes (paddedBytes (emptySignatures 228 [(firstNode, firstNodeText)]).1 0),
      some (emptySignatures 228 [(firstNode, firstNodeText)]).2⟩⟩

def halfReadTables : Tables :=
  { commitTables with
    headers := (proposedMessage halfReadHeader, halfReadHeader) :: commitTables.headers
    signatures := emptySignatures 228 [(firstNode, firstNodeText)] :: commitTables.signatures }

@[reducible] def halfReadCrates : Crates :=
  { halfReadTables.crates with
    readChainOperation := fun data =>
      if data = listMessage then some none else decodeIn halfReadTables.operations data }

section Samples
open OperationsRun

attribute [local instance] halfReadCrates

def halfReadChain : DirectoryChainStore :=
  (((DirectoryChainStore.create ⟨0, 10000, 10⟩).writeBlock genesisBlock).2.writeBlock
    halfReadBlock).2

theorem halfReadChain_getBlock :
    ChainStore.getBlock halfReadChain 254 = .ok halfReadBlock ∧
      ChainStore.getBlock halfReadChain (254 + halfReadBlock.totalSize) = .error (.error
        (.outOfBound s!"No segment has block with offset {254 + halfReadBlock.totalSize}")) := by
  decide +kernel

theorem halfReadChain_storedFrom : storedFrom halfReadChain 254 = [(254, halfReadBlock)] := by
  have hfirst : storedFrom halfReadChain 254 =
      (254, halfReadBlock) :: storedFrom halfReadChain (254 + halfReadBlock.totalSize) :=
    storedFrom_ok halfReadChain_getBlock.1
  have hlast : storedFrom halfReadChain (254 + halfReadBlock.totalSize) = [] :=
    storedFrom_error halfReadChain_getBlock.2
  rw [hfirst, hlast]

/-- The entry is yielded by each call, of which two are made. -/
theorem halfRead_not_faithful : ¬ Run.Allowed step (Faithful (some 254))
    (start halfReadChain (some 254)) [.next, .next] := by
  rintro ⟨-, hfaithful, -⟩
  have hle := hfaithful.yielded.length_le
  have hlisted : (operationsOf [(254, halfReadBlock)]).length = 1 := by decide +kernel
  have hyielded : ((step (start halfReadChain (some 254)) .next).step .next).yielded.length = 2 := by
    decide +kernel
  rw [hyielded, step_next_chain, start_chain, Option.getD_some, halfReadChain_storedFrom,
    hlisted] at hle
  omega

end Samples

section Samples
open OperationsRun

attribute [local instance] commitCrates

theorem genesisChain_placed : Holds genesisChain [genesisBlock] :=
  ((holds_create ⟨0, 10000, 10⟩).writeBlock genesisBlock
    (wellFormedCheck_sound _ (by decide +kernel)) (by decide +kernel)).2

/-- The iterator ends behind the genesis block, and yields the entry of the next block once it is
written. -/
theorem appended_faithful : Run.Allowed step (Faithful none) (start genesisChain none)
    [.next, .write (fiftyBlock nextHeaderMultihash), .next, .next] := by
  have hgenesis := genesisChain_placed
  have hwell : WellFormed (fiftyBlock nextHeaderMultihash) :=
    wellFormedCheck_sound _ (by decide +kernel)
  have hoff : (fiftyBlock nextHeaderMultihash).offset = endOf [genesisBlock] := by decide +kernel
  have hwritten := (hgenesis.writeBlock _ hwell hoff).2
  obtain ⟨hfirst, hlast⟩ := boundary_block hwritten.linked (fiftyBlock nextHeaderMultihash)
    (List.mem_append_right _ List.mem_cons_self)
  have hplace : (step (start genesisChain none) .next).iterator.nextOffset =
      (fiftyBlock nextHeaderMultihash).offset := by
    decide +kernel
  have hplace' : (((step (start genesisChain none) .next).step
      (.write (fiftyBlock nextHeaderMultihash))).step .next).iterator.nextOffset =
      (fiftyBlock nextHeaderMultihash).nextOffset := by
    decide +kernel
  have hgenesisWell : FetchesWell genesisChain 0 :=
    fetchesWell_of_holds hgenesis (boundary_zero _)
  apply careful_faithful
  refine ⟨?_, ?_, ?_, ?_, trivial⟩
  · intro _
    rw [start_chain]
    exact hgenesisWell
  · unfold Careful
    rw [step_next_chain, start_chain]
    exact storedFrom_writeBlock hgenesis (boundary_zero _) _ hwell hoff
  · intro _
    rw [step_write_chain, step_next_chain, start_chain, step_write_iterator, hplace]
    exact fetchesWell_of_holds hwritten hfirst
  · intro _
    rw [hplace', step_next_chain, step_write_chain, step_next_chain, start_chain]
    exact fetchesWell_of_holds hwritten hlast

end Samples

end Exocore.Engine
