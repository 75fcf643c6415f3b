import Exocore.LibRun

/-! The clock that operation ids are taken from: calls on its clones, which share a counter, with
each atomic step of a call on its own. -/
namespace Exocore.Core.Time

def consistentCounterMax : ℕ := 999

def nanosPerMilli : ℕ := 1000000

/-- `ConsistentTimestamp::from_context`, of nanoseconds since the epoch. The sum is taken modulo
the size of a word. -/
def fromContext (unixElapsed counter : ℕ) (nodeClockId : UInt16) : ℕ :=
  (unixElapsed / 1000000000 * 1000 * 1000 * 1000 +
    unixElapsed % 1000000000 / nanosPerMilli * 1000 * 1000 +
    nodeClockId.toNat % 1000 * 1000 + counter) % 2^64

/-- What a call has returned with, and the step it returned at. -/
structure Stamp where
  unixElapsed : ℕ
  counter : ℕ
  returnedAt : ℕ

/-- Where a call of `consistent_time` is. A sleeping call may go on from a moment on. -/
inductive Phase where
  | counting
  | sleeping (counter wake : ℕ)
  | exchanging (counter : ℕ)
  | reading (counter : ℕ)
  | returned (stamp : Stamp)

/-- A call for a node, with the step it started at. -/
structure Call where
  clockId : UInt16
  startedAt : ℕ
  phase : Phase

/-- The steps are counted to tell which call started after which had returned. -/
structure ClockState where
  unixElapsed : ℕ
  consistentCounter : ℕ
  calls : List Call
  steps : ℕ

inductive Event where
  | start (clockId : UInt16)
  | pass (nanos : ℕ)
  | advance (call : ℕ)

namespace ClockState

def new (unixElapsed : ℕ) : ClockState := ⟨unixElapsed, 0, [], 0⟩

/-- The next step of a call: the counter and the phase behind it. -/
def nextPhase (s : ClockState) : Phase → ℕ × Phase
  | .counting =>
    ((s.consistentCounter + 1) % 2^64,
      if s.consistentCounter < consistentCounterMax then .reading s.consistentCounter
      else .sleeping s.consistentCounter (s.unixElapsed + nanosPerMilli))
  | .sleeping counter wake =>
    (s.consistentCounter,
      if wake ≤ s.unixElapsed then .exchanging counter else .sleeping counter wake)
  | .exchanging counter =>
    -- the counter is set to one where nobody has changed it since, and otherwise it is tried again
    if s.consistentCounter = (counter + 1) % 2^64 then (1, .reading 0)
    else (s.consistentCounter, .counting)
  | .reading counter =>
    (s.consistentCounter, .returned ⟨s.unixElapsed, counter, s.steps⟩)
  | .returned stamp => (s.consistentCounter, .returned stamp)

def step (s : ClockState) : Event → ClockState
  | .start clockId =>
    { s with calls := s.calls ++ [⟨clockId, s.steps, .counting⟩], steps := s.steps + 1 }
  | .pass nanos => { s with unixElapsed := s.unixElapsed + nanos, steps := s.steps + 1 }
  | .advance i => match s.calls[i]? with
    | none => { s with steps := s.steps + 1 }
    | some call =>
      { s with
        consistentCounter := (s.nextPhase call.phase).1
        calls := s.calls.set i { call with phase := (s.nextPhase call.phase).2 }
        steps := s.steps + 1 }

end ClockState

def Call.stamp (call : Call) : Option Stamp :=
  match call.phase with
  | .returned stamp => some stamp
  | _ => none

def Call.timestamp (call : Call) : Option ℕ :=
  call.stamp.map fun stamp => fromContext stamp.unixElapsed stamp.counter call.clockId

/-- No two calls have returned the same timestamp, and one that started after another of the same
node had returned has returned a greater one. -/
structure Unique (s : ClockState) : Prop where
  distinct : ∀ (i j : ℕ) (a b : Call) (t t' : ℕ), s.calls[i]? = some a → s.calls[j]? = some b →
    i ≠ j → a.timestamp = some t → b.timestamp = some t' → t ≠ t'
  later : ∀ (i j : ℕ) (a b : Call) (stamp : Stamp) (t t' : ℕ), s.calls[i]? = some a →
    s.calls[j]? = some b → a.stamp = some stamp → stamp.returnedAt ≤ b.startedAt →
    a.clockId.toNat % 1000 = b.clockId.toNat % 1000 → a.timestamp = some t →
    b.timestamp = some t' → t < t'

/-- The call at a position has a counter, and has not read the clock yet. -/
def ClockState.Reading (s : ClockState) (i counter startedAt : ℕ) : Prop :=
  ∃ call, s.calls[i]? = some call ∧ call.phase = .reading counter ∧ call.startedAt = startedAt

def ClockState.Returned (s : ClockState) (i : ℕ) (stamp : Stamp) (startedAt : ℕ) : Prop :=
  ∃ call, s.calls[i]? = some call ∧ call.phase = .returned stamp ∧ call.startedAt = startedAt

def milli (nanos : ℕ) : ℕ := nanos / nanosPerMilli

/-- The whole millisecond fits the word that a timestamp is. -/
def FitsWord (nanos : ℕ) : Prop := (milli nanos + 1) * nanosPerMilli ≤ 2^64

/-- The counter is set back in a state in which every call that has a counter has read the clock,
in a millisecond that is over. The counter and the time fit their words. -/
def Careful (s : ClockState) : Event → Prop
  | .start _ => True
  | .pass _ => True
  | .advance i => ∀ call, s.calls[i]? = some call →
    match call.phase with
    | .counting => s.consistentCounter + 1 < 2^64
    | .exchanging counter => s.consistentCounter = (counter + 1) % 2^64 →
      (∀ j k startedAt, ¬ s.Reading j k startedAt) ∧
        ∀ j stamp startedAt, s.Returned j stamp startedAt →
          milli stamp.unixElapsed < milli s.unixElapsed
    | .reading _ => FitsWord s.unixElapsed
    | _ => True

theorem fitsWord_lt (nanos k : ℕ) (clockId : UInt16) (hn : FitsWord nanos)
    (hk : k ≤ consistentCounterMax) :
    fromContext nanos k clockId = milli nanos * 1000000 + clockId.toNat % 1000 * 1000 + k := by
  unfold FitsWord milli nanosPerMilli at hn
  unfold consistentCounterMax at hk
  have hid : clockId.toNat % 1000 < 1000 := Nat.mod_lt _ (by norm_num)
  unfold fromContext milli nanosPerMilli
  -- the whole milliseconds are those of the seconds and those of the rest
  have hmilli : nanos / 1000000000 * 1000 * 1000 * 1000 +
      nanos % 1000000000 / 1000000 * 1000 * 1000 = nanos / 1000000 * 1000000 := by omega
  rw [hmilli]
  apply Nat.mod_eq_of_lt
  omega

/-- What holds of the counters that are waiting for the clock and of those that have been stamped. -/
structure Counted (s : ClockState) : Prop where
  started : ∀ call ∈ s.calls, call.startedAt < s.steps
  reading_lt : ∀ i k st, s.Reading i k st → k < consistentCounterMax ∧ k < s.consistentCounter
  reading_unique : ∀ i j k st st', s.Reading i k st → s.Reading j k st' → i = j
  returned_le : ∀ i stamp st, s.Returned i stamp st → stamp.unixElapsed ≤ s.unixElapsed ∧
    stamp.counter < consistentCounterMax ∧ FitsWord stamp.unixElapsed ∧
    st < stamp.returnedAt ∧ stamp.returnedAt < s.steps
  returned_lt : ∀ i stamp st, s.Returned i stamp st →
    milli stamp.unixElapsed = milli s.unixElapsed → stamp.counter < s.consistentCounter
  reading_returned : ∀ i k st j stamp st', s.Reading i k st → s.Returned j stamp st' →
    milli stamp.unixElapsed = milli s.unixElapsed →
    stamp.counter ≠ k ∧ (stamp.returnedAt ≤ st → stamp.counter < k)
  returned_unique : ∀ i j a b st st', s.Returned i a st → s.Returned j b st' →
    milli a.unixElapsed = milli b.unixElapsed → a.counter = b.counter → i = j
  returned_later : ∀ i j a b st st', s.Returned i a st → s.Returned j b st' →
    a.returnedAt ≤ st' → milli a.unixElapsed < milli b.unixElapsed ∨
      milli a.unixElapsed = milli b.unixElapsed ∧ a.counter < b.counter

theorem milli_mono {a b : ℕ} (h : a ≤ b) : milli a ≤ milli b := Nat.div_le_div_right h

/-- Where no call gets a stamp, the stamps stay told apart. -/
theorem Counted.unstamped {s s' : ClockState} (hs : Counted s)
    (hnow : s.unixElapsed ≤ s'.unixElapsed) (hsteps : s.steps ≤ s'.steps)
    (hstarted : ∀ call ∈ s'.calls, call.startedAt < s'.steps)
    (hreturned : ∀ i stamp st, s'.Returned i stamp st → s.Returned i stamp st)
    (hlt : ∀ i k st, s'.Reading i k st → k < consistentCounterMax ∧ k < s'.consistentCounter)
    (hunique : ∀ i j k st st', s'.Reading i k st → s'.Reading j k st' → i = j)
    (hbelow : ∀ i stamp st, s'.Returned i stamp st →
      milli stamp.unixElapsed = milli s'.unixElapsed → stamp.counter < s'.consistentCounter)
    (hapart : ∀ i k st j stamp st', s'.Reading i k st → s'.Returned j stamp st' →
      milli stamp.unixElapsed = milli s'.unixElapsed →
      stamp.counter ≠ k ∧ (stamp.returnedAt ≤ st → stamp.counter < k)) : Counted s' := by
  refine ⟨hstarted, hlt, hunique, ?_, hbelow, hapart, ?_, ?_⟩
  · intro i stamp st h
    have hle := hs.returned_le i stamp st (hreturned i stamp st h)
    exact ⟨by omega, hle.2.1, hle.2.2.1, hle.2.2.2.1, by omega⟩
  · intro i j a b st st' hi hj
    exact hs.returned_unique i j a b st st' (hreturned i a st hi) (hreturned j b st' hj)
  · intro i j a b st st' hi hj
    exact hs.returned_later i j a b st st' (hreturned i a st hi) (hreturned j b st' hj)

/-- Time and the counter may grow, and calls may lose what they hold. -/
theorem Counted.mono {s s' : ClockState} (hs : Counted s) (hnow : s.unixElapsed ≤ s'.unixElapsed)
    (hcounter : s.consistentCounter ≤ s'.consistentCounter) (hsteps : s.steps ≤ s'.steps)
    (hstarted : ∀ call ∈ s'.calls, call.startedAt < s'.steps)
    (hreading : ∀ i k st, s'.Reading i k st → s.Reading i k st)
    (hreturned : ∀ i stamp st, s'.Returned i stamp st → s.Returned i stamp st) : Counted s' := by
  have hmilli := milli_mono hnow
  -- a stamp of the current millisecond is one of the millisecond before the step
  have hsame (i : ℕ) (stamp : Stamp) (st : ℕ) (h : s'.Returned i stamp st)
      (hm : milli stamp.unixElapsed = milli s'.unixElapsed) :
      milli stamp.unixElapsed = milli s.unixElapsed := by
    have hle := milli_mono (hs.returned_le i stamp st (hreturned i stamp st h)).1
    omega
  refine hs.unstamped hnow hsteps hstarted hreturned ?_ ?_ ?_ ?_
  · intro i k st h
    have hlt := hs.reading_lt i k st (hreading i k st h)
    exact ⟨hlt.1, by omega⟩
  · intro i j k st st' hi hj
    exact hs.reading_unique i j k st st' (hreading i k st hi) (hreading j k st' hj)
  · intro i stamp st h hm
    have hlt := hs.returned_lt i stamp st (hreturned i stamp st h) (hsame i stamp st h hm)
    omega
  · intro i k st j stamp st' hi hj hm
    exact hs.reading_returned i k st j stamp st' (hreading i k st hi) (hreturned j stamp st' hj)
      (hsame j stamp st' hj hm)

section Advance

variable (s : ClockState) (i : ℕ) (call : Call) (hcall : s.calls[i]? = some call)

include hcall in
theorem advance_eq : s.step (.advance i) =
    { s with
      consistentCounter := (s.nextPhase call.phase).1
      calls := s.calls.set i { call with phase := (s.nextPhase call.phase).2 }
      steps := s.steps + 1 } := by
  simp only [ClockState.step, hcall]

include hcall in
theorem advance_call (j : ℕ) (call' : Call) (h : (s.step (.advance i)).calls[j]? = some call') :
    j = i ∧ call' = { call with phase := (s.nextPhase call.phase).2 } ∨
      j ≠ i ∧ s.calls[j]? = some call' := by
  rw [advance_eq s i call hcall] at h
  dsimp only at h
  have hlt : i < s.calls.length := (List.getElem?_eq_some_iff.mp hcall).1
  by_cases hj : j = i
  · subst hj
    rw [List.getElem?_set_self hlt] at h
    exact Or.inl ⟨rfl, (Option.some.inj h).symm⟩
  · rw [List.getElem?_set_ne (Ne.symm hj)] at h
    exact Or.inr ⟨hj, h⟩

include hcall in
theorem advance_reading (j k st : ℕ) (h : (s.step (.advance i)).Reading j k st) :
    j = i ∧ (s.nextPhase call.phase).2 = .reading k ∧ call.startedAt = st ∨
      j ≠ i ∧ s.Reading j k st := by
  obtain ⟨call', hj, hphase, hst⟩ := h
  rcases advance_call s i call hcall j call' hj with ⟨hji, he⟩ | ⟨hji, hold⟩
  · subst he
    exact Or.inl ⟨hji, hphase, hst⟩
  · exact Or.inr ⟨hji, call', hold, hphase, hst⟩

include hcall in
theorem advance_returned (j : ℕ) (stamp : Stamp) (st : ℕ)
    (h : (s.step (.advance i)).Returned j stamp st) :
    j = i ∧ (s.nextPhase call.phase).2 = .returned stamp ∧ call.startedAt = st ∨
      j ≠ i ∧ s.Returned j stamp st := by
  obtain ⟨call', hj, hphase, hst⟩ := h
  rcases advance_call s i call hcall j call' hj with ⟨hji, he⟩ | ⟨hji, hold⟩
  · subst he
    exact Or.inl ⟨hji, hphase, hst⟩
  · exact Or.inr ⟨hji, call', hold, hphase, hst⟩

include hcall in
theorem advance_started (hs : Counted s) (call' : Call)
    (h : call' ∈ (s.step (.advance i)).calls) :
    call'.startedAt < (s.step (.advance i)).steps := by
  rw [advance_eq s i call hcall] at h ⊢
  dsimp only at h ⊢
  have hold : call.startedAt < s.steps := hs.started call (List.mem_of_getElem? hcall)
  rcases List.mem_or_eq_of_mem_set h with hmem | he
  · have := hs.started call' hmem
    omega
  · rw [he]
    show call.startedAt < s.steps + 1
    omega

end Advance

/-- A step that gives its call no counter and no stamp it did not have. -/
theorem Counted.quiet {s : ClockState} (hs : Counted s) (i : ℕ) (call : Call)
    (hcall : s.calls[i]? = some call)
    (hcounter : s.consistentCounter ≤ (s.nextPhase call.phase).1)
    (hreading : ∀ k, (s.nextPhase call.phase).2 ≠ .reading k)
    (hreturned : ∀ stamp, (s.nextPhase call.phase).2 = .returned stamp →
      call.phase = .returned stamp) : Counted (s.step (.advance i)) := by
  have he := advance_eq s i call hcall
  apply hs.mono
  case hnow => rw [he]
  case hcounter =>
    rw [he]
    exact hcounter
  case hsteps =>
    rw [he]
    exact Nat.le_succ _
  case hstarted => exact advance_started s i call hcall hs
  case hreading =>
    intro j k st h
    rcases advance_reading s i call hcall j k st h with ⟨_, hphase, _⟩ | ⟨_, hold⟩
    · exact absurd hphase (hreading k)
    · exact hold
  case hreturned =>
    intro j stamp st h
    rcases advance_returned s i call hcall j stamp st h with ⟨hji, hphase, hst⟩ | ⟨_, hold⟩
    · exact ⟨call, hji ▸ hcall, hreturned stamp hphase, hst⟩
    · exact hold

/-- A counter below the greatest is above every counter that is out in the millisecond. -/
theorem Counted.count {s : ClockState} (hs : Counted s) (i : ℕ) (call : Call)
    (hcall : s.calls[i]? = some call) (hphase : call.phase = .counting)
    (hword : s.consistentCounter + 1 < 2^64) (hlt : s.consistentCounter < consistentCounterMax) :
    Counted (s.step (.advance i)) := by
  have hnext : s.nextPhase call.phase =
      (s.consistentCounter + 1, .reading s.consistentCounter) := by
    rw [hphase]
    simp only [ClockState.nextPhase, if_pos hlt, Nat.mod_eq_of_lt hword]
  have hread := advance_reading s i call hcall
  have hret := advance_returned s i call hcall
  have hstarted := advance_started s i call hcall hs
  have hstep := advance_eq s i call hcall
  rw [hnext] at hread hret hstep
  -- no call has been stamped by the step
  have hold (j : ℕ) (stamp : Stamp) (st : ℕ) (h : (s.step (.advance i)).Returned j stamp st) :
      s.Returned j stamp st := by
    rcases hret j stamp st h with ⟨_, he, _⟩ | ⟨_, h⟩
    · cases he
    · exact h
  have hnow : (s.step (.advance i)).unixElapsed = s.unixElapsed := by rw [hstep]
  have hcounter : (s.step (.advance i)).consistentCounter = s.consistentCounter + 1 := by
    rw [hstep]
  have hsteps : (s.step (.advance i)).steps = s.steps + 1 := by rw [hstep]
  refine hs.unstamped hnow.ge (by omega) hstarted hold ?_ ?_ ?_ ?_
  · intro j k st h
    rw [hcounter]
    rcases hread j k st h with ⟨_, he, _⟩ | ⟨_, h⟩
    · cases he
      exact ⟨hlt, Nat.lt_succ_self _⟩
    · have := hs.reading_lt j k st h
      exact ⟨this.1, by omega⟩
  -- the counter that goes out is above those that are out
  · intro j j' k st st' hj hj'
    rcases hread j k st hj with ⟨hji, he, _⟩ | ⟨_, hj⟩
    · rcases hread j' k st' hj' with ⟨hji', _, _⟩ | ⟨_, hj'⟩
      · rw [hji, hji']
      · cases he
        exact absurd (hs.reading_lt j' _ st' hj').2 (lt_irrefl _)
    · rcases hread j' k st' hj' with ⟨_, he, _⟩ | ⟨_, hj'⟩
      · cases he
        exact absurd (hs.reading_lt j _ st hj).2 (lt_irrefl _)
      · exact hs.reading_unique j j' k st st' hj hj'
  · intro j stamp st h hm
    rw [hnow] at hm
    have := hs.returned_lt j stamp st (hold j stamp st h) hm
    omega
  · intro j k st j' stamp st' hj hj' hm
    rw [hnow] at hm
    rcases hread j k st hj with ⟨_, he, _⟩ | ⟨_, hj⟩
    · cases he
      have := hs.returned_lt j' stamp st' (hold j' stamp st' hj') hm
      exact ⟨by omega, fun _ => this⟩
    · exact hs.reading_returned j k st j' stamp st' hj (hold j' stamp st' hj') hm

/-- Where no counter is out and none has been stamped in this millisecond, the counter is set back
to one and zero goes out. -/
theorem Counted.exchange {s : ClockState} (hs : Counted s) (i : ℕ) (call : Call)
    (hcall : s.calls[i]? = some call) (counter : ℕ) (hphase : call.phase = .exchanging counter)
    (hwon : s.consistentCounter = (counter + 1) % 2^64)
    (hnone : ∀ j k startedAt, ¬ s.Reading j k startedAt)
    (hover : ∀ j stamp startedAt, s.Returned j stamp startedAt →
      milli stamp.unixElapsed < milli s.unixElapsed) : Counted (s.step (.advance i)) := by
  have hnext : s.nextPhase call.phase = (1, .reading 0) := by
    rw [hphase]
    simp only [ClockState.nextPhase, if_pos hwon]
  have hread := advance_reading s i call hcall
  have hret := advance_returned s i call hcall
  have hstarted := advance_started s i call hcall hs
  have hstep := advance_eq s i call hcall
  rw [hnext] at hread hret hstep
  have hold (j : ℕ) (stamp : Stamp) (st : ℕ) (h : (s.step (.advance i)).Returned j stamp st) :
      s.Returned j stamp st := by
    rcases hret j stamp st h with ⟨_, he, _⟩ | ⟨_, h⟩
    · cases he
    · exact h
  have honly (j k st : ℕ) (h : (s.step (.advance i)).Reading j k st) : j = i ∧ k = 0 := by
    rcases hread j k st h with ⟨hji, he, _⟩ | ⟨_, h⟩
    · cases he
      exact ⟨hji, rfl⟩
    · exact absurd h (hnone j k st)
  have hnow : (s.step (.advance i)).unixElapsed = s.unixElapsed := by rw [hstep]
  have hcounter : (s.step (.advance i)).consistentCounter = 1 := by rw [hstep]
  have hsteps : (s.step (.advance i)).steps = s.steps + 1 := by rw [hstep]
  refine hs.unstamped hnow.ge (by omega) hstarted hold ?_ ?_ ?_ ?_
  · intro j k st h
    rw [hcounter, (honly j k st h).2]
    exact ⟨by decide, Nat.one_pos⟩
  · intro j j' k st st' hj hj'
    rw [(honly j k st hj).1, (honly j' k st' hj').1]
  -- the stamps of the millisecond that is over are in no one's way
  · intro j stamp st h hm
    rw [hnow] at hm
    have := hover j stamp st (hold j stamp st h)
    omega
  · intro j k st j' stamp st' _ hj' hm
    rw [hnow] at hm
    have := hover j' stamp st' (hold j' stamp st' hj')
    omega

/-- The stamp that a read gives differs from those of its millisecond, and is above those that
were returned before the call had started. -/
theorem Counted.read {s : ClockState} (hs : Counted s) (i : ℕ) (call : Call)
    (hcall : s.calls[i]? = some call) (counter : ℕ) (hphase : call.phase = .reading counter)
    (hfits : FitsWord s.unixElapsed) : Counted (s.step (.advance i)) := by
  have hnext : s.nextPhase call.phase =
      (s.consistentCounter, .returned ⟨s.unixElapsed, counter, s.steps⟩) := by
    rw [hphase]
    rfl
  have hread := advance_reading s i call hcall
  have hret := advance_returned s i call hcall
  have hstarted := advance_started s i call hcall hs
  have hstep := advance_eq s i call hcall
  rw [hnext] at hread hret hstep
  have hself : s.Reading i counter call.startedAt := ⟨call, hcall, hphase, rfl⟩
  have hlt := hs.reading_lt i counter call.startedAt hself
  have hbegan : call.startedAt < s.steps := hs.started call (List.mem_of_getElem? hcall)
  have hold (j k st : ℕ) (h : (s.step (.advance i)).Reading j k st) :
      j ≠ i ∧ s.Reading j k st := by
    rcases hread j k st h with ⟨_, he, _⟩ | h
    · cases he
    · exact h
  have hstart (j k st : ℕ) (h : s.Reading j k st) : st < s.steps := by
    obtain ⟨call', hj, _, hst⟩ := h
    exact hst ▸ hs.started call' (List.mem_of_getElem? hj)
  have hnow : (s.step (.advance i)).unixElapsed = s.unixElapsed := by rw [hstep]
  have hcounter : (s.step (.advance i)).consistentCounter = s.consistentCounter := by rw [hstep]
  have hsteps : (s.step (.advance i)).steps = s.steps + 1 := by rw [hstep]
  constructor
  case started => exact hstarted
  case reading_lt =>
    intro j k st h
    rw [hcounter]
    exact hs.reading_lt j k st (hold j k st h).2
  case reading_unique =>
    intro j j' k st st' hj hj'
    exact hs.reading_unique j j' k st st' (hold j k st hj).2 (hold j' k st' hj').2
  case returned_le =>
    intro j stamp st h
    rw [hnow, hsteps]
    rcases hret j stamp st h with ⟨_, he, hst⟩ | ⟨_, h⟩
    · cases he
      exact ⟨le_refl _, hlt.1, hfits, hst ▸ hbegan, Nat.lt_succ_self _⟩
    · have := hs.returned_le j stamp st h
      exact ⟨this.1, this.2.1, this.2.2.1, this.2.2.2.1, by omega⟩
  case returned_lt =>
    intro j stamp st h hm
    rw [hnow] at hm
    rw [hcounter]
    rcases hret j stamp st h with ⟨_, he, _⟩ | ⟨_, h⟩
    · cases he
      exact hlt.2
    · exact hs.returned_lt j stamp st h hm
  case reading_returned =>
    intro j k st j' stamp st' hj hj' hm
    rw [hnow] at hm
    obtain ⟨hji, hj⟩ := hold j k st hj
    rcases hret j' stamp st' hj' with ⟨_, he, _⟩ | ⟨_, hj'⟩
    · cases he
      refine ⟨?_, ?_⟩
      · intro hk
        exact hji (hs.reading_unique j i k st call.startedAt hj (hk ▸ hself))
      · intro hle
        exact absurd (hstart j k st hj) (not_lt.mpr hle)
    · exact hs.reading_returned j k st j' stamp st' hj hj' hm
  case returned_unique =>
    intro j j' a b st st' hj hj' hm hc
    rcases hret j a st hj with ⟨hji, he, _⟩ | ⟨_, hj⟩
    · cases he
      rcases hret j' b st' hj' with ⟨hji', _, _⟩ | ⟨_, hj'⟩
      · rw [hji, hji']
      · exact absurd hc.symm
          (hs.reading_returned i counter call.startedAt j' b st' hself hj' hm.symm).1
    · rcases hret j' b st' hj' with ⟨_, he, _⟩ | ⟨_, hj'⟩
      · cases he
        exact absurd hc (hs.reading_returned i counter call.startedAt j a st hself hj hm).1
      · exact hs.returned_unique j j' a b st st' hj hj' hm hc
  case returned_later =>
    intro j j' a b st st' hj hj' hle
    rcases hret j' b st' hj' with ⟨_, he, hst⟩ | ⟨_, hj'⟩
    · cases he
      rcases hret j a st hj with ⟨_, he, _⟩ | ⟨_, hj⟩
      · -- the call has not returned before it started
        cases he
        dsimp only at hle
        omega
      · have hmono := milli_mono (hs.returned_le j a st hj).1
        rcases Nat.lt_or_eq_of_le hmono with hm | hm
        · exact Or.inl hm
        · exact Or.inr ⟨hm, (hs.reading_returned i counter call.startedAt j a st hself hj hm).2
            (hst ▸ hle)⟩
    · rcases hret j a st hj with ⟨_, he, _⟩ | ⟨_, hj⟩
      · cases he
        have := hs.returned_le j' b st' hj'
        dsimp only at hle
        omega
      · exact hs.returned_later j j' a b st st' hj hj' hle

theorem start_call (s : ClockState) (clockId : UInt16) (j : ℕ) (call : Call)
    (h : (s.step (.start clockId)).calls[j]? = some call) :
    s.calls[j]? = some call ∨ call.phase = .counting ∧ call.startedAt = s.steps := by
  simp only [ClockState.step] at h
  rcases Nat.lt_or_ge j s.calls.length with hlt | hle
  · rw [List.getElem?_append_left hlt] at h
    exact Or.inl h
  · rw [List.getElem?_append_right hle] at h
    have hmem := List.mem_of_getElem? h
    rw [List.mem_singleton] at hmem
    subst hmem
    exact Or.inr ⟨rfl, rfl⟩

theorem Counted.start {s : ClockState} (hs : Counted s) (clockId : UInt16) :
    Counted (s.step (.start clockId)) := by
  apply hs.mono
  case hnow => exact le_refl _
  case hcounter => exact le_refl _
  case hsteps => exact Nat.le_succ _
  · intro call hmem
    obtain ⟨j, hj⟩ := List.mem_iff_getElem?.mp hmem
    rcases start_call s clockId j call hj with h | ⟨_, h⟩
    · exact Nat.lt_succ_of_lt (hs.started call (List.mem_of_getElem? h))
    · rw [h]
      exact Nat.lt_succ_self _
  · rintro j k st ⟨call, hj, hphase, hst⟩
    rcases start_call s clockId j call hj with h | ⟨h, _⟩
    · exact ⟨call, h, hphase, hst⟩
    · rw [h] at hphase
      cases hphase
  · rintro j stamp st ⟨call, hj, hphase, hst⟩
    rcases start_call s clockId j call hj with h | ⟨h, _⟩
    · exact ⟨call, h, hphase, hst⟩
    · rw [h] at hphase
      cases hphase

theorem Counted.step {s : ClockState} (hs : Counted s) (event : Event) (hok : Careful s event) :
    Counted (s.step event) := by
  cases event with
  | start clockId => exact hs.start clockId
  | pass nanos =>
    apply hs.mono
    case hnow => exact Nat.le_add_right _ _
    case hcounter => exact le_refl _
    case hsteps => exact Nat.le_succ _
    · intro call hmem
      exact Nat.lt_succ_of_lt (hs.started call hmem)
    · exact fun _ _ _ h => h
    · exact fun _ _ _ h => h
  | advance i =>
    cases hcall : s.calls[i]? with
    | none =>
      have he : s.step (.advance i) = { s with steps := s.steps + 1 } := by
        simp only [ClockState.step, hcall]
      rw [he]
      apply hs.mono
      case hnow => exact le_refl _
      case hcounter => exact le_refl _
      case hsteps => exact Nat.le_succ _
      · intro call hmem
        exact Nat.lt_succ_of_lt (hs.started call hmem)
      · exact fun _ _ _ h => h
      · exact fun _ _ _ h => h
    | some call =>
      have hcall_ok := hok call hcall
      cases hphase : call.phase with
      | counting =>
        rw [hphase] at hcall_ok
        by_cases hlt : s.consistentCounter < consistentCounterMax
        · exact hs.count i call hcall hphase hcall_ok hlt
        · apply hs.quiet i call hcall
          all_goals rw [hphase]; simp only [ClockState.nextPhase, if_neg hlt]
          · rw [Nat.mod_eq_of_lt hcall_ok]
            exact Nat.le_succ _
          · intro _ h
            cases h
          · intro _ h
            cases h
      | sleeping counter wake =>
        apply hs.quiet i call hcall
        all_goals rw [hphase]; simp only [ClockState.nextPhase]
        · exact le_refl _
        · intro k
          split <;> exact fun h => by cases h
        · intro stamp
          split <;> exact fun h => by cases h
      | exchanging counter =>
        rw [hphase] at hcall_ok
        by_cases hwon : s.consistentCounter = (counter + 1) % 2^64
        · exact hs.exchange i call hcall counter hphase hwon (hcall_ok hwon).1 (hcall_ok hwon).2
        · apply hs.quiet i call hcall
          all_goals rw [hphase]; simp only [ClockState.nextPhase, if_neg hwon]
          · exact le_refl _
          · intro _ h
            cases h
          · intro _ h
            cases h
      | reading counter =>
        rw [hphase] at hcall_ok
        exact hs.read i call hcall counter hphase hcall_ok
      | returned stamp =>
        apply hs.quiet i call hcall
        all_goals rw [hphase]; simp only [ClockState.nextPhase]
        · exact le_refl _
        · intro _ h
          cases h
        · exact fun _ h => h

theorem counted_new (unixElapsed : ℕ) : Counted (ClockState.new unixElapsed) := by
  have hreading (i k st : ℕ) : ¬ (ClockState.new unixElapsed).Reading i k st := by
    rintro ⟨call, h, _⟩
    cases h
  have hreturned (i : ℕ) (stamp : Stamp) (st : ℕ) :
      ¬ (ClockState.new unixElapsed).Returned i stamp st := by
    rintro ⟨call, h, _⟩
    cases h
  constructor
  case started => exact fun call h => by cases h
  case reading_lt => exact fun i k st h => absurd h (hreading i k st)
  case reading_unique => exact fun i _ k st _ h => absurd h (hreading i k st)
  case returned_le => exact fun i stamp st h => absurd h (hreturned i stamp st)
  case returned_lt => exact fun i stamp st h => absurd h (hreturned i stamp st)
  case reading_returned => exact fun i k st _ _ _ h => absurd h (hreading i k st)
  case returned_unique => exact fun i _ a _ st _ h => absurd h (hreturned i a st)
  case returned_later => exact fun i _ a _ st _ h => absurd h (hreturned i a st)

theorem stamp_returned (s : ClockState) (i : ℕ) (call : Call) (stamp : Stamp)
    (hcall : s.calls[i]? = some call) (h : call.stamp = some stamp) :
    s.Returned i stamp call.startedAt := by
  refine ⟨call, hcall, ?_, rfl⟩
  unfold Call.stamp at h
  split at h
  · next hphase => rw [hphase, Option.some.inj h]
  · cases h

theorem Counted.timestamp {s : ClockState} (hs : Counted s) (i : ℕ) (call : Call) (t : ℕ)
    (hcall : s.calls[i]? = some call) (h : call.timestamp = some t) :
    ∃ stamp, call.stamp = some stamp ∧ s.Returned i stamp call.startedAt ∧
      stamp.counter < 1000 ∧
      t = milli stamp.unixElapsed * 1000000 + call.clockId.toNat % 1000 * 1000 + stamp.counter := by
  obtain ⟨stamp, hstamp, rfl⟩ := Option.map_eq_some_iff.mp h
  have hret := stamp_returned s i call stamp hcall hstamp
  have hle := hs.returned_le i stamp call.startedAt hret
  have hcounter : stamp.counter < consistentCounterMax := hle.2.1
  refine ⟨stamp, hstamp, hret, ?_, fitsWord_lt _ _ _ hle.2.2.1 (le_of_lt hcounter)⟩
  unfold consistentCounterMax at hcounter
  omega

theorem Counted.unique {s : ClockState} (hs : Counted s) : Unique s := by
  constructor
  · intro i j a b t t' hi hj hij ht ht' he
    obtain ⟨x, _, hx, hxk, rfl⟩ := hs.timestamp i a t hi ht
    obtain ⟨y, _, hy, hyk, rfl⟩ := hs.timestamp j b t' hj ht'
    have hida : a.clockId.toNat % 1000 < 1000 := Nat.mod_lt _ (by norm_num)
    have hidb : b.clockId.toNat % 1000 < 1000 := Nat.mod_lt _ (by norm_num)
    exact hij (hs.returned_unique i j x y _ _ hx hy (by omega) (by omega))
  · intro i j a b stamp t t' hi hj hstamp hle hid ht ht'
    obtain ⟨x, hxs, hx, hxk, rfl⟩ := hs.timestamp i a t hi ht
    obtain ⟨y, _, hy, hyk, rfl⟩ := hs.timestamp j b t' hj ht'
    have hxe : stamp = x := Option.some.inj (hstamp.symm.trans hxs)
    have hidb : b.clockId.toNat % 1000 < 1000 := Nat.mod_lt _ (by norm_num)
    rcases hs.returned_later i j x y _ _ hx hy (hxe ▸ hle) with hm | ⟨hm, hc⟩
    · omega
    · rw [hm, hid]
      omega

/-- The step of the call that started last. -/
theorem advance_last (unixElapsed counter steps i : ℕ) (calls : List Call) (call : Call)
    (hi : i = calls.length) :
    ClockState.step ⟨unixElapsed, counter, calls ++ [call], steps⟩ (.advance i) =
      ⟨unixElapsed,
        (ClockState.nextPhase ⟨unixElapsed, counter, calls ++ [call], steps⟩ call.phase).1,
        calls ++ [{ call with phase :=
          (ClockState.nextPhase ⟨unixElapsed, counter, calls ++ [call], steps⟩ call.phase).2 }],
        steps + 1⟩ := by
  have hcall : (calls ++ [call])[i]? = some call := by rw [hi, List.getElem?_concat_length]
  have hset (call' : Call) : (calls ++ [call]).set i call' = calls ++ [call'] := by simp [hi]
  rw [advance_eq _ i call hcall]
  simp only [hset]

theorem careful_advance (s : ClockState) (i : ℕ) (call : Call) (hcall : s.calls[i]? = some call)
    (hcounting : call.phase = .counting → s.consistentCounter + 1 < 2^64)
    (hexchanging : ∀ counter, call.phase = .exchanging counter →
      (∀ j k startedAt, ¬ s.Reading j k startedAt) ∧ ∀ j stamp startedAt,
        s.Returned j stamp startedAt → milli stamp.unixElapsed < milli s.unixElapsed)
    (hreading : ∀ counter, call.phase = .reading counter → FitsWord s.unixElapsed) :
    Careful s (.advance i) := by
  intro call' hcall'
  rw [hcall] at hcall'
  cases hcall'
  cases hphase : call.phase with
  | counting => exact hcounting hphase
  | sleeping counter wake => trivial
  | exchanging counter => exact fun _ => hexchanging counter hphase
  | reading counter => exact hreading counter hphase
  | returned stamp => trivial

section Rush

variable (unixElapsed : ℕ) (clockId : UInt16)

/-- A call starts and takes a counter. -/
theorem exec_take (counter steps : ℕ) (calls : List Call) (h : counter < consistentCounterMax) :
    Run.exec ClockState.step ⟨unixElapsed, counter, calls, steps⟩
        [.start clockId, .advance calls.length] =
      ⟨unixElapsed, counter + 1, calls ++ [⟨clockId, steps, .reading counter⟩], steps + 2⟩ := by
  have hword : (counter + 1) % 2^64 = counter + 1 := by
    unfold consistentCounterMax at h
    exact Nat.mod_eq_of_lt (by omega)
  rw [Run.exec_cons, Run.exec_cons, Run.exec_nil, ClockState.step.eq_1,
    advance_last _ _ _ _ _ _ rfl]
  simp only [ClockState.nextPhase, if_pos h, hword]

/-- Calls that each take a counter and are then held up before they read the clock. -/
def rush (calls : ℕ) : List Event :=
  (List.range calls).flatMap fun k => [.start clockId, .advance k]

def crowd (calls : ℕ) : List Call :=
  (List.range calls).map fun k => ⟨clockId, 2 * k, .reading k⟩

theorem crowd_succ (calls : ℕ) : crowd clockId (calls + 1) =
    ⟨clockId, 0, .reading 0⟩ :: (crowd clockId (calls + 1)).tail := by
  simp only [crowd, List.range_succ_eq_map, List.map_cons, List.tail_cons]

theorem exec_rush (calls : ℕ) (h : calls ≤ consistentCounterMax) :
    Run.exec ClockState.step (ClockState.new unixElapsed) (rush clockId calls) =
      ⟨unixElapsed, calls, crowd clockId calls, 2 * calls⟩ := by
  induction calls with
  | zero => rfl
  | succ calls ih =>
    have hrush : rush clockId (calls + 1) =
        rush clockId calls ++ [.start clockId, .advance calls] := by
      simp only [rush, List.range_succ, List.flatMap_append, List.flatMap_singleton]
    have hcrowd : crowd clockId (calls + 1) =
        crowd clockId calls ++ [⟨clockId, 2 * calls, .reading calls⟩] := by
      simp only [crowd, List.range_succ, List.map_append, List.map_singleton]
    have hlength : (crowd clockId calls).length = calls := by simp [crowd]
    have htake := exec_take unixElapsed clockId calls (2 * calls) (crowd clockId calls) h
    rw [hlength] at htake
    rw [hrush, Run.exec_append, ih (Nat.le_of_succ_le h), htake, hcrowd]
    rfl

/-- Calls that each take a counter and read the clock before the next one starts. -/
@[irreducible] def calm (calls : ℕ) : List Event :=
  (List.range calls).flatMap fun k => [.start clockId, .advance k, .advance k]

def served (calls : ℕ) : List Call :=
  (List.range calls).map fun k => ⟨clockId, 3 * k, .returned ⟨unixElapsed, k, 3 * k + 2⟩⟩

theorem exec_one (counter steps : ℕ) (calls : List Call) (h : counter < consistentCounterMax) :
    Run.exec ClockState.step ⟨unixElapsed, counter, calls, steps⟩
        [.start clockId, .advance calls.length, .advance calls.length] =
      ⟨unixElapsed, counter + 1,
        calls ++ [⟨clockId, steps, .returned ⟨unixElapsed, counter, steps + 2⟩⟩], steps + 3⟩ := by
  have htake := exec_take unixElapsed clockId counter steps calls h
  calc Run.exec ClockState.step ⟨unixElapsed, counter, calls, steps⟩
        ([.start clockId, .advance calls.length] ++ [.advance calls.length])
      = ClockState.step ⟨unixElapsed, counter + 1,
          calls ++ [⟨clockId, steps, .reading counter⟩], steps + 2⟩ (.advance calls.length) := by
        rw [Run.exec_append, htake, Run.exec_cons, Run.exec_nil]
    _ = _ := advance_last _ _ _ _ _ _ rfl

theorem allowed_one (hfits : FitsWord unixElapsed) (counter steps : ℕ) (calls : List Call)
    (h : counter < consistentCounterMax) :
    Run.Allowed ClockState.step Careful ⟨unixElapsed, counter, calls, steps⟩
      [.start clockId, .advance calls.length, .advance calls.length] := by
  have hword : counter + 1 < 2^64 := by
    unfold consistentCounterMax at h
    omega
  have htake := exec_take unixElapsed clockId counter steps calls h
  rw [Run.exec_cons, Run.exec_cons, Run.exec_nil] at htake
  refine ⟨trivial, ?_, ?_, trivial⟩
  · apply careful_advance _ _ ⟨clockId, steps, .counting⟩ List.getElem?_concat_length
    case hcounting => exact fun _ => hword
    case hexchanging => exact fun _ h => Phase.noConfusion h
    case hreading => exact fun _ h => Phase.noConfusion h
  · rw [htake]
    apply careful_advance _ _ ⟨clockId, steps, .reading counter⟩ List.getElem?_concat_length
    case hcounting => exact fun h => Phase.noConfusion h
    case hexchanging => exact fun _ h => Phase.noConfusion h
    case hreading => exact fun _ _ => hfits

/-- None of these calls needs to sleep. -/
theorem calm_served (hfits : FitsWord unixElapsed) (calls : ℕ) (h : calls ≤ consistentCounterMax) :
    Run.exec ClockState.step (ClockState.new unixElapsed) (calm clockId calls) =
        ⟨unixElapsed, calls, served unixElapsed clockId calls, 3 * calls⟩ ∧
      Run.Allowed ClockState.step Careful (ClockState.new unixElapsed) (calm clockId calls) := by
  induction calls with
  | zero =>
    rw [calm]
    exact ⟨rfl, trivial⟩
  | succ calls ih =>
    obtain ⟨hexec, hallowed⟩ := ih (Nat.le_of_succ_le h)
    have hcalm : calm clockId (calls + 1) =
        calm clockId calls ++ [.start clockId, .advance calls, .advance calls] := by
      simp only [calm, List.range_succ, List.flatMap_append, List.flatMap_singleton]
    have hserved : served unixElapsed clockId (calls + 1) = served unixElapsed clockId calls ++
        [⟨clockId, 3 * calls, .returned ⟨unixElapsed, calls, 3 * calls + 2⟩⟩] := by
      simp only [served, List.range_succ, List.map_append, List.map_singleton]
    have hlength : (served unixElapsed clockId calls).length = calls := by simp [served]
    have hone := exec_one unixElapsed clockId calls (3 * calls) (served unixElapsed clockId calls) h
    have hok := allowed_one unixElapsed clockId hfits calls (3 * calls)
      (served unixElapsed clockId calls) h
    rw [hlength] at hone hok
    rw [hcalm, Run.exec_append, Run.allowed_append_iff, hexec, hone, hserved]
    exact ⟨rfl, hallowed, hok⟩

/-- One more call takes the greatest counter, sleeps, sets the counter back and reads the clock,
and then the first of those held up reads it. -/
def reset : List Event :=
  [.start clockId, .advance 999, .pass nanosPerMilli, .advance 999] ++
    ([.advance 999, .advance 999] ++ [.advance 0])

/-- The call has slept until the millisecond was over, and nobody has changed the counter since. -/
theorem exec_slept (calls : List Call) (hlength : calls.length = 999) (startedAt : ℕ) :
    Run.exec ClockState.step ⟨unixElapsed, 999, calls, startedAt⟩
        [.start clockId, .advance 999, .pass nanosPerMilli, .advance 999] =
      ⟨unixElapsed + nanosPerMilli, 1000, calls ++ [⟨clockId, startedAt, .exchanging 999⟩],
        startedAt + 4⟩ := by
  have hword : (999 + 1) % 2^64 = 1000 := by norm_num
  have hlast (u c n : ℕ) (call : Call) := advance_last u c n 999 calls call hlength.symm
  rw [Run.exec_cons, ClockState.step.eq_1, Run.exec_cons, hlast, Run.exec_cons,
    ClockState.step.eq_2, Run.exec_cons, hlast, Run.exec_nil]
  simp only [ClockState.nextPhase, hword, consistentCounterMax, lt_irrefl, if_false, le_refl,
    if_true]

theorem exec_setBack (calls : List Call) (hlength : calls.length = 999) (startedAt steps : ℕ) :
    Run.exec ClockState.step
        ⟨unixElapsed, 1000, calls ++ [⟨clockId, startedAt, .exchanging 999⟩], steps⟩
        [.advance 999, .advance 999] =
      ⟨unixElapsed, 1, calls ++ [⟨clockId, startedAt, .returned ⟨unixElapsed, 0, steps + 1⟩⟩],
        steps + 2⟩ := by
  have hword : (999 + 1) % 2^64 = 1000 := by norm_num
  have hlast (u c n : ℕ) (call : Call) := advance_last u c n 999 calls call hlength.symm
  rw [Run.exec_cons, hlast, Run.exec_cons, hlast, Run.exec_nil]
  simp only [ClockState.nextPhase, hword, if_true]

theorem exec_reset (calls : List Call) (first : Call) (startedAt : ℕ)
    (hlength : (first :: calls).length = 999) (hfirst : first.phase = .reading 0) :
    (Run.exec ClockState.step ⟨unixElapsed, 999, first :: calls, startedAt⟩ (reset clockId)).calls =
      { first with phase := .returned ⟨unixElapsed + nanosPerMilli, 0, startedAt + 6⟩ } ::
        (calls ++ [⟨clockId, startedAt,
          .returned ⟨unixElapsed + nanosPerMilli, 0, startedAt + 5⟩⟩]) := by
  rw [reset, Run.exec_append, Run.exec_append, exec_slept unixElapsed clockId _ hlength,
    exec_setBack _ clockId _ hlength, Run.exec_cons, Run.exec_nil, advance_eq _ 0 first rfl, hfirst]
  rfl

/-- The counter may be set back where every call of the millisecond before has returned. -/
theorem allowed_reset (calls : List Call) (hlength : calls.length = 999) (startedAt : ℕ)
    (hfits : FitsWord (unixElapsed + nanosPerMilli))
    (hcalls : ∀ call ∈ calls, ∃ counter returnedAt,
      call.phase = .returned ⟨unixElapsed, counter, returnedAt⟩) :
    Run.Allowed ClockState.step Careful ⟨unixElapsed, 999, calls, startedAt⟩ (reset clockId) := by
  have hlast (u c n : ℕ) (call : Call) := advance_last u c n 999 calls call hlength.symm
  have hself (call : Call) : (calls ++ [call])[999]? = some call := by
    rw [← hlength, List.getElem?_concat_length]
  have hover : milli (unixElapsed + nanosPerMilli) = milli unixElapsed + 1 :=
    Nat.add_div_right _ (by norm_num [nanosPerMilli])
  rw [reset, Run.allowed_append_iff, exec_slept unixElapsed clockId calls hlength,
    Run.allowed_append_iff, exec_setBack _ clockId calls hlength]
  refine ⟨?_, ?_, ?_⟩
  · -- the greatest counter is below the word, and a sleeping call may always go on
    refine ⟨trivial, ?_, trivial, ?_, trivial⟩
    · rw [ClockState.step.eq_1]
      apply careful_advance _ _ _ (hself _)
      all_goals simp
    · rw [ClockState.step.eq_1, hlast, ClockState.step.eq_2]
      apply careful_advance _ _ _ (hself _)
      all_goals simp [ClockState.nextPhase, consistentCounterMax]
  · have hmem (j : ℕ) (call : Call)
        (h : (calls ++ [⟨clockId, startedAt, .exchanging 999⟩])[j]? = some call) :
        call ∈ calls ∨ call = ⟨clockId, startedAt, .exchanging 999⟩ := by
      have := List.mem_of_getElem? h
      rwa [List.mem_append, List.mem_singleton] at this
    refine ⟨careful_advance _ _ _ (hself _) (by simp) ?_ (by simp), ?_, trivial⟩
    · intro counter _
      constructor
      · rintro j k st ⟨call, hj, hphase, -⟩
        rcases hmem j call hj with h | rfl
        · obtain ⟨c, r, hreturned⟩ := hcalls call h
          rw [hreturned] at hphase
          cases hphase
        · cases hphase
      · rintro j stamp st ⟨call, hj, hphase, -⟩
        rcases hmem j call hj with h | rfl
        · obtain ⟨c, r, hreturned⟩ := hcalls call h
          rw [hreturned] at hphase
          cases hphase
          show milli unixElapsed < milli (unixElapsed + nanosPerMilli)
          omega
        · cases hphase
    · rw [hlast]
      apply careful_advance _ _ _ (hself _)
      all_goals simp [ClockState.nextPhase, hfits]
  · have hlt : 0 < calls.length := by omega
    obtain ⟨first, hfirst⟩ : ∃ first, calls[0]? = some first :=
      ⟨_, List.getElem?_eq_getElem hlt⟩
    obtain ⟨counter, returnedAt, hphase⟩ := hcalls first (List.mem_of_getElem? hfirst)
    rw [← List.getElem?_append_left hlt] at hfirst
    refine ⟨careful_advance _ _ first hfirst ?_ ?_ ?_, trivial⟩
    all_goals simp [hphase]

end Rush

/-- In every run of calls in which the counter is set back only where no counter of the millisecond
is out, no timestamp repeats and a later call has a greater one. -/
theorem consistentTime_unique (unixElapsed : ℕ) (events : List Event)
    (hrun : Run.Allowed ClockState.step Careful (ClockState.new unixElapsed) events) :
    Unique (Run.exec ClockState.step (ClockState.new unixElapsed) events) := by
  apply Counted.unique
  exact Run.exec_invariant ClockState.step Careful Counted (fun _ a hs => hs.step a) _ events
    (counted_new unixElapsed) hrun

/-- 999 calls of one node in one millisecond, and one that sleeps until the next one. -/
theorem consistentTime_setBack :
    Unique (Run.exec ClockState.step (ClockState.new 1700000000000000000)
      (calm 5 999 ++ reset 5)) := by
  apply consistentTime_unique
  have hfits : FitsWord 1700000000000000000 := by norm_num [FitsWord, milli, nanosPerMilli]
  have hnext : FitsWord (1700000000000000000 + nanosPerMilli) := by
    norm_num [FitsWord, milli, nanosPerMilli]
  obtain ⟨hexec, hcalm⟩ := calm_served 1700000000000000000 5 hfits 999 (le_refl _)
  rw [Run.allowed_append_iff, hexec]
  refine ⟨hcalm, allowed_reset _ 5 _ (by simp [served]) _ hnext ?_⟩
  intro call hmem
  obtain ⟨k, -, rfl⟩ := List.mem_map.mp hmem
  exact ⟨k, 3 * k + 2, rfl⟩

theorem not_unique_of_same (s : ClockState) (first last : Call) (calls : List Call)
    (hcalls : s.calls = first :: (calls ++ [last])) (t : ℕ) (hfirst : first.timestamp = some t)
    (hlast : last.timestamp = some t) : ¬ Unique s := by
  intro h
  have hdistinct := h.distinct 0 (calls.length + 1)
  rw [hcalls, List.getElem?_cons_zero, List.getElem?_cons_succ,
    List.getElem?_concat_length] at hdistinct
  exact hdistinct first last t t rfl rfl (Nat.succ_ne_zero _).symm hfirst hlast rfl

/-- A call that is held up with the first counter reads the clock in the millisecond in which the
counter has been set back. -/
theorem heldUp_not_unique :
    ¬ Unique (Run.exec ClockState.step (ClockState.new 1700000000000000000)
      (rush 5 999 ++ reset 5)) := by
  intro h
  have hcrowd : crowd 5 999 = ⟨5, 0, .reading 0⟩ :: (crowd 5 999).tail :=
    crowd_succ 5 998
  have hlength : (crowd 5 999).length = 999 := by simp [crowd]
  have hcalls := exec_reset 1700000000000000000 5 (crowd 5 999).tail ⟨5, 0, .reading 0⟩ (2 * 999)
    (by rw [← hcrowd, hlength]) rfl
  rw [← hcrowd, ← exec_rush 1700000000000000000 5 999 (le_refl _), ← Run.exec_append] at hcalls
  exact not_unique_of_same _ _ _ _ hcalls _ rfl rfl h

end Exocore.Core.Time
