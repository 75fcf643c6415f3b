import Exocore.StoreWatched

/-! The executions of watched queries: checks queue them, they read the index at some moment,
complete in any order and reply through a bounded channel. -/
namespace Exocore.Store

open SortedMap

/-- What a consumer reads of the results of a query. -/
structure Delivered where
  hash : ResultHash
  skippedHash : Bool
deriving DecidableEq

/-- A request in flight, with its copy of the query; once it has read the index, with the moment
of the reading and the hash of the results. -/
structure Execution where
  token : WatchToken
  sender : StreamId
  resultHash : ResultHash
  read : Option (ℕ × ResultHash)
deriving DecidableEq

/-- The channel of a stream: the hash its consumer came with, the results that went through and
how many of them are not consumed. -/
structure WatchChannel where
  token : WatchToken
  known : ResultHash
  sent : List Delivered
  unread : ℕ
  closed : Bool
deriving DecidableEq

/-- The store with the index that its queries read. The version counts the changes of the index;
it is not part of the code. -/
structure WatchWorld (I : Type) where
  index : I
  version : ℕ
  checked : Bool
  watched : WatchedQueries
  executions : List Execution
  channels : Map StreamId WatchChannel
  nextStream : StreamId

inductive WatchStep (I : Type) where
  | watch (query : EntityQuery) (accepted : Bool)
  | change (index : I)
  | check (accepted : WatchToken → Bool)
  | read (i : ℕ)
  | complete (i : ℕ)
  | fail (i : ℕ)
  | consume (stream : StreamId)
  | dropStream (stream : StreamId)

namespace WatchWorld

variable {I : Type}

/-- The request of a watched query, as it is registered. -/
def request (token : WatchToken) (query : RegisteredWatchedQuery) : Execution :=
  ⟨token, query.sender, query.query.resultHash, none⟩

/-- The channel of the queries may have no room for the first request: it is then dismissed. -/
def watchedQuery (w : WatchWorld I) (query : EntityQuery) (accepted : Bool) : WatchWorld I :=
  { w with
    watched := w.watched.trackQuery query.watchToken query w.nextStream
    executions := if accepted then
      w.executions ++ [⟨query.watchToken, w.nextStream, query.resultHash, none⟩] else w.executions
    channels := w.channels.insert w.nextStream ⟨query.watchToken, query.resultHash, [], 0, false⟩
    nextStream := w.nextStream + 1 }

/-- A query whose request finds no room is removed. -/
def check (w : WatchWorld I) (accepted : WatchToken → Bool) : WatchWorld I :=
  { w with
    checked := true
    watched := w.watched.filterKeys accepted
    executions := w.executions ++ (w.watched.filterKeys accepted).entries.map fun entry =>
      request entry.1 entry.2 }

/-- The search reads the index as it is. -/
def readIndex (hashOf : I → WatchToken → ResultHash) (w : WatchWorld I) (i : ℕ) : WatchWorld I :=
  let run (execution : Execution) : Execution :=
    ⟨execution.token, execution.sender, execution.resultHash,
      execution.read.or (some (w.version, hashOf w.index execution.token))⟩
  { w with executions := w.executions.modify i run }

/-- The results go through if the receiver is there and the channel has room. An error takes its
room as well, but carries no hash. -/
def trySend (capacity : ℕ) (channel : WatchChannel) (result : Option Delivered) : WatchChannel :=
  if channel.closed = false ∧ channel.unread < capacity then
    { channel with sent := channel.sent ++ result.toList, unread := channel.unread + 1 }
  else channel

def reply (capacity : ℕ) (w : WatchWorld I) (sender : StreamId) (result : Option Delivered) :
    WatchWorld I :=
  match w.channels.get sender with
  | some channel =>
    { w with channels := w.channels.insert sender (trySend capacity channel result) }
  | none => w

/-- The executor takes the results of a search: the registered query is updated first, and the
reply goes to the sender of the request. -/
def completeExecution (capacity : ℕ) (w : WatchWorld I) (i : ℕ) : WatchWorld I :=
  match w.executions[i]? with
  | some ⟨token, sender, resultHash, some (_, hash)⟩ =>
    let updated := w.watched.updateQueryResults token hash
    let w' := { w with executions := w.executions.eraseIdx i, watched := updated.2 }
    if updated.1 then w'.reply capacity sender (some ⟨hash, decide (hash = resultHash)⟩) else w'
  | _ => w

/-- A search that fails unwatches the query, and its error is replied. -/
def failExecution (capacity : ℕ) (w : WatchWorld I) (i : ℕ) : WatchWorld I :=
  match w.executions[i]? with
  | some execution =>
    let w' := { w with
      executions := w.executions.eraseIdx i
      watched := w.watched.unwatchQuery execution.token }
    w'.reply capacity execution.sender none
  | none => w

def consume (w : WatchWorld I) (stream : StreamId) : WatchWorld I :=
  match w.channels.get stream with
  | some channel =>
    { w with channels := w.channels.insert stream { channel with unread := channel.unread - 1 } }
  | none => w

def dropStream (w : WatchWorld I) (stream : StreamId) : WatchWorld I :=
  match w.channels.get stream with
  | some channel =>
    { w with
      channels := w.channels.insert stream { channel with closed := true }
      watched := w.watched.unwatchQuery channel.token }
  | none => w

def step (hashOf : I → WatchToken → ResultHash) (capacity : ℕ) (w : WatchWorld I) :
    WatchStep I → WatchWorld I
  | .watch query accepted => w.watchedQuery query accepted
  | .change index => { w with index := index, version := w.version + 1, checked := false }
  | .check accepted => w.check accepted
  | .read i => w.readIndex hashOf i
  | .complete i => w.completeExecution capacity i
  | .fail i => w.failExecution capacity i
  | .consume stream => w.consume stream
  | .dropStream stream => w.dropStream stream

def start (index : I) : WatchWorld I := ⟨index, 0, false, .empty, [], .empty, 0⟩

/-- With nothing in flight after a check, the last result of every watched query is current. -/
def EndsCurrent (hashOf : I → WatchToken → ResultHash) (w : WatchWorld I) : Prop :=
  w.executions = [] → w.checked = true → ∀ token query, w.watched.get token = some query →
    ∃ channel result, w.channels.get query.sender = some channel ∧
      channel.sent.getLast? = some result ∧ result.hash = hashOf w.index token

/-- Each result whose hash is skipped has the hash of the result before it, the first one that of
the result its consumer came with. -/
def SkipsFollow : ResultHash → List Delivered → Prop
  | _, [] => True
  | known, result :: results =>
    (result.skippedHash = true → result.hash = known) ∧ SkipsFollow result.hash results

def SkipsSame (w : WatchWorld I) : Prop :=
  ∀ stream channel, w.channels.get stream = some channel →
    SkipsFollow channel.known channel.sent

/-- What a completion must meet: the token is not registered, or the request is of its
registration, no execution that is left has read the index before, the copy of the query is not
behind where its hash is skipped, and a result that is to be replied goes through. -/
structure MeetsCompletion (capacity : ℕ) (w : WatchWorld I) (i : ℕ) (execution : Execution)
    (moment : ℕ) (hash : ResultHash) (query : RegisteredWatchedQuery) : Prop where
  sender : query.sender = execution.sender
  order : ∀ j other moment' hash', j ≠ i → w.executions[j]? = some other →
    other.token = execution.token → other.read = some (moment', hash') → moment ≤ moment'
  copy : hash = execution.resultHash → query.query.resultHash = hash
  room : query.lastHash ≠ some hash → ∀ channel, w.channels.get execution.sender = some channel →
    channel.closed = false ∧ channel.unread < capacity

/-- What the steps must meet. -/
def Meets (capacity : ℕ) (w : WatchWorld I) : WatchStep I → Prop
  | .watch _ accepted => accepted = true
  | .complete i => ∀ execution moment hash query, w.executions[i]? = some execution →
      execution.read = some (moment, hash) → w.watched.get execution.token = some query →
      MeetsCompletion capacity w i execution moment hash query
  | _ => True

/-- The registered query and its channel agree on what went through last. -/
structure Agree (token : WatchToken) (query : RegisteredWatchedQuery) (channel : WatchChannel) :
    Prop where
  token : channel.token = token
  last : query.lastHash = channel.sent.getLast?.map Delivered.hash
  hash : query.query.resultHash = query.lastHash.getD channel.known

/-- An execution that will give the current results of a registered query. -/
def Fresh (w : WatchWorld I) (token : WatchToken) (query : RegisteredWatchedQuery)
    (execution : Execution) : Prop :=
  execution.token = token ∧ execution.sender = query.sender ∧
    (execution.read = none ∨ ∃ hash, execution.read = some (w.version, hash))

/-- The invariant of the runs, with the moment of the last results of each token. -/
structure Tracks (hashOf : I → WatchToken → ResultHash) (w : WatchWorld I)
    (lastRead : WatchToken → ℕ) : Prop where
  channel : ∀ token query, w.watched.get token = some query →
    ∃ channel, w.channels.get query.sender = some channel ∧ Agree token query channel
  streams : ∀ stream channel, w.channels.get stream = some channel → stream < w.nextStream
  skips : w.SkipsSame
  moments : ∀ execution ∈ w.executions, ∀ moment hash, execution.read = some (moment, hash) →
    moment ≤ w.version ∧ (moment = w.version → hash = hashOf w.index execution.token)
  past : ∀ token, lastRead token ≤ w.version
  order : ∀ token query, w.watched.get token = some query → ∀ execution ∈ w.executions,
    execution.token = token → ∀ moment hash, execution.read = some (moment, hash) →
      lastRead token ≤ moment
  current : ∀ token query, w.watched.get token = some query → w.checked = true →
    (∃ execution ∈ w.executions, w.Fresh token query execution) ∨
      (lastRead token = w.version ∧ query.lastHash = some (hashOf w.index token))

theorem Tracks.endsCurrent {hashOf : I → WatchToken → ResultHash} {w : WatchWorld I}
    {lastRead : WatchToken → ℕ} (h : Tracks hashOf w lastRead) : w.EndsCurrent hashOf := by
  intro hnone hchecked token query hquery
  obtain ⟨channel, hchannel, hagree⟩ := h.channel token query hquery
  rcases h.current token query hquery hchecked with ⟨execution, hmem, _⟩ | ⟨_, hlast⟩
  · rw [hnone] at hmem
    contradiction
  · rw [hagree.last] at hlast
    obtain ⟨result, hresult, hhash⟩ := Option.map_eq_some_iff.mp hlast
    exact ⟨channel, result, hchannel, hresult, hhash⟩

/-- The hash that a consumer has after some results. -/
def knownAfter (known : ResultHash) (results : List Delivered) : ResultHash :=
  (results.getLast?.map Delivered.hash).getD known

theorem skipsFollow_append (known : ResultHash) (results : List Delivered) (result : Delivered)
    (h : SkipsFollow known results)
    (hresult : result.skippedHash = true → result.hash = knownAfter known results) :
    SkipsFollow known (results ++ [result]) := by
  induction results generalizing known with
  | nil => exact ⟨hresult, trivial⟩
  | cons first results ih =>
    refine ⟨h.1, ih first.hash h.2 ?_⟩
    intro hskipped
    have hknown : knownAfter known (first :: results) = knownAfter first.hash results := by
      rw [knownAfter, knownAfter, List.getLast?_cons]
      cases results.getLast? <;> rfl
    rw [← hknown]
    exact hresult hskipped

theorem mem_modify (l : List Execution) (i : ℕ) (f : Execution → Execution) (e : Execution)
    (h : e ∈ l.modify i f) : ∃ e' ∈ l, e = e' ∨ e = f e' := by
  obtain ⟨j, hj⟩ := List.mem_iff_getElem?.mp h
  rw [List.getElem?_modify] at hj
  obtain ⟨e', he', rfl⟩ := Option.map_eq_some_iff.mp hj
  refine ⟨e', List.mem_iff_getElem?.mpr ⟨j, he'⟩, ?_⟩
  split_ifs
  · exact Or.inr rfl
  · exact Or.inl rfl

theorem exists_mem_modify (l : List Execution) (i : ℕ) (f : Execution → Execution)
    (e : Execution) (h : e ∈ l) : ∃ e' ∈ l.modify i f, e' = e ∨ e' = f e := by
  obtain ⟨j, hj⟩ := List.mem_iff_getElem?.mp h
  have hget : (l.modify i f)[j]? = some (if i = j then f e else e) := by
    rw [List.getElem?_modify, hj]
    split_ifs <;> rfl
  refine ⟨_, List.mem_iff_getElem?.mpr ⟨j, hget⟩, ?_⟩
  split_ifs
  · exact Or.inr rfl
  · exact Or.inl rfl

section Steps

variable {hashOf : I → WatchToken → ResultHash} {capacity : ℕ} {w : WatchWorld I}
  {lastRead : WatchToken → ℕ}

theorem tracks_start (index : I) : Tracks hashOf (start index) fun _ => 0 := by
  constructor <;> simp [start, SkipsSame]

theorem tracks_watch (h : Tracks hashOf w lastRead) (query : EntityQuery) :
    Tracks hashOf (w.watchedQuery query true) (Function.update lastRead query.watchToken 0) := by
  have hnew : ∀ token registered, w.watched.get token = some registered →
      registered.sender ≠ w.nextStream := by
    intro token registered hget heq
    obtain ⟨channel, hchannel, _⟩ := h.channel token registered hget
    rw [heq] at hchannel
    exact absurd (h.streams _ _ hchannel) (lt_irrefl _)
  simp only [watchedQuery, if_true, WatchedQueries.trackQuery]
  constructor
  · intro token registered hget
    rw [Map.get_insert] at hget
    split_ifs at hget with htoken
    · obtain rfl := Option.some.inj hget
      exact ⟨⟨query.watchToken, query.resultHash, [], 0, false⟩, by rw [Map.get_insert, if_pos rfl],
        htoken.symm, rfl, rfl⟩
    · obtain ⟨channel, hchannel, hagree⟩ := h.channel token registered hget
      refine ⟨channel, ?_, hagree⟩
      rw [Map.get_insert, if_neg (hnew token registered hget)]
      exact hchannel
  · intro stream channel hget
    rw [Map.get_insert] at hget
    split_ifs at hget with hstream
    · rw [hstream]
      exact Nat.lt_succ_self _
    · exact (h.streams stream channel hget).trans (Nat.lt_succ_self _)
  · intro stream channel hget
    rw [Map.get_insert] at hget
    split_ifs at hget with hstream
    · obtain rfl := Option.some.inj hget
      trivial
    · exact h.skips stream channel hget
  · intro execution hmem moment hash hread
    rcases List.mem_append.mp hmem with hmem | hmem
    · exact h.moments execution hmem moment hash hread
    · rw [List.mem_singleton.mp hmem] at hread
      contradiction
  · intro token
    rw [Function.update_apply]
    split_ifs
    · exact Nat.zero_le _
    · exact h.past token
  · intro token registered hget execution hmem htoken moment hash hread
    rw [Function.update_apply]
    split_ifs with hsame
    · exact Nat.zero_le _
    · rw [Map.get_insert, if_neg hsame] at hget
      rcases List.mem_append.mp hmem with hmem | hmem
      · exact h.order token registered hget execution hmem htoken moment hash hread
      · rw [List.mem_singleton.mp hmem] at hread
        contradiction
  · intro token registered hget hchecked
    rw [Map.get_insert] at hget
    split_ifs at hget with hsame
    · obtain rfl := Option.some.inj hget
      exact Or.inl ⟨_, List.mem_append_right _ (List.mem_singleton.mpr rfl), hsame.symm, rfl,
        Or.inl rfl⟩
    · rw [Function.update_of_ne hsame]
      rcases h.current token registered hget hchecked with ⟨execution, hmem, hfresh⟩ | hlast
      · exact Or.inl ⟨execution, List.mem_append_left _ hmem, hfresh⟩
      · exact Or.inr hlast

theorem tracks_change (h : Tracks hashOf w lastRead) (index : I) :
    Tracks hashOf { w with index := index, version := w.version + 1, checked := false }
      lastRead where
  channel := h.channel
  streams := h.streams
  skips := h.skips
  moments execution hmem moment hash hread := by
    have hle := (h.moments execution hmem moment hash hread).1
    exact ⟨hle.trans (Nat.le_succ _), fun heq => absurd (heq ▸ hle) (Nat.not_succ_le_self _)⟩
  past token := (h.past token).trans (Nat.le_succ _)
  order := h.order
  current _ _ _ hchecked := absurd hchecked (by simp)

theorem tracks_check (h : Tracks hashOf w lastRead) (accepted : WatchToken → Bool) :
    Tracks hashOf (w.check accepted) lastRead := by
  have hless : ∀ token query, (w.watched.filterKeys accepted).get token = some query →
      w.watched.get token = some query := by
    intro token query hget
    rw [Map.get_filterKeys] at hget
    split_ifs at hget
    exact hget
  have hread : ∀ execution ∈ (w.watched.filterKeys accepted).entries.map
      (fun entry => request entry.1 entry.2), execution.read = none := by
    intro execution hmem
    obtain ⟨entry, _, rfl⟩ := List.mem_map.mp hmem
    rfl
  constructor
  · exact fun token query hget => h.channel token query (hless token query hget)
  · exact h.streams
  · exact h.skips
  · intro execution hmem moment hash hmoment
    rcases List.mem_append.mp hmem with hmem | hmem
    · exact h.moments execution hmem moment hash hmoment
    · rw [hread execution hmem] at hmoment
      contradiction
  · exact h.past
  · intro token query hget execution hmem htoken moment hash hmoment
    rcases List.mem_append.mp hmem with hmem | hmem
    · exact h.order token query (hless token query hget) execution hmem htoken moment hash hmoment
    · rw [hread execution hmem] at hmoment
      contradiction
  · intro token query hget _
    refine Or.inl ⟨request token query, List.mem_append_right _ (List.mem_map.mpr
      ⟨(token, query), ?_, rfl⟩), rfl, rfl, Or.inl rfl⟩
    exact (Map.mem_entries_iff _ _ _).mpr hget

theorem tracks_read (h : Tracks hashOf w lastRead) (i : ℕ) :
    Tracks hashOf (w.readIndex hashOf i) lastRead := by
  set run : Execution → Execution := fun execution =>
    ⟨execution.token, execution.sender, execution.resultHash,
      execution.read.or (some (w.version, hashOf w.index execution.token))⟩ with hrun
  have hexecutions : (w.readIndex hashOf i).executions = w.executions.modify i run := rfl
  -- an execution that has read the index did so before, or reads it now
  have hread : ∀ execution ∈ (w.readIndex hashOf i).executions, ∀ moment hash,
      execution.read = some (moment, hash) →
      (∃ execution' ∈ w.executions, execution'.token = execution.token ∧
        execution'.read = some (moment, hash)) ∨
      (moment = w.version ∧ hash = hashOf w.index execution.token) := by
    intro execution hmem moment hash hmoment
    rw [hexecutions] at hmem
    obtain ⟨execution', hmem', heq | heq⟩ := mem_modify _ _ _ _ hmem
    · rw [heq] at hmoment ⊢
      exact Or.inl ⟨execution', hmem', rfl, hmoment⟩
    · rw [heq] at hmoment ⊢
      simp only [hrun] at hmoment ⊢
      cases hbefore : execution'.read with
      | some read =>
        rw [hbefore, Option.some_or] at hmoment
        exact Or.inl ⟨execution', hmem', rfl, by rw [hbefore]; exact hmoment⟩
      | none =>
        rw [hbefore, Option.none_or] at hmoment
        obtain ⟨rfl, rfl⟩ := Prod.mk.inj (Option.some.inj hmoment)
        exact Or.inr ⟨rfl, rfl⟩
  constructor
  · exact h.channel
  · exact h.streams
  · exact h.skips
  · intro execution hmem moment hash hmoment
    rcases hread execution hmem moment hash hmoment with
      ⟨execution', hmem', htoken, hmoment'⟩ | ⟨rfl, rfl⟩
    · rw [← htoken]
      exact h.moments execution' hmem' moment hash hmoment'
    · exact ⟨le_rfl, fun _ => rfl⟩
  · exact h.past
  · intro token query hget execution hmem htoken moment hash hmoment
    rcases hread execution hmem moment hash hmoment with
      ⟨execution', hmem', htoken', hmoment'⟩ | ⟨rfl, rfl⟩
    · exact h.order token query hget execution' hmem' (htoken'.trans htoken) moment hash hmoment'
    · exact h.past token
  · intro token query hget hchecked
    rcases h.current token query hget hchecked with ⟨execution, hmem, htoken, hsender, hfresh⟩ |
      hlast
    · left
      obtain ⟨execution', hmem', heq | heq⟩ := exists_mem_modify w.executions i run execution hmem
      · exact ⟨execution', hmem', by rw [heq]; exact ⟨htoken, hsender, hfresh⟩⟩
      · refine ⟨execution', hmem', ?_⟩
        rw [heq]
        refine ⟨htoken, hsender, Or.inr ?_⟩
        rcases hfresh with hnone | ⟨hash, hsome⟩
        · exact ⟨hashOf w.index execution.token, by simp only [hrun, hnone]; rfl⟩
        · exact ⟨hash, by simp only [hrun, hsome]; rfl⟩
    · exact Or.inr hlast

/-- What the invariant reads of a channel. -/
def passed (channel : WatchChannel) : WatchToken × ResultHash × List Delivered :=
  (channel.token, channel.known, channel.sent)

theorem agree_of_passed (token : WatchToken) (query : RegisteredWatchedQuery)
    (channel channel' : WatchChannel) (h : passed channel' = passed channel)
    (hagree : Agree token query channel) : Agree token query channel' := by
  obtain ⟨htoken, hknown, hsent⟩ : channel'.token = channel.token ∧
      channel'.known = channel.known ∧ channel'.sent = channel.sent := by simpa [passed] using h
  exact ⟨htoken.trans hagree.token, by rw [hsent]; exact hagree.last,
    by rw [hknown]; exact hagree.hash⟩

/-- Queries are unwatched, executions of other queries end, and nothing goes through. -/
theorem tracks_less (h : Tracks hashOf w lastRead) (watched : WatchedQueries)
    (executions : List Execution) (channels : Map StreamId WatchChannel)
    (hwatched : ∀ token query, watched.get token = some query →
      w.watched.get token = some query)
    (hless : ∀ execution ∈ executions, execution ∈ w.executions)
    (hkept : ∀ token query, watched.get token = some query → ∀ execution ∈ w.executions,
      execution.token = token → execution ∈ executions)
    (hchannels : ∀ stream, (channels.get stream).map passed =
      (w.channels.get stream).map passed) :
    Tracks hashOf ⟨w.index, w.version, w.checked, watched, executions, channels, w.nextStream⟩
      lastRead := by
  have hbefore : ∀ stream channel', channels.get stream = some channel' →
      ∃ channel, w.channels.get stream = some channel ∧ passed channel' = passed channel := by
    intro stream channel' hget
    have heq := hchannels stream
    rw [hget, Option.map_some] at heq
    obtain ⟨channel, hchannel, hpassed⟩ := Option.map_eq_some_iff.mp heq.symm
    exact ⟨channel, hchannel, hpassed.symm⟩
  constructor
  · intro token query hget
    obtain ⟨channel, hchannel, hagree⟩ := h.channel token query (hwatched token query hget)
    have heq := hchannels query.sender
    rw [hchannel, Option.map_some] at heq
    obtain ⟨channel', hchannel', hpassed⟩ := Option.map_eq_some_iff.mp heq
    exact ⟨channel', hchannel', agree_of_passed token query channel channel' hpassed hagree⟩
  · intro stream channel' hget
    obtain ⟨channel, hchannel, _⟩ := hbefore stream channel' hget
    exact h.streams stream channel hchannel
  · intro stream channel' hget
    obtain ⟨channel, hchannel, hpassed⟩ := hbefore stream channel' hget
    obtain ⟨_, hknown, hsent⟩ : channel'.token = channel.token ∧
      channel'.known = channel.known ∧ channel'.sent = channel.sent := by
        simpa [passed] using hpassed
    rw [hknown, hsent]
    exact h.skips stream channel hchannel
  · exact fun execution hmem => h.moments execution (hless execution hmem)
  · exact h.past
  · exact fun token query hget execution hmem =>
      h.order token query (hwatched token query hget) execution (hless execution hmem)
  · intro token query hget hchecked
    rcases h.current token query (hwatched token query hget) hchecked with
      ⟨execution, hmem, hfresh⟩ | hlast
    · exact Or.inl ⟨execution, hkept token query hget execution hmem hfresh.1, hfresh⟩
    · exact Or.inr hlast

theorem passed_insert (channels : Map StreamId WatchChannel) (stream : StreamId)
    (channel channel' : WatchChannel) (hget : channels.get stream = some channel)
    (h : passed channel' = passed channel) (stream' : StreamId) :
    ((channels.insert stream channel').get stream').map passed =
      (channels.get stream').map passed := by
  rw [Map.get_insert]
  split_ifs with hstream
  · rw [hstream, hget, Option.map_some, Option.map_some, h]
  · rfl

theorem tracks_consume (h : Tracks hashOf w lastRead) (stream : StreamId) :
    Tracks hashOf (w.consume stream) lastRead := by
  rw [consume]
  cases hget : w.channels.get stream with
  | none => exact h
  | some channel =>
    exact tracks_less h _ _ _ (fun _ _ hq => hq) (fun _ he => he) (fun _ _ _ _ he _ => he)
      (passed_insert w.channels stream channel _ hget rfl)

/-- A query that is unwatched leaves the others. -/
theorem get_unwatched (watched : WatchedQueries) (token token' : WatchToken)
    (query : RegisteredWatchedQuery)
    (h : (watched.unwatchQuery token).get token' = some query) :
    token' ≠ token ∧ watched.get token' = some query := by
  rw [WatchedQueries.unwatchQuery, Map.get_erase] at h
  split_ifs at h with hsame
  exact ⟨hsame, h⟩

theorem tracks_dropStream (h : Tracks hashOf w lastRead) (stream : StreamId) :
    Tracks hashOf (w.dropStream stream) lastRead := by
  rw [dropStream]
  cases hget : w.channels.get stream with
  | none => exact h
  | some channel =>
    exact tracks_less h _ _ _ (fun token query hq => (get_unwatched _ _ token query hq).2)
      (fun _ he => he) (fun _ _ _ _ he _ => he)
      (passed_insert w.channels stream channel _ hget rfl)

/-- The executions of other tokens are left when one is taken out. -/
theorem mem_eraseIdx_of_token (executions : List Execution) (i : ℕ) (execution : Execution)
    (hget : executions[i]? = some execution) (other : Execution) (hother : other ∈ executions)
    (htoken : other.token ≠ execution.token) : other ∈ executions.eraseIdx i := by
  obtain ⟨j, hj⟩ := List.mem_iff_getElem?.mp hother
  refine List.mem_eraseIdx_iff_getElem?.mpr ⟨j, ?_, hj⟩
  rintro rfl
  rw [hget] at hj
  exact htoken (congrArg Execution.token (Option.some.inj hj)).symm

theorem tracks_fail (h : Tracks hashOf w lastRead) (i : ℕ) :
    Tracks hashOf (w.failExecution capacity i) lastRead := by
  rw [failExecution]
  cases hget : w.executions[i]? with
  | none => exact h
  | some execution =>
    have hwatched : ∀ token query,
        (w.watched.unwatchQuery execution.token).get token = some query →
        w.watched.get token = some query :=
      fun token query hq => (get_unwatched _ _ token query hq).2
    have hkept : ∀ token query,
        (w.watched.unwatchQuery execution.token).get token = some query →
        ∀ other ∈ w.executions, other.token = token → other ∈ w.executions.eraseIdx i := by
      intro token query hq other hother htoken
      apply mem_eraseIdx_of_token w.executions i execution hget other hother
      rw [htoken]
      exact (get_unwatched _ _ token query hq).1
    have hless : ∀ other ∈ w.executions.eraseIdx i, other ∈ w.executions :=
      fun other hother => List.mem_of_mem_eraseIdx hother
    simp only [reply]
    cases hchannel : w.channels.get execution.sender with
    | none => exact tracks_less h _ _ _ hwatched hless hkept fun _ => rfl
    | some channel =>
      refine tracks_less h _ _ _ hwatched hless hkept
        (passed_insert w.channels _ channel _ hchannel ?_)
      rw [trySend]
      split_ifs
      · simp [passed]
      · rfl

/-- Two registered queries have different senders. -/
theorem Tracks.sender_ne (h : Tracks hashOf w lastRead) (token token' : WatchToken)
    (query query' : RegisteredWatchedQuery) (hget : w.watched.get token = some query)
    (hget' : w.watched.get token' = some query') (hne : token' ≠ token) :
    query'.sender ≠ query.sender := by
  intro hsender
  obtain ⟨channel, hchannel, hagree⟩ := h.channel token query hget
  obtain ⟨channel', hchannel', hagree'⟩ := h.channel token' query' hget'
  rw [hsender, hchannel] at hchannel'
  obtain rfl := Option.some.inj hchannel'
  exact hne (hagree'.token.symm.trans hagree.token)

/-- With the results of an execution, the query is current unless a fresh execution is left. -/
theorem Tracks.update_current (h : Tracks hashOf w lastRead) (i : ℕ) (execution : Execution)
    (moment : ℕ) (hash : ResultHash) (query query' : RegisteredWatchedQuery)
    (hget : w.executions[i]? = some execution) (hread : execution.read = some (moment, hash))
    (hquery : w.watched.get execution.token = some query) (hchecked : w.checked = true)
    (hlast : query'.lastHash = some hash) (hsender : query'.sender = query.sender) :
    (∃ other ∈ w.executions.eraseIdx i, w.Fresh execution.token query' other) ∨
      (moment = w.version ∧ query'.lastHash = some (hashOf w.index execution.token)) := by
  have hmem : execution ∈ w.executions := List.mem_of_getElem? hget
  obtain ⟨hmoment, hcurrent⟩ := h.moments execution hmem moment hash hread
  have hdone (heq : moment = w.version) : moment = w.version ∧
      query'.lastHash = some (hashOf w.index execution.token) := by
    rw [hlast, hcurrent heq]
    exact ⟨heq, rfl⟩
  rcases h.current _ query hquery hchecked with ⟨other, hother, hfresh⟩ | ⟨hversion, _⟩
  · obtain ⟨j, hj⟩ := List.mem_iff_getElem?.mp hother
    by_cases hij : j = i
    · -- the fresh execution is the one whose results these are
      rw [hij, hget] at hj
      obtain rfl := Option.some.inj hj
      rcases hfresh.2.2 with hnone | ⟨hash', hsome⟩
      · rw [hnone] at hread
        contradiction
      · rw [hsome] at hread
        exact Or.inr (hdone (Prod.mk.inj (Option.some.inj hread)).1.symm)
    · refine Or.inl ⟨other, List.mem_eraseIdx_iff_getElem?.mpr ⟨j, hij, hj⟩, hfresh.1, ?_,
        hfresh.2.2⟩
      rw [hsender]
      exact hfresh.2.1
  · have hle := h.order _ query hquery execution hmem rfl moment hash hread
    rw [hversion] at hle
    exact Or.inr (hdone (le_antisymm hmoment hle))

/-- The results of an execution become those of the registered query. -/
theorem tracks_update (h : Tracks hashOf w lastRead) (i : ℕ) (execution : Execution)
    (moment : ℕ) (hash : ResultHash) (query query' : RegisteredWatchedQuery)
    (channels : Map StreamId WatchChannel) (hget : w.executions[i]? = some execution)
    (hread : execution.read = some (moment, hash))
    (hquery : w.watched.get execution.token = some query)
    (hmeets : MeetsCompletion capacity w i execution moment hash query)
    (hlast : query'.lastHash = some hash) (hsender : query'.sender = query.sender)
    (hchannel : ∃ channel, channels.get query.sender = some channel ∧
      Agree execution.token query' channel ∧ SkipsFollow channel.known channel.sent)
    (hothers : ∀ stream, stream ≠ query.sender → channels.get stream = w.channels.get stream) :
    Tracks hashOf ⟨w.index, w.version, w.checked, w.watched.insert execution.token query',
      w.executions.eraseIdx i, channels, w.nextStream⟩
      (Function.update lastRead execution.token moment) := by
  have hmem : execution ∈ w.executions := List.mem_of_getElem? hget
  have hless : ∀ other ∈ w.executions.eraseIdx i, other ∈ w.executions :=
    fun other hother => List.mem_of_mem_eraseIdx hother
  obtain ⟨hmoment, -⟩ := h.moments execution hmem moment hash hread
  constructor
  · intro token registered hregistered
    rw [Map.get_insert] at hregistered
    split_ifs at hregistered with htoken
    · obtain rfl := Option.some.inj hregistered
      obtain ⟨channel, hchannel, hagree, _⟩ := hchannel
      rw [hsender, htoken]
      exact ⟨channel, hchannel, hagree⟩
    · obtain ⟨channel, hget', hagree⟩ := h.channel token registered hregistered
      refine ⟨channel, ?_, hagree⟩
      rw [hothers _ (h.sender_ne _ _ _ _ hquery hregistered htoken)]
      exact hget'
  · intro stream channel hstream
    by_cases hsame : stream = query.sender
    · obtain ⟨channel', hchannel', _⟩ := h.channel _ _ hquery
      rw [hsame]
      exact h.streams _ channel' hchannel'
    · rw [hothers stream hsame] at hstream
      exact h.streams stream channel hstream
  · intro stream channel hstream
    by_cases hsame : stream = query.sender
    · obtain ⟨channel', hchannel', _, hfollow⟩ := hchannel
      rw [hsame, hchannel'] at hstream
      obtain rfl := Option.some.inj hstream
      exact hfollow
    · rw [hothers stream hsame] at hstream
      exact h.skips stream channel hstream
  · exact fun other hother => h.moments other (hless other hother)
  · intro token
    rw [Function.update_apply]
    split_ifs
    · exact hmoment
    · exact h.past token
  · intro token registered hregistered other hother hotherToken moment' hash' hread'
    rw [Function.update_apply]
    split_ifs with htoken
    · obtain ⟨j, hj, hgetj⟩ := List.mem_eraseIdx_iff_getElem?.mp hother
      exact hmeets.order j other moment' hash' hj hgetj (hotherToken.trans htoken) hread'
    · rw [Map.get_insert, if_neg htoken] at hregistered
      exact h.order token registered hregistered other (hless other hother) hotherToken moment'
        hash' hread'
  · intro token registered hregistered hchecked
    rw [Map.get_insert] at hregistered
    split_ifs at hregistered with htoken
    · obtain rfl := Option.some.inj hregistered
      subst htoken
      rw [Function.update_self]
      exact h.update_current i execution moment hash query _ hget hread hquery hchecked hlast hsender
    · rw [Function.update_of_ne htoken]
      rcases h.current token registered hregistered hchecked with ⟨other, hother, hfresh⟩ | hdone
      · refine Or.inl ⟨other, mem_eraseIdx_of_token w.executions i execution hget other hother ?_,
          hfresh⟩
        rw [hfresh.1]
        exact htoken
      · exact Or.inr hdone

theorem tracks_complete (h : Tracks hashOf w lastRead) (i : ℕ)
    (hmeets : w.Meets capacity (.complete i)) :
    ∃ lastRead', Tracks hashOf (w.completeExecution capacity i) lastRead' := by
  rw [completeExecution]
  cases hget : w.executions[i]? with
  | none => exact ⟨lastRead, h⟩
  | some execution =>
    obtain ⟨token, sender, resultHash, read⟩ := execution
    cases read with
    | none => exact ⟨lastRead, h⟩
    | some read =>
      obtain ⟨moment, hash⟩ := read
      cases hquery : w.watched.get token with
      | none =>
        have hupdated : w.watched.updateQueryResults token hash = (false, w.watched) := by
          rw [WatchedQueries.updateQueryResults, hquery]
        simp only [hupdated]
        refine ⟨lastRead, tracks_less h _ _ _ (fun _ _ hq => hq)
          (fun other hother => List.mem_of_mem_eraseIdx hother) ?_ fun _ => rfl⟩
        intro token' query hq other hother htoken
        apply mem_eraseIdx_of_token w.executions i _ hget other hother
        rintro heq
        rw [← htoken, heq, hquery] at hq
        contradiction
      | some query =>
        have hupdated : w.watched.updateQueryResults token hash =
            (decide (query.lastHash ≠ some hash), w.watched.insert token { query with
              lastHash := some hash, query := { query.query with resultHash := hash } }) := by
          rw [WatchedQueries.updateQueryResults, hquery]
        simp only [hupdated]
        have hcompletes := hmeets _ moment hash query hget rfl hquery
        obtain ⟨channel, hchannel, hagree⟩ := h.channel token query hquery
        have hfollow := h.skips _ channel hchannel
        have hsender : query.sender = sender := hcompletes.sender
        refine ⟨Function.update lastRead token moment, ?_⟩
        by_cases hreply : query.lastHash ≠ some hash
        · obtain ⟨hopen, hroom⟩ := hcompletes.room hreply channel (by rw [← hsender]; exact hchannel)
          set channel' : WatchChannel := { channel with
            sent := channel.sent ++ [⟨hash, decide (hash = resultHash)⟩]
            unread := channel.unread + 1 } with hchannel'
          have hsend : trySend capacity channel (some ⟨hash, decide (hash = resultHash)⟩) =
              channel' := if_pos ⟨hopen, hroom⟩
          rw [if_pos (decide_eq_true hreply), reply]
          simp only [← hsender, hchannel, hsend]
          refine tracks_update h i _ moment hash query _ _ hget rfl hquery hcompletes rfl rfl
            ⟨channel', by rw [Map.get_insert, if_pos rfl],
              ⟨hagree.token, by simp [hchannel'], rfl⟩, ?_⟩ ?_
          · apply skipsFollow_append _ _ _ hfollow
            intro hskipped
            have hcopy := hcompletes.copy (of_decide_eq_true hskipped)
            rw [hagree.hash, hagree.last] at hcopy
            exact hcopy.symm
          · intro stream hne
            rw [Map.get_insert, if_neg hne]
        · rw [not_not] at hreply
          rw [if_neg (by simpa using hreply)]
          refine tracks_update h i _ moment hash query _ _ hget rfl hquery hcompletes rfl rfl
            ⟨channel, hchannel, ⟨hagree.token, ?_, rfl⟩, hfollow⟩ fun _ _ => rfl
          rw [← hagree.last, hreply]

theorem step_tracks (h : Tracks hashOf w lastRead) (a : WatchStep I)
    (hmeets : w.Meets capacity a) :
    ∃ lastRead', Tracks hashOf (w.step hashOf capacity a) lastRead' := by
  cases a with
  | watch query accepted =>
    obtain rfl : accepted = true := hmeets
    exact ⟨_, tracks_watch h query⟩
  | change index => exact ⟨lastRead, tracks_change h index⟩
  | check accepted => exact ⟨lastRead, tracks_check h accepted⟩
  | read i => exact ⟨lastRead, tracks_read h i⟩
  | complete i => exact tracks_complete h i hmeets
  | fail i => exact ⟨lastRead, tracks_fail h i⟩
  | consume stream => exact ⟨lastRead, tracks_consume h stream⟩
  | dropStream stream => exact ⟨lastRead, tracks_dropStream h stream⟩

end Steps

end WatchWorld

/-- In every run whose steps meet the conditions, the watched queries end up current, and a hash
is skipped only where the consumer has the results. -/
theorem watchRuns_endCurrent {I : Type} (hashOf : I → WatchToken → ResultHash) (capacity : ℕ)
    (index : I) (steps : List (WatchStep I))
    (h : Run.Allowed (WatchWorld.step hashOf capacity) (WatchWorld.Meets capacity) (.start index)
      steps) :
    (Run.exec (WatchWorld.step hashOf capacity) (.start index) steps).EndsCurrent hashOf ∧
      (Run.exec (WatchWorld.step hashOf capacity) (.start index) steps).SkipsSame := by
  obtain ⟨lastRead, htracks⟩ := Run.exec_invariant (WatchWorld.step hashOf capacity)
    (WatchWorld.Meets capacity) (fun w => ∃ lastRead, WatchWorld.Tracks hashOf w lastRead)
    (fun w a hw ha => WatchWorld.step_tracks hw.choose_spec a ha) (.start index) steps
    ⟨_, WatchWorld.tracks_start index⟩ h
  exact ⟨htracks.endsCurrent, htracks.skips⟩

section Samples

/-- The hash of the results at each state of a sample index. -/
def sampleHash (index : ℕ) (_ : WatchToken) : ResultHash := index + 100

/-- Two executions of a query overlap: the one that has read the older index completes last. -/
def overtaken : List (WatchStep ℕ) :=
  [.watch ⟨1, 0⟩ true, .read 0, .change 1, .check fun _ => true, .read 1, .complete 1, .complete 0]

theorem overtaken_not_endsCurrent :
    ¬ (Run.exec (WatchWorld.step sampleHash 10) (.start 0) overtaken).EndsCurrent sampleHash := by
  intro h
  obtain ⟨channel, result, hchannel, hresult, hhash⟩ := h (by decide) (by decide) 1
    ⟨0, ⟨1, 100⟩, some 100⟩ (by decide)
  have hsent : (Run.exec (WatchWorld.step sampleHash 10) (.start 0) overtaken).channels.get 0 =
      some ⟨1, 0, [⟨101, false⟩, ⟨100, false⟩], 2, false⟩ := by decide
  rw [hsent] at hchannel
  obtain rfl := Option.some.inj hchannel
  obtain rfl := Option.some.inj hresult
  exact absurd hhash (by decide)

/-- The same steps with each execution completed before the next check. -/
def inTurn : List (WatchStep ℕ) :=
  [.watch ⟨1, 0⟩ true, .read 0, .complete 0, .change 1, .check fun _ => true, .read 0, .complete 0]

/-- A completion with no other execution in flight. -/
theorem meets_alone (w : WatchWorld ℕ) (execution : Execution) (query : RegisteredWatchedQuery)
    (channel : WatchChannel) (halone : w.executions = [execution])
    (hquery : w.watched.get execution.token = some query)
    (hsender : query.sender = execution.sender)
    (hcopy : query.query.resultHash = execution.resultHash)
    (hchannel : w.channels.get execution.sender = some channel)
    (hroom : channel.closed = false ∧ channel.unread < 10) : w.Meets 10 (.complete 0) := by
  intro execution' moment hash query' hget _ hquery'
  rw [halone] at hget
  obtain rfl := Option.some.inj hget
  rw [hquery] at hquery'
  obtain rfl := Option.some.inj hquery'
  refine ⟨hsender, ?_, fun heq => hcopy.trans heq.symm, ?_⟩
  · intro j other moment' hash' hj hgetj
    rw [halone, List.getElem?_singleton, if_neg hj] at hgetj
    contradiction
  · intro _ channel' hchannel'
    rw [hchannel] at hchannel'
    obtain rfl := Option.some.inj hchannel'
    exact hroom

theorem inTurn_endsCurrent :
    (Run.exec (WatchWorld.step sampleHash 10) (.start 0) inTurn).EndsCurrent sampleHash ∧
      (Run.exec (WatchWorld.step sampleHash 10) (.start 0) inTurn).SkipsSame := by
  apply watchRuns_endCurrent
  refine ⟨rfl, trivial, ?_, trivial, trivial, trivial, ?_, trivial⟩
  · exact meets_alone _ ⟨1, 0, 0, some (0, 100)⟩ ⟨0, ⟨1, 0⟩, none⟩ ⟨1, 0, [], 0, false⟩
      (by decide) (by decide) rfl rfl (by decide) (by decide)
  · exact meets_alone _ ⟨1, 0, 100, some (1, 101)⟩ ⟨0, ⟨1, 100⟩, some 100⟩
      ⟨1, 0, [⟨100, false⟩], 1, false⟩ (by decide) (by decide) rfl rfl (by decide) (by decide)

end Samples

end Exocore.Store
