import Exocore.LibRun
import Exocore.LibSortedMap

/-! The watched queries of the local store, and the server that registers them for remote
clients. -/
namespace Exocore.Store

open SortedMap

abbrev WatchToken := ℕ
abbrev ResultHash := ℕ

/-- The channel between a watched query and the stream that consumes its results. -/
abbrev StreamId := ℕ

/-- What the watching of a query reads of it. -/
structure EntityQuery where
  watchToken : WatchToken
  resultHash : ResultHash
deriving DecidableEq

structure RegisteredWatchedQuery where
  sender : StreamId
  query : EntityQuery
  lastHash : Option ResultHash
deriving DecidableEq

/-- The watched queries by their tokens. -/
abbrev WatchedQueries := Map WatchToken RegisteredWatchedQuery

namespace WatchedQueries

def trackQuery (w : WatchedQueries) (token : WatchToken) (query : EntityQuery)
    (sender : StreamId) : WatchedQueries :=
  w.insert token ⟨sender, query, none⟩

/-- Whether the results are to be replied, with the query as it is then registered. -/
def updateQueryResults (w : WatchedQueries) (token : WatchToken) (hash : ResultHash) :
    Bool × WatchedQueries :=
  match w.get token with
  | some current => (decide (current.lastHash ≠ some hash), w.insert token
      { current with lastHash := some hash, query := { current.query with resultHash := hash } })
  | none => (false, w)

/-- By the token alone. -/
def unwatchQuery (w : WatchedQueries) (token : WatchToken) : WatchedQueries := w.erase token

end WatchedQueries

/-- The server with the local store it hands the queries to. A registration of the server holds
the drop sender of the task that was spawned for it; the task holds the stream of the store. -/
structure ServerState where
  registered : Map WatchToken StreamId
  watched : WatchedQueries
  tasks : Map StreamId WatchToken
  nextStream : StreamId

namespace ServerState

def start : ServerState := ⟨.empty, .empty, .empty, 0⟩

/-- The token that the store gives to a query: a new one for zero. -/
def storeToken (token generated : WatchToken) : WatchToken :=
  if token = 0 then generated else token

def handleIncomingWatchedQueryMessage (s : ServerState) (query : EntityQuery)
    (generated : WatchToken) : ServerState :=
  match s.registered.get query.watchToken with
  | some _ => s
  | none =>
    let token := storeToken query.watchToken generated
    { registered := s.registered.insert query.watchToken s.nextStream
      watched := s.watched.trackQuery token { query with watchToken := token } s.nextStream
      tasks := s.tasks.insert s.nextStream token
      nextStream := s.nextStream + 1 }

def handleUnwatchQuery (s : ServerState) (token : WatchToken) : ServerState :=
  { s with registered := s.registered.erase token }

/-- The registrations that were not renewed in time are removed. -/
def managementTimerProcess (s : ServerState) (expired : WatchToken → Bool) : ServerState :=
  { s with registered := s.registered.filterKeys fun token => !expired token }

/-- A task ends and drops its stream, which unwatches the query of its token. -/
def endTask (s : ServerState) (stream : StreamId) : ServerState :=
  match s.tasks.get stream with
  | some token =>
    { s with tasks := s.tasks.erase stream, watched := s.watched.unwatchQuery token }
  | none => s

/-- The store removes a query that failed, or that its channel of queries has no room for. -/
def dropQuery (s : ServerState) (token : WatchToken) : ServerState :=
  { s with watched := s.watched.unwatchQuery token }

/-- A running task whose registration was dropped. -/
def Ending (s : ServerState) (stream : StreamId) : Prop :=
  s.tasks.get stream ≠ none ∧ ∀ token, s.registered.get token ≠ some stream

/-- The stream has no sender left among the watched queries. -/
def Ended (s : ServerState) (stream : StreamId) : Prop :=
  ∀ token query, s.watched.get token = some query → query.sender ≠ stream

/-- Every registered token is watched, with a sender that a running task receives from. -/
def ReallyWatched (s : ServerState) : Prop :=
  ∀ token stream, s.registered.get token = some stream →
    ∃ query, s.watched.get token = some query ∧ s.tasks.get query.sender ≠ none

end ServerState

inductive ServerStep where
  | watch (query : EntityQuery) (generated : WatchToken)
  | unwatch (token : WatchToken)
  | timeout (expired : WatchToken → Bool)
  | endTask (stream : StreamId)
  | dropQuery (token : WatchToken)

namespace ServerState

def step (s : ServerState) : ServerStep → ServerState
  | .watch query generated => s.handleIncomingWatchedQueryMessage query generated
  | .unwatch token => s.handleUnwatchQuery token
  | .timeout expired => s.managementTimerProcess expired
  | .endTask stream => s.endTask stream
  | .dropQuery token => s.dropQuery token

/-- A task ends once its registration was dropped or its stream has ended. -/
def Taken (s : ServerState) : ServerStep → Prop
  | .endTask stream => s.Ending stream ∨ s.Ended stream
  | _ => True

/-- What the steps must meet besides: no token is registered again before the task of its older
registration ended, and the store drops no query that is registered. -/
def Meets (s : ServerState) : ServerStep → Prop
  | .watch query _ => query.watchToken ≠ 0 ∧
      (s.registered.get query.watchToken = none →
        ∀ stream, s.tasks.get stream ≠ some query.watchToken)
  | .dropQuery token => s.registered.get token = none
  | _ => True

/-- The three maps agree on the registered tokens. -/
structure Agrees (s : ServerState) : Prop where
  watched : ∀ token stream, s.registered.get token = some stream →
    ∃ query, s.watched.get token = some query ∧ query.sender = stream
  tasks : ∀ token stream, s.registered.get token = some stream →
    s.tasks.get stream = some token
  single : ∀ token stream stream', s.registered.get token = some stream →
    s.tasks.get stream' = some token → stream' = stream
  fresh : ∀ stream token, s.tasks.get stream = some token → stream < s.nextStream

theorem Agrees.reallyWatched {s : ServerState} (h : s.Agrees) : s.ReallyWatched := by
  intro token stream hregistered
  obtain ⟨query, hquery, hsender⟩ := h.watched token stream hregistered
  refine ⟨query, hquery, ?_⟩
  rw [hsender, h.tasks token stream hregistered]
  simp

theorem agrees_start : start.Agrees := by
  constructor <;> simp [start]

theorem agrees_watch (s : ServerState) (query : EntityQuery) (generated : WatchToken)
    (h : s.Agrees) (hmeets : s.Meets (.watch query generated)) :
    (s.handleIncomingWatchedQueryMessage query generated).Agrees := by
  obtain ⟨hzero, hfree⟩ := hmeets
  rw [handleIncomingWatchedQueryMessage]
  cases hregistered : s.registered.get query.watchToken with
  | some stream => exact h
  | none =>
    have hfree := hfree hregistered
    have hnew : s.tasks.get s.nextStream = none := by
      cases hget : s.tasks.get s.nextStream with
      | none => rfl
      | some token => exact absurd (h.fresh _ _ hget) (lt_irrefl _)
    simp only [storeToken, if_neg hzero, WatchedQueries.trackQuery]
    constructor
    · intro token stream hget
      rw [Map.get_insert] at hget ⊢
      split_ifs at hget ⊢ with htoken
      · exact ⟨_, rfl, Option.some.inj hget⟩
      · exact h.watched token stream hget
    · intro token stream hget
      rw [Map.get_insert] at hget ⊢
      split_ifs at hget with htoken
      · rw [if_pos (Option.some.inj hget).symm, htoken]
      · have htask := h.tasks token stream hget
        have hne : stream ≠ s.nextStream := by
          rintro rfl
          rw [hnew] at htask
          contradiction
        rw [if_neg hne]
        exact htask
    · intro token stream stream' hget htask
      rw [Map.get_insert] at hget htask
      split_ifs at hget with htoken
      · subst htoken
        split_ifs at htask with hstream
        · rw [hstream, Option.some.inj hget]
        · exact absurd htask (hfree stream')
      · split_ifs at htask with hstream
        · exact absurd (Option.some.inj htask).symm htoken
        · exact h.single token stream stream' hget htask
    · intro stream token htask
      rw [Map.get_insert] at htask
      split_ifs at htask with hstream
      · rw [hstream]
        exact Nat.lt_succ_self _
      · exact (h.fresh stream token htask).trans (Nat.lt_succ_self _)

/-- Fewer registrations agree as before. -/
theorem agrees_unregister (s : ServerState) (registered : Map WatchToken StreamId)
    (h : s.Agrees) (hless : ∀ token stream, registered.get token = some stream →
      s.registered.get token = some stream) :
    Agrees { s with registered := registered } where
  watched token stream hget := h.watched token stream (hless token stream hget)
  tasks token stream hget := h.tasks token stream (hless token stream hget)
  single token stream stream' hget htask :=
    h.single token stream stream' (hless token stream hget) htask
  fresh := h.fresh

theorem agrees_endTask (s : ServerState) (stream : StreamId) (h : s.Agrees)
    (htaken : s.Ending stream ∨ s.Ended stream) : (s.endTask stream).Agrees := by
  rw [endTask]
  cases htask : s.tasks.get stream with
  | none => exact h
  | some token =>
    -- the task that ends is not of a registration
    have hunregistered : ∀ token', s.registered.get token' ≠ some stream := by
      intro token' hget
      rcases htaken with hending | hended
      · exact hending.2 token' hget
      · obtain ⟨query, hquery, hsender⟩ := h.watched token' stream hget
        exact hended token' query hquery hsender
    have htoken : ∀ stream', s.registered.get token ≠ some stream' := by
      intro stream' hget
      have hsame := h.single token stream' stream hget htask
      rw [← hsame] at hget
      exact hunregistered token hget
    constructor
    · intro token' stream' hget
      have hne : token' ≠ token := by
        rintro rfl
        exact htoken stream' hget
      obtain ⟨query, hquery, hsender⟩ := h.watched token' stream' hget
      refine ⟨query, ?_, hsender⟩
      show (Map.erase s.watched token).get token' = some query
      rw [Map.get_erase, if_neg hne]
      exact hquery
    · intro token' stream' hget
      have hne : stream' ≠ stream := by
        rintro rfl
        exact hunregistered token' hget
      rw [Map.get_erase, if_neg hne]
      exact h.tasks token' stream' hget
    · intro token' stream' stream'' hget htask'
      rw [Map.get_erase] at htask'
      split_ifs at htask' with hne
      exact h.single token' stream' stream'' hget htask'
    · intro stream' token' htask'
      rw [Map.get_erase] at htask'
      split_ifs at htask' with hne
      exact h.fresh stream' token' htask'

theorem agrees_dropQuery (s : ServerState) (token : WatchToken) (h : s.Agrees)
    (hmeets : s.registered.get token = none) : (s.dropQuery token).Agrees where
  watched token' stream hget := by
    have hne : token' ≠ token := by
      rintro rfl
      have hget' : s.registered.get token' = some stream := hget
      rw [hmeets] at hget'
      contradiction
    obtain ⟨query, hquery, hsender⟩ := h.watched token' stream hget
    refine ⟨query, ?_, hsender⟩
    rw [dropQuery, WatchedQueries.unwatchQuery, Map.get_erase, if_neg hne]
    exact hquery
  tasks := h.tasks
  single := h.single
  fresh := h.fresh

theorem step_agrees (s : ServerState) (a : ServerStep) (h : s.Agrees) (htaken : s.Taken a)
    (hmeets : s.Meets a) : (s.step a).Agrees := by
  cases a with
  | watch query generated => exact s.agrees_watch query generated h hmeets
  | unwatch token =>
    apply s.agrees_unregister _ h
    intro token' stream hget
    rw [Map.get_erase] at hget
    split_ifs at hget
    exact hget
  | timeout expired =>
    apply s.agrees_unregister _ h
    intro token stream hget
    rw [Map.get_filterKeys] at hget
    split_ifs at hget
    exact hget
  | endTask stream => exact s.agrees_endTask stream h htaken
  | dropQuery token => exact s.agrees_dropQuery token h hmeets

end ServerState

/-- In every run whose steps meet the conditions, every registered token is really watched. -/
theorem serverRuns_reallyWatched (steps : List ServerStep)
    (h : Run.Allowed ServerState.step (fun s a => s.Taken a ∧ s.Meets a) .start steps) :
    (Run.exec ServerState.step .start steps).ReallyWatched := by
  have hagrees := Run.exec_invariant ServerState.step (fun s a => s.Taken a ∧ s.Meets a)
    ServerState.Agrees (fun s a hs ha => s.step_agrees a hs ha.1 ha.2) .start steps
    ServerState.agrees_start h
  exact hagrees.reallyWatched

section Samples

/-- A client that comes back before the task of its first registration ended: the end of that
task unwatches the query of the second one. -/
def reregistered : List ServerStep :=
  [.watch ⟨1, 0⟩ 0, .unwatch 1, .watch ⟨1, 0⟩ 0, .endTask 0]

theorem reregistered_not_reallyWatched :
    Run.Allowed ServerState.step ServerState.Taken .start reregistered ∧
    (∀ stream, ¬ (Run.exec ServerState.step .start reregistered).Ending stream) ∧
    ¬ (Run.exec ServerState.step .start reregistered).ReallyWatched := by
  have hregistered : (Run.exec ServerState.step .start reregistered).registered =
      Map.empty.insert 1 1 := by decide
  have htasks : (Run.exec ServerState.step .start reregistered).tasks =
      Map.empty.insert 1 1 := by decide
  refine ⟨⟨trivial, trivial, trivial, Or.inl ⟨by decide, ?_⟩, trivial⟩, ?_, ?_⟩
  · -- the first task has lost its registration to the second one
    intro token hget
    have hget' : (Map.insert Map.empty 1 1).get token = some 0 := hget
    rw [Map.get_insert] at hget'
    split_ifs at hget'
    · exact absurd (Option.some.inj hget') (by decide)
    · contradiction
  · rintro stream ⟨htask, hending⟩
    rw [htasks, Map.get_insert] at htask
    split_ifs at htask with hstream
    · refine hending 1 ?_
      rw [hregistered, hstream]
      rfl
    · exact htask rfl
  · intro h
    obtain ⟨query, hquery, _⟩ := h 1 1 (by decide)
    have hnone : (Run.exec ServerState.step .start reregistered).watched.get 1 = none := by decide
    rw [hnone] at hquery
    contradiction

/-- The client comes back once the task has ended. -/
theorem reregisteredLater_reallyWatched :
    (Run.exec ServerState.step .start
      [.watch ⟨1, 0⟩ 0, .unwatch 1, .endTask 0, .watch ⟨1, 0⟩ 0]).ReallyWatched := by
  apply serverRuns_reallyWatched
  refine ⟨⟨trivial, by decide, fun _ stream => ?_⟩, ⟨trivial, trivial⟩,
    ⟨Or.inl ⟨by decide, fun token hget => ?_⟩, trivial⟩, ⟨trivial, by decide, fun _ stream => ?_⟩,
    trivial⟩
  · show none ≠ some 1
    simp
  · have hnone : none = some 0 := hget
    contradiction
  · show none ≠ some 1
    simp

end Samples

end Exocore.Store
