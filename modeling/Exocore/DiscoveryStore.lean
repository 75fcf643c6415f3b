import Exocore.LibRun
import Exocore.LibSortedMap

/-! The store of the discovery server, and the requests that call it. Each call is made under the
lock, and other requests make theirs between two calls of one request. -/
namespace Exocore.Discovery

open SortedMap

abbrev Pin := { n : ℕ // 100000000 ≤ n ∧ n ≤ 999999999 }

abbrev ReplyToken := ℕ

structure ServerConfig where
  maxPayloads : ℕ
  maxPayloadSize : ℕ
  payloadExpiration : ℕ
  replyExpiration : ℕ

inductive RequestError where
  | notFound
  | invalidReply
  | full
  | payloadTooLarge
  | serialization
  | hyper
deriving DecidableEq

/-- The payloads that are ever stored are counted, and each has its own number. -/
structure StoredPayload where
  data : String
  replyPin : Option Pin
  replyToken : Option ReplyToken
  expiration : ℕ
  serial : ℕ

/-- The number of a reply pin is its place among those that were handed out. -/
structure ReplyInfo where
  expiration : ℕ
  token : ReplyToken
  serial : ℕ

/-- The two tables, and what was ever done with them: how many payloads were stored, the pins and
tokens that were handed out, the payloads that were returned, and the pins and tokens under which
a reply was stored, with their numbers. -/
structure StoreInner where
  payloads : Map Pin StoredPayload
  replies : Map Pin ReplyInfo
  stored : ℕ
  handedOut : List (Pin × ReplyToken)
  returned : List ℕ
  used : List (ℕ × Pin × ReplyToken)

/-- The clock and the random numbers of a call. -/
structure Env where
  now : ℕ
  draws : List Pin
  token : ReplyToken

namespace StoreInner

def empty : StoreInner := ⟨.empty, .empty, 0, [], [], []⟩

/-- The first pin that is drawn and not taken. While all are taken the call goes on drawing. -/
def nextId (s : StoreInner) (draws : List Pin) : Option Pin :=
  draws.find? fun pin => (s.payloads.get pin).isNone && (s.replies.get pin).isNone

def insertPayload (s : StoreInner) (pin : Pin) (data : String) (reply : Option (Pin × ReplyToken))
    (expiration : ℕ) : StoreInner :=
  { s with
    payloads := s.payloads.insert pin
      ⟨data, reply.map Prod.fst, reply.map Prod.snd, expiration, s.stored⟩
    stored := s.stored + 1 }

def create (config : ServerConfig) (env : Env) (s : StoreInner) (data : String)
    (reply : Option (Pin × ReplyToken)) : Option (Except RequestError (Pin × ℕ) × StoreInner) :=
  if config.maxPayloads < s.payloads.size then some (.error .full, s)
  else
    let expiration := env.now + config.payloadExpiration
    (s.nextId env.draws).map fun pin =>
      (.ok (pin, expiration), s.insertPayload pin data reply expiration)

def get (s : StoreInner) (pin : Pin) : Option StoredPayload × StoreInner :=
  match s.payloads.get pin with
  | none => (none, s)
  | some payload => (some payload, { s with
      payloads := s.payloads.erase pin, returned := s.returned ++ [payload.serial] })

/-- The reply pin is expected, with this token. -/
def Accepts (s : StoreInner) (pin : Pin) (token : ReplyToken) : Prop :=
  ∃ info, s.replies.get pin = some info ∧ info.token = token

def pushReply (config : ServerConfig) (env : Env) (s : StoreInner) (pin : Pin) (token : ReplyToken)
    (data : String) (reply : Option (Pin × ReplyToken)) : Except RequestError ℕ × StoreInner :=
  if config.maxPayloads < s.payloads.size then (.error .full, s)
  else match s.replies.get pin with
    | none => (.error .invalidReply, s)
    | some info =>
      if info.token = token then
        let expiration := env.now + config.payloadExpiration
        (.ok expiration, insertPayload { s with
          replies := s.replies.erase pin
          used := s.used ++ [(info.serial, pin, token)] } pin data reply expiration)
      else (.error .invalidReply, s)

def getReplyToken (config : ServerConfig) (env : Env) (s : StoreInner) :
    Option ((Pin × ReplyToken) × StoreInner) :=
  (s.nextId env.draws).map fun pin => ((pin, env.token), { s with
    replies := s.replies.insert pin
      ⟨env.now + config.replyExpiration, env.token, s.handedOut.length⟩
    handedOut := s.handedOut ++ [(pin, env.token)] })

def cleanup (now : ℕ) (s : StoreInner) : StoreInner :=
  { s with
    payloads := s.payloads.filterKeys fun pin =>
      (s.payloads.get pin).all fun payload => !decide (payload.expiration < now)
    replies := s.replies.filterKeys fun pin =>
      (s.replies.get pin).all fun info => !decide (info.expiration < now) }

end StoreInner

structure CreatePayloadRequest where
  data : String
  expectReply : Bool

structure ReplyPayloadRequest where
  data : String
  replyToken : ReplyToken
  expectReply : Bool

/-- The body of a request: it cannot be read, or it has a length and what it decodes to. -/
inductive Body (A : Type) where
  | unreadable
  | bytes (length : ℕ) (payload : Option A)

def Body.read {A : Type} (config : ServerConfig) : Body A → Except RequestError A
  | .unreadable => .error .hyper
  | .bytes length payload =>
    if config.maxPayloadSize < length then .error .payloadTooLarge
    else match payload with
      | none => .error .serialization
      | some payload => .ok payload

inductive Request where
  | create (body : Body CreatePayloadRequest)
  | get (pin : Pin)
  | reply (pin : Pin) (body : Body ReplyPayloadRequest)

inductive Response where
  | created (pin : Pin) (expiration : ℕ) (replyPin : Option Pin)
  | payload (pin : Pin) (data : String) (replyPin : Option Pin) (replyToken : Option ReplyToken)

/-- Where a request is: it has called nothing, it has a reply pin and goes on with it, or it is
answered. -/
inductive Progress where
  | started (request : Request)
  | creating (payload : CreatePayloadRequest) (reply : Pin × ReplyToken)
  | replying (pin : Pin) (payload : ReplyPayloadRequest) (reply : Pin × ReplyToken)
  | answered (result : Except RequestError Response)

namespace Progress

def createWith (config : ServerConfig) (env : Env) (s : StoreInner)
    (payload : CreatePayloadRequest) (reply : Option (Pin × ReplyToken)) :
    Option (Progress × StoreInner) :=
  (s.create config env payload.data reply).map fun (result, s') =>
    (.answered (result.map fun (pin, expiration) =>
      .created pin expiration (reply.map Prod.fst)), s')

def replyWith (config : ServerConfig) (env : Env) (s : StoreInner) (pin : Pin)
    (payload : ReplyPayloadRequest) (reply : Option (Pin × ReplyToken)) : Progress × StoreInner :=
  let (result, s') := s.pushReply config env pin payload.replyToken payload.data reply
  (.answered (result.map fun expiration => .created pin expiration (reply.map Prod.fst)), s')

/-- The next call of a request, and what it comes to. -/
def advance (config : ServerConfig) (env : Env) (s : StoreInner) :
    Progress → Option (Progress × StoreInner)
  | .started (.create body) => match body.read config with
    | .error e => some (.answered (.error e), s)
    | .ok payload =>
      if payload.expectReply then
        (s.getReplyToken config env).map fun (reply, s') => (.creating payload reply, s')
      else createWith config env s payload none
  | .creating payload reply => createWith config env s payload (some reply)
  | .started (.get pin) => match s.get pin with
    | (none, s') => some (.answered (.error .notFound), s')
    | (some payload, s') => some (.answered (.ok (.payload pin payload.data payload.replyPin
        payload.replyToken)), s')
  | .started (.reply pin body) => match body.read config with
    | .error e => some (.answered (.error e), s)
    | .ok payload =>
      if payload.expectReply then
        (s.getReplyToken config env).map fun (reply, s') => (.replying pin payload reply, s')
      else some (replyWith config env s pin payload none)
  | .replying pin payload reply => some (replyWith config env s pin payload (some reply))
  | .answered _ => none

/-- The request has added a reply pin to the store. -/
def Added : Progress → Prop
  | .creating _ _ | .replying _ _ _ => True
  | .started _ | .answered _ => False

end Progress

/-- The server with all the requests that it was ever sent. -/
structure Server where
  store : StoreInner
  requests : List Progress

inductive Event where
  | request (request : Request)
  | advance (i : ℕ) (env : Env)
  | cleanup (now : ℕ)

namespace Server

def new : Server := ⟨.empty, []⟩

def step (config : ServerConfig) (s : Server) : Event → Server
  | .request request => { s with requests := s.requests ++ [.started request] }
  | .advance i env => match s.requests[i]? with
    | none => s
    | some progress => match progress.advance config env s.store with
      | none => s
      | some (progress', store) => ⟨store, s.requests.set i progress'⟩
  | .cleanup now => { s with store := s.store.cleanup now }

end Server

/-- What is promised of the store: no pin is in both tables, no payload was returned twice, no
reply pin was used twice or with another token than it was handed out with, and the limit on
payloads is kept. -/
structure Delivered (config : ServerConfig) (s : StoreInner) : Prop where
  disjoint : ∀ pin, s.payloads.get pin = none ∨ s.replies.get pin = none
  returnedOnce : s.returned.Nodup
  usedOnce : (s.used.map Prod.fst).Nodup
  usedHandedOut : ∀ use ∈ s.used, s.handedOut[use.1]? = some use.2
  limited : s.payloads.size ≤ config.maxPayloads

/-- What is promised of a step: no stored payload is overwritten, what a request returns was
stored, and a request that is answered with an error leaves the store as it was. -/
structure StepKeeps (s s' : Server) : Prop where
  kept : ∀ pin payload payload', s.store.payloads.get pin = some payload →
    s'.store.payloads.get pin = some payload' → payload' = payload
  unchanged : ∀ (i : ℕ) (progress : Progress) (e : RequestError), s.requests[i]? = some progress →
    (∀ result, progress ≠ .answered result) → s'.requests[i]? = some (.answered (.error e)) →
      ¬ progress.Added ∧ s'.store = s.store

/-- The next call of the request does not insert a payload when the limit is reached, and is not
refused if the request has a reply pin. -/
def Progress.Careful (config : ServerConfig) (s : StoreInner) : Progress → Prop
  | .started (.create body) => ∀ payload, body.read config = .ok payload →
    payload.expectReply = false → s.payloads.size ≠ config.maxPayloads
  | .creating _ _ => s.payloads.size ≠ config.maxPayloads
  | .started (.reply pin body) => ∀ payload, body.read config = .ok payload →
    payload.expectReply = false → s.Accepts pin payload.replyToken →
      s.payloads.size ≠ config.maxPayloads
  | .replying pin payload _ =>
    s.payloads.size ≠ config.maxPayloads ∧ s.Accepts pin payload.replyToken
  | .started (.get _) | .answered _ => True

section Decidable

instance (s : StoreInner) (pin : Pin) (token : ReplyToken) : Decidable (s.Accepts pin token) :=
  decidable_of_iff ((s.replies.get pin).any fun info => decide (info.token = token)) <| by
    simp only [Option.any_eq_true, decide_eq_true_eq, StoreInner.Accepts]

instance decidableRead {A : Type} (read : Except RequestError A) (p : A → Prop)
    [∀ a, Decidable (p a)] : Decidable (∀ a, read = .ok a → p a) :=
  match read with
  | .error _ => isTrue fun _ h => nomatch h
  | .ok a => decidable_of_iff (p a) ⟨fun h _ ha => Except.ok.inj ha ▸ h, fun h => h a rfl⟩

instance (config : ServerConfig) (s : StoreInner) :
    ∀ progress : Progress, Decidable (progress.Careful config s)
  | .started (.create body) => inferInstanceAs (Decidable (∀ payload, body.read config =
      .ok payload → payload.expectReply = false → s.payloads.size ≠ config.maxPayloads))
  | .creating _ _ => inferInstanceAs (Decidable (s.payloads.size ≠ config.maxPayloads))
  | .started (.reply pin body) => inferInstanceAs (Decidable (∀ payload, body.read config =
      .ok payload → payload.expectReply = false → s.Accepts pin payload.replyToken →
        s.payloads.size ≠ config.maxPayloads))
  | .replying pin payload _ => inferInstanceAs (Decidable
      (s.payloads.size ≠ config.maxPayloads ∧ s.Accepts pin payload.replyToken))
  | .started (.get _) => isTrue trivial
  | .answered _ => isTrue trivial

end Decidable

def Careful (config : ServerConfig) (s : Server) : Event → Prop
  | .advance i _ => ∀ progress, s.requests[i]? = some progress → progress.Careful config s.store
  | .request _ | .cleanup _ => True

instance (config : ServerConfig) (s : Server) : ∀ event, Decidable (Careful config s event)
  | .advance i _ => inferInstanceAs (Decidable (∀ progress, s.requests[i]? = some progress →
      progress.Careful config s.store))
  | .request _ => isTrue trivial
  | .cleanup _ => isTrue trivial

namespace StoreInner

/-- What every store is like that calls have made: the numbers of what it holds are its own. -/
structure Sound (s : StoreInner) : Prop where
  disjoint : ∀ pin, s.payloads.get pin = none ∨ s.replies.get pin = none
  payload : ∀ pin payload, s.payloads.get pin = some payload →
    payload.serial < s.stored ∧ payload.serial ∉ s.returned
  apart : ∀ pin pin' payload payload', s.payloads.get pin = some payload →
    s.payloads.get pin' = some payload' → payload.serial = payload'.serial → pin = pin'
  returned : s.returned.Nodup ∧ ∀ serial ∈ s.returned, serial < s.stored
  reply : ∀ pin info, s.replies.get pin = some info →
    s.handedOut[info.serial]? = some (pin, info.token) ∧ info.serial ∉ s.used.map Prod.fst
  used : (s.used.map Prod.fst).Nodup ∧ ∀ use ∈ s.used, s.handedOut[use.1]? = some use.2

theorem sound_empty : empty.Sound where
  disjoint _ := Or.inl rfl
  payload _ _ h := by cases h
  apart _ _ _ _ h := by cases h
  returned := ⟨List.nodup_nil, fun _ h => absurd h List.not_mem_nil⟩
  reply _ _ h := by cases h
  used := ⟨List.nodup_nil, fun _ h => absurd h List.not_mem_nil⟩

theorem nextId_free (s : StoreInner) (draws : List Pin) (pin : Pin)
    (h : s.nextId draws = some pin) : s.payloads.get pin = none ∧ s.replies.get pin = none := by
  have hfree := List.find?_some h
  simpa using hfree

section Size
variable {V : Type} (m : Map Pin V)

theorem size_insert_le (pin : Pin) (v : V) : (m.insert pin v).size ≤ m.size + 1 := by
  rw [← Map.card_keySet, ← Map.card_keySet, Map.keySet_insert]
  exact Finset.card_insert_le pin m.keySet

theorem size_filterKeys_le (p : Pin → Bool) : (m.filterKeys p).size ≤ m.size :=
  List.length_filter_le ..

end Size

/-- A payload that is stored under a free pin. -/
theorem Sound.insertPayload {s : StoreInner} (h : s.Sound) (pin : Pin) (data : String)
    (reply : Option (Pin × ReplyToken)) (expiration : ℕ)
    (hreply : s.replies.get pin = none) : (s.insertPayload pin data reply expiration).Sound where
  disjoint pin' := by
    change (s.payloads.insert pin _).get pin' = none ∨ s.replies.get pin' = none
    rw [Map.get_insert]
    by_cases hpin : pin' = pin
    · exact Or.inr (hpin ▸ hreply)
    · rw [if_neg hpin]
      exact h.disjoint pin'
  payload pin' payload hget := by
    change (s.payloads.insert pin _).get pin' = some payload at hget
    change payload.serial < s.stored + 1 ∧ payload.serial ∉ s.returned
    rw [Map.get_insert] at hget
    split_ifs at hget with hpin
    · rw [← Option.some.inj hget]
      exact ⟨Nat.lt_succ_self _, fun hmem => lt_irrefl _ (h.returned.2 _ hmem)⟩
    · have hold := h.payload pin' payload hget
      exact ⟨Nat.lt_succ_of_lt hold.1, hold.2⟩
  apart pin₁ pin₂ payload₁ payload₂ hget₁ hget₂ hserial := by
    change (s.payloads.insert pin _).get pin₁ = some payload₁ at hget₁
    change (s.payloads.insert pin _).get pin₂ = some payload₂ at hget₂
    rw [Map.get_insert] at hget₁ hget₂
    split_ifs at hget₁ hget₂ with hpin₁ hpin₂ hpin₂
    · rw [hpin₁, hpin₂]
    · have hlt := (h.payload pin₂ payload₂ hget₂).1
      rw [← hserial, ← Option.some.inj hget₁] at hlt
      exact absurd hlt (lt_irrefl _)
    · have hlt := (h.payload pin₁ payload₁ hget₁).1
      rw [hserial, ← Option.some.inj hget₂] at hlt
      exact absurd hlt (lt_irrefl _)
    · exact h.apart pin₁ pin₂ payload₁ payload₂ hget₁ hget₂ hserial
  returned := ⟨h.returned.1, fun serial hmem => Nat.lt_succ_of_lt (h.returned.2 serial hmem)⟩
  reply := h.reply
  used := h.used

theorem Sound.create {s : StoreInner} (h : s.Sound) (config : ServerConfig) (env : Env)
    (data : String) (reply : Option (Pin × ReplyToken))
    (result : Except RequestError (Pin × ℕ) × StoreInner)
    (hresult : s.create config env data reply = some result) : result.2.Sound := by
  unfold StoreInner.create at hresult
  split_ifs at hresult
  · cases hresult
    exact h
  · obtain ⟨pin, hpin, rfl⟩ := Option.map_eq_some_iff.mp hresult
    exact h.insertPayload pin data reply _ (s.nextId_free env.draws pin hpin).2

theorem Sound.get {s : StoreInner} (h : s.Sound) (pin : Pin) : (s.get pin).2.Sound := by
  unfold StoreInner.get
  cases hget : s.payloads.get pin with
  | none => exact h
  | some payload =>
    have hserial := h.payload pin payload hget
    refine ⟨?_, ?_, ?_, ?_, h.reply, h.used⟩
    · intro pin'
      dsimp only
      rw [Map.get_erase]
      split_ifs
      · exact Or.inl rfl
      · exact h.disjoint pin'
    · intro pin' payload' hget'
      dsimp only at hget' ⊢
      rw [Map.get_erase] at hget'
      split_ifs at hget' with hpin
      have hold := h.payload pin' payload' hget'
      refine ⟨hold.1, ?_⟩
      rw [List.mem_append, List.mem_singleton, not_or]
      refine ⟨hold.2, ?_⟩
      intro heq
      exact hpin (h.apart pin' pin payload' payload hget' hget heq)
    · intro pin₁ pin₂ payload₁ payload₂ hget₁ hget₂ heq
      dsimp only at hget₁ hget₂
      rw [Map.get_erase] at hget₁ hget₂
      split_ifs at hget₁ hget₂
      exact h.apart pin₁ pin₂ payload₁ payload₂ hget₁ hget₂ heq
    · constructor
      · rw [List.nodup_append]
        refine ⟨h.returned.1, List.nodup_singleton _, ?_⟩
        rintro serial hmem _ hlast rfl
        rw [List.mem_singleton] at hlast
        exact hserial.2 (hlast ▸ hmem)
      · intro serial hmem
        rcases List.mem_append.mp hmem with hold | hlast
        · exact h.returned.2 serial hold
        · rw [List.mem_singleton.mp hlast]
          exact hserial.1

theorem Sound.pushReply {s : StoreInner} (h : s.Sound) (config : ServerConfig) (env : Env)
    (pin : Pin) (token : ReplyToken) (data : String) (reply : Option (Pin × ReplyToken)) :
    (s.pushReply config env pin token data reply).2.Sound := by
  unfold StoreInner.pushReply
  split_ifs
  · exact h
  cases hget : s.replies.get pin with
  | none => exact h
  | some info =>
    dsimp only
    split_ifs with htoken
    · obtain ⟨hhanded, hunused⟩ := h.reply pin info hget
      apply Sound.insertPayload (s := { s with
        replies := s.replies.erase pin, used := s.used ++ [(info.serial, pin, token)] })
      · refine ⟨?_, h.payload, h.apart, h.returned, ?_, ?_, ?_⟩
        · intro pin'
          rcases h.disjoint pin' with hnone | hnone
          · exact Or.inl hnone
          · right
            rw [Map.get_erase, hnone, ite_self]
        · intro pin' info' hget'
          rw [Map.get_erase] at hget'
          split_ifs at hget' with hpin
          obtain ⟨hhanded', hunused'⟩ := h.reply pin' info' hget'
          refine ⟨hhanded', ?_⟩
          rw [List.map_append, List.mem_append, not_or]
          refine ⟨hunused', ?_⟩
          intro hlast
          rw [List.map_singleton, List.mem_singleton] at hlast
          rw [hlast, hhanded, Option.some.injEq, Prod.mk.injEq] at hhanded'
          exact hpin hhanded'.1.symm
        · rw [List.map_append, List.nodup_append]
          refine ⟨h.used.1, List.nodup_singleton _, ?_⟩
          rintro serial hmem _ hlast rfl
          have heq : serial = info.serial := List.mem_singleton.mp hlast
          exact hunused (heq ▸ hmem)
        · intro use hmem
          rcases List.mem_append.mp hmem with hold | hlast
          · exact h.used.2 use hold
          · rw [List.mem_singleton.mp hlast, hhanded, htoken]
      · rw [Map.get_erase, if_pos rfl]
    · exact h

theorem Sound.getReplyToken {s : StoreInner} (h : s.Sound) (config : ServerConfig) (env : Env)
    (result : (Pin × ReplyToken) × StoreInner)
    (hresult : s.getReplyToken config env = some result) : result.2.Sound := by
  obtain ⟨pin, hpin, rfl⟩ := Option.map_eq_some_iff.mp hresult
  obtain ⟨hpayload, -⟩ := s.nextId_free env.draws pin hpin
  have hunused (serial : ℕ) (hmem : serial ∈ s.used.map Prod.fst) :
      serial < s.handedOut.length := by
    obtain ⟨use, huse, rfl⟩ := List.mem_map.mp hmem
    exact (List.getElem?_eq_some_iff.mp (h.used.2 use huse)).1
  refine ⟨?_, h.payload, h.apart, h.returned, ?_, h.used.1, ?_⟩
  · intro pin'
    dsimp only
    rw [Map.get_insert]
    by_cases heq : pin' = pin
    · exact Or.inl (heq ▸ hpayload)
    · rw [if_neg heq]
      exact h.disjoint pin'
  · intro pin' info hget
    dsimp only at hget ⊢
    rw [Map.get_insert] at hget
    split_ifs at hget with heq
    · rw [← Option.some.inj hget, heq]
      refine ⟨by simp, ?_⟩
      intro hmem
      exact lt_irrefl _ (hunused _ hmem)
    · obtain ⟨hhanded, hfree⟩ := h.reply pin' info hget
      have hlt := (List.getElem?_eq_some_iff.mp hhanded).1
      exact ⟨by rw [List.getElem?_append_left hlt, hhanded], hfree⟩
  · intro use huse
    have hhanded := h.used.2 use huse
    have hlt := (List.getElem?_eq_some_iff.mp hhanded).1
    dsimp only
    rw [List.getElem?_append_left hlt, hhanded]

theorem get_filterKeys_some {V : Type} (m : Map Pin V) (p : Pin → Bool) (pin : Pin) (v : V)
    (h : (m.filterKeys p).get pin = some v) : m.get pin = some v := by
  rw [Map.get_filterKeys] at h
  split_ifs at h
  exact h

theorem Sound.cleanup {s : StoreInner} (h : s.Sound) (now : ℕ) : (s.cleanup now).Sound where
  disjoint pin := by
    rcases h.disjoint pin with hnone | hnone
    · left
      change (s.payloads.filterKeys _).get pin = none
      rw [Map.get_filterKeys, hnone, ite_self]
    · right
      change (s.replies.filterKeys _).get pin = none
      rw [Map.get_filterKeys, hnone, ite_self]
  payload pin payload hget := h.payload pin payload (get_filterKeys_some _ _ _ _ hget)
  apart pin pin' payload payload' hget hget' :=
    h.apart pin pin' payload payload' (get_filterKeys_some _ _ _ _ hget)
      (get_filterKeys_some _ _ _ _ hget')
  returned := h.returned
  reply pin info hget := h.reply pin info (get_filterKeys_some _ _ _ _ hget)
  used := h.used

/-- No payload is overwritten. -/
def Keeps (s s' : StoreInner) : Prop := ∀ pin payload payload',
  s.payloads.get pin = some payload → s'.payloads.get pin = some payload' → payload' = payload

theorem keeps_of_payloads {s s' : StoreInner} (h : s'.payloads = s.payloads) : Keeps s s' := by
  intro pin payload payload' hget hget'
  rw [h, hget, Option.some.injEq] at hget'
  exact hget'.symm

theorem keeps_insertPayload (s : StoreInner) (pin : Pin) (data : String)
    (reply : Option (Pin × ReplyToken)) (expiration : ℕ) (hfree : s.payloads.get pin = none) :
    Keeps s (s.insertPayload pin data reply expiration) := by
  intro pin' payload payload' hget hget'
  change (s.payloads.insert pin _).get pin' = some payload' at hget'
  rw [Map.get_insert] at hget'
  split_ifs at hget' with hpin
  · rw [hpin, hfree] at hget
    cases hget
  · rw [hget, Option.some.injEq] at hget'
    exact hget'.symm

theorem keeps_get (s : StoreInner) (pin : Pin) : Keeps s (s.get pin).2 := by
  unfold StoreInner.get
  cases s.payloads.get pin with
  | none => exact keeps_of_payloads rfl
  | some payload =>
    intro pin' payload₁ payload₂ hget hget'
    dsimp only at hget'
    rw [Map.get_erase] at hget'
    split_ifs at hget'
    rw [hget, Option.some.injEq] at hget'
    exact hget'.symm

section Create
variable {config : ServerConfig} {env : Env} {s : StoreInner} {data : String}
  {reply : Option (Pin × ReplyToken)} {result : Except RequestError (Pin × ℕ) × StoreInner}

theorem create_keeps (h : s.create config env data reply = some result) : Keeps s result.2 := by
  unfold create at h
  split_ifs at h
  · cases h
    exact keeps_of_payloads rfl
  · obtain ⟨pin, hpin, rfl⟩ := Option.map_eq_some_iff.mp h
    exact keeps_insertPayload s pin data reply _ (s.nextId_free env.draws pin hpin).1

theorem create_error (h : s.create config env data reply = some result) (e : RequestError)
    (he : result.1 = .error e) : result.2 = s ∧ config.maxPayloads < s.payloads.size := by
  unfold create at h
  split_ifs at h with hfull
  · cases h
    exact ⟨rfl, hfull⟩
  · obtain ⟨pin, -, rfl⟩ := Option.map_eq_some_iff.mp h
    cases he

theorem create_limited (h : s.create config env data reply = some result)
    (hlimited : s.payloads.size < config.maxPayloads) :
    result.2.payloads.size ≤ config.maxPayloads := by
  unfold create at h
  split_ifs at h
  · omega
  · obtain ⟨pin, -, rfl⟩ := Option.map_eq_some_iff.mp h
    have hsize := size_insert_le s.payloads pin
      ⟨data, reply.map Prod.fst, reply.map Prod.snd, env.now + config.payloadExpiration, s.stored⟩
    exact le_trans hsize hlimited

end Create

section PushReply
variable (config : ServerConfig) (env : Env) (s : StoreInner) (pin : Pin) (token : ReplyToken)
  (data : String) (reply : Option (Pin × ReplyToken))

/-- A reply is refused without a trace, or its payload takes the place of the reply pin. -/
theorem pushReply_cases : (s.pushReply config env pin token data reply).2 = s ∧
      (config.maxPayloads < s.payloads.size ∨ ¬ s.Accepts pin token) ∧
      (∃ e, (s.pushReply config env pin token data reply).1 = .error e) ∨
    s.Accepts pin token ∧ (∃ expiration, (s.pushReply config env pin token data reply).1 =
        .ok expiration) ∧
      ∃ payload, (s.pushReply config env pin token data reply).2.payloads =
        s.payloads.insert pin payload := by
  unfold pushReply
  split_ifs with hfull
  · exact Or.inl ⟨rfl, Or.inl hfull, _, rfl⟩
  cases hget : s.replies.get pin with
  | none =>
    refine Or.inl ⟨rfl, Or.inr ?_, _, rfl⟩
    rintro ⟨info, hinfo, -⟩
    rw [hget] at hinfo
    cases hinfo
  | some info =>
    dsimp only
    split_ifs with htoken
    · exact Or.inr ⟨⟨info, hget, htoken⟩, ⟨_, rfl⟩, _, rfl⟩
    · refine Or.inl ⟨rfl, Or.inr ?_, _, rfl⟩
      rintro ⟨found, hfound, heq⟩
      rw [hget, Option.some.injEq] at hfound
      exact htoken (hfound ▸ heq)

theorem pushReply_keeps (h : s.Sound) :
    Keeps s (s.pushReply config env pin token data reply).2 := by
  rcases s.pushReply_cases config env pin token data reply with
    ⟨hsame, -⟩ | ⟨⟨info, hinfo, -⟩, -, payload, hpayloads⟩
  · rw [hsame]
    exact keeps_of_payloads rfl
  · have hfree : s.payloads.get pin = none := by
      rcases h.disjoint pin with hnone | hnone
      · exact hnone
      · rw [hinfo] at hnone
        cases hnone
    intro pin' payload₁ payload₂ hget hget'
    rw [hpayloads, Map.get_insert] at hget'
    split_ifs at hget' with hpin
    · rw [hpin, hfree] at hget
      cases hget
    · rw [hget, Option.some.injEq] at hget'
      exact hget'.symm

theorem pushReply_limited (hlimited : s.payloads.size ≤ config.maxPayloads)
    (hroom : s.Accepts pin token → s.payloads.size ≠ config.maxPayloads) :
    (s.pushReply config env pin token data reply).2.payloads.size ≤ config.maxPayloads := by
  rcases s.pushReply_cases config env pin token data reply with
    ⟨hsame, -⟩ | ⟨haccepts, -, payload, hpayloads⟩
  · rw [hsame]
    exact hlimited
  · have hlt := lt_of_le_of_ne hlimited (hroom haccepts)
    rw [hpayloads]
    exact le_trans (size_insert_le s.payloads pin payload) hlt

end PushReply

end StoreInner

namespace Progress
open StoreInner

variable {config : ServerConfig} {env : Env} {s : StoreInner} {progress : Progress}
  {result : Progress × StoreInner}

theorem createWith_eq_some {payload : CreatePayloadRequest} {reply : Option (Pin × ReplyToken)}
    (h : createWith config env s payload reply = some result) :
    ∃ created, s.create config env payload.data reply = some created ∧ result.2 = created.2 ∧
      ∀ e, result.1 = .answered (.error e) → created.1 = .error e := by
  obtain ⟨⟨created, s'⟩, hcreated, rfl⟩ := Option.map_eq_some_iff.mp h
  refine ⟨(created, s'), hcreated, rfl, ?_⟩
  intro e he
  cases created with
  | error e' =>
    cases he
    rfl
  | ok => cases he

theorem replyWith_error {pin : Pin} {payload : ReplyPayloadRequest}
    {reply : Option (Pin × ReplyToken)} {e : RequestError}
    (h : (replyWith config env s pin payload reply).1 = .answered (.error e)) :
    (s.pushReply config env pin payload.replyToken payload.data reply).1 = .error e := by
  unfold replyWith at h
  rcases hresult : s.pushReply config env pin payload.replyToken payload.data reply with
    ⟨e' | expiration, s'⟩
  · rw [hresult] at h
    cases h
    rfl
  · rw [hresult] at h
    cases h

/-- What the next call of a request does. A careful one finds the room that it needs, and is not
refused behind a reply pin. -/
inductive Advances (config : ServerConfig) (env : Env) (s : StoreInner) :
    Progress → Progress × StoreInner → Prop where
  | refused {request : Request} (e : RequestError) :
      Advances config env s (.started request) (.answered (.error e), s)
  | got {pin : Pin} {answer : Progress}
      (hanswer : ∀ e, answer = .answered (.error e) → (s.get pin).2 = s) :
      Advances config env s (.started (.get pin)) (answer, (s.get pin).2)
  | reserved {request : Request} {answer : Progress} {reserved : (Pin × ReplyToken) × StoreInner}
      (hreserved : s.getReplyToken config env = some reserved)
      (hanswer : ∀ result, answer ≠ .answered result) :
      Advances config env s (.started request) (answer, reserved.2)
  | created {progress : Progress} {payload : CreatePayloadRequest}
      {reply : Option (Pin × ReplyToken)} {result : Progress × StoreInner}
      (hwith : createWith config env s payload reply = some result)
      (hroom : progress.Careful config s → s.payloads.size ≠ config.maxPayloads) :
      Advances config env s progress result
  | replied {progress : Progress} {pin : Pin} {payload : ReplyPayloadRequest}
      {reply : Option (Pin × ReplyToken)}
      (hroom : progress.Careful config s → s.Accepts pin payload.replyToken →
        s.payloads.size ≠ config.maxPayloads)
      (hadded : progress.Careful config s → progress.Added →
        s.payloads.size ≠ config.maxPayloads ∧ s.Accepts pin payload.replyToken) :
      Advances config env s progress (replyWith config env s pin payload reply)

theorem advance_get (pin : Pin) : ∃ answer,
    (Progress.started (.get pin)).advance config env s = some (answer, (s.get pin).2) ∧
      ∀ e, answer = .answered (.error e) → (s.get pin).2 = s := by
  rw [advance]
  unfold StoreInner.get
  cases s.payloads.get pin with
  | none => exact ⟨_, rfl, fun _ _ => rfl⟩
  | some payload => exact ⟨_, rfl, fun e he => by cases he⟩

theorem advances (h : progress.advance config env s = some result) :
    Advances config env s progress result := by
  cases progress with
  | answered => cases h
  | creating payload reply => exact .created h id
  | replying pin payload reply =>
    cases h
    exact .replied (fun hcareful _ => hcareful.1) (fun hcareful _ => hcareful)
  | started request =>
    cases request with
    | get pin =>
      obtain ⟨answer, hadvance, hanswer⟩ := @advance_get config env s pin
      rw [hadvance] at h
      cases h
      exact .got hanswer
    | create body =>
      rw [advance] at h
      cases hbody : body.read config with
      | error e =>
        rw [hbody] at h
        cases h
        exact .refused e
      | ok payload =>
        rw [hbody] at h
        dsimp only at h
        split_ifs at h with hexpects
        · obtain ⟨reserved, hreserved, rfl⟩ := Option.map_eq_some_iff.mp h
          exact .reserved hreserved (fun _ he => by cases he)
        · exact .created h fun hcareful =>
            hcareful payload hbody (Bool.eq_false_iff.mpr hexpects)
    | reply pin body =>
      rw [advance] at h
      cases hbody : body.read config with
      | error e =>
        rw [hbody] at h
        cases h
        exact .refused e
      | ok payload =>
        rw [hbody] at h
        dsimp only at h
        split_ifs at h with hexpects
        · obtain ⟨reserved, hreserved, rfl⟩ := Option.map_eq_some_iff.mp h
          exact .reserved hreserved (fun _ he => by cases he)
        · cases h
          exact .replied
            (fun hcareful => hcareful payload hbody (Bool.eq_false_iff.mpr hexpects))
            (fun _ hadded => absurd hadded not_false)

/-- Any call keeps the store sound and the payloads that it holds. -/
theorem advance_sound (h : s.Sound) (hresult : progress.advance config env s = some result) :
    result.2.Sound ∧ Keeps s result.2 := by
  cases advances hresult with
  | refused e => exact ⟨h, keeps_of_payloads rfl⟩
  | @got pin => exact ⟨h.get pin, keeps_get s pin⟩
  | @reserved _ _ reserved hreserved =>
    refine ⟨h.getReplyToken config env reserved hreserved, ?_⟩
    obtain ⟨pin, -, rfl⟩ := Option.map_eq_some_iff.mp hreserved
    exact keeps_of_payloads rfl
  | created hwith =>
    obtain ⟨created, hcreated, hstore, -⟩ := createWith_eq_some hwith
    rw [hstore]
    exact ⟨h.create config env _ _ created hcreated, create_keeps hcreated⟩
  | @replied _ pin _ reply =>
    exact ⟨h.pushReply config env pin _ _ reply, pushReply_keeps config env s pin _ _ reply h⟩

/-- A careful call keeps the limit, and answers with an error only where the request has added
nothing. -/
theorem advance_careful (hlimited : s.payloads.size ≤ config.maxPayloads)
    (hcareful : progress.Careful config s)
    (hresult : progress.advance config env s = some result) :
    result.2.payloads.size ≤ config.maxPayloads ∧
      ∀ e, result.1 = .answered (.error e) → ¬ progress.Added ∧ result.2 = s := by
  cases advances hresult with
  | refused e => exact ⟨hlimited, fun _ _ => ⟨not_false, rfl⟩⟩
  | @got pin _ hanswer =>
    refine ⟨?_, fun e he => ⟨not_false, hanswer e he⟩⟩
    unfold StoreInner.get
    cases s.payloads.get pin with
    | none => exact hlimited
    | some payload => exact le_trans (size_filterKeys_le s.payloads _) hlimited
  | reserved hreserved hanswer =>
    refine ⟨?_, fun e he => absurd he (hanswer _)⟩
    obtain ⟨pin, -, rfl⟩ := Option.map_eq_some_iff.mp hreserved
    exact hlimited
  | created hwith hroom =>
    obtain ⟨created, hcreated, hstore, herror⟩ := createWith_eq_some hwith
    have hlt := lt_of_le_of_ne hlimited (hroom hcareful)
    refine ⟨hstore ▸ create_limited hcreated hlt, ?_⟩
    intro e he
    have hfull := (create_error hcreated e (herror e he)).2
    omega
  | @replied _ pin payload reply hroom hadded =>
    refine ⟨pushReply_limited config env s pin _ _ _ hlimited (hroom hcareful), ?_⟩
    intro e he
    rcases s.pushReply_cases config env pin payload.replyToken payload.data reply with
      ⟨hsame, hrefused, -⟩ | ⟨-, ⟨expiration, hok⟩, -⟩
    · refine ⟨fun hadd => ?_, hsame⟩
      obtain ⟨hsize, haccepts⟩ := hadded hcareful hadd
      rcases hrefused with hfull | hno
      · omega
      · exact hno haccepts
    · rw [replyWith_error he] at hok
      cases hok

end Progress

namespace Server
open StoreInner

theorem Sound.delivered {config : ServerConfig} {s : StoreInner} (h : s.Sound)
    (hlimited : s.payloads.size ≤ config.maxPayloads) : Delivered config s :=
  ⟨h.disjoint, h.returned.1, h.used.1, h.used.2, hlimited⟩

/-- A careful step keeps the store sound and within its limit, and what is promised of it. -/
theorem step_careful (config : ServerConfig) (s : Server) (event : Event) (h : s.store.Sound)
    (hlimited : s.store.payloads.size ≤ config.maxPayloads) (hcareful : Careful config s event) :
    (s.step config event).store.Sound ∧
      (s.step config event).store.payloads.size ≤ config.maxPayloads ∧
      StepKeeps s (s.step config event) := by
  cases event with
  | request request =>
    refine ⟨h, hlimited, keeps_of_payloads rfl, ?_⟩
    intro i progress e hget hopen hanswered
    have hlt := (List.getElem?_eq_some_iff.mp hget).1
    change (s.requests ++ [.started request])[i]? = _ at hanswered
    rw [List.getElem?_append_left hlt, hget, Option.some.injEq] at hanswered
    exact absurd hanswered (hopen _)
  | cleanup now =>
    refine ⟨h.cleanup now, le_trans (size_filterKeys_le _ _) hlimited, ?_, ?_⟩
    · intro pin payload payload' hget hget'
      have hold := get_filterKeys_some _ _ _ _ hget'
      rw [hget, Option.some.injEq] at hold
      exact hold.symm
    · intro i progress e hget hopen hanswered
      change s.requests[i]? = _ at hanswered
      rw [hget, Option.some.injEq] at hanswered
      exact absurd hanswered (hopen _)
  | advance i env =>
    have hstay : StepKeeps s s := by
      refine ⟨keeps_of_payloads rfl, ?_⟩
      intro i progress e hget hopen hanswered
      rw [hget, Option.some.injEq] at hanswered
      exact absurd hanswered (hopen _)
    rw [step]
    cases hget : s.requests[i]? with
    | none => exact ⟨h, hlimited, hstay⟩
    | some progress =>
      dsimp only
      cases hresult : progress.advance config env s.store with
      | none => exact ⟨h, hlimited, hstay⟩
      | some result =>
        obtain ⟨hsound, hkeeps⟩ := Progress.advance_sound h hresult
        obtain ⟨hsize, herror⟩ :=
          Progress.advance_careful hlimited (hcareful progress hget) hresult
        refine ⟨hsound, hsize, hkeeps, ?_⟩
        intro i' progress' e hget' hopen hanswered
        dsimp only at hanswered ⊢
        rw [List.getElem?_set] at hanswered
        split_ifs at hanswered with heq hlt
        · rw [← heq, hget, Option.some.injEq] at hget'
          rw [← hget']
          exact herror e (Option.some.inj hanswered)
        · rw [hget', Option.some.injEq] at hanswered
          exact absurd hanswered (hopen _)

theorem careful_run (config : ServerConfig) (events : List Event) (s : Server)
    (h : s.store.Sound) (hlimited : s.store.payloads.size ≤ config.maxPayloads)
    (hcareful : Run.Allowed (step config) (Careful config) s events) :
    Run.Allowed (step config)
      (fun s event => StepKeeps s (s.step config event) ∧
        Delivered config (s.step config event).store) s events := by
  induction events generalizing s with
  | nil => trivial
  | cons event events ih =>
    obtain ⟨hfirst, hrest⟩ := hcareful
    obtain ⟨hsound, hsize, hkeeps⟩ := step_careful config s event h hlimited hfirst
    exact ⟨⟨hkeeps, Sound.delivered hsound hsize⟩, ih _ hsound hsize hrest⟩

/-- In every run of careful steps the store delivers what is promised of it, after each step. -/
theorem careful_delivered (config : ServerConfig) (events : List Event)
    (hcareful : Run.Allowed (step config) (Careful config) new events) :
    Run.Allowed (step config)
      (fun s event => StepKeeps s (s.step config event) ∧
        Delivered config (s.step config event).store) new events :=
  careful_run config events new sound_empty (Nat.zero_le _) hcareful

section Samples

def smallConfig : ServerConfig := ⟨1, 100, 10, 10⟩

def firstPin : Pin := ⟨100000000, by decide⟩

def secondPin : Pin := ⟨100000001, by decide⟩

def thirdPin : Pin := ⟨100000002, by decide⟩

def createEvent (expectReply : Bool) : Event :=
  .request (.create (.bytes 4 (some ⟨"data", expectReply⟩)))

/-- The second payload is over the limit of one. The third request gets a reply pin and is then
refused. -/
def crowdedEvents : List Event :=
  [createEvent false, createEvent false, createEvent true,
    .advance 0 ⟨0, [firstPin], 7⟩, .advance 1 ⟨0, [secondPin], 7⟩,
    .advance 2 ⟨0, [thirdPin], 7⟩, .advance 2 ⟨0, [thirdPin], 7⟩]

theorem crowded_not_delivered : ¬ Run.Allowed (step smallConfig)
    (fun s event => StepKeeps s (s.step smallConfig event) ∧
      Delivered smallConfig (s.step smallConfig event).store) new crowdedEvents := by
  rintro ⟨-, -, -, -, ⟨-, hdelivered⟩, -⟩
  have hsize : (Run.exec (step smallConfig) new (crowdedEvents.take 5)).store.payloads.size = 2 :=
    by decide +kernel
  have hlimited := hdelivered.limited
  change (Run.exec (step smallConfig) new (crowdedEvents.take 5)).store.payloads.size ≤ 1 at hlimited
  omega

/-- A payload that expects a reply is created and fetched, and the reply is stored and fetched. -/
def pairedEvents : List Event :=
  [createEvent true, .advance 0 ⟨0, [firstPin], 7⟩, .advance 0 ⟨0, [firstPin, secondPin], 0⟩,
    .request (.get secondPin), .advance 1 ⟨1, [], 0⟩,
    .request (.reply firstPin (.bytes 5 (some ⟨"reply", 7, false⟩))), .advance 2 ⟨1, [], 0⟩,
    .cleanup 2, .request (.get firstPin), .advance 3 ⟨3, [], 0⟩]

theorem paired_delivered : Run.Allowed (step smallConfig)
    (fun s event => StepKeeps s (s.step smallConfig event) ∧
      Delivered smallConfig (s.step smallConfig event).store) new pairedEvents :=
  careful_delivered smallConfig pairedEvents (by decide +kernel)

end Samples

end Server

end Exocore.Discovery
