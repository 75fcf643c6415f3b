import Mathlib.Tactic

/-! Caches of bounded size, and one that drops the entry that was not used for the longest time. -/
namespace Lru

/-- A cache is known by what it holds for each key. A put may drop others, a get and a pop do
not. -/
structure LruCache (K V : Type) where
  Cache : Type
  new : (cap : ℕ) → 0 < cap → Cache
  get : Cache → K → Option V × Cache
  put : Cache → K → V → Cache
  pop : Cache → K → Cache
  held : Cache → K → Option V
  held_new : ∀ cap nonzero k, held (new cap nonzero) k = none
  get_fst : ∀ c k, (get c k).1 = held c k
  held_get : ∀ c k, held (get c k).2 = held c
  held_put : ∀ c k v k' v', held (put c k v) k' = some v' →
    k' = k ∧ v' = v ∨ k' ≠ k ∧ held c k' = some v'
  held_pop : ∀ c k k' v, held (pop c k) k' = some v ↔ k' ≠ k ∧ held c k' = some v

namespace LruCache
variable {K V : Type}

section Agreement
variable (lru : LruCache K V)

/-- What the cache holds is what the function gives. -/
def Agrees (c : lru.Cache) (f : K → V) : Prop := ∀ k v, lru.held c k = some v → v = f k

variable {lru} {c : lru.Cache} {f : K → V}

theorem agrees_new (cap : ℕ) (nonzero : 0 < cap) (f : K → V) :
    lru.Agrees (lru.new cap nonzero) f := by
  intro k v h
  rw [lru.held_new] at h
  contradiction

theorem Agrees.put (h : lru.Agrees c f) (k : K) : lru.Agrees (lru.put c k (f k)) f := by
  intro k' v' hheld
  rcases lru.held_put c k (f k) k' v' hheld with ⟨rfl, hv⟩ | ⟨-, hold⟩
  · exact hv
  · exact h k' v' hold

theorem Agrees.get (h : lru.Agrees c f) (k : K) : lru.Agrees (lru.get c k).2 f := by
  intro k' v' hheld
  rw [lru.held_get] at hheld
  exact h k' v' hheld

/-- A hit gives what the function gives. -/
theorem Agrees.hit (h : lru.Agrees c f) (k : K) (v : V) (hhit : (lru.get c k).1 = some v) :
    v = f k := by
  rw [lru.get_fst] at hhit
  exact h k v hhit

end Agreement

section LeastRecent
variable [DecidableEq K]

/-- The entries, with the one that was used last in front. -/
structure Entries (K V : Type) where
  cap : ℕ
  entries : List (K × V)

namespace Entries

def held (c : Entries K V) (k : K) : Option V :=
  (c.entries.find? fun e => e.1 = k).map Prod.snd

def others (c : Entries K V) (k : K) : List (K × V) := c.entries.filter fun e => e.1 ≠ k

/-- The entry comes to the front, and the last one goes where there are too many. -/
def put (c : Entries K V) (k : K) (v : V) : Entries K V :=
  ⟨c.cap, ((k, v) :: c.others k).take c.cap⟩

/-- A hit is an entry that comes to the front. -/
def get (c : Entries K V) (k : K) : Option V × Entries K V :=
  match c.held k with
  | none => (none, c)
  | some v => (some v, ⟨c.cap, (k, v) :: c.others k⟩)

def pop (c : Entries K V) (k : K) : Entries K V := ⟨c.cap, c.others k⟩

theorem find?_others (c : Entries K V) (k k' : K) (h : k' ≠ k) :
    ((c.others k).find? fun e => e.1 = k').map Prod.snd = c.held k' := by
  rw [others, List.find?_filter, held]
  congr 2
  funext e
  by_cases he : e.1 = k'
  · simp [he, h]
  · simp [he]

theorem held_get (c : Entries K V) (k : K) : (c.get k).2.held = c.held := by
  unfold get
  cases hk : c.held k with
  | none => rfl
  | some v =>
    funext k'
    by_cases h : k' = k
    · rw [h, hk, held, List.find?_cons_of_pos (by simp)]
      rfl
    · have hne : ¬ k = k' := fun heq => h heq.symm
      rw [held, List.find?_cons_of_neg (by simpa using hne), c.find?_others k k' h]

theorem held_put (c : Entries K V) (k : K) (v : V) (k' : K) (v' : V)
    (h : (c.put k v).held k' = some v') :
    k' = k ∧ v' = v ∨ k' ≠ k ∧ c.held k' = some v' := by
  obtain ⟨e, hfind, rfl⟩ := Option.map_eq_some_iff.mp h
  have hall : ((k, v) :: c.others k).find? (fun e => e.1 = k') = some e :=
    List.IsPrefix.find?_eq_some (List.take_prefix _ _) hfind
  by_cases hk : k' = k
  · rw [List.find?_cons_of_pos (by simp [hk])] at hall
    rw [← Option.some.inj hall]
    exact Or.inl ⟨hk, rfl⟩
  · have hne : ¬ k = k' := fun heq => hk heq.symm
    rw [List.find?_cons_of_neg (by simpa using hne)] at hall
    refine Or.inr ⟨hk, ?_⟩
    rw [← c.find?_others k k' hk, hall]
    rfl

theorem held_pop (c : Entries K V) (k k' : K) (v : V) :
    (c.pop k).held k' = some v ↔ k' ≠ k ∧ c.held k' = some v := by
  by_cases hk : k' = k
  · rw [hk]
    refine iff_of_false ?_ fun h => h.1 rfl
    intro h
    obtain ⟨e, hfind, -⟩ := Option.map_eq_some_iff.mp h
    have hmem := (List.mem_filter.mp (List.mem_of_find?_eq_some hfind)).2
    have hkey := List.find?_some hfind
    simp only [decide_eq_true_eq] at hmem hkey
    exact hmem hkey
  · rw [← c.find?_others k k' hk]
    exact ⟨fun h => ⟨hk, h⟩, fun h => h.2⟩

end Entries

/-- The cache that drops the entry that was not used for the longest time. -/
def leastRecent (K V : Type) [DecidableEq K] : LruCache K V where
  Cache := Entries K V
  new cap _ := ⟨cap, []⟩
  get := Entries.get
  put := Entries.put
  pop := Entries.pop
  held := Entries.held
  held_new _ _ _ := rfl
  get_fst c k := by
    unfold Entries.get
    cases c.held k <;> rfl
  held_get := Entries.held_get
  held_put := Entries.held_put
  held_pop := Entries.held_pop

end LeastRecent

end LruCache

end Lru
