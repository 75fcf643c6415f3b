import Mathlib.Tactic

/-! Loops over a list that a round may leave with a result. The items behind it are not visited. -/
namespace Loop

variable {S A E : Type}

def untilReturn (round : S → A → Option E × S) : List A → S → Option E × S
  | [], s => (none, s)
  | a :: rest, s => match round s a with
    | (some e, s') => (some e, s')
    | (none, s') => untilReturn round rest s'

/-- The items up to the first one that ends the loop, and with it. -/
def visited (stops : A → Bool) : List A → List A
  | [] => []
  | a :: rest => if stops a then [a] else a :: visited stops rest

/-- The items behind that one. -/
def unvisited (stops : A → Bool) : List A → List A
  | [] => []
  | a :: rest => if stops a then rest else unvisited stops rest

section Visited
variable (stops : A → Bool)

theorem visited_append_unvisited (as : List A) : visited stops as ++ unvisited stops as = as := by
  induction as with
  | nil => rfl
  | cons a rest ih =>
    rw [visited, unvisited]
    split_ifs
    · rfl
    · rw [List.cons_append, ih]

/-- All items are visited iff none before the last one ends the loop. -/
theorem unvisited_eq_nil_iff (as : List A) :
    unvisited stops as = [] ↔ ∀ a ∈ as.dropLast, stops a = false := by
  induction as with
  | nil => simp [unvisited]
  | cons a rest ih =>
    rw [unvisited]
    cases rest with
    | nil => simp [unvisited]
    | cons b rest =>
      rw [List.dropLast_cons_cons, List.forall_mem_cons]
      by_cases hstop : stops a = true
      · simp [hstop]
      · rw [if_neg hstop, ih]
        exact ⟨fun h => ⟨Bool.eq_false_iff.mpr hstop, h⟩, fun h => h.2⟩

end Visited

variable {round : S → A → Option E × S}

theorem untilReturn_cons {a : A} {s : S} (h : (round s a).1 = none) (rest : List A) :
    untilReturn round (a :: rest) s = untilReturn round rest (round s a).2 := by
  rw [untilReturn]
  rcases hround : round s a with ⟨_ | e, s'⟩
  · rfl
  · rw [hround] at h
    cases h

section Stops
variable {stops : A → Bool} (hstops : ∀ s a, (round s a).1.isSome = stops a)
include hstops

/-- The loop is left iff one of its items ends it. -/
theorem untilReturn_isSome (as : List A) (s : S) :
    (untilReturn round as s).1.isSome = as.any stops := by
  induction as generalizing s with
  | nil => rfl
  | cons a rest ih =>
    have hstop := hstops s a
    rw [untilReturn, List.any_cons]
    cases hround : round s a with
    | mk result s' =>
      rw [hround] at hstop
      cases result with
      | none => rw [← hstop, ih]; rfl
      | some e => rw [← hstop]; rfl

/-- What each round takes over from its item, the loop takes over from those it visits. -/
theorem untilReturn_holds {X : Type} (held : S → List X) (item : A → X)
    (hround : ∀ s a, (held (round s a).2).Perm (held s ++ [item a])) (as : List A) (s : S) :
    (held (untilReturn round as s).2).Perm (held s ++ (visited stops as).map item) := by
  induction as generalizing s with
  | nil => rw [visited, List.map_nil, List.append_nil]; rfl
  | cons a rest ih =>
    have hstop := hstops s a
    have hone := hround s a
    rw [untilReturn, visited]
    cases hresult : round s a with
    | mk result s' =>
      rw [hresult] at hstop hone
      cases result with
      | some e =>
        rw [← hstop]
        exact hone
      | none =>
        rw [← hstop]
        have hrest := (ih s').trans (hone.append_right _)
        rw [List.append_assoc] at hrest
        exact hrest

end Stops

/-- What only a round that ends the loop adds to. -/
theorem untilReturn_adds {X : Type} (log : S → List X) (added : E → List X)
    (hround : ∀ s a, log (round s a).2 = log s ++ (round s a).1.elim [] added) (as : List A) (s : S) :
    log (untilReturn round as s).2 = log s ++ (untilReturn round as s).1.elim [] added := by
  induction as generalizing s with
  | nil => exact (List.append_nil _).symm
  | cons a rest ih =>
    have hone := hround s a
    rw [untilReturn]
    cases hresult : round s a with
    | mk result s' =>
      rw [hresult] at hone
      cases result with
      | some e => exact hone
      | none =>
        rw [Option.elim_none, List.append_nil] at hone
        dsimp only
        rw [ih, hone]

/-- What no round changes, the loop does not. -/
theorem untilReturn_keeps {X : Type} (part : S → X) (hround : ∀ s a, part (round s a).2 = part s)
    (as : List A) (s : S) : part (untilReturn round as s).2 = part s := by
  induction as generalizing s with
  | nil => rfl
  | cons a rest ih =>
    have hone := hround s a
    rw [untilReturn]
    cases hresult : round s a with
    | mk result s' =>
      rw [hresult] at hone
      cases result with
      | some e => exact hone
      | none => exact (ih s').trans hone

end Loop
