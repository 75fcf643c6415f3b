import Mathlib.Tactic

/-! The lower case of texts. All characters but one have a lower case of their own; that of a
capital sigma depends on the characters around it. -/
namespace Lowercase

/-- What the tables of Unicode say of a character. -/
structure Casing where
  toLower : Char → List Char
  cased : Char → Bool
  caseIgnorable : Char → Bool

namespace Casing
variable (u : Casing)

def caseIgnorableThenCased (chars : List Char) : Bool :=
  match chars.dropWhile u.caseIgnorable with
  | [] => false
  | c :: _ => u.cased c

/-- At the end of a word it is another one. The characters before it are read backwards. -/
def mapUppercaseSigma (before after : List Char) : Char :=
  if u.caseIgnorableThenCased before && !u.caseIgnorableThenCased after then 'ς' else 'σ'

def lowerChar (before : List Char) (c : Char) (after : List Char) : List Char :=
  if c = 'Σ' then [u.mapUppercaseSigma before after] else u.toLower c

/-- The lower case of a part of a text. -/
def lowerIn : List Char → List Char → List Char → List Char
  | _, [], _ => []
  | before, c :: rest, after =>
    u.lowerChar before c (rest ++ after) ++ lowerIn (c :: before) rest after

def toLowercase (text : List Char) : List Char := u.lowerIn [] text []

/-- A character that stays as it is and ends the words around it. -/
structure Cuts (c : Char) : Prop where
  sigma : c ≠ 'Σ'
  same : u.toLower c = [c]
  notCased : u.cased c = false
  notIgnorable : u.caseIgnorable c = false

variable {u}

theorem lowerIn_append (before l r after : List Char) :
    u.lowerIn before (l ++ r) after =
      u.lowerIn before l (r ++ after) ++ u.lowerIn (l.reverse ++ before) r after := by
  induction l generalizing before with
  | nil => rfl
  | cons c rest ih =>
    rw [List.cons_append, lowerIn, lowerIn, ih, List.reverse_cons, List.append_assoc,
      List.append_assoc, List.append_assoc]
    rfl

theorem caseIgnorableThenCased_cut {c : Char} (h : u.Cuts c) (l r : List Char) :
    u.caseIgnorableThenCased (l ++ c :: r) = u.caseIgnorableThenCased l := by
  induction l with
  | nil =>
    rw [List.nil_append, caseIgnorableThenCased, List.dropWhile_cons_of_neg]
    · exact h.notCased
    · rw [h.notIgnorable]
      exact Bool.false_ne_true
  | cons d rest ih =>
    by_cases hd : u.caseIgnorable d = true
    · rw [caseIgnorableThenCased, caseIgnorableThenCased, List.cons_append,
        List.dropWhile_cons_of_pos hd, List.dropWhile_cons_of_pos hd]
      exact ih
    · rw [caseIgnorableThenCased, caseIgnorableThenCased, List.cons_append,
        List.dropWhile_cons_of_neg hd, List.dropWhile_cons_of_neg hd]

theorem lowerIn_cut_after {c : Char} (h : u.Cuts c) (before l near far : List Char) :
    u.lowerIn before l (near ++ c :: far) = u.lowerIn before l near := by
  induction l generalizing before with
  | nil => rfl
  | cons d rest ih =>
    rw [lowerIn, lowerIn, ih, lowerChar, lowerChar, mapUppercaseSigma, mapUppercaseSigma,
      ← List.append_assoc, caseIgnorableThenCased_cut h]

theorem lowerIn_cut_before {c : Char} (h : u.Cuts c) (near far l after : List Char) :
    u.lowerIn (near ++ c :: far) l after = u.lowerIn near l after := by
  induction l generalizing near with
  | nil => rfl
  | cons d rest ih =>
    have hnear := ih (d :: near)
    rw [List.cons_append] at hnear
    rw [lowerIn, lowerIn, hnear, lowerChar, lowerChar, mapUppercaseSigma, mapUppercaseSigma,
      caseIgnorableThenCased_cut h]

/-- A text is lower-cased apart on the two sides of a cut. -/
theorem lowerIn_cut {c : Char} (h : u.Cuts c) (before l r after : List Char) :
    u.lowerIn before (l ++ c :: r) after =
      u.lowerIn before l [] ++ c :: u.lowerIn [] r after := by
  have hbefore : u.lowerIn (c :: (l.reverse ++ before)) r after = u.lowerIn [] r after :=
    lowerIn_cut_before h [] (l.reverse ++ before) r after
  have hafter : u.lowerIn before l (c :: (r ++ after)) = u.lowerIn before l [] :=
    lowerIn_cut_after h before l [] (r ++ after)
  rw [lowerIn_append, List.cons_append, hafter, lowerIn, lowerChar, if_neg h.sigma, h.same, hbefore]
  rfl

/-- What the lower case of each character has, that of a text has. -/
theorem lowerIn_forall {P Q : Char → Prop} (hsigma : Q 'ς' ∧ Q 'σ')
    (hother : ∀ c, P c → ∀ d ∈ u.toLower c, Q d) (before l after : List Char)
    (hl : ∀ c ∈ l, P c) : ∀ d ∈ u.lowerIn before l after, Q d := by
  induction l generalizing before with
  | nil => exact fun d hd => absurd hd List.not_mem_nil
  | cons c rest ih =>
    intro d hd
    rcases List.mem_append.mp hd with hfirst | hlast
    · rw [lowerChar] at hfirst
      split_ifs at hfirst with hc
      · rw [List.mem_singleton.mp hfirst, mapUppercaseSigma]
        split_ifs
        · exact hsigma.1
        · exact hsigma.2
      · exact hother c (hl c List.mem_cons_self) d hfirst
    · exact ih (c :: before) (fun c' hc' => hl c' (List.mem_cons_of_mem c hc')) d hlast

end Casing

end Lowercase
