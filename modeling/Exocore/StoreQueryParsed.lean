import Exocore.StoreQueryTerms

/-! The parts that printed terms are parsed to. -/
namespace Exocore.Store.Search

open Lowercase Casing

namespace QueryCasing
variable (u : QueryCasing)

theorem cuts {c : Char} (h : isSpecial c = true) (hcolon : c ≠ ':') : u.Cuts c := by
  refine ⟨?_, u.toLower_special c h, u.cased_special c h, u.caseIgnorable_special c h hcolon⟩
  rintro rfl
  exact absurd h (by decide)

theorem special_of_sign {c : Char} (h : isSign c = true) : isSpecial c = true := by
  rw [isSpecial, h, Bool.or_true]
  rfl

theorem special_of_white {c : Char} (h : QueryString.isWhitespace c = true) :
    isSpecial c = true := by
  rw [isSpecial, h]
  rfl

theorem cuts_of_white {c : Char} (h : QueryString.isWhitespace c = true) : u.Cuts c := by
  refine u.cuts (special_of_white h) ?_
  rintro rfl
  exact absurd h (by decide)

variable (before l after : List Char)

/-- Lower-casing makes no special character, -/
theorem special_of_lower : ∀ d ∈ u.lowerIn before l after, isSpecial d = true → d ∈ l := by
  refine lowerIn_forall (P := fun c => c ∈ l) ?_ ?_ before l after fun c hc => hc
  · exact ⟨fun h => absurd h (by decide), fun h => absurd h (by decide)⟩
  · intro c hc d hd hspecial
    cases hkind : isSpecial c with
    | true =>
      rw [u.toLower_special c hkind] at hd
      rw [List.mem_singleton.mp hd]
      exact hc
    | false =>
      have hnot := (u.toLower_other c hkind).2 d hd
      exact absurd hspecial (by rw [hnot]; exact Bool.false_ne_true)

/-- and it keeps them. -/
theorem lower_of_special {c : Char} (hspecial : isSpecial c = true) (hc : c ∈ l) :
    c ∈ u.lowerIn before l after := by
  have hsigma : c ≠ 'Σ' := by
    rintro rfl
    exact absurd hspecial (by decide)
  induction l generalizing before with
  | nil => exact absurd hc List.not_mem_nil
  | cons d rest ih =>
    rw [lowerIn]
    rcases List.mem_cons.mp hc with rfl | hrest
    · rw [lowerChar, if_neg hsigma, u.toLower_special c hspecial]
      exact List.mem_append_left _ (List.mem_singleton.mpr rfl)
    · exact List.mem_append_right _ (ih _ hrest)

theorem signFree_lower_iff : (∀ d ∈ u.lowerIn before l after, isSign d = false) ↔
    ∀ c ∈ l, isSign c = false := by
  constructor
  · intro h c hc
    by_contra hsign
    have hyes := Bool.eq_true_of_not_eq_false hsign
    exact hsign (h c (u.lower_of_special before l after (special_of_sign hyes) hc))
  · intro h d hd
    by_contra hsign
    have hyes := Bool.eq_true_of_not_eq_false hsign
    exact hsign (h d (u.special_of_lower before l after d hd (special_of_sign hyes)))

/-- A character that is not special leaves one that is not. -/
theorem exists_lower {c : Char} (h : isSpecial c = false) :
    ∃ d ∈ u.lowerChar before c after, isSpecial d = false := by
  rw [lowerChar]
  split_ifs
  · refine ⟨_, List.mem_singleton.mpr rfl, ?_⟩
    rw [mapUppercaseSigma]
    split_ifs <;> decide
  · obtain ⟨hsome, hall⟩ := u.toLower_other c h
    obtain ⟨d, hd⟩ := List.exists_mem_of_ne_nil _ hsome
    exact ⟨d, hd, hall d hd⟩

theorem lowerIn_eq_nil_iff : u.lowerIn before l after = [] ↔ l = [] := by
  cases l with
  | nil => exact iff_of_true rfl rfl
  | cons c rest =>
    refine iff_of_false ?_ (List.cons_ne_nil c rest)
    intro hnil
    have hfirst := (List.append_eq_nil_iff.mp hnil).1
    cases hc : isSpecial c with
    | true =>
      have hmem := u.lower_of_special before [c] (rest ++ after) hc (List.mem_singleton.mpr rfl)
      rw [lowerIn, lowerIn, List.append_nil, List.nil_append, hfirst] at hmem
      exact absurd hmem List.not_mem_nil
    | false =>
      obtain ⟨d, hd, -⟩ := u.exists_lower before (rest ++ after) hc
      rw [hfirst] at hd
      exact absurd hd List.not_mem_nil

theorem lowerIn_colon : u.lowerIn before (':' :: l) after =
    ':' :: u.lowerIn (':' :: before) l after := by
  rw [lowerIn, lowerChar, if_neg (by decide), u.toLower_special ':' (by decide)]
  rfl

end QueryCasing

/-- Nothing or white space, as behind a term. -/
def Boundary (rest : List Char) : Prop := ∀ c ∈ rest.head?, QueryString.isWhitespace c = true

section Boundaries
variable (u : QueryCasing) {rest : List Char}

theorem Boundary.before (h : Boundary rest) (before : List Char) :
    u.lowerIn before rest [] = u.lowerIn [] rest [] := by
  cases rest with
  | nil => rfl
  | cons c rest =>
    have hcuts := u.cuts_of_white (h c rfl)
    exact (lowerIn_cut hcuts before [] rest []).trans (lowerIn_cut hcuts [] [] rest []).symm

theorem Boundary.after (h : Boundary rest) (before l near : List Char) :
    u.lowerIn before l (near ++ rest) = u.lowerIn before l near := by
  cases rest with
  | nil => rw [List.append_nil]
  | cons c rest =>
    have hcuts := u.cuts_of_white (h c rfl)
    exact lowerIn_cut_after hcuts before l near rest

end Boundaries

namespace Term
variable (u : QueryCasing) (t : Term)

def fieldLowered : List Char :=
  match t.field with
  | none => []
  | some _ => t.lowerField u ++ [':']

def bodyLowered : List Char :=
  match t.body with
  | .word _ => t.lowerText u
  | .phrase _ _ => '"' :: t.lowerText u ++ ['"']
  | .parenthesised _ _ => '(' :: t.lowerText u ++ [')']

theorem lowerIn_sign (occur : QSOccur) (rest : List Char) :
    u.lowerIn [] (signPrinted occur ++ rest) [] = signPrinted occur ++ u.lowerIn [] rest [] := by
  cases occur with
  | must => exact lowerIn_cut (u.cuts (by decide) (by decide)) [] [] rest []
  | mustNot => exact lowerIn_cut (u.cuts (by decide) (by decide)) [] [] rest []
  | should => rfl

/-- Behind a body only its own characters count for what is before it. -/
theorem lowerIn_before_body (before l : List Char) (body : Body) {rest : List Char}
    (h : Boundary rest) : u.lowerIn before l (':' :: (body.printed ++ rest)) =
      u.lowerIn before l (':' :: body.printed) := by
  rw [← List.cons_append]
  exact h.after u before l (':' :: body.printed)

theorem lowerIn_body (before : List Char) {rest : List Char} (h : Boundary rest)
    (hbefore : before = t.fieldPrinted.reverse) : u.lowerIn before (t.body.printed ++ rest) [] =
      t.bodyLowered u ++ u.lowerIn [] rest [] := by
  have hquoted (opening closing : Char) (text : List Char) (hopen : u.Cuts opening)
      (hclose : u.Cuts closing) : u.lowerIn before (opening :: text ++ [closing] ++ rest) [] =
        opening :: u.toLowercase text ++ [closing] ++ u.lowerIn [] rest [] := by
    have hfirst := lowerIn_cut hopen before [] (text ++ closing :: rest) []
    have hsecond := lowerIn_cut hclose [] text rest []
    rw [List.nil_append, hsecond] at hfirst
    simp only [List.cons_append, List.append_assoc, List.nil_append]
    exact hfirst
  rw [bodyLowered, lowerText, hbefore.symm]
  cases t.body with
  | word w =>
    have hword := h.after u before w.chars []
    rw [List.nil_append] at hword
    rw [Body.printed, lowerIn_append, List.append_nil, hword, h.before]
  | phrase text unquoted =>
    exact hquoted '"' '"' text (u.cuts (by decide) (by decide)) (u.cuts (by decide) (by decide))
  | parenthesised text unclosed =>
    exact hquoted '(' ')' text (u.cuts (by decide) (by decide)) (u.cuts (by decide) (by decide))

theorem lowerIn_printed {rest : List Char} (h : Boundary rest) :
    u.lowerIn [] (t.printed ++ rest) [] =
      signPrinted t.occur ++ t.fieldLowered u ++ t.bodyLowered u ++ u.lowerIn [] rest [] := by
  rw [printed, List.append_assoc, List.append_assoc, lowerIn_sign]
  have hfield : u.lowerIn [] (t.fieldPrinted ++ (t.body.printed ++ rest)) [] =
      t.fieldLowered u ++ (t.bodyLowered u ++ u.lowerIn [] rest []) := by
    cases hf : t.field with
    | none =>
      have hprinted : t.fieldPrinted = [] := by
        rw [fieldPrinted, hf]
        rfl
      rw [fieldLowered, hf, hprinted]
      exact t.lowerIn_body u [] h (by rw [hprinted]; rfl)
    | some f =>
      have hprinted : t.fieldPrinted = f.chars ++ [':'] := by
        rw [fieldPrinted, hf]
        rfl
      have hlower : t.lowerField u = u.lowerIn [] f.chars (':' :: t.body.printed) := by
        rw [lowerField, fieldText, hf]
        rfl
      have hbody := t.lowerIn_body u (':' :: f.chars.reverse) h (by
        rw [hprinted, List.reverse_append]
        rfl)
      rw [fieldLowered, hf, hprinted, List.append_assoc, lowerIn_append, List.singleton_append,
        List.append_nil, lowerIn_before_body u [] f.chars t.body h, u.lowerIn_colon,
        List.append_nil, hbody]
      dsimp only
      rw [hlower, List.append_assoc]
      rfl
  rw [hfield]
  simp only [List.append_assoc]

end Term

/-- The sign that is in force behind these characters. -/
def lastSign (occur : QSOccur) (l : List Char) : QSOccur :=
  l.foldl (fun occur c => if c = '+' then .must else if c = '-' then .mustNot else occur) occur

theorem lastSign_of_free (occur : QSOccur) {l : List Char} (h : ∀ c ∈ l, isSign c = false) :
    lastSign occur l = occur := by
  induction l with
  | nil => rfl
  | cons c rest ih =>
    have hc := h c List.mem_cons_self
    have hplus : c ≠ '+' := by
      rintro rfl
      exact absurd hc (by decide)
    have hminus : c ≠ '-' := by
      rintro rfl
      exact absurd hc (by decide)
    have hrest := ih fun c' hc' => h c' (List.mem_cons_of_mem c hc')
    rw [lastSign, List.foldl_cons, if_neg hplus, if_neg hminus]
    exact hrest

namespace QueryString

theorem step_word (qs : QueryString) (part : QSPart) (hphrase : part.phrase = false)
    (hparens : part.inParenthesis = false) {c : Char} (hc : isSpecial c = true → isSign c = true) :
    qs.step part c = (qs, { part with
      occur := lastSign part.occur [c]
      text := part.text ++ [c].filter fun c => !isSign c }) := by
  rw [step, if_neg (by rw [hphrase]; exact Bool.false_ne_true),
    if_neg (by rw [hparens]; exact Bool.false_ne_true)]
  cases hsign : isSign c with
  | true =>
    rcases Bool.or_eq_true_iff.mp hsign with hplus | hminus
    · rw [of_decide_eq_true hplus, if_neg (by decide), if_pos rfl]
      exact congrArg (fun text => (qs, { part with occur := .must, text := text }))
        (List.append_nil part.text).symm
    · rw [of_decide_eq_true hminus, if_neg (by decide), if_neg (by decide), if_pos rfl]
      exact congrArg (fun text => (qs, { part with occur := .mustNot, text := text }))
        (List.append_nil part.text).symm
  | false =>
    have hspecial : isSpecial c = false := by
      by_contra hyes
      have hmust := hc (Bool.eq_true_of_not_eq_false hyes)
      rw [hsign] at hmust
      exact Bool.false_ne_true hmust
    simp only [isSpecial, Bool.or_eq_false_iff, decide_eq_false_iff_not] at hspecial
    obtain ⟨⟨⟨⟨⟨hwhite, -⟩, hcolon⟩, hquote⟩, hopen⟩, -⟩ := hspecial
    have hnone : ∀ c' ∈ [c], isSign c' = false := by
      intro c' hc'
      rw [List.mem_singleton.mp hc']
      exact hsign
    have hplus : c ≠ '+' := fun h => absurd (h ▸ hsign) (by decide)
    have hminus : c ≠ '-' := fun h => absurd (h ▸ hsign) (by decide)
    have hfilter : [c].filter (fun c => !isSign c) = [c] := by
      rw [List.filter_singleton, hsign]
      rfl
    rw [if_neg (by rw [hwhite]; exact Bool.false_ne_true), if_neg hplus, if_neg hminus,
      if_neg hcolon, if_neg hquote, if_neg hopen, lastSign_of_free part.occur hnone, hfilter]

/-- A run of characters of a word: signs set the sign of the part and are left out. -/
theorem scan_word (qs : QueryString) (part : QSPart) (hphrase : part.phrase = false)
    (hparens : part.inParenthesis = false) (l rest : List Char)
    (hl : ∀ c ∈ l, isSpecial c = true → isSign c = true) :
    scan qs part (l ++ rest) = scan qs { part with
      occur := lastSign part.occur l
      text := part.text ++ l.filter fun c => !isSign c } rest := by
  induction l generalizing part with
  | nil =>
    rw [List.filter_nil, List.append_nil]
    rfl
  | cons c l ih =>
    have hstep := step_word qs part hphrase hparens (hl c List.mem_cons_self)
    rw [List.cons_append, scan, hstep]
    dsimp only
    have hmore := ih { part with
      occur := lastSign part.occur [c]
      text := part.text ++ [c].filter fun c => !isSign c } hphrase hparens
      fun c' hc' => hl c' (List.mem_cons_of_mem c hc')
    rw [hmore]
    dsimp only
    rw [List.append_assoc, ← List.filter_append]
    rfl

theorem step_phrase (qs : QueryString) (part : QSPart) (hphrase : part.phrase = true) (c : Char) :
    qs.step part c = if c = '"' then (qs.push part, .default)
      else (qs, { part with text := part.text ++ [c] }) := by
  rw [step, if_pos hphrase]

theorem step_parenthesised (qs : QueryString) (part : QSPart) (hphrase : part.phrase = false)
    (hparens : part.inParenthesis = true) (c : Char) :
    qs.step part c = if c = ')' then (qs.push part, .default)
      else (qs, { part with text := part.text ++ [c] }) := by
  rw [step, if_neg (by rw [hphrase]; exact Bool.false_ne_true), if_pos hparens]

/-- A text up to its end is taken as it is. -/
theorem scan_text (closing : Char) (inside : QSPart → Prop)
    (hstep : ∀ (qs : QueryString) (part : QSPart), inside part → ∀ c,
      qs.step part c = if c = closing then (qs.push part, .default)
        else (qs, { part with text := part.text ++ [c] }))
    (hinside : ∀ (part : QSPart) (text : List Char), inside part → inside { part with text := text })
    (qs : QueryString) (part : QSPart) (hpart : inside part) (l rest : List Char)
    (hl : closing ∉ l) : scan qs part (l ++ closing :: rest) =
      scan (qs.push { part with text := part.text ++ l }) .default rest := by
  induction l generalizing part with
  | nil => rw [List.nil_append, scan, hstep qs part hpart, if_pos rfl, List.append_nil]
  | cons c l ih =>
    have hc : c ≠ closing := fun hc => hl (hc ▸ List.mem_cons_self)
    rw [List.cons_append, scan, hstep qs part hpart, if_neg hc]
    dsimp only
    rw [ih { part with text := part.text ++ [c] } (hinside part _ hpart)
      fun hmem => hl (List.mem_cons_of_mem c hmem)]
    dsimp only
    rw [List.append_assoc]
    rfl

theorem scan_phrase (qs : QueryString) (part : QSPart) (hphrase : part.phrase = true)
    (l rest : List Char) (hl : '"' ∉ l) : scan qs part (l ++ '"' :: rest) =
      scan (qs.push { part with text := part.text ++ l }) .default rest :=
  scan_text '"' (fun part => part.phrase = true) step_phrase (fun _ _ h => h) qs part hphrase l rest
    hl

theorem scan_parenthesised (qs : QueryString) (part : QSPart) (hphrase : part.phrase = false)
    (hparens : part.inParenthesis = true) (l rest : List Char) (hl : ')' ∉ l) :
    scan qs part (l ++ ')' :: rest) =
      scan (qs.push { part with text := part.text ++ l }) .default rest :=
  scan_text ')' (fun part => part.phrase = false ∧ part.inParenthesis = true)
    (fun qs part h c => step_parenthesised qs part h.1 h.2 c) (fun _ _ h => h) qs part
    ⟨hphrase, hparens⟩ l rest hl

/-- White space between terms does nothing more. -/
theorem scan_boundary (qs : QueryString) (part : QSPart) (hphrase : part.phrase = false)
    (hparens : part.inParenthesis = false) {rest : List Char} (h : Boundary rest) :
    scan qs part rest = scan (qs.push part) .default rest := by
  cases rest with
  | nil => rfl
  | cons c rest =>
    have hwhite : isWhitespace c = true := h c rfl
    rw [scan, scan, step, if_neg (by rw [hphrase]; exact Bool.false_ne_true),
      if_neg (by rw [hparens]; exact Bool.false_ne_true), if_pos hwhite]
    rw [step, if_neg (by exact Bool.false_ne_true), if_neg (by exact Bool.false_ne_true),
      if_pos hwhite]
    rfl

theorem scan_white (qs : QueryString) (l rest : List Char)
    (hl : ∀ c ∈ l, isWhitespace c = true) : scan qs .default (l ++ rest) = scan qs .default rest := by
  induction l with
  | nil => rfl
  | cons c l ih =>
    have hwhite := hl c List.mem_cons_self
    rw [List.cons_append, scan, step, if_neg (by exact Bool.false_ne_true),
      if_neg (by exact Bool.false_ne_true), if_pos hwhite]
    exact ih fun c' hc' => hl c' (List.mem_cons_of_mem c hc')

end QueryString

namespace Term
variable (u : QueryCasing) (t : Term)

/-- The part that a term is parsed to: the signs of its field name and its word are taken out of
them, and the last one counts. -/
def scanned : QSPart :=
  let occur := lastSign t.occur (t.lowerField u)
  let field := (t.lowerField u).filter fun c => !isSign c
  match t.body with
  | .word _ =>
    ⟨lastSign occur (t.lowerText u), (t.lowerText u).filter fun c => !isSign c, field, false, false⟩
  | .phrase _ _ => ⟨occur, t.lowerText u, field, true, false⟩
  | .parenthesised _ _ => ⟨occur, t.lowerText u, field, false, true⟩

theorem lowerField_signs : ∀ c ∈ t.lowerField u, isSpecial c = true → isSign c = true := by
  intro c hc hspecial
  have hmem := u.special_of_lower _ _ _ c hc hspecial
  rw [fieldText] at hmem
  cases hf : t.field with
  | none =>
    rw [hf] at hmem
    exact absurd hmem List.not_mem_nil
  | some f =>
    rw [hf] at hmem
    exact f.special c hmem hspecial

theorem scan_sign (qs : QueryString) (occur : QSOccur) (rest : List Char) :
    QueryString.scan qs .default (signPrinted occur ++ rest) =
      QueryString.scan qs { QSPart.default with occur := occur } rest := by
  cases occur with
  | must => rfl
  | mustNot => rfl
  | should => rfl

theorem scan_field (qs : QueryString) (rest : List Char) :
    QueryString.scan qs { QSPart.default with occur := t.occur } (t.fieldLowered u ++ rest) =
      QueryString.scan qs { QSPart.default with
        occur := lastSign t.occur (t.lowerField u)
        field := (t.lowerField u).filter fun c => !isSign c } rest := by
  cases hf : t.field with
  | none =>
    have hnone : t.lowerField u = [] := by
      rw [lowerField, fieldText, hf]
      rfl
    rw [fieldLowered, hf, hnone]
    rfl
  | some f =>
    rw [fieldLowered, hf]
    dsimp only
    rw [List.append_assoc, QueryString.scan_word qs _ rfl rfl _ _ (t.lowerField_signs u)]
    rfl

/-- A term is one part, whatever is behind it. -/
theorem scan_lowered (qs : QueryString) {rest : List Char} (h : Boundary rest) :
    QueryString.scan qs .default
        (signPrinted t.occur ++ t.fieldLowered u ++ t.bodyLowered u ++ rest) =
      QueryString.scan (qs.push (t.scanned u)) .default rest := by
  rw [List.append_assoc, List.append_assoc, scan_sign, scan_field, scanned, bodyLowered]
  have hlower (text : List Char) (c : Char) (hc : c ∉ text) (hspecial : isSpecial c = true) :
      c ∉ u.toLowercase text :=
    fun hmem => hc (u.special_of_lower [] text [] c hmem hspecial)
  cases hbody : t.body with
  | word w =>
    dsimp only
    have hword : ∀ c ∈ t.lowerText u, isSpecial c = true → isSign c = true := by
      intro c hc hspecial
      rw [lowerText, hbody] at hc
      exact w.special c (u.special_of_lower _ _ _ c hc hspecial) hspecial
    rw [QueryString.scan_word qs _ rfl rfl _ _ hword, QueryString.scan_boundary qs _ rfl rfl h]
    rfl
  | phrase text unquoted =>
    dsimp only
    have hunquoted : '"' ∉ t.lowerText u := by
      rw [lowerText, hbody]
      exact hlower text '"' unquoted (by decide)
    rw [List.cons_append, List.cons_append, List.append_assoc, QueryString.scan]
    exact QueryString.scan_phrase qs _ rfl (t.lowerText u) rest hunquoted
  | parenthesised text unclosed =>
    dsimp only
    have hunclosed : ')' ∉ t.lowerText u := by
      rw [lowerText, hbody]
      exact hlower text ')' unclosed (by decide)
    rw [List.cons_append, List.cons_append, List.append_assoc, QueryString.scan]
    exact QueryString.scan_parenthesised qs _ rfl rfl (t.lowerText u) rest hunclosed

theorem boundary_space (space : Space) (behind : List Char) : Boundary (space.chars ++ behind) := by
  intro c hc
  obtain ⟨first, chars, hchars⟩ := List.exists_cons_of_ne_nil space.nonempty
  rw [hchars] at hc
  obtain rfl := Option.some.inj hc
  exact space.white first (hchars ▸ List.mem_cons_self)

theorem lowerIn_white (l behind : List Char) (hl : ∀ c ∈ l, QueryString.isWhitespace c = true) :
    u.lowerIn [] (l ++ behind) [] = l ++ u.lowerIn [] behind [] := by
  induction l with
  | nil => rfl
  | cons c l ih =>
    have hcut := lowerIn_cut (u.cuts_of_white (hl c List.mem_cons_self)) [] [] (l ++ behind) []
    rw [ih fun c' hc' => hl c' (List.mem_cons_of_mem c hc')] at hcut
    exact hcut

theorem scan_printedAll (spaces : ℕ → Space) (terms : List Term) (qs : QueryString) :
    QueryString.scan qs .default (u.toLowercase (printedAll spaces terms)) =
      (terms.map (scanned u)).foldl QueryString.push qs := by
  rw [toLowercase]
  induction terms generalizing spaces qs with
  | nil => rfl
  | cons t rest ih =>
    cases rest with
    | nil =>
      have hend : Boundary [] := fun _ hc => by cases hc
      have hprinted := t.lowerIn_printed u hend
      have hnothing : u.lowerIn [] [] [] = [] := rfl
      rw [hnothing, List.append_nil] at hprinted
      rw [printedAll, hprinted, t.scan_lowered u qs hend]
      rfl
    | cons next rest =>
      rw [printedAll, List.append_assoc, t.lowerIn_printed u (boundary_space (spaces 0) _),
        lowerIn_white u _ _ (spaces 0).white, t.scan_lowered u qs (boundary_space (spaces 0) _),
        QueryString.scan_white _ _ _ (spaces 0).white, ih]
      rfl

end Term

end Exocore.Store.Search
