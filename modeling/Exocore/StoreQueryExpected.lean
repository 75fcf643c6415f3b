import Exocore.StoreQueryParsed

/-! When printed terms are parsed to the parts that are expected of them. -/
namespace Exocore.Store.Search

open Lowercase Casing

namespace QueryString

/-- The parts that are pushed are kept apart from the plain ones, whose texts are joined. -/
theorem foldl_push (parts : List QSPart) (qs : QueryString) :
    parts.foldl push qs =
      ⟨qs.parts ++ parts.filter fun p => !p.isEmpty && !p.isPlain,
        (parts.filter fun p => !p.isEmpty && p.isPlain).foldl QSPart.combineFrom qs.plainPart⟩ := by
  induction parts generalizing qs with
  | nil => 
    rw [List.filter_nil, List.append_nil]
    rfl
  | cons p rest ih =>
    rw [List.foldl_cons, ih, push]
    cases hempty : p.isEmpty with
    | true =>
      rw [if_pos rfl, List.filter_cons_of_neg, List.filter_cons_of_neg]
      · rw [hempty]
        exact Bool.false_ne_true
      · rw [hempty]
        exact Bool.false_ne_true
    | false =>
      rw [if_neg Bool.false_ne_true]
      cases hplain : p.isPlain with
      | true =>
        rw [if_pos rfl, List.filter_cons_of_neg, List.filter_cons_of_pos]
        · rfl
        · rw [hempty, hplain]
          rfl
        · rw [hempty, hplain]
          exact Bool.false_ne_true
      | false =>
        rw [if_neg Bool.false_ne_true, List.filter_cons_of_pos, List.filter_cons_of_neg]
        · dsimp only
          rw [List.append_assoc]
          rfl
        · rw [hempty, hplain]
          exact Bool.false_ne_true
        · rw [hempty, hplain]
          rfl

theorem intercalate_append (sep l r : List Char) (rest : List (List Char)) :
    sep.intercalate ((l ++ r) :: rest) = l ++ sep.intercalate (r :: rest) := by
  induction l with
  | nil => rfl
  | cons c l ih =>
    rw [List.cons_append, List.intercalate_cons_cons_left, ih]
    rfl

theorem foldl_combineFrom_text (parts : List QSPart) (part : QSPart)
    (hpart : part.isEmpty = false) : parts.foldl QSPart.combineFrom part =
      { part with text := [' '].intercalate (part.text :: parts.map QSPart.text) } := by
  induction parts generalizing part with
  | nil =>
    rw [List.map_nil, List.intercalate_singleton]
    rfl
  | cons p rest ih =>
    have hcombined : part.combineFrom p = { part with text := part.text ++ ' ' :: p.text } := by
      have hnot : ¬ part.text.isEmpty = true := by
        rw [QSPart.isEmpty] at hpart
        rw [hpart]
        exact Bool.false_ne_true
      rw [QSPart.combineFrom, if_neg hnot]
    have hgrown : QSPart.isEmpty { part with text := part.text ++ ' ' :: p.text } = false := by
      rw [QSPart.isEmpty, List.isEmpty_eq_false_iff]
      exact List.append_ne_nil_of_right_ne_nil _ (List.cons_ne_nil _ _)
    rw [List.foldl_cons, hcombined, ih _ hgrown, List.map_cons, List.intercalate_cons_cons]
    dsimp only
    rw [intercalate_append, List.intercalate_cons_cons_left, List.append_assoc]
    rfl

/-- The texts of plain parts, with single spaces between them. -/
theorem foldl_combineFrom (parts : List QSPart) (hparts : ∀ p ∈ parts, p.isEmpty = false)
    (hsome : parts ≠ []) : parts.foldl QSPart.combineFrom .default =
      ⟨.should, [' '].intercalate (parts.map QSPart.text), [], false, false⟩ := by
  cases parts with
  | nil => exact absurd rfl hsome
  | cons p rest =>
    have hfirst : QSPart.combineFrom .default p = ⟨.should, p.text, [], false, false⟩ := rfl
    have hempty : QSPart.isEmpty ⟨.should, p.text, [], false, false⟩ = false :=
      hparts p List.mem_cons_self
    rw [List.foldl_cons, hfirst, foldl_combineFrom_text rest _ hempty]
    rfl

/-- The characters of joined texts are those of the texts, and spaces. -/
theorem mem_intercalate (texts : List (List Char)) (c : Char) (h : c ∈ [' '].intercalate texts) :
    c = ' ' ∨ ∃ text ∈ texts, c ∈ text := by
  induction texts with
  | nil => exact absurd h List.not_mem_nil
  | cons text rest ih =>
    cases rest with
    | nil =>
      rw [List.intercalate_singleton] at h
      exact Or.inr ⟨text, List.mem_cons_self, h⟩
    | cons next rest =>
      rw [List.intercalate_cons_cons] at h
      rcases List.mem_append.mp h with hfirst | hrest
      · rcases List.mem_append.mp hfirst with htext | hspace
        · exact Or.inr ⟨text, List.mem_cons_self, htext⟩
        · exact Or.inl (List.mem_singleton.mp hspace)
      · rcases ih hrest with hspace | ⟨other, hother, hc⟩
        · exact Or.inl hspace
        · exact Or.inr ⟨other, List.mem_cons_of_mem text hother, hc⟩

theorem mem_intercalate_of_mem {texts : List (List Char)} {text : List Char} (h : text ∈ texts)
    {c : Char} (hc : c ∈ text) : c ∈ [' '].intercalate texts := by
  induction texts with
  | nil => exact absurd h List.not_mem_nil
  | cons first rest ih =>
    cases rest with
    | nil =>
      rw [List.mem_singleton.mp h] at hc
      rw [List.intercalate_singleton]
      exact hc
    | cons next rest =>
      rw [List.intercalate_cons_cons]
      rcases List.mem_cons.mp h with rfl | hrest
      · exact List.mem_append_left _ (List.mem_append_left _ hc)
      · exact List.mem_append_right _ (ih hrest)

/-- The plain part of these texts, if there are any. -/
def joined : List (List Char) → List QSPart
  | [] => []
  | texts => [⟨.should, [' '].intercalate texts, [], false, false⟩]

/-- The parts that were pushed in the end: the plain one is the last. -/
theorem parts_of_pushed (parts : List QSPart) :
    (let qs := parts.foldl push ⟨[], .default⟩
      if qs.plainPart.isEmpty then qs
      else { parts := qs.parts ++ [qs.plainPart], plainPart := .default }).parts =
    (parts.filter fun p => !p.isEmpty && !p.isPlain) ++
      joined ((parts.filter fun p => !p.isEmpty && p.isPlain).map QSPart.text) := by
  dsimp only
  rw [foldl_push, List.nil_append]
  dsimp only
  have hfilled : ∀ p ∈ parts.filter fun p => !p.isEmpty && p.isPlain, p.isEmpty = false := by
    intro p hp
    have hboth := (List.mem_filter.mp hp).2
    rw [Bool.and_eq_true, Bool.not_eq_true'] at hboth
    exact hboth.1
  cases hplain : parts.filter fun p => !p.isEmpty && p.isPlain with
  | nil =>
    have hempty : QSPart.default.isEmpty = true := rfl
    rw [List.foldl_nil, if_pos hempty, List.map_nil, joined, List.append_nil]
  | cons p rest =>
    rw [hplain] at hfilled
    obtain ⟨c, text, htext⟩ : ∃ c text, p.text = c :: text := by
      have hp := hfilled p List.mem_cons_self
      rw [QSPart.isEmpty, List.isEmpty_eq_false_iff] at hp
      exact List.exists_cons_of_ne_nil hp
    rw [foldl_combineFrom _ hfilled (List.cons_ne_nil p rest), if_neg]
    · rw [List.map_cons, joined]
      intro h
      cases h
    · rw [List.map_cons, htext, List.intercalate_cons_cons_left]
      exact Bool.false_ne_true

end QueryString

namespace Term
variable (u : QueryCasing) (t : Term)

theorem parseQuery_parts (spaces : ℕ → Space) (terms : List Term) :
    (QueryString.parseQuery u (printedAll spaces terms)).parts =
      ((terms.map (scanned u)).filter fun p => !p.isEmpty && !p.isPlain) ++
        QueryString.joined (((terms.map (scanned u)).filter fun p =>
          !p.isEmpty && p.isPlain).map QSPart.text) := by
  rw [← QueryString.parts_of_pushed, QueryString.parseQuery, QueryString.parse, scan_printedAll]

/-- No sign is in the field name or the word of a part, and its text is not empty. -/
structure SignFree (p : QSPart) : Prop where
  field : ∀ c ∈ p.field, isSign c = false
  text : p.phrase = false → p.inParenthesis = false → ∀ c ∈ p.text, isSign c = false
  some : p.text ≠ []

theorem isSign_of_filter {l : List Char} : ∀ c ∈ l.filter fun c => !isSign c, isSign c = false := by
  intro c hc
  have hnot := (List.mem_filter.mp hc).2
  rwa [Bool.not_eq_true'] at hnot

theorem scanned_signFree (hsome : (t.scanned u).text ≠ []) : SignFree (t.scanned u) := by
  refine ⟨?_, ?_, hsome⟩
  · rw [scanned]
    cases t.body with
    | word w => exact isSign_of_filter
    | phrase text unquoted => exact isSign_of_filter
    | parenthesised text unclosed => exact isSign_of_filter
  · rw [scanned]
    cases t.body with
    | word w => exact fun _ _ => isSign_of_filter
    | phrase text unquoted =>
      intro h
      cases h
    | parenthesised text unclosed =>
      intro _ h
      cases h

theorem parts_signFree (spaces : ℕ → Space) (terms : List Term) :
    ∀ p ∈ (QueryString.parseQuery u (printedAll spaces terms)).parts, SignFree p := by
  have hscanned (keep : QSPart → Bool) : ∀ p ∈ (terms.map (scanned u)).filter fun p =>
      !p.isEmpty && keep p, SignFree p ∧ keep p = true := by
    intro p hp
    obtain ⟨hmem, hboth⟩ := List.mem_filter.mp hp
    obtain ⟨t, -, rfl⟩ := List.mem_map.mp hmem
    rw [Bool.and_eq_true, Bool.not_eq_true', QSPart.isEmpty, List.isEmpty_eq_false_iff] at hboth
    exact ⟨t.scanned_signFree u hboth.1, hboth.2⟩
  intro p hp
  rw [parseQuery_parts] at hp
  rcases List.mem_append.mp hp with hother | hplain
  · exact (hscanned (fun p => !p.isPlain) p hother).1
  · generalize hparts : (terms.map (scanned u)).filter (fun p => !p.isEmpty && p.isPlain) = parts
      at hplain
    have hfree := hscanned QSPart.isPlain
    rw [hparts] at hfree
    cases parts with
    | nil => exact absurd hplain List.not_mem_nil
    | cons first rest =>
      obtain rfl := List.mem_singleton.mp hplain
      refine ⟨fun c hc => absurd hc List.not_mem_nil, ?_, ?_⟩
      · intro _ _ c hc
        rcases QueryString.mem_intercalate _ c hc with rfl | ⟨text, htext, hin⟩
        · decide
        · obtain ⟨q, hq, rfl⟩ := List.mem_map.mp htext
          obtain ⟨hqfree, hqplain⟩ := hfree q hq
          simp only [QSPart.isPlain, Bool.and_eq_true, Bool.not_eq_true'] at hqplain
          exact hqfree.text hqplain.1.1.2 hqplain.1.2 c hin
      · obtain ⟨c, hc⟩ := List.exists_mem_of_ne_nil _ (hfree first List.mem_cons_self).1.some
        exact List.ne_nil_of_mem (QueryString.mem_intercalate_of_mem List.mem_cons_self hc)

/-- The first three of the conditions on a term. -/
structure SignClear : Prop where
  field : ∀ c ∈ t.fieldText, isSign c = false
  word : ∀ w, t.body = .word w → ∀ c ∈ w.chars, isSign c = false
  text : t.body.text ≠ []

/-- What such a term is parsed to. -/
def placed : QSPart :=
  ⟨t.occur, t.lowerText u, t.lowerField u, t.body.isPhrase, t.body.isParenthesised⟩

variable {u t}

theorem SignClear.scanned (h : t.SignClear) : t.scanned u = t.placed u := by
  have hfield : ∀ c ∈ t.lowerField u, isSign c = false :=
    (u.signFree_lower_iff _ _ _).mpr h.field
  have hkeep (l : List Char) (hl : ∀ c ∈ l, isSign c = false) :
      l.filter (fun c => !isSign c) = l := by
    apply List.filter_eq_self.mpr
    intro c hc
    rw [hl c hc]
    rfl
  rw [Term.scanned, placed, lastSign_of_free t.occur hfield, hkeep _ hfield]
  cases hbody : t.body with
  | word w =>
    have hword : ∀ c ∈ t.lowerText u, isSign c = false := by
      rw [lowerText, hbody]
      exact (u.signFree_lower_iff _ _ _).mpr (h.word w hbody)
    dsimp only
    rw [lastSign_of_free t.occur hword, hkeep _ hword]
    rfl
  | phrase text unquoted => rfl
  | parenthesised text unclosed => rfl

theorem SignClear.isEmpty (h : t.SignClear) : (t.placed u).isEmpty = false := by
  rw [QSPart.isEmpty, List.isEmpty_eq_false_iff, placed]
  dsimp only
  have htext := h.text
  rw [lowerText]
  cases hbody : t.body with
  | word w => exact (u.lowerIn_eq_nil_iff _ _ _).not.mpr w.nonempty
  | phrase text unquoted =>
    rw [hbody] at htext
    exact (u.lowerIn_eq_nil_iff _ _ _).not.mpr htext
  | parenthesised text unclosed =>
    rw [hbody] at htext
    exact (u.lowerIn_eq_nil_iff _ _ _).not.mpr htext

theorem lowerField_eq_nil_iff : t.lowerField u = [] ↔ t.field = none := by
  rw [lowerField, u.lowerIn_eq_nil_iff, fieldText]
  cases t.field with
  | none => exact iff_of_true rfl rfl
  | some f => exact iff_of_false f.nonempty (fun h => by cases h)

theorem isPlain_placed : (t.placed u).isPlain = t.plainWord.isSome := by
  rw [Bool.eq_iff_iff]
  simp only [QSPart.isPlain, placed, Bool.and_eq_true, Bool.not_eq_true', List.isEmpty_iff,
    lowerField_eq_nil_iff]
  rcases t with ⟨occur, field, body⟩
  cases occur <;> cases field <;> cases body <;>
    simp [plainWord, Body.isPhrase, Body.isParenthesised]

/-- The text of a plain word is lower-cased as it is alone. -/
theorem placed_of_plainWord {w : Word} (h : t.plainWord = some w) :
    (t.placed u).text = u.toLowercase w.chars := by
  rcases t with ⟨occur, field, body⟩
  cases occur <;> cases field <;> cases body <;> cases h
  rfl

variable (u)

theorem plainPart_eq_joined (terms : List Term) : plainPart u terms =
    QueryString.joined ((terms.filterMap plainWord).map fun w => u.toLowercase w.chars) := by
  rw [plainPart]
  cases terms.filterMap plainWord with
  | nil => rfl
  | cons w rest => rfl

theorem texts_of_plain (terms : List Term) :
    ((terms.filter fun t => t.plainWord.isSome).map (placed u)).map QSPart.text =
      (terms.filterMap plainWord).map fun w => u.toLowercase w.chars := by
  induction terms with
  | nil => rfl
  | cons t rest ih =>
    cases hplain : t.plainWord with
    | none =>
      rw [List.filter_cons_of_neg (by rw [hplain]; exact Bool.false_ne_true),
        List.filterMap_cons_none hplain]
      exact ih
    | some w =>
      rw [List.filter_cons_of_pos (by rw [hplain]; rfl), List.filterMap_cons_some hplain,
        List.map_cons, List.map_cons, List.map_cons, placed_of_plainWord hplain, ih]

theorem parseQuery_of_signClear (spaces : ℕ → Space) (terms : List Term)
    (h : ∀ t ∈ terms, t.SignClear) :
    (QueryString.parseQuery u (printedAll spaces terms)).parts =
      (terms.filter fun t => t.plainWord.isNone).map (placed u) ++ plainPart u terms := by
  have hplaced : terms.map (Term.scanned u) = terms.map (placed u) :=
    List.map_congr_left fun t ht => (h t ht).scanned
  have hfilter (keep : Bool → Bool) : (terms.map (placed u)).filter (fun p =>
      !p.isEmpty && keep p.isPlain) =
        (terms.filter fun t => keep t.plainWord.isSome).map (placed u) := by
    rw [List.filter_map]
    apply congrArg (List.map (placed u))
    apply List.filter_congr
    intro t ht
    dsimp only [Function.comp]
    rw [(h t ht).isEmpty, isPlain_placed]
    rfl
  have hplain := hfilter fun b => b
  rw [parseQuery_parts, hplaced, hfilter (fun b => !b), hplain, plainPart_eq_joined,
    ← texts_of_plain]
  simp only [Option.not_isSome]

theorem signClear_of_expected (terms : List Term) (h : ∀ p ∈ expected u terms, SignFree p) :
    ∀ t ∈ terms, t.SignClear := by
  intro t ht
  cases hplain : t.plainWord with
  | none =>
    have hpart : t.part u ∈ expected u terms := by
      apply List.mem_append_left
      exact List.mem_map_of_mem (List.mem_filter.mpr ⟨ht, by rw [hplain]; rfl⟩)
    have hfree := h _ hpart
    refine ⟨hfree.field, ?_, (u.lowerIn_eq_nil_iff _ _ _).not.mp hfree.some⟩
    intro w hw
    have htext := hfree.text (by rw [part, hw]; rfl) (by rw [part, hw]; rfl)
    rw [part, hw] at htext
    exact (u.signFree_lower_iff _ _ _).mp htext
  | some w =>
    have hword : u.toLowercase w.chars ∈
        (terms.filterMap plainWord).map fun w => u.toLowercase w.chars :=
      List.mem_map_of_mem (List.mem_filterMap.mpr ⟨t, ht, hplain⟩)
    have hfree : ∀ c ∈ u.toLowercase w.chars, isSign c = false := by
      intro c hc
      have hjoined := plainPart_eq_joined u terms
      generalize (terms.filterMap plainWord).map (fun w => u.toLowercase w.chars) = texts
        at hword hjoined
      cases texts with
      | nil => exact absurd hword List.not_mem_nil
      | cons text rest =>
        have hpart := h _ (List.mem_append_right _ (by
          rw [hjoined]
          exact List.mem_cons_self))
        exact hpart.text rfl rfl c (QueryString.mem_intercalate_of_mem hword hc)
    have hchars := (u.signFree_lower_iff _ _ _).mp hfree
    rcases t with ⟨occur, field, body⟩
    cases occur <;> cases field <;> cases body <;> cases hplain
    refine ⟨fun c hc => absurd hc List.not_mem_nil, ?_, w.nonempty⟩
    rintro w' ⟨⟩
    exact hchars

/-- A list of terms is parsed to the parts that are expected iff each of them is a clear one. -/
theorem parseQuery_iff (spaces : ℕ → Space) (terms : List Term) :
    (QueryString.parseQuery u (printedAll spaces terms)).parts = expected u terms ↔
      ∀ t ∈ terms, t.Clear u := by
  have hplaced (hclear : ∀ t ∈ terms, t.SignClear) :
      (QueryString.parseQuery u (printedAll spaces terms)).parts = expected u terms ↔
        ∀ t ∈ terms, t.plainWord.isNone = true → t.placed u = t.part u := by
    rw [parseQuery_of_signClear u spaces terms hclear, expected, List.append_cancel_right_eq,
      List.map_inj_left]
    simp only [List.mem_filter, and_imp]
  constructor
  · intro h t ht
    have hfree := parts_signFree u spaces terms
    rw [h] at hfree
    have hclear := signClear_of_expected u terms hfree
    obtain ⟨hfield, hword, htext⟩ := hclear t ht
    cases hplain : t.plainWord with
    | none =>
      have hsame := (hplaced hclear).mp h t ht (by rw [hplain]; rfl)
      exact ⟨hfield, hword, htext, congrArg QSPart.field hsame, congrArg QSPart.text hsame⟩
    | some w =>
      rcases t with ⟨occur, field, body⟩
      cases occur <;> cases field <;> cases body <;> cases hplain
      exact ⟨hfield, hword, htext, rfl, rfl⟩
  · intro h
    refine (hplaced fun t ht => ⟨(h t ht).field, (h t ht).word, (h t ht).text⟩).mpr ?_
    intro t ht _
    rw [placed, part, (h t ht).lowerField, (h t ht).lowerText]

end Term

/-! ## The characters of ASCII -/

theorem isSpecial_of_letter {c : Char} (hlow : 65 ≤ c.toNat) (hhigh : c.toNat ≤ 122) :
    isSpecial c = false := by
  have hne (d : Char) (hd : d.toNat < 65) : c ≠ d := by
    rintro rfl
    omega
  have hwhite : QueryString.isWhitespace c = false := by
    simp only [QueryString.isWhitespace, Bool.or_eq_false_iff, Bool.and_eq_false_iff,
      decide_eq_false_iff_not, List.contains_eq_mem, List.mem_cons, List.not_mem_nil, or_false]
    omega
  simp only [isSpecial, isSign, hwhite, hne '+' (by decide), hne '-' (by decide),
    hne ':' (by decide), hne '"' (by decide), hne '(' (by decide), hne ')' (by decide),
    decide_false, Bool.or_false]

def isAsciiUpper (c : Char) : Bool := 65 ≤ c.toNat && c.toNat ≤ 90

def isAsciiLower (c : Char) : Bool := 97 ≤ c.toNat && c.toNat ≤ 122

theorem not_letter_of_special {c : Char} (h : isSpecial c = true) :
    isAsciiUpper c = false ∧ isAsciiLower c = false := by
  constructor
  · by_contra hupper
    have hrange := Bool.eq_true_of_not_eq_false hupper
    rw [isAsciiUpper, Bool.and_eq_true, decide_eq_true_eq, decide_eq_true_eq] at hrange
    rw [isSpecial_of_letter hrange.1 (by omega)] at h
    exact Bool.false_ne_true h
  · by_contra hlower
    have hrange := Bool.eq_true_of_not_eq_false hlower
    rw [isAsciiLower, Bool.and_eq_true, decide_eq_true_eq, decide_eq_true_eq] at hrange
    rw [isSpecial_of_letter (by omega) hrange.2] at h
    exact Bool.false_ne_true h

/-- The tables of the characters of ASCII. -/
def asciiCasing : QueryCasing where
  toLower c := if isAsciiUpper c then [Char.ofNat (c.toNat + 32)] else [c]
  cased c := isAsciiUpper c || isAsciiLower c
  caseIgnorable c := ['.', ':', '^', Char.ofNat 0x27, Char.ofNat 0x60].contains c
  toLower_special := by
    intro c hc
    rw [if_neg]
    rw [(not_letter_of_special hc).1]
    exact Bool.false_ne_true
  toLower_other := by
    intro c hc
    split_ifs with hupper
    · rw [isAsciiUpper, Bool.and_eq_true, decide_eq_true_eq, decide_eq_true_eq] at hupper
      have hvalid : (c.toNat + 32).isValidChar := Or.inl (by omega)
      have hnat : (Char.ofNat (c.toNat + 32)).toNat = c.toNat + 32 := by
        rw [Char.ofNat, dif_pos hvalid]
        rfl
      refine ⟨List.cons_ne_nil _ _, ?_⟩
      intro d hd
      rw [List.mem_singleton.mp hd]
      exact isSpecial_of_letter (by omega) (by omega)
    · refine ⟨List.cons_ne_nil _ _, ?_⟩
      intro d hd
      rw [List.mem_singleton.mp hd]
      exact hc
  cased_special := by
    intro c hc
    rw [(not_letter_of_special hc).1, (not_letter_of_special hc).2]
    rfl
  caseIgnorable_special := by
    intro c hc hcolon
    by_contra hignorable
    have hmem := List.contains_iff_mem.mp (Bool.eq_true_of_not_eq_false hignorable)
    simp only [List.mem_cons, List.not_mem_nil, or_false] at hmem
    rcases hmem with rfl | rfl | rfl | rfl | rfl
    · exact absurd hc (by decide)
    · exact hcolon rfl
    · exact absurd hc (by decide)
    · exact absurd hc (by decide)
    · exact absurd hc (by decide)

def emailWord : Word where
  chars := "e-mail".toList
  nonempty := List.cons_ne_nil _ _
  front c hc := by
    cases hc
    rfl
  special c hc := by
    have hall := List.all_eq_true.mp (show "e-mail".toList.all
      (fun c => !isSpecial c || isSign c) = true by decide +kernel) c hc
    intro hspecial
    rwa [hspecial, Bool.not_true, Bool.false_or] at hall

/-- The word is excluded, and without its sign. -/
theorem email_not_expected :
    (QueryString.parseQuery asciiCasing (Term.printedAll
      (fun _ => ⟨[' '], List.cons_ne_nil _ _, List.forall_mem_singleton.mpr rfl⟩)
      [⟨.should, none, .word emailWord⟩])).parts ≠
    Term.expected asciiCasing [⟨.should, none, .word emailWord⟩] := by
  decide +kernel

end Exocore.Store.Search
