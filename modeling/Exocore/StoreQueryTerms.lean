import Exocore.LibLowercase
import Exocore.StoreSearch

/-! The grammar of query strings: lists of terms, how they are printed, and the parts that they
are to be parsed to. -/
namespace Exocore.Store.Search

open Lowercase

def isSign (c : Char) : Bool := c = '+' || c = '-'

/-- The characters that end or start something in a query string. -/
def isSpecial (c : Char) : Bool :=
  QueryString.isWhitespace c || isSign c || c = ':' || c = '"' || c = '(' || c = ')'

/-- The tables of Unicode, and what they say of the special characters: none has a lower case or
is in one, and none is a cased character. Only the colon may be ignored between cased ones. -/
structure QueryCasing extends Casing where
  toLower_special : ∀ c, isSpecial c = true → toLower c = [c]
  toLower_other : ∀ c, isSpecial c = false →
    toLower c ≠ [] ∧ ∀ d ∈ toLower c, isSpecial d = false
  cased_special : ∀ c, isSpecial c = true → cased c = false
  caseIgnorable_special : ∀ c, isSpecial c = true → c ≠ ':' → caseIgnorable c = false

namespace QueryString

/-- A query string as it is given. -/
def parseQuery (u : QueryCasing) (query : List Char) : QueryString :=
  parse (u.toLowercase query)

end QueryString

/-- A word may have signs, but not in front. -/
structure Word where
  chars : List Char
  nonempty : chars ≠ []
  front : ∀ c ∈ chars.head?, isSign c = false
  special : ∀ c ∈ chars, isSpecial c = true → isSign c = true

inductive Body where
  | word (word : Word)
  | phrase (text : List Char) (unquoted : '"' ∉ text)
  | parenthesised (text : List Char) (unclosed : ')' ∉ text)

/-- A term without a sign is one that should occur. -/
structure Term where
  occur : QSOccur
  field : Option Word
  body : Body

structure Space where
  chars : List Char
  nonempty : chars ≠ []
  white : ∀ c ∈ chars, QueryString.isWhitespace c = true

namespace Body

def text : Body → List Char
  | .word w => w.chars
  | .phrase text _ => text
  | .parenthesised text _ => text

def isPhrase : Body → Bool
  | .phrase _ _ => true
  | _ => false

def isParenthesised : Body → Bool
  | .parenthesised _ _ => true
  | _ => false

def printed : Body → List Char
  | .word w => w.chars
  | .phrase text _ => '"' :: text ++ ['"']
  | .parenthesised text _ => '(' :: text ++ [')']

end Body

namespace Term

def signPrinted : QSOccur → List Char
  | .must => ['+']
  | .mustNot => ['-']
  | .should => []

def fieldText (t : Term) : List Char := (t.field.map Word.chars).getD []

def fieldPrinted (t : Term) : List Char := (t.field.map fun f => f.chars ++ [':']).getD []

def printed (t : Term) : List Char := signPrinted t.occur ++ t.fieldPrinted ++ t.body.printed

/-- A word with nothing to it. -/
def plainWord (t : Term) : Option Word :=
  match t with
  | ⟨.should, none, .word w⟩ => some w
  | _ => none

/-- The part that a term is to be parsed to. -/
def part (u : QueryCasing) (t : Term) : QSPart :=
  ⟨t.occur, u.toLowercase t.body.text, t.fieldText, t.body.isPhrase, t.body.isParenthesised⟩

/-- The terms one after the other, with any white space between them. -/
def printedAll (spaces : ℕ → Space) : List Term → List Char
  | [] => []
  | [t] => t.printed
  | t :: next :: rest =>
    t.printed ++ (spaces 0).chars ++ printedAll (fun i => spaces (i + 1)) (next :: rest)

/-- The words are one plain part, if there are any. -/
def plainPart (u : QueryCasing) (terms : List Term) : List QSPart :=
  match terms.filterMap plainWord with
  | [] => []
  | words =>
    [⟨.should, [' '].intercalate (words.map fun w => u.toLowercase w.chars), [], false, false⟩]

def expected (u : QueryCasing) (terms : List Term) : List QSPart :=
  (terms.filter fun t => t.plainWord.isNone).map (part u) ++ plainPart u terms

/-- The field name and the text of a term as they are lower-cased in their places. -/
def lowerField (u : QueryCasing) (t : Term) : List Char :=
  u.lowerIn [] t.fieldText (':' :: t.body.printed)

def lowerText (u : QueryCasing) (t : Term) : List Char :=
  match t.body with
  | .word w => u.lowerIn t.fieldPrinted.reverse w.chars []
  | .phrase text _ => u.toLowercase text
  | .parenthesised text _ => u.toLowercase text

/-- A field name and a word have no sign further on, a quoted or parenthesised text is not empty, a
field name is in lower case, and a word has the lower case behind its field that it has alone. -/
structure Clear (u : QueryCasing) (t : Term) : Prop where
  field : ∀ c ∈ t.fieldText, isSign c = false
  word : ∀ w, t.body = .word w → ∀ c ∈ w.chars, isSign c = false
  text : t.body.text ≠ []
  lowerField : t.lowerField u = t.fieldText
  lowerText : t.lowerText u = u.toLowercase t.body.text

end Term

end Exocore.Store.Search
