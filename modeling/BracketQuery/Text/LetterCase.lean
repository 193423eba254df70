import BracketQuery.Text.Cased
import BracketQuery.Text.CaseMaps

/-! Lower and upper case of whole texts. -/
namespace BracketQuery.Text

/-- Past the characters that case ignores, a cased one comes first. -/
def casedAhead (cs : List Char) : Bool :=
  match cs.dropWhile isCaseIgnorable with
  | c :: _ => isCased c
  | [] => false

/- A capital sigma that ends a word becomes the final form. `before` holds the characters
   already passed, nearest first. -/
def lowerFrom (before : List Char) : List Char → List Char
  | [] => []
  | c :: cs =>
    (if c = 'Σ' then [if casedAhead before && !casedAhead cs then 'ς' else 'σ'] else lowerChar c)
      ++ lowerFrom (c :: before) cs

def lowercase (s : String) : String := String.ofList (lowerFrom [] s.toList)

def uppercase (s : String) : String := String.ofList (s.toList.flatMap upperChar)

/-- Each word between plain blanks starts in upper case and goes on in lower case, character by
character; `start` says that the next character starts a word. -/
def titleFrom (start : Bool) : List Char → List Char
  | [] => []
  | c :: cs =>
    if c = ' ' then c :: titleFrom true cs
    else (if start then upperChar c else lowerChar c) ++ titleFrom false cs

def titlecase (s : String) : String := String.ofList (titleFrom true s.toList)

end BracketQuery.Text
