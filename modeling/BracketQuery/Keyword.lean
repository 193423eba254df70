/-! Keywords, which are read without regard to the case of ASCII letters. -/
namespace BracketQuery

def folded (cs : List Char) : List Char := cs.map Char.toLower

/-- The word is the keyword, up to the case of ASCII letters. -/
def spells (word keyword : String) : Bool := folded word.toList == folded keyword.toList

inductive Connective where
  | and | or
deriving DecidableEq

def Connective.name : Connective → String
  | .and => "and"
  | .or => "or"

def Connective.ofWord? (word : String) : Option Connective :=
  if spells word "and" then some .and else if spells word "or" then some .or else none

/-- A keyword as its author wrote it, kept only where that is not the canonical spelling. -/
abbrev Spelling := Option String

def Spelling.ofWord (word canonical : String) : Spelling :=
  if word = canonical then none else some word

end BracketQuery
