import BracketQuery.Keyword
import BracketQuery.Text.Quoted

/-! The tokens of a query. -/
namespace BracketQuery

inductive Token where
  | word (text : String)
  | symbol (text : String)
  | newline
deriving DecidableEq

namespace Token

def describe : Token → String
  | .word text => "word " ++ Text.quoted text
  | .symbol text => "symbol " ++ Text.quoted text
  | .newline => "newline"

def isKeyword (keyword : String) : Token → Bool
  | .word text => spells text keyword
  | _ => false

def isSymbol (symbol : String) (t : Token) : Bool := t = .symbol symbol

def opensBlock (t : Token) : Bool := t.isSymbol "[" || t.isSymbol "\x7b"

/-- The tokens that carry meaning: all but the line marks. -/
def significant (ts : List Token) : List Token := ts.filter (· != .newline)

end Token

/-- What the end of a line can cut short. -/
inductive Unfinished where
  | literal | call

def Unfinished.name : Unfinished → String
  | .literal => "quoted literal"
  | .call => "function call"

/-- Why a text has no tokens. Lines and columns count from one. -/
inductive ScanError where
  | unknownCharacter (c : Char) (line column : Nat)
  | unterminated (what : Unfinished) (line : Nat)

def ScanError.message : ScanError → String
  | .unknownCharacter c line column =>
    "unknown token: " ++ Text.quotedChar c ++ " at line " ++ line.repr ++ ", column " ++ column.repr
  | .unterminated what line => "unterminated " ++ what.name ++ " at line " ++ line.repr

end BracketQuery
