import BracketQuery.Text.Lines
import BracketQuery.Token.Line

/-! The tokens of a text: those of its lines that are not blank, with a line mark in between. -/
namespace BracketQuery.Token

/-- Puts the tokens of a line in front of those of the lines after it. -/
def joinLines (first rest : List Token) : List Token :=
  if first.isEmpty then rest else if rest.isEmpty then first else first ++ .newline :: rest

def linesFrom (number : Nat) : List (List Char) → Except ScanError (List Token)
  | [] => .ok []
  | cs :: rest => do
    let first ← line number cs
    let others ← linesFrom (number + 1) rest
    return joinLines first others

def scan (text : String) : Except ScanError (List Token) := linesFrom 1 (Text.lines text.toList)

end BracketQuery.Token
