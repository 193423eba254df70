import BracketQuery.Text.Hidden

/-! How messages show a character or a text of the query: between quotes, with escapes for the
quote itself, the backslash and whatever a reader could not see. -/
namespace BracketQuery.Text

def codePoint (c : Char) : List Char :=
  ['\\', 'u', '\x7b'] ++ Nat.toDigits 16 c.toNat ++ ['\x7d']

def shown (quote c : Char) : List Char :=
  if c = '\x00' then ['\\', '0']
  else if c = '\t' then ['\\', 't']
  else if c = '\r' then ['\\', 'r']
  else if c = '\n' then ['\\', 'n']
  else if c = '\\' || c = quote then ['\\', c]
  else if isHidden c then codePoint c
  else [c]

def quotedBy (quote : Char) (cs : List Char) : String :=
  String.ofList (quote :: cs.flatMap (shown quote) ++ [quote])

def quotedChar (c : Char) : String := quotedBy '\x27' [c]

def quoted (s : String) : String := quotedBy '\x22' s.toList

end BracketQuery.Text
