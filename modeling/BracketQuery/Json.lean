/-! JSON values and their text, with two blanks for each level. Keys keep their order. -/
namespace BracketQuery

inductive Json where
  | str (text : String)
  | bool (value : Bool)
  | arr (items : List Json)
  | obj (members : List (String × Json))

namespace Json

/-- Two hexadecimal digits, which are enough for the characters that need them. -/
def hexByte (n : Nat) : List Char := [Nat.digitChar (n / 16), Nat.digitChar (n % 16)]

/-- Quotes, backslashes and control characters below the blank are escaped. -/
def escaped (c : Char) : List Char :=
  if c = '\x22' then ['\\', '\x22']
  else if c = '\\' then ['\\', '\\']
  else if c = '\x08' then ['\\', 'b']
  else if c = '\t' then ['\\', 't']
  else if c = '\n' then ['\\', 'n']
  else if c = '\x0c' then ['\\', 'f']
  else if c = '\r' then ['\\', 'r']
  else if c.toNat < 0x20 then ['\\', 'u', '0', '0'] ++ hexByte c.toNat
  else [c]

def strText (s : String) : String :=
  String.ofList ('\x22' :: s.toList.flatMap escaped ++ ['\x22'])

def lineStart (level : Nat) : String := "\n" ++ String.ofList (List.replicate (2 * level) ' ')

/-- Items between brackets, each on a line of its own one level in. -/
def enclosed (opening closing : String) (level : Nat) (items : List String) : String :=
  if items.isEmpty then opening ++ closing
  else
    opening ++ lineStart (level + 1) ++ ("," ++ lineStart (level + 1)).intercalate items
      ++ lineStart level ++ closing

mutual

def prettyAt (level : Nat) : Json → String
  | .str text => strText text
  | .bool true => "true"
  | .bool false => "false"
  | .arr items => enclosed "[" "]" level (prettyItems (level + 1) items)
  | .obj members => enclosed "\x7b" "\x7d" level (prettyMembers (level + 1) members)

def prettyItems (level : Nat) : List Json → List String
  | [] => []
  | item :: rest => prettyAt level item :: prettyItems level rest

def prettyMembers (level : Nat) : List (String × Json) → List String
  | [] => []
  | (key, value) :: rest =>
    (strText key ++ ": " ++ prettyAt level value) :: prettyMembers level rest

end

def pretty (j : Json) : String := prettyAt 0 j

end Json

end BracketQuery
