/-! Lines of a text. -/
namespace BracketQuery.Text

/-- A line ends at a line feed or at the end of the text; one carriage return before the line feed
belongs to the ending. After a last line feed there is no further line. -/
def lines : List Char → List (List Char)
  | [] => []
  | '\n' :: cs => [] :: lines cs
  | '\r' :: '\n' :: cs => [] :: lines cs
  | c :: cs =>
    match lines cs with
    | [] => [[c]]
    | line :: rest => (c :: line) :: rest

/-- Two blanks before every line but the first and the last: they follow each line feed but the
last one. -/
def indentInner : List Char → List Char
  | [] => []
  | c :: cs =>
    if c = '\n' && cs.contains '\n' then c :: ' ' :: ' ' :: indentInner cs
    else c :: indentInner cs

def indent (s : String) : String := String.ofList (indentInner s.toList)

/-- Blanks in front of a text that is shorter than `width` characters. -/
def alignRight (width : Nat) (s : String) : String :=
  String.ofList (List.replicate (width - s.length) ' ') ++ s

end BracketQuery.Text
