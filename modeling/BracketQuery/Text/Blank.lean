import BracketQuery.Text.Ranges

/-! Blanks are the characters with the property White_Space. -/
namespace BracketQuery.Text

def blankRanges : Ranges :=
  [(0x9, 0xd), (0x20, 0x20), (0x85, 0x85), (0xa0, 0xa0), (0x1680, 0x1680), (0x2000, 0x200a),
   (0x2028, 0x2029), (0x202f, 0x202f), (0x205f, 0x205f), (0x3000, 0x3000)]

def isBlank (c : Char) : Bool := blankRanges.has c.toNat

/- A word here is a longest run without blanks; `skipBlanks` brings the next one to the front. -/
def skipBlanks (cs : List Char) : List Char := cs.dropWhile isBlank
def firstWord (cs : List Char) : List Char := cs.takeWhile (!isBlank ·)
def afterWord (cs : List Char) : List Char := cs.dropWhile (!isBlank ·)

theorem skipBlanks_length (cs : List Char) : (skipBlanks cs).length ≤ cs.length :=
  (List.dropWhile_sublist _).length_le

theorem firstWord_append (cs : List Char) : firstWord cs ++ afterWord cs = cs :=
  List.takeWhile_append_dropWhile

def trimBlanks (cs : List Char) : List Char := (skipBlanks (skipBlanks cs).reverse).reverse

theorem trimBlanks_length (cs : List Char) : (trimBlanks cs).length ≤ cs.length := by
  have h1 := skipBlanks_length cs
  have h2 := skipBlanks_length (skipBlanks cs).reverse
  simp only [trimBlanks, List.length_reverse] at h2 ⊢
  omega

def trim (s : String) : String := String.ofList (trimBlanks s.toList)

/-- Cuts a text into its words; `word` holds the one being read, last character first. -/
def wordsFrom (word : List Char) : List Char → List (List Char)
  | [] => if word.isEmpty then [] else [word.reverse]
  | c :: cs =>
    if isBlank c then if word.isEmpty then wordsFrom [] cs else word.reverse :: wordsFrom [] cs
    else wordsFrom (c :: word) cs

def words (s : String) : List String := (wordsFrom [] s.toList).map String.ofList

end BracketQuery.Text
