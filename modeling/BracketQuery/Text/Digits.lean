/-! Numbers in decimal digits. -/
namespace BracketQuery.Text

def allDigits (cs : List Char) : Bool := !cs.isEmpty && cs.all Char.isDigit

/-- The number that digits write; other characters are not meant to be among them. -/
def digitsValue (cs : List Char) : Nat :=
  cs.foldl (fun n c => 10 * n + (c.toNat - '0'.toNat)) 0

def dropPlus : List Char → List Char
  | '+' :: cs => cs
  | cs => cs

/-- A number of at most 64 bits, with an optional plus sign. -/
def word64? (s : String) : Option Nat :=
  let digits := dropPlus s.toList
  if allDigits digits && digitsValue digits < 0x10000000000000000 then some (digitsValue digits)
  else none

end BracketQuery.Text
