/-! Sets of characters, as ascending ranges of code points. -/
namespace BracketQuery.Text

/-- Both ends of a range belong to it. -/
abbrev Ranges := List (Nat × Nat)

/-- The search stops at the first range past `n`. -/
def Ranges.has : Ranges → Nat → Bool
  | [], _ => false
  | (lo, hi) :: rest, n => lo ≤ n && (n ≤ hi || has rest n)

end BracketQuery.Text
