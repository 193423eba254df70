import BracketQuery.Select
import BracketQuery.Sql.Casing
import BracketQuery.Text.Lines

/-! Conditions as they are written: operands are text, and what is left of the tree is how they are
put together. -/
namespace BracketQuery.Sql

inductive Formula where
  | text (sql : String)
  | binary (left : Formula) (op : String) (right : Formula)
  | not (keyword : String) (inner : Formula)
  | paren (inner : Formula)

/-- A chain of conditions is written on one line, or with each connective at the start of a line of
its own, where it ends in the column of the clause's keyword. -/
inductive Layout where
  | inline
  | aligned (width : Nat)

def binaryText (layout : Layout) (left op right : String) : String :=
  match layout, Connective.ofWord? op with
  | .aligned width, some _ => left ++ "\n" ++ Text.alignRight width op ++ " " ++ right
  | _, _ => left ++ " " ++ op ++ " " ++ right

def Formula.sql (layout : Layout) : Formula → String
  | .text sql => sql
  | .binary left op right => binaryText layout (left.sql layout) op (right.sql layout)
  | .not keyword inner => keyword ++ " " ++ inner.sql layout
  | .paren inner => "(" ++ inner.sql .inline ++ ")"

structure Restriction where
  keyword : Spelling
  formula : Formula
  hasOr : Bool

/-- Among several conditions, one with `or` needs parentheses. -/
def Restriction.sql (width : Nat) (several : Bool) (r : Restriction) : String :=
  if several && r.hasOr then (Formula.paren r.formula).sql .inline
  else r.formula.sql (.aligned width)

/-- All conditions of a clause, joined by `and`, under the keyword of the first. -/
def restrictionText (casing : Casing) (clause : String) (first : Restriction)
    (others : List Restriction) : String :=
  let keyword := casing.keyword first.keyword clause
  let separator := "\n" ++ Text.alignRight keyword.length (casing.apply "and") ++ " "
  keyword ++ " " ++
    separator.intercalate ((first :: others).map (·.sql keyword.length !others.isEmpty))

end BracketQuery.Sql
