import BracketQuery.Keyword

/-! The tree of a query. Texts stand in it as their author wrote them. -/
namespace BracketQuery

/-- The part that `as` adds to a table, a column or a sub-query. -/
structure Label where
  name : Option String := none
  keyword : Spelling := none

/-- The name by which the rest of the query refers to what has the label. -/
def Label.over (label : Label) (name : String) : String := label.name.getD name

structure Column where
  name : String
  label : Label := {}

structure GroupBy where
  keyword : Spelling := none
  columns : List String

/-- A column to order by; its modifiers are the words after it, with one blank between them. -/
structure OrderEntry where
  column : String
  modifiers : Option String := none

structure OrderBy where
  keyword : Spelling := none
  entries : List OrderEntry

structure Paging where
  keyword : Spelling := none
  value : String

mutual

structure Select where
  keyword : Spelling := none
  distinct : Bool := false
  distinctKeyword : Spelling := none
  table : Table

/-- A table, its field block and the clauses after it. A single table, in braces, stands for one
row; the others, in brackets, for any number of rows. -/
structure Table where
  name : String
  label : Label := {}
  single : Bool := false
  fields : List Field := []
  rowFilter : Option Condition := none
  groupFilter : Option Condition := none
  groupBy : Option GroupBy := none
  orderBy : Option OrderBy := none
  limit : Option Paging := none
  offset : Option Paging := none

inductive Field where
  | column (column : Column)
  | relation (table : Table)
  | subQuery (select : Select) (label : Label)

structure Condition where
  keyword : Spelling := none
  expr : Expr

/-- Links by `and` and `or` are comparisons of expressions; a chain of them nests to the right. -/
inductive Expr where
  | compare (left : Operand) (op : String) (right : Operand)
  | not (keyword : Spelling) (inner : Expr)
  | paren (inner : Expr)
  | between (keyword : Spelling) (subject : String) (negated : Bool) (andKeyword : Spelling)
      (low high : String)
  | among (keyword : Spelling) (subject : String) (negated : Bool) (select : Select)

inductive Operand where
  | value (text : String)
  | expr (expr : Expr)

end

def Table.bare (name : String) (label : Label) : Table := { name := name, label := label }

def Table.scope (t : Table) : String := t.label.over t.name

def Expr.link (left : Expr) (op : String) (right : Expr) : Expr :=
  .compare (.expr left) op (.expr right)

mutual

/-- Some `or` occurs in the expression. Negations and parentheses do not hide it, but a nested
select does. -/
def Expr.hasOr : Expr → Bool
  | .compare left op right =>
    Connective.ofWord? op == some .or || Operand.hasOr left || Operand.hasOr right
  | .not _ inner => Expr.hasOr inner
  | .paren inner => Expr.hasOr inner
  | .between .. => false
  | .among .. => false

def Operand.hasOr : Operand → Bool
  | .value _ => false
  | .expr e => Expr.hasOr e

end

end BracketQuery
