import BracketQuery.Clause
import BracketQuery.Sql.Formula
import BracketQuery.Sql.Name

/-! The text of a select. The tables of its block and of the relations in it add their parts in
the order in which they begin, and the parts make one statement. -/
namespace BracketQuery.Sql

structure Listed where
  keyword : Spelling
  items : List String

/-- What tables add to a statement. -/
structure Parts where
  columns : List String := []
  joins : List String := []
  rowFilters : List Restriction := []
  groupFilters : List Restriction := []
  groupings : List Listed := []
  orderings : List Listed := []
  limits : List Paging := []
  offsets : List Paging := []

instance : Append Parts where
  append p q :=
    { columns := p.columns ++ q.columns
      joins := p.joins ++ q.joins
      rowFilters := p.rowFilters ++ q.rowFilters
      groupFilters := p.groupFilters ++ q.groupFilters
      groupings := p.groupings ++ q.groupings
      orderings := p.orderings ++ q.orderings
      limits := p.limits ++ q.limits
      offsets := p.offsets ++ q.offsets }

def labelText (casing : Casing) (label : Label) : String :=
  match label.name with
  | some name => " " ++ casing.keyword label.keyword "as" ++ " " ++ name
  | none => ""

def joinText (casing : Casing) (table : Table) (parent : String) : String :=
  casing.apply (if table.single then "inner join" else "left join") ++ " "
    ++ table.name ++ labelText casing table.label ++ " " ++ casing.apply "on" ++ " "
    ++ table.scope ++ ".id = " ++ parent ++ "." ++ table.scope ++ "_id"

def nestedText (sql : String) : String := "(" ++ Text.indent sql ++ ")"

def negationText (casing : Casing) (negated : Bool) : String :=
  if negated then casing.apply "not" ++ " " else ""

def isOrderKeyword (word : String) : Bool :=
  ["collate", "asc", "desc", "nulls", "first", "last"].any (spells word)

def modifierText (casing : Casing) (modifiers : String) : String :=
  " ".intercalate <| (Text.words modifiers).map fun word =>
    if isOrderKeyword word then casing.word word else word

def orderText (casing : Casing) (scope : String) (entry : OrderEntry) : String :=
  match entry.modifiers with
  | some modifiers => qualify entry.column scope ++ " " ++ modifierText casing modifiers
  | none => qualify entry.column scope

def grouping (scope : String) (groupBy : GroupBy) : Listed :=
  ⟨groupBy.keyword, groupBy.columns.map (qualify · scope)⟩

def ordering (casing : Casing) (scope : String) (orderBy : OrderBy) : Listed :=
  ⟨orderBy.keyword, orderBy.entries.map (orderText casing scope)⟩

/- The sections of a statement. Each is left out if no table has it. -/

def columnSection (head : String) (columns : List String) : String :=
  head ++ "\n  " ++ if columns.isEmpty then "*" else "\n, ".intercalate columns

def filterSection (casing : Casing) (filter : Filter) : List Restriction → List String
  | [] => []
  | first :: others => [restrictionText casing filter.name first others]

/-- All columns listed in a clause, under the keyword of the first table that lists some. -/
def listSection (casing : Casing) (clause : Clause) : List Listed → List String
  | [] => []
  | first :: others =>
    [casing.keyword first.keyword clause.name ++ " "
      ++ ", ".intercalate ((first :: others).flatMap (·.items))]

def pageText (casing : Casing) (page : Page) (paging : Paging) : String :=
  casing.keyword paging.keyword page.name ++ " " ++ paging.value

/-- The limit of the outermost table, which is one row if it is single and has none of its own,
comes before the limits of relations. -/
def limitSection (casing : Casing) (table : Table) (limits : List Paging) : List String :=
  if table.single && table.limit.isNone then [casing.apply "limit" ++ " 1"]
  else limits.head?.toList.map (pageText casing .limit)

def offsetSection (casing : Casing) (offsets : List Paging) : List String :=
  offsets.head?.toList.map (pageText casing .offset)

def sections (casing : Casing) (head : String) (table : Table) (parts : Parts) : List String :=
  [columnSection head parts.columns,
    casing.apply "from" ++ " " ++ table.name ++ labelText casing table.label]
    ++ parts.joins
    ++ filterSection casing (.rows) parts.rowFilters
    ++ listSection casing .groupBy parts.groupings
    ++ filterSection casing .groups parts.groupFilters
    ++ listSection casing .orderBy parts.orderings
    ++ limitSection casing table parts.limits
    ++ offsetSection casing parts.offsets

/-- A line feed before the first section and one after each. -/
def statementText (sections : List String) : String :=
  "\n" ++ String.join (sections.map (· ++ "\n"))

def headText (casing : Casing) (keyword : Spelling) (distinct : Bool) (distinctKeyword : Spelling) :
    String :=
  casing.keyword keyword "select"
    ++ if distinct then " " ++ casing.keyword distinctKeyword "distinct" else ""

mutual

/-- The SQL text of a select, between two line feeds. A nested select has a casing of its own. -/
def ofSelect : Select → String
  | ⟨keyword, distinct, distinctKeyword, table⟩ =>
    let casing := Casing.ofSelect keyword
    statementText <| sections casing (headText casing keyword distinct distinctKeyword) table
      (tableParts casing table)

def tableParts (casing : Casing) : Table → Parts
  | ⟨name, label, _, fields, rowFilter, groupFilter, groupBy, orderBy, limit, offset⟩ =>
    { rowFilters := restriction casing (label.over name) rowFilter
      groupFilters := restriction casing (label.over name) groupFilter
      groupings := groupBy.toList.map (grouping (label.over name))
      orderings := orderBy.toList.map (ordering casing (label.over name))
      limits := limit.toList
      offsets := offset.toList : Parts } ++ fieldParts casing (label.over name) fields

def fieldParts (casing : Casing) (scope : String) : List Field → Parts
  | [] => {}
  | .column column :: rest =>
    { columns := [qualify column.name scope ++ labelText casing column.label] : Parts }
      ++ fieldParts casing scope rest
  | .relation table :: rest =>
    { joins := [joinText casing table scope] : Parts } ++ tableParts casing table
      ++ fieldParts casing scope rest
  | .subQuery select label :: rest =>
    { columns := [nestedText (ofSelect select) ++ labelText casing label] : Parts }
      ++ fieldParts casing scope rest

def restriction (casing : Casing) (scope : String) : Option Condition → List Restriction
  | none => []
  | some ⟨keyword, expr⟩ => [⟨keyword, formula casing scope expr, expr.hasOr⟩]

def formula (casing : Casing) (scope : String) : Expr → Formula
  | .compare left op right =>
    .binary (operandFormula casing scope left) (casing.word op) (operandFormula casing scope right)
  | .not keyword inner => .not (casing.keyword keyword "not") (formula casing scope inner)
  | .paren inner => .paren (formula casing scope inner)
  | .between keyword subject negated andKeyword low high =>
    .text (qualify subject scope ++ " " ++ negationText casing negated
      ++ casing.keyword keyword "between" ++ " " ++ qualify low scope ++ " "
      ++ casing.keyword andKeyword "and" ++ " " ++ qualify high scope)
  | .among keyword subject negated select =>
    .text (qualify subject scope ++ " " ++ negationText casing negated
      ++ casing.keyword keyword "in" ++ " " ++ nestedText (ofSelect select))

def operandFormula (casing : Casing) (scope : String) : Operand → Formula
  | .value text => .text (qualify text scope)
  | .expr expr => formula casing scope expr

end

end BracketQuery.Sql
