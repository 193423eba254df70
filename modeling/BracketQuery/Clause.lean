import BracketQuery.Keyword

/-! The clauses that may follow a field block. -/
namespace BracketQuery

/-- The clauses that hold a condition: `where` filters rows and `having` filters groups. -/
inductive Filter where
  | rows | groups
deriving DecidableEq

def Filter.name : Filter → String
  | .rows => "where"
  | .groups => "having"

inductive Page where
  | limit | offset
deriving DecidableEq

def Page.name : Page → String
  | .limit => "limit"
  | .offset => "offset"

inductive Clause where
  | filter (filter : Filter)
  | groupBy
  | orderBy
  | page (page : Page)
deriving DecidableEq

def Clause.name : Clause → String
  | .filter f => f.name
  | .groupBy => "group by"
  | .orderBy => "order by"
  | .page p => p.name

def Clause.ofWord? (word : String) : Option Clause :=
  if spells word "where" then some (.filter .rows)
  else if spells word "having" then some (.filter .groups)
  else if spells word "group" then some .groupBy
  else if spells word "order" then some .orderBy
  else if spells word "limit" then some (.page .limit)
  else if spells word "offset" then some (.page .offset)
  else none

end BracketQuery
