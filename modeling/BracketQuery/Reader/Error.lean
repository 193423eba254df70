import BracketQuery.Clause
import BracketQuery.Token

/-! Why tokens do not form a query, and how that is said. -/
namespace BracketQuery

/-- A condition, by its clause and the table that has the clause. -/
structure Site where
  filter : Filter
  table : String

def inQuotes (s : String) : String := "\"" ++ s ++ "\""

def Site.text (site : Site) : String :=
  site.filter.name ++ " statement after table " ++ inQuotes site.table

/-- What may stand at a place. -/
inductive Expectation where
  | selectKeyword
  | tableName
  | tableLabel (table : String)
  | openBracket (table : String)
  | fields (table : String)
  | columnLabel (column : String)
  | subQueryLabel (table : String)
  | subQueryEnd (table : String)
  | conditionAfter (op : String) (site : Site)
  | leftSide (site : Site)
  | operator (site : Site)
  | rightSide (site : Site)
  | parenEnd (site : Site)
  | lowerBound (site : Site)
  | betweenAnd (site : Site)
  | upperBound (site : Site)
  | amongStart (site : Site)
  | amongEnd (site : Site)
  | byKeyword (word table : String)
  | groupColumn (table : String)
  | orderColumn (table : String)
  | collation (column : String)
  | nullsPlace (column : String)
  | pageValue (page : Page) (table : String)

def Expectation.text : Expectation → String
  | .selectKeyword => inQuotes "select" ++ " keyword"
  | .tableName => "table name"
  | .tableLabel table => "alias of table " ++ inQuotes table
  | .openBracket table => "open bracket for table " ++ inQuotes table
  | .fields table => "fields of table " ++ inQuotes table
  | .columnLabel column => "alias of column " ++ inQuotes column
  | .subQueryLabel table => "alias of sub-query in table " ++ inQuotes table
  | .subQueryEnd table => "close parenthesis of sub-query in table " ++ inQuotes table
  | .conditionAfter op site => "condition after " ++ inQuotes op ++ " in " ++ site.text
  | .leftSide site => "left-hand side of " ++ site.text
  | .operator site => "operator of " ++ site.text
  | .rightSide site => "right-hand side of " ++ site.text
  | .parenEnd site => "close parenthesis of " ++ site.text
  | .lowerBound site => "lower bound of between in " ++ site.text
  | .betweenAnd site => inQuotes "and" ++ " of between in " ++ site.text
  | .upperBound site => "upper bound of between in " ++ site.text
  | .amongStart site => "open parenthesis of in in " ++ site.text
  | .amongEnd site => "close parenthesis of in in " ++ site.text
  | .byKeyword word table =>
    inQuotes "by" ++ " after " ++ inQuotes word ++ " for table " ++ inQuotes table
  | .groupColumn table => "group by column after table " ++ inQuotes table
  | .orderColumn table => "order by column after table " ++ inQuotes table
  | .collation column => "collation of order by column " ++ inQuotes column
  | .nullsPlace column =>
    inQuotes "first" ++ " or " ++ inQuotes "last" ++ " after nulls of column " ++ inQuotes column
  | .pageValue page table => "value of " ++ page.name ++ " for table " ++ inQuotes table

def closeBracket (single : Bool) : String := if single then "\x7d" else "]"

inductive ReadError where
  | missing (expected : Expectation)
  | unexpected (expected : Expectation) (found : Token)
  | unclosedBracket (single : Bool) (table : String)
  | emptyClause (clause : Clause) (table : String)
  | labelWithoutField (table : String)
  | labelAfterRelation (relation : String)
  | namelessRelation (table : String)
  | repeatedClause (clause : Clause) (table : String)
  | trailingToken (found : Token)
  | tooDeep (limit : Nat)

def ReadError.message : ReadError → String
  | .missing expected => "missing " ++ expected.text
  | .unexpected expected found => "expect " ++ expected.text ++ ", got: " ++ found.describe
  | .unclosedBracket single table =>
    "missing close bracket " ++ inQuotes (closeBracket single) ++ " for table " ++ inQuotes table
  | .emptyClause clause table =>
    "empty " ++ clause.name ++ " statement after table " ++ inQuotes table
  | .labelWithoutField table =>
    "missing field name before " ++ inQuotes "as" ++ " alias in table " ++ inQuotes table
  | .labelAfterRelation relation =>
    "expected " ++ inQuotes "as" ++ " alias before the fields of table " ++ inQuotes relation
  | .namelessRelation table => "missing relation table name in fields of table " ++ inQuotes table
  | .repeatedClause clause table =>
    "duplicate " ++ clause.name ++ " clause for table " ++ inQuotes table
  | .trailingToken found =>
    "unexpected trailing token after select expression: " ++ found.describe
  | .tooDeep limit => "nesting exceeds the maximum depth of " ++ limit.repr

end BracketQuery
