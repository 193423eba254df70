import BracketQuery.Reader.Finish
import BracketQuery.Sql.Statement
import BracketQuery.Token.Scan

/-! From the text of a query to its tree and to SQL. -/
namespace BracketQuery

inductive CompileError where
  | scan (error : ScanError)
  | read (error : ReadError)

def CompileError.message : CompileError → String
  | .scan error => error.message
  | .read error => error.message

/-- The tree of a query that nests at most `limit` levels deep. -/
def compile (limit : Nat) (text : String) : Except CompileError Select :=
  match Token.scan text with
  | .error e => .error (.scan e)
  | .ok ts =>
    match Select.ofTokens limit ts with
    | .error e => .error (.read e)
    | .ok select => .ok select

def Select.render (select : Select) : String := Sql.ofSelect select

def toSql (text : String) : Except CompileError String :=
  (compile defaultLimit text).map fun select => Text.trim select.render

end BracketQuery
