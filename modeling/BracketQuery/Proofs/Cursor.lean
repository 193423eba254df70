import BracketQuery.Proofs.Descent

/-! Reading with a cursor. Here the place among the tokens and the depth of nesting are numbers,
which the parsers move and put back themselves: no parser gets less to read than the whole query,
and none knows at which level it is. Every move that could leave the tokens or go below zero is
checked, and so is every loop and every call. -/
namespace BracketQuery

/-- How many tokens are read, and how many levels are entered. -/
structure Cursor where
  pos : Nat := 0
  depth : Nat := 0
deriving DecidableEq

namespace Cursor
open Descent (word? keyword? symbol? operator? hasClause negatedWord linked)

/-- What a parser does wrong, whatever the tokens are. -/
inductive Misstep where
  | posBelowZero
  | depthBelowZero
  | slicePastEnd
  /-- A loop takes too many turns, or a call goes too deep. -/
  | endless

inductive Stop where
  | refused (e : ReadError)
  /-- Not the word that was seen ahead. -/
  | unseen
  | misstep (m : Misstep)

/-- The tokens, how deep they may be nested, and what loops and calls are allowed. -/
structure Input where
  tokens : List Token
  limit : Nat
  turns : Nat

def Run (α : Type) : Type := Cursor → Except Stop (α × Cursor)

instance : Monad Run where
  pure v c := .ok (v, c)
  bind p f c :=
    match p c with
    | .error e => .error e
    | .ok (v, c') => f v c'

def stop {α : Type} (s : Stop) : Run α := fun _ => .error s

def refuse {α : Type} (e : ReadError) : Run α := stop (.refused e)

/-- Takes turns with `turn` until one of them gives a result. -/
def loop {σ α : Type} (turn : σ → Run (σ ⊕ α)) : Nat → σ → Run α
  | 0, _ => stop (.misstep .endless)
  | n + 1, s => do
    match ← turn s with
    | .inl s => loop turn n s
    | .inr v => return v

/- Moves. -/

section

variable (input : Input)

def enter : Run Unit := fun c =>
  if input.limit < c.depth + 1 then .error (.refused (.tooDeep input.limit))
  else .ok ((), { c with depth := c.depth + 1 })

def leave (levels : Nat) : Run Unit := fun c =>
  if c.depth < levels then .error (.misstep .depthBelowZero)
  else .ok ((), { c with depth := c.depth - levels })

def peek : Run (Option Token) := fun c => .ok (input.tokens[c.pos]?, c)

def forward : Run Unit := fun c => .ok ((), { c with pos := c.pos + 1 })

def stepBack : Run Unit := fun c =>
  if c.pos = 0 then .error (.misstep .posBelowZero)
  else .ok ((), { c with pos := c.pos - 1 })

/-- The next token, which may be a line mark. -/
def advance : Run (Option Token) := do
  match ← peek input with
  | some t =>
    forward
    return some t
  | none => return none

def newlineTurn (_ : Unit) : Run (Unit ⊕ Unit) := do
  match ← peek input with
  | some .newline =>
    forward
    return .inl ()
  | _ => return .inr ()

def skipNewlines : Run Unit := loop (newlineTurn input) input.turns ()

def nextToken : Run (Option Token) := do
  skipNewlines input
  advance input

/-- What comes after a number of tokens, not counting line marks. -/
def look (n : Nat) : Run (Option Token) := fun c =>
  if input.tokens.length < c.pos then .error (.misstep .slicePastEnd)
  else .ok ((Token.significant (input.tokens.drop c.pos))[n]?, c)

def take {α : Type} (expected : Expectation) (accept : Token → Option α) : Run α := do
  match ← nextToken input with
  | none => refuse (.missing expected)
  | some t =>
    match accept t with
    | some v => return v
    | none => refuse (.unexpected expected t)

def takeWord (expected : Expectation) : Run String := take input expected word?

def seenWord : Run String := do
  match (← nextToken input).bind word? with
  | some text => return text
  | none => stop .unseen

def ifKeyword {α : Type} (keywords : List String) (p : String → Run α) (otherwise : α) : Run α := do
  match (← look input 0).bind (keyword? keywords) with
  | some _ =>
    let text ← seenWord input
    p text
  | none => return otherwise

/- Lists of columns. -/

def listTurn {α : Type} (item : Run α) (items : α × List α) : Run ((α × List α) ⊕ List α) := do
  let all := items.1 :: items.2
  if (← look input 0).any (·.isSymbol ",") then
    let _ ← nextToken input
    return .inl (← item, all)
  else return .inr all.reverse

def listOf {α : Type} (clause : Clause) (table : String) (item : Run α) : Run (List α) := do
  match (← look input 0).bind word? with
  | some _ =>
    let first ← item
    loop (listTurn input item) input.turns (first, [])
  | none => refuse (.emptyClause clause table)

def nulls (column : String) : Run (List String) :=
  ifKeyword input ["nulls"] (fun text => do
    let place ← take input (.nullsPlace column) (keyword? ["first", "last"])
    return [text, place]) []

def direction (column : String) : Run (List String) :=
  ifKeyword input ["asc", "desc"] (fun text => do return text :: (← nulls input column)) []

def collation (column : String) : Run (List String) :=
  ifKeyword input ["collate"] (fun text => do
    return [text, ← takeWord input (.collation column)]) []

def entry (table : String) : Run OrderEntry := do
  let column ← takeWord input (.orderColumn table)
  let modifiers := (← collation input column) ++ (← direction input column)
  return ⟨column, if modifiers.isEmpty then none else some (" ".intercalate modifiers)⟩

def groupColumns (table : String) : Run (List String) :=
  listOf input .groupBy table (takeWord input (.groupColumn table))

def entries (table : String) : Run (List OrderEntry) :=
  listOf input .orderBy table (entry input table)

def byKeyword (table : String) : Run String := do
  let text ← seenWord input
  return text ++ " " ++ (← take input (.byKeyword text table) (keyword? ["by"]))

def groupBy (table : String) : Run GroupBy := do
  let keyword ← byKeyword input table
  return ⟨.ofWord keyword "group by", ← groupColumns input table⟩

def orderBy (table : String) : Run OrderBy := do
  let keyword ← byKeyword input table
  return ⟨.ofWord keyword "order by", ← entries input table⟩

def paging (page : Page) (table : String) : Run Paging := do
  let text ← seenWord input
  return ⟨.ofWord text page.name, ← takeWord input (.pageValue page table)⟩

end

/-- The parsers that are called from within themselves. -/
structure Calls where
  select : Run Select
  /-- The field block and the clauses of a table. -/
  fields : Table → Run Table
  /-- A condition and what is linked to it. -/
  chain : Site → Run Expr

section

variable (input : Input) (calls : Calls)

/-- A select in parentheses, from after the first one. -/
def nested (ended : Expectation) : Run Select := do
  enter input
  let select ← calls.select
  take input ended (symbol? ")")
  leave 1
  return select

/- Conditions. -/

def negation : Run (Option String) := do
  match (← look input 0).bind (keyword? ["not"]), (← look input 1).bind word? with
  | some _, some op =>
    if (WordOperator.ofWord? op).isSome then return some (← seenWord input) else return none
  | _, _ => return none

def rightSide (site : Site) (left op : String) : Run Expr := do
  return .compare (.value left) op (.value (← takeWord input (.rightSide site)))

def between (site : Site) (range : Range) : Run Expr := do
  let low ← takeWord input (.lowerBound site)
  let andKeyword ← take input (.betweenAnd site) (keyword? ["and"])
  return range.expr low andKeyword (← takeWord input (.upperBound site))

def among (site : Site) (text left : String) (negated : Bool) : Run Expr := do
  take input (.amongStart site) (symbol? "(")
  return .among (.ofWord text "in") left negated (← nested input calls (.amongEnd site))

def comparison (site : Site) : Run Expr := do
  let left ← takeWord input (.leftSide site)
  let negation ← negation input
  match (← look input 0).bind word? with
  | some text =>
    match WordOperator.ofWord? text with
    | some .between =>
      let text ← seenWord input
      between input site ⟨text, left, negation.isSome⟩
    | some .among =>
      let text ← seenWord input
      among input calls site text left negation.isSome
    | some .like =>
      let text ← seenWord input
      rightSide input site left (negatedWord negation text)
    | none => do rightSide input site left (← take input (.operator site) operator?)
  | none => do rightSide input site left (← take input (.operator site) operator?)

def paren (site : Site) : Run Expr := do
  enter input
  let _ ← nextToken input
  let expr ← calls.chain site
  take input (.parenEnd site) (symbol? ")")
  leave 1
  return .paren expr

def operand (site : Site) : Run Expr := do
  if (← look input 0).any (·.isSymbol "(") then paren input calls site
  else comparison input calls site

def notWord : Run (Option String) :=
  ifKeyword input ["not"] (fun text => pure (some text)) none

def primary (site : Site) : Run Expr := do
  match ← notWord input with
  | some text => return .not (.ofWord text "not") (← operand input calls site)
  | none => operand input calls site

/-- One more condition. Each link enters a level, and none of them is left before the last. -/
def linkTurn (site : Site) (read : List (Expr × String) × Expr) :
    Run ((List (Expr × String) × Expr) ⊕ (List (Expr × String) × Expr)) := do
  match (← look input 0).bind (keyword? ["and", "or"]) with
  | some _ =>
    enter input
    let op ← seenWord input
    if (← look input 0).isNone then refuse (.missing (.conditionAfter op site))
    else return .inl ((read.2, op) :: read.1, ← primary input calls site)
  | none => return .inr read

def chain (site : Site) : Run Expr := do
  let first ← primary input calls site
  let read ← loop (linkTurn input calls site) input.turns ([], first)
  leave read.1.length
  return linked read.1 read.2

def condition (filter : Filter) (table : String) : Run Condition := do
  let text ← seenWord input
  if (← look input 0).isNone then refuse (.emptyClause (.filter filter) table)
  else return ⟨.ofWord text filter.name, ← calls.chain ⟨filter, table⟩⟩

/- Tables. -/

def addClause (table : Table) : Clause → Run Table
  | .filter .rows => do
    return { table with rowFilter := some (← condition input calls .rows table.name) }
  | .filter .groups => do
    return { table with groupFilter := some (← condition input calls .groups table.name) }
  | .groupBy => do return { table with groupBy := some (← groupBy input table.name) }
  | .orderBy => do return { table with orderBy := some (← orderBy input table.name) }
  | .page .limit => do return { table with limit := some (← paging input .limit table.name) }
  | .page .offset => do return { table with offset := some (← paging input .offset table.name) }

def clauseTurn (table : Table) : Run (Table ⊕ Table) := do
  match ← look input 0 with
  | some (.word text) =>
    match Clause.ofWord? text with
    | some clause =>
      if hasClause table clause then refuse (.repeatedClause clause table.name)
      else return .inl (← addClause input calls table clause)
    | none => return .inr table
  | _ => return .inr table

def clauses (table : Table) : Run Table := loop (clauseTurn input calls) input.turns table

def relabel (table text : String) : List Field → Run (List Field)
  | .column column :: prior => do
    let label ← takeWord input (.columnLabel column.name)
    return .column ⟨column.name, labelled label text⟩ :: prior
  | .subQuery select _ :: prior => do
    let label ← takeWord input (.subQueryLabel table)
    return .subQuery select (labelled label text) :: prior
  | .relation relation :: _ => refuse (.labelAfterRelation relation.name)
  | [] => refuse (.labelWithoutField table)

def nest (table : String) : List Field → Run (List Field)
  | .column column :: prior => do
    return .relation (← calls.fields (.bare column.name column.label)) :: prior
  | _ => refuse (.namelessRelation table)

def fieldTurn (table : Table) (prior : List Field) : Run (List Field ⊕ List Field) := do
  match ← advance input with
  | none => refuse (.unclosedBracket table.single table.name)
  | some .newline => return .inl prior
  | some (.word text) =>
    if spells text "as" then return .inl (← relabel input table.name text prior)
    else return .inl (.column ⟨text, {}⟩ :: prior)
  | some (.symbol text) =>
    if text = closeBracket table.single then return .inr prior
    else if text = "," then return .inl prior
    else if text = "[" ∨ text = "\x7b" then
      -- the bracket belongs to the block that it opens
      stepBack
      return .inl (← nest calls table.name prior)
    else if text = "(" then
      return .inl (.subQuery (← nested input calls (.subQueryEnd table.name)) {} :: prior)
    else refuse (.unexpected (.fields table.name) (.symbol text))

def bracket? (t : Token) : Option Bool := if t.opensBlock then some (t.isSymbol "\x7b") else none

def fields (table : Table) : Run Table := do
  enter input
  let single ← take input (.openBracket table.name) bracket?
  let table := { table with single }
  let fields ← loop (fieldTurn input calls table) input.turns []
  let table ← clauses input calls { table with fields := fields.reverse }
  leave 1
  return table

/- Selects. -/

def distinctWord : Run (Option String) := do
  match (← look input 0).bind (keyword? ["distinct"]), ← look input 1 with
  | some _, some t =>
    if t.opensBlock || t.isKeyword "as" then return none else return some (← seenWord input)
  | _, _ => return none

def tableLabel (name : String) : Run Label :=
  ifKeyword input ["as"] (fun text => do
    return labelled (← takeWord input (.tableLabel name)) text) {}

def table : Run Table := do
  let name ← takeWord input .tableName
  let label ← tableLabel input name
  calls.fields (.bare name label)

def select : Run Select := do
  let keyword ← take input .selectKeyword (keyword? ["select"])
  let distinct ← distinctWord input
  return Head.select ⟨keyword, distinct⟩ (← table input calls)

end

def callsWithin (input : Input) : Nat → Calls
  | 0 =>
    { select := stop (.misstep .endless)
      fields := fun _ => stop (.misstep .endless)
      chain := fun _ => stop (.misstep .endless) }
  | n + 1 =>
    { select := select input (callsWithin input n)
      fields := fields input (callsWithin input n)
      chain := chain input (callsWithin input n) }

def parse (input : Input) : Run Select := do
  let select ← (callsWithin input input.turns).select
  skipNewlines input
  match ← peek input with
  | some t => refuse (.trailingToken t)
  | none => return select

end Cursor
end BracketQuery
