import BracketQuery.Reader.Finish

/-! Reading by descent. Each construct of a query has a parser of its own, which sees the line marks
among the tokens: it steps over them, looks past them or, in a field block, meets each of them. -/
namespace BracketQuery.Descent

/-- What a parser read, and what it left: less than `n` tokens. -/
structure Parsed (α : Type) (n : Nat) where
  value : α
  rest : List Token
  lt : rest.length < n

def Parsed.mono {α : Type} {m n : Nat} (h : m ≤ n) (r : Parsed α m) : Parsed α n :=
  ⟨r.value, r.rest, Nat.lt_of_lt_of_le r.lt h⟩

def Parsed.map {α β : Type} {n : Nat} (f : α → β) (r : Parsed α n) : Parsed β n :=
  ⟨f r.value, r.rest, r.lt⟩

/-- A parser leaves no more tokens than it was given. -/
def Parser (α : Type) : Type := (ts : List Token) → Except ReadError (Parsed α (ts.length + 1))

instance : Monad Parser where
  pure v ts := .ok ⟨v, ts, Nat.lt_succ_self _⟩
  bind p f ts :=
    match p ts with
    | .error e => .error e
    | .ok r => (f r.value r.rest).map (Parsed.mono r.lt)

theorem bind_apply {α β : Type} (p : Parser α) (f : α → Parser β) (ts : List Token) :
    (p >>= f) ts =
      match p ts with
      | .error e => .error e
      | .ok r => (f r.value r.rest).map (Parsed.mono r.lt) := rfl

def fail {α : Type} (e : ReadError) : Parser α := fun _ => .error e

/- Access to the tokens. -/

def skipNewlines (ts : List Token) : List Token := ts.dropWhile (· == .newline)

/-- What comes after a number of tokens, not counting line marks. -/
def lookahead (n : Nat) (ts : List Token) : Option Token := (Token.significant ts)[n]?

def afterNext (ts : List Token) : List Token := (skipNewlines ts).tail

theorem skipNewlines_cases (ts : List Token) :
    (skipNewlines ts = [] ∧ Token.significant ts = []) ∨
      ∃ t rest, t ≠ .newline ∧ skipNewlines ts = t :: rest ∧
        Token.significant ts = t :: Token.significant rest ∧ rest.length < ts.length := by
  induction ts with
  | nil => exact .inl ⟨rfl, rfl⟩
  | cons t ts ih =>
    by_cases ht : t = .newline
    · subst ht
      rcases ih with ⟨hs, hsig⟩ | ⟨u, rest, hu, hs, hsig, hlen⟩
      · exact .inl ⟨hs, hsig⟩
      · exact .inr ⟨u, rest, hu, hs, hsig, Nat.lt_succ_of_lt hlen⟩
    · exact .inr ⟨t, ts, ht, by simp [skipNewlines, ht], by simp [Token.significant, ht], by simp⟩

theorem afterNext_length (ts : List Token) : (afterNext ts).length ≤ ts.length := by
  rcases skipNewlines_cases ts with ⟨hs, -⟩ | ⟨t, rest, -, hs, -, hlen⟩
  · simp [afterNext, hs]
  · simpa [afterNext, hs] using Nat.le_of_lt hlen

theorem afterNext_lt {ts : List Token} {t : Token} (h : lookahead 0 ts = some t) :
    (afterNext ts).length < ts.length := by
  rcases skipNewlines_cases ts with ⟨-, hsig⟩ | ⟨t, rest, -, hs, -, hlen⟩
  · simp [lookahead, hsig] at h
  · simpa [afterNext, hs] using hlen

def look (n : Nat) : Parser (Option Token) := fun ts =>
  .ok ⟨lookahead n ts, ts, Nat.lt_succ_self _⟩

def pass : Parser Unit := fun ts => .ok ⟨(), afterNext ts, Nat.lt_succ_of_le (afterNext_length ts)⟩

/-- Takes the next token if it is as expected. -/
def take {α : Type} (expected : Expectation) (accept : Token → Option α) : Parser α := fun ts =>
  match skipNewlines ts with
  | [] => .error (.missing expected)
  | t :: _ =>
    match accept t with
    | some v => .ok ⟨v, afterNext ts, Nat.lt_succ_of_le (afterNext_length ts)⟩
    | none => .error (.unexpected expected t)

def word? : Token → Option String
  | .word text => some text
  | _ => none

def keyword? (keywords : List String) (t : Token) : Option String :=
  (word? t).filter fun text => keywords.any (spells text)

def symbol? (symbol : String) (t : Token) : Option Unit :=
  if t.isSymbol symbol then some () else none

def operator? : Token → Option String
  | .symbol text => if isStructural text then none else some text
  | _ => none

def takeWord (expected : Expectation) : Parser String := take expected word?

/-- Goes on with `p` after one of the keywords, if it comes next. -/
def ifKeyword {α : Type} (keywords : List String) (p : String → Parser α) (otherwise : α) :
    Parser α := do
  match (← look 0).bind (keyword? keywords) with
  | some text => pass; p text
  | none => pure otherwise

/-- One turn of a loop: the loop ends, or goes on with fewer tokens. -/
inductive Turn (σ α : Type) (ts : List Token) where
  | done (r : Parsed α (ts.length + 1))
  | more (r : Parsed σ ts.length)

def loop {σ α : Type} (turn : σ → (ts : List Token) → Except ReadError (Turn σ α ts)) (s : σ)
    (ts : List Token) : Except ReadError (Parsed α (ts.length + 1)) :=
  match turn s ts with
  | .error e => .error e
  | .ok (.done r) => .ok r
  | .ok (.more r) =>
    have := r.lt
    (loop turn r.value r.rest).map (Parsed.mono (by omega))
termination_by ts.length

/-- The turn in which `p` goes on after a token that was seen ahead. -/
def turnPast {σ α : Type} {ts : List Token} {t : Token} (h : lookahead 0 ts = some t)
    (p : Parser σ) : Except ReadError (Turn σ α ts) :=
  ((p (afterNext ts)).map (Parsed.mono (afterNext_lt h))).map .more

def turnDone {σ α : Type} (v : α) (ts : List Token) : Except ReadError (Turn σ α ts) :=
  .ok (.done ⟨v, ts, Nat.lt_succ_self _⟩)

/- Lists of columns. -/

/-- The last item and those before it, last one first. -/
def listTurn {α : Type} (item : Parser α) (items : α × List α) (ts : List Token) :
    Except ReadError (Turn (α × List α) (List α) ts) :=
  let all := items.1 :: items.2
  match h : lookahead 0 ts with
  | some t =>
    if t.isSymbol "," then turnPast h (do return (← item, all)) else turnDone all.reverse ts
  | none => turnDone all.reverse ts

/-- Items with commas between them, at least one. -/
def listOf {α : Type} (clause : Clause) (table : String) (item : Parser α) : Parser (List α) := do
  match (← look 0).bind word? with
  | some _ =>
    let first ← item
    loop (listTurn item) (first, [])
  | none => fail (.emptyClause clause table)

def nulls (column : String) : Parser (List String) :=
  ifKeyword ["nulls"] (fun text => do
    let place ← take (.nullsPlace column) (keyword? ["first", "last"])
    return [text, place]) []

def direction (column : String) : Parser (List String) :=
  ifKeyword ["asc", "desc"] (fun text => do return text :: (← nulls column)) []

def collation (column : String) : Parser (List String) :=
  ifKeyword ["collate"] (fun text => do return [text, ← takeWord (.collation column)]) []

def entry (table : String) : Parser OrderEntry := do
  let column ← takeWord (.orderColumn table)
  let modifiers := (← collation column) ++ (← direction column)
  return ⟨column, if modifiers.isEmpty then none else some (" ".intercalate modifiers)⟩

def byKeyword (table text : String) : Parser String := do
  return text ++ " " ++ (← take (.byKeyword text table) (keyword? ["by"]))

def groupBy (table text : String) : Parser GroupBy := do
  let keyword ← byKeyword table text
  return ⟨.ofWord keyword "group by", ← listOf .groupBy table (takeWord (.groupColumn table))⟩

def orderBy (table text : String) : Parser OrderBy := do
  let keyword ← byKeyword table text
  return ⟨.ofWord keyword "order by", ← listOf .orderBy table (entry table)⟩

def paging (page : Page) (table text : String) : Parser Paging := do
  return ⟨.ofWord text page.name, ← takeWord (.pageValue page table)⟩

/- Levels. What lies one level deeper is read by the parsers of that level. -/

structure Level where
  select : Parser Select
  /-- A select in parentheses, from after the first one. -/
  nested : Expectation → Parser Select
  /-- The field block and the clauses of a table. -/
  block : Table → (ts : List Token) → Except ReadError (Parsed Table ts.length)
  /-- A condition and what is linked to it, after some links. -/
  chain : Site → List (Expr × String) → Parser Expr

/-- One level deeper, unless the limit is reached. -/
def enter (limit : Nat) : Option Level → Parser Level
  | some inner => pure inner
  | none => fail (.tooDeep limit)

def nestedSelect (limit : Nat) (below : Option Level) (ended : Expectation) : Parser Select := do
  let inner ← enter limit below
  let select ← inner.select
  take ended (symbol? ")")
  return select

/- Conditions. -/

/-- A `not` that negates the operator after it. -/
def negation : Parser (Option String) := do
  match (← look 0).bind (keyword? ["not"]), (← look 1).bind word? with
  | some text, some op =>
    if (WordOperator.ofWord? op).isSome then
      pass
      return some text
    else return none
  | _, _ => return none

def negatedWord (negation : Option String) (op : String) : String :=
  match negation with
  | some text => text ++ " " ++ op
  | none => op

def rightSide (site : Site) (left op : String) : Parser Expr := do
  return .compare (.value left) op (.value (← takeWord (.rightSide site)))

def between (site : Site) (range : Range) : Parser Expr := do
  let low ← takeWord (.lowerBound site)
  let andKeyword ← take (.betweenAnd site) (keyword? ["and"])
  return range.expr low andKeyword (← takeWord (.upperBound site))

def among (nested : Expectation → Parser Select) (site : Site) (text left : String)
    (negated : Bool) : Parser Expr := do
  take (.amongStart site) (symbol? "(")
  return .among (.ofWord text "in") left negated (← nested (.amongEnd site))

def comparison (nested : Expectation → Parser Select) (site : Site) : Parser Expr := do
  let left ← takeWord (.leftSide site)
  let negation ← negation
  match (← look 0).bind word? with
  | some text =>
    match WordOperator.ofWord? text with
    | some .between =>
      pass
      between site ⟨text, left, negation.isSome⟩
    | some .among =>
      pass
      among nested site text left negation.isSome
    | some .like =>
      pass
      rightSide site left (negatedWord negation text)
    | none => do rightSide site left (← take (.operator site) operator?)
  | none => do rightSide site left (← take (.operator site) operator?)

def paren (limit : Nat) (below : Option Level) (site : Site) : Parser Expr := do
  let inner ← enter limit below
  pass
  let expr ← inner.chain site []
  take (.parenEnd site) (symbol? ")")
  return .paren expr

def operand (limit : Nat) (below : Option Level) (site : Site) : Parser Expr := do
  if (← look 0).any (·.isSymbol "(") then paren limit below site
  else comparison (nestedSelect limit below) site

def notWord : Parser (Option String) :=
  ifKeyword ["not"] (fun text => pure (some text)) none

def primary (limit : Nat) (below : Option Level) (site : Site) : Parser Expr := do
  match ← notWord with
  | some text => return .not (.ofWord text "not") (← operand limit below site)
  | none => operand limit below site

/-- The links are kept last one first. -/
def linked (links : List (Expr × String)) (last : Expr) : Expr :=
  links.foldl (fun right left => .link left.1 left.2 right) last

def chain (limit : Nat) (below : Option Level) (site : Site) (links : List (Expr × String)) :
    Parser Expr := do
  let last ← primary limit below site
  match (← look 0).bind (keyword? ["and", "or"]) with
  | some op =>
    let inner ← enter limit below
    pass
    if (← look 0).isNone then fail (.missing (.conditionAfter op site))
    else inner.chain site ((last, op) :: links)
  | none => return linked links last

def condition (inner : Level) (filter : Filter) (table text : String) : Parser Condition := do
  if (← look 0).isNone then fail (.emptyClause (.filter filter) table)
  else return ⟨.ofWord text filter.name, ← inner.chain ⟨filter, table⟩ []⟩

/- Tables. -/

def hasClause (table : Table) : Clause → Bool
  | .filter .rows => table.rowFilter.isSome
  | .filter .groups => table.groupFilter.isSome
  | .groupBy => table.groupBy.isSome
  | .orderBy => table.orderBy.isSome
  | .page .limit => table.limit.isSome
  | .page .offset => table.offset.isSome

/-- The table with a clause of which the first word was read. -/
def addClause (inner : Level) (table : Table) (text : String) : Clause → Parser Table
  | .filter .rows => do
    return { table with rowFilter := some (← condition inner .rows table.name text) }
  | .filter .groups => do
    return { table with groupFilter := some (← condition inner .groups table.name text) }
  | .groupBy => do return { table with groupBy := some (← groupBy table.name text) }
  | .orderBy => do return { table with orderBy := some (← orderBy table.name text) }
  | .page .limit => do return { table with limit := some (← paging .limit table.name text) }
  | .page .offset => do return { table with offset := some (← paging .offset table.name text) }

def clauseTurn (inner : Level) (table : Table) (ts : List Token) :
    Except ReadError (Turn Table Table ts) :=
  match h : lookahead 0 ts with
  | some (.word text) =>
    match Clause.ofWord? text with
    | some clause =>
      if hasClause table clause then .error (.repeatedClause clause table.name)
      else turnPast h (addClause inner table text clause)
    | none => turnDone table ts
  | _ => turnDone table ts

def columnLabel (text : String) (column : Column) : Parser Field := do
  return .column ⟨column.name, labelled (← takeWord (.columnLabel column.name)) text⟩

def subQueryLabel (table text : String) (select : Select) : Parser Field := do
  return .subQuery select (labelled (← takeWord (.subQueryLabel table)) text)

def relabel (table text : String) : List Field → Parser (List Field)
  | .column column :: prior => do return (← columnLabel text column) :: prior
  | .subQuery select _ :: prior => do return (← subQueryLabel table text select) :: prior
  | .relation relation :: _ => fail (.labelAfterRelation relation.name)
  | [] => fail (.labelWithoutField table)

/-- A bracket makes a relation of the column before it, and is left to the block that it opens. -/
def nest (inner : Level) (table : String) (prior : List Field) (ts : List Token) :
    Except ReadError (Parsed (List Field) ts.length) :=
  match prior with
  | .column column :: prior =>
    (inner.block (.bare column.name column.label) ts).map (Parsed.map (.relation · :: prior))
  | _ => .error (.namelessRelation table)

def subQuery (inner : Level) (table : String) (prior : List Field) : Parser (List Field) := do
  return .subQuery (← inner.nested (.subQueryEnd table)) {} :: prior

def symbolTurn (inner : Level) (table : Table) (prior : List Field) (text : String)
    (ts : List Token) : Except ReadError (Turn (List Field) (List Field) (.symbol text :: ts)) :=
  if text = closeBracket table.single then
    .ok (.done ⟨prior, ts, Nat.lt_succ_of_lt (Nat.lt_succ_self _)⟩)
  else if text = "," then .ok (.more ⟨prior, ts, Nat.lt_succ_self _⟩)
  else if text = "[" ∨ text = "\x7b" then
    (nest inner table.name prior (.symbol text :: ts)).map .more
  else if text = "(" then (subQuery inner table.name prior ts).map .more
  else .error (.unexpected (.fields table.name) (.symbol text))

/-- One token of a field block, with the fields before it, last one first. -/
def fieldTurn (inner : Level) (table : Table) (prior : List Field) :
    (ts : List Token) → Except ReadError (Turn (List Field) (List Field) ts)
  | [] => .error (.unclosedBracket table.single table.name)
  | .newline :: ts => .ok (.more ⟨prior, ts, Nat.lt_succ_self _⟩)
  | .word text :: ts =>
    if spells text "as" then (relabel table.name text prior ts).map .more
    else .ok (.more ⟨.column ⟨text, {}⟩ :: prior, ts, Nat.lt_succ_self _⟩)
  | .symbol text :: ts => symbolTurn inner table prior text ts

/-- From after the bracket that opens the block. -/
def body (inner : Level) (table : Table) : Parser Table := do
  let fields ← loop (fieldTurn inner table) []
  loop (clauseTurn inner) { table with fields := fields.reverse }

def block (limit : Nat) (below : Option Level) (table : Table) (ts : List Token) :
    Except ReadError (Parsed Table ts.length) :=
  match below with
  | none => .error (.tooDeep limit)
  | some inner =>
    match h : lookahead 0 ts with
    | none => .error (.missing (.openBracket table.name))
    | some t =>
      if t.opensBlock then
        (body inner { table with single := t.isSymbol "\x7b" } (afterNext ts)).map
          (Parsed.mono (afterNext_lt h))
      else .error (.unexpected (.openBracket table.name) t)

/- Selects. -/

/-- Right before a bracket or `as`, `distinct` is the name of a table. -/
def distinctWord : Parser (Option String) := do
  match (← look 0).bind (keyword? ["distinct"]), ← look 1 with
  | some text, some t =>
    if t.opensBlock || t.isKeyword "as" then return none
    else
      pass
      return some text
  | _, _ => return none

def tableLabel (name : String) : Parser Label :=
  ifKeyword ["as"] (fun text => do return labelled (← takeWord (.tableLabel name)) text) {}

def select (block : Table → Parser Table) : Parser Select := do
  let keyword ← take .selectKeyword (keyword? ["select"])
  let distinct ← distinctWord
  let name ← takeWord .tableName
  let label ← tableLabel name
  return Head.select ⟨keyword, distinct⟩ (← block (.bare name label))

/-- The parsers of a level, from those of the level below it if there is one. -/
def above (limit : Nat) (below : Option Level) : Level where
  select := select fun table ts => (block limit below table ts).map (Parsed.mono (Nat.le_succ _))
  nested := nestedSelect limit below
  block := block limit below
  chain := chain limit below

/-- The level from which a number of others may be entered. -/
def level (limit : Nat) : Nat → Level
  | 0 => above limit none
  | n + 1 => above limit (some (level limit n))

def parse (limit : Nat) (ts : List Token) : Except ReadError Select :=
  match (level limit limit).select ts with
  | .error e => .error e
  | .ok r =>
    match skipNewlines r.rest with
    | [] => .ok r.value
    | t :: _ => .error (.trailingToken t)

end BracketQuery.Descent
