import BracketQuery.Reader.Step

/-! The end of the tokens, and reading as a whole. -/
namespace BracketQuery

def Outer.finish (outer : Outer) (select : Select) : Except ReadError Select :=
  match outer with
  | .top => .ok select
  | .field block => .error (.missing (.subQueryEnd block.table.name))
  | .among slot _ _ _ => .error (.missing (.amongEnd slot.site))

def Block.unclosed (block : Block) : ReadError :=
  .unclosedBracket block.table.single block.table.name

def Owner.finish (owner : Owner) : Except ReadError Select :=
  match owner.home with
  | .root head outer => outer.finish (head.select owner.table)
  | .relation block => .error block.unclosed

def lackBlock (limit : Nat) (name : String) (home : Home) : ReadError :=
  if home.depth < limit then .missing (.openBracket name) else .tooDeep limit

def Slot.lack (slot : Slot) : ReadError :=
  match slot.negation, slot.links, slot.frame with
  | none, [], .clause filter _ owner => .emptyClause (.filter filter) owner.table.name
  | none, (_, op) :: _, _ => .missing (.conditionAfter op slot.site)
  | _, _, _ => .missing (.leftSide slot.site)

def Slot.finish (slot : Slot) (last : Expr) : Except ReadError Select :=
  match slot.frame with
  | .clause filter keyword owner =>
    (owner.setFilter filter ⟨.ofWord keyword filter.name, slot.chain last⟩).finish
  | .paren outer => .error (.missing (.parenEnd outer.site))

/-- The query that is complete when no token is left. -/
def State.finish (limit : Nat) (st : State) : Except ReadError Select :=
  match st with
  | .atSelect _ => .error (.missing .selectKeyword)
  | .atName _ _ => .error (.missing .tableName)
  | .atDistinct keyword word outer =>
    .error (lackBlock limit word (.root ⟨keyword, none⟩ outer))
  | .afterName name home => .error (lackBlock limit name home)
  | .atTableLabel _ name _ => .error (.missing (.tableLabel name))
  | .atBlock table home => .error (lackBlock limit table.name home)
  | .inBlock block => .error block.unclosed
  | .atColumnLabel _ column _ => .error (.missing (.columnLabel column.name))
  | .atSubQueryLabel _ _ block => .error (.missing (.subQueryLabel block.table.name))
  | .afterBlock owner => owner.finish
  | .atCondition slot => .error slot.lack
  | .atOperator _ slot => .error (.missing (.operator slot.site))
  | .atNegated _ negation slot => .error (.unexpected (.operator slot.site) (.word negation))
  | .atRight _ _ slot => .error (.missing (.rightSide slot.site))
  | .atLow _ slot => .error (.missing (.lowerBound slot.site))
  | .atAnd _ _ slot => .error (.missing (.betweenAnd slot.site))
  | .atHigh _ _ _ slot => .error (.missing (.upperBound slot.site))
  | .atAmong _ _ _ slot => .error (.missing (.amongStart slot.site))
  | .afterCondition expr slot => slot.finish expr
  | .atBy _ word owner => .error (.missing (.byKeyword word owner.table.name))
  | .atGroupColumn draft =>
    if draft.columns.isEmpty then .error (.emptyClause .groupBy draft.owner.table.name)
    else .error (.missing (.groupColumn draft.owner.table.name))
  | .afterGroupColumn draft => draft.close.finish
  | .atOrderColumn draft =>
    if draft.entries.isEmpty then .error (.emptyClause .orderBy draft.owner.table.name)
    else .error (.missing (.orderColumn draft.owner.table.name))
  | .afterOrderWord _ draft => draft.close.close.finish
  | .atCollation draft => .error (.missing (.collation draft.column))
  | .atNullsPlace draft => .error (.missing (.nullsPlace draft.column))
  | .atPage page _ owner => .error (.missing (.pageValue page owner.table.name))

def State.run (limit : Nat) (st : State) (ts : List Token) : Reading :=
  ts.foldlM (State.step limit) st

/-- How deep a query may nest unless the caller says otherwise. -/
def defaultLimit : Nat := 256

/-- The query that the tokens form. Line marks mean nothing here. -/
def Select.ofTokens (limit : Nat) (ts : List Token) : Except ReadError Select := do
  (← State.start.run limit (Token.significant ts)).finish limit

theorem State.run_nil (limit : Nat) (st : State) : st.run limit [] = .ok st := rfl

theorem State.run_append (limit : Nat) (st : State) (ts us : List Token) :
    st.run limit (ts ++ us) = (st.run limit ts >>= fun st => st.run limit us) :=
  List.foldlM_append

end BracketQuery
