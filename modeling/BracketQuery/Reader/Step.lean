import BracketQuery.Reader.State

/-! How one token moves the reader. A token that ends a construct belongs to the construct around
it, so `close` passes it on there. -/
namespace BracketQuery

abbrev Reading := Except ReadError State

/-- The next state, if one more level is within the limit. -/
def deeper (limit depth : Nat) (next : Reading) : Reading :=
  if depth < limit then next else .error (.tooDeep limit)

def expectWord (expected : Expectation) (t : Token) (next : String → State) : Reading :=
  match t with
  | .word text => .ok (next text)
  | _ => .error (.unexpected expected t)

def expectKeyword (keywords : List String) (expected : Expectation) (t : Token)
    (next : String → State) : Reading :=
  match t with
  | .word text =>
    if keywords.any (spells text) then .ok (next text) else .error (.unexpected expected t)
  | _ => .error (.unexpected expected t)

def expectSymbol (symbol : String) (expected : Expectation) (t : Token) (next : Reading) :
    Reading :=
  if t.isSymbol symbol then next else .error (.unexpected expected t)

/-- The level of a block counts from before its bracket. -/
def openBlock (limit : Nat) (table : Table) (home : Home) (t : Token) : Reading :=
  deeper limit home.depth <|
    if t.isSymbol "[" then .ok (.inBlock ⟨{ table with single := false }, [], home⟩)
    else if t.isSymbol "\x7b" then .ok (.inBlock ⟨{ table with single := true }, [], home⟩)
    else .error (.unexpected (.openBracket table.name) t)

def stepAfterName (limit : Nat) (name : String) (home : Home) (t : Token) : Reading :=
  match t with
  | .word text =>
    if spells text "as" then .ok (.atTableLabel text name home)
    else openBlock limit (.bare name {}) home t
  | _ => openBlock limit (.bare name {}) home t

def stepName (keyword : String) (outer : Outer) (t : Token) : Reading :=
  expectWord .tableName t fun text =>
    if spells text "distinct" then .atDistinct keyword text outer
    else .afterName text (.root ⟨keyword, none⟩ outer)

/-- Before a bracket or `as`, `distinct` was the name of a table. -/
def stepDistinct (limit : Nat) (keyword word : String) (outer : Outer) (t : Token) : Reading :=
  if t.opensBlock || t.isKeyword "as" then
    stepAfterName limit word (.root ⟨keyword, none⟩ outer) t
  else expectWord .tableName t fun name => .afterName name (.root ⟨keyword, some word⟩ outer)

def Block.relabel (block : Block) (keyword : String) : Reading :=
  match block.fields with
  | .column column :: rest => .ok (.atColumnLabel keyword column { block with fields := rest })
  | .subQuery select _ :: rest =>
    .ok (.atSubQueryLabel keyword select { block with fields := rest })
  | .relation table :: _ => .error (.labelAfterRelation table.name)
  | [] => .error (.labelWithoutField block.table.name)

def Block.nest (limit : Nat) (block : Block) (t : Token) : Reading :=
  match block.fields with
  | .column column :: rest =>
    openBlock limit (.bare column.name column.label) (.relation { block with fields := rest }) t
  | _ => .error (.namelessRelation block.table.name)

def Block.step (limit : Nat) (block : Block) (t : Token) : Reading :=
  match t with
  | .word text =>
    if spells text "as" then block.relabel text
    else .ok (.inBlock (block.push (.column ⟨text, {}⟩)))
  | _ =>
    if t.isSymbol block.closing then .ok (.afterBlock block.owner)
    else if t.isSymbol "," then .ok (.inBlock block)
    else if t.opensBlock then block.nest limit t
    else if t.isSymbol "(" then deeper limit block.depth (.ok (.atSelect (.field block)))
    else .error (.unexpected (.fields block.table.name) t)

def Outer.close (outer : Outer) (select : Select) (t : Token) : Reading :=
  match outer with
  | .top => .error (.trailingToken t)
  | .field block =>
    expectSymbol ")" (.subQueryEnd block.table.name) t
      (.ok (.inBlock (block.push (.subQuery select {}))))
  | .among slot subject negated keyword =>
    expectSymbol ")" (.amongEnd slot.site) t <|
      .ok (.afterCondition (slot.fill (.among (.ofWord keyword "in") subject negated select)) slot)

def Owner.close (limit : Nat) (owner : Owner) (t : Token) : Reading :=
  match owner.home with
  | .root head outer => outer.close (head.select owner.table) t
  | .relation block => (block.push (.relation owner.table)).step limit t

def Owner.begin (owner : Owner) (word : String) : Clause → State
  | .filter filter => .atCondition (.first (.clause filter word owner))
  | .groupBy => .atBy .group word owner
  | .orderBy => .atBy .order word owner
  | .page page => .atPage page word owner

def Owner.step (limit : Nat) (owner : Owner) (t : Token) : Reading :=
  match t with
  | .word text =>
    match Clause.ofWord? text with
    | some clause =>
      if owner.has clause then .error (.repeatedClause clause owner.table.name)
      else .ok (owner.begin text clause)
    | none => owner.close limit t
  | _ => owner.close limit t

def stepCondition (limit : Nat) (slot : Slot) (t : Token) : Reading :=
  match t with
  | .word text =>
    if slot.negation.isNone && spells text "not" then
      .ok (.atCondition { slot with negation := some text })
    else .ok (.atOperator text slot)
  | _ =>
    if t.isSymbol "(" then deeper limit slot.depth (.ok (.atCondition (.first (.paren slot))))
    else .error (.unexpected (.leftSide slot.site) t)

def isStructural (symbol : String) : Bool :=
  ["\x7b", "\x7d", "[", "]", "(", ")", ","].contains symbol

def stepOperator (left : String) (slot : Slot) (t : Token) : Reading :=
  match t with
  | .word text =>
    if spells text "not" then .ok (.atNegated left text slot)
    else
      match WordOperator.ofWord? text with
      | some .between => .ok (.atLow ⟨text, left, false⟩ slot)
      | some .among => .ok (.atAmong text left false slot)
      | some .like => .ok (.atRight left text slot)
      | none => .error (.unexpected (.operator slot.site) t)
  | .symbol text =>
    if isStructural text then .error (.unexpected (.operator slot.site) t)
    else .ok (.atRight left text slot)
  | .newline => .error (.unexpected (.operator slot.site) t)

/-- Only an operator written as a word can be negated; otherwise `not` itself is out of place. -/
def stepNegated (left negation : String) (slot : Slot) (t : Token) : Reading :=
  match t with
  | .word text =>
    match WordOperator.ofWord? text with
    | some .between => .ok (.atLow ⟨text, left, true⟩ slot)
    | some .among => .ok (.atAmong text left true slot)
    | some .like => .ok (.atRight left (negation ++ " " ++ text) slot)
    | none => .error (.unexpected (.operator slot.site) (.word negation))
  | _ => .error (.unexpected (.operator slot.site) (.word negation))

def Range.expr (range : Range) (low andKeyword high : String) : Expr :=
  .between (.ofWord range.keyword "between") range.subject range.negated
    (.ofWord andKeyword "and") low high

def Slot.close (limit : Nat) (slot : Slot) (last : Expr) (t : Token) : Reading :=
  match slot.frame with
  | .clause filter keyword owner =>
    (owner.setFilter filter ⟨.ofWord keyword filter.name, slot.chain last⟩).step limit t
  | .paren outer =>
    expectSymbol ")" (.parenEnd outer.site) t
      (.ok (.afterCondition (outer.fill (.paren (slot.chain last))) outer))

def stepAfterCondition (limit : Nat) (expr : Expr) (slot : Slot) (t : Token) : Reading :=
  match t with
  | .word text =>
    match Connective.ofWord? text with
    | some _ => deeper limit slot.depth (.ok (.atCondition (slot.link expr text)))
    | none => slot.close limit expr t
  | _ => slot.close limit expr t

def Listing.begin (keyword : String) (owner : Owner) : Listing → State
  | .group => .atGroupColumn ⟨keyword, [], owner⟩
  | .order => .atOrderColumn ⟨keyword, [], owner⟩

def stepGroupColumn (draft : GroupDraft) (t : Token) : Reading :=
  match t with
  | .word text => .ok (.afterGroupColumn { draft with columns := text :: draft.columns })
  | _ =>
    if draft.columns.isEmpty then .error (.emptyClause .groupBy draft.owner.table.name)
    else .error (.unexpected (.groupColumn draft.owner.table.name) t)

def stepAfterGroupColumn (limit : Nat) (draft : GroupDraft) (t : Token) : Reading :=
  if t.isSymbol "," then .ok (.atGroupColumn draft) else draft.close.step limit t

def stepOrderColumn (draft : OrderDraft) (t : Token) : Reading :=
  match t with
  | .word text => .ok (.afterOrderWord .named ⟨text, [], draft⟩)
  | _ =>
    if draft.entries.isEmpty then .error (.emptyClause .orderBy draft.owner.table.name)
    else .error (.unexpected (.orderColumn draft.owner.table.name) t)

/-- Modifiers come in a fixed order, and each of them may be left out. -/
def modifier? (stage : Stage) (draft : EntryDraft) (text : String) : Option State :=
  match stage with
  | .named =>
    if spells text "collate" then some (.atCollation (draft.push text))
    else if spells text "asc" || spells text "desc" then
      some (.afterOrderWord .directed (draft.push text))
    else none
  | .collated =>
    if spells text "asc" || spells text "desc" then
      some (.afterOrderWord .directed (draft.push text))
    else none
  | .directed => if spells text "nulls" then some (.atNullsPlace (draft.push text)) else none
  | .placed => none

def stepAfterOrderWord (limit : Nat) (stage : Stage) (draft : EntryDraft) (t : Token) : Reading :=
  match t with
  | .word text =>
    match modifier? stage draft text with
    | some next => .ok next
    | none => draft.close.close.step limit t
  | _ =>
    if t.isSymbol "," then .ok (.atOrderColumn draft.close) else draft.close.close.step limit t

def labelled (name keyword : String) : Label := ⟨some name, .ofWord keyword "as"⟩

def State.step (limit : Nat) (st : State) (t : Token) : Reading :=
  match st with
  | .atSelect outer => expectKeyword ["select"] .selectKeyword t (.atName · outer)
  | .atName keyword outer => stepName keyword outer t
  | .atDistinct keyword word outer => stepDistinct limit keyword word outer t
  | .afterName name home => stepAfterName limit name home t
  | .atTableLabel keyword name home =>
    expectWord (.tableLabel name) t fun text =>
      .atBlock (.bare name (labelled text keyword)) home
  | .atBlock table home => openBlock limit table home t
  | .inBlock block => block.step limit t
  | .atColumnLabel keyword column block =>
    expectWord (.columnLabel column.name) t fun text =>
      .inBlock (block.push (.column ⟨column.name, labelled text keyword⟩))
  | .atSubQueryLabel keyword select block =>
    expectWord (.subQueryLabel block.table.name) t fun text =>
      .inBlock (block.push (.subQuery select (labelled text keyword)))
  | .afterBlock owner => owner.step limit t
  | .atCondition slot => stepCondition limit slot t
  | .atOperator left slot => stepOperator left slot t
  | .atNegated left negation slot => stepNegated left negation slot t
  | .atRight left op slot =>
    expectWord (.rightSide slot.site) t fun text =>
      .afterCondition (slot.fill (.compare (.value left) op (.value text))) slot
  | .atLow range slot => expectWord (.lowerBound slot.site) t (.atAnd range · slot)
  | .atAnd range low slot =>
    expectKeyword ["and"] (.betweenAnd slot.site) t (.atHigh range low · slot)
  | .atHigh range low andKeyword slot =>
    expectWord (.upperBound slot.site) t fun text =>
      .afterCondition (slot.fill (range.expr low andKeyword text)) slot
  | .atAmong keyword subject negated slot =>
    expectSymbol "(" (.amongStart slot.site) t
      (deeper limit slot.depth (.ok (.atSelect (.among slot subject negated keyword))))
  | .afterCondition expr slot => stepAfterCondition limit expr slot t
  | .atBy listing word owner =>
    expectKeyword ["by"] (.byKeyword word owner.table.name) t fun text =>
      listing.begin (word ++ " " ++ text) owner
  | .atGroupColumn draft => stepGroupColumn draft t
  | .afterGroupColumn draft => stepAfterGroupColumn limit draft t
  | .atOrderColumn draft => stepOrderColumn draft t
  | .afterOrderWord stage draft => stepAfterOrderWord limit stage draft t
  | .atCollation draft =>
    expectWord (.collation draft.column) t fun text => .afterOrderWord .collated (draft.push text)
  | .atNullsPlace draft =>
    expectKeyword ["first", "last"] (.nullsPlace draft.column) t fun text =>
      .afterOrderWord .placed (draft.push text)
  | .atPage page keyword owner =>
    expectWord (.pageValue page owner.table.name) t fun text =>
      .afterBlock (owner.setPage page ⟨.ofWord keyword page.name, text⟩)

end BracketQuery
