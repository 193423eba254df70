import BracketQuery.Proofs.PlainWord

/-! The tokens of a statement, put together as its text is but without a layout. The text of a plain
tree has just these tokens. -/
namespace BracketQuery.Sql

/- What tables add to a statement, as tokens. -/

structure ListedTokens where
  keyword : Spelling
  items : List (List Token)

structure ConditionTokens where
  keyword : Spelling
  tokens : List Token
  hasOr : Bool

structure TokenParts where
  columns : List (List Token) := []
  joins : List (List Token) := []
  rowFilters : List ConditionTokens := []
  groupFilters : List ConditionTokens := []
  groupings : List ListedTokens := []
  orderings : List ListedTokens := []
  limits : List Paging := []
  offsets : List Paging := []

instance : Append TokenParts where
  append p q :=
    { columns := p.columns ++ q.columns
      joins := p.joins ++ q.joins
      rowFilters := p.rowFilters ++ q.rowFilters
      groupFilters := p.groupFilters ++ q.groupFilters
      groupings := p.groupings ++ q.groupings
      orderings := p.orderings ++ q.orderings
      limits := p.limits ++ q.limits
      offsets := p.offsets ++ q.offsets }

def keywordTokens (casing : Casing) (written : Spelling) (canonical : String) : List Token :=
  wordTokens (casing.keyword written canonical)

def labelTokens (casing : Casing) (label : Label) : List Token :=
  match label.name with
  | some name => keywordTokens casing label.keyword "as" ++ [.word name]
  | none => []

def joinTokens (casing : Casing) (table : Table) (parent : String) : List Token :=
  wordTokens (casing.apply (if table.single then "inner join" else "left join")) ++
    [.word table.name] ++ labelTokens casing table.label ++ wordTokens (casing.apply "on") ++
    [.word (table.scope ++ ".id"), .symbol "=", .word (parent ++ "." ++ table.scope ++ "_id")]

def parenthesized (ts : List Token) : List Token := .symbol "(" :: ts ++ [.symbol ")"]

def notTokens (casing : Casing) (negated : Bool) : List Token :=
  if negated then wordTokens (casing.apply "not") else []

def modifierWord (casing : Casing) (word : String) : String :=
  if isOrderKeyword word then casing.word word else word

def entryTokens (casing : Casing) (scope : String) (entry : OrderEntry) : List Token :=
  .word (qualify entry.column scope) ::
    entry.modifiers.toList.flatMap fun m =>
      (Text.words m).map fun w => .word (modifierWord casing w)

def groupingTokens (scope : String) (groupBy : GroupBy) : ListedTokens :=
  ⟨groupBy.keyword, groupBy.columns.map fun c => [.word (qualify c scope)]⟩

def orderingTokens (casing : Casing) (scope : String) (orderBy : OrderBy) : ListedTokens :=
  ⟨orderBy.keyword, orderBy.entries.map (entryTokens casing scope)⟩

/- The sections of a statement. -/

def columnTokens (head : List Token) (columns : List (List Token)) : List Token :=
  head ++ if columns.isEmpty then [.word "*"] else separated columns

def ConditionTokens.among (several : Bool) (c : ConditionTokens) : List Token :=
  if several && c.hasOr then parenthesized c.tokens else c.tokens

def filterTokens (casing : Casing) (filter : Filter) : List ConditionTokens → List (List Token)
  | [] => []
  | first :: others =>
    [keywordTokens casing first.keyword filter.name ++
      (wordTokens (casing.apply "and")).intercalate
        ((first :: others).map (·.among !others.isEmpty))]

def listTokens (casing : Casing) (clause : Clause) : List ListedTokens → List (List Token)
  | [] => []
  | first :: others =>
    [keywordTokens casing first.keyword clause.name ++
      separated ((first :: others).flatMap (·.items))]

def pageTokens (casing : Casing) (page : Page) (paging : Paging) : List Token :=
  keywordTokens casing paging.keyword page.name ++ [.word paging.value]

def limitTokens (casing : Casing) (table : Table) (limits : List Paging) : List (List Token) :=
  if table.single && table.limit.isNone then [wordTokens (casing.apply "limit") ++ [.word "1"]]
  else limits.head?.toList.map (pageTokens casing .limit)

def offsetTokens (casing : Casing) (offsets : List Paging) : List (List Token) :=
  offsets.head?.toList.map (pageTokens casing .offset)

def sectionTokens (casing : Casing) (head : List Token) (table : Table) (parts : TokenParts) :
    List (List Token) :=
  [columnTokens head parts.columns,
    wordTokens (casing.apply "from") ++ [.word table.name] ++ labelTokens casing table.label]
    ++ parts.joins
    ++ filterTokens casing (.rows) parts.rowFilters
    ++ listTokens casing .groupBy parts.groupings
    ++ filterTokens casing .groups parts.groupFilters
    ++ listTokens casing .orderBy parts.orderings
    ++ limitTokens casing table parts.limits
    ++ offsetTokens casing parts.offsets

def selectHeadTokens (casing : Casing) (keyword : Spelling) (distinct : Bool)
    (distinctKeyword : Spelling) : List Token :=
  keywordTokens casing keyword "select" ++
    if distinct then keywordTokens casing distinctKeyword "distinct" else []

mutual

/-- The tokens of a statement. Nothing in them tells lines, indentation or alignment. -/
def selectTokens : Select → List Token
  | ⟨keyword, distinct, distinctKeyword, table⟩ =>
    let casing := Casing.ofSelect keyword
    (sectionTokens casing (selectHeadTokens casing keyword distinct distinctKeyword) table
      (tableTokens casing table)).flatten

def tableTokens (casing : Casing) : Table → TokenParts
  | ⟨name, label, _, fields, rowFilter, groupFilter, groupBy, orderBy, limit, offset⟩ =>
    { rowFilters := conditionTokens casing (label.over name) rowFilter
      groupFilters := conditionTokens casing (label.over name) groupFilter
      groupings := groupBy.toList.map (groupingTokens (label.over name))
      orderings := orderBy.toList.map (orderingTokens casing (label.over name))
      limits := limit.toList
      offsets := offset.toList : TokenParts } ++ fieldTokens casing (label.over name) fields

def fieldTokens (casing : Casing) (scope : String) : List Field → TokenParts
  | [] => {}
  | .column column :: rest =>
    { columns := [.word (qualify column.name scope) :: labelTokens casing column.label] :
        TokenParts } ++ fieldTokens casing scope rest
  | .relation table :: rest =>
    { joins := [joinTokens casing table scope] : TokenParts } ++ tableTokens casing table
      ++ fieldTokens casing scope rest
  | .subQuery select label :: rest =>
    { columns := [parenthesized (selectTokens select) ++ labelTokens casing label] : TokenParts }
      ++ fieldTokens casing scope rest

def conditionTokens (casing : Casing) (scope : String) : Option Condition → List ConditionTokens
  | none => []
  | some ⟨keyword, expr⟩ => [⟨keyword, exprTokens casing scope expr, expr.hasOr⟩]

def exprTokens (casing : Casing) (scope : String) : Expr → List Token
  | .compare left op right =>
    operandTokens casing scope left ++ operatorTokens (casing.word op) ++
      operandTokens casing scope right
  | .not keyword inner => keywordTokens casing keyword "not" ++ exprTokens casing scope inner
  | .paren inner => parenthesized (exprTokens casing scope inner)
  | .between keyword subject negated andKeyword low high =>
    [.word (qualify subject scope)] ++ notTokens casing negated ++
      keywordTokens casing keyword "between" ++ [.word (qualify low scope)] ++
      keywordTokens casing andKeyword "and" ++ [.word (qualify high scope)]
  | .among keyword subject negated select =>
    [.word (qualify subject scope)] ++ notTokens casing negated ++
      keywordTokens casing keyword "in" ++ parenthesized (selectTokens select)

def operandTokens (casing : Casing) (scope : String) : Operand → List Token
  | .value text => [.word (qualify text scope)]
  | .expr expr => exprTokens casing scope expr

end

end BracketQuery.Sql

namespace BracketQuery
open Token

/- Plain trees: the names are plain words, and the keywords and operators are known. -/

structure Label.Plain (l : Label) : Prop where
  name : ∀ n ∈ l.name, PlainWord n
  keyword : l.keyword.Fits "as"

structure GroupBy.Plain (g : GroupBy) : Prop where
  keyword : g.keyword.Fits "group by"
  columns : ∀ c ∈ g.columns, PlainWord c

/-- The modifiers are words that blanks keep apart. -/
structure OrderEntry.Plain (e : OrderEntry) : Prop where
  column : PlainWord e.column
  modifiers : ∀ m ∈ e.modifiers, ∃ ws : List String, m = " ".intercalate ws ∧
    Joinable (ws.map String.toList) ∧ ∀ w ∈ ws, w.toList.all isWordChar = true

structure OrderBy.Plain (o : OrderBy) : Prop where
  keyword : o.keyword.Fits "order by"
  entries : ∀ e ∈ o.entries, e.Plain

structure Paging.Plain (page : Page) (p : Paging) : Prop where
  keyword : p.keyword.Fits page.name
  value : PlainWord p.value

/-- An operator and what is right of it: a test for null tests for `null`. -/
inductive PlainOperator (op : String) : Operand → Prop
  | compare {right : Operand}
      (h : op ∈ comparisonSigns ∨ ∃ k ∈ wordOperators, spells op k = true) : PlainOperator op right
  | test {null : String} (h : spells op "is" = true ∨ spells op "is not" = true)
      (hnull : spells null "null" = true) : PlainOperator op (.value null)

mutual

def Select.Plain : Select → Prop
  | ⟨keyword, _, distinctKeyword, table⟩ =>
    keyword.Fits "select" ∧ distinctKeyword.Fits "distinct" ∧ Table.Plain table

def Table.Plain : Table → Prop
  | ⟨name, label, _, fields, rowFilter, groupFilter, groupBy, orderBy, limit, offset⟩ =>
    PlainWord name ∧ label.Plain ∧ FieldsPlain fields ∧ ConditionPlain .rows rowFilter ∧
      ConditionPlain .groups groupFilter ∧ (∀ g ∈ groupBy, g.Plain) ∧ (∀ o ∈ orderBy, o.Plain) ∧
      (∀ p ∈ limit, p.Plain .limit) ∧ (∀ p ∈ offset, p.Plain .offset)

def FieldsPlain : List Field → Prop
  | [] => True
  | .column column :: rest => PlainWord column.name ∧ column.label.Plain ∧ FieldsPlain rest
  | .relation table :: rest => Table.Plain table ∧ FieldsPlain rest
  | .subQuery select label :: rest => Select.Plain select ∧ label.Plain ∧ FieldsPlain rest

def ConditionPlain (filter : Filter) : Option Condition → Prop
  | none => True
  | some ⟨keyword, expr⟩ => keyword.Fits filter.name ∧ Expr.Plain expr

def Expr.Plain : Expr → Prop
  | .compare left op right => Operand.Plain left ∧ PlainOperator op right ∧ Operand.Plain right
  | .not keyword inner => keyword.Fits "not" ∧ Expr.Plain inner
  | .paren inner => Expr.Plain inner
  | .between keyword subject _ andKeyword low high =>
    keyword.Fits "between" ∧ andKeyword.Fits "and" ∧ PlainWord subject ∧ PlainWord low ∧
      PlainWord high
  | .among keyword subject _ select =>
    keyword.Fits "in" ∧ PlainWord subject ∧ Select.Plain select

def Operand.Plain : Operand → Prop
  | .value text => PlainWord text
  | .expr e => Expr.Plain e

end

theorem Label.Plain.over {l : Label} {name : String} (h : l.Plain) (hn : PlainWord name) :
    PlainWord (l.over name) := by
  unfold Label.over
  cases hl : l.name with
  | none => exact hn
  | some n => exact h.name n hl

theorem Table.Plain.named {t : Table} (h : t.Plain) : PlainWord t.name ∧ t.label.Plain := by
  cases t
  exact ⟨h.1, h.2.1⟩

namespace Sql

variable {casing : Casing} {scope : String}

theorem isWord_of_spells {w k : String} (hk : isLettered k = true) (h : spells w k = true) :
    IsWord w.toList := by
  have hsolid := solid_of_spells hk h
  simp only [isLettered, Bool.and_eq_true] at hk
  exact isWord_of_letters hsolid.ne_nil (isWordChar_of_folded hk.2 (beq_iff_eq.1 h))

theorem endsName_keyword {w k : String} (hk : isLettered k = true) (h : spells w k = true)
    (hn : (folded k.toList).head? ≠ some 'n') (next : List Char) :
    EndsName (' ' :: (w.toList ++ next)) := by
  refine endsName_word (isWord_of_spells hk h) (fun c hc he => hn ?_) next
  rw [toLower_first_of_spells h hc, he]

theorem labelText_before (casing : Casing) {label : Label} (h : label.Plain) :
    Before EndsName (labelText casing label) (labelTokens casing label) := by
  unfold labelText labelTokens
  cases hl : label.name with
  | none => exact .empty
  | some name =>
    have hkeyword := h.keyword.before casing (by decide)
    exact (Before.append (.gap (by decide)) hkeyword).blank.append (.name (h.name name hl).isWord)

theorem endsName_label (casing : Casing) {label : Label} (h : label.Plain) {next : List Char}
    (hn : EndsName next) : EndsName ((labelText casing label).toList ++ next) := by
  unfold labelText
  cases hl : label.name with
  | none => simpa using hn
  | some name =>
    have hs := h.keyword.spells casing (by decide)
    simpa using endsName_keyword (by decide) hs (by decide) (' ' :: (name.toList ++ next))

theorem named_before (casing : Casing) {s name : String} {ts : List Token} {label : Label}
    (h : Before Anything s ts) (hname : PlainWord name) (hlabel : label.Plain) :
    Before EndsName (s ++ name ++ labelText casing label)
      (ts ++ [.word name] ++ labelTokens casing label) :=
  (h.append (.name hname.isWord)).append_of (labelText_before casing hlabel) fun _ =>
    endsName_label casing hlabel

theorem id_before {scope : String} (h : PlainWord scope) :
    Before StopsWord (scope ++ ".id") [.word (scope ++ ".id")] := by
  have hid : Settled ['.', 'i', 'd'] := settled_letters (by decide)
  refine .dotted ?_ ?_ (by simp)
  · simpa using h.settled.append hid
  · simp [h.isWord.oneLine]

theorem foreignKey_before {parent scope : String} (hparent : PlainWord parent)
    (hscope : PlainWord scope) :
    Before StopsWord (parent ++ "." ++ scope ++ "_id")
      [.word (parent ++ "." ++ scope ++ "_id")] := by
  have hdot : Settled ['.'] := settled_letters (by decide)
  have hid : Settled ['_', 'i', 'd'] := settled_letters (by decide)
  refine .dotted ?_ ?_ (by simp)
  · simpa using ((hparent.settled.append hdot).append hscope.settled).append hid
  · simp [hscope.isWord.oneLine, hparent.isWord.oneLine]

theorem joinText_before (casing : Casing) {table : Table} {parent : String}
    (hname : PlainWord table.name) (hlabel : table.label.Plain) (hparent : PlainWord parent) :
    Before EndsName (joinText casing table parent) (joinTokens casing table parent) := by
  have hscope : PlainWord table.scope := hlabel.over hname
  have hkind : isPhrase (if table.single then "inner join" else "left join") = true := by
    split <;> decide
  have hspells : spells (casing.apply "on") "on" = true := by
    rw [casing.spells_apply (by decide)]
    decide
  have hon : Before StopsWord (" " ++ casing.apply "on") ([] ++ wordTokens (casing.apply "on")) :=
    Before.append (.gap (by decide)) (.applied casing (by decide))
  have hnamed := named_before casing (Before.applied casing hkind).blank hname hlabel
  have hleft := (hnamed.append_of hon fun next _ => by
    simpa using endsName_keyword (by decide) hspells (by decide) next).blank.append
      (id_before hscope)
  have hall := (hleft.blank.append (.sign (s := "=") (by decide))).append
    (foreignKey_before hparent hscope)
  have htext : joinText casing table parent = casing.apply
      (if table.single then "inner join" else "left join") ++ " " ++ table.name ++
      labelText casing table.label ++ (" " ++ casing.apply "on") ++ " " ++ (table.scope ++ ".id") ++
      " " ++ ("=" ++ " ") ++ (parent ++ "." ++ table.scope ++ "_id") := by
    refine String.toList_inj.1 ?_
    simp [joinText]
  rw [htext]
  refine Before.mono ?_ fun _ h => EndsName.stops h
  simpa [joinTokens] using hall

/- Entries to order by. -/

theorem folded_modifierWord (casing : Casing) (w : String) :
    folded (modifierWord casing w).toList = folded w.toList := by
  unfold modifierWord
  split
  · rename_i h
    obtain ⟨k, hk, hs⟩ := List.any_eq_true.1 h
    have hall : ∀ k ∈ ["collate", "asc", "desc", "nulls", "first", "last"],
        isAscii (String.ofList (folded k.toList)) = true := by decide
    have hsame := congrFun (casing.spells_word (isAscii_of_spells hs (hall k hk))) w
    simpa [spells] using hsame
  · rfl

theorem isWord_modifierWord (casing : Casing) {w : String} (h : IsWord w.toList) :
    IsWord (modifierWord casing w).toList := by
  by_cases hw : isOrderKeyword w = true
  · obtain ⟨k, hk, hs⟩ := List.any_eq_true.1 hw
    have hall : ∀ k ∈ ["collate", "asc", "desc", "nulls", "first", "last"],
        isLettered k = true := by decide
    refine isWord_of_spells (hall k hk) ?_
    rw [spells, folded_modifierWord]
    exact hs
  · rw [modifierWord, if_neg hw]
    exact h

theorem joinable_modifierWords (casing : Casing) {ws : List String}
    (h : Joinable (ws.map String.toList)) :
    Joinable ((ws.map (modifierWord casing)).map String.toList) := by
  induction ws with
  | nil => trivial
  | cons w ws ih =>
    cases ws with
    | nil => exact isWord_modifierWord casing h
    | cons v ws =>
      obtain ⟨hw, hcalm, hrest⟩ := h
      refine ⟨isWord_modifierWord casing hw, fun his c hc => ?_, ih hrest⟩
      have hhead := congrArg List.head? (folded_modifierWord casing v)
      rw [folded, folded, List.head?_map, List.head?_map, Option.mem_def.1 hc] at hhead
      obtain ⟨d, hd, he⟩ := Option.map_eq_some_iff.1 hhead.symm
      rw [← he]
      exact hcalm (by rwa [folded_modifierWord] at his) d hd

theorem modifierText_before (casing : Casing) {m : String} {ws : List String}
    (hm : m = " ".intercalate ws)
    (h : Joinable (ws.map String.toList)) (hw : ∀ w ∈ ws, w.toList.all isWordChar = true) :
    Before EndsName (modifierText casing m)
      ((Text.words m).map fun w => .word (modifierWord casing w)) := by
  have hword : ∀ w ∈ ws, IsWord w.toList := fun w hm =>
    h.isWord _ (List.mem_map.2 ⟨w, hm, rfl⟩)
  have hsolid : ∀ w ∈ ws, Text.Solid w := fun w hm => ⟨(hword w hm).ne_nil, fun c hc =>
    isBlank_of_isWordChar (List.all_eq_true.1 (hw w hm) c hc)⟩
  have hbefore := Before.join (P := EndsName) (joinable_modifierWords casing h) fun w hm => by
    obtain ⟨v, hv, rfl⟩ := List.mem_map.1 hm
    exact .name (isWord_modifierWord casing (hword v hv))
  rw [modifierText, hm, Text.words_join hsolid]
  show Before EndsName (" ".intercalate (ws.map (modifierWord casing))) _
  simpa [Function.comp_def] using hbefore

theorem orderText_before {e : OrderEntry} (h : e.Plain) (hscope : PlainWord scope) :
    Before EndsName (orderText casing scope e) (entryTokens casing scope e) := by
  have hcolumn := h.column.before_qualify hscope
  unfold orderText entryTokens
  cases hm : e.modifiers with
  | none => exact hcolumn.mono fun _ => EndsName.stops
  | some m =>
    obtain ⟨ws, rfl, hj, hw⟩ := h.modifiers m hm
    simpa using hcolumn.blank.append (modifierText_before casing rfl hj hw)

/- Formulas. -/

/-- In every layout the text of the formula gives the tokens. -/
def Formula.Flows (f : Formula) (ts : List Token) : Prop :=
  ∀ layout, Before StopsWord (f.sql layout) ts

namespace Formula.Flows

variable {f g : Formula} {ts us : List Token} {op : String}

theorem compare (hf : f.Flows ts) (hg : g.Flows us)
    (hop : op ∈ comparisonSigns ∨ ∃ k ∈ wordOperators, spells op k = true) :
    (Formula.binary f (casing.word op) g).Flows (ts ++ operatorTokens (casing.word op) ++ us) := by
  intro layout
  have hall (gap : String) (hgap : isGap gap = true) (hne : gap ≠ "") :=
    (((hf layout).apart hgap hne).append (.operator casing hop)).append (hg layout)
  have hline := hall " " (by decide) (by decide)
  cases layout with
  | inline => simpa only [Formula.sql, binaryText, String.append_assoc] using hline
  | aligned width =>
    cases hlink : Connective.ofWord? (casing.word op) with
    | none => simpa only [Formula.sql, binaryText, hlink, String.append_assoc] using hline
    | some c =>
      have hstart := hall _ (isGap_lineStart width (casing.word op)) (by simp [lineStart])
      simpa only [Formula.sql, binaryText, hlink, lineStart, Text.alignRight, String.append_assoc]
        using hstart

theorem test (casing : Casing) {null : String} (hf : f.Flows ts)
    (hop : spells op "is" = true ∨ spells op "is not" = true)
    (hnull : spells null "null" = true) :
    (Formula.binary f (casing.word op) (.text null)).Flows
      (ts ++ operatorTokens (casing.word op) ++ [.word null]) := by
  intro layout
  have hfree : Connective.ofWord? (casing.word op) = none := by
    rcases hop with h | h
    · have hs := spells_word_of_spells casing h (by decide)
      rw [Connective.ofWord?_congr (funext (spells_congr hs))]
      decide
    · have hs := spells_word_of_spells casing h (by decide)
      rw [Connective.ofWord?_congr (funext (spells_congr hs))]
      decide
  have h := (hf layout).blank.append (.test casing hop hnull)
  cases layout <;> simpa [Formula.sql, binaryText, hfree, String.append_assoc] using h

theorem not {keyword : String} (hf : f.Flows ts) (hk : Before StopsWord keyword us) :
    (Formula.not keyword f).Flows (us ++ ts) := fun layout => hk.blank.append (hf layout)

theorem paren (hf : f.Flows ts) : (Formula.paren f).Flows (parenthesized ts) :=
  fun _ => (hf .inline).paren

end Formula.Flows

/- What tables add, in texts and in tokens. -/

structure Restriction.Flows (filter : Filter) (r : Restriction) (c : ConditionTokens) : Prop where
  keyword : r.keyword = c.keyword
  fits : r.keyword.Fits filter.name
  hasOr : r.hasOr = c.hasOr
  formula : r.formula.Flows c.tokens

structure Listed.Flows (clause : Clause) (l : Listed) (t : ListedTokens) : Prop where
  keyword : l.keyword = t.keyword
  fits : l.keyword.Fits clause.name
  items : List.Forall₂ (Before EndsName) l.items t.items

structure Parts.Flows (p : Parts) (q : TokenParts) : Prop where
  columns : List.Forall₂ (Before EndsName) p.columns q.columns := by exact .nil
  joins : List.Forall₂ (Before EndsName) p.joins q.joins := by exact .nil
  rowFilters : List.Forall₂ (Restriction.Flows .rows) p.rowFilters q.rowFilters := by exact .nil
  groupFilters : List.Forall₂ (Restriction.Flows .groups) p.groupFilters q.groupFilters := by
    exact .nil
  groupings : List.Forall₂ (Listed.Flows .groupBy) p.groupings q.groupings := by exact .nil
  orderings : List.Forall₂ (Listed.Flows .orderBy) p.orderings q.orderings := by exact .nil
  limits : p.limits = q.limits := by rfl
  plainLimits : ∀ x ∈ p.limits, x.Plain .limit := by simp
  offsets : p.offsets = q.offsets := by rfl
  plainOffsets : ∀ x ∈ p.offsets, x.Plain .offset := by simp

theorem Parts.Flows.append {p p' : Parts} {q q' : TokenParts} (h : p.Flows q) (h' : p'.Flows q') :
    (p ++ p').Flows (q ++ q') where
  columns := List.rel_append h.columns h'.columns
  joins := List.rel_append h.joins h'.joins
  rowFilters := List.rel_append h.rowFilters h'.rowFilters
  groupFilters := List.rel_append h.groupFilters h'.groupFilters
  groupings := List.rel_append h.groupings h'.groupings
  orderings := List.rel_append h.orderings h'.orderings
  limits := congrArg₂ (· ++ ·) h.limits h'.limits
  plainLimits := List.forall_mem_append.2 ⟨h.plainLimits, h'.plainLimits⟩
  offsets := congrArg₂ (· ++ ·) h.offsets h'.offsets
  plainOffsets := List.forall_mem_append.2 ⟨h.plainOffsets, h'.plainOffsets⟩

/- Sections. -/

theorem headText_before (casing : Casing) {keyword distinctKeyword : Spelling}
    (h : keyword.Fits "select")
    (hd : distinctKeyword.Fits "distinct") (distinct : Bool) :
    Before StopsWord (headText casing keyword distinct distinctKeyword)
      (selectHeadTokens casing keyword distinct distinctKeyword) := by
  have hk := h.before casing (by decide)
  unfold headText selectHeadTokens
  cases distinct with
  | false => simpa [keywordTokens] using hk
  | true =>
    have hboth := hk.blank.append (hd.before casing (by decide))
    simpa [keywordTokens, String.append_assoc] using hboth

theorem columnSection_before {head : String} {ts : List Token} {columns : List String}
    {parts : List (List Token)} (hhead : Before StopsWord head ts)
    (h : List.Forall₂ (Before EndsName) columns parts) :
    Before EndsName (columnSection head columns) (columnTokens ts parts) := by
  have hfront : Before Anything (head ++ "\n  ") ts := hhead.apart (by decide) (by decide)
  refine hfront.append ?_
  cases h with
  | nil => exact .name (isWord_of_letters (by decide) (List.all_eq_true.1 (by decide)))
  | @cons c p cs ps hc hcs =>
    have hsep : Before Anything "\n, " [.comma] :=
      ((Before.gap (s := "\n") (by decide)).append .comma).append (.gap (s := " ") (by decide))
    have hlist := hsep.intercalate (P := EndsName) (fun next => endsName_feed _) (.cons hc hcs)
    simpa [separated] using hlist

theorem Restriction.Flows.before {filter : Filter} {r : Restriction} {c : ConditionTokens}
    (h : r.Flows filter c) (width : Nat) (several : Bool) :
    Before StopsWord (r.sql width several) (c.among several) := by
  unfold Restriction.sql ConditionTokens.among
  rw [h.hasOr]
  split
  · exact h.formula.paren .inline
  · exact h.formula (.aligned width)

theorem filterSection_before (casing : Casing) {filter : Filter} {rs : List Restriction}
    {cs : List ConditionTokens} (h : List.Forall₂ (Restriction.Flows filter) rs cs) :
    List.Forall₂ (Before EndsName) (filterSection casing filter rs)
      (filterTokens casing filter cs) := by
  cases h with
  | nil => exact .nil
  | @cons r c rs cs hr hrest =>
    refine .cons ?_ .nil
    have hphrase : isPhrase filter.name = true := by cases filter <;> decide
    have hkeyword := (hr.fits.before casing hphrase).blank
    have hempty : rs.isEmpty = cs.isEmpty := by cases hrest <;> rfl
    let width := (casing.keyword r.keyword filter.name).length
    have hsep : Before Anything ("\n" ++ Text.alignRight width (casing.apply "and") ++ " ")
        (wordTokens (casing.apply "and")) := by
      have hgap : Before Anything (lineStart width (casing.apply "and")) [] :=
        .gap (isGap_lineStart _ _)
      have hand : Before StopsWord (casing.apply "and") (wordTokens (casing.apply "and")) :=
        .applied casing (by decide)
      simpa [lineStart, Text.alignRight, String.append_assoc] using (hgap.append hand).blank
    have hbodies : List.Forall₂ (Before StopsWord) ((r :: rs).map (·.sql width !rs.isEmpty))
        ((c :: cs).map (·.among !cs.isEmpty)) := by
      rw [List.forall₂_map_left_iff, List.forall₂_map_right_iff, hempty]
      exact (List.Forall₂.cons hr hrest).imp fun _ _ h => h.before width _
    have hbody := Before.intercalate hsep (fun next => ?_) hbodies
    · have hsection := hkeyword.append hbody
      rw [← hr.keyword]
      exact hsection.mono fun _ => EndsName.stops
    · rw [String.append_assoc, String.toList_append, List.append_assoc]
      exact stopsWord_gap (by decide) (by decide) _

theorem listSection_before (casing : Casing) {clause : Clause}
    (hclause : isPhrase clause.name = true) {ls : List Listed} {ts : List ListedTokens}
    (h : List.Forall₂ (Listed.Flows clause) ls ts) :
    List.Forall₂ (Before EndsName) (listSection casing clause ls)
      (listTokens casing clause ts) := by
  have hitems : List.Forall₂ (Before EndsName) (ls.flatMap (·.items)) (ts.flatMap (·.items)) := by
    induction h with
    | nil => exact .nil
    | cons hl _ ih => exact List.rel_append hl.items ih
  cases h with
  | nil => exact .nil
  | @cons l t ls ts hl hrest =>
    refine .cons ?_ .nil
    have hsep : Before Anything ", " [.comma] := Before.comma.append (.gap (s := " ") (by decide))
    have hlist := Before.intercalate hsep (fun next => endsName_comma _) hitems
    rw [← hl.keyword]
    exact (hl.fits.before casing hclause).blank.append hlist

theorem pageText_before {page : Page} {p : Paging} (h : p.Plain page) :
    Before EndsName (pageText casing page p) (pageTokens casing page p) := by
  have hphrase : isPhrase page.name = true := by cases page <;> decide
  exact (h.keyword.before casing hphrase).blank.append (.name h.value.isWord)

theorem pages_before (casing : Casing) {page : Page} {ps : List Paging}
    (h : ∀ p ∈ ps, p.Plain page) :
    List.Forall₂ (Before EndsName) (ps.head?.toList.map (pageText casing page))
      (ps.head?.toList.map (pageTokens casing page)) := by
  cases ps with
  | nil => exact .nil
  | cons p ps => exact .cons (pageText_before (h p (by simp))) .nil

theorem limitSection_before (casing : Casing) {table : Table} {limits : List Paging}
    (h : ∀ p ∈ limits, p.Plain .limit) :
    List.Forall₂ (Before EndsName) (limitSection casing table limits)
      (limitTokens casing table limits) := by
  unfold limitSection limitTokens
  split
  · have hone : Before EndsName "1" [.word "1"] :=
      .name (isWord_of_letters (by decide) (List.all_eq_true.1 (by decide)))
    have hlimit : Before StopsWord (casing.apply "limit") (wordTokens (casing.apply "limit")) :=
      .applied casing (by decide)
    have hall := hlimit.blank.append hone
    rw [String.append_assoc] at hall
    exact .cons hall .nil
  · exact pages_before casing h

theorem sections_before {head : String} {ts : List Token} {table : Table} {p : Parts}
    {q : TokenParts} (hhead : Before StopsWord head ts) (hname : PlainWord table.name)
    (hlabel : table.label.Plain) (h : p.Flows q) :
    List.Forall₂ (Before EndsName) (sections casing head table p)
      (sectionTokens casing ts table q) := by
  have hkeyword : Before StopsWord (casing.apply "from") (wordTokens (casing.apply "from")) :=
    .applied casing (by decide)
  have hfrom := named_before casing hkeyword.blank hname hlabel
  have hpages : List.Forall₂ (Before EndsName) (offsetSection casing p.offsets)
      (offsetTokens casing q.offsets) := by
    rw [← h.offsets]
    exact pages_before casing h.plainOffsets
  have hlimits : List.Forall₂ (Before EndsName) (limitSection casing table p.limits)
      (limitTokens casing table q.limits) := by
    rw [← h.limits]
    exact limitSection_before casing h.plainLimits
  have hfront := List.rel_append
    (.cons (columnSection_before hhead h.columns) (.cons hfrom .nil)) h.joins
  have hrows := List.rel_append hfront (filterSection_before casing h.rowFilters)
  have hgroups := List.rel_append hrows (listSection_before casing (by decide) h.groupings)
  have hfilters := List.rel_append hgroups (filterSection_before casing h.groupFilters)
  have horder := List.rel_append hfilters (listSection_before casing (by decide) h.orderings)
  exact List.rel_append (List.rel_append horder hlimits) hpages

theorem statementText_before {texts : List String} {parts : List (List Token)}
    (h : List.Forall₂ (Before EndsName) texts parts) :
    Before Anything (statementText texts) parts.flatten := by
  refine Before.append (.gap (by decide) : Before Anything _ []) ?_
  induction h with
  | nil => exact .empty
  | cons hs _ ih =>
    have hline := hs.append_of (.gap (s := "\n") (by decide)) fun next (_ : Anything next) =>
      endsName_feed next
    rw [List.append_nil] at hline
    simpa using hline.append ih

theorem nestedText_before {P : List Char → Prop} {sql : String} {ts : List Token}
    (h : Before Anything sql ts) : Before P (nestedText sql) (parenthesized ts) :=
  (h.indent.mono fun _ _ => trivial).paren

/- Trees. -/

theorem negationText_before (casing : Casing) (negated : Bool) :
    Before Anything (negationText casing negated) (notTokens casing negated) := by
  cases negated with
  | false => exact .empty
  | true => exact (Before.applied casing (by decide)).blank

theorem isLiteralText_null {w : String} (h : spells w "null" = true) :
    isLiteralText w.toList = true := by
  have hf : folded w.toList = "null".toList := beq_iff_eq.1 h
  simp [isLiteralText, hf]

theorem grouping_flows {g : GroupBy} (h : g.Plain) (hscope : PlainWord scope) :
    Listed.Flows .groupBy (grouping scope g) (groupingTokens scope g) where
  keyword := rfl
  fits := h.keyword
  items := by
    simp only [grouping, groupingTokens, List.forall₂_map_left_iff, List.forall₂_map_right_iff,
      List.forall₂_same]
    exact fun c hc => ((h.columns c hc).before_qualify hscope).mono fun _ => EndsName.stops

theorem ordering_flows {o : OrderBy} (h : o.Plain) (hscope : PlainWord scope) :
    Listed.Flows .orderBy (ordering casing scope o) (orderingTokens casing scope o) where
  keyword := rfl
  fits := h.keyword
  items := by
    simp only [ordering, orderingTokens, List.forall₂_map_left_iff, List.forall₂_map_right_iff,
      List.forall₂_same]
    exact fun e he => orderText_before (h.entries e he) hscope

theorem forall₂_option {α β γ : Type} {R : β → γ → Prop} {f : α → β} {g : α → γ} {o : Option α}
    (h : ∀ a ∈ o, R (f a) (g a)) : List.Forall₂ R (o.toList.map f) (o.toList.map g) := by
  cases o with
  | none => exact .nil
  | some a => exact .cons (h a rfl) .nil

mutual

theorem select_before : (s : Select) → s.Plain → Before Anything (ofSelect s) (selectTokens s)
  | ⟨keyword, distinct, distinctKeyword, table⟩, h => by
    obtain ⟨hkeyword, hdistinct, htable⟩ := h
    have hhead := headText_before (.ofSelect keyword) hkeyword hdistinct distinct
    have hparts := table_flows (.ofSelect keyword) table htable
    exact statementText_before (sections_before hhead htable.named.1 htable.named.2 hparts)

theorem table_flows (casing : Casing) : (t : Table) → t.Plain →
    (tableParts casing t).Flows (tableTokens casing t)
  | ⟨name, label, single, fields, rowFilter, groupFilter, groupBy, orderBy, limit, offset⟩, h => by
    obtain ⟨hname, hlabel, hfields, hrows, hgroups, hgroup, horder, hlimit, hoffset⟩ := h
    have hscope : PlainWord (label.over name) := hlabel.over hname
    refine Parts.Flows.append
      { rowFilters := condition_flows casing hscope .rows rowFilter hrows
        groupFilters := condition_flows casing hscope .groups groupFilter hgroups
        groupings := forall₂_option fun g hg => grouping_flows (hgroup g hg) hscope
        orderings := forall₂_option fun o ho => ordering_flows (horder o ho) hscope
        plainLimits := fun p hp => hlimit p (by simpa using hp)
        plainOffsets := fun p hp => hoffset p (by simpa using hp) } ?_
    exact fields_flows casing hscope fields hfields

theorem fields_flows (casing : Casing) {scope : String} (hscope : PlainWord scope) :
    (fs : List Field) → FieldsPlain fs →
      (fieldParts casing scope fs).Flows (fieldTokens casing scope fs)
  | [], _ => { plainLimits := by simp [fieldParts], plainOffsets := by simp [fieldParts] }
  | .column c :: rest, h => by
    obtain ⟨hname, hlabel, hrest⟩ := h
    have hcolumn := (hname.before_qualify hscope).append_of (labelText_before casing hlabel)
      fun _ hn => (endsName_label casing hlabel hn).stops
    exact Parts.Flows.append { columns := .cons hcolumn .nil }
      (fields_flows casing hscope rest hrest)
  | .relation table :: rest, h => by
    obtain ⟨htable, hrest⟩ := h
    have hparts := table_flows casing table htable
    have hjoin := joinText_before casing htable.named.1 htable.named.2 hscope
    exact (Parts.Flows.append { joins := .cons hjoin .nil } hparts).append
      (fields_flows casing hscope rest hrest)
  | .subQuery select label :: rest, h => by
    obtain ⟨hselect, hlabel, hrest⟩ := h
    have hcolumn := (nestedText_before (select_before select hselect)).append
      (labelText_before casing hlabel)
    exact Parts.Flows.append { columns := .cons hcolumn .nil }
      (fields_flows casing hscope rest hrest)

theorem condition_flows (casing : Casing) {scope : String} (hscope : PlainWord scope)
    (filter : Filter) : (c : Option Condition) → ConditionPlain filter c →
      List.Forall₂ (Restriction.Flows filter) (restriction casing scope c)
        (conditionTokens casing scope c)
  | none, _ => .nil
  | some ⟨_, expr⟩, h =>
    .cons ⟨rfl, h.1, rfl, expr_flows casing hscope expr h.2⟩ .nil

theorem expr_flows (casing : Casing) {scope : String} (hscope : PlainWord scope) :
    (e : Expr) → e.Plain → (formula casing scope e).Flows (exprTokens casing scope e)
  | .compare left op right, h => by
    obtain ⟨hleft, hop, hright⟩ := h
    have hl := operand_flows casing hscope left hleft
    cases hop with
    | compare hop => exact hl.compare (operand_flows casing hscope right hright) hop
    | @test null hop hnull =>
      have htest := hl.test casing hop hnull
      rwa [← qualify_literal (isLiteralText_null hnull) scope] at htest
  | .not keyword inner, h =>
    (expr_flows casing hscope inner h.2).not (h.1.before casing (by decide))
  | .paren inner, h => (expr_flows casing hscope inner h).paren
  | .between keyword subject negated andKeyword low high, h => by
    obtain ⟨hkeyword, hand, hsubject, hlow, hhigh⟩ := h
    intro layout
    have hfront := (hsubject.before_qualify hscope).blank.append
      (negationText_before casing negated)
    have hmiddle := (hfront.append (hkeyword.before casing (by decide))).blank.append
      (hlow.before_qualify hscope)
    exact (hmiddle.blank.append (hand.before casing (by decide))).blank.append
      (hhigh.before_qualify hscope)
  | .among keyword subject negated select, h => by
    obtain ⟨hkeyword, hsubject, hselect⟩ := h
    intro layout
    have hfront := (hsubject.before_qualify hscope).blank.append
      (negationText_before casing negated)
    exact (hfront.append (hkeyword.before casing (by decide))).blank.append
      (nestedText_before (select_before select hselect))

theorem operand_flows (casing : Casing) {scope : String} (hscope : PlainWord scope) :
    (o : Operand) → o.Plain → (operandFormula casing scope o).Flows (operandTokens casing scope o)
  | .value _, h => fun _ => PlainWord.before_qualify h hscope
  | .expr e, h => expr_flows casing hscope e h

end

end Sql

end BracketQuery
