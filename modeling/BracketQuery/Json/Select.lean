import BracketQuery.Json
import BracketQuery.Select

/-! The tree of a query as JSON. What is absent has no key. -/
namespace BracketQuery.Json

abbrev Members := List (String × Json)

def textMember (key : String) : Option String → Members
  | some text => [(key, .str text)]
  | none => []

def flagMember (key : String) (value : Bool) : Members := if value then [(key, .bool true)] else []

def labelMembers (label : Label) : Members :=
  textMember "alias" label.name ++ textMember "alias_keyword_text" label.keyword

def ofGroupBy (groupBy : GroupBy) : Json :=
  .obj (textMember "keyword_text" groupBy.keyword ++ [("fields", .arr (groupBy.columns.map .str))])

def ofOrderEntry (entry : OrderEntry) : Json :=
  .obj (("name", .str entry.column) :: textMember "order_modifiers" entry.modifiers)

def ofOrderBy (orderBy : OrderBy) : Json :=
  .obj (textMember "keyword_text" orderBy.keyword
    ++ [("fields", .arr (orderBy.entries.map ofOrderEntry))])

def ofPaging (paging : Paging) : Json :=
  .obj (textMember "keyword_text" paging.keyword ++ [("value", .str paging.value)])

def optionMember {α : Type} (key : String) (f : α → Json) : Option α → Members
  | some a => [(key, f a)]
  | none => []

def ofColumn (column : Column) : Json :=
  .obj ([("type", .str "column"), ("name", .str column.name)] ++ labelMembers column.label)

mutual

def ofSelect : Select → Json
  | ⟨keyword, distinct, distinctKeyword, table⟩ =>
    .obj (textMember "select_keyword_text" keyword ++ flagMember "distinct" distinct
      ++ textMember "distinct_keyword_text" distinctKeyword ++ [("table", .obj (ofTable table))])

def ofTable : Table → Members
  | ⟨name, label, single, fields, rowFilter, groupFilter, groupBy, orderBy, limit, offset⟩ =>
    ("name", .str name) :: labelMembers label
      ++ [("is_single", .bool single), ("fields", .arr (ofFields fields))]
      ++ conditionMember "where" rowFilter ++ conditionMember "having" groupFilter
      ++ optionMember "group_by" ofGroupBy groupBy ++ optionMember "order_by" ofOrderBy orderBy
      ++ optionMember "limit" ofPaging limit ++ optionMember "offset" ofPaging offset

def ofFields : List Field → List Json
  | [] => []
  | .column column :: rest => ofColumn column :: ofFields rest
  | .relation table :: rest => .obj (("type", .str "table") :: ofTable table) :: ofFields rest
  | .subQuery select label :: rest =>
    .obj ([("type", .str "subQuery"), ("select", ofSelect select)] ++ labelMembers label)
      :: ofFields rest

def conditionMember (key : String) : Option Condition → Members
  | none => []
  | some ⟨keyword, expr⟩ =>
    [(key, .obj (textMember "keyword_text" keyword ++ [("expr", ofExpr expr)]))]

def ofExpr : Expr → Json
  | .compare left op right =>
    .obj [("type", .str "compare"), ("left", ofOperand left), ("op", .str op),
      ("right", ofOperand right)]
  | .not keyword inner =>
    .obj (("type", .str "not") :: textMember "keyword_text" keyword ++ [("expr", ofExpr inner)])
  | .paren inner => .obj [("type", .str "parenthesis"), ("expr", ofExpr inner)]
  | .between keyword subject negated andKeyword low high =>
    .obj (("type", .str "between") :: textMember "keyword_text" keyword
      ++ [("expr", .str subject), ("negated", .bool negated)]
      ++ textMember "and_keyword_text" andKeyword ++ [("low", .str low), ("high", .str high)])
  | .among keyword subject negated select =>
    .obj (("type", .str "in") :: textMember "keyword_text" keyword
      ++ [("expr", .str subject), ("negated", .bool negated), ("select", ofSelect select)])

def ofOperand : Operand → Json
  | .value text => .str text
  | .expr expr => ofExpr expr

end

end BracketQuery.Json
