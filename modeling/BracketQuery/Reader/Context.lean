import BracketQuery.Reader.Error
import BracketQuery.Select

/-! Open constructs. While a query is read, each construct that has begun and not ended is kept
together with what it goes back to when it ends, so the innermost one holds all the others. -/
namespace BracketQuery

/-- The start of a select, up to its table. -/
structure Head where
  keyword : String
  distinct : Option String := none

def Head.select (head : Head) (table : Table) : Select where
  keyword := .ofWord head.keyword "select"
  distinct := head.distinct.isSome
  distinctKeyword := head.distinct.bind (Spelling.ofWord · "distinct")
  table := table

mutual

/-- What a select goes back to. -/
inductive Outer where
  | top
  | field (block : Block)
  | among (slot : Slot) (subject : String) (negated : Bool) (keyword : String)

/-- What a table goes back to. -/
inductive Home where
  | root (head : Head) (outer : Outer)
  | relation (block : Block)

/-- A field block; the field read last comes first. -/
structure Block where
  table : Table
  fields : List Field
  home : Home

/-- A table whose field block has ended: its clauses follow. -/
structure Owner where
  table : Table
  home : Home

/-- The place of one condition in a chain: its `not`, and the links before it, last one first. -/
structure Slot where
  negation : Option String
  links : List (Expr × String)
  frame : Frame

/-- What a chain of conditions goes back to. -/
inductive Frame where
  | clause (filter : Filter) (keyword : String) (owner : Owner)
  | paren (slot : Slot)

end

/- A field block, a sub-query, a list to be `in`, a parenthesis and a link of a chain each lie one
   level deeper than what is around them. A link keeps its level until its chain ends. -/
mutual

def Outer.depth : Outer → Nat
  | .top => 0
  | .field block => block.depth + 1
  | .among slot _ _ _ => slot.depth + 1

def Home.depth : Home → Nat
  | .root _ outer => outer.depth
  | .relation block => block.depth

def Block.depth : Block → Nat
  | ⟨_, _, home⟩ => home.depth + 1

def Owner.depth : Owner → Nat
  | ⟨_, home⟩ => home.depth + 1

def Slot.depth : Slot → Nat
  | ⟨_, links, frame⟩ => frame.depth + links.length

def Frame.depth : Frame → Nat
  | .clause _ _ owner => owner.depth
  | .paren slot => slot.depth + 1

end

mutual

def Slot.site : Slot → Site
  | ⟨_, _, frame⟩ => frame.site

def Frame.site : Frame → Site
  | .clause filter _ owner => ⟨filter, owner.table.name⟩
  | .paren slot => slot.site

end

namespace Block

def push (block : Block) (field : Field) : Block :=
  { block with fields := field :: block.fields }

def closing (block : Block) : String := closeBracket block.table.single

def owner (block : Block) : Owner :=
  ⟨{ block.table with fields := block.fields.reverse }, block.home⟩

end Block

namespace Owner

def has (owner : Owner) : Clause → Bool
  | .filter .rows => owner.table.rowFilter.isSome
  | .filter .groups => owner.table.groupFilter.isSome
  | .groupBy => owner.table.groupBy.isSome
  | .orderBy => owner.table.orderBy.isSome
  | .page .limit => owner.table.limit.isSome
  | .page .offset => owner.table.offset.isSome

def setFilter (owner : Owner) (filter : Filter) (condition : Condition) : Owner :=
  match filter with
  | .rows => { owner with table := { owner.table with rowFilter := some condition } }
  | .groups => { owner with table := { owner.table with groupFilter := some condition } }

def setGroupBy (owner : Owner) (groupBy : GroupBy) : Owner :=
  { owner with table := { owner.table with groupBy := some groupBy } }

def setOrderBy (owner : Owner) (orderBy : OrderBy) : Owner :=
  { owner with table := { owner.table with orderBy := some orderBy } }

def setPage (owner : Owner) (page : Page) (paging : Paging) : Owner :=
  match page with
  | .limit => { owner with table := { owner.table with limit := some paging } }
  | .offset => { owner with table := { owner.table with offset := some paging } }

end Owner

namespace Slot

def first (frame : Frame) : Slot := ⟨none, [], frame⟩

def link (slot : Slot) (left : Expr) (op : String) : Slot :=
  ⟨none, (left, op) :: slot.links, slot.frame⟩

/-- The condition that fills the slot, under the slot's `not` if it has one. -/
def fill (slot : Slot) (expr : Expr) : Expr :=
  match slot.negation with
  | some word => .not (.ofWord word "not") expr
  | none => expr

/-- The whole chain, once its last condition is known. -/
def chain (slot : Slot) (last : Expr) : Expr :=
  slot.links.foldl (fun right left => .link left.1 left.2 right) last

end Slot

end BracketQuery
