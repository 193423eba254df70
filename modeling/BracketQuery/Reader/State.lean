import BracketQuery.Reader.Context

/-! What the reader of a query knows between two tokens: the construct it is in and what may come
next there. -/
namespace BracketQuery

inductive WordOperator where
  | between | among | like
deriving DecidableEq

def WordOperator.ofWord? (word : String) : Option WordOperator :=
  if spells word "between" then some .between
  else if spells word "in" then some .among
  else if ["like", "ilike", "glob", "regexp"].any (spells word) then some .like
  else none

inductive Listing where
  | group | order

/-- The start of a `between`: its keyword, what it tests and whether it is negated. -/
structure Range where
  keyword : String
  subject : String
  negated : Bool

/-- A `group by` being read; the column read last comes first. -/
structure GroupDraft where
  keyword : String
  columns : List String
  owner : Owner

def GroupDraft.close (draft : GroupDraft) : Owner :=
  draft.owner.setGroupBy ⟨.ofWord draft.keyword "group by", draft.columns.reverse⟩

/-- An `order by` being read; the entry read last comes first. -/
structure OrderDraft where
  keyword : String
  entries : List OrderEntry
  owner : Owner

def OrderDraft.close (draft : OrderDraft) : Owner :=
  draft.owner.setOrderBy ⟨.ofWord draft.keyword "order by", draft.entries.reverse⟩

/-- An entry of an `order by` being read; the modifier read last comes first. -/
structure EntryDraft where
  column : String
  modifiers : List String
  order : OrderDraft

def EntryDraft.push (draft : EntryDraft) (word : String) : EntryDraft :=
  { draft with modifiers := word :: draft.modifiers }

def EntryDraft.modifierText (draft : EntryDraft) : Option String :=
  if draft.modifiers.isEmpty then none else some (" ".intercalate draft.modifiers.reverse)

def EntryDraft.close (draft : EntryDraft) : OrderDraft :=
  { draft.order with entries := ⟨draft.column, draft.modifierText⟩ :: draft.order.entries }

/-- How far the modifiers of an entry have come. -/
inductive Stage where
  | named | collated | directed | placed

inductive State where
  | atSelect (outer : Outer)
  | atName (keyword : String) (outer : Outer)
  | atDistinct (keyword word : String) (outer : Outer)
  | afterName (name : String) (home : Home)
  | atTableLabel (keyword name : String) (home : Home)
  | atBlock (table : Table) (home : Home)
  | inBlock (block : Block)
  | atColumnLabel (keyword : String) (column : Column) (block : Block)
  | atSubQueryLabel (keyword : String) (select : Select) (block : Block)
  | afterBlock (owner : Owner)
  | atCondition (slot : Slot)
  | atOperator (left : String) (slot : Slot)
  | atNegated (left negation : String) (slot : Slot)
  | atRight (left op : String) (slot : Slot)
  | atLow (range : Range) (slot : Slot)
  | atAnd (range : Range) (low : String) (slot : Slot)
  | atHigh (range : Range) (low andKeyword : String) (slot : Slot)
  | atAmong (keyword subject : String) (negated : Bool) (slot : Slot)
  | afterCondition (expr : Expr) (slot : Slot)
  | atBy (listing : Listing) (word : String) (owner : Owner)
  | atGroupColumn (draft : GroupDraft)
  | afterGroupColumn (draft : GroupDraft)
  | atOrderColumn (draft : OrderDraft)
  | afterOrderWord (stage : Stage) (draft : EntryDraft)
  | atCollation (draft : EntryDraft)
  | atNullsPlace (draft : EntryDraft)
  | atPage (page : Page) (keyword : String) (owner : Owner)

def State.start : State := .atSelect .top

end BracketQuery
