import BracketQuery.Proofs.Gather

/-! The sections of a statement and their wording. An entry is made of words with one blank between
them. The entries of a section come from the tables of the select, in the order of their places, and
nothing comes from the selects nested in it. -/
namespace BracketQuery

/- How entries are worded. -/

def Label.words (casing : Sql.Casing) (label : Label) : List String :=
  label.name.toList.flatMap fun name => [casing.keyword label.keyword "as", name]

def negationWords (casing : Sql.Casing) (negated : Bool) : List String :=
  if negated then [casing.apply "not"] else []

/-- An operator between its operands. A connective begins a line if it has to end in a column. -/
def operatorText (column : Option Nat) (op : String) : String :=
  match column, Connective.ofWord? op with
  | some n, some _ => Sql.lineStart n op ++ op ++ " "
  | _, _ => " " ++ op ++ " "

mutual

def Expr.wording (casing : Sql.Casing) (scope : String) (column : Option Nat) : Expr → String
  | .compare left op right =>
    Operand.wording casing scope column left ++ operatorText column (casing.word op) ++
      Operand.wording casing scope column right
  | .not keyword inner =>
    casing.keyword keyword "not" ++ " " ++ Expr.wording casing scope column inner
  | .paren inner => "(" ++ Expr.wording casing scope none inner ++ ")"
  | .between keyword subject negated andKeyword low high =>
    " ".intercalate ([Sql.qualify subject scope] ++ negationWords casing negated ++
      [casing.keyword keyword "between", Sql.qualify low scope,
        casing.keyword andKeyword "and", Sql.qualify high scope])
  | .among keyword subject negated select =>
    " ".intercalate ([Sql.qualify subject scope] ++ negationWords casing negated ++
      [casing.keyword keyword "in", "(" ++ Text.indent select.render ++ ")"])

def Operand.wording (casing : Sql.Casing) (scope : String) (column : Option Nat) : Operand → String
  | .value text => Sql.qualify text scope
  | .expr e => Expr.wording casing scope column e

end

/-- Among several conditions, one with `or` stands in parentheses. -/
def Condition.wording (casing : Sql.Casing) (scope : String) (column : Nat) (several : Bool)
    (c : Condition) : String :=
  if several && c.expr.hasOr then "(" ++ c.expr.wording casing scope none ++ ")"
  else c.expr.wording casing scope (some column)

def OrderEntry.wording (casing : Sql.Casing) (scope : String) (entry : OrderEntry) : String :=
  " ".intercalate (Sql.qualify entry.column scope :: entry.modifiers.toList.map fun modifiers =>
    " ".intercalate ((Text.words modifiers).map fun word =>
      if ["collate", "asc", "desc", "nulls", "first", "last"].any (spells word)
      then casing.word word else word))

def Field.columnWording? (casing : Sql.Casing) (scope : String) : Field → Option String
  | .column c => some (" ".intercalate (Sql.qualify c.name scope :: c.label.words casing))
  | .subQuery select label =>
    some (" ".intercalate (("(" ++ Text.indent select.render ++ ")") :: label.words casing))
  | .relation _ => none

/-- The line that joins a relation to the table it is declared in. -/
def Field.joinWording? (casing : Sql.Casing) (parent : String) : Field → Option String
  | .relation u =>
    some (" ".intercalate (
      [casing.apply (if u.single then "inner join" else "left join"), u.name] ++
        u.label.words casing ++
        [casing.apply "on", u.scope ++ ".id = " ++ parent ++ "." ++ u.scope ++ "_id"]))
  | _ => none

namespace Sql

variable (casing : Casing)

theorem labelText_words (word : String) (label : Label) :
    " ".intercalate (word :: label.words casing) = word ++ labelText casing label := by
  cases h : label.name <;> simp [Label.words, labelText, h, String.append_assoc]

theorem intercalate_negationWords (subject : String) (negated : Bool) (word : String)
    (words : List String) :
    " ".intercalate ([subject] ++ negationWords casing negated ++ word :: words) =
      subject ++ " " ++ negationText casing negated ++ " ".intercalate (word :: words) := by
  cases negated <;> simp [negationWords, negationText, String.append_assoc]

def Layout.column : Layout → Option Nat
  | .inline => none
  | .aligned width => some width

theorem binaryText_eq (layout : Layout) (left op right : String) :
    binaryText layout left op right = left ++ operatorText layout.column op ++ right := by
  cases layout with
  | inline => simp [binaryText, operatorText, Layout.column, String.append_assoc]
  | aligned width =>
    cases h : Connective.ofWord? op <;>
      simp [binaryText, operatorText, Layout.column, h, Text.alignRight, lineStart,
        String.append_assoc]

mutual

theorem formula_sql (scope : String) : (e : Expr) → ∀ layout : Layout,
    (formula casing scope e).sql layout = e.wording casing scope layout.column
  | .compare left op right, layout => by
    rw [formula, Formula.sql, binaryText_eq, operandFormula_sql scope left,
      operandFormula_sql scope right, Expr.wording]
  | .not keyword inner, layout => by
    rw [formula, Formula.sql, formula_sql scope inner, Expr.wording]
  | .paren inner, layout => by
    rw [formula, Formula.sql, formula_sql scope inner, Expr.wording]
    rfl
  | .between keyword subject negated andKeyword low high, layout => by
    rw [formula, Formula.sql, Expr.wording, intercalate_negationWords]
    simp [String.append_assoc]
  | .among keyword subject negated select, layout => by
    rw [formula, Formula.sql, Expr.wording, intercalate_negationWords]
    simp [nestedText, Select.render, String.append_assoc]

theorem operandFormula_sql (scope : String) : (o : Operand) → ∀ layout : Layout,
    (operandFormula casing scope o).sql layout = o.wording casing scope layout.column
  | .value text, layout => by rw [operandFormula, Formula.sql, Operand.wording]
  | .expr e, layout => by rw [operandFormula, formula_sql scope e, Operand.wording]

end

theorem headText_eq (keyword : Spelling) (distinct : Bool) (distinctKeyword : Spelling) :
    headText casing keyword distinct distinctKeyword =
      " ".intercalate (casing.keyword keyword "select" ::
        if distinct then [casing.keyword distinctKeyword "distinct"] else []) := by
  cases distinct <;> simp [headText, String.append_assoc]

theorem orderText_eq (scope : String) (entry : OrderEntry) :
    orderText casing scope entry = entry.wording casing scope := by
  cases h : entry.modifiers <;>
    simp [orderText, OrderEntry.wording, h, modifierText, isOrderKeyword]

theorem columnText?_eq (scope : String) (field : Field) :
    field.columnText? casing scope = field.columnWording? casing scope := by
  cases field with
  | column c => rw [Field.columnText?, Field.columnWording?, labelText_words]
  | relation u => rfl
  | subQuery select label =>
    rw [Field.columnText?, Field.columnWording?, labelText_words]
    rfl

theorem joinLine?_eq (parent : String) (field : Field) :
    field.joinLine? casing parent = field.joinWording? casing parent := by
  cases field with
  | relation u =>
    cases h : u.label.name <;>
      simp [Field.joinLine?, Field.joinWording?, joinText, Label.words, labelText, h,
        String.append_assoc]
  | _ => rfl

end Sql

/- What the tables of a select add to the sections. -/

/-- What a table has, with the scope of the table. -/
def Table.scoped {α : Type} (g : Table → Option α) (t : Table) : Option (String × α) :=
  (g t).map (t.scope, ·)

structure Lists where
  columns : List String
  joins : List String
  conditions : Filter → List (String × Condition)
  groupings : List (String × GroupBy)
  orderings : List (String × OrderBy)
  limits : List Paging
  offsets : List Paging

def Select.lists (s : Select) : Lists where
  columns := s.table.collect (Field.columnWording? s.casing)
  joins := s.table.collect (Field.joinWording? s.casing)
  conditions f := s.table.collectTables (Table.scoped (·.condition? f))
  groupings := s.table.collectTables (Table.scoped Table.groupBy)
  orderings := s.table.collectTables (Table.scoped Table.orderBy)
  limits := s.table.collectTables Table.limit
  offsets := s.table.collectTables Table.offset

/-- The lists of a statement, gathered from the tables of its select: from the fields of their
blocks and, for the clauses, from the tables themselves. -/
structure Gathers (s : Select) (lists : Lists) : Prop where
  columns : Enumerates (fun p => (s.table.fieldAt? p).bind fun x => x.2.columnWording? s.casing x.1)
    lists.columns
  joins : Enumerates (fun p => (s.table.fieldAt? p).bind fun x => x.2.joinWording? s.casing x.1)
    lists.joins
  introduced : ∀ p parent u, s.table.fieldAt? p = some (parent, .relation u) →
    (p.dropLast = [] ∧ parent = s.table.scope) ∨
      ∃ outer v, s.table.fieldAt? p.dropLast = some (outer, .relation v) ∧ v.scope = parent ∧
        p.dropLast < p
  conditions : ∀ f, Enumerates
    (fun p => (s.table.at? p).bind (Table.scoped (·.condition? f))) (lists.conditions f)
  groupings : Enumerates
    (fun p => (s.table.at? p).bind (Table.scoped Table.groupBy)) lists.groupings
  orderings : Enumerates
    (fun p => (s.table.at? p).bind (Table.scoped Table.orderBy)) lists.orderings
  limits : Enumerates (fun p => (s.table.at? p).bind Table.limit) lists.limits
  offsets : Enumerates (fun p => (s.table.at? p).bind Table.offset) lists.offsets

theorem Select.gathers_lists (s : Select) : Gathers s s.lists := by
  refine ⟨s.table.enumerates_collect _, s.table.enumerates_collect _, fun p parent u h => ?_,
    fun f => s.table.enumerates_collectTables _, s.table.enumerates_collectTables _,
    s.table.enumerates_collectTables _, s.table.enumerates_collectTables _,
    s.table.enumerates_collectTables _⟩
  have hne : p ≠ [] := by
    rintro rfl
    cases h
  rcases fieldAt?_parent h with hroot | ⟨outer, v, hv, hscope⟩
  · exact .inl hroot
  · exact .inr ⟨outer, v, hv, hscope, dropLast_lt hne⟩

/-- The lists are the same, but for `f` at the selects nested in them. -/
structure Seals (f : Select → Select) (lists others : Lists) : Prop where
  columns : others.columns.length = lists.columns.length
  joins : others.joins = lists.joins
  conditions : ∀ filter, others.conditions filter =
    (lists.conditions filter).map fun x => (x.1, x.2.reselect f)
  groupings : others.groupings = lists.groupings
  orderings : others.orderings = lists.orderings
  limits : others.limits = lists.limits
  offsets : others.offsets = lists.offsets

def Select.reselect (f : Select → Select) (s : Select) : Select :=
  { s with table := s.table.reselect f }

theorem Table.collectTables_map {α β : Type} (h : Table → Option α) (g : α → β) (t : Table) :
    t.collectTables (fun u => (h u).map g) = (t.collectTables h).map g := by
  rw [collectTables_eq, collectTables_eq, List.map_filterMap]

theorem Table.collectTables_sealed {α : Type} {f : Select → Select} {g : Table → Option α}
    (hg : ∀ u : Table, g (u.reselect f) = g u) (t : Table) :
    (t.reselect f).collectTables g = t.collectTables g := by
  rw [collectTables_reselect]
  exact congrArg (t.collectTables ·) (funext hg)

theorem Field.joinWording?_reselect (casing : Sql.Casing) (f : Select → Select) (parent : String)
    (field : Field) :
    (field.reselect f).joinWording? casing parent = field.joinWording? casing parent := by
  cases field with
  | relation u =>
    cases u
    rfl
  | _ => rfl

theorem Select.seals_reselect (f : Select → Select) (s : Select) :
    Seals f s.lists (s.reselect f).lists where
  columns := by
    simp only [lists, reselect, Table.collect_reselect]
    refine s.table.collect_length fun scope field => ?_
    cases field <;> rfl
  joins := by
    have hjoin : (fun parent (field : Field) => (field.reselect f).joinWording? s.casing parent) =
        Field.joinWording? s.casing := by
      funext parent field
      exact field.joinWording?_reselect s.casing f parent
    exact (s.table.collect_reselect f _).trans (congrArg s.table.collect hjoin)
  conditions filter := by
    simp only [lists, reselect, Table.collectTables_reselect, ← Table.collectTables_map]
    congr 1
    funext u
    cases u
    cases filter <;>
      simp [Table.scoped, Table.reselect, Table.condition?, Table.scope, Function.comp_def]
  groupings := s.table.collectTables_sealed (g := Table.scoped Table.groupBy) fun u => by
    cases u
    rfl
  orderings := s.table.collectTables_sealed (g := Table.scoped Table.orderBy) fun u => by
    cases u
    rfl
  limits := s.table.collectTables_sealed (g := Table.limit) fun u => by
    cases u
    rfl
  offsets := s.table.collectTables_sealed (g := Table.offset) fun u => by
    cases u
    rfl

/- The statement. -/

/-- Conditions joined by `and`, which ends in the column of the keyword. -/
def conjunctionText (casing : Sql.Casing) (cs : List (String × Condition)) (keyword : String) :
    String :=
  let link := casing.apply "and"
  (Sql.lineStart keyword.length link ++ link ++ " ").intercalate
    (cs.map fun x => x.2.wording casing x.1 keyword.length (1 < cs.length))

/-- The sections before the limit and the offset: the columns, the tables, the conditions and what
the rows are grouped and ordered by. -/
def Select.mainSections (s : Select) : List String :=
  let casing := s.casing
  let lists := s.lists
  [" ".intercalate (casing.keyword s.keyword "select" ::
        if s.distinct then [casing.keyword s.distinctKeyword "distinct"] else []) ++ "\n  " ++
      (if lists.columns.isEmpty then "*" else "\n, ".intercalate lists.columns),
    " ".intercalate ([casing.apply "from", s.table.name] ++ s.table.label.words casing)] ++
  lists.joins ++
  clauseLine casing (.filter .rows) ((lists.conditions .rows).map (·.2.keyword))
    (conjunctionText casing (lists.conditions .rows)) ++
  clauseLine casing .groupBy (lists.groupings.map (·.2.keyword))
    (fun _ => ", ".intercalate (lists.groupings.flatMap fun x =>
      x.2.columns.map (Sql.qualify · x.1))) ++
  clauseLine casing (.filter .groups) ((lists.conditions .groups).map (·.2.keyword))
    (conjunctionText casing (lists.conditions .groups)) ++
  clauseLine casing .orderBy (lists.orderings.map (·.2.keyword))
    (fun _ => ", ".intercalate (lists.orderings.flatMap fun x =>
      x.2.entries.map (·.wording casing x.1)))

namespace Sql

variable (casing : Casing)

def scopedRestriction (x : String × Condition) : Restriction :=
  ⟨x.2.keyword, formula casing x.1 x.2.expr, x.2.expr.hasOr⟩

theorem scopedRestriction_sql (x : String × Condition) (width : Nat) (several : Bool) :
    (scopedRestriction casing x).sql width several = x.2.wording casing x.1 width several := by
  simp only [scopedRestriction, Restriction.sql, Formula.sql, formula_sql, Condition.wording]
  rfl

theorem filterSection_eq (f : Filter) (cs : List (String × Condition)) :
    filterSection casing f (cs.map (scopedRestriction casing)) =
      clauseLine casing (.filter f) (cs.map (·.2.keyword)) (conjunctionText casing cs) := by
  cases cs with
  | nil => rfl
  | cons first others =>
    have hseveral : (1 < (first :: others).length : Bool) = !others.isEmpty := by
      cases others <;> simp
    have hmap (width : Nat) (several : Bool) (xs : List (String × Condition)) :
        (xs.map (scopedRestriction casing)).map (·.sql width several) =
          xs.map fun x => x.2.wording casing x.1 width several := by
      simp [scopedRestriction_sql]
    simp only [clauseLine, conjunctionText, hseveral, ← hmap]
    simp [filterSection, restrictionText, scopedRestriction, Text.alignRight, lineStart,
      String.append_assoc, Clause.name]

end Sql

/-- What the tables of a select give to its statement are the lists of the select. -/
theorem Select.tableParts_lists (s : Select) : Sql.tableParts s.casing s.table =
    { columns := s.lists.columns
      joins := s.lists.joins
      rowFilters := (s.lists.conditions .rows).map (Sql.scopedRestriction s.casing)
      groupFilters := (s.lists.conditions .groups).map (Sql.scopedRestriction s.casing)
      groupings := s.lists.groupings.map fun x => Sql.grouping x.1 x.2
      orderings := s.lists.orderings.map fun x => Sql.ordering s.casing x.1 x.2
      limits := s.lists.limits
      offsets := s.lists.offsets } := by
  have hcolumn : Field.columnText? s.casing = Field.columnWording? s.casing := by
    funext scope field
    exact Sql.columnText?_eq s.casing scope field
  have hjoin : Field.joinLine? s.casing = Field.joinWording? s.casing := by
    funext parent field
    exact Sql.joinLine?_eq s.casing parent field
  simp only [Sql.tableParts_eq, lists, ← Table.collectTables_map, Table.scoped, Option.map_map,
    hcolumn, hjoin]
  rfl

theorem Select.mainSections_eq (s : Select) : s.mainSections =
    let parts := Sql.tableParts s.casing s.table
    [Sql.columnSection (Sql.headText s.casing s.keyword s.distinct s.distinctKeyword) parts.columns,
      s.casing.apply "from" ++ " " ++ s.table.name ++ Sql.labelText s.casing s.table.label] ++
    parts.joins ++ Sql.filterSection s.casing .rows parts.rowFilters ++
    Sql.listSection s.casing .groupBy parts.groupings ++
    Sql.filterSection s.casing .groups parts.groupFilters ++
    Sql.listSection s.casing .orderBy parts.orderings := by
  have hfrom : " ".intercalate ([s.casing.apply "from", s.table.name] ++
      s.table.label.words s.casing) =
        s.casing.apply "from" ++ " " ++ s.table.name ++ Sql.labelText s.casing s.table.label := by
    rw [String.append_assoc, ← Sql.labelText_words]
    simp
  have horder (x : String × OrderBy) :
      x.2.entries.map (·.wording s.casing x.1) = (Sql.ordering s.casing x.1 x.2).items := by
    simp [Sql.ordering, Sql.orderText_eq]
  rw [s.tableParts_lists]
  simp only [mainSections, Sql.columnSection, Sql.filterSection_eq, Sql.listSection_eq,
    Sql.headText_eq, hfrom, horder, List.map_map, List.flatMap_map]
  rfl

theorem Select.render_sections (s : Select) :
    s.render = "\n" ++ String.join ((s.mainSections ++
      Sql.limitSection s.casing s.table s.lists.limits ++
      Sql.offsetSection s.casing s.lists.offsets).map (· ++ "\n")) := by
  have hlimits : s.lists.limits = (Sql.tableParts s.casing s.table).limits := by
    rw [s.tableParts_lists]
  have hoffsets : s.lists.offsets = (Sql.tableParts s.casing s.table).offsets := by
    rw [s.tableParts_lists]
  rw [s.mainSections_eq, hlimits, hoffsets]
  cases s
  rfl

/-- A statement is put together from the lists that its tables add to, and what is inside nested
selects stays out of these lists. -/
theorem Select.render_gathers (s : Select) :
    Gathers s s.lists ∧ (∀ f, Seals f s.lists (s.reselect f).lists) ∧
    s.render = "\n" ++ String.join ((s.mainSections ++
      (if s.table.single && s.table.limit.isNone then [s.casing.apply "limit" ++ " 1"]
        else s.lists.limits.head?.toList.map fun paging =>
          s.casing.keyword paging.keyword "limit" ++ " " ++ paging.value) ++
      s.lists.offsets.head?.toList.map fun paging =>
        s.casing.keyword paging.keyword "offset" ++ " " ++ paging.value).map (· ++ "\n")) :=
  ⟨s.gathers_lists, fun f => s.seals_reselect f, s.render_sections⟩

/-- A relation in a relation, a sub-query with a condition of its own and an `in` with a limit of
its own. -/
theorem Select.render_gathers_nested :
    let u := Expr.compare (.value "u") "=" (.value "1")
    let v := Expr.compare (.value "v") "=" (.value "2")
    let c : Table :=
      { name := "c"
        rowFilter := some { expr := .link u "or" v }
        orderBy := some { entries := [⟨"w", some "desc"⟩] } }
    let b : Table :=
      { name := "b", single := true, fields := [.column ⟨"q", { name := some "r" }⟩, .relation c] }
    let d : Select :=
      { table :=
          { name := "d"
            fields := [.column ⟨"e", {}⟩]
            rowFilter := some { expr := .compare (.value "f") "=" (.value "3") } } }
    let k : Select := { table := { name := "k", single := true, fields := [.column ⟨"m", {}⟩] } }
    let s : Select :=
      { table :=
          { name := "a"
            label := { name := some "x" }
            fields := [.column ⟨"p", {}⟩, .relation b, .subQuery d { name := some "g" }]
            rowFilter := some { expr := .among none "h" true k }
            orderBy := some { entries := [⟨"p", none⟩] } } }
    s.lists.columns =
        ["x.p", "b.q as r", "(\n  select\n    d.e\n  from d\n  where d.f = 3\n) as g"] ∧
      s.lists.joins = ["inner join b on b.id = x.b_id", "left join c on c.id = b.c_id"] ∧
      s.render = "\nselect\n  x.p\n, b.q as r\n, (\n  select\n    d.e\n  from d\n" ++
        "  where d.f = 3\n) as g\nfrom a as x\ninner join b on b.id = x.b_id\n" ++
        "left join c on c.id = b.c_id\n" ++
        "where x.h not in (\n  select\n    k.m\n  from k\n  limit 1\n)\n" ++
        "  and (c.u = 1 or c.v = 2)\norder by x.p, c.w desc\n" ∧
      Gathers s s.lists ∧ (∀ f, Seals f s.lists (s.reselect f).lists) := by
  intro u v c b d k s
  exact ⟨by decide +kernel, by decide +kernel, by decide +kernel, s.render_gathers.1,
    s.render_gathers.2.1⟩

end BracketQuery
