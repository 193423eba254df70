import BracketQuery.Proofs.Sections

/-! The limit and the offset of a statement. They are chosen among those of the tables of the select
and come last; everything before them is as it would be without any. -/
namespace BracketQuery

/- A select without paging. -/

mutual

/-- The table without the limits and offsets of it and of its relations. -/
def Table.unpaged : Table → Table
  | ⟨name, label, single, fields, rowFilter, groupFilter, groupBy, orderBy, _, _⟩ =>
    ⟨name, label, single, unpagedFields fields, rowFilter, groupFilter, groupBy, orderBy, none,
      none⟩

def unpagedFields : List Field → List Field
  | [] => []
  | .column column :: rest => .column column :: unpagedFields rest
  | .relation table :: rest => .relation (Table.unpaged table) :: unpagedFields rest
  | .subQuery select label :: rest => .subQuery select label :: unpagedFields rest

end

namespace Select

/-- The select without any limit or offset at its own level, which a single table would imply. -/
def unpaged (s : Select) : Select := { s with table := { s.table.unpaged with single := false } }

/-- The limit: that of the outermost table, or one row if that table is single, or the first one
that a relation has. -/
def limitLine? (s : Select) : Option String :=
  match s.table.limit with
  | some paging => some (s.casing.keyword paging.keyword "limit" ++ " " ++ paging.value)
  | none =>
    if s.table.single then some (s.casing.apply "limit" ++ " 1")
    else (s.table.relations.findSome? Table.limit).map fun paging =>
      s.casing.keyword paging.keyword "limit" ++ " " ++ paging.value

def offsetLine? (s : Select) : Option String :=
  ((s.table :: s.table.relations).findSome? Table.offset).map fun paging =>
    s.casing.keyword paging.keyword "offset" ++ " " ++ paging.value

end Select

namespace Sql

theorem joinText_unpaged (casing : Casing) (table : Table) (parent : String) :
    joinText casing table.unpaged parent = joinText casing table parent := by
  cases table
  rfl

mutual

theorem tableParts_unpaged (casing : Casing) : (t : Table) →
    tableParts casing t.unpaged = { tableParts casing t with limits := [], offsets := [] }
  | ⟨_, _, _, fields, _, _, _, _, _, _⟩ => by
    simp only [Table.unpaged, tableParts, fieldParts_unpaged casing fields, Parts.append_eq,
      Option.toList_none, List.nil_append]

theorem fieldParts_unpaged (casing : Casing) : (fields : List Field) → ∀ scope,
    fieldParts casing scope (unpagedFields fields) =
      { fieldParts casing scope fields with limits := [], offsets := [] }
  | [], _ => rfl
  | .column _ :: rest, scope => by
    simp only [unpagedFields, fieldParts, fieldParts_unpaged casing rest, Parts.append_eq,
      List.nil_append]
  | .relation table :: rest, scope => by
    simp only [unpagedFields, fieldParts, fieldParts_unpaged casing rest, joinText_unpaged,
      tableParts_unpaged casing table, Parts.append_eq, List.nil_append]
  | .subQuery _ _ :: rest, scope => by
    simp only [unpagedFields, fieldParts, fieldParts_unpaged casing rest, Parts.append_eq,
      List.nil_append]

end

theorem limitSection_eq (s : Select) :
    limitSection s.casing s.table s.lists.limits = s.limitLine?.toList := by
  have hlimits : s.lists.limits.head? = (s.table :: s.table.relations).findSome? Table.limit :=
    s.table.head?_collectTables Table.limit
  rw [limitSection, Select.limitLine?, hlimits]
  cases hlimit : s.table.limit with
  | some paging => simp [hlimit, pageText, Page.name]
  | none =>
    cases hsingle : s.table.single with
    | true => simp
    | false =>
      cases h : s.table.relations.findSome? Table.limit <;> simp [hlimit, h, pageText, Page.name]

theorem offsetSection_eq (s : Select) :
    offsetSection s.casing s.lists.offsets = s.offsetLine?.toList := by
  have hoffsets : s.lists.offsets.head? = (s.table :: s.table.relations).findSome? Table.offset :=
    s.table.head?_collectTables Table.offset
  rw [offsetSection, Select.offsetLine?, hoffsets]
  cases (s.table :: s.table.relations).findSome? Table.offset <;> rfl

end Sql

namespace Select

theorem render_eq_pages (s : Select) : s.render = "\n" ++ String.join
    ((s.mainSections ++ s.limitLine?.toList ++ s.offsetLine?.toList).map (· ++ "\n")) := by
  rw [← Sql.limitSection_eq, ← Sql.offsetSection_eq]
  exact s.render_sections

theorem parts_unpaged (s : Select) : Sql.tableParts s.unpaged.casing s.unpaged.table =
    { Sql.tableParts s.casing s.table with limits := [], offsets := [] } := by
  have hsingle : Sql.tableParts s.casing { s.table.unpaged with single := false } =
      Sql.tableParts s.casing s.table.unpaged := by
    cases s.table.unpaged
    rfl
  exact hsingle.trans (Sql.tableParts_unpaged s.casing s.table)

theorem mainSections_unpaged (s : Select) : s.unpaged.mainSections = s.mainSections := by
  have hnamed : s.unpaged.table.name = s.table.name ∧ s.unpaged.table.label = s.table.label := by
    obtain ⟨_, _, _, table⟩ := s
    cases table
    exact ⟨rfl, rfl⟩
  simp only [mainSections_eq, parts_unpaged, hnamed.1, hnamed.2]
  rfl

theorem render_unpaged (s : Select) :
    s.unpaged.render = "\n" ++ String.join (s.mainSections.map (· ++ "\n")) := by
  have hparts := s.unpaged.tableParts_lists
  rw [parts_unpaged, Sql.Parts.mk.injEq] at hparts
  obtain ⟨-, -, -, -, -, -, hlimits, hoffsets⟩ := hparts
  have hlimit : Sql.limitSection s.unpaged.casing s.unpaged.table [] = [] := rfl
  have hoffset : Sql.offsetSection s.unpaged.casing [] = [] := rfl
  rw [render_sections, mainSections_unpaged, ← hlimits, ← hoffsets, hlimit, hoffset,
    List.append_nil, List.append_nil]

theorem pageLines_reselect (f : Select → Select) (s : Select) :
    (s.reselect f).limitLine? = s.limitLine? ∧ (s.reselect f).offsetLine? = s.offsetLine? := by
  have hlimit (t : Table) : (t.reselect f).limit = t.limit := by
    cases t
    rfl
  have hoffset (t : Table) : (t.reselect f).offset = t.offset := by
    cases t
    rfl
  have hsingle : (s.table.reselect f).single = s.table.single := by
    cases s.table
    rfl
  refine ⟨?_, ?_⟩
  · simp only [limitLine?, reselect, Table.relations_reselect, List.findSome?_map,
      Function.comp_def, hlimit, hsingle]
    rfl
  · simp only [offsetLine?, reselect, Table.relations_reselect, ← List.map_cons, List.findSome?_map,
      Function.comp_def, hoffset]
    rfl

/-- Paging adds one line for the limit and one for the offset at most, after all that the statement
has without paging. What nested selects have is not asked for. -/
theorem render_pages (s : Select) :
    s.render = "\n" ++ String.join
      ((s.mainSections ++ s.limitLine?.toList ++ s.offsetLine?.toList).map (· ++ "\n")) ∧
    s.unpaged.render = "\n" ++ String.join (s.mainSections.map (· ++ "\n")) ∧
    Enumerates s.table.at? (s.table :: s.table.relations) ∧
    ∀ f : Select → Select,
      (s.reselect f).limitLine? = s.limitLine? ∧ (s.reselect f).offsetLine? = s.offsetLine? :=
  ⟨s.render_eq_pages, s.render_unpaged, s.table.enumerates_relations,
    fun f => s.pageLines_reselect f⟩

/-- The single relation adds no limit and the sub-query keeps its own. A limit of the outermost
table, or its being single, comes before the limits of the relations. -/
theorem render_pages_relations :
    let d : Select :=
      { table := { name := "d", limit := some ⟨none, "9"⟩, offset := some ⟨none, "8"⟩ } }
    let c : Table := { name := "c", limit := some ⟨none, "5"⟩, offset := some ⟨none, "7"⟩ }
    let b : Table := { name := "b", single := true, fields := [.subQuery d {}, .relation c] }
    let a (single : Bool) (limit : Option Paging) : Select :=
      { keyword := some "SELECT"
        table := { name := "a", single := single, fields := [.relation b], limit := limit } }
    let main := "\nSELECT\n  (\n  select\n    *\n  from d\n  limit 9\n  offset 8\n)\n" ++
      "FROM a\nINNER JOIN b ON b.id = a.b_id\nLEFT JOIN c ON c.id = b.c_id\n"
    (a false none).render = main ++ "LIMIT 5\nOFFSET 7\n" ∧
      (a true none).render = main ++ "LIMIT 1\nOFFSET 7\n" ∧
      (a true (some ⟨some "limit", "4"⟩)).render = main ++ "limit 4\nOFFSET 7\n" ∧
      ∀ f, ((a false none).reselect f).limitLine? = some "LIMIT 5" := by
  intro d c b a main
  refine ⟨by decide +kernel, by decide +kernel, by decide +kernel, fun f => ?_⟩
  rw [((a false none).render_pages.2.2.2 f).1]
  decide +kernel

end Select

end BracketQuery
