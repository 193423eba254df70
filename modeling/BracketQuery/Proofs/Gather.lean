import BracketQuery.Proofs.MergedConditions

/-! What the tables of a select add to its statement. Every field has a place in the block of its
select, and each list of the statement goes through the places in their order. The way to a place
leads through relations, never into a nested select. -/
namespace BracketQuery

/-- A place in a block: which field to take and, if that is a relation, a place in its block. -/
abbrev Place := List Nat

/-- The field at a place, with the scope of the table that declares it. -/
def fieldAt? (scope : String) (fields : List Field) : Place → Option (String × Field)
  | [] => none
  | [i] => fields[i]?.map (scope, ·)
  | i :: j :: p =>
    match fields[i]? with
    | some (.relation u) => fieldAt? u.scope u.fields (j :: p)
    | _ => none

def Field.table? : Field → Option Table
  | .relation u => some u
  | _ => none

namespace Table

def fieldAt? (t : Table) (p : Place) : Option (String × Field) :=
  BracketQuery.fieldAt? t.scope t.fields p

/-- The table at a place; the outermost one is in front of its fields. -/
def at? (t : Table) : Place → Option Table
  | [] => some t
  | i :: p => (t.fieldAt? (i :: p)).bind (·.2.table?)

end Table

/- Lists that go through places. -/

section

variable {α : Type} {f g h : Place → Option α} {as bs : List α}

/-- The list has what `f` gives to the places, each once and in the order of the places. -/
def Enumerates (f : Place → Option α) (as : List α) : Prop :=
  ∃ ps : List Place,
    ps.Pairwise (· < ·) ∧ (∀ p, p ∈ ps ↔ (f p).isSome = true) ∧ as.map some = ps.map f

theorem Enumerates.none : Enumerates (fun _ => (none : Option α)) [] :=
  ⟨[], .nil, by simp, rfl⟩

theorem Enumerates.root (hf : Enumerates f as) (hnil : f [] = .none)
    (hcons : ∀ i p, g (i :: p) = f (i :: p)) : Enumerates g ((g []).toList ++ as) := by
  obtain ⟨ps, hlt, hmem, hps⟩ := hf
  have hne : ∀ p ∈ ps, ∃ i q, p = i :: q := by
    intro p hp
    cases p with
    | nil => simp [hmem, hnil] at hp
    | cons i q => exact ⟨i, q, rfl⟩
  have hsame : ps.map g = ps.map f := by
    refine List.map_congr_left fun p hp => ?_
    obtain ⟨i, q, rfl⟩ := hne p hp
    exact hcons i q
  have hiff : ∀ p, p ≠ [] → (p ∈ ps ↔ (g p).isSome = true) := by
    intro p hp
    cases p with
    | nil => exact absurd rfl hp
    | cons i q => rw [hcons, hmem]
  have hnot : [] ∉ ps := by simp [hmem, hnil]
  cases hg : g [] with
  | none =>
    refine ⟨ps, hlt, fun p => ?_, by simp [hps, hsame]⟩
    by_cases hp : p = []
    · simp [hp, hnot, hg]
    · exact hiff p hp
  | some a =>
    refine ⟨[] :: ps, List.pairwise_cons.2 ⟨fun p hp => ?_, hlt⟩, fun p => ?_, ?_⟩
    · obtain ⟨i, q, rfl⟩ := hne p hp
      exact List.nil_lt_cons i q
    · by_cases hp : p = []
      · simp [hp, hg]
      · simp [hp, hiff p hp]
    · simp [hps, hsame, hg]

def Place.next : Place → Place
  | [] => []
  | i :: p => (i + 1) :: p

theorem Enumerates.cons (hf : Enumerates f as) (hg : Enumerates g bs) (hnil : g [] = .none)
    (hroot : h [] = .none) (hfirst : ∀ p, h (0 :: p) = f p)
    (hrest : ∀ i p, h ((i + 1) :: p) = g (i :: p)) : Enumerates h (as ++ bs) := by
  obtain ⟨ps, hps, hmem, hmap⟩ := hf
  obtain ⟨qs, hqs, hmem', hmap'⟩ := hg
  have hne : ∀ q ∈ qs, ∃ i r, q = i :: r := by
    intro q hq
    cases q with
    | nil => simp [hmem', hnil] at hq
    | cons i r => exact ⟨i, r, rfl⟩
  refine ⟨ps.map (0 :: ·) ++ qs.map Place.next, ?_, fun p => ?_, ?_⟩
  · refine List.pairwise_append.2 ⟨?_, ?_, ?_⟩
    · rw [List.pairwise_map]
      exact hps.imp fun hlt => List.cons_lt_cons_iff.2 (.inr ⟨rfl, hlt⟩)
    · rw [List.pairwise_map]
      refine hqs.imp_of_mem fun ha hb hlt => ?_
      obtain ⟨i, r, rfl⟩ := hne _ ha
      obtain ⟨j, s, rfl⟩ := hne _ hb
      rw [List.cons_lt_cons_iff] at hlt
      simpa [Place.next, List.cons_lt_cons_iff] using hlt
    · intro p hp q hq
      obtain ⟨p', -, rfl⟩ := List.mem_map.1 hp
      obtain ⟨q', hq', rfl⟩ := List.mem_map.1 hq
      obtain ⟨i, r, rfl⟩ := hne q' hq'
      exact List.cons_lt_cons_iff.2 (.inl (Nat.succ_pos i))
  · have hnext : ∀ q ∈ qs, Place.next q ≠ [] ∧ (Place.next q).head? ≠ some 0 := by
      intro q hq
      obtain ⟨i, r, rfl⟩ := hne q hq
      simp [Place.next]
    rw [List.mem_append, List.mem_map, List.mem_map]
    cases p with
    | nil =>
      rw [hroot]
      refine ⟨?_, by simp⟩
      rintro (⟨q, -, hq⟩ | ⟨q, hm, hq⟩)
      · cases hq
      · exact absurd hq (hnext q hm).1
    | cons i p =>
      cases i with
      | zero =>
        rw [hfirst, ← hmem]
        constructor
        · rintro (⟨q, hm, hq⟩ | ⟨q, hm, hq⟩)
          · exact (List.cons.inj hq).2 ▸ hm
          · exact absurd (congrArg List.head? hq) (hnext q hm).2
        · exact fun hm => .inl ⟨p, hm, rfl⟩
      | succ i =>
        rw [hrest, ← hmem']
        constructor
        · rintro (⟨q, -, hq⟩ | ⟨q, hm, hq⟩)
          · cases hq
          · obtain ⟨j, r, rfl⟩ := hne q hm
            simp only [Place.next, List.cons.injEq, Nat.add_right_cancel_iff] at hq
            obtain ⟨rfl, rfl⟩ := hq
            exact hm
        · exact fun hm => .inr ⟨i :: p, hm, rfl⟩
  · have hfront : (ps.map (0 :: ·)).map h = ps.map f := by
      simp [Function.comp_def, hfirst]
    have hback : (qs.map Place.next).map h = qs.map g := by
      rw [List.map_map]
      refine List.map_congr_left fun q hq => ?_
      obtain ⟨i, r, rfl⟩ := hne q hq
      exact hrest i r
    rw [List.map_append, List.map_append, hmap, hmap', hfront, hback]

end

/- One list for each kind of entry. -/

section

variable {α : Type}

mutual

/-- What `h` finds in the fields of a table, those of a relation right after the relation. -/
def Table.collect (h : String → Field → Option α) : Table → List α
  | ⟨name, label, _, fields, _, _, _, _, _, _⟩ => collectFields h (label.over name) fields

def collectFields (h : String → Field → Option α) (scope : String) : List Field → List α
  | [] => []
  | .column column :: rest => (h scope (.column column)).toList ++ collectFields h scope rest
  | .relation table :: rest =>
    (h scope (.relation table)).toList ++ Table.collect h table ++ collectFields h scope rest
  | .subQuery select label :: rest =>
    (h scope (.subQuery select label)).toList ++ collectFields h scope rest

end

theorem fieldAt?_succ (scope : String) (field : Field) (fields : List Field) (i : Nat) (p : Place) :
    fieldAt? scope (field :: fields) ((i + 1) :: p) = fieldAt? scope fields (i :: p) := by
  cases p <;> simp [fieldAt?]

/-- The field at a place in the block of a field, which only a relation has. -/
def Field.below? : Field → Place → Option (String × Field)
  | .relation u, p => u.fieldAt? p
  | _, _ => none

theorem fieldAt?_zero (scope : String) (field : Field) (fields : List Field) (i : Nat)
    (p : Place) : fieldAt? scope (field :: fields) (0 :: i :: p) = field.below? (i :: p) := by
  cases field <;> rfl

theorem Field.below?_nil (field : Field) : field.below? [] = none := by
  cases field <;> rfl

theorem enumerates_cons {h : String → Field → Option α} {scope : String} (field : Field)
    {fields : List Field} {as bs : List α}
    (hbelow : Enumerates (fun p => (field.below? p).bind fun x => h x.1 x.2) as)
    (hrest : Enumerates (fun p => (fieldAt? scope fields p).bind fun x => h x.1 x.2) bs) :
    Enumerates (fun p => (fieldAt? scope (field :: fields) p).bind fun x => h x.1 x.2)
      ((h scope field).toList ++ as ++ bs) := by
  have hfirst := hbelow.root
    (g := fun p => (fieldAt? scope (field :: fields) (0 :: p)).bind fun x => h x.1 x.2)
    (by rw [field.below?_nil]; rfl) (fun i p => by rw [fieldAt?_zero])
  exact hfirst.cons hrest rfl rfl (fun _ => rfl) fun i p => by rw [fieldAt?_succ]

mutual

theorem Table.enumerates_collect (h : String → Field → Option α) : (t : Table) →
    Enumerates (fun p => (t.fieldAt? p).bind fun x => h x.1 x.2) (t.collect h)
  | ⟨name, label, _, fields, _, _, _, _, _, _⟩ =>
    enumerates_collectFields h fields (label.over name)

theorem enumerates_collectFields (h : String → Field → Option α) : (fields : List Field) →
    ∀ scope, Enumerates (fun p => (fieldAt? scope fields p).bind fun x => h x.1 x.2)
      (collectFields h scope fields)
  | [], scope => by
    have hnone : (fun p => (fieldAt? scope [] p).bind fun x => h x.1 x.2) = fun _ => none := by
      funext p
      match p with
      | [] => rfl
      | [i] => rfl
      | i :: j :: p => rfl
    rw [hnone]
    exact .none
  | .column column :: rest, scope => by
    have hcons := enumerates_cons (.column column) .none
      (enumerates_collectFields h rest scope)
    simpa [collectFields] using hcons
  | .relation table :: rest, scope =>
    enumerates_cons (.relation table) (Table.enumerates_collect h table)
      (enumerates_collectFields h rest scope)
  | .subQuery select label :: rest, scope => by
    have hcons := enumerates_cons (.subQuery select label) .none
      (enumerates_collectFields h rest scope)
    simpa [collectFields] using hcons

end

def inRelations (g : Table → Option α) (_ : String) (field : Field) : Option α :=
  field.table?.bind g

/-- What `g` finds in a table and then in the relations of its block. -/
def Table.collectTables (g : Table → Option α) (t : Table) : List α :=
  (g t).toList ++ t.collect (inRelations g)

theorem Table.enumerates_collectTables (g : Table → Option α) (t : Table) :
    Enumerates (fun p => (t.at? p).bind g) (t.collectTables g) := by
  refine (t.enumerates_collect (inRelations g)).root rfl fun i p => ?_
  show ((t.fieldAt? (i :: p)).bind _).bind g = _
  rw [Option.bind_assoc]
  rfl

end

/- The tables of a select. -/

section

variable {α β : Type}

theorem toList_bind_eq_filterMap (o : Option α) (g : α → Option β) :
    (o.bind g).toList = o.toList.filterMap g := by
  cases o with
  | none => rfl
  | some a => cases h : g a <;> simp [h]

mutual

theorem Table.collect_bind (h : String → Field → Option α) (g : α → Option β) : (t : Table) →
    t.collect (fun scope field => (h scope field).bind g) = (t.collect h).filterMap g
  | ⟨_, _, _, fields, _, _, _, _, _, _⟩ => collectFields_bind h g fields _

theorem collectFields_bind (h : String → Field → Option α) (g : α → Option β) :
    (fields : List Field) → ∀ scope,
      collectFields (fun scope field => (h scope field).bind g) scope fields =
        (collectFields h scope fields).filterMap g
  | [], _ => rfl
  | .column column :: rest, scope => by
    simp only [collectFields, toList_bind_eq_filterMap, List.filterMap_append,
      collectFields_bind h g rest]
  | .relation table :: rest, scope => by
    simp only [collectFields, toList_bind_eq_filterMap, List.filterMap_append,
      collectFields_bind h g rest, Table.collect_bind h g table]
  | .subQuery select label :: rest, scope => by
    simp only [collectFields, toList_bind_eq_filterMap, List.filterMap_append,
      collectFields_bind h g rest]

end

/-- The relations in the block of a table, each before those in its own block. -/
def Table.relations (t : Table) : List Table := t.collect fun _ field => field.table?

theorem Table.collect_inRelations (g : Table → Option α) (t : Table) :
    t.collect (inRelations g) = t.relations.filterMap g :=
  t.collect_bind (fun _ field => field.table?) g

theorem Table.collectTables_eq (g : Table → Option α) (t : Table) :
    t.collectTables g = (t :: t.relations).filterMap g := by
  rw [collectTables, collect_inRelations]
  cases h : g t <;> simp [h]

theorem Table.head?_collectTables (g : Table → Option α) (t : Table) :
    (t.collectTables g).head? = (t :: t.relations).findSome? g := by
  rw [collectTables_eq, List.head?_filterMap]

theorem Table.enumerates_relations (t : Table) : Enumerates t.at? (t :: t.relations) := by
  have htables := t.enumerates_collectTables some
  simpa [Table.collectTables_eq] using htables

end

/- The parts of a statement. -/

def Field.columnText? (casing : Sql.Casing) (scope : String) : Field → Option String
  | .column c => some (Sql.qualify c.name scope ++ Sql.labelText casing c.label)
  | .subQuery select label =>
    some (Sql.nestedText (Sql.ofSelect select) ++ Sql.labelText casing label)
  | .relation _ => none

def Field.joinLine? (casing : Sql.Casing) (parent : String) : Field → Option String
  | .relation u => some (Sql.joinText casing u parent)
  | _ => none

namespace Table

def condition? (t : Table) : Filter → Option Condition
  | .rows => t.rowFilter
  | .groups => t.groupFilter

def restriction? (casing : Sql.Casing) (f : Filter) (t : Table) : Option Sql.Restriction :=
  (t.condition? f).map fun c => ⟨c.keyword, Sql.formula casing t.scope c.expr, c.expr.hasOr⟩

def grouping? (t : Table) : Option Sql.Listed :=
  t.groupBy.map fun g => ⟨g.keyword, g.columns.map (Sql.qualify · t.scope)⟩

def ordering? (casing : Sql.Casing) (t : Table) : Option Sql.Listed :=
  t.orderBy.map fun o => ⟨o.keyword, o.entries.map (Sql.orderText casing t.scope)⟩

end Table

namespace Sql

theorem Parts.append_eq (p q : Parts) : p ++ q =
    { columns := p.columns ++ q.columns
      joins := p.joins ++ q.joins
      rowFilters := p.rowFilters ++ q.rowFilters
      groupFilters := p.groupFilters ++ q.groupFilters
      groupings := p.groupings ++ q.groupings
      orderings := p.orderings ++ q.orderings
      limits := p.limits ++ q.limits
      offsets := p.offsets ++ q.offsets } := rfl

theorem restriction_eq (casing : Casing) (scope : String) (condition : Option Condition) :
    restriction casing scope condition =
      (condition.map fun c => ⟨c.keyword, formula casing scope c.expr, c.expr.hasOr⟩).toList := by
  match condition with
  | none => simp [restriction]
  | some ⟨keyword, expr⟩ => simp [restriction]

mutual

theorem tableParts_eq (casing : Casing) : (t : Table) → tableParts casing t =
    { columns := t.collect (Field.columnText? casing)
      joins := t.collect (Field.joinLine? casing)
      rowFilters := t.collectTables (Table.restriction? casing .rows)
      groupFilters := t.collectTables (Table.restriction? casing .groups)
      groupings := t.collectTables Table.grouping?
      orderings := t.collectTables (Table.ordering? casing)
      limits := t.collectTables Table.limit
      offsets := t.collectTables Table.offset }
  | ⟨name, label, _, fields, rowFilter, groupFilter, groupBy, orderBy, limit, offset⟩ => by
    rw [tableParts, fieldParts_eq casing fields, Parts.append_eq]
    simp [restriction_eq, Table.collectTables, Table.collect, Table.restriction?, Table.condition?,
      Table.grouping?, Table.ordering?, Table.scope]
    exact ⟨by cases groupBy <;> rfl, by cases orderBy <;> rfl⟩

theorem fieldParts_eq (casing : Casing) : (fields : List Field) → ∀ scope,
    fieldParts casing scope fields =
      { columns := collectFields (Field.columnText? casing) scope fields
        joins := collectFields (Field.joinLine? casing) scope fields
        rowFilters := collectFields (inRelations (Table.restriction? casing .rows)) scope fields
        groupFilters := collectFields (inRelations (Table.restriction? casing .groups)) scope fields
        groupings := collectFields (inRelations Table.grouping?) scope fields
        orderings := collectFields (inRelations (Table.ordering? casing)) scope fields
        limits := collectFields (inRelations Table.limit) scope fields
        offsets := collectFields (inRelations Table.offset) scope fields }
  | [], scope => rfl
  | .column column :: rest, scope => by
    rw [fieldParts, fieldParts_eq casing rest, Parts.append_eq]
    simp [collectFields, Field.columnText?, Field.joinLine?, inRelations, Field.table?]
  | .relation table :: rest, scope => by
    rw [fieldParts, fieldParts_eq casing rest, tableParts_eq casing table, Parts.append_eq,
      Parts.append_eq]
    simp [collectFields, Field.columnText?, Field.joinLine?, inRelations, Field.table?,
      Table.collectTables]
  | .subQuery select label :: rest, scope => by
    rw [fieldParts, fieldParts_eq casing rest, Parts.append_eq]
    simp [collectFields, Field.columnText?, Field.joinLine?, inRelations, Field.table?]

end

theorem filters_tableParts_eq (casing : Casing) (t : Table) (f : Filter) :
    (tableParts casing t).filters f = t.collectTables (Table.restriction? casing f) := by
  rw [tableParts_eq]
  cases f <;> rfl

end Sql

/- Where the tables of a statement are introduced. -/

theorem dropLast_lt {p : Place} (h : p ≠ []) : p.dropLast < p := by
  induction p with
  | nil => exact absurd rfl h
  | cons i p ih =>
    cases p with
    | nil => exact List.nil_lt_cons i []
    | cons j p => exact List.cons_lt_cons_iff.2 (.inr ⟨rfl, ih (by simp)⟩)

/-- The scope of a field is that of the table around it, which is the outermost one or a relation
at the place before. -/
theorem fieldAt?_parent {scope parent : String} {fields : List Field} {p : Place} {field : Field}
    (h : fieldAt? scope fields p = some (parent, field)) :
    (p.dropLast = [] ∧ parent = scope) ∨
      ∃ outer u, fieldAt? scope fields p.dropLast = some (outer, .relation u) ∧
        u.scope = parent := by
  induction p generalizing scope fields with
  | nil => cases h
  | cons i p ih =>
    cases p with
    | nil =>
      obtain ⟨f, -, hf⟩ := Option.map_eq_some_iff.1 h
      exact .inl ⟨rfl, (Prod.mk.inj hf).1.symm⟩
    | cons j p =>
      rw [fieldAt?] at h
      split at h
      · rename_i u hu
        have hone : fieldAt? scope fields [i] = some (scope, .relation u) := by simp [fieldAt?, hu]
        rcases ih h with ⟨hnil, rfl⟩ | ⟨outer, v, hv, hscope⟩
        · refine .inr ⟨scope, u, ?_, rfl⟩
          rw [List.dropLast_cons_cons, hnil, hone]
        · refine .inr ⟨outer, v, ?_, hscope⟩
          rw [List.dropLast_cons_cons]
          cases hd : (j :: p).dropLast with
          | nil => simp [hd, fieldAt?] at hv
          | cons k q =>
            rw [hd] at hv
            simpa [fieldAt?, hu] using hv
      · cases h

/- Nested selects are sealed: with others in their places the statement is put together in the
   same way. -/

mutual

def Expr.reselect (f : Select → Select) : Expr → Expr
  | .compare left op right => .compare (Operand.reselect f left) op (Operand.reselect f right)
  | .not keyword inner => .not keyword (Expr.reselect f inner)
  | .paren inner => .paren (Expr.reselect f inner)
  | .between keyword subject negated andKeyword low high =>
    .between keyword subject negated andKeyword low high
  | .among keyword subject negated select => .among keyword subject negated (f select)

def Operand.reselect (f : Select → Select) : Operand → Operand
  | .value text => .value text
  | .expr e => .expr (Expr.reselect f e)

end

def Condition.reselect (f : Select → Select) (c : Condition) : Condition :=
  { c with expr := c.expr.reselect f }

mutual

/-- The table with `f` applied to the selects in its fields and conditions. -/
def Table.reselect (f : Select → Select) : Table → Table
  | ⟨name, label, single, fields, rowFilter, groupFilter, groupBy, orderBy, limit, offset⟩ =>
    ⟨name, label, single, reselectFields f fields, rowFilter.map (Condition.reselect f),
      groupFilter.map (Condition.reselect f), groupBy, orderBy, limit, offset⟩

def Field.reselect (f : Select → Select) : Field → Field
  | .column c => .column c
  | .relation table => .relation (Table.reselect f table)
  | .subQuery select label => .subQuery (f select) label

def reselectFields (f : Select → Select) : List Field → List Field
  | [] => []
  | field :: rest => Field.reselect f field :: reselectFields f rest

end

section

variable {α : Type}

mutual

theorem Table.collect_reselect (f : Select → Select) (h : String → Field → Option α) :
    (t : Table) → (t.reselect f).collect h = t.collect fun scope field => h scope (field.reselect f)
  | ⟨_, _, _, fields, _, _, _, _, _, _⟩ => collectFields_reselect f h fields _

theorem collectFields_reselect (f : Select → Select) (h : String → Field → Option α) :
    (fields : List Field) → ∀ scope, collectFields h scope (reselectFields f fields) =
      collectFields (fun scope field => h scope (field.reselect f)) scope fields
  | [], _ => rfl
  | .column _ :: rest, scope => by
    simp [reselectFields, Field.reselect, collectFields, collectFields_reselect f h rest]
  | .relation table :: rest, scope => by
    simp [reselectFields, Field.reselect, collectFields, collectFields_reselect f h rest,
      Table.collect_reselect f h table]
  | .subQuery _ _ :: rest, scope => by
    simp [reselectFields, Field.reselect, collectFields, collectFields_reselect f h rest]

end

theorem Table.collectTables_reselect (f : Select → Select) (g : Table → Option α) (t : Table) :
    (t.reselect f).collectTables g = t.collectTables fun u => g (u.reselect f) := by
  have hsame : (fun scope field => inRelations g scope (field.reselect f)) =
      inRelations fun u => g (u.reselect f) := by
    funext scope field
    cases field <;> rfl
  rw [collectTables, collectTables, collect_reselect, hsame]

theorem Table.relations_reselect (f : Select → Select) (t : Table) :
    (t.reselect f).relations = t.relations.map (Table.reselect f) := by
  have htable : (fun (_ : String) (field : Field) => (field.reselect f).table?) =
      fun _ field => field.table?.bind (some ∘ Table.reselect f) := by
    funext _ field
    cases field <;> rfl
  rw [relations, collect_reselect, htable, collect_bind, List.filterMap_eq_map, relations]

mutual

theorem Table.collect_length {h h' : String → Field → Option α}
    (hs : ∀ scope field, (h scope field).isSome = (h' scope field).isSome) :
    (t : Table) → (t.collect h).length = (t.collect h').length
  | ⟨_, _, _, fields, _, _, _, _, _, _⟩ => collectFields_length hs fields _

theorem collectFields_length {h h' : String → Field → Option α}
    (hs : ∀ scope field, (h scope field).isSome = (h' scope field).isSome) :
    (fields : List Field) → ∀ scope,
      (collectFields h scope fields).length = (collectFields h' scope fields).length
  | [], _ => rfl
  | .column c :: rest, scope => by
    simp [collectFields, collectFields_length hs rest, Option.length_toList, hs]
  | .relation table :: rest, scope => by
    simp [collectFields, collectFields_length hs rest, Option.length_toList, hs,
      Table.collect_length hs table]
  | .subQuery _ _ :: rest, scope => by
    simp [collectFields, collectFields_length hs rest, Option.length_toList, hs]

end

end

/- Sections of a statement that list what tables have. -/

/-- The line of a clause that some tables have, under the keyword of the first of them. -/
def clauseLine (casing : Sql.Casing) (clause : Clause) (keywords : List Spelling)
    (body : String → String) : List String :=
  keywords.head?.toList.map fun written =>
    casing.keyword written clause.name ++ " " ++ body (casing.keyword written clause.name)

theorem Sql.listSection_eq (casing : Casing) (clause : Clause) (ls : List Listed) :
    listSection casing clause ls = clauseLine casing clause (ls.map (·.keyword))
      fun _ => ", ".intercalate (ls.flatMap (·.items)) := by
  cases ls <;> rfl

end BracketQuery
