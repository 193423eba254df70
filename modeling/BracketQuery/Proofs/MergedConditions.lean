import BracketQuery.Proofs.ConditionSigns

/-! What the merged conditions of a statement mean. A `where` or `having` is the conjunction of the
conditions that the tables of the select have, each with the value that precedence gives to the
tokens of its author. -/
namespace BracketQuery

variable {f : Filter}

/-- A condition, the keyword of its clause and the scope of the table that has it. -/
structure ScopedCondition (f : Filter) where
  scope : String
  keyword : Keyword f.name
  chain : ChainPhrase

section

variable {v : Atom → Bool}

namespace ScopedCondition

def signs (e : ScopedCondition f) : List Sign := e.chain.signs e.scope

def restriction (casing : Sql.Casing) (e : ScopedCondition f) : Sql.Restriction :=
  ⟨e.keyword.spelling, Sql.formula casing e.scope e.chain.expr, e.chain.expr.hasOr⟩

theorem reads_iff (e : ScopedCondition f) (b : Bool) :
    Reads v .condition e.signs b ↔ b = conditionValue v e.signs := by
  obtain ⟨c, hc⟩ := e.chain.reads v e.scope
  have hv : conditionValue v e.signs = c := hc.value_eq
  rw [hv]
  exact hc.iff_eq b

theorem reads_inParens (e : ScopedCondition f) :
    Reads v .conjunction (inParens e.chain.expr.hasOr e.signs) (conditionValue v e.signs) := by
  cases hor : e.chain.expr.hasOr with
  | true => exact .test (.paren ((e.reads_iff _).2 rfl))
  | false =>
    obtain ⟨b, hb⟩ := e.chain.reads_conjunction v e.scope hor
    have hvalue : conditionValue v e.signs = b := ((e.reads_iff b).1 (.conjunction hb)).symm
    rw [hvalue]
    exact hb

end ScopedCondition

/-- The signs of a clause, which joins its conditions by `and`. Where there are several, one with
`or` stands in parentheses. -/
def clauseSigns (es : List (ScopedCondition f)) : List Sign :=
  [.link .and].intercalate
    (es.map fun e => inParens (!es.tail.isEmpty && e.chain.expr.hasOr) e.signs)

/-- The conditions of a clause are true together, each with the value of its own signs. -/
theorem reads_clauseSigns {es : List (ScopedCondition f)} (hne : es ≠ []) :
    Reads v .condition (clauseSigns es) (es.all fun e => conditionValue v e.signs) := by
  cases es with
  | nil => exact absurd rfl hne
  | cons e es =>
    cases es with
    | nil =>
      have he : Reads v .condition e.signs _ := (e.reads_iff _).2 rfl
      simpa [clauseSigns, inParens] using he
    | cons e' es =>
      have hj := Reads.join hne fun e _ => e.reads_inParens (v := v)
      exact .conjunction hj

end

def ClausePhrase.scoped? (f : Filter) (scope : String) : ClausePhrase → Option (ScopedCondition f)
  | .filter g keyword chain => if h : g = f then some ⟨scope, h ▸ keyword, chain⟩ else none
  | _ => none

/- The conditions that the tables of a select have, a table before the relations in it. -/
mutual

def BodyPhrase.conditions (f : Filter) (scope : String) : BodyPhrase → List (ScopedCondition f)
  | ⟨_, _, fields, clauses⟩ =>
    (clauses.findSome? (ClausePhrase.scoped? f scope)).toList ++ fieldsConditions f fields

def FieldPhrase.conditions (f : Filter) : FieldPhrase → List (ScopedCondition f)
  | .relation name labels _ body _ =>
    BodyPhrase.conditions f ((lastLabel labels).over name.text) body
  | .column .. => []
  | .subQuery .. => []

def fieldsConditions (f : Filter) : List FieldPhrase → List (ScopedCondition f)
  | [] => []
  | g :: gs => FieldPhrase.conditions f g ++ fieldsConditions f gs

end

def SelectPhrase.conditions (f : Filter) : SelectPhrase → List (ScopedCondition f)
  | ⟨_, _, name, label, body⟩ =>
    body.conditions f (((label.map LabelPhrase.label).getD {}).over name)

namespace Sql

def Parts.filters (parts : Parts) : Filter → List Restriction
  | .rows => parts.rowFilters
  | .groups => parts.groupFilters

theorem Parts.filters_append (p q : Parts) (f : Filter) :
    (p ++ q).filters f = p.filters f ++ q.filters f := by
  cases f <;> rfl

theorem filters_tableParts (casing : Casing) (t : Table) (f : Filter) :
    (tableParts casing t).filters f =
      restriction casing t.scope (match f with | .rows => t.rowFilter | .groups => t.groupFilter) ++
        (fieldParts casing t.scope t.fields).filters f := by
  obtain ⟨name, label, single, fields, rowFilter, groupFilter, groupBy, orderBy, limit, offset⟩ := t
  rw [tableParts, Parts.filters_append]
  cases f <;> rfl

end Sql

theorem restriction_conditionOf (casing : Sql.Casing) (scope : String) (f : Filter)
    (clauses : List ClausePhrase) : Sql.restriction casing scope (conditionOf f clauses) =
      (clauses.findSome? (ClausePhrase.scoped? f scope)).toList.map (·.restriction casing) := by
  rw [conditionOf_eq]
  induction clauses with
  | nil => rfl
  | cons c clauses ih =>
    rw [List.findSome?_cons, List.findSome?_cons]
    cases c with
    | filter g keyword chain =>
      by_cases hg : g = f
      · subst hg
        simp [ClausePhrase.condition?, ClausePhrase.scoped?, Sql.restriction,
          ScopedCondition.restriction]
      · simpa [ClausePhrase.condition?, ClausePhrase.scoped?, hg] using ih
    | _ => simpa [ClausePhrase.condition?, ClausePhrase.scoped?] using ih

mutual

theorem BodyPhrase.filters_table (casing : Sql.Casing) (f : Filter) :
    (body : BodyPhrase) → ∀ name label,
      (Sql.tableParts casing (body.table name label)).filters f =
        (body.conditions f (label.over name)).map (·.restriction casing)
  | ⟨single, n, fields, clauses⟩, name, label => by
    have hf := filters_fieldsOf casing f fields (label.over name)
    have hr := restriction_conditionOf casing (label.over name) f clauses
    rw [Sql.filters_tableParts, BodyPhrase.conditions, List.map_append, ← hr, ← hf]
    cases f <;> rfl

theorem FieldPhrase.filters_field (casing : Sql.Casing) (f : Filter) :
    (g : FieldPhrase) → ∀ scope rest,
      (Sql.fieldParts casing scope (g.field :: rest)).filters f =
        (g.conditions f).map (·.restriction casing) ++ (Sql.fieldParts casing scope rest).filters f
  | .column name labels n, scope, rest => by
    simp only [FieldPhrase.field, Sql.fieldParts, Sql.Parts.filters_append]
    cases f <;> rfl
  | .relation name labels gap body n, scope, rest => by
    have hb := BodyPhrase.filters_table casing f body name.text (lastLabel labels)
    simp only [FieldPhrase.field, Sql.fieldParts, Sql.Parts.filters_append, hb,
      FieldPhrase.conditions]
    cases f <;> rfl
  | .subQuery select labels n, scope, rest => by
    simp only [FieldPhrase.field, Sql.fieldParts, Sql.Parts.filters_append]
    cases f <;> rfl

theorem filters_fieldsOf (casing : Sql.Casing) (f : Filter) :
    (gs : List FieldPhrase) → ∀ scope,
      (Sql.fieldParts casing scope (fieldsOf gs)).filters f =
        (fieldsConditions f gs).map (·.restriction casing)
  | [], scope => by cases f <;> rfl
  | g :: gs, scope => by
    rw [fieldsOf, FieldPhrase.filters_field casing f g, filters_fieldsOf casing f gs,
      fieldsConditions, List.map_append]

end

/- The tokens of a condition are tokens of its select. -/

theorem ClausePhrase.tokens_of_scoped? {scope : String} {c : ClausePhrase} {e : ScopedCondition f}
    (h : c.scoped? f scope = some e) : e.chain.tokens ⊆ c.tokens := by
  cases c with
  | filter g keyword chain =>
    simp only [ClausePhrase.scoped?] at h
    split at h
    · cases h
      exact List.subset_cons_of_subset _ (List.Subset.refl _)
    · cases h
  | _ => simp [ClausePhrase.scoped?] at h

mutual

theorem BodyPhrase.tokens_of_conditions (scope : String) : (body : BodyPhrase) →
    ∀ e ∈ body.conditions f scope, e.chain.tokens ⊆ body.tokens
  | ⟨single, n, fields, clauses⟩, e, he => by
    intro t ht
    rcases List.mem_append.1 he with he | he
    · obtain ⟨c, hc, hs⟩ := List.exists_of_findSome?_eq_some (Option.mem_toList.1 he)
      have hm : t ∈ clausesTokens clauses := by
        rw [clausesTokens_eq]
        exact List.mem_flatMap.2 ⟨c, hc, ClausePhrase.tokens_of_scoped? hs ht⟩
      simp [BodyPhrase.tokens, hm]
    · have hm := fieldsTokens_of_conditions fields e he ht
      simp [BodyPhrase.tokens, hm]

theorem FieldPhrase.tokens_of_conditions : (g : FieldPhrase) →
    ∀ e ∈ g.conditions f, e.chain.tokens ⊆ g.tokens
  | .relation name labels gap body n, e, he => by
    intro t ht
    have hm := BodyPhrase.tokens_of_conditions _ body e he ht
    simp [FieldPhrase.tokens, hm]
  | .column .., e, he => by simp [FieldPhrase.conditions] at he
  | .subQuery .., e, he => by simp [FieldPhrase.conditions] at he

theorem fieldsTokens_of_conditions : (gs : List FieldPhrase) →
    ∀ e ∈ fieldsConditions f gs, e.chain.tokens ⊆ fieldsTokens gs
  | [], e, he => by simp [fieldsConditions] at he
  | g :: gs, e, he => by
    intro t ht
    rcases List.mem_append.1 he with he | he
    · exact List.mem_append_left _ (FieldPhrase.tokens_of_conditions g e he ht)
    · exact List.mem_append_right _ (fieldsTokens_of_conditions gs e he ht)

end

theorem SelectPhrase.tokens_of_conditions {q : SelectPhrase} {e : ScopedCondition f}
    (he : e ∈ q.conditions f) : e.chain.tokens ⊆ q.tokens := by
  obtain ⟨keyword, distinct, name, label, body⟩ := q
  intro t ht
  exact List.mem_append_right _ (body.tokens_of_conditions _ e he ht)

/- A select and the selects in it. -/
mutual

def SelectPhrase.selects : SelectPhrase → List SelectPhrase
  | ⟨keyword, distinct, name, label, body⟩ =>
    ⟨keyword, distinct, name, label, body⟩ :: BodyPhrase.selects body

def BodyPhrase.selects : BodyPhrase → List SelectPhrase
  | ⟨_, _, fields, clauses⟩ => fieldsSelects fields ++ clausesSelects clauses

def FieldPhrase.selects : FieldPhrase → List SelectPhrase
  | .column .. => []
  | .relation _ _ _ body _ => BodyPhrase.selects body
  | .subQuery select _ _ => SelectPhrase.selects select

def fieldsSelects : List FieldPhrase → List SelectPhrase
  | [] => []
  | f :: fs => FieldPhrase.selects f ++ fieldsSelects fs

def ClausePhrase.selects : ClausePhrase → List SelectPhrase
  | .filter _ _ chain => ChainPhrase.selects chain
  | .groupBy .. => []
  | .orderBy .. => []
  | .page .. => []

def clausesSelects : List ClausePhrase → List SelectPhrase
  | [] => []
  | c :: cs => ClausePhrase.selects c ++ clausesSelects cs

def ChainPhrase.selects : ChainPhrase → List SelectPhrase
  | .last _ test => TestPhrase.selects test
  | .link _ test _ rest => TestPhrase.selects test ++ ChainPhrase.selects rest

def TestPhrase.selects : TestPhrase → List SelectPhrase
  | .compare .. => []
  | .between .. => []
  | .among _ _ _ select => SelectPhrase.selects select
  | .paren inner => ChainPhrase.selects inner

end

mutual

theorem SelectPhrase.tokens_of_selects : (c : SelectPhrase) →
    ∀ q ∈ c.selects, q.tokens ⊆ c.tokens
  | ⟨keyword, distinct, name, label, body⟩, q, hq => by
    rcases List.mem_cons.1 hq with rfl | hq
    · exact List.Subset.refl _
    · exact fun t ht => List.mem_append_right _ (BodyPhrase.tokens_of_selects body q hq ht)

theorem BodyPhrase.tokens_of_selects : (body : BodyPhrase) →
    ∀ q ∈ body.selects, q.tokens ⊆ body.tokens
  | ⟨single, n, fields, clauses⟩, q, hq => by
    intro t ht
    rcases List.mem_append.1 hq with hq | hq
    · have hm := fieldsTokens_of_selects fields q hq ht
      simp [BodyPhrase.tokens, hm]
    · have hm := clausesTokens_of_selects clauses q hq ht
      simp [BodyPhrase.tokens, hm]

theorem FieldPhrase.tokens_of_selects : (f : FieldPhrase) →
    ∀ q ∈ f.selects, q.tokens ⊆ f.tokens
  | .column .., q, hq => by simp [FieldPhrase.selects] at hq
  | .relation name labels gap body n, q, hq => by
    intro t ht
    have hm := BodyPhrase.tokens_of_selects body q hq ht
    simp [FieldPhrase.tokens, hm]
  | .subQuery select labels n, q, hq => by
    intro t ht
    have hm := SelectPhrase.tokens_of_selects select q hq ht
    simp [FieldPhrase.tokens, hm]

theorem fieldsTokens_of_selects : (fs : List FieldPhrase) →
    ∀ q ∈ fieldsSelects fs, q.tokens ⊆ fieldsTokens fs
  | [], q, hq => by simp [fieldsSelects] at hq
  | f :: fs, q, hq => by
    intro t ht
    rcases List.mem_append.1 hq with hq | hq
    · exact List.mem_append_left _ (FieldPhrase.tokens_of_selects f q hq ht)
    · exact List.mem_append_right _ (fieldsTokens_of_selects fs q hq ht)

theorem ClausePhrase.tokens_of_selects : (c : ClausePhrase) →
    ∀ q ∈ c.selects, q.tokens ⊆ c.tokens
  | .filter _ _ chain, q, hq =>
    fun t ht => List.mem_cons_of_mem _ (ChainPhrase.tokens_of_selects chain q hq ht)
  | .groupBy .., q, hq => by simp [ClausePhrase.selects] at hq
  | .orderBy .., q, hq => by simp [ClausePhrase.selects] at hq
  | .page .., q, hq => by simp [ClausePhrase.selects] at hq

theorem clausesTokens_of_selects : (cs : List ClausePhrase) →
    ∀ q ∈ clausesSelects cs, q.tokens ⊆ clausesTokens cs
  | [], q, hq => by simp [clausesSelects] at hq
  | c :: cs, q, hq => by
    intro t ht
    rcases List.mem_append.1 hq with hq | hq
    · exact List.mem_append_left _ (ClausePhrase.tokens_of_selects c q hq ht)
    · exact List.mem_append_right _ (clausesTokens_of_selects cs q hq ht)

theorem ChainPhrase.tokens_of_selects : (chain : ChainPhrase) →
    ∀ q ∈ chain.selects, q.tokens ⊆ chain.tokens
  | .last negation test, q, hq =>
    fun t ht => List.mem_append_right _ (TestPhrase.tokens_of_selects test q hq ht)
  | .link negation test op rest, q, hq => by
    intro t ht
    rcases List.mem_append.1 hq with hq | hq
    · have hm := TestPhrase.tokens_of_selects test q hq ht
      simp [ChainPhrase.tokens, hm]
    · have hm := ChainPhrase.tokens_of_selects rest q hq ht
      simp [ChainPhrase.tokens, hm]

theorem TestPhrase.tokens_of_selects : (test : TestPhrase) →
    ∀ q ∈ test.selects, q.tokens ⊆ test.tokens
  | .compare .., q, hq => by simp [TestPhrase.selects] at hq
  | .between .., q, hq => by simp [TestPhrase.selects] at hq
  | .among subject negation keyword select, q, hq => by
    intro t ht
    have hm := SelectPhrase.tokens_of_selects select q hq ht
    simp [TestPhrase.tokens, hm]
  | .paren inner, q, hq => by
    intro t ht
    have hm := ChainPhrase.tokens_of_selects inner q hq ht
    simp [TestPhrase.tokens, hm]

end

/- The clauses of a statement. -/

def Select.casing (s : Select) : Sql.Casing := .ofSelect s.keyword

def Select.restrictions (s : Select) (f : Filter) : List Sql.Restriction :=
  (Sql.tableParts s.casing s.table).filters f

/-- The clause as it stands in the statement, if there is one. -/
def Select.filterText (s : Select) (f : Filter) : List String :=
  Sql.filterSection s.casing f (s.restrictions f)

theorem Select.render_filterText (s : Select) (f : Filter) :
    ∃ before after,
      s.render = "\n" ++ String.join ((before ++ s.filterText f ++ after).map (· ++ "\n")) := by
  obtain ⟨keyword, distinct, distinctKeyword, table⟩ := s
  let casing := Sql.Casing.ofSelect keyword
  let parts := Sql.tableParts casing table
  let front :=
    [Sql.columnSection (Sql.headText casing keyword distinct distinctKeyword) parts.columns,
    casing.apply "from" ++ " " ++ table.name ++ Sql.labelText casing table.label] ++ parts.joins
  let back := Sql.listSection casing .orderBy parts.orderings ++
    Sql.limitSection casing table parts.limits ++ Sql.offsetSection casing parts.offsets
  let groupings := Sql.listSection casing .groupBy parts.groupings
  cases f with
  | rows =>
    refine ⟨front, groupings ++ Sql.filterSection casing .groups parts.groupFilters ++ back, ?_⟩
    simp only [Select.render, Sql.ofSelect, Sql.statementText, Sql.sections, front, groupings, back,
      List.append_assoc]
    rfl
  | groups =>
    refine ⟨front ++ Sql.filterSection casing .rows parts.rowFilters ++ groupings, back, ?_⟩
    simp only [Select.render, Sql.ofSelect, Sql.statementText, Sql.sections, front, groupings, back,
      List.append_assoc]
    rfl

theorem SelectPhrase.restrictions_select (q : SelectPhrase) (f : Filter) :
    q.select.restrictions f = (q.conditions f).map (·.restriction q.select.casing) := by
  obtain ⟨keyword, distinct, name, label, body⟩ := q
  exact body.filters_table _ f name _

/-- The clause of a select stands for the conjunction of the conditions of its tables. It is one
section of the statement, made of signs after its keyword. However the atoms are valued, each
condition has one value as its author wrote it, the clause has one value, and that is true if all of
those are. -/
structure MergesConditions (q : SelectPhrase) (f : Filter) : Prop where
  placed : ∃ before after, q.select.render =
    "\n" ++ String.join ((before ++ q.select.filterText f ++ after).map (· ++ "\n"))
  absent : q.conditions f = [] → q.select.filterText f = []
  written : q.conditions f ≠ [] → ∃ keyword body,
    q.select.filterText f = [keyword ++ " " ++ body] ∧ spells keyword f.name = true ∧
      Laid (clauseSigns (q.conditions f)) body
  value : q.conditions f ≠ [] → ∀ v : Atom → Bool, ∃ val : ScopedCondition f → Bool,
    (∀ e ∈ q.conditions f, ∀ b, Reads v .condition e.signs b ↔ b = val e) ∧
      ∀ b, Reads v .condition (clauseSigns (q.conditions f)) b ↔ b = (q.conditions f).all val

theorem SelectPhrase.mergesConditions {q : SelectPhrase} (h : ∀ t ∈ q.tokens, t.Scanned)
    (f : Filter) : MergesConditions q f := by
  have hr := q.restrictions_select f
  have hw : ∀ e ∈ q.conditions f, (e.restriction q.select.casing).formula.Writes e.signs :=
    fun e he => e.chain.writes fun t ht => h t (q.tokens_of_conditions he ht)
  refine ⟨q.select.render_filterText f, fun hn => ?_, fun hne => ?_, fun hne v => ?_⟩
  · rw [Select.filterText, hr, hn]
    rfl
  · rw [Select.filterText, hr]
    cases hc : q.conditions f with
    | nil => exact absurd hc hne
    | cons e es =>
      rw [hc] at hw
      obtain ⟨body, htext, hbody⟩ := Sql.restrictionText_laid q.select.casing f.name hw
      have hk : isAscii f.name = true := by cases f <;> decide
      exact ⟨_, body, congrArg (fun x => [x]) htext,
        q.select.casing.spells_keyword hk e.keyword.spelled, hbody⟩
  · exact ⟨fun e => conditionValue v e.signs, fun e _ b => e.reads_iff b,
      fun b => (reads_clauseSigns hne).iff_eq b⟩

/-- In the statement of a query, and of each select in it, `where` and `having` mean what the
conditions of the tables mean together. -/
theorem compile_mergesConditions {limit : Nat} {text : String} {s : Select}
    (h : compile limit text = .ok s) :
    ∃ (ts : List Token) (c : SelectPhrase), Token.scan text = .ok ts ∧ c.Valid false ∧
      c.tokens = Token.significant ts ∧ c.select = s ∧
      ∀ q ∈ c.selects, ∀ f, MergesConditions q f := by
  obtain ⟨ts, hscan, hread⟩ := compile_eq_ok h
  obtain ⟨c, hv, htokens, hselect⟩ := Select.ofTokens_phrase false hread (by simp)
  refine ⟨ts, c, hscan, hv, htokens, hselect, fun q hq f => q.mergesConditions (fun t ht => ?_) f⟩
  have hm := c.tokens_of_selects q hq ht
  rw [htokens] at hm
  exact Token.scan_scanned hscan t (List.mem_filter.1 hm).1

/-- The condition of the relation has an `or`, so it comes out in parentheses. Both negations stay
with the words that they belong to. -/
theorem compile_mergesConditions_relation :
    let text := "select a [b [] where x = 1 or y NOT between 2 and 3] where z not in (select c [d])"
    let own := Expr.among none "z" true { table := { name := "c", fields := [.column ⟨"d", {}⟩] } }
    let other := Expr.link (.compare (.value "x") "=" (.value "1")) "or"
      (.between none "y" true none "2" "3")
    let b : Table := { name := "b", rowFilter := some { expr := other } }
    let a : Table := { name := "a", fields := [.relation b], rowFilter := some { expr := own } }
    let s : Select := { table := a }
    compile 3 text = .ok s ∧
      s.filterText .rows = ["where a.z not in (\n  select\n    c.d\n  from c\n)\n" ++
        "  and (b.x = 1 or b.y not between 2 and 3)"] ∧
      ∃ (ts : List Token) (c : SelectPhrase), Token.scan text = .ok ts ∧ c.Valid false ∧
        c.tokens = Token.significant ts ∧ c.select = s ∧
        ∀ q ∈ c.selects, ∀ f, MergesConditions q f := by
  intro text own other b a s
  have hscan : Token.scan text =
      .ok [.word "select", .word "a", .symbol "[", .word "b", .symbol "[", .symbol "]",
        .word "where", .word "x", .symbol "=", .word "1", .word "or", .word "y", .word "NOT",
        .word "between", .word "2", .word "and", .word "3", .symbol "]", .word "where", .word "z",
        .word "not", .word "in", .symbol "(", .word "select", .word "c", .symbol "[", .word "d",
        .symbol "]", .symbol ")"] :=
    scan_of_toOption (by decide +kernel)
  have hs : compile 3 text = .ok s := by
    rw [compile, hscan]
    rfl
  exact ⟨hs, by decide +kernel, compile_mergesConditions hs⟩

end BracketQuery
