import BracketQuery.Proofs.Frame
import BracketQuery.Proofs.Paging

/-! Nested selects in the text of a statement. A nested select stands there line by line as it would
stand alone, two blanks further to the right for each level, and its parentheses end and begin the
lines around it. -/
namespace BracketQuery

/- The selects in a select. -/

mutual

def Expr.selects : Expr → List Select
  | .compare left _ right => Operand.selects left ++ Operand.selects right
  | .not _ inner => Expr.selects inner
  | .paren inner => Expr.selects inner
  | .between .. => []
  | .among _ _ _ select => [select]

def Operand.selects : Operand → List Select
  | .value _ => []
  | .expr e => Expr.selects e

end

def Field.select? : Field → Option Select
  | .subQuery select _ => some select
  | _ => none

def Table.tested (t : Table) : List Select :=
  (t.rowFilter.toList ++ t.groupFilter.toList).flatMap (·.expr.selects)

/-- The selects one level down: the sub-queries among the fields, and the selects in the conditions.
The fields and conditions of relations count as well, since they are on the same level. -/
def Select.inner (s : Select) : List Select :=
  s.table.collect (fun _ field => field.select?) ++
    (s.table :: s.table.relations).flatMap Table.tested

def Select.nestedAt : Nat → Select → List Select
  | 0, s => [s]
  | k + 1, s => s.inner.flatMap (nestedAt k)

/- Parts of a text. -/

namespace Text

def Occurs (part text : String) : Prop := ∃ before after, text = before ++ part ++ after

variable {part s t : String}

theorem Occurs.refl (part : String) : Occurs part part := ⟨"", "", by simp⟩

theorem Occurs.within (h : Occurs part s) : part.toList <:+: s.toList := by
  obtain ⟨before, after, rfl⟩ := h
  exact ⟨before.toList, after.toList, by simp⟩

theorem Occurs.before (h : Occurs part s) (t : String) : Occurs part (s ++ t) := by
  obtain ⟨before, after, rfl⟩ := h
  exact ⟨before, after ++ t, by simp [String.append_assoc]⟩

theorem Occurs.after (h : Occurs part t) (s : String) : Occurs part (s ++ t) := by
  obtain ⟨before, after, rfl⟩ := h
  exact ⟨s ++ before, after, by simp [String.append_assoc]⟩

theorem Occurs.join {ss : List String} (h : Occurs part s) (hs : s ∈ ss) :
    Occurs part (String.join ss) := by
  obtain ⟨front, back, rfl⟩ := List.append_of_mem hs
  simpa using (h.before (String.join back)).after (String.join front)

theorem Occurs.intercalate {ss : List String} (h : Occurs part s) (hs : s ∈ ss) (sep : String) :
    Occurs part (sep.intercalate ss) := by
  induction ss with
  | nil => cases hs
  | cons t ss ih =>
    cases ss with
    | nil =>
      obtain rfl : s = t := by simpa using hs
      simpa using h
    | cons u ss =>
      rw [String.intercalate_cons_cons]
      rcases List.mem_cons.1 hs with rfl | hs
      · exact (h.before _).before _
      · exact (ih hs).after _

end Text

open Text (Occurs)

namespace Sql

variable {casing : Casing} {t : Select}

theorem occurs_binaryText {part left right : String} (layout : Layout) (op : String)
    (h : Occurs part left ∨ Occurs part right) : Occurs part (binaryText layout left op right) := by
  unfold binaryText
  rcases h with h | h
  · split <;> exact (((h.before _).before _).before _).before _
  · split <;> exact h.after _

mutual

theorem occurs_formula (scope : String) : (e : Expr) → t ∈ e.selects → ∀ layout,
    Occurs (nestedText (ofSelect t)) ((formula casing scope e).sql layout)
  | .compare left op right, h, layout => by
    rw [formula, Formula.sql]
    refine occurs_binaryText layout _ ?_
    rcases List.mem_append.1 h with h | h
    · exact .inl (occurs_operandFormula scope left h layout)
    · exact .inr (occurs_operandFormula scope right h layout)
  | .not _ inner, h, layout => by
    rw [formula, Formula.sql]
    exact (occurs_formula scope inner h layout).after _
  | .paren inner, h, _ => by
    rw [formula, Formula.sql]
    exact ((occurs_formula scope inner h .inline).after _).before _
  | .between .., h, _ => by cases h
  | .among _ _ _ select, h, _ => by
    obtain rfl : t = select := by simpa [Expr.selects] using h
    rw [formula, Formula.sql]
    exact (Occurs.refl _).after _

theorem occurs_operandFormula (scope : String) : (o : Operand) → t ∈ o.selects → ∀ layout,
    Occurs (nestedText (ofSelect t)) ((operandFormula casing scope o).sql layout)
  | .value _, h, _ => by cases h
  | .expr e, h, layout => by
    rw [operandFormula]
    exact occurs_formula scope e h layout

end

theorem occurs_filterSection {part : String} {f : Filter} {rs : List Restriction} {r : Restriction}
    (hr : r ∈ rs) (h : ∀ layout, Occurs part (r.formula.sql layout)) :
    ∃ line ∈ filterSection casing f rs, Occurs part line := by
  have hsql (width : Nat) (several : Bool) : Occurs part (r.sql width several) := by
    unfold Restriction.sql
    split
    · exact ((h .inline).after _).before _
    · exact h _
  cases rs with
  | nil => cases hr
  | cons first others =>
    refine ⟨_, List.mem_singleton.2 rfl, ?_⟩
    exact ((hsql _ _).intercalate (List.mem_map.2 ⟨r, hr, rfl⟩) _).after _

theorem occurs_statementText {part line : String} {ls : List String} (h : Occurs part line)
    (hl : line ∈ ls) : Occurs part (statementText ls) :=
  ((h.before "\n").join (List.mem_map.2 ⟨line, hl, rfl⟩)).after _

end Sql

/- A nested select in the select around it. -/

theorem Table.exists_collect {α β : Type} {h : String → Field → Option α} {t : Table} {a : α}
    (ha : a ∈ t.collect h) (g : String → Field → Option β) :
    ∃ scope field, h scope field = some a ∧ ∀ b ∈ g scope field, b ∈ t.collect g := by
  have hcollect {γ : Type} (f : String → Field → Option γ) :
      t.collect f =
        (t.collect fun scope field => some (scope, field)).filterMap fun p => f p.1 p.2 :=
    t.collect_bind (fun scope field => some (scope, field)) fun p => f p.1 p.2
  rw [hcollect, List.mem_filterMap] at ha
  obtain ⟨⟨scope, field⟩, hp, hfield⟩ := ha
  refine ⟨scope, field, hfield, fun b hb => ?_⟩
  rw [hcollect, List.mem_filterMap]
  exact ⟨(scope, field), hp, hb⟩

namespace Sql

variable {table : Table} {t : Select}

theorem occurs_columnSection {casing : Casing}
    (h : t ∈ table.collect fun _ field => field.select?) (head : String) :
    Occurs (nestedText (ofSelect t)) (columnSection head (tableParts casing table).columns) := by
  obtain ⟨scope, field, hfield, hcolumn⟩ := table.exists_collect h (Field.columnText? casing)
  cases field with
  | column c => cases hfield
  | relation u => cases hfield
  | subQuery select label =>
    cases hfield
    have hmem := hcolumn _ rfl
    rw [tableParts_eq, columnSection, if_neg (by simpa using List.ne_nil_of_mem hmem)]
    exact (((Occurs.refl _).before _).intercalate hmem _).after _

theorem occurs_filterSections (casing : Casing)
    (h : t ∈ (table :: table.relations).flatMap Table.tested) :
    ∃ f, ∃ line ∈ filterSection casing f ((tableParts casing table).filters f),
      Occurs (nestedText (ofSelect t)) line := by
  obtain ⟨u, hu, htested⟩ := List.mem_flatMap.1 h
  obtain ⟨c, hc, ht⟩ := List.mem_flatMap.1 htested
  have hfilter : ∃ f, u.condition? f = some c := by
    rcases List.mem_append.1 hc with hc | hc
    · exact ⟨.rows, Option.mem_toList.1 hc⟩
    · exact ⟨.groups, Option.mem_toList.1 hc⟩
  obtain ⟨f, hf⟩ := hfilter
  have hr : ∃ r, u.restriction? casing f = some r ∧ r.formula = formula casing u.scope c.expr := by
    simp [Table.restriction?, hf]
  obtain ⟨r, hr, hformula⟩ := hr
  have hmem : r ∈ (tableParts casing table).filters f := by
    rw [filters_tableParts_eq, Table.collectTables_eq]
    exact List.mem_filterMap.2 ⟨u, hu, hr⟩
  refine ⟨f, occurs_filterSection hmem fun layout => ?_⟩
  rw [hformula]
  exact occurs_formula u.scope c.expr ht layout

end Sql

theorem Select.occurs_inner {s t : Select} (h : t ∈ s.inner) :
    Occurs (Sql.nestedText t.render) s.render := by
  rcases List.mem_append.1 h with h | h
  · obtain ⟨keyword, distinct, distinctKeyword, table⟩ := s
    exact Sql.occurs_statementText (Sql.occurs_columnSection h _) List.mem_cons_self
  · obtain ⟨f, line, hl, hline⟩ := Sql.occurs_filterSections s.casing h
    obtain ⟨before, after, hs⟩ := s.render_filterText f
    rw [hs]
    exact Sql.occurs_statementText hline (List.mem_append_left _ (List.mem_append_right _ hl))

/- Lines. -/

namespace Text

/-- The lines, each after a line feed and `n` blanks. -/
def rows (n : Nat) (ls : List (List Char)) : List Char :=
  ls.flatMap fun l => '\n' :: (List.replicate n ' ' ++ l)

@[simp] theorem rows_cons (n : Nat) (l : List Char) (ls : List (List Char)) :
    rows n (l :: ls) = '\n' :: (List.replicate n ' ' ++ l) ++ rows n ls := List.flatMap_cons

/-- The lines between parentheses, `k + 1` levels in. -/
def enclosed (k : Nat) (ls : List (List Char)) : List Char :=
  '(' :: rows (2 * (k + 1)) ls ++ rows (2 * k) [[')']]

theorem enclosed_last (k : Nat) (ls : List (List Char)) : (enclosed k ls).getLast? = some ')' := by
  have hrow : rows (2 * k) [[')']] = '\n' :: List.replicate (2 * k) ' ' ++ [')'] := by simp [rows]
  rw [enclosed, hrow, ← List.append_assoc]
  exact List.getLast?_concat

/-- Two blanks after each line feed. -/
def indentAll (cs : List Char) : List Char :=
  cs.flatMap fun c => if c = '\n' then ['\n', ' ', ' '] else [c]

@[simp] theorem indentAll_append (cs ds : List Char) :
    indentAll (cs ++ ds) = indentAll cs ++ indentAll ds := List.flatMap_append

theorem indentAll_cons (c : Char) (cs : List Char) :
    indentAll (c :: cs) = indentAll [c] ++ indentAll cs := indentAll_append [c] cs

theorem indentAll_of_oneLine {cs : List Char} (h : '\n' ∉ cs) : indentAll cs = cs := by
  induction cs with
  | nil => rfl
  | cons c cs ih =>
    rw [List.mem_cons, not_or] at h
    rw [indentAll_cons, ih h.2]
    simp [indentAll, Ne.symm h.1]

theorem indentAll_rows {ls : List (List Char)} (h : ∀ l ∈ ls, '\n' ∉ l) (n : Nat) :
    indentAll (rows n ls) = rows (n + 2) ls := by
  induction ls with
  | nil => rfl
  | cons l ls ih =>
    rw [List.forall_mem_cons] at h
    have hl : '\n' ∉ List.replicate n ' ' ++ l := by simp [h.1]
    have hblanks : List.replicate (n + 2) ' ' = ' ' :: ' ' :: List.replicate n ' ' := rfl
    rw [rows_cons, indentAll_append, ih h.2, indentAll_cons, indentAll_of_oneLine hl, rows_cons,
      hblanks]
    rfl

theorem indentAll_enclosed {ls : List (List Char)} (h : ∀ l ∈ ls, '\n' ∉ l) (k : Nat) :
    indentAll (enclosed k ls) = enclosed (k + 1) ls := by
  have hparen : ∀ l ∈ [[')']], '\n' ∉ l := by simp
  rw [enclosed, indentAll_append, indentAll_cons, indentAll_rows h, indentAll_rows hparen]
  rfl

theorem indentInner_append (cs : List Char) {ds : List Char} (h : '\n' ∈ ds) :
    indentInner (cs ++ ds) = indentAll cs ++ indentInner ds := by
  induction cs with
  | nil => rfl
  | cons c cs ih =>
    have hmem : (cs ++ ds).contains '\n' = true := by simp [h]
    rw [List.cons_append, indentInner, hmem, ih]
    by_cases hc : c = '\n' <;> simp [indentAll, hc]

/- Cutting at line feeds. -/

theorem splitOn_cons (c : Char) (cs : List Char) : ∃ l ls, cs.splitOn '\n' = l :: ls ∧
    (c :: cs).splitOn '\n' = if c = '\n' then [] :: l :: ls else (c :: l) :: ls := by
  cases hs : cs.splitOn '\n' with
  | nil => exact absurd hs (List.splitOn_ne_nil _ _)
  | cons l ls =>
    refine ⟨l, ls, rfl, ?_⟩
    rw [List.splitOn_cons_eq_if_modifyHead, hs]
    simp

theorem oneLine_of_splitOn (cs : List Char) : ∀ l ∈ cs.splitOn '\n', '\n' ∉ l := by
  induction cs with
  | nil => simp
  | cons c cs ih =>
    obtain ⟨l, ls, hcs, hcons⟩ := splitOn_cons c cs
    rw [hcs, List.forall_mem_cons] at ih
    rw [hcons]
    split
    · simpa using ih
    · rename_i hc
      simpa [Ne.symm hc] using ih

theorem rows_splitOn (cs : List Char) : rows 0 (cs.splitOn '\n') = '\n' :: cs := by
  induction cs with
  | nil => rfl
  | cons c cs ih =>
    obtain ⟨l, ls, hcs, hcons⟩ := splitOn_cons c cs
    rw [hcs] at ih
    rw [hcons]
    split
    · rename_i hc
      rw [rows_cons, ih, hc]
      rfl
    · rw [rows_cons] at ih ⊢
      simpa using ih

theorem splitOn_front {front : List Char} (h : '\n' ∉ front) (cs : List Char) :
    ∃ l ls, (front ++ cs).splitOn '\n' = (front ++ l) :: ls := by
  induction front with
  | nil => exact List.exists_cons_of_ne_nil (List.splitOn_ne_nil _ _)
  | cons c front ih =>
    rw [List.mem_cons, not_or] at h
    obtain ⟨l, ls, hls⟩ := ih h.2
    obtain ⟨m, ms, hms, hcons⟩ := splitOn_cons c (front ++ cs)
    rw [hls] at hms
    cases hms
    refine ⟨l, ls, ?_⟩
    rw [List.cons_append, hcons, if_neg (Ne.symm h.1)]
    rfl

theorem splitOn_back {back : List Char} (h : '\n' ∉ back) (cs : List Char) :
    ∃ ls l, (cs ++ back).splitOn '\n' = ls ++ [l ++ back] := by
  induction cs with
  | nil => exact ⟨[], [], List.splitOn_eq_singleton h⟩
  | cons c cs ih =>
    obtain ⟨ls, l, hls⟩ := ih
    obtain ⟨m, ms, hms, hcons⟩ := splitOn_cons c (cs ++ back)
    rw [hls] at hms
    rw [List.cons_append, hcons]
    cases ls with
    | nil =>
      cases hms
      split
      · exact ⟨[[]], l, rfl⟩
      · exact ⟨[], c :: l, rfl⟩
    | cons m ls =>
      cases hms
      split
      · exact ⟨[] :: m :: ls, l, rfl⟩
      · exact ⟨(c :: m) :: ls, l, rfl⟩

theorem splitOn_rows {ls : List (List Char)} (h : ∀ l ∈ ls, '\n' ∉ l) (n : Nat)
    (before after : List Char) :
    (before ++ rows n ls ++ '\n' :: after).splitOn '\n' = before.splitOn '\n' ++
      ls.map (List.replicate n ' ' ++ ·) ++ after.splitOn '\n' := by
  induction ls generalizing before with
  | nil => simp [rows, List.splitOn_append_cons_self]
  | cons l ls ih =>
    rw [List.forall_mem_cons] at h
    have hl : '\n' ∉ List.replicate n ' ' ++ l := by simp [h.1]
    have hrest := ih h.2 (List.replicate n ' ' ++ l)
    rw [List.splitOn_eq_singleton hl] at hrest
    rw [rows_cons, List.cons_append, List.append_assoc, List.cons_append,
      List.splitOn_append_cons_self, hrest]
    simp

end Text

/-- Among the lines of a text, a line that ends with a parenthesis, then the lines of the part,
moved to the right by two blanks for each level, and then a line that starts with the other
parenthesis, one level further out. -/
def Embeds (k : Nat) (part text : List (List Char)) : Prop :=
  ∃ before opening closing after, text = before ++ (opening ++ ['(']) ::
    part.map (List.replicate (2 * k) ' ' ++ ·) ++
      (List.replicate (2 * (k - 1)) ' ' ++ ')' :: closing) :: after

theorem Text.embeds_of_enclosed {k : Nat} {ls : List (List Char)} (h : ∀ l ∈ ls, '\n' ∉ l)
    {cs : List Char} (hcs : enclosed k ls <:+: cs) : Embeds (k + 1) ls (cs.splitOn '\n') := by
  obtain ⟨front, back, rfl⟩ := hcs
  have hopen : '\n' ∉ ['('] := by decide
  have hclose : '\n' ∉ List.replicate (2 * k) ' ' ++ [')'] := by simp
  obtain ⟨before, opening, hopening⟩ := splitOn_back hopen front
  obtain ⟨closing, after, hclosing⟩ := splitOn_front hclose back
  refine ⟨before, opening, closing, after, ?_⟩
  have hsplit := splitOn_rows h (2 * (k + 1)) (front ++ ['('])
    (List.replicate (2 * k) ' ' ++ [')'] ++ back)
  rw [hopening, hclosing] at hsplit
  simpa [enclosed, rows] using hsplit

theorem Select.render_frame (s : Select) : ∃ body, s.render = "\n" ++ body ++ "\n" := by
  obtain ⟨keyword, distinct, distinctKeyword, table⟩ := s
  exact ⟨_, Sql.statementText_eq _ _⟩

namespace Sql

theorem nestedText_toList (sql : String) :
    (nestedText sql).toList = '(' :: Text.indentInner sql.toList ++ [')'] := by
  simp [nestedText, Text.indent]

theorem nestedText_enclosed (body : String) : (nestedText ("\n" ++ body ++ "\n")).toList =
    Text.enclosed 0 (body.toList.splitOn '\n') := by
  have hlast : '\n' ∈ ['\n'] := List.mem_singleton.2 rfl
  have hlines := Text.indentAll_rows (Text.oneLine_of_splitOn body.toList) 0
  have hindent := Text.indentInner_append ('\n' :: body.toList) hlast
  rw [← Text.rows_splitOn, hlines, Text.rows_splitOn] at hindent
  have hframe : ("\n" ++ body ++ "\n").toList = '\n' :: body.toList ++ ['\n'] := by simp
  rw [nestedText_toList, hframe, hindent, Text.enclosed]
  simp [Text.indentInner, Text.rows]

theorem enclosed_nestedText {k : Nat} {ls : List (List Char)} (h : ∀ l ∈ ls, '\n' ∉ l)
    {body : String} (hk : Text.enclosed k ls <:+: ("\n" ++ body ++ "\n").toList) :
    Text.enclosed (k + 1) ls <:+: (nestedText ("\n" ++ body ++ "\n")).toList := by
  obtain ⟨front, back, hsplit⟩ := hk
  -- The last line feed comes after the parenthesis, so all that is enclosed gets indented.
  have hback : '\n' ∈ back := by
    have hend : ("\n" ++ body ++ "\n").toList.getLast? = some '\n' := by
      rw [String.toList_append]
      exact List.getLast?_concat
    rw [← hsplit, List.getLast?_append] at hend
    cases hb : back.getLast? with
    | none => simp [hb, Text.enclosed_last] at hend
    | some c =>
      obtain rfl : c = '\n' := by simpa [hb] using hend
      exact List.mem_of_getLast? hb
  rw [nestedText_toList, ← hsplit, Text.indentInner_append _ hback, Text.indentAll_append,
    Text.indentAll_enclosed h]
  exact ⟨'(' :: Text.indentAll front, Text.indentInner back ++ [')'], by simp⟩

end Sql

/-- The lines of a select stand enclosed in every statement that it is nested in. -/
theorem Select.enclosed_of_nestedAt {s t : Select} {k : Nat} (h : t ∈ s.nestedAt (k + 1))
    {body : String} (hbody : t.render = "\n" ++ body ++ "\n") :
    Text.enclosed k (body.toList.splitOn '\n') <:+: s.render.toList := by
  induction k generalizing s with
  | zero =>
    obtain ⟨u, hu, htu⟩ := List.mem_flatMap.1 h
    obtain rfl : t = u := List.mem_singleton.1 htu
    have hinner := (occurs_inner hu).within
    rwa [hbody, Sql.nestedText_enclosed] at hinner
  | succ k ih =>
    obtain ⟨u, hu, htu⟩ := List.mem_flatMap.1 h
    obtain ⟨outer, houter⟩ := u.render_frame
    have hinner := (occurs_inner hu).within
    have hdeeper := ih htu
    rw [houter] at hinner hdeeper
    exact (Sql.enclosed_nestedText (Text.oneLine_of_splitOn _) hdeeper).trans hinner

/-- A nested select is embedded in the statement line by line. -/
theorem Select.render_embeds {s t : Select} {k : Nat} (hk : 1 ≤ k) (h : t ∈ s.nestedAt k) :
    ∃ body, t.render = "\n" ++ body ++ "\n" ∧
      Embeds k (body.toList.splitOn '\n') (s.render.toList.splitOn '\n') := by
  obtain ⟨body, hbody⟩ := t.render_frame
  obtain ⟨k, rfl⟩ := Nat.exists_eq_add_of_le' hk
  refine ⟨body, hbody, Text.embeds_of_enclosed (Text.oneLine_of_splitOn _) ?_⟩
  exact enclosed_of_nestedAt h hbody

/-- A select with a condition on two lines, in a condition of a sub-query. -/
theorem render_embeds_twice :
    let text := "select a [(select b [] where x in (select c {y} where z = 1 or w = 2)) as n]"
    let either := Expr.link (.compare (.value "z") "=" (.value "1")) "or"
      (.compare (.value "w") "=" (.value "2"))
    let c : Table := { name := "c", single := true, fields := [.column { name := "y" }],
                       rowFilter := some { expr := either } }
    let t : Select := { table := c }
    let b : Table := { name := "b", rowFilter := some { expr := .among none "x" false t } }
    let a : Table := { name := "a", fields := [.subQuery { table := b } { name := some "n" }] }
    let s : Select := { table := a }
    compile 9 text = .ok s ∧ t ∈ s.nestedAt 2 ∧
      ∃ body, t.render = "\n" ++ body ++ "\n" ∧
        Embeds 2 (body.toList.splitOn '\n') (s.render.toList.splitOn '\n') := by
  intro text either c t b a s
  have hscan : Token.scan text =
      .ok [.word "select", .word "a", .symbol "[", .symbol "(", .word "select", .word "b",
        .symbol "[", .symbol "]", .word "where", .word "x", .word "in", .symbol "(",
        .word "select", .word "c", .symbol "\x7b", .word "y", .symbol "\x7d", .word "where",
        .word "z", .symbol "=", .word "1", .word "or", .word "w", .symbol "=", .word "2",
        .symbol ")", .symbol ")", .word "as", .word "n", .symbol "]"] :=
    scan_of_toOption (by decide +kernel)
  have hs : compile 9 text = .ok s := by
    rw [compile, hscan]
    rfl
  have ht : t ∈ s.nestedAt 2 := List.mem_singleton.2 rfl
  exact ⟨hs, ht, Select.render_embeds (by decide) ht⟩

end BracketQuery
