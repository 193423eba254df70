import BracketQuery.Proofs.Collation
import BracketQuery.Proofs.PlainLayout
import BracketQuery.Proofs.Recasing

/-! The statement of a select with one table, put together from pieces. A piece is a keyword of the
author, which stands as it was written if it has a capital and else follows the casing, or other
text. -/
namespace BracketQuery
open Sql

/- Capitals. -/

def hasCapital (w : String) : Bool := w.toList.any Char.isUpper

theorem toLower_eq_self_iff (c : Char) : c.toLower = c ↔ c.isUpper = false := by
  unfold Char.toLower Char.isUpper
  split
  · rename_i hc
    simp only [hc, and_self, decide_true, Bool.true_eq_false, iff_false]
    intro he
    have hv := congrArg Char.val he
    simp at hv
  · rename_i hc
    exact iff_of_true rfl (decide_eq_false hc)

theorem folded_eq_self_iff (w : String) : folded w.toList = w.toList ↔ hasCapital w = false := by
  rw [folded, hasCapital, List.any_eq_false]
  constructor
  · intro h c hc
    have hid := List.map_inj_left.1 (h.trans (List.map_id _).symm) c hc
    simp [(toLower_eq_self_iff c).1 hid]
  · intro h
    refine (List.map_congr_left fun c hc => ?_).trans (List.map_id _)
    exact (toLower_eq_self_iff c).2 (by simpa using h c hc)

namespace Text

theorem lowerFrom_ascii {cs : List Char} (h : ∀ c ∈ cs, c.toNat < 128) (before : List Char) :
    lowerFrom before cs = folded cs := by
  have hall : ∀ n < 128, lowerChar (Char.ofNat n) = [(Char.ofNat n).toLower] := by decide +kernel
  induction cs generalizing before with
  | nil => rfl
  | cons c cs ih =>
    rw [List.forall_mem_cons] at h
    have hsigma : c ≠ 'Σ' := by
      rintro rfl
      exact absurd h.1 (by decide)
    have hc : lowerChar c = [c.toLower] := by simpa using hall c.toNat h.1
    rw [lowerFrom, if_neg hsigma, hc, ih h.2]
    rfl

end Text

/- Pieces of a statement. -/

/-- A piece of a statement: a keyword of the author or other text. -/
inductive Piece where
  | keyword (written : String)
  | text (sql : String)

namespace Piece

def keyword? : Piece → Option String
  | .keyword written => some written
  | .text _ => none

theorem keyword?_eq_some {p : Piece} {w : String} : p.keyword? = some w ↔ p = .keyword w := by
  cases p <;> simp [keyword?]

/-- A keyword with a capital stands as it was written, and others follow the casing. -/
def sql (casing : Casing) : Piece → String
  | .keyword written => if hasCapital written then written else casing.apply written
  | .text sql => sql

end Piece

def piecesText (casing : Casing) (ps : List Piece) : String := String.join (ps.map (·.sql casing))

variable (casing : Casing)

@[simp] theorem piecesText_nil : piecesText casing [] = "" := rfl

@[simp] theorem piecesText_cons (p : Piece) (ps : List Piece) :
    piecesText casing (p :: ps) = p.sql casing ++ piecesText casing ps := by
  simp [piecesText]

@[simp] theorem piecesText_append (ps qs : List Piece) :
    piecesText casing (ps ++ qs) = piecesText casing ps ++ piecesText casing qs := by
  simp [piecesText]

@[simp] theorem Piece.sql_text (s : String) : (Piece.text s).sql casing = s := rfl

theorem exists_piecesText {w : String} {ps : List Piece} (h : .keyword w ∈ ps)
    (hw : hasCapital w = true) : ∃ before after, piecesText casing ps = before ++ w ++ after := by
  obtain ⟨front, back, rfl⟩ := List.append_of_mem h
  refine ⟨piecesText casing front, piecesText casing back, ?_⟩
  simp [Piece.sql, hw, String.append_assoc]

theorem piecesText_intercalate (sep : String) (parts : List (List Piece)) :
    piecesText casing ([.text sep].intercalate parts) =
      sep.intercalate (parts.map (piecesText casing)) := by
  induction parts with
  | nil => simp
  | cons part parts ih =>
    cases parts with
    | nil => simp
    | cons next parts =>
      simp only [List.map_cons] at ih
      simp [List.intercalate_cons_cons, String.intercalate_cons_cons, ih, String.append_assoc]

theorem Piece.sql_keyword {w canonical : String} (h : (Spelling.ofWord w canonical).Fits canonical)
    (hk : hasCapital canonical = false) :
    casing.keyword (.ofWord w canonical) canonical = (Piece.keyword w).sql casing := by
  unfold Casing.keyword
  by_cases hw : w = canonical
  · simp [Spelling.ofWord, hw, Piece.sql, hk]
  · have hspelling : Spelling.ofWord w canonical = some w := if_neg hw
    have hcapital : hasCapital w = true := by
      rw [hspelling] at h
      have hfold := beq_iff_eq.1 (h w rfl)
      rw [(folded_eq_self_iff canonical).2 hk] at hfold
      rw [← Bool.not_eq_false, ← folded_eq_self_iff, hfold]
      exact fun he => hw (String.toList_inj.1 he).symm
    simp [hspelling, Piece.sql, hcapital]

theorem Piece.sql_word {w : String} (h : isAscii w = true) :
    casing.word w = (Piece.keyword w).sql casing := by
  have hs : ∀ c ∈ w.toList, c.toNat < 128 := by simpa [isAscii] using h
  have hlower : Text.lowercase w = String.ofList (folded w.toList) := by
    rw [Text.lowercase, Text.lowerFrom_ascii hs]
  have hiff : w = Text.lowercase w ↔ hasCapital w = false := by
    rw [← folded_eq_self_iff, hlower, ← String.toList_inj, String.toList_ofList]
    exact eq_comm
  by_cases hw : w = Text.lowercase w
  · rw [Casing.word, if_pos hw, Piece.sql, hiff.1 hw]
    rfl
  · have hcapital : hasCapital w = true := by
      rw [← Bool.not_eq_false, ← hiff]
      exact hw
    rw [Casing.word, if_neg hw, Piece.sql, hcapital]
    rfl

theorem Piece.length_word {w : String} (h : isAscii w = true) :
    (casing.word w).length = w.length := by
  have halike : Alike (casing.word w) w := by
    have hspells := congrFun (casing.spells_word h) w
    simpa [spells, Alike] using hspells
  exact halike.length_eq

/- The statement in pieces. -/

def LabelPhrase.pieces (l : LabelPhrase) : List Piece :=
  [.text " ", .keyword l.keyword.text, .text (" " ++ l.name)]

/-- Of several labels only the last one is left. -/
def lastPieces (labels : List (Nat × LabelPhrase)) : List Piece :=
  labels.getLast?.toList.flatMap (·.2.pieces)

def negationPieces (negation : Option (Keyword "not")) : List Piece :=
  negation.toList.flatMap fun k => [.keyword k.text, .text " "]

/-- A connective is at the end of a line of its own or between two blanks. -/
def linkPieces (layout : Layout) (op : String) : List Piece :=
  match layout with
  | .inline => [.text " ", .keyword op, .text " "]
  | .aligned width =>
    [.text ("\n" ++ String.ofList (List.replicate (width - op.length) ' ')), .keyword op, .text " "]

mutual

def ChainPhrase.pieces (casing : Casing) (scope : String) (layout : Layout) :
    ChainPhrase → List Piece
  | .last negation test => negationPieces negation ++ TestPhrase.pieces casing scope test
  | .link negation test op rest =>
    negationPieces negation ++ TestPhrase.pieces casing scope test ++ linkPieces layout op.text ++
      ChainPhrase.pieces casing scope layout rest

/-- The `not` before `between` or `in` is no keyword of the author any more. -/
def TestPhrase.pieces (casing : Casing) (scope : String) : TestPhrase → List Piece
  | .compare left op right =>
    [.text (qualify left scope ++ " "), .keyword op.text, .text (" " ++ qualify right scope)]
  | .between subject negation keyword low andKeyword high =>
    [.text (qualify subject scope ++ " " ++ negationText casing negation.isSome),
      .keyword keyword.text, .text (" " ++ qualify low scope ++ " "), .keyword andKeyword.text,
      .text (" " ++ qualify high scope)]
  | .among subject negation keyword select =>
    [.text (qualify subject scope ++ " " ++ negationText casing negation.isSome),
      .keyword keyword.text, .text (" " ++ nestedText (ofSelect select.select))]
  | .paren inner =>
    .text "(" :: ChainPhrase.pieces casing scope .inline inner ++ [.text ")"]

end

def EntryPhrase.pieces (casing : Casing) (scope : String) (e : EntryPhrase) : List Piece :=
  .text (qualify e.column scope) ::
    e.collation.toList.flatMap (fun p =>
      [.text " ", .keyword p.keyword.text, .text (" " ++ modifierText casing p.name)]) ++
    (e.direction.toList.flatMap DirectionPhrase.words).flatMap fun w => [.text " ", .keyword w]

def ClausePhrase.pieces (casing : Casing) (scope : String) : ClausePhrase → List Piece
  | .filter _ keyword chain =>
    .keyword keyword.text :: .text " " ::
      chain.pieces casing scope (.aligned keyword.text.length)
  | .groupBy keyword front last =>
    [.keyword keyword.text,
      .text (" " ++ ", ".intercalate ((front ++ [last]).map (qualify · scope)))]
  | .orderBy keyword front last =>
    .keyword keyword.text :: .text " " ::
      [.text ", "].intercalate ((front ++ [last]).map (·.pieces casing scope))
  | .page _ keyword value => [.keyword keyword.text, .text (" " ++ value)]

def FieldPhrase.pieces (scope : String) : FieldPhrase → List Piece
  | .column name labels _ => .text (qualify name.text scope) :: lastPieces labels
  | .subQuery select labels _ => .text (nestedText (ofSelect select.select)) :: lastPieces labels
  | .relation .. => []

namespace SelectPhrase

def scope (q : SelectPhrase) : String := ((q.label.map LabelPhrase.label).getD {}).over q.name

def columnPieces (q : SelectPhrase) : List Piece :=
  .keyword q.keyword.text :: q.distinct.toList.flatMap (fun d => [.text " ", .keyword d.text]) ++
    .text "\n  " ::
      if q.body.fields.isEmpty then [.text "*"]
      else [.text "\n, "].intercalate (q.body.fields.map (·.pieces q.scope))

def fromPieces (casing : Casing) (q : SelectPhrase) : List Piece :=
  .text (casing.apply "from" ++ " " ++ q.name) :: q.label.toList.flatMap LabelPhrase.pieces

def clausePieces (casing : Casing) (q : SelectPhrase) (k : Clause) : List (List Piece) :=
  (clauseOf k q.body.clauses).toList.map (·.pieces casing q.scope)

def limitPieces (casing : Casing) (q : SelectPhrase) : List (List Piece) :=
  if q.body.single && (clauseOf (.page .limit) q.body.clauses).isNone then
    [[.text (casing.apply "limit" ++ " 1")]]
  else q.clausePieces casing (.page .limit)

def sectionPieces (casing : Casing) (q : SelectPhrase) : List (List Piece) :=
  [q.columnPieces, q.fromPieces casing] ++ q.clausePieces casing (.filter .rows) ++
    q.clausePieces casing .groupBy ++ q.clausePieces casing (.filter .groups) ++
    q.clausePieces casing .orderBy ++ q.limitPieces casing ++ q.clausePieces casing (.page .offset)

def pieces (casing : Casing) (q : SelectPhrase) : List Piece :=
  .text "\n" :: (q.sectionPieces casing).flatMap (· ++ [.text "\n"])

end SelectPhrase

/- The text of the pieces. -/

theorem Keyword.sql_eq {canonical : String} (k : Keyword canonical)
    (hk : hasCapital canonical = false) :
    casing.keyword k.spelling canonical = (Piece.keyword k.text).sql casing :=
  Piece.sql_keyword casing k.fits hk

theorem LabelPhrase.labelText_label (l : LabelPhrase) :
    labelText casing l.label = piecesText casing l.pieces := by
  have has := l.keyword.sql_eq casing (by decide)
  simp only [labelText, LabelPhrase.label, labelled, LabelPhrase.pieces, piecesText_cons,
    piecesText_nil, Piece.sql_text, String.append_empty]
  rw [← has]
  simp only [Keyword.spelling, String.append_assoc]

theorem labelText_lastLabel (labels : List (Nat × LabelPhrase)) :
    labelText casing (lastLabel labels) = piecesText casing (lastPieces labels) := by
  unfold lastLabel lastPieces
  cases labels.getLast? with
  | none => rfl
  | some l => simpa using l.2.labelText_label casing

theorem negated_pieces (negation : Option (Keyword "not")) {e : Expr} {ps : List Piece}
    {scope : String} {layout : Layout}
    (h : (formula casing scope e).sql layout = piecesText casing ps) :
    (formula casing scope (negated negation e)).sql layout =
      piecesText casing (negationPieces negation ++ ps) := by
  cases negation with
  | none => exact h
  | some k =>
    have hnot := k.sql_eq casing (by decide)
    simp [negated, formula, Formula.sql, negationPieces, h, hnot, String.append_assoc]

theorem linkPieces_text {op : String} (h : isAscii op = true)
    {c : Connective} (hc : Connective.ofWord? (casing.word op) = some c) (layout : Layout)
    (left right : String) :
    binaryText layout left (casing.word op) right =
      left ++ piecesText casing (linkPieces layout op) ++ right := by
  have hword := Piece.sql_word casing h
  have hlength := Piece.length_word casing h
  cases layout with
  | inline => simp [binaryText, linkPieces, hword, String.append_assoc]
  | aligned width =>
    unfold binaryText
    rw [hc]
    simp [linkPieces, Text.alignRight, hlength, ← hword, String.append_assoc]

mutual

theorem ChainPhrase.formula_pieces : (chain : ChainPhrase) → (∀ t ∈ chain.tokens, t.Scanned) →
    ∀ scope layout, (formula casing scope chain.expr).sql layout =
      piecesText casing (chain.pieces casing scope layout)
  | .last negation test, h, scope, layout => by
    have ht := TestPhrase.formula_pieces test (fun t ht => h t (by simp [ChainPhrase.tokens, ht]))
      scope layout
    exact negated_pieces casing negation ht
  | .link negation test op rest, h, scope, layout => by
    have ht := TestPhrase.formula_pieces test (fun t ht => h t (by simp [ChainPhrase.tokens, ht]))
      scope layout
    have hr := ChainPhrase.formula_pieces rest (fun t ht => h t (by simp [ChainPhrase.tokens, ht]))
      scope layout
    have hleft := negated_pieces casing negation ht
    have hop := linkPieces_text casing op.isAscii (op.ofWord?_word casing) layout
    simp only [ChainPhrase.expr, Expr.link, formula, operandFormula, Formula.sql, hop, hleft, hr,
      ChainPhrase.pieces, piecesText_append]

theorem TestPhrase.formula_pieces : (test : TestPhrase) → (∀ t ∈ test.tokens, t.Scanned) →
    ∀ scope layout, (formula casing scope test.expr).sql layout =
      piecesText casing (test.pieces casing scope)
  | .compare left op right, h, scope, layout => by
    have hop : IsOperator op.text :=
      OperatorPhrase.isOperator fun t ht => h t (by simp [TestPhrase.tokens, ht])
    have hword := Piece.sql_word casing hop.ascii
    have hfree := hop.ofWord?_word casing
    have hline (l r : String) : binaryText layout l (casing.word op.text) r =
        l ++ " " ++ casing.word op.text ++ " " ++ r := by
      cases layout <;> simp [binaryText, hfree]
    simp [TestPhrase.expr, formula, operandFormula, Formula.sql, hline, TestPhrase.pieces, ← hword,
      String.append_assoc]
  | .between subject negation keyword low andKeyword high, _, scope, layout => by
    have hbetween := keyword.sql_eq casing (by decide)
    have hand := andKeyword.sql_eq casing (by decide)
    simp [TestPhrase.expr, formula, Formula.sql, TestPhrase.pieces, hbetween, hand,
      String.append_assoc]
  | .among subject negation keyword select, _, scope, layout => by
    have hin := keyword.sql_eq casing (by decide)
    simp [TestPhrase.expr, formula, Formula.sql, TestPhrase.pieces, hin, String.append_assoc]
  | .paren inner, h, scope, layout => by
    have hi := ChainPhrase.formula_pieces inner (fun t ht => h t (by simp [TestPhrase.tokens, ht]))
      scope .inline
    simp [TestPhrase.expr, formula, Formula.sql, TestPhrase.pieces, hi, String.append_assoc]

end

theorem DirectionPhrase.isAscii_words (d : DirectionPhrase) : ∀ w ∈ d.words, isAscii w = true := by
  intro w hw
  obtain ⟨k, hk, hs⟩ := List.any_eq_true.1 (d.isOrderKeyword_words w hw)
  have hall : ["collate", "asc", "desc", "nulls", "first", "last"].all
      (fun k => isAscii (String.ofList (folded k.toList))) = true := by decide
  exact isAscii_of_spells hs (List.all_eq_true.1 hall k hk)

theorem EntryPhrase.sql_pieces (scope : String) (e : EntryPhrase) :
    e.sql casing scope (modifierText casing) = piecesText casing (e.pieces casing scope) := by
  obtain ⟨column, collation, direction⟩ := e
  have hdirection (ws : List String) (h : ∀ w ∈ ws, isAscii w = true) :
      Text.spaced (ws.map casing.word) =
        piecesText casing (ws.flatMap fun w => [.text " ", .keyword w]) := by
    induction ws with
    | nil => rfl
    | cons w ws ih =>
      rw [List.forall_mem_cons] at h
      rw [List.map_cons, Text.spaced_cons, ih h.2, Piece.sql_word casing h.1, List.flatMap_cons,
        piecesText_append]
      simp
  have hwords : ∀ w ∈ direction.toList.flatMap DirectionPhrase.words, isAscii w = true := by
    intro w hw
    obtain ⟨d, -, hd⟩ := List.mem_flatMap.1 hw
    exact d.isAscii_words w hd
  have hcollate (p : CollationPhrase) := Piece.sql_word casing
    (isAscii_of_spells p.keyword.spelled (by decide))
  rw [EntryPhrase.sql, EntryPhrase.pieces, Text.spaced_append, hdirection _ hwords]
  cases collation with
  | none => simp
  | some p => simp [Text.spaced_cons, hcollate, String.append_assoc]

/- The sections of a statement. -/

theorem filterSection_pieces {f : Filter} (keyword : Keyword f.name) {chain : ChainPhrase}
    (h : ∀ t ∈ chain.tokens, t.Scanned) (scope : String) (hasOr : Bool) :
    filterSection casing f [⟨keyword.spelling, formula casing scope chain.expr, hasOr⟩] =
      [piecesText casing ((ClausePhrase.filter f keyword chain).pieces casing scope)] := by
  have hname : isAscii f.name = true ∧ hasCapital f.name = false := by cases f <;> decide
  have hkeyword := keyword.sql_eq casing hname.2
  have hlength : (casing.keyword keyword.spelling f.name).length = keyword.text.length := by
    have hspells := keyword.fits.spells casing hname.1
    have halike : Alike (casing.keyword keyword.spelling f.name) keyword.text :=
      (beq_iff_eq.1 hspells).trans (beq_iff_eq.1 keyword.spelled).symm
    exact halike.length_eq
  rw [hkeyword] at hlength
  have hchain := chain.formula_pieces casing h scope (.aligned keyword.text.length)
  simp only [filterSection, restrictionText, List.map_cons, List.map_nil,
    String.intercalate_singleton, Restriction.sql, List.isEmpty_nil, Bool.not_true, Bool.false_and,
    Bool.false_eq_true, if_false, hkeyword, hlength, hchain, ClausePhrase.pieces, piecesText_cons,
    Piece.sql_text, String.append_assoc]

theorem groupSection_pieces (keyword : ByPhrase "group") (front : List String) (last : String)
    (scope : String) :
    listSection casing .groupBy
        [⟨.ofWord keyword.text "group by", (front ++ [last]).map (qualify · scope)⟩] =
      [piecesText casing ((ClausePhrase.groupBy keyword front last).pieces casing scope)] := by
  have hkeyword := Piece.sql_keyword casing keyword.fits (by decide)
  simp only [String.reduceAppend] at hkeyword
  simp [listSection, Clause.name, hkeyword, ClausePhrase.pieces, String.append_assoc]

theorem orderSection_pieces (keyword : ByPhrase "order") {front : List EntryPhrase}
    {last : EntryPhrase} (scope : String)
    (h : ∀ e ∈ front ++ [last], ∀ p ∈ e.collation, Text.words p.name ≠ []) :
    listSection casing .orderBy [⟨.ofWord keyword.text "order by",
        ((front ++ [last]).map EntryPhrase.entry).map (orderText casing scope)⟩] =
      [piecesText casing ((ClausePhrase.orderBy keyword front last).pieces casing scope)] := by
  have hkeyword := Piece.sql_keyword casing keyword.fits (by decide)
  simp only [String.reduceAppend] at hkeyword
  have hentries : ((front ++ [last]).map EntryPhrase.entry).map (orderText casing scope) =
      ((front ++ [last]).map (·.pieces casing scope)).map (piecesText casing) := by
    rw [List.map_map, List.map_map]
    refine List.map_congr_left fun e he => ?_
    exact (e.orderText_entry casing scope (h e he)).trans (e.sql_pieces casing scope)
  simp only [listSection, Clause.name, List.flatMap_cons, List.flatMap_nil, List.append_nil,
    hentries, hkeyword, ClausePhrase.pieces, piecesText_cons, Piece.sql_text,
    piecesText_intercalate, String.append_assoc]

theorem pageText_pieces {p : Page} (keyword : Keyword p.name) (value scope : String) :
    pageText casing p ⟨keyword.spelling, value⟩ =
      piecesText casing ((ClausePhrase.page p keyword value).pieces casing scope) := by
  have hkeyword := keyword.sql_eq casing (by cases p <;> decide)
  simp [pageText, hkeyword, ClausePhrase.pieces, String.append_assoc]

theorem columnText?_pieces (scope : String) (f : FieldPhrase) (h : f.field.table? = none) :
    (f.field.columnText? casing scope).toList = [piecesText casing (f.pieces scope)] := by
  cases f with
  | column name labels n =>
    simp [FieldPhrase.field, Field.columnText?, FieldPhrase.pieces, labelText_lastLabel]
  | subQuery select labels n =>
    simp [FieldPhrase.field, Field.columnText?, FieldPhrase.pieces, labelText_lastLabel]
  | relation name labels gap body n => cases h

/- A select with one table. -/

theorem collectFields_of_table? {α : Type} {fields : List Field} (h : ∀ f ∈ fields, f.table? = none)
    (g : String → Field → Option α) (scope : String) :
    collectFields g scope fields = fields.flatMap fun f => (g scope f).toList := by
  induction fields with
  | nil => rfl
  | cons f fields ih =>
    rw [List.forall_mem_cons] at h
    rw [List.flatMap_cons, ← ih h.2]
    cases f with
    | column column => rfl
    | subQuery select label => rfl
    | relation table => cases h.1

namespace Table

theorem collect_of_table? {α : Type} {t : Table} (h : ∀ f ∈ t.fields, f.table? = none)
    (g : String → Field → Option α) :
    t.collect g = t.fields.flatMap fun f => (g t.scope f).toList := by
  rw [← collectFields_of_table? h]
  cases t
  rfl

theorem collectTables_of_table? {α : Type} {t : Table} (h : ∀ f ∈ t.fields, f.table? = none)
    (g : Table → Option α) : t.collectTables g = (g t).toList := by
  have hnone : t.collect (inRelations g) = [] := by
    rw [collect_of_table? h, List.flatMap_eq_nil_iff]
    intro f hf
    simp [inRelations, h f hf]
  rw [collectTables, hnone, List.append_nil]

end Table

namespace SelectPhrase

variable {q : SelectPhrase}

theorem tokens_of_clauseOf {k : Clause} {c : ClausePhrase}
    (h : clauseOf k q.body.clauses = some c) : c.tokens ⊆ q.tokens := by
  obtain ⟨keyword, distinct, name, label, ⟨single, n, fields, clauses⟩⟩ := q
  intro t ht
  have hm : t ∈ clausesTokens clauses := by
    rw [clausesTokens_eq]
    exact List.mem_flatMap.2 ⟨c, clauseOf_mem h, ht⟩
  simp [tokens, BodyPhrase.tokens, hm]

theorem table_select (q : SelectPhrase) : q.select.table =
    { name := q.name
      label := (q.label.map LabelPhrase.label).getD {}
      single := q.body.single
      fields := fieldsOf q.body.fields
      rowFilter := (clauseOf (.filter .rows) q.body.clauses).bind (ClausePhrase.condition? .rows)
      groupFilter := (clauseOf (.filter .groups) q.body.clauses).bind
        (ClausePhrase.condition? .groups)
      groupBy := (clauseOf .groupBy q.body.clauses).bind ClausePhrase.groupBy?
      orderBy := (clauseOf .orderBy q.body.clauses).bind ClausePhrase.orderBy?
      limit := (clauseOf (.page .limit) q.body.clauses).bind (ClausePhrase.page? .limit)
      offset := (clauseOf (.page .offset) q.body.clauses).bind (ClausePhrase.page? .offset) } := by
  rw [← findSome?_clauseOf _ (ClausePhrase.condition?_isSome .rows),
    ← findSome?_clauseOf _ (ClausePhrase.condition?_isSome .groups),
    ← findSome?_clauseOf _ ClausePhrase.groupBy?_isSome,
    ← findSome?_clauseOf _ ClausePhrase.orderBy?_isSome,
    ← findSome?_clauseOf _ (ClausePhrase.page?_isSome .limit),
    ← findSome?_clauseOf _ (ClausePhrase.page?_isSome .offset), ← conditionOf_eq, ← conditionOf_eq]
  obtain ⟨keyword, distinct, name, label, body⟩ := q
  cases body
  rfl

theorem scope_select (q : SelectPhrase) : q.select.table.scope = q.scope := by
  rw [table_select]
  rfl

theorem filters_pieces (h : ∀ t ∈ q.tokens, t.Scanned) (f : Filter) :
    filterSection casing f (q.select.table.restriction? casing f).toList =
      (q.clausePieces casing (.filter f)).map (piecesText casing) := by
  have hcondition : q.select.table.condition? f =
      (clauseOf (.filter f) q.body.clauses).bind (ClausePhrase.condition? f) := by
    rw [table_select]
    cases f <;> rfl
  rw [Table.restriction?, hcondition, scope_select, clausePieces]
  cases hc : clauseOf (.filter f) q.body.clauses with
  | none => rfl
  | some c =>
    have hkind := clauseOf_kind hc
    have hscanned : ∀ t ∈ c.tokens, t.Scanned := fun t ht => h t (tokens_of_clauseOf hc ht)
    cases c with
    | filter g keyword chain =>
      cases hkind
      have hchain : ∀ t ∈ chain.tokens, t.Scanned := fun t ht =>
        hscanned t (by simp [ClausePhrase.tokens, ht])
      simpa [ClausePhrase.condition?] using filterSection_pieces casing keyword hchain q.scope _
    | _ => cases hkind

theorem groupings_pieces (q : SelectPhrase) :
    listSection casing .groupBy q.select.table.grouping?.toList =
      (q.clausePieces casing .groupBy).map (piecesText casing) := by
  rw [Table.grouping?, scope_select, table_select, clausePieces]
  cases hc : clauseOf .groupBy q.body.clauses with
  | none => rfl
  | some c =>
    have hkind := clauseOf_kind hc
    cases c with
    | groupBy keyword front last => exact groupSection_pieces casing keyword front last q.scope
    | _ => cases hkind

theorem orderings_pieces (h : ∀ t ∈ q.tokens, t.Scanned) :
    listSection casing .orderBy (q.select.table.ordering? casing).toList =
      (q.clausePieces casing .orderBy).map (piecesText casing) := by
  rw [Table.ordering?, scope_select, table_select, clausePieces]
  cases hc : clauseOf .orderBy q.body.clauses with
  | none => rfl
  | some c =>
    have hkind := clauseOf_kind hc
    cases c with
    | orderBy keyword front last =>
      refine orderSection_pieces casing keyword q.scope fun e he p hp => Text.words_ne_nil ?_
      have horder : (ClausePhrase.orderBy keyword front last).order? q.scope =
          some ⟨q.scope, keyword, front ++ [last]⟩ := rfl
      obtain ⟨-, htokens⟩ := ClausePhrase.tokens_of_order? horder
      exact h (.word p.name) (tokens_of_clauseOf hc (htokens e he (e.word_of_collation hp)))
    | _ => cases hkind

theorem offset_pieces (q : SelectPhrase) : offsetSection casing q.select.table.offset.toList =
    (q.clausePieces casing (.page .offset)).map (piecesText casing) := by
  rw [table_select, clausePieces]
  cases hc : clauseOf (.page .offset) q.body.clauses with
  | none => rfl
  | some c =>
    have hkind := clauseOf_kind hc
    cases c with
    | page p keyword value =>
      cases hkind
      exact congrArg (fun s => [s]) (pageText_pieces casing keyword value q.scope)
    | _ => cases hkind

theorem limit_pieces (q : SelectPhrase) :
    limitSection casing q.select.table q.select.table.limit.toList =
      (q.limitPieces casing).map (piecesText casing) := by
  rw [limitSection, table_select, limitPieces, clausePieces]
  cases hc : clauseOf (.page .limit) q.body.clauses with
  | none => cases q.body.single <;> simp
  | some c =>
    have hkind := clauseOf_kind hc
    cases c with
    | page p keyword value =>
      cases hkind
      simpa [ClausePhrase.page?] using pageText_pieces casing keyword value q.scope
    | _ => cases hkind

theorem head_pieces (q : SelectPhrase) :
    headText casing q.select.keyword q.select.distinct q.select.distinctKeyword =
      piecesText casing (.keyword q.keyword.text ::
        q.distinct.toList.flatMap fun d => [.text " ", .keyword d.text]) := by
  obtain ⟨keyword, distinct, name, label, body⟩ := q
  have hselect := keyword.sql_eq casing (by decide)
  cases distinct with
  | none => simp [select, headText, hselect]
  | some d =>
    have hdistinct := d.sql_eq casing (by decide)
    simp [select, headText, hselect, hdistinct]

theorem columns_pieces (hone : ∀ f ∈ q.select.table.fields, f.table? = none) :
    columnSection (headText casing q.select.keyword q.select.distinct q.select.distinctKeyword)
      (q.select.table.collect (Field.columnText? casing)) = piecesText casing q.columnPieces := by
  have hfields : q.select.table.fields = q.body.fields.map FieldPhrase.field := by
    rw [table_select, fieldsOf_eq]
  have hcolumns : q.select.table.collect (Field.columnText? casing) =
      (q.body.fields.map (·.pieces q.scope)).map (piecesText casing) := by
    rw [Table.collect_of_table? hone, scope_select, hfields, List.flatMap_map, List.map_map,
      ← List.flatMap_pure_eq_map]
    refine List.flatMap_congr fun f hf => columnText?_pieces casing q.scope f ?_
    exact hone _ (hfields ▸ List.mem_map_of_mem hf)
  rw [columnSection, head_pieces, hcolumns, columnPieces]
  cases q.body.fields with
  | nil => simp [String.append_assoc]
  | cons f fs => simp [String.append_assoc, piecesText_intercalate]

theorem from_pieces (q : SelectPhrase) :
    casing.apply "from" ++ " " ++ q.select.table.name ++ labelText casing q.select.table.label =
      piecesText casing (q.fromPieces casing) := by
  have hlabel : labelText casing ((q.label.map LabelPhrase.label).getD {}) =
      piecesText casing (q.label.toList.flatMap LabelPhrase.pieces) := by
    cases q.label with
    | none => rfl
    | some l => simpa using l.labelText_label casing
  rw [table_select, fromPieces, piecesText_cons, ← hlabel]
  rfl

theorem sections_pieces (h : ∀ t ∈ q.tokens, t.Scanned)
    (hone : ∀ f ∈ q.select.table.fields, f.table? = none) :
    sections casing
        (headText casing q.select.keyword q.select.distinct q.select.distinctKeyword)
        q.select.table (tableParts casing q.select.table) =
      (q.sectionPieces casing).map (piecesText casing) := by
  have hjoins : q.select.table.collect (Field.joinLine? casing) = [] := by
    rw [Table.collect_of_table? hone, List.flatMap_eq_nil_iff]
    intro f hf
    have htable := hone f hf
    cases f with
    | relation table => cases htable
    | _ => rfl
  rw [sections, tableParts_eq]
  simp only [Table.collectTables_of_table? hone, hjoins, columns_pieces casing hone, from_pieces,
    filters_pieces casing h, groupings_pieces, orderings_pieces casing h, limit_pieces,
    offset_pieces, sectionPieces, List.map_append, List.map_cons, List.map_nil, List.append_nil]

/-- The statement of a select with one table is that of its pieces. -/
theorem render_pieces (h : ∀ t ∈ q.tokens, t.Scanned)
    (hone : ∀ f ∈ q.select.table.fields, f.table? = none) :
    q.select.render = piecesText q.select.casing (q.pieces q.select.casing) := by
  have hrender (s : Select) : s.render = statementText (sections s.casing
      (headText s.casing s.keyword s.distinct s.distinctKeyword) s.table
      (tableParts s.casing s.table)) := by
    cases s
    rfl
  have hlines (casing : Casing) (sections : List (List Piece)) :
      String.join ((sections.map (piecesText casing)).map (· ++ "\n")) =
        piecesText casing (sections.flatMap (· ++ [.text "\n"])) := by
    induction sections with
    | nil => rfl
    | cons ps sections ih =>
      simp only [List.map_cons, String.join_cons, ih, List.flatMap_cons, piecesText_append,
        piecesText_cons, piecesText_nil, Piece.sql_text, String.append_empty]
  rw [hrender, sections_pieces q.select.casing h hone, pieces, piecesText_cons, ← hlines]
  rfl

end SelectPhrase

end BracketQuery
