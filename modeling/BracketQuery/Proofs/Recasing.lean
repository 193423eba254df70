import BracketQuery.Proofs.Gather
import BracketQuery.Proofs.SqlTokens

/-! The letter case of a statement. The `select` of the author decides how keywords are cased, and
it decides nothing else: two spellings of it give texts that differ in the case of ASCII letters
only. -/
namespace BracketQuery

/- Texts that differ in case. -/

/-- The texts are the same up to the case of ASCII letters. -/
def Alike (a b : String) : Prop := folded a.toList = folded b.toList

theorem folded_flatten (parts : List (List Char)) :
    folded parts.flatten = (parts.map folded).flatten := by
  induction parts with
  | nil => rfl
  | cons part parts ih =>
    rw [List.flatten_cons, folded_append, ih, List.map_cons, List.flatten_cons]

theorem folded_intercalate (sep : List Char) (parts : List (List Char)) :
    folded (sep.intercalate parts) = (folded sep).intercalate (parts.map folded) := by
  induction parts with
  | nil => rfl
  | cons part parts ih =>
    cases parts with
    | nil => simp [List.intercalate]
    | cons next parts =>
      simp only [List.intercalate_cons_cons, List.map_cons, folded_append] at ih ⊢
      rw [ih]

theorem utf8Size_toLower (c : Char) : c.toLower.utf8Size = c.utf8Size := by
  unfold Char.toLower
  split
  · simp [Char.utf8Size]
    grind
  · rfl

theorem utf8ByteSize_folded (cs : List Char) :
    (String.ofList (folded cs)).utf8ByteSize = (String.ofList cs).utf8ByteSize := by
  have hcons (c : Char) (cs : List Char) :
      (String.ofList (c :: cs)).utf8ByteSize = c.utf8Size + (String.ofList cs).utf8ByteSize := by
    rw [String.ofList_cons, String.utf8ByteSize_append, String.utf8ByteSize_singleton]
  induction cs with
  | nil => rfl
  | cons c cs ih => rw [hcons, ← ih, ← utf8Size_toLower, ← hcons, folded, folded, List.map_cons]

theorem toLower_eq_lineEnd_iff {c d : Char} (hd : d = '\n' ∨ d = '\r') :
    c.toLower = d ↔ c = d := by
  have upper : ∀ k < 26, (Char.ofNat (65 + k)).toLower ≠ '\n' ∧
      (Char.ofNat (65 + k)).toLower ≠ '\r' := by decide
  constructor
  · intro h
    rcases eq_or_of_toLower h with hc | ⟨k, hk, rfl⟩
    · exact hc
    · rcases hd with rfl | rfl
      · exact absurd h (upper k hk).1
      · exact absurd h (upper k hk).2
  · rintro rfl
    rcases hd with rfl | rfl <;> rfl

theorem lines_folded_cons {c : Char} {cs : List Char} (hfeed : c = '\n' → False)
    (hreturn : ∀ ds, c = '\r' → cs = '\n' :: ds → False) :
    Text.lines (folded (c :: cs)) =
      match Text.lines (folded cs) with
      | [] => [[c.toLower]]
      | line :: rest => (c.toLower :: line) :: rest := by
  refine Text.lines.eq_4 _ _ (fun h => hfeed ((toLower_eq_lineEnd_iff (.inl rfl)).1 h)) ?_
  intro ds hr hds
  obtain ⟨d, ds', rfl, hd⟩ := Token.first_of_folded hds
  obtain rfl := (toLower_eq_lineEnd_iff (.inl rfl)).1 hd
  exact hreturn ds' ((toLower_eq_lineEnd_iff (.inr rfl)).1 hr) rfl

theorem lines_folded (cs : List Char) : Text.lines (folded cs) = (Text.lines cs).map folded := by
  fun_induction Text.lines cs with
  | case1 => rfl
  | case2 cs ih => exact congrArg ([] :: ·) ih
  | case3 cs ih => exact congrArg ([] :: ·) ih
  | case4 c cs hfeed hreturn hlines ih =>
    rw [lines_folded_cons hfeed hreturn, ih, hlines]
    rfl
  | case5 c cs hfeed hreturn line rest hlines ih =>
    rw [lines_folded_cons hfeed hreturn, ih, hlines]
    rfl

namespace Alike

variable {a a' b b' : String}

theorem refl (a : String) : Alike a a := rfl

theorem append (h : Alike a b) (h' : Alike a' b') : Alike (a ++ a') (b ++ b') := by
  rw [Alike, String.toList_append, String.toList_append, folded_append, folded_append, h, h']

theorem length_eq (h : Alike a b) : a.length = b.length := by
  have hlength := congrArg List.length h
  simpa only [folded, List.length_map, String.length_toList] using hlength

theorem utf8ByteSize_eq (h : Alike a b) : a.utf8ByteSize = b.utf8ByteSize := by
  have hsize (s : String) : (String.ofList (folded s.toList)).utf8ByteSize = s.utf8ByteSize := by
    rw [utf8ByteSize_folded, String.ofList_toList]
  rw [← hsize, h, hsize]

theorem lines_eq (h : Alike a b) :
    (Text.lines a.toList).map folded = (Text.lines b.toList).map folded := by
  rw [← lines_folded, ← lines_folded, h]

theorem spells_eq (h : Alike a b) : spells a = spells b := by
  funext keyword
  rw [spells, spells, h]

theorem alignRight (width : Nat) (h : Alike a b) :
    Alike (Text.alignRight width a) (Text.alignRight width b) := by
  rw [Text.alignRight, Text.alignRight, h.length_eq]
  exact (refl _).append h

theorem map_folded {as bs : List String} (h : List.Forall₂ Alike as bs) :
    (as.map String.toList).map folded = (bs.map String.toList).map folded := by
  induction h with
  | nil => rfl
  | cons h _ ih => exact congrArg₂ List.cons h ih

theorem join {as bs : List String} (h : List.Forall₂ Alike as bs) :
    Alike (String.join as) (String.join bs) := by
  rw [Alike, String.toList_join, String.toList_join, List.flatMap_def, List.flatMap_def,
    folded_flatten, folded_flatten, map_folded h]

theorem intercalate {as bs : List String} (hsep : Alike a b) (h : List.Forall₂ Alike as bs) :
    Alike (a.intercalate as) (b.intercalate bs) := by
  rw [Alike, String.toList_intercalate, String.toList_intercalate, folded_intercalate,
    folded_intercalate, hsep, map_folded h]

end Alike

theorem forall₂_map_map {α β : Type} {R : β → β → Prop} {f g : α → β} {as : List α}
    (h : ∀ a ∈ as, R (f a) (g a)) : List.Forall₂ R (as.map f) (as.map g) := by
  rw [List.forall₂_map_left_iff, List.forall₂_map_right_iff, List.forall₂_same]
  exact h

section

variable {α : Type} {R : α → α → Prop} {h h' : String → Field → Option α}

mutual

theorem Table.forall₂_collect
    (hrel : ∀ scope field, List.Forall₂ R (h scope field).toList (h' scope field).toList) :
    (t : Table) → List.Forall₂ R (t.collect h) (t.collect h')
  | ⟨_, _, _, fields, _, _, _, _, _, _⟩ => forall₂_collectFields hrel fields _

theorem forall₂_collectFields
    (hrel : ∀ scope field, List.Forall₂ R (h scope field).toList (h' scope field).toList) :
    (fields : List Field) → ∀ scope,
      List.Forall₂ R (collectFields h scope fields) (collectFields h' scope fields)
  | [], _ => .nil
  | .column column :: rest, scope =>
    List.rel_append (hrel scope (.column column)) (forall₂_collectFields hrel rest scope)
  | .relation table :: rest, scope =>
    List.rel_append
      (List.rel_append (hrel scope (.relation table)) (Table.forall₂_collect hrel table))
      (forall₂_collectFields hrel rest scope)
  | .subQuery select label :: rest, scope =>
    List.rel_append (hrel scope (.subQuery select label)) (forall₂_collectFields hrel rest scope)

end

end

namespace Sql

variable (c d : Casing)

/- Keywords in two casings. -/

theorem Casing.alike_apply {s : String} (h : isAscii s = true) : Alike (c.apply s) s := by
  have hspells := congrFun (c.spells_apply h) s
  simpa [spells, Alike] using hspells

theorem Casing.apply_alike {s : String} (h : isAscii s = true) : Alike (c.apply s) (d.apply s) :=
  (c.alike_apply h).trans (d.alike_apply h).symm

theorem Casing.keyword_alike (written : Spelling) {canonical : String}
    (h : isAscii canonical = true) :
    Alike (c.keyword written canonical) (d.keyword written canonical) := by
  cases written with
  | none => exact Casing.apply_alike c d h
  | some w => exact .refl w

theorem Casing.word_alike {s : String} (h : isAscii s = true) : Alike (c.word s) (d.word s) := by
  unfold word
  split
  · exact Casing.apply_alike c d h
  · exact .refl s

/- Conditions. -/

theorem binaryText_alike (layout : Layout) {l l' op op' r r' : String} (hl : Alike l l')
    (hop : Alike op op') (hr : Alike r r') :
    Alike (binaryText layout l op r) (binaryText layout l' op' r') := by
  have hline : Alike (l ++ " " ++ op ++ " " ++ r) (l' ++ " " ++ op' ++ " " ++ r') :=
    (((hl.append (.refl " ")).append hop).append (.refl " ")).append hr
  cases layout with
  | inline => exact hline
  | aligned width =>
    unfold binaryText
    rw [Connective.ofWord?_congr hop.spells_eq]
    cases Connective.ofWord? op' with
    | none => exact hline
    | some k =>
      exact (((hl.append (.refl "\n")).append (hop.alignRight width)).append (.refl " ")).append hr

/-- The two are alike in every layout. -/
def Formula.Alike (f g : Formula) : Prop :=
  ∀ layout, BracketQuery.Alike (f.sql layout) (g.sql layout)

theorem negationText_alike (negated : Bool) :
    Alike (negationText c negated) (negationText d negated) := by
  cases negated with
  | false => exact .refl ""
  | true => exact (Casing.apply_alike c d (by decide)).append (.refl " ")

end Sql

theorem ConnectivePhrase.isAscii (op : ConnectivePhrase) : isAscii op.text = true := by
  refine isAscii_of_spells (Connective.ofWord?_spells op.spelled) ?_
  cases op.connective <;> decide

open Sql

section

variable (c d : Casing)

theorem negated_alike {scope : String} (negation : Option (Keyword "not")) {e : Expr}
    (h : (formula c scope e).Alike (formula d scope e)) :
    (formula c scope (negated negation e)).Alike (formula d scope (negated negation e)) := by
  cases negation with
  | none => exact h
  | some k =>
    intro layout
    exact ((Casing.keyword_alike c d k.spelling (by decide)).append (.refl " ")).append (h layout)

mutual

/-- A condition is put together in the same way in either casing. Its operators are the author's,
and they are recognized in any case. -/
theorem ChainPhrase.formula_alike : (chain : ChainPhrase) → (∀ t ∈ chain.tokens, t.Scanned) →
    ∀ scope, (formula c scope chain.expr).Alike (formula d scope chain.expr)
  | .last negation test, h, scope => by
    have ht := TestPhrase.formula_alike test (fun t ht => h t (by simp [ChainPhrase.tokens, ht]))
      scope
    exact negated_alike c d negation ht
  | .link negation test op rest, h, scope => by
    have ht := TestPhrase.formula_alike test (fun t ht => h t (by simp [ChainPhrase.tokens, ht]))
      scope
    have hr := ChainPhrase.formula_alike rest (fun t ht => h t (by simp [ChainPhrase.tokens, ht]))
      scope
    have hop := Casing.word_alike c d op.isAscii
    intro layout
    exact binaryText_alike layout (negated_alike c d negation ht layout) hop (hr layout)

theorem TestPhrase.formula_alike : (test : TestPhrase) → (∀ t ∈ test.tokens, t.Scanned) →
    ∀ scope, (formula c scope test.expr).Alike (formula d scope test.expr)
  | .compare left op right, h, scope => by
    have hop : IsOperator op.text :=
      OperatorPhrase.isOperator fun t ht => h t (by simp [TestPhrase.tokens, ht])
    have hword := Casing.word_alike c d hop.ascii
    exact fun layout => binaryText_alike layout (.refl _) hword (.refl _)
  | .between subject negation keyword low andKeyword high, _, scope => by
    have hnot := negationText_alike c d negation.isSome
    have hbetween : Alike (c.keyword keyword.spelling "between")
        (d.keyword keyword.spelling "between") := Casing.keyword_alike c d _ (by decide)
    have hand : Alike (c.keyword andKeyword.spelling "and") (d.keyword andKeyword.spelling "and") :=
      Casing.keyword_alike c d _ (by decide)
    intro layout
    exact ((((((((Alike.refl _).append hnot).append hbetween).append (.refl " ")).append
      (.refl _)).append (.refl " ")).append hand).append (.refl " ")).append (.refl _)
  | .among subject negation keyword select, _, scope => by
    have hnot := negationText_alike c d negation.isSome
    have hin : Alike (c.keyword keyword.spelling "in") (d.keyword keyword.spelling "in") :=
      Casing.keyword_alike c d _ (by decide)
    intro layout
    exact ((((Alike.refl _).append hnot).append hin).append (.refl " ")).append (.refl _)
  | .paren inner, h, scope => by
    have hi := ChainPhrase.formula_alike inner (fun t ht => h t (by simp [TestPhrase.tokens, ht]))
      scope
    exact fun _ => ((Alike.refl "(").append (hi .inline)).append (.refl ")")

end

/- The sections of a statement. -/

namespace Sql

structure Restriction.Alike (r r' : Restriction) : Prop where
  keyword : r.keyword = r'.keyword
  formula : r.formula.Alike r'.formula
  hasOr : r.hasOr = r'.hasOr

theorem Restriction.Alike.sql {r r' : Restriction} (h : r.Alike r') (width : Nat) (several : Bool) :
    BracketQuery.Alike (r.sql width several) (r'.sql width several) := by
  rw [Restriction.sql, Restriction.sql, h.hasOr]
  split
  · exact ((BracketQuery.Alike.refl "(").append (h.formula .inline)).append (.refl ")")
  · exact h.formula (.aligned width)

theorem filterSection_alike (f : Filter) {rs rs' : List Restriction}
    (h : List.Forall₂ Restriction.Alike rs rs') :
    List.Forall₂ Alike (filterSection c f rs) (filterSection d f rs') := by
  cases h with
  | nil => exact .nil
  | @cons r r' rs rs' hr hrs =>
    have hkeyword : Alike (c.keyword r.keyword f.name) (d.keyword r'.keyword f.name) := by
      rw [hr.keyword]
      exact Casing.keyword_alike c d _ (by cases f <;> decide)
    have hand : Alike (c.apply "and") (d.apply "and") := Casing.apply_alike c d (by decide)
    have hseveral : rs.isEmpty = rs'.isEmpty := by cases hrs <;> rfl
    refine .cons ?_ .nil
    simp only [restrictionText, hkeyword.length_eq, hseveral]
    have hall : List.Forall₂ Restriction.Alike (r :: rs) (r' :: rs') := .cons hr hrs
    refine (hkeyword.append (.refl " ")).append (.intercalate ?_ ?_)
    · exact ((Alike.refl "\n").append (hand.alignRight _)).append (.refl " ")
    · exact List.rel_map (fun _ _ hr => hr.sql _ _) hall

structure Listed.Alike (l l' : Listed) : Prop where
  keyword : l.keyword = l'.keyword
  items : List.Forall₂ BracketQuery.Alike l.items l'.items

theorem listSection_alike (clause : Clause) (hk : isAscii clause.name = true) {ls ls' : List Listed}
    (h : List.Forall₂ Listed.Alike ls ls') :
    List.Forall₂ Alike (listSection c clause ls) (listSection d clause ls') := by
  have hitems : List.Forall₂ Alike (ls.flatMap (·.items)) (ls'.flatMap (·.items)) :=
    List.rel_flatMap h fun _ _ hl => hl.items
  cases h with
  | nil => exact .nil
  | @cons l l' ls ls' hl hls =>
    have hkeyword : Alike (c.keyword l.keyword clause.name) (d.keyword l'.keyword clause.name) := by
      rw [hl.keyword]
      exact Casing.keyword_alike c d _ hk
    exact .cons ((hkeyword.append (.refl " ")).append (.intercalate (.refl ", ") hitems)) .nil

theorem pageText_alike (page : Page) (paging : Paging) :
    Alike (pageText c page paging) (pageText d page paging) := by
  have hkeyword : Alike (c.keyword paging.keyword page.name) (d.keyword paging.keyword page.name) :=
    Casing.keyword_alike c d _ (by cases page <;> decide)
  exact (hkeyword.append (.refl " ")).append (.refl _)

theorem limitSection_alike (table : Table) (limits : List Paging) :
    List.Forall₂ Alike (limitSection c table limits) (limitSection d table limits) := by
  unfold limitSection
  split
  · exact .cons ((Casing.apply_alike c d (by decide)).append (.refl " 1")) .nil
  · exact forall₂_map_map fun paging _ => pageText_alike c d .limit paging

theorem labelText_alike (label : Label) : Alike (labelText c label) (labelText d label) := by
  unfold labelText
  split
  · have has : Alike (c.keyword label.keyword "as") (d.keyword label.keyword "as") :=
      Casing.keyword_alike c d _ (by decide)
    exact (((Alike.refl " ").append has).append (.refl " ")).append (.refl _)
  · exact .refl ""

theorem orderText_alike (scope : String) (entry : OrderEntry) :
    Alike (orderText c scope entry) (orderText d scope entry) := by
  unfold orderText
  split
  · rename_i modifiers _
    have hwords : Alike (modifierText c modifiers) (modifierText d modifiers) :=
      .intercalate (.refl " ") (forall₂_map_map fun w _ =>
        (folded_modifierWord c w).trans (folded_modifierWord d w).symm)
    exact (Alike.refl _).append hwords
  · exact .refl _

theorem columnSection_alike {head head' : String} (hhead : Alike head head')
    {columns columns' : List String} (h : List.Forall₂ Alike columns columns') :
    Alike (columnSection head columns) (columnSection head' columns') := by
  have hlist : Alike (if columns.isEmpty then "*" else "\n, ".intercalate columns)
      (if columns'.isEmpty then "*" else "\n, ".intercalate columns') := by
    cases h with
    | nil => exact .refl "*"
    | cons h hs =>
      simp only [List.isEmpty_cons, Bool.false_eq_true, if_false]
      exact .intercalate (.refl "\n, ") (.cons h hs)
  exact (hhead.append (.refl "\n  ")).append hlist

theorem headText_alike {k k' : Spelling} (h : k.Fits "select") (h' : k'.Fits "select")
    (distinct : Bool) (distinctKeyword : Spelling) :
    Alike (headText c k distinct distinctKeyword) (headText d k' distinct distinctKeyword) := by
  have hselect : Alike (c.keyword k "select") (d.keyword k' "select") := by
    have hk := h.spells c (by decide)
    have hk' := h'.spells d (by decide)
    rw [spells, beq_iff_eq] at hk hk'
    exact hk.trans hk'.symm
  refine hselect.append ?_
  cases distinct with
  | false => exact .refl ""
  | true => exact (Alike.refl " ").append (Casing.keyword_alike c d _ (by decide))

structure Parts.Alike (p p' : Parts) : Prop where
  columns : List.Forall₂ BracketQuery.Alike p.columns p'.columns
  joins : List.Forall₂ BracketQuery.Alike p.joins p'.joins
  filters : ∀ f, List.Forall₂ Restriction.Alike (p.filters f) (p'.filters f)
  groupings : p.groupings = p'.groupings
  orderings : List.Forall₂ Listed.Alike p.orderings p'.orderings
  limits : p.limits = p'.limits
  offsets : p.offsets = p'.offsets

theorem sections_alike (table : Table) {head head' : String} (hhead : Alike head head')
    {p p' : Parts} (h : p.Alike p') :
    List.Forall₂ Alike (sections c head table p) (sections d head' table p') := by
  have hfrom : Alike (c.apply "from" ++ " " ++ table.name ++ labelText c table.label)
      (d.apply "from" ++ " " ++ table.name ++ labelText d table.label) :=
    (((Casing.apply_alike c d (by decide)).append (.refl " ")).append (.refl _)).append
      (labelText_alike c d _)
  have hfront : List.Forall₂ Alike
      [columnSection head p.columns,
        c.apply "from" ++ " " ++ table.name ++ labelText c table.label]
      [columnSection head' p'.columns,
        d.apply "from" ++ " " ++ table.name ++ labelText d table.label] :=
    .cons (columnSection_alike hhead h.columns) (.cons hfrom .nil)
  have hsame : List.Forall₂ Listed.Alike p.groupings p'.groupings := by
    rw [h.groupings]
    exact List.forall₂_same.2 fun g _ => ⟨rfl, List.forall₂_same.2 fun s _ => .refl s⟩
  have hoffset : List.Forall₂ Alike (offsetSection c p.offsets) (offsetSection d p'.offsets) := by
    rw [h.offsets]
    exact forall₂_map_map fun paging _ => pageText_alike c d .offset paging
  have hlimit := limitSection_alike c d table p.limits
  nth_rewrite 2 [h.limits] at hlimit
  unfold sections
  refine List.rel_append (List.rel_append (List.rel_append (List.rel_append (List.rel_append
    (List.rel_append (List.rel_append hfront h.joins) ?_) ?_) ?_) ?_) hlimit) hoffset
  · exact filterSection_alike c d .rows (h.filters .rows)
  · exact listSection_alike c d .groupBy (by decide) hsame
  · exact filterSection_alike c d .groups (h.filters .groups)
  · exact listSection_alike c d .orderBy (by decide) h.orderings

/- What fields and tables add. -/

theorem columnText?_alike (scope : String) (field : Field) :
    List.Forall₂ Alike (field.columnText? c scope).toList (field.columnText? d scope).toList := by
  cases field with
  | column column => exact .cons ((Alike.refl _).append (labelText_alike c d _)) .nil
  | relation table => exact .nil
  | subQuery select label => exact .cons ((Alike.refl _).append (labelText_alike c d _)) .nil

theorem joinLine?_alike (parent : String) (field : Field) :
    List.Forall₂ Alike (field.joinLine? c parent).toList (field.joinLine? d parent).toList := by
  cases field with
  | column column => exact .nil
  | subQuery select label => exact .nil
  | relation table =>
    have hjoin : isAscii (if table.single then "inner join" else "left join") = true := by
      split <;> decide
    have hon : Alike (c.apply "on") (d.apply "on") := Casing.apply_alike c d (by decide)
    refine .cons ?_ .nil
    simp only [joinText, String.append_assoc]
    exact (Casing.apply_alike c d hjoin).append <| (Alike.refl " ").append <|
      (Alike.refl table.name).append <| (labelText_alike c d table.label).append <|
      (Alike.refl " ").append <| hon.append (.refl _)

theorem ordering?_alike (table : Table) :
    List.Forall₂ Listed.Alike (table.ordering? c).toList (table.ordering? d).toList := by
  unfold Table.ordering?
  cases table.orderBy with
  | none => exact .nil
  | some orderBy =>
    exact .cons ⟨rfl, forall₂_map_map fun entry _ => orderText_alike c d _ entry⟩ .nil

theorem orderings_alike (t : Table) : List.Forall₂ Listed.Alike
    (t.collectTables (Table.ordering? c)) (t.collectTables (Table.ordering? d)) := by
  refine List.rel_append (ordering?_alike c d t) (t.forall₂_collect fun _ field => ?_)
  cases field with
  | column column => exact .nil
  | relation table => exact ordering?_alike c d table
  | subQuery select label => exact .nil

end Sql

theorem SelectPhrase.filters_alike {q : SelectPhrase} (h : ∀ t ∈ q.tokens, t.Scanned) (f : Filter) :
    List.Forall₂ Restriction.Alike ((tableParts c q.select.table).filters f)
      ((tableParts d q.select.table).filters f) := by
  have hconditions (casing : Casing) : (tableParts casing q.select.table).filters f =
      (q.conditions f).map (·.restriction casing) := by
    obtain ⟨keyword, distinct, name, label, body⟩ := q
    exact body.filters_table casing f name _
  rw [hconditions, hconditions]
  refine forall₂_map_map fun e he => ⟨rfl, ?_, rfl⟩
  exact e.chain.formula_alike c d (fun t ht => h t (q.tokens_of_conditions he ht)) e.scope

theorem SelectPhrase.parts_alike {q : SelectPhrase} (h : ∀ t ∈ q.tokens, t.Scanned) :
    (tableParts c q.select.table).Alike (tableParts d q.select.table) where
  columns := by
    rw [tableParts_eq, tableParts_eq]
    exact q.select.table.forall₂_collect (columnText?_alike c d)
  joins := by
    rw [tableParts_eq, tableParts_eq]
    exact q.select.table.forall₂_collect (joinLine?_alike c d)
  filters := q.filters_alike c d h
  groupings := by rw [tableParts_eq, tableParts_eq]
  orderings := by
    rw [tableParts_eq, tableParts_eq]
    exact orderings_alike c d q.select.table
  limits := by rw [tableParts_eq, tableParts_eq]
  offsets := by rw [tableParts_eq, tableParts_eq]

end

theorem statementText_alike {ss ss' : List String} (h : List.Forall₂ Alike ss ss') :
    Alike (statementText ss) (statementText ss') := by
  have hlines : List.Forall₂ Alike (ss.map (· ++ "\n")) (ss'.map (· ++ "\n")) :=
    List.rel_map (fun _ _ hs => hs.append (.refl "\n")) h
  exact (Alike.refl "\n").append (.join hlines)

def Select.recased (s : Select) (k : Spelling) : Select := { s with keyword := k }

/-- However the `select` of a query is spelled, its statement is the same up to the case of ASCII
letters: character by character, and so also in its size and line by line. -/
theorem compile_recased {limit : Nat} {text : String} {s : Select} (h : compile limit text = .ok s)
    {k k' : Spelling} (hk : k.Fits "select") (hk' : k'.Fits "select") :
    folded (s.recased k).render.toList = folded (s.recased k').render.toList ∧
    (s.recased k).render.length = (s.recased k').render.length ∧
    (s.recased k).render.utf8ByteSize = (s.recased k').render.utf8ByteSize ∧
    (Text.lines (s.recased k).render.toList).map folded =
      (Text.lines (s.recased k').render.toList).map folded := by
  obtain ⟨ts, hscan, hread⟩ := compile_eq_ok h
  obtain ⟨q, -, htokens, rfl⟩ := Select.ofTokens_phrase false hread (by simp)
  have hscanned : ∀ t ∈ q.tokens, t.Scanned := by
    intro t ht
    rw [htokens] at ht
    exact Token.scan_scanned hscan t (List.mem_filter.1 ht).1
  have halike : Alike (q.select.recased k).render (q.select.recased k').render := by
    have hparts := q.parts_alike (.ofSelect k) (.ofSelect k') hscanned
    have hhead := headText_alike (.ofSelect k) (.ofSelect k') hk hk' q.select.distinct
      q.select.distinctKeyword
    rw [Select.render, Select.render, Select.recased, Select.recased, ofSelect, ofSelect]
    exact statementText_alike (sections_alike _ _ q.select.table hhead hparts)
  exact ⟨halike, halike.length_eq, halike.utf8ByteSize_eq, halike.lines_eq⟩

theorem compile_recased_capitals :
    let text := "select a [ x as y ] where not p = 1 or q LIKE r order by x desc"
    let condition := Expr.link (.not none (.compare (.value "p") "=" (.value "1"))) "or"
      (.compare (.value "q") "LIKE" (.value "r"))
    let a : Table :=
      { name := "a"
        fields := [.column { name := "x", label := { name := some "y" } }]
        rowFilter := some { expr := condition }
        orderBy := some { entries := [{ column := "x", modifiers := some "desc" }] } }
    let s : Select := { table := a }
    let upper := "\nSELECT\n  a.x AS y\nFROM a\n" ++
      "WHERE NOT a.p = 1\n   OR a.q LIKE a.r\nORDER BY a.x DESC\n"
    let lower := "\nsElect\n  a.x as y\nfrom a\n" ++
      "where not a.p = 1\n   or a.q LIKE a.r\norder by a.x desc\n"
    compile 2 text = .ok s ∧
      (s.recased (some "SELECT")).render = upper ∧ (s.recased (some "sElect")).render = lower ∧
      folded upper.toList = folded lower.toList ∧ upper.length = lower.length ∧
      upper.utf8ByteSize = lower.utf8ByteSize ∧
      (Text.lines upper.toList).map folded = (Text.lines lower.toList).map folded := by
  intro text condition a s upper lower
  have hscan : Token.scan text =
      .ok [.word "select", .word "a", .symbol "[", .word "x", .word "as", .word "y", .symbol "]",
        .word "where", .word "not", .word "p", .symbol "=", .word "1", .word "or", .word "q",
        .word "LIKE", .word "r", .word "order", .word "by", .word "x", .word "desc"] :=
    scan_of_toOption (by decide +kernel)
  have hs : compile 2 text = .ok s := by
    rw [compile, hscan]
    rfl
  have hupper : (s.recased (some "SELECT")).render = upper := by decide +kernel
  have hlower : (s.recased (some "sElect")).render = lower := by decide +kernel
  have hfits : Spelling.Fits (some "SELECT") "select" := by simp [Spelling.Fits, spells, folded]
  have hfits' : Spelling.Fits (some "sElect") "select" := by simp [Spelling.Fits, spells, folded]
  have halike := compile_recased hs hfits hfits'
  rw [hupper, hlower] at halike
  exact ⟨hs, hupper, hlower, halike⟩

end BracketQuery
