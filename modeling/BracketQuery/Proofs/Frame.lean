import BracketQuery.Proofs.SqlTokens

/-! The frame of a statement. A query is written between two line feeds, and what is between them
neither starts nor ends with a blank: so trimming takes the frame off and nothing else. -/
namespace BracketQuery

namespace Text

/-- The text ends, and not with a blank. -/
def Firm (s : String) : Prop := ∃ c ∈ s.toList.getLast?, isBlank c = false

theorem Firm.append {t : String} (h : Firm t) (s : String) : Firm (s ++ t) := by
  obtain ⟨c, hc, hb⟩ := h
  refine ⟨c, ?_, hb⟩
  rw [String.toList_append, List.getLast?_append, Option.mem_def.1 hc]
  rfl

theorem Firm.intercalate {ss : List String} (hne : ss ≠ []) (h : ∀ s ∈ ss.getLast?, Firm s)
    (sep : String) : Firm (sep.intercalate ss) := by
  induction ss with
  | nil => exact absurd rfl hne
  | cons s ss ih =>
    cases ss with
    | nil => simpa using h s rfl
    | cons t ss =>
      rw [String.intercalate_cons_cons]
      exact (ih (by simp) h).append _

theorem skipBlanks_of_first {c : Char} (h : isBlank c = false) (cs : List Char) :
    skipBlanks (c :: cs) = c :: cs := by
  simp [skipBlanks, h]

theorem trim_frame {s : String} (hfirst : ∀ c ∈ s.toList.head?, isBlank c = false)
    (hlast : Firm s) : trim ("\n" ++ s ++ "\n") = s := by
  obtain ⟨d, hd, hlast⟩ := hlast
  obtain ⟨front, hs⟩ := List.getLast?_eq_some_iff.1 hd
  have hfeed (cs : List Char) : skipBlanks ('\n' :: cs) = skipBlanks cs := by
    simp [skipBlanks, show isBlank '\n' = true by decide]
  have hstart : skipBlanks (s.toList ++ ['\n']) = s.toList ++ ['\n'] := by
    cases hc : s.toList with
    | nil => simp [hc] at hs
    | cons c cs => exact skipBlanks_of_first (hfirst c (by simp [hc])) _
  have hend : skipBlanks (s.toList ++ ['\n']).reverse = s.toList.reverse := by
    rw [List.reverse_append, hs, List.reverse_append]
    exact (hfeed _).trans (skipBlanks_of_first hlast _)
  have hframe : ("\n" ++ s ++ "\n").toList = '\n' :: (s.toList ++ ['\n']) := by simp
  rw [trim, trimBlanks, hframe, hfeed, hstart, hend, List.reverse_reverse, String.ofList_toList]

theorem wordsFrom_last {word cs : List Char} {c : Char}
    (hc : (word.reverse ++ cs).getLast? = some c) (hb : isBlank c = false) :
    ∃ front last, wordsFrom word cs = front ++ [last] ∧ last.getLast? = some c := by
  induction cs generalizing word with
  | nil =>
    have hne : word ≠ [] := by
      rintro rfl
      simp at hc
    exact ⟨[], word.reverse, by simp [wordsFrom, hne], by simpa using hc⟩
  | cons d cs ih =>
    rw [wordsFrom]
    split
    · rename_i hd
      have hcs : ([].reverse ++ cs).getLast? = some c := by
        cases cs with
        | nil =>
          have hdc : d = c := by simpa using hc
          simp [hdc, hb] at hd
        | cons e cs => simpa using hc
      obtain ⟨front, last, hwords, hlast⟩ := ih hcs
      split
      · exact ⟨front, last, hwords, hlast⟩
      · exact ⟨word.reverse :: front, last, by rw [hwords]; rfl, hlast⟩
    · exact ih (by simpa using hc)

theorem words_last {s : String} (h : Firm s) :
    ∃ front last, words s = front ++ [last] ∧ Firm last := by
  obtain ⟨c, hc, hb⟩ := h
  have hend : (([] : List Char).reverse ++ s.toList).getLast? = some c := hc
  obtain ⟨front, last, hwords, hlast⟩ := wordsFrom_last hend hb
  refine ⟨front.map String.ofList, String.ofList last, by simp [words, hwords], c, ?_, hb⟩
  rwa [String.toList_ofList]

theorem Solid.firm {s : String} (h : Solid s) : Firm s := by
  obtain ⟨c, hc⟩ := Option.isSome_iff_exists.1 (List.getLast?_isSome.2 h.ne_nil)
  exact ⟨c, hc, h.noBlank c (List.mem_of_getLast? hc)⟩

end Text

open Text (Firm)

theorem Token.Scanned.firm {w : String} (h : (Token.word w).Scanned) : Firm w := by
  have hw := Token.IsWord.compact h
  obtain ⟨c, hc⟩ := Option.isSome_iff_exists.1 (List.getLast?_isSome.2 hw.ne_nil)
  exact ⟨c, hc, hw.last c hc⟩

namespace Sql
variable {casing : Casing}

/- Pieces of a statement. -/

theorem firm_qualify {w : String} (h : Firm w) (scope : String) : Firm (qualify w scope) := by
  unfold qualify qualifiedText
  split
  · simpa using h
  split
  · obtain ⟨c, hc, hb⟩ := h
    exact ⟨c, by simp [List.getLast?_cons, Option.mem_def.1 hc], hb⟩
  · refine ⟨')', ?_, by decide⟩
    rw [String.toList_ofList]
    exact List.getLast?_concat

theorem firm_labelText {label : Label} {name : String} (hname : Firm name)
    (hlabel : ∀ w ∈ label.name, Firm w) : Firm (name ++ labelText casing label) := by
  unfold labelText
  cases hl : label.name with
  | none => simpa using hname
  | some w => exact ((hlabel w hl).append _).append _

theorem firm_joinText (table : Table) (parent : String) : Firm (joinText casing table parent) :=
  Firm.append ⟨'d', by decide, by decide⟩ _

theorem firm_nestedText (sql : String) : Firm (nestedText sql) :=
  Firm.append ⟨')', by decide, by decide⟩ _

theorem firm_modifierWord {w : String} (h : Firm w) : Firm (modifierWord casing w) := by
  by_cases hw : isOrderKeyword w = true
  · obtain ⟨k, hk, hs⟩ := List.any_eq_true.1 hw
    have hall : ∀ k ∈ ["collate", "asc", "desc", "nulls", "first", "last"],
        isLettered k = true := by decide
    refine (solid_of_spells (hall k hk) ?_).firm
    rw [spells, folded_modifierWord]
    exact hs
  · rw [modifierWord, if_neg hw]
    exact h

theorem firm_modifierText {m : String} (h : Firm m) : Firm (modifierText casing m) := by
  obtain ⟨front, last, hwords, hlast⟩ := Text.words_last h
  have htext : modifierText casing m =
      " ".intercalate (front.map (modifierWord casing) ++ [modifierWord casing last]) := by
    rw [modifierText, hwords, List.map_append]
    rfl
  rw [htext]
  refine .intercalate (by simp) (fun s hs => ?_) _
  obtain rfl : modifierWord casing last = s := by simpa using hs
  exact firm_modifierWord hlast

/- Conditions. -/

def Formula.Firm : Formula → Prop
  | .text sql => Text.Firm sql
  | .binary _ _ right => right.Firm
  | .not _ inner => inner.Firm
  | .paren _ => True

theorem firm_binaryText {right : String} (h : Text.Firm right) (layout : Layout)
    (left op : String) : Text.Firm (binaryText layout left op right) := by
  unfold binaryText
  split
  · exact h.append _
  · exact h.append _

theorem Formula.Firm.sql {f : Formula} (h : f.Firm) (layout : Layout) :
    Text.Firm (f.sql layout) := by
  induction f generalizing layout with
  | text sql => exact h
  | binary left op right _ ih => exact firm_binaryText (ih h layout) layout _ op
  | not keyword inner ih => exact (ih h layout).append _
  | paren inner _ => exact Firm.append ⟨')', by decide, by decide⟩ _

theorem Restriction.firm_sql {r : Restriction} (h : r.formula.Firm) (width : Nat) (several : Bool) :
    Firm (r.sql width several) := by
  unfold Restriction.sql
  split
  · have hparen : (Formula.paren r.formula).Firm := trivial
    exact hparen.sql _
  · exact h.sql _

/- Statements. -/

structure Listed.Firm (l : Listed) : Prop where
  ne_nil : l.items ≠ []
  items : ∀ s ∈ l.items, Text.Firm s

/-- Whatever may come last in a statement ends well. -/
structure Parts.Firm (p : Parts) : Prop where
  joins : ∀ s ∈ p.joins, Text.Firm s
  rowFilters : ∀ r ∈ p.rowFilters, r.formula.Firm
  groupFilters : ∀ r ∈ p.groupFilters, r.formula.Firm
  groupings : ∀ l ∈ p.groupings, l.Firm
  orderings : ∀ l ∈ p.orderings, l.Firm
  limits : ∀ q ∈ p.limits, Text.Firm q.value
  offsets : ∀ q ∈ p.offsets, Text.Firm q.value

theorem Parts.Firm.append {p q : Parts} (hp : p.Firm) (hq : q.Firm) : (p ++ q).Firm where
  joins := List.forall_mem_append.2 ⟨hp.joins, hq.joins⟩
  rowFilters := List.forall_mem_append.2 ⟨hp.rowFilters, hq.rowFilters⟩
  groupFilters := List.forall_mem_append.2 ⟨hp.groupFilters, hq.groupFilters⟩
  groupings := List.forall_mem_append.2 ⟨hp.groupings, hq.groupings⟩
  orderings := List.forall_mem_append.2 ⟨hp.orderings, hq.orderings⟩
  limits := List.forall_mem_append.2 ⟨hp.limits, hq.limits⟩
  offsets := List.forall_mem_append.2 ⟨hp.offsets, hq.offsets⟩

theorem firm_filterSection (filter : Filter) {rs : List Restriction}
    (h : ∀ r ∈ rs, r.formula.Firm) : ∀ s ∈ filterSection casing filter rs, Firm s := by
  cases rs with
  | nil => simp [filterSection]
  | cons first others =>
    simp only [filterSection, List.forall_mem_singleton, restrictionText]
    refine Firm.append (.intercalate (by simp) (fun s hs => ?_) _) _
    obtain ⟨r, hr, rfl⟩ := List.mem_map.1 (List.mem_of_getLast? hs)
    exact Restriction.firm_sql (h r hr) _ _

theorem firm_listSection (clause : Clause) {ls : List Listed} (h : ∀ l ∈ ls, l.Firm) :
    ∀ s ∈ listSection casing clause ls, Firm s := by
  cases ls with
  | nil => simp [listSection]
  | cons first others =>
    simp only [listSection, List.forall_mem_singleton]
    refine Firm.append (.intercalate ?_ (fun s hs => ?_) _) _
    · simp [(h first (by simp)).ne_nil]
    · obtain ⟨l, hl, hs⟩ := List.mem_flatMap.1 (List.mem_of_getLast? hs)
      exact (h l hl).items s hs

theorem firm_pages (page : Page) {qs : List Paging} (h : ∀ q ∈ qs, Firm q.value) :
    ∀ s ∈ qs.head?.toList.map (pageText casing page), Firm s := by
  intro s hs
  obtain ⟨q, hq, rfl⟩ := List.mem_map.1 hs
  exact (h q (List.mem_of_mem_head? (Option.mem_toList.1 hq))).append _

theorem firm_limitSection (table : Table) {qs : List Paging} (h : ∀ q ∈ qs, Firm q.value) :
    ∀ s ∈ limitSection casing table qs, Firm s := by
  unfold limitSection
  split
  · rw [List.forall_mem_singleton]
    exact Firm.append ⟨'1', by decide, by decide⟩ _
  · exact firm_pages .limit h

theorem firm_sections (casing : Casing) (head : String) {table : Table} {parts : Parts}
    (hname : Firm table.name) (hlabel : ∀ w ∈ table.label.name, Firm w) (h : parts.Firm) :
    ∃ s ss, sections casing head table parts = columnSection head parts.columns :: s :: ss ∧
      ∀ t ∈ s :: ss, Firm t := by
  simp only [sections, List.cons_append, List.nil_append]
  refine ⟨_, _, rfl, ?_⟩
  simp only [List.forall_mem_cons, List.forall_mem_append]
  refine ⟨?_, ⟨⟨⟨⟨⟨h.joins, firm_filterSection .rows h.rowFilters⟩,
    firm_listSection .groupBy h.groupings⟩, firm_filterSection .groups h.groupFilters⟩,
    firm_listSection .orderBy h.orderings⟩, firm_limitSection table h.limits⟩,
    firm_pages .offset h.offsets⟩
  rw [String.append_assoc]
  exact (firm_labelText hname hlabel).append _

theorem statementText_eq (s : String) (ss : List String) :
    statementText (s :: ss) = "\n" ++ "\n".intercalate (s :: ss) ++ "\n" := by
  have hjoin : String.join ((s :: ss).map (· ++ "\n")) = "\n".intercalate (s :: ss) ++ "\n" := by
    induction ss generalizing s with
    | nil => simp
    | cons t ss ih =>
      rw [List.map_cons, String.join_cons, ih t, String.intercalate_cons_cons]
      simp only [String.append_assoc]
  rw [statementText, hjoin, String.append_assoc]

/-- The statement is the text between the line feeds. -/
theorem trim_statementText {head : String} {table : Table} {parts : Parts}
    (hhead : ∀ rest, ∀ c ∈ (head ++ rest).toList.head?, Text.isBlank c = false)
    (hname : Firm table.name) (hlabel : ∀ w ∈ table.label.name, Firm w) (h : parts.Firm) :
    statementText (sections casing head table parts) =
      "\n" ++ Text.trim (statementText (sections casing head table parts)) ++ "\n" := by
  obtain ⟨s, ss, hsections, htail⟩ := firm_sections casing head hname hlabel h
  rw [hsections, statementText_eq, Text.trim_frame]
  · rw [String.intercalate_cons_cons, columnSection]
    simp only [String.append_assoc]
    exact hhead _
  · refine .intercalate (by simp) (fun t ht => htail t ?_) _
    rw [List.getLast?_cons_cons] at ht
    exact List.mem_of_getLast? ht

end Sql

/- Phrases whose words end well. -/

def FirmWords (ts : List Token) : Prop := ∀ w, .word w ∈ ts → Firm w

variable {ts us : List Token}

theorem FirmWords.mono (h : FirmWords ts) (hsub : us ⊆ ts) : FirmWords us :=
  fun w hw => h w (hsub hw)

theorem LabelPhrase.firm {l : LabelPhrase} (h : FirmWords l.tokens) :
    ∀ w ∈ l.label.name, Firm w := by
  intro w hw
  obtain rfl : l.name = w := by simpa [LabelPhrase.label, labelled] using hw
  exact h _ (by simp [LabelPhrase.tokens])

theorem firm_label {label : Option LabelPhrase}
    (h : FirmWords (label.toList.flatMap LabelPhrase.tokens)) :
    ∀ w ∈ ((label.map LabelPhrase.label).getD {}).name, Firm w := by
  cases label with
  | none => simp
  | some l => exact l.firm (by simpa using h)

open Sql

section Clauses
variable (casing : Casing) (scope : String)

theorem firm_negated (negation : Option (Keyword "not")) {e : Expr}
    (h : (formula casing scope e).Firm) : (formula casing scope (negated negation e)).Firm := by
  cases negation with
  | none => exact h
  | some k => exact h

theorem TestPhrase.firm : (test : TestPhrase) → FirmWords test.tokens →
    (formula casing scope test.expr).Firm
  | .compare left op right, h => firm_qualify (h right (by simp [TestPhrase.tokens])) scope
  | .between subject negation keyword low andKeyword high, h =>
    (firm_qualify (h high (by simp [TestPhrase.tokens])) scope).append _
  | .among subject negation keyword select, _ => (firm_nestedText _).append _
  | .paren inner, _ => trivial

theorem ChainPhrase.firm : (chain : ChainPhrase) → FirmWords chain.tokens →
    (formula casing scope chain.expr).Firm
  | .last negation test, h =>
    firm_negated casing scope negation
      (test.firm casing scope (h.mono (by simp [ChainPhrase.tokens])))
  | .link negation test op rest, h =>
    ChainPhrase.firm rest (h.mono fun t ht => by simp [ChainPhrase.tokens, ht])

theorem EntryPhrase.firm {e : EntryPhrase} (h : FirmWords e.tokens) :
    Firm (orderText casing scope e.entry) := by
  have hcolumn := firm_qualify (h e.column (by simp [EntryPhrase.tokens])) scope
  unfold orderText
  cases hm : e.entry.modifiers with
  | none => exact hcolumn
  | some m =>
    have hm' : e.modifiers ≠ [] ∧ " ".intercalate e.modifiers = m := by
      simpa [EntryPhrase.entry] using hm
    obtain ⟨hne, rfl⟩ := hm'
    refine Firm.append (firm_modifierText (.intercalate hne (fun w hw => h w ?_) _)) _
    simp [EntryPhrase.tokens, List.mem_of_getLast? hw]

theorem ClausePhrase.tokens_subset {c : ClausePhrase} {cs : List ClausePhrase} (h : c ∈ cs) :
    c.tokens ⊆ clausesTokens cs := by
  rw [clausesTokens_eq]
  exact fun t ht => List.mem_flatMap.2 ⟨c, h, ht⟩

theorem forall_findSome? {β : Type} {g : ClausePhrase → Option β} {P : β → Prop}
    {cs : List ClausePhrase} (h : FirmWords (clausesTokens cs))
    (hg : ∀ c : ClausePhrase, FirmWords c.tokens → ∀ b ∈ g c, P b) :
    ∀ b ∈ (cs.findSome? g).toList, P b := by
  intro b hb
  obtain ⟨c, hc, hgc⟩ := List.exists_of_findSome?_eq_some (Option.mem_toList.1 hb)
  exact hg c (h.mono (ClausePhrase.tokens_subset hc)) b hgc

theorem firm_restriction {cs : List ClausePhrase} (filter : Filter)
    (h : FirmWords (clausesTokens cs)) :
    ∀ r ∈ restriction casing scope (conditionOf filter cs), r.formula.Firm := by
  have hcondition : ∀ c ∈ (cs.findSome? (ClausePhrase.condition? filter)).toList,
      (formula casing scope c.expr).Firm := by
    refine forall_findSome? h fun c hc condition hcond => ?_
    cases c with
    | filter f keyword chain =>
      have hexpr : f = filter ∧ ⟨keyword.spelling, chain.expr⟩ = condition := by
        simpa [ClausePhrase.condition?] using hcond
      obtain ⟨-, rfl⟩ := hexpr
      exact chain.firm casing scope (hc.mono (by simp [ClausePhrase.tokens]))
    | _ => simp [ClausePhrase.condition?] at hcond
  rw [conditionOf_eq]
  cases hfind : cs.findSome? (ClausePhrase.condition? filter) with
  | none => simp [restriction]
  | some condition =>
    obtain ⟨keyword, expr⟩ := condition
    rw [hfind] at hcondition
    simpa [restriction] using hcondition

theorem ClausePhrase.firm_groupBy? {c : ClausePhrase} (h : FirmWords c.tokens) :
    ∀ g ∈ c.groupBy?, (grouping scope g).Firm := by
  intro g hg
  cases c with
  | groupBy keyword front last =>
    cases hg
    refine ⟨by simp [grouping], fun s hs => ?_⟩
    obtain ⟨column, hc, rfl⟩ := List.mem_map.1 hs
    refine firm_qualify (h column ?_) scope
    have hc' : column ∈ front ∨ column = last := by simpa using hc
    simp only [ClausePhrase.tokens, groupTokens, List.mem_append, List.mem_flatMap]
    rcases hc' with hc' | rfl
    · exact .inr (.inl ⟨column, hc', by simp⟩)
    · exact .inr (.inr (by simp))
  | _ => simp [ClausePhrase.groupBy?] at hg

theorem ClausePhrase.firm_orderBy? {c : ClausePhrase} (h : FirmWords c.tokens) :
    ∀ o ∈ c.orderBy?, (ordering casing scope o).Firm := by
  intro o ho
  cases c with
  | orderBy keyword front last =>
    cases ho
    refine ⟨by simp [ordering], fun s hs => ?_⟩
    simp only [ordering, List.map_map] at hs
    obtain ⟨e, he, rfl⟩ := List.mem_map.1 hs
    refine e.firm casing scope (h.mono fun t ht => ?_)
    have he' : e ∈ front ∨ e = last := by simpa using he
    simp only [ClausePhrase.tokens, orderTokens, List.mem_append, List.mem_flatMap]
    rcases he' with he' | rfl
    · exact .inr (.inl ⟨e, he', .inl ht⟩)
    · exact .inr (.inr ht)
  | _ => simp [ClausePhrase.orderBy?] at ho

theorem ClausePhrase.firm_page? {page : Page} {c : ClausePhrase} (h : FirmWords c.tokens) :
    ∀ q ∈ c.page? page, Firm q.value := by
  intro q hq
  cases c with
  | page p keyword value =>
    have hq' : p = page ∧ ⟨keyword.spelling, value⟩ = q := by simpa [ClausePhrase.page?] using hq
    obtain ⟨-, rfl⟩ := hq'
    exact h value (by simp [ClausePhrase.tokens])
  | _ => simp [ClausePhrase.page?] at hq

end Clauses

/- Nested selects are not opened: whatever is in them, a parenthesis comes after it. -/
mutual

theorem BodyPhrase.firm (casing : Casing) (name : String) (label : Label) : (body : BodyPhrase) →
    FirmWords body.tokens → (tableParts casing (body.table name label)).Firm
  | ⟨single, n, fields, clauses⟩, h => by
    have hfields : FirmWords (fieldsTokens fields) :=
      h.mono fun t ht => by simp [BodyPhrase.tokens, ht]
    have hclauses : FirmWords (clausesTokens clauses) :=
      h.mono fun t ht => by simp [BodyPhrase.tokens, ht]
    refine Parts.Firm.append ?_ (firm_fieldsOf casing (label.over name) fields hfields)
    exact
      { joins := by simp
        rowFilters := firm_restriction casing _ .rows hclauses
        groupFilters := firm_restriction casing _ .groups hclauses
        groupings := List.forall_mem_map.2
          (forall_findSome? hclauses fun _ => ClausePhrase.firm_groupBy? _)
        orderings := List.forall_mem_map.2
          (forall_findSome? hclauses fun _ => ClausePhrase.firm_orderBy? casing _)
        limits := forall_findSome? hclauses fun _ => ClausePhrase.firm_page?
        offsets := forall_findSome? hclauses fun _ => ClausePhrase.firm_page? }

theorem firm_fieldsOf (casing : Casing) (scope : String) : (fs : List FieldPhrase) →
    FirmWords (fieldsTokens fs) → (fieldParts casing scope (fieldsOf fs)).Firm
  | [], _ => by constructor <;> simp [fieldsOf, fieldParts]
  | .column name labels n :: fs, h => by
    have hrest : FirmWords (fieldsTokens fs) := h.mono fun t ht => by simp [fieldsTokens, ht]
    refine Parts.Firm.append ?_ (firm_fieldsOf casing scope fs hrest)
    constructor <;> simp
  | .relation name labels gap body n :: fs, h => by
    have hbody : FirmWords body.tokens :=
      h.mono fun t ht => by simp [fieldsTokens, FieldPhrase.tokens, ht]
    have hrest : FirmWords (fieldsTokens fs) := h.mono fun t ht => by simp [fieldsTokens, ht]
    refine Parts.Firm.append (.append ?_ (BodyPhrase.firm casing _ _ body hbody))
      (firm_fieldsOf casing scope fs hrest)
    constructor <;> simp [firm_joinText]
  | .subQuery select labels n :: fs, h => by
    have hrest : FirmWords (fieldsTokens fs) := h.mono fun t ht => by simp [fieldsTokens, ht]
    refine Parts.Firm.append ?_ (firm_fieldsOf casing scope fs hrest)
    constructor <;> simp

end

theorem Keyword.first_select (keyword : Keyword "select") (casing : Casing) (rest : String) :
    ∀ c ∈ (casing.keyword keyword.spelling "select" ++ rest).toList.head?,
      Text.isBlank c = false := by
  intro c hc
  have hspells := casing.spells_keyword (by decide) keyword.spelled
  have hsolid := solid_of_spells (by decide) hspells
  obtain ⟨d, ds, hd⟩ := List.exists_cons_of_ne_nil hsolid.ne_nil
  rw [String.toList_append, Keyword.spelling, hd] at hc
  obtain rfl : d = c := by simpa using hc
  exact hsolid.noBlank d (by simp [hd])

theorem SelectPhrase.render_frame (c : SelectPhrase) (h : FirmWords c.tokens) :
    c.select.render = "\n" ++ Text.trim c.select.render ++ "\n" := by
  obtain ⟨keyword, distinct, name, label, single, n, fields, clauses⟩ := c
  have hbody : FirmWords (BodyPhrase.mk single n fields clauses).tokens :=
    h.mono fun t ht => by simp [SelectPhrase.tokens, ht]
  have hlabel : FirmWords (label.toList.flatMap LabelPhrase.tokens) := by
    refine h.mono fun t ht => ?_
    simp only [SelectPhrase.tokens, headTokens, List.mem_append, List.mem_cons]
    exact .inl (.inr (.inr ht))
  have hname : Firm name := h name (by simp [SelectPhrase.tokens, headTokens])
  refine trim_statementText (fun rest => ?_) hname (firm_label hlabel)
    (BodyPhrase.firm _ name _ ⟨single, n, fields, clauses⟩ hbody)
  rw [headText, String.append_assoc]
  exact keyword.first_select _ _

/-- The command for a whole text trims the statement, which takes the frame off and nothing else. -/
theorem toSql_frame (text : String) :
    (∀ e, toSql text = .error e ↔ compile defaultLimit text = .error e) ∧
      ∀ s, compile defaultLimit text = .ok s →
        ∃ sql, toSql text = .ok sql ∧ s.render = "\n" ++ sql ++ "\n" := by
  unfold toSql
  constructor
  · intro e
    cases compile defaultLimit text with
    | error e' => simp [Except.map]
    | ok s => simp [Except.map]
  · intro s hs
    obtain ⟨ts, hscan, hread⟩ := compile_eq_ok hs
    obtain ⟨c, -, htokens, rfl⟩ := Select.ofTokens_phrase false hread (by simp)
    have hfirm : FirmWords c.tokens := fun w hw => by
      rw [htokens] at hw
      exact Token.Scanned.firm (Token.scan_scanned hscan _ (List.mem_filter.1 hw).1)
    rw [hs]
    exact ⟨_, rfl, c.render_frame hfirm⟩

/-- The blanks inside the quotes stay. -/
theorem toSql_frame_quoted :
    let text := " select a [ x ] \n where y = ' b  ' "
    ∃ s sql, compile defaultLimit text = .ok s ∧ toSql text = .ok sql ∧
      s.render = "\n" ++ sql ++ "\n" := by
  intro text
  have hscan : Token.scan text = .ok
      [.word "select", .word "a", .symbol "[", .word "x", .symbol "]", .newline, .word "where",
        .word "y", .symbol "=", .word "' b  '"] := scan_of_toOption (by decide +kernel)
  obtain ⟨s, hs⟩ : ∃ s, compile defaultLimit text = .ok s := ⟨_, by rw [compile, hscan]; rfl⟩
  obtain ⟨sql, hsql, hframe⟩ := (toSql_frame text).2 s hs
  exact ⟨s, sql, hs, hsql, hframe⟩

end BracketQuery
