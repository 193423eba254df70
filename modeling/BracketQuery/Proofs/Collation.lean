import BracketQuery.Proofs.Gather
import BracketQuery.Proofs.SqlTokens

/-! The entries of an `order by`. Their modifiers are kept as one text and cut into words again, so
the name of a collation comes out as it was written if it reads the same word by word, and not
otherwise. -/
namespace BracketQuery

namespace Text

def spaced (ws : List String) : String := String.join (ws.map (" " ++ ·))

@[simp] theorem spaced_nil : spaced [] = "" := rfl

theorem spaced_append (vs ws : List String) : spaced (vs ++ ws) = spaced vs ++ spaced ws := by
  simp [spaced]

theorem spaced_cons (w : String) (ws : List String) : spaced (w :: ws) = " " ++ w ++ spaced ws := by
  simp [spaced]

theorem spaced_eq {ws : List String} (h : ws ≠ []) : spaced ws = " " ++ " ".intercalate ws := by
  induction ws with
  | nil => exact absurd rfl h
  | cons w ws ih =>
    cases ws with
    | nil => simp [spaced_cons]
    | cons v ws =>
      rw [spaced_cons, ih (by simp), String.intercalate_cons_cons]
      simp [String.append_assoc]

theorem wordsFrom_append_blank {b : Char} (hb : isBlank b = true) (word cs ds : List Char) :
    wordsFrom word (cs ++ b :: ds) = wordsFrom word cs ++ wordsFrom [] ds := by
  induction cs generalizing word with
  | nil => cases word <;> simp [wordsFrom, hb]
  | cons c cs ih =>
    by_cases hc : isBlank c = true
    · cases word <;> simp [wordsFrom, hc, ih]
    · simp [wordsFrom, hc, ih]

theorem words_intercalate (ws : List String) :
    words (" ".intercalate ws) = ws.flatMap words := by
  induction ws with
  | nil => rfl
  | cons w ws ih =>
    cases ws with
    | nil => simp
    | cons v ws =>
      have hblank : isBlank ' ' = true := by decide
      rw [List.flatMap_cons, ← ih, words, toList_join, wordsFrom_append_blank hblank,
        List.map_append]
      rfl

theorem wordsFrom_ne_nil {word : List Char} (h : word ≠ []) (cs : List Char) :
    wordsFrom word cs ≠ [] := by
  induction cs generalizing word with
  | nil => simp [wordsFrom, h]
  | cons c cs ih =>
    by_cases hc : isBlank c = true
    · simp [wordsFrom, hc, h]
    · simpa [wordsFrom, hc] using ih (by simp)

theorem solid_of_mem_wordsFrom {word cs w : List Char} (hword : ∀ c ∈ word, isBlank c = false)
    (hw : w ∈ wordsFrom word cs) : w ≠ [] ∧ ∀ c ∈ w, isBlank c = false := by
  have whole {v : List Char} (hv : ∀ c ∈ v, isBlank c = false) (hne : ¬ v.isEmpty = true) :
      v.reverse ≠ [] ∧ ∀ c ∈ v.reverse, isBlank c = false := by
    simpa using ⟨by simpa using hne, hv⟩
  induction cs generalizing word with
  | nil =>
    rw [wordsFrom] at hw
    split at hw
    · cases hw
    · obtain rfl := List.mem_singleton.1 hw
      exact whole hword ‹_›
  | cons c cs ih =>
    rw [wordsFrom] at hw
    split at hw
    · split at hw
      · exact ih (by simp) hw
      · rcases List.mem_cons.1 hw with rfl | hw
        · exact whole hword ‹_›
        · exact ih (by simp) hw
    · rename_i hc
      exact ih (List.forall_mem_cons.2 ⟨by simpa using hc, hword⟩) hw

theorem solid_of_mem_words {s w : String} (hw : w ∈ words s) : Solid w := by
  obtain ⟨cs, hcs, rfl⟩ := List.mem_map.1 hw
  obtain ⟨hne, hblank⟩ := solid_of_mem_wordsFrom (by simp) hcs
  exact ⟨by simpa using hne, by simpa using hblank⟩

theorem words_ne_nil {s : String} (h : Token.IsWord s.toList) : words s ≠ [] := by
  obtain ⟨c, cs, hcs, -⟩ := h.first
  have hc : isBlank c = false := by
    rw [hcs] at h
    exact h.isBlank_first
  have hne := wordsFrom_ne_nil (List.cons_ne_nil c []) cs
  simpa [words, hcs, wordsFrom, hc] using hne

end Text

namespace Sql

/- The words that modifiers are made of. -/

theorem solid_of_isOrderKeyword {w : String} (h : isOrderKeyword w = true) : Text.Solid w := by
  obtain ⟨k, hk, hs⟩ := List.any_eq_true.1 h
  have hall : ["collate", "asc", "desc", "nulls", "first", "last"].all isLettered = true := by
    decide
  exact solid_of_spells (List.all_eq_true.1 hall k hk) hs

theorem solid_modifierWord (casing : Casing) {w : String} (h : Text.Solid w) :
    Text.Solid (modifierWord casing w) := by
  by_cases hw : isOrderKeyword w = true
  · have hspells : spells (modifierWord casing w) = spells w := by
      funext keyword
      rw [spells, spells, folded_modifierWord]
    refine solid_of_isOrderKeyword ?_
    rwa [isOrderKeyword, hspells]
  · rw [modifierWord, if_neg hw]
    exact h

theorem modifierText_eq (casing : Casing) (modifiers : String) :
    modifierText casing modifiers =
      " ".intercalate ((Text.words modifiers).map (modifierWord casing)) := rfl

/-- No blank is lost from the name, and none of its words is a keyword that the casing changes. -/
structure Steady (casing : Casing) (name : String) : Prop where
  blanks : " ".intercalate (Text.words name) = name
  words : ∀ w ∈ Text.words name, isOrderKeyword w = true → casing.word w = w

theorem modifierText_eq_self (casing : Casing) (name : String) :
    modifierText casing name = name ↔ Steady casing name := by
  rw [modifierText_eq]
  constructor
  · intro h
    -- the pieces are words before and after, so cutting both sides again compares them one by one
    have hsolid : ∀ w ∈ (Text.words name).map (modifierWord casing), Text.Solid w := by
      intro w hw
      obtain ⟨v, hv, rfl⟩ := List.mem_map.1 hw
      exact solid_modifierWord casing (Text.solid_of_mem_words hv)
    have hsame : (Text.words name).map (modifierWord casing) = Text.words name := by
      have hwords := congrArg Text.words h
      rwa [Text.words_join hsolid] at hwords
    refine ⟨by rwa [hsame] at h, fun w hw hk => ?_⟩
    have hfix := List.map_inj_left.1 (hsame.trans (List.map_id _).symm) w hw
    rwa [modifierWord, if_pos hk] at hfix
  · rintro ⟨hblanks, hwords⟩
    have hsame : (Text.words name).map (modifierWord casing) = Text.words name := by
      refine (List.map_congr_left fun w hw => ?_).trans (List.map_id _)
      unfold modifierWord
      split
      · exact hwords w hw ‹_›
      · rfl
    rw [hsame, hblanks]

end Sql

/- The text of an entry. -/

section

variable (casing : Sql.Casing) (scope : String)

/-- The text of an entry, with the name of the collation given by a function of the written one. -/
def EntryPhrase.sql (collation : String → String) (e : EntryPhrase) : String :=
  Sql.qualify e.column scope ++ Text.spaced (
    e.collation.toList.flatMap (fun p => [casing.word p.keyword.text, collation p.name]) ++
      (e.direction.toList.flatMap DirectionPhrase.words).map casing.word)

theorem isOrderKeyword_of_spells {w k : String} (h : spells w k = true)
    (hk : k ∈ ["collate", "asc", "desc", "nulls", "first", "last"]) :
    Sql.isOrderKeyword w = true := List.any_eq_true.2 ⟨k, hk, h⟩

theorem DirectionPhrase.isOrderKeyword_words (d : DirectionPhrase) :
    ∀ w ∈ d.words, Sql.isOrderKeyword w = true := by
  obtain ⟨text, spelled, nulls⟩ := d
  rw [DirectionPhrase.words, List.forall_mem_cons]
  constructor
  · rcases Bool.or_eq_true_iff.1 spelled with h | h
    · exact isOrderKeyword_of_spells h (by decide)
    · exact isOrderKeyword_of_spells h (by decide)
  · intro w hw
    cases nulls with
    | none => cases hw
    | some p =>
      obtain ⟨keyword, place, hplace⟩ := p
      have hw' : w = keyword.text ∨ w = place := by simpa [NullsPhrase.words] using hw
      rcases hw' with rfl | rfl
      · exact isOrderKeyword_of_spells keyword.spelled (by decide)
      · obtain ⟨k, hk, hs⟩ := List.any_eq_true.1 hplace
        refine isOrderKeyword_of_spells hs ?_
        have hall : ["first", "last"].all
            (["collate", "asc", "desc", "nulls", "first", "last"].contains ·) = true := by decide
        simpa using List.all_eq_true.1 hall k hk

theorem DirectionPhrase.words_words (d : DirectionPhrase) :
    d.words.flatMap Text.words = d.words := by
  have hsolid (w : String) (hw : w ∈ d.words) : Text.words w = [w] :=
    Text.words_solid (Sql.solid_of_isOrderKeyword (d.isOrderKeyword_words w hw))
  rw [List.flatMap_congr hsolid]
  simp

theorem CollationPhrase.isOrderKeyword_keyword (p : CollationPhrase) :
    Sql.isOrderKeyword p.keyword.text = true :=
  isOrderKeyword_of_spells p.keyword.spelled (by decide)

theorem EntryPhrase.words_modifiers (e : EntryPhrase) :
    e.modifiers.flatMap Text.words =
      e.collation.toList.flatMap (fun p => p.keyword.text :: Text.words p.name) ++
        e.direction.toList.flatMap DirectionPhrase.words := by
  have hkeyword (p : CollationPhrase) : Text.words p.keyword.text = [p.keyword.text] :=
    Text.words_solid (Sql.solid_of_isOrderKeyword p.isOrderKeyword_keyword)
  obtain ⟨column, collation, direction⟩ := e
  rw [EntryPhrase.modifiers, List.flatMap_append]
  congr 1
  · cases collation <;> simp [CollationPhrase.words, hkeyword]
  · cases direction <;> simp [DirectionPhrase.words_words]

theorem EntryPhrase.words_ne_nil {e : EntryPhrase} (h : e.modifiers ≠ []) :
    e.modifiers.flatMap Text.words ≠ [] := by
  rw [e.words_modifiers]
  obtain ⟨column, collation, direction⟩ := e
  cases collation with
  | some p => simp
  | none =>
    cases direction with
    | some d => simp [DirectionPhrase.words]
    | none => exact absurd rfl h

theorem EntryPhrase.orderText_words (e : EntryPhrase) : Sql.orderText casing scope e.entry =
    Sql.qualify e.column scope ++
      Text.spaced ((e.modifiers.flatMap Text.words).map (Sql.modifierWord casing)) := by
  by_cases hm : e.modifiers = []
  · simp [Sql.orderText, EntryPhrase.entry, hm]
  · have hne : (e.modifiers.flatMap Text.words).map (Sql.modifierWord casing) ≠ [] := by
      simpa using e.words_ne_nil hm
    rw [Text.spaced_eq hne, ← Text.words_intercalate]
    simp [Sql.orderText, EntryPhrase.entry, hm, Sql.modifierText_eq, String.append_assoc]

/-- An entry comes out word for word; the words of its collation count as modifiers, too. -/
theorem EntryPhrase.orderText_entry {e : EntryPhrase}
    (h : ∀ p ∈ e.collation, Text.words p.name ≠ []) :
    Sql.orderText casing scope e.entry = e.sql casing scope (Sql.modifierText casing) := by
  have hcollation : Text.spaced ((e.collation.toList.flatMap fun p =>
        p.keyword.text :: Text.words p.name).map (Sql.modifierWord casing)) =
      Text.spaced (e.collation.toList.flatMap fun p =>
        [casing.word p.keyword.text, Sql.modifierText casing p.name]) := by
    cases hc : e.collation with
    | none => rfl
    | some p =>
      have hne : (Text.words p.name).map (Sql.modifierWord casing) ≠ [] := by
        simpa using h p hc
      have hkeyword : Sql.modifierWord casing p.keyword.text = casing.word p.keyword.text :=
        if_pos p.isOrderKeyword_keyword
      simp only [Option.toList_some, List.flatMap_cons, List.flatMap_nil, List.append_nil,
        List.map_cons, Text.spaced_cons, hkeyword, Text.spaced_eq hne, Sql.modifierText_eq,
        Text.spaced_nil, String.append_empty]
  have hdirection : (e.direction.toList.flatMap DirectionPhrase.words).map
        (Sql.modifierWord casing) =
      (e.direction.toList.flatMap DirectionPhrase.words).map casing.word := by
    refine List.map_congr_left fun w hw => if_pos ?_
    obtain ⟨d, -, hd⟩ := List.mem_flatMap.1 hw
    exact d.isOrderKeyword_words w hd
  rw [e.orderText_words, e.words_modifiers, List.map_append, Text.spaced_append, hcollation,
    hdirection, EntryPhrase.sql, Text.spaced_append]

theorem EntryPhrase.sql_eq_iff (e : EntryPhrase) (collation : String → String) :
    e.sql casing scope collation = e.sql casing scope id ↔
      ∀ p ∈ e.collation, collation p.name = p.name := by
  obtain ⟨column, name, direction⟩ := e
  cases name with
  | none => simp [EntryPhrase.sql]
  | some p =>
    have hsql (f : String → String) : EntryPhrase.sql casing scope f ⟨column, some p, direction⟩ =
        Sql.qualify column scope ++ (" " ++ casing.word p.keyword.text ++ " ") ++ f p.name ++
          Text.spaced ((direction.toList.flatMap DirectionPhrase.words).map casing.word) := by
      simp [EntryPhrase.sql, Text.spaced_cons, String.append_assoc]
    rw [hsql, hsql]
    simp

end

/- The tables of a select with their scopes and clauses, a table before the relations in it. -/
mutual

def BodyPhrase.scopes (scope : String) : BodyPhrase → List (String × List ClausePhrase)
  | ⟨_, _, fields, clauses⟩ => (scope, clauses) :: fieldsScopes fields

def FieldPhrase.scopes : FieldPhrase → List (String × List ClausePhrase)
  | .relation name labels _ body _ => BodyPhrase.scopes ((lastLabel labels).over name.text) body
  | .column .. => []
  | .subQuery .. => []

def fieldsScopes : List FieldPhrase → List (String × List ClausePhrase)
  | [] => []
  | f :: fs => FieldPhrase.scopes f ++ fieldsScopes fs

end

def SelectPhrase.scopes : SelectPhrase → List (String × List ClausePhrase)
  | ⟨_, _, name, label, body⟩ => body.scopes (((label.map LabelPhrase.label).getD {}).over name)

mutual

theorem BodyPhrase.tokens_of_scopes (scope : String) : (body : BodyPhrase) →
    ∀ p ∈ body.scopes scope, clausesTokens p.2 ⊆ body.tokens
  | ⟨single, n, fields, clauses⟩, p, hp => by
    intro t ht
    rcases List.mem_cons.1 hp with rfl | hp
    · simp [BodyPhrase.tokens, ht]
    · have hm := fieldsTokens_of_scopes fields p hp ht
      simp [BodyPhrase.tokens, hm]

theorem FieldPhrase.tokens_of_scopes : (f : FieldPhrase) →
    ∀ p ∈ f.scopes, clausesTokens p.2 ⊆ f.tokens
  | .relation name labels gap body n, p, hp => by
    intro t ht
    have hm := BodyPhrase.tokens_of_scopes _ body p hp ht
    simp [FieldPhrase.tokens, hm]
  | .column .., p, hp => by simp [FieldPhrase.scopes] at hp
  | .subQuery .., p, hp => by simp [FieldPhrase.scopes] at hp

theorem fieldsTokens_of_scopes : (fs : List FieldPhrase) →
    ∀ p ∈ fieldsScopes fs, clausesTokens p.2 ⊆ fieldsTokens fs
  | [], p, hp => by simp [fieldsScopes] at hp
  | f :: fs, p, hp => by
    intro t ht
    rcases List.mem_append.1 hp with hp | hp
    · exact List.mem_append_left _ (FieldPhrase.tokens_of_scopes f p hp ht)
    · exact List.mem_append_right _ (fieldsTokens_of_scopes fs p hp ht)

end

/- The orderings of a statement are those of the scopes. -/

def Sql.scopeOrderings (casing : Sql.Casing) (p : String × List ClausePhrase) : List Sql.Listed :=
  (p.2.findSome? ClausePhrase.orderBy?).toList.map (Sql.ordering casing p.1)

mutual

theorem BodyPhrase.orderings_table (casing : Sql.Casing) : (body : BodyPhrase) → ∀ name label,
    (Sql.tableParts casing (body.table name label)).orderings =
      (body.scopes (label.over name)).flatMap (Sql.scopeOrderings casing)
  | ⟨single, n, fields, clauses⟩, name, label => by
    have hf := orderings_fieldsOf casing fields (label.over name)
    rw [BodyPhrase.scopes, List.flatMap_cons, ← hf]
    rfl

theorem FieldPhrase.orderings_field (casing : Sql.Casing) : (f : FieldPhrase) → ∀ scope rest,
    (Sql.fieldParts casing scope (f.field :: rest)).orderings =
      f.scopes.flatMap (Sql.scopeOrderings casing) ++ (Sql.fieldParts casing scope rest).orderings
  | .column name labels n, scope, rest => rfl
  | .relation name labels gap body n, scope, rest => by
    have hb := BodyPhrase.orderings_table casing body name.text (lastLabel labels)
    rw [FieldPhrase.scopes, ← hb]
    rfl
  | .subQuery select labels n, scope, rest => rfl

theorem orderings_fieldsOf (casing : Sql.Casing) : (fs : List FieldPhrase) → ∀ scope,
    (Sql.fieldParts casing scope (fieldsOf fs)).orderings =
      (fieldsScopes fs).flatMap (Sql.scopeOrderings casing)
  | [], scope => rfl
  | f :: fs, scope => by
    rw [fieldsOf, FieldPhrase.orderings_field casing f, orderings_fieldsOf casing fs, fieldsScopes,
      List.flatMap_append]

end

structure ScopedOrder where
  scope : String
  keyword : ByPhrase "order"
  entries : List EntryPhrase

namespace ScopedOrder

def spelling (o : ScopedOrder) : Spelling := .ofWord o.keyword.text "order by"

def items (casing : Sql.Casing) (o : ScopedOrder) : List String :=
  o.entries.map fun e => e.sql casing o.scope (Sql.modifierText casing)

end ScopedOrder

def ClausePhrase.order? (scope : String) : ClausePhrase → Option ScopedOrder
  | .orderBy keyword front last => some ⟨scope, keyword, front ++ [last]⟩
  | _ => none

def SelectPhrase.orders (q : SelectPhrase) : List ScopedOrder :=
  q.scopes.filterMap fun p => p.2.findSome? (ClausePhrase.order? p.1)

theorem ClausePhrase.orderBy?_eq (scope : String) (c : ClausePhrase) :
    c.orderBy? = (c.order? scope).map fun o => ⟨o.spelling, o.entries.map EntryPhrase.entry⟩ := by
  cases c <;> rfl

theorem findSome?_orderBy? (scope : String) (cs : List ClausePhrase) :
    cs.findSome? ClausePhrase.orderBy? = (cs.findSome? (ClausePhrase.order? scope)).map
      fun o => ⟨o.spelling, o.entries.map EntryPhrase.entry⟩ := by
  rw [List.map_findSome?]
  exact congrArg (List.findSome? · cs) (funext fun c => c.orderBy?_eq scope)

theorem EntryPhrase.word_of_collation {e : EntryPhrase} {p : CollationPhrase}
    (hp : p ∈ e.collation) : .word p.name ∈ e.tokens := by
  have hm : p.name ∈ e.modifiers := by
    simp [EntryPhrase.modifiers, Option.mem_def.1 hp, CollationPhrase.words]
  simp [EntryPhrase.tokens, hm]

theorem ClausePhrase.tokens_of_order? {scope : String} {c : ClausePhrase} {o : ScopedOrder}
    (h : c.order? scope = some o) : o.scope = scope ∧ ∀ e ∈ o.entries, e.tokens ⊆ c.tokens := by
  cases c with
  | orderBy keyword front last =>
    cases h
    refine ⟨rfl, fun e he t ht => ?_⟩
    have hm : t ∈ orderTokens front last := by
      rcases List.mem_append.1 he with he | he
      · refine List.mem_append_left _ (List.mem_flatMap.2 ⟨e, he, ?_⟩)
        exact List.mem_append_left _ ht
      · rw [List.mem_singleton.1 he] at ht
        exact List.mem_append_right _ ht
    exact List.mem_append_right _ hm
  | _ => cases h

theorem SelectPhrase.tokens_of_scopes {q : SelectPhrase} {p : String × List ClausePhrase}
    (hp : p ∈ q.scopes) : clausesTokens p.2 ⊆ q.tokens := by
  obtain ⟨keyword, distinct, name, label, body⟩ := q
  intro t ht
  exact List.mem_append_right _ (body.tokens_of_scopes _ p hp ht)

theorem SelectPhrase.words_collation {q : SelectPhrase} (h : ∀ t ∈ q.tokens, t.Scanned)
    {p : String × List ClausePhrase} (hp : p ∈ q.scopes) {o : ScopedOrder}
    (ho : p.2.findSome? (ClausePhrase.order? p.1) = some o) : o.scope = p.1 ∧
      ∀ e ∈ o.entries, ∀ n ∈ e.collation, Text.words n.name ≠ [] := by
  obtain ⟨c, hc, horder⟩ := List.exists_of_findSome?_eq_some ho
  obtain ⟨hscope, htokens⟩ := c.tokens_of_order? horder
  refine ⟨hscope, fun e he n hn => Text.words_ne_nil ?_⟩
  refine h (.word n.name) (q.tokens_of_scopes hp ?_)
  rw [clausesTokens_eq]
  exact List.mem_flatMap.2 ⟨c, hc, htokens e he (e.word_of_collation hn)⟩

theorem SelectPhrase.orderings_select {q : SelectPhrase} (h : ∀ t ∈ q.tokens, t.Scanned) :
    (Sql.tableParts q.select.casing q.select.table).orderings =
      q.orders.map fun o => ⟨o.spelling, o.items q.select.casing⟩ := by
  have htable : (Sql.tableParts q.select.casing q.select.table).orderings =
      q.scopes.flatMap (Sql.scopeOrderings q.select.casing) := by
    obtain ⟨keyword, distinct, name, label, body⟩ := q
    exact body.orderings_table _ name _
  rw [htable, SelectPhrase.orders, List.filterMap_eq_flatMap_toList, List.map_flatMap]
  refine List.flatMap_congr fun p hp => ?_
  rw [Sql.scopeOrderings, findSome?_orderBy? p.1]
  cases ho : p.2.findSome? (ClausePhrase.order? p.1) with
  | none => rfl
  | some o =>
    obtain ⟨hscope, hwords⟩ := q.words_collation h hp ho
    simp only [Option.map_some, Option.toList_some, List.map_cons, List.map_nil, Sql.ordering,
      List.map_map, ScopedOrder.items, hscope]
    congr 2
    exact List.map_congr_left fun e he => e.orderText_entry _ _ (hwords e he)

theorem Select.render_orderings (s : Select) : ∃ before after, s.render = "\n" ++ String.join
    ((before ++ Sql.listSection s.casing .orderBy (Sql.tableParts s.casing s.table).orderings ++
      after).map (· ++ "\n")) := by
  obtain ⟨keyword, distinct, distinctKeyword, table⟩ := s
  exact ⟨_, _, congrArg Sql.statementText (List.append_assoc _ _ _)⟩

/-- The statement of a select lists the entries of the `order by` clauses of its tables. An entry is
its column, its collation and its direction, as their author wrote them if the name of the collation
is steady, and only then. -/
structure ListsOrders (q : SelectPhrase) : Prop where
  placed : ∃ before after, q.select.render = "\n" ++ String.join ((before ++
    clauseLine q.select.casing .orderBy (q.orders.map (·.spelling))
      (fun _ => ", ".intercalate (q.orders.flatMap (·.items q.select.casing))) ++
    after).map (· ++ "\n"))
  written : ∀ o ∈ q.orders, ∀ e ∈ o.entries,
    e.sql q.select.casing o.scope (Sql.modifierText q.select.casing) =
        e.sql q.select.casing o.scope id ↔
      ∀ p ∈ e.collation, Sql.Steady q.select.casing p.name

theorem SelectPhrase.listsOrders {q : SelectPhrase} (h : ∀ t ∈ q.tokens, t.Scanned) :
    ListsOrders q := by
  refine ⟨?_, fun o _ e _ => ?_⟩
  · obtain ⟨before, after, htext⟩ := q.select.render_orderings
    refine ⟨before, after, ?_⟩
    rw [htext, Sql.listSection_eq, SelectPhrase.orderings_select h, List.map_map, List.flatMap_map]
    rfl
  · simp only [e.sql_eq_iff, Sql.modifierText_eq_self]

theorem compile_listsOrders {limit : Nat} {text : String} {s : Select}
    (h : compile limit text = .ok s) :
    ∃ (ts : List Token) (c : SelectPhrase), Token.scan text = .ok ts ∧ c.Valid false ∧
      c.tokens = Token.significant ts ∧ c.select = s ∧ ∀ q ∈ c.selects, ListsOrders q := by
  obtain ⟨ts, hscan, hread⟩ := compile_eq_ok h
  obtain ⟨c, hv, htokens, hselect⟩ := Select.ofTokens_phrase false hread (by simp)
  refine ⟨ts, c, hscan, hv, htokens, hselect, fun q hq => q.listsOrders fun t ht => ?_⟩
  have hm := c.tokens_of_selects q hq ht
  rw [htokens] at hm
  exact Token.scan_scanned hscan t (List.mem_filter.1 hm).1

/-- A name in quotes with one blank, one with capitals, and words in capitals and not. -/
theorem compile_listsOrders_steady :
    let text := "Select a [b [] order by x collate \"l M\" desc NULLS last] " ++
      "order by y collate NoCase"
    let x : OrderEntry := ⟨"x", some "collate \"l M\" desc NULLS last"⟩
    let y : OrderEntry := ⟨"y", some "collate NoCase"⟩
    let b : Table := { name := "b", orderBy := some { entries := [x] } }
    let a : Table := { name := "a", fields := [.relation b], orderBy := some { entries := [y] } }
    let s : Select := { keyword := some "Select", table := a }
    compile 3 text = .ok s ∧
      s.render = "\nSelect\n  *\nFrom a\nLeft Join b On b.id = a.b_id\n" ++
        "Order By a.y Collate NoCase, b.x Collate \"l M\" Desc NULLS Last\n" ∧
      ∃ (ts : List Token) (c : SelectPhrase), Token.scan text = .ok ts ∧ c.Valid false ∧
        c.tokens = Token.significant ts ∧ c.select = s ∧ ∀ q ∈ c.selects, ListsOrders q := by
  intro text x y b a s
  have hscan : Token.scan text = .ok [.word "Select", .word "a", .symbol "[", .word "b",
      .symbol "[", .symbol "]", .word "order", .word "by", .word "x", .word "collate",
      .word "\"l M\"", .word "desc", .word "NULLS", .word "last", .symbol "]", .word "order",
      .word "by", .word "y", .word "collate", .word "NoCase"] :=
    scan_of_toOption (by decide +kernel)
  have hs : compile 3 text = .ok s := by
    rw [compile, hscan]
    rfl
  exact ⟨hs, by decide +kernel, compile_listsOrders hs⟩

/-- Two blanks in the name of a collation become one. -/
theorem exists_collation_changed :
    let text := "select t[] order by a collate \"x  y\""
    ∃ (s : Select) (e : EntryPhrase), compile 3 text = .ok s ∧
      e.tokens = [.word "a", .word "collate", .word "\"x  y\""] ∧
      s.table.orderBy = some { entries := [e.entry] } ∧
      e.sql s.casing s.table.scope id = "t.a collate \"x  y\"" ∧
      s.render = "\nselect\n  *\nfrom t\norder by t.a collate \"x y\"\n" := by
  intro text
  have hscan : Token.scan text = .ok [.word "select", .word "t", .symbol "[", .symbol "]",
      .word "order", .word "by", .word "a", .word "collate", .word "\"x  y\""] :=
    scan_of_toOption (by decide +kernel)
  let e : EntryPhrase := { column := "a", collation := some ⟨⟨"collate", by decide⟩, "\"x  y\""⟩ }
  let s : Select := { table := { name := "t", orderBy := some { entries := [e.entry] } } }
  have hs : compile 3 text = .ok s := by
    rw [compile, hscan]
    rfl
  exact ⟨s, e, hs, rfl, rfl, by decide +kernel, by decide +kernel⟩

end BracketQuery
