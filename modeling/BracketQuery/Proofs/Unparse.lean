import BracketQuery.Compile
import BracketQuery.Proofs.Acceptance
import BracketQuery.Proofs.Canonical
import BracketQuery.Proofs.Rescan

/-! The printer of queries, from trees back to tokens, and that reading undoes it. -/
namespace BracketQuery

def Spelling.unparse (written : Spelling) (canonical : String) : List Token :=
  (Text.words (written.getD canonical)).map .word

def Label.unparse (label : Label) : List Token :=
  match label.name with
  | some name => label.keyword.unparse "as" ++ [.word name]
  | none => []

/-- An operator is one symbol, unless it is made of words. -/
def operatorTokens (op : String) : List Token :=
  match Text.words op with
  | [w] =>
    if (WordOperator.ofWord? w).isSome || (Connective.ofWord? w).isSome then [.word w]
    else [.symbol op]
  | [n, w] =>
    if spells n "not" && (WordOperator.ofWord? w).isSome then [.word n, .word w] else [.symbol op]
  | _ => [.symbol op]

def rescanned (text : String) : List Token :=
  match Token.scan text with
  | .ok ts => ts
  | .error _ => []

def separated (parts : List (List Token)) : List Token := [Token.comma].intercalate parts

def GroupBy.unparse (g : GroupBy) : List Token :=
  g.keyword.unparse "group by" ++ separated (g.columns.map fun c => [.word c])

def OrderEntry.unparse (e : OrderEntry) : List Token :=
  .word e.column :: e.modifiers.toList.flatMap rescanned

def OrderBy.unparse (o : OrderBy) : List Token :=
  o.keyword.unparse "order by" ++ separated (o.entries.map OrderEntry.unparse)

def Paging.unparse (page : Page) (p : Paging) : List Token :=
  p.keyword.unparse page.name ++ [.word p.value]

def unparseNot (negated : Bool) : List Token := if negated then [.word "not"] else []

/-- The last clause that is printed is an `order by` or a `group by`. -/
def Table.endsInList (t : Table) : Bool :=
  (t.orderBy.isSome || t.groupBy.isSome) && t.rowFilter.isNone && t.groupFilter.isNone &&
    t.limit.isNone && t.offset.isNone

mutual

def Select.unparse : Select → List Token
  | ⟨keyword, distinct, distinctKeyword, table⟩ =>
    keyword.unparse "select" ++ (if distinct then distinctKeyword.unparse "distinct" else []) ++
      Table.unparse table

def Table.unparse : Table → List Token
  | ⟨name, label, single, fields, rowFilter, groupFilter, groupBy, orderBy, limit, offset⟩ =>
    .word name :: label.unparse ++ .symbol (openBracket single) :: unparseFields fields ++
      .symbol (closeBracket single) ::
        (orderBy.toList.flatMap OrderBy.unparse ++ groupBy.toList.flatMap GroupBy.unparse ++
          unparseFilter .rows rowFilter ++ unparseFilter .groups groupFilter ++
          limit.toList.flatMap (Paging.unparse .limit) ++
          offset.toList.flatMap (Paging.unparse .offset))

def Field.unparse : Field → List Token
  | .column column => .word column.name :: column.label.unparse ++ [.comma]
  | .relation table => Table.unparse table ++ if table.endsInList then [] else [.comma]
  | .subQuery select label =>
    .symbol "(" :: Select.unparse select ++ .symbol ")" :: label.unparse ++ [.comma]

def unparseFields : List Field → List Token
  | [] => []
  | f :: fs => Field.unparse f ++ unparseFields fs

def unparseFilter (filter : Filter) : Option Condition → List Token
  | none => []
  | some condition => Condition.unparse filter condition

def Condition.unparse (filter : Filter) : Condition → List Token
  | ⟨keyword, expr⟩ => keyword.unparse filter.name ++ Expr.unparse expr

def Expr.unparse : Expr → List Token
  | .compare left op right => Operand.unparse left ++ operatorTokens op ++ Operand.unparse right
  | .not keyword inner => keyword.unparse "not" ++ Expr.unparse inner
  | .paren inner => .symbol "(" :: Expr.unparse inner ++ [.symbol ")"]
  | .between keyword subject negated andKeyword low high =>
    .word subject :: unparseNot negated ++ keyword.unparse "between" ++ .word low ::
      andKeyword.unparse "and" ++ [.word high]
  | .among keyword subject negated select =>
    .word subject :: unparseNot negated ++ keyword.unparse "in" ++ .symbol "(" ::
      Select.unparse select ++ [.symbol ")"]

def Operand.unparse : Operand → List Token
  | .value text => [.word text]
  | .expr e => Expr.unparse e

end

theorem unparseFilter_eq (filter : Filter) (condition : Option Condition) :
    unparseFilter filter condition = condition.toList.flatMap (Condition.unparse filter) := by
  cases condition <;> simp [unparseFilter]

/- Words of a text. -/

namespace Text

theorem wordsFrom_solid {w : List Char} (hw : ∀ c ∈ w, isBlank c = false) (word rest : List Char) :
    wordsFrom word (w ++ rest) = wordsFrom (w.reverse ++ word) rest := by
  induction w generalizing word with
  | nil => rfl
  | cons c w ih =>
    rw [List.forall_mem_cons] at hw
    simp [wordsFrom, hw.1, ih hw.2]

structure Solid (s : String) : Prop where
  ne_nil : s.toList ≠ []
  noBlank : ∀ c ∈ s.toList, isBlank c = false

theorem words_solid {s : String} (h : Solid s) : words s = [s] := by
  have hw := wordsFrom_solid h.noBlank [] []
  rw [List.append_nil, List.append_nil] at hw
  simp [words, hw, wordsFrom, h.ne_nil]

theorem words_pair {s t : String} (hs : Solid s) (ht : Solid t) :
    words (s ++ " " ++ t) = [s, t] := by
  have hblank : isBlank ' ' = true := by decide
  have hw := wordsFrom_solid hs.noBlank [] (' ' :: t.toList)
  have hv : (wordsFrom [] t.toList).map String.ofList = [t] := words_solid ht
  rw [List.append_nil, wordsFrom, if_pos hblank, List.isEmpty_reverse] at hw
  simp [words, hw, hs.ne_nil, hv]

end Text

def isLettered (keyword : String) : Bool :=
  !keyword.toList.isEmpty && (folded keyword.toList).all Token.isWordChar

theorem solid_of_spells {word keyword : String} (hk : isLettered keyword = true)
    (h : spells word keyword = true) : Text.Solid word := by
  have hf : folded word.toList = folded keyword.toList := by simpa [spells] using h
  simp only [isLettered, Bool.and_eq_true, Bool.not_eq_true'] at hk
  refine ⟨fun hn => ?_, fun c hc => ?_⟩
  · have hlen := congrArg List.length hf
    simp_all [folded]
  · rw [← Bool.not_eq_true]
    intro hb
    have hw := Token.isWordChar_of_folded hk.2 hf c hc
    simp [Token.isWordChar_of_isBlank hb] at hw

/- Keywords and operators. -/

theorem Spelling.unparse_ofWord (word canonical : String) :
    (Spelling.ofWord word canonical).unparse canonical = (Text.words word).map .word := by
  unfold Spelling.unparse Spelling.ofWord
  split
  · rename_i h
    rw [h, Option.getD_none]
  · rw [Option.getD_some]

theorem Keyword.unparse_spelling {canonical : String} (k : Keyword canonical)
    (hk : isLettered canonical = true) : k.spelling.unparse canonical = [k.token] := by
  rw [spelling, Spelling.unparse_ofWord, Text.words_solid (solid_of_spells hk k.spelled)]
  rfl

theorem ByPhrase.unparse_text {word : String} (p : ByPhrase word) (hw : isLettered word = true)
    (canonical : String) : (Spelling.ofWord p.text canonical).unparse canonical = p.tokens := by
  have hs := solid_of_spells hw p.first.spelled
  have ht := solid_of_spells (by decide) p.second.spelled
  rw [Spelling.unparse_ofWord, text, Text.words_pair hs ht]
  rfl

theorem LabelPhrase.unparse_label (l : LabelPhrase) : l.label.unparse = l.tokens := by
  have hk := l.keyword.unparse_spelling (by decide)
  rw [Keyword.spelling] at hk
  simp [label, Label.unparse, labelled, hk, tokens]

theorem operatorTokens_sign {s : String} (h : Token.IsSign s.toList) :
    operatorTokens s = [.symbol s] := by
  rcases h.text with hs | hs | ⟨a, b, rfl, ha, hb⟩
  · have hall : ∀ s ∈ Token.plainSigns, operatorTokens s = [.symbol s] := by decide
    exact hall s hs
  · have hsame : spells s = spells "is" := funext (spells_congr hs)
    have hop : WordOperator.ofWord? s = none := by
      rw [WordOperator.ofWord?, hsame]
      decide
    have hlink : Connective.ofWord? s = none := by
      rw [Connective.ofWord?, hsame]
      decide
    simp [operatorTokens, Text.words_solid (solid_of_spells (by decide) hs), hop, hlink]
  · have hfirst : spells a "not" = false := by
      rw [spells_congr ha]
      decide
    have hwords := Text.words_pair (solid_of_spells (by decide) ha) (solid_of_spells (by decide) hb)
    simp only [operatorTokens, hwords, hfirst, Bool.false_and]
    rfl

theorem solid_of_like {text : String} (h : WordOperator.ofWord? text = some .like) :
    Text.Solid text := by
  obtain ⟨k, hm, hs⟩ := WordOperator.ofWord?_spells h
  have hall : ∀ k ∈ ["like", "ilike", "glob", "regexp"], isLettered k = true := by decide
  exact solid_of_spells (hall k hm) hs

theorem OperatorPhrase.operatorTokens_text {op : OperatorPhrase}
    (h : ∀ t ∈ op.tokens, t.Scanned) : operatorTokens op.text = op.tokens := by
  cases op with
  | symbol text free =>
    exact operatorTokens_sign (h (.symbol text) (by simp [tokens]))
  | word text like =>
    simp [operatorTokens, OperatorPhrase.text, Text.words_solid (solid_of_like like), like, tokens]
  | negated negation text like =>
    have hn := solid_of_spells (by decide) negation.spelled
    simp [operatorTokens, OperatorPhrase.text, Text.words_pair hn (solid_of_like like), like,
      negation.spelled, tokens, Keyword.token]

theorem Connective.ofWord?_spells {text : String} {link : Connective}
    (h : Connective.ofWord? text = some link) : spells text link.name = true := by
  unfold Connective.ofWord? at h
  split at h
  · cases h; assumption
  split at h
  · cases h; assumption
  · cases h

theorem ConnectivePhrase.operatorTokens_text (op : ConnectivePhrase) :
    operatorTokens op.text = [.word op.text] := by
  have hk : isLettered op.connective.name = true := by cases op.connective <;> decide
  have hs := solid_of_spells hk (Connective.ofWord?_spells op.spelled)
  simp [operatorTokens, Text.words_solid hs, op.spelled]

/- Lists. -/

theorem separated_concat {α : Type} (g : α → List Token) (front : List α) (last : α) :
    separated ((front ++ [last]).map g) = front.flatMap (fun a => g a ++ [.comma]) ++ g last := by
  induction front with
  | nil => simp [separated]
  | cons a front ih =>
    have hne : ∃ b rest, (front ++ [last]).map g = b :: rest := by
      cases front <;> simp
    obtain ⟨b, rest, he⟩ := hne
    rw [separated, he] at ih
    rw [separated, List.cons_append, List.map_cons, he, List.intercalate_cons_cons, ih]
    simp

theorem Token.Joinable.cons_of_spells {w k : String} {ws : List (List Char)}
    (hw : Token.IsWord w.toList) (h : spells w k = true) (hk : spells k "is" = false)
    (hj : Token.Joinable ws) : Token.Joinable (w.toList :: ws) := by
  cases ws with
  | nil => exact hw
  | cons v rest =>
    refine ⟨hw, fun his => ?_, hj⟩
    have hs : spells w "is" = true := by
      rw [spells, his]
      decide
    rw [spells_congr h, hk] at hs
    cases hs

theorem NullsPhrase.joinable {p : NullsPhrase} (h : ∀ w ∈ p.words, Token.IsWord w.toList) :
    Token.Joinable (p.words.map String.toList) :=
  .cons_of_spells (h _ (by simp [words])) p.keyword.spelled (by decide) (h _ (by simp [words]))

theorem DirectionPhrase.joinable {p : DirectionPhrase} (h : ∀ w ∈ p.words, Token.IsWord w.toList) :
    Token.Joinable (p.words.map String.toList) := by
  obtain ⟨text, spelled, nulls⟩ := p
  have hrest : Token.Joinable ((nulls.toList.flatMap NullsPhrase.words).map String.toList) := by
    cases nulls with
    | none => trivial
    | some n =>
      simpa using NullsPhrase.joinable (p := n) fun w hw => h w (by simp [words, hw])
  have hword := h text (by simp [words])
  rcases Bool.or_eq_true_iff.1 spelled with hs | hs
  · exact .cons_of_spells hword hs (by decide) hrest
  · exact .cons_of_spells hword hs (by decide) hrest

theorem toLower_first_of_spells {w k : String} (h : spells w k = true) {c : Char}
    (hc : c ∈ w.toList.head?) : (folded k.toList).head? = some c.toLower := by
  have hf : folded w.toList = folded k.toList := by simpa [spells] using h
  rw [← hf, folded, List.head?_map, Option.mem_def.1 hc]
  rfl

/-- The modifiers of an entry may be joined: only a collation can be called `is`, and a direction
after it does not make it a test for null. -/
theorem EntryPhrase.joinable {e : EntryPhrase} (h : ∀ w ∈ e.modifiers, Token.IsWord w.toList) :
    Token.Joinable (e.modifiers.map String.toList) := by
  obtain ⟨column, collation, direction⟩ := e
  have hrest :
      Token.Joinable ((direction.toList.flatMap DirectionPhrase.words).map String.toList) := by
    cases direction with
    | none => trivial
    | some d =>
      simpa using DirectionPhrase.joinable (p := d) fun w hw => h w (by simp [modifiers, hw])
  cases collation with
  | none => exact hrest
  | some c =>
    have hname := h c.name (by simp [modifiers, CollationPhrase.words])
    have hkeyword := h c.keyword.text (by simp [modifiers, CollationPhrase.words])
    refine .cons_of_spells hkeyword c.keyword.spelled (by decide) ?_
    cases direction with
    | none => exact hname
    | some d =>
      refine ⟨hname, fun _ a ha => ?_, hrest⟩
      have hfirst : a.toLower = 'a' ∨ a.toLower = 'd' := by
        rcases Bool.or_eq_true_iff.1 d.spelled with hs | hs
        · exact .inl (Option.some.inj (toLower_first_of_spells hs ha)).symm
        · exact .inr (Option.some.inj (toLower_first_of_spells hs ha)).symm
      rcases hfirst with ha | ha <;> simp [ha]

theorem EntryPhrase.unparse_entry {e : EntryPhrase} (h : ∀ t ∈ e.tokens, t.Scanned) :
    e.entry.unparse = e.tokens := by
  have hw : ∀ w ∈ e.modifiers, Token.IsWord w.toList := by
    intro w hm
    exact h (.word w) (by simp [tokens, hm])
  rw [OrderEntry.unparse, entry, tokens]
  by_cases hm : e.modifiers = []
  · simp [hm]
  · simp [hm, rescanned, Token.scan_join (joinable hw)]

theorem ClausePhrase.unparse_groupBy? {c : ClausePhrase} {g : GroupBy} (h : c.groupBy? = some g) :
    g.unparse = c.canonical.tokens := by
  cases c with
  | groupBy keyword front last =>
    cases h
    simp only [GroupBy.unparse, ClausePhrase.canonical, ClausePhrase.tokens, groupTokens,
      keyword.unparse_text (by decide), separated_concat]
    rfl
  | _ => simp [ClausePhrase.groupBy?] at h

theorem ClausePhrase.unparse_orderBy? {c : ClausePhrase} (hc : ∀ t ∈ c.tokens, t.Scanned)
    {o : OrderBy} (h : c.orderBy? = some o) : o.unparse = c.canonical.tokens := by
  cases c with
  | orderBy keyword front last =>
    cases h
    have hentry : ∀ e ∈ front ++ [last], OrderEntry.unparse e.entry = e.tokens := by
      intro e he
      refine e.unparse_entry fun t ht => hc t ?_
      simp only [ClausePhrase.tokens, orderTokens, List.mem_append, List.mem_flatMap]
      rcases List.mem_append.1 he with he | he
      · exact .inr (.inl ⟨e, he, .inl ht⟩)
      · rw [List.mem_singleton.1 he] at ht
        exact .inr (.inr ht)
    have hentries : (front ++ [last]).map (fun e => e.entry.unparse) =
        (front ++ [last]).map EntryPhrase.tokens := List.map_congr_left hentry
    simp only [OrderBy.unparse, ClausePhrase.canonical, ClausePhrase.tokens, orderTokens,
      keyword.unparse_text (by decide), List.map_map, Function.comp_def, hentries, separated_concat]
  | _ => simp [ClausePhrase.orderBy?] at h

theorem ClausePhrase.unparse_page? {p : Page} {c : ClausePhrase} {q : Paging}
    (h : c.page? p = some q) : q.unparse p = c.canonical.tokens := by
  cases c with
  | page page keyword value =>
    simp only [ClausePhrase.page?] at h
    split at h
    · rename_i hp
      subst hp
      cases h
      have hk : isLettered page.name = true := by cases page <;> decide
      simp [Paging.unparse, ClausePhrase.canonical, ClausePhrase.tokens,
        keyword.unparse_spelling hk]
    · simp at h
  | _ => simp [ClausePhrase.page?] at h

/- Trees. -/

theorem unparse_label (label : Option LabelPhrase) :
    ((label.map LabelPhrase.label).getD {}).unparse = label.toList.flatMap LabelPhrase.tokens := by
  cases label with
  | none => rfl
  | some l => simp [l.unparse_label]

theorem unparse_lastLabel (labels : List (Nat × LabelPhrase)) :
    (lastLabel labels).unparse = labelsTokens (lastOnly labels) := by
  cases h : labels.getLast? with
  | none => simp [lastLabel, lastOnly, h, labelsTokens, Label.unparse]
  | some l => simp [lastLabel, lastOnly, h, labelsTokens, l.2.unparse_label, commas]

theorem unparse_negated (negation : Option (Keyword "not")) (e : Expr) :
    (negated negation e).unparse = negationTokens negation ++ e.unparse := by
  cases negation with
  | none => rfl
  | some k => simp [negated, Expr.unparse, negationTokens, k.unparse_spelling (by decide)]

theorem unparseNot_eq (negation : Option (Keyword "not")) :
    unparseNot negation.isSome = negationTokens (plainNot negation) := by
  cases negation <;> rfl

theorem clauseOf_canonicalClauses (k : Clause) (cs : List ClausePhrase) :
    clauseOf k (canonicalClauses cs) = (clauseOf k cs).map ClausePhrase.canonical := by
  simp only [clauseOf, canonicalClauses_eq, List.find?_map, Function.comp_def,
    ClausePhrase.canonical_kind]

theorem clausesTokens_arranged (cs : List ClausePhrase) : clausesTokens (arranged cs) =
    clauseOrder.flatMap fun k => (clauseOf k cs).toList.flatMap ClausePhrase.tokens := by
  simp [clausesTokens_eq, arranged, List.flatMap_assoc]

theorem unparse_findSome? {β : Type} {g : ClausePhrase → Option β} {k : Clause}
    (hg : ∀ c, (g c).isSome = true ↔ c.kind = k) {u : β → List Token} {cs : List ClausePhrase}
    (hu : ∀ c ∈ cs, ∀ b, g c = some b → u b = c.canonical.tokens) :
    (cs.findSome? g).toList.flatMap u =
      (clauseOf k (canonicalClauses cs)).toList.flatMap ClausePhrase.tokens := by
  rw [findSome?_clauseOf g hg, clauseOf_canonicalClauses]
  cases hc : clauseOf k cs with
  | none => rfl
  | some c =>
    obtain ⟨b, hb⟩ := Option.isSome_iff_exists.1 ((hg c).2 (clauseOf_kind hc))
    simp [hb, hu c (clauseOf_mem hc) b hb]

theorem findSome?_isSome_clauseOf {β : Type} {g : ClausePhrase → Option β} {k : Clause}
    (hg : ∀ c, (g c).isSome = true ↔ c.kind = k) (cs : List ClausePhrase) :
    (cs.findSome? g).isSome = (clauseOf k (canonicalClauses cs)).isSome := by
  rw [findSome?_clauseOf g hg, clauseOf_canonicalClauses, Option.isSome_map]
  cases hc : clauseOf k cs with
  | none => rfl
  | some c => exact (hg c).2 (clauseOf_kind hc)

theorem endsInList_append (cs : List ClausePhrase) (k : Clause) (ds : List ClausePhrase) :
    endsInList (cs ++ (clauseOf k ds).toList) =
      if (clauseOf k ds).isSome then decide (k ∈ listKinds) else endsInList cs := by
  cases hc : clauseOf k ds with
  | none => simp
  | some c =>
    have hl := c.lists_iff
    rw [clauseOf_kind hc] at hl
    simp [endsInList, ← hl]

theorem endsInList_arranged (cs : List ClausePhrase) : endsInList (arranged cs) =
    (((clauseOf .orderBy cs).isSome || (clauseOf .groupBy cs).isSome) &&
      (clauseOf (.filter .rows) cs).isNone && (clauseOf (.filter .groups) cs).isNone &&
      (clauseOf (.page .limit) cs).isNone && (clauseOf (.page .offset) cs).isNone) := by
  have hsplit : arranged cs =
      [] ++ (clauseOf .orderBy cs).toList ++ (clauseOf .groupBy cs).toList ++
      (clauseOf (.filter .rows) cs).toList ++ (clauseOf (.filter .groups) cs).toList ++
      (clauseOf (.page .limit) cs).toList ++ (clauseOf (.page .offset) cs).toList := by
    simp [arranged, clauseOrder, listKinds, otherKinds]
  have hnil : endsInList [] = false := rfl
  have hlists (k : Clause) : decide (k ∈ listKinds) = decide (k = .orderBy ∨ k = .groupBy) := by
    simp [listKinds]
  simp only [hsplit, endsInList_append, hlists, hnil, ← Option.not_isSome]
  grind

theorem BodyPhrase.endsInList_table (body : BodyPhrase) (name : String) (label : Label) :
    (body.table name label).endsInList = endsInList body.canonical.clauses := by
  obtain ⟨single, n, fields, clauses⟩ := body
  simp only [BodyPhrase.canonical, endsInList_arranged, BodyPhrase.table, Table.endsInList,
    conditionOf_eq, ← Option.not_isSome,
    findSome?_isSome_clauseOf ClausePhrase.groupBy?_isSome,
    findSome?_isSome_clauseOf ClausePhrase.orderBy?_isSome,
    findSome?_isSome_clauseOf (ClausePhrase.condition?_isSome _),
    findSome?_isSome_clauseOf (ClausePhrase.page?_isSome _)]

/- The tree of a phrase prints to the tokens of the canonical phrase. -/
mutual

theorem SelectPhrase.unparse_select :
    (c : SelectPhrase) → (∀ t ∈ c.tokens, t.Scanned) → c.select.unparse = c.canonical.tokens
  | ⟨keyword, distinct, name, label, body⟩, h => by
    have hb := BodyPhrase.unparse_table body (fun t ht => h t (by simp [SelectPhrase.tokens, ht]))
    cases distinct with
    | none =>
      simp [SelectPhrase.select, Select.unparse, SelectPhrase.canonical, SelectPhrase.tokens,
        headTokens, hb, unparse_label, keyword.unparse_spelling (by decide)]
    | some d =>
      have hd := d.unparse_spelling (by decide)
      simp [SelectPhrase.select, Select.unparse, SelectPhrase.canonical, SelectPhrase.tokens,
        headTokens, hb, unparse_label, keyword.unparse_spelling (by decide), hd]

theorem BodyPhrase.unparse_table :
    (body : BodyPhrase) → (∀ t ∈ body.tokens, t.Scanned) → ∀ name label,
      (body.table name label).unparse = .word name :: label.unparse ++ body.canonical.tokens
  | ⟨single, n, fields, clauses⟩, h, name, label => by
    have hfields := unparse_fieldsOf fields fun t ht => h t (by simp [BodyPhrase.tokens, ht])
    have hclauses : ∀ t ∈ clausesTokens clauses, t.Scanned :=
      fun t ht => h t (by simp [BodyPhrase.tokens, ht])
    have hone : ∀ c ∈ clauses, ∀ t ∈ c.tokens, t.Scanned := by
      intro c hc t ht
      refine hclauses t ?_
      rw [clausesTokens_eq]
      exact List.mem_flatMap.2 ⟨c, hc, ht⟩
    have hfilter (f : Filter) := unparse_findSome? (ClausePhrase.condition?_isSome f)
      fun c hc => unparse_conditions f clauses hclauses c hc
    have hgroup := unparse_findSome? ClausePhrase.groupBy?_isSome
      fun (c : ClausePhrase) (_ : c ∈ clauses) _ hg => c.unparse_groupBy? hg
    have horder := unparse_findSome? ClausePhrase.orderBy?_isSome
      fun c hc _ ho => ClausePhrase.unparse_orderBy? (hone c hc) ho
    have hpage (p : Page) := unparse_findSome? (ClausePhrase.page?_isSome p)
      fun (c : ClausePhrase) (_ : c ∈ clauses) _ hp => c.unparse_page? hp
    simp [BodyPhrase.table, Table.unparse, BodyPhrase.canonical, BodyPhrase.tokens, hfields,
      unparseFilter_eq, conditionOf_eq, hfilter, hgroup, horder, hpage, clausesTokens_arranged,
      clauseOrder, listKinds, otherKinds]

theorem FieldPhrase.unparse_field :
    (f : FieldPhrase) → (∀ t ∈ f.tokens, t.Scanned) → f.field.unparse = f.canonical.tokens
  | .column name labels n, _ => by
    simp [FieldPhrase.field, Field.unparse, FieldPhrase.canonical, FieldPhrase.tokens,
      unparse_lastLabel, commas]
  | .relation name labels gap body n, h => by
    have hb := BodyPhrase.unparse_table body (fun t ht => h t (by simp [FieldPhrase.tokens, ht]))
    by_cases hl : endsInList body.canonical.clauses = true
    · simp [FieldPhrase.field, Field.unparse, FieldPhrase.canonical, FieldPhrase.tokens, hb,
        unparse_lastLabel, body.endsInList_table, hl, commas]
    · simp [FieldPhrase.field, Field.unparse, FieldPhrase.canonical, FieldPhrase.tokens, hb,
        unparse_lastLabel, body.endsInList_table, hl, commas]
  | .subQuery select labels n, h => by
    have hs :=
      SelectPhrase.unparse_select select (fun t ht => h t (by simp [FieldPhrase.tokens, ht]))
    simp [FieldPhrase.field, Field.unparse, FieldPhrase.canonical, FieldPhrase.tokens, hs,
      unparse_lastLabel, commas]

theorem unparse_fieldsOf : (fs : List FieldPhrase) → (∀ t ∈ fieldsTokens fs, t.Scanned) →
    unparseFields (fieldsOf fs) = fieldsTokens (canonicalFields fs)
  | [], _ => rfl
  | f :: fs, h => by
    rw [fieldsOf, unparseFields, canonicalFields, fieldsTokens,
      FieldPhrase.unparse_field f (fun t ht => h t (by simp [fieldsTokens, ht])),
      unparse_fieldsOf fs (fun t ht => h t (by simp [fieldsTokens, ht]))]

theorem ClausePhrase.unparse_condition (f : Filter) :
    (c : ClausePhrase) → (∀ t ∈ c.tokens, t.Scanned) → ∀ b, c.condition? f = some b →
      b.unparse f = c.canonical.tokens
  | .filter g keyword chain, h, b, hb => by
    have hc := ChainPhrase.unparse_expr chain (fun t ht => h t (by simp [ClausePhrase.tokens, ht]))
    simp only [ClausePhrase.condition?] at hb
    split at hb
    · rename_i hg
      subst hg
      cases hb
      have hk : isLettered g.name = true := by cases g <;> decide
      simp [Condition.unparse, ClausePhrase.canonical, ClausePhrase.tokens, hc,
        keyword.unparse_spelling hk]
    · simp at hb
  | .groupBy keyword front last, _, b, hb => by simp [ClausePhrase.condition?] at hb
  | .orderBy keyword front last, _, b, hb => by simp [ClausePhrase.condition?] at hb
  | .page p keyword value, _, b, hb => by simp [ClausePhrase.condition?] at hb

theorem unparse_conditions (f : Filter) :
    (cs : List ClausePhrase) → (∀ t ∈ clausesTokens cs, t.Scanned) → ∀ c ∈ cs, ∀ b,
      c.condition? f = some b → b.unparse f = c.canonical.tokens
  | [], _ => by simp
  | c :: cs, h => List.forall_mem_cons.2
    ⟨ClausePhrase.unparse_condition f c fun t ht => h t (by simp [clausesTokens, ht]),
      unparse_conditions f cs fun t ht => h t (by simp [clausesTokens, ht])⟩

theorem ChainPhrase.unparse_expr : (chain : ChainPhrase) → (∀ t ∈ chain.tokens, t.Scanned) →
    chain.expr.unparse = chain.canonical.tokens
  | .last negation test, h => by
    have ht := TestPhrase.unparse_expr test (fun t ht => h t (by simp [ChainPhrase.tokens, ht]))
    rw [ChainPhrase.expr, unparse_negated, ht, ChainPhrase.canonical, ChainPhrase.tokens]
  | .link negation test op rest, h => by
    have ht := TestPhrase.unparse_expr test (fun t ht => h t (by simp [ChainPhrase.tokens, ht]))
    have hr := ChainPhrase.unparse_expr rest (fun t ht => h t (by simp [ChainPhrase.tokens, ht]))
    simp [ChainPhrase.expr, Expr.link, Expr.unparse, Operand.unparse, unparse_negated, ht, hr,
      op.operatorTokens_text, ChainPhrase.canonical, ChainPhrase.tokens]

theorem TestPhrase.unparse_expr : (test : TestPhrase) → (∀ t ∈ test.tokens, t.Scanned) →
    test.expr.unparse = test.canonical.tokens
  | .compare left op right, h => by
    have hop := op.operatorTokens_text (fun t ht => h t (by simp [TestPhrase.tokens, ht]))
    simp [TestPhrase.expr, Expr.unparse, Operand.unparse, hop, TestPhrase.canonical,
      TestPhrase.tokens]
  | .between subject negation keyword low andKeyword high, _ => by
    simp [TestPhrase.expr, Expr.unparse, unparseNot_eq, keyword.unparse_spelling (by decide),
      andKeyword.unparse_spelling (by decide), TestPhrase.canonical, TestPhrase.tokens]
  | .among subject negation keyword select, h => by
    have hs :=
      SelectPhrase.unparse_select select (fun t ht => h t (by simp [TestPhrase.tokens, ht]))
    simp [TestPhrase.expr, Expr.unparse, unparseNot_eq, keyword.unparse_spelling (by decide), hs,
      TestPhrase.canonical, TestPhrase.tokens]
  | .paren inner, h => by
    have hi := ChainPhrase.unparse_expr inner (fun t ht => h t (by simp [TestPhrase.tokens, ht]))
    simp [TestPhrase.expr, Expr.unparse, hi, TestPhrase.canonical, TestPhrase.tokens]

end

theorem compile_eq_ok {limit : Nat} {text : String} {s : Select} (h : compile limit text = .ok s) :
    ∃ ts, Token.scan text = .ok ts ∧ Select.ofTokens limit ts = .ok s := by
  unfold compile at h
  split at h
  · cases h
  · rename_i ts hts
    split at h
    · cases h
    · rename_i s' hs
      cases h
      exact ⟨ts, hts, hs⟩

/-- The tokens of a text that make up a phrase are printed from its tree, in canonical form. -/
theorem SelectPhrase.unparse_of_scan {text : String} {ts : List Token} {c : SelectPhrase}
    (hscan : Token.scan text = .ok ts) (hc : c.tokens = Token.significant ts) :
    c.select.unparse = c.canonical.tokens := by
  refine c.unparse_select fun t ht => Token.scan_scanned hscan t ?_
  rw [hc, Token.significant] at ht
  exact (List.mem_filter.1 ht).1

/-- Reading what was printed gives the tree that was printed. -/
theorem Select.ofTokens_unparse {limit : Nat} {text : String} {s : Select}
    (h : compile limit text = .ok s) : Select.ofTokens limit s.unparse = .ok s := by
  obtain ⟨ts, hscan, hread⟩ := compile_eq_ok h
  obtain ⟨c, hv, htokens, rfl⟩ := Select.ofTokens_phrase false hread (by simp)
  have hdeep : c.select.nest ≤ limit := by
    rw [c.ofTokens_eq hv htokens.symm] at hread
    split at hread
    · assumption
    · cases hread
  have hcanonical := c.canonical.ofTokens_eq (c.canonical_valid hv)
    c.canonical.significant_tokens limit
  rw [c.canonical_select, if_pos hdeep] at hcanonical
  rw [SelectPhrase.unparse_of_scan hscan htokens]
  exact hcanonical

/-- A nested table without a comma after it, and a nested select under a `not`. -/
theorem ofTokens_unparse_nested :
    ∃ s, compile 3 "select a [b \x7b\x7d Order By x Desc] where Not y in (select z [])" = .ok s ∧
      Select.ofTokens 3 s.unparse = .ok s := by
  have hscan : Token.scan "select a [b \x7b\x7d Order By x Desc] where Not y in (select z [])" =
      .ok [.word "select", .word "a", .symbol "[", .word "b", .symbol "\x7b", .symbol "\x7d",
        .word "Order", .word "By", .word "x", .word "Desc", .symbol "]", .word "where", .word "Not",
        .word "y", .word "in", .symbol "(", .word "select", .word "z", .symbol "[", .symbol "]",
        .symbol ")"] := scan_of_toOption (by decide +kernel)
  obtain ⟨s, hs⟩ : ∃ s, compile 3
      "select a [b \x7b\x7d Order By x Desc] where Not y in (select z [])" = .ok s :=
    ⟨_, by rw [compile, hscan]; rfl⟩
  exact ⟨s, hs, Select.ofTokens_unparse hs⟩

end BracketQuery
