import BracketQuery.Proofs.Derivation

/-! Every phrase is read: its tokens lead the reader to its tree, if the limit allows as many levels
as the tree nests, and are refused as too deep if it does not. -/
namespace BracketQuery

/- How deep a tree nests. -/
mutual

def Select.nest : Select → Nat
  | ⟨_, _, _, table⟩ => Table.nest table

def Table.nest : Table → Nat
  | ⟨_, _, _, fields, rowFilter, groupFilter, _, _, _, _⟩ =>
    1 + max (fieldsNest fields) (max (filterNest rowFilter) (filterNest groupFilter))

def Field.nest : Field → Nat
  | .column _ => 0
  | .relation table => Table.nest table
  | .subQuery select _ => 1 + Select.nest select

def fieldsNest : List Field → Nat
  | [] => 0
  | f :: fs => max (Field.nest f) (fieldsNest fs)

def filterNest : Option Condition → Nat
  | none => 0
  | some ⟨_, expr⟩ => Expr.nest expr

/-- The right side of a link lies one level deeper than the left side. -/
def Expr.nest : Expr → Nat
  | .compare left _ right => max (Operand.nest 0 left) (Operand.nest 1 right)
  | .not _ inner => Expr.nest inner
  | .paren inner => 1 + Expr.nest inner
  | .between .. => 0
  | .among _ _ _ select => 1 + Select.nest select

def Operand.nest (level : Nat) : Operand → Nat
  | .value _ => 0
  | .expr e => level + Expr.nest e

end

theorem negated_nest (negation : Option (Keyword "not")) (e : Expr) :
    (negated negation e).nest = e.nest := by
  cases negation <;> simp [negated, Expr.nest]

theorem Block.depth_eq (block : Block) : block.depth = block.home.depth + 1 := by
  cases block
  rfl

theorem Owner.depth_eq (owner : Owner) : owner.depth = owner.home.depth + 1 := by
  cases owner
  rfl

theorem Slot.depth_eq (slot : Slot) : slot.depth = slot.frame.depth + slot.links.length := by
  cases slot
  rfl

/-- From one state the tokens lead to the other, if the limit allows that many levels. -/
def Leads (st : State) (ts : List Token) (levels : Nat) (next : State) : Prop :=
  ∀ limit, st.run limit ts = if levels ≤ limit then .ok next else .error (.tooDeep limit)

namespace Leads
variable {a b c : State} {ts us : List Token} {m n : Nat} {t : Token}

theorem nil (a : State) : Leads a [] 0 a := fun _ => by simp [State.run_nil]

theorem append (h : Leads a ts m b) (k : Leads b us n c) : Leads a (ts ++ us) (max m n) c := by
  intro limit
  rw [State.run_append, h limit]
  by_cases hm : m ≤ limit
  · have hk : (if n ≤ limit then Except.ok c else .error (.tooDeep limit)) =
        (if max m n ≤ limit then Except.ok c else .error (.tooDeep limit) : Reading) := by
      simp only [Nat.max_le, hm, true_and]
    rw [if_pos hm, ← hk]
    exact k limit
  · have hmn : ¬ max m n ≤ limit := by omega
    rw [if_neg hm, if_neg hmn]
    rfl

theorem step (h : ∀ limit, a.step limit t = .ok b) : Leads a [t] 0 b := by
  intro limit
  simp [State.run, h]

theorem down (h : ∀ limit, a.step limit t = deeper limit n (.ok b)) : Leads a [t] (n + 1) b := by
  intro limit
  by_cases hn : n < limit
  · have hn' : n + 1 ≤ limit := hn
    simp [State.run, h, deeper, hn, hn']
  · have hn' : ¬ n + 1 ≤ limit := hn
    simp [State.run, h, deeper, hn, hn']

theorem cons (h : ∀ limit, a.step limit t = .ok b) (k : Leads b ts n c) :
    Leads a (t :: ts) n c := by
  simpa using (step h).append k

theorem flat (h : Leads a ts 0 b) (k : Leads b us n c) : Leads a (ts ++ us) n c := by
  simpa using h.append k

theorem congr (h : Leads a ts m b) (ht : ts = us) (hm : m = n) : Leads a us n b := by
  subst ht hm
  exact h

end Leads

/-- At the end of a table the next token is one after its block, unless it goes on with the last
clause. -/
structure Rests (st : State) (clauses : List ClausePhrase) (owner : Owner) : Prop where
  step : ∀ limit t, lastContinuedBy t clauses = false → st.step limit t = owner.step limit t
  finish : ∀ limit, st.finish limit = owner.finish

/- Keywords. -/

theorem spells_congr {word keyword : String} (h : spells word keyword = true) (k : String) :
    spells word k = spells keyword k := by
  have h' : folded word.toList = folded keyword.toList := by simpa [spells] using h
  simp [spells, h']

theorem Clause.ofWord?_eq {text : String} {c : Clause} (h : spells text c.word = true) :
    Clause.ofWord? text = some c := by
  have hw : Clause.ofWord? text = Clause.ofWord? c.word := by
    simp only [Clause.ofWord?, spells_congr h]
  rw [hw]
  cases c with
  | filter f => cases f <;> decide
  | groupBy => decide
  | orderBy => decide
  | page p => cases p <;> decide

theorem ClausePhrase.continuedBy_clause {text : String} {c : Clause}
    (h : Clause.ofWord? text = some c) (q : ClausePhrase) : q.continuedBy (.word text) = false := by
  have hc : ∀ k ∈ ["and", "or", "collate", "asc", "desc", "nulls"], spells text k = false := by
    simp only [spells_congr (Clause.ofWord?_spells h)]
    cases c with
    | filter f => cases f <;> decide
    | groupBy => decide
    | orderBy => decide
    | page p => cases p <;> decide
  simp only [List.forall_mem_cons] at hc
  obtain ⟨hand, hor, hcollate, hasc, hdesc, hnulls, -⟩ := hc
  cases q with
  | filter f k chain => simp [continuedBy, Token.connective?, Connective.ofWord?, hand, hor]
  | groupBy k front last => rfl
  | orderBy k front last =>
    cases hl : last.stage <;>
      simp [continuedBy, Token.isSymbol, hl, Stage.takes, Token.isKeyword, hcollate, hasc, hdesc,
        hnulls]
  | page p k value => rfl

theorem ClausePhrase.continuedBy_symbol {text : String} (h : text ≠ ",") (q : ClausePhrase) :
    q.continuedBy (.symbol text) = false := by
  cases q with
  | filter f k chain => rfl
  | groupBy k front last => simpa [continuedBy, Token.isSymbol] using h
  | orderBy k front last =>
    cases hl : last.stage <;>
      simpa [continuedBy, Token.isSymbol, hl, Stage.takes, Token.isKeyword] using h
  | page p k value => rfl

theorem lastContinuedBy_eq_false {t : Token} (h : ∀ q : ClausePhrase, q.continuedBy t = false)
    (cs : List ClausePhrase) : lastContinuedBy t cs = false := by
  simp only [lastContinuedBy, h]
  cases cs.getLast? <;> rfl

namespace Rests
variable {st : State} {clauses : List ClausePhrase} {owner : Owner}

theorem begin (h : Rests st clauses owner) {text : String} {c : Clause}
    (hc : Clause.ofWord? text = some c) (hn : owner.has c = false) (limit : Nat) :
    st.step limit (.word text) = .ok (owner.begin text c) := by
  rw [h.step limit _ (lastContinuedBy_eq_false (ClausePhrase.continuedBy_clause hc) _)]
  simp [Owner.step, hc, hn]

theorem close (h : Rests st clauses owner) {t : Token} (he : EndsBefore t clauses) (limit : Nat) :
    st.step limit t = owner.close limit t := by
  rw [h.step limit t he.2]
  cases t with
  | word text =>
    have hc : Clause.ofWord? text = none := he.1
    simp [Owner.step, hc]
  | symbol text => rfl
  | newline => rfl

theorem paren (h : Rests st clauses owner) (limit : Nat) :
    st.step limit (.symbol ")") = owner.close limit (.symbol ")") :=
  h.close ⟨rfl, lastContinuedBy_eq_false (ClausePhrase.continuedBy_symbol (by decide)) _⟩ limit

end Rests

/- The head of a select. -/

/-- Before a bracket or `as` it makes no difference that a name spells `distinct`. -/
theorem name_leads (keyword : Keyword "select") (distinct : Option (Keyword "distinct"))
    (name : String) (outer : Outer) (hn : distinct.isSome = true → spells name "as" = false) :
    ∃ st, Leads (.atSelect outer) (headTokens keyword distinct name none) 0 st ∧
      ∀ limit t, (t.opensBlock || t.isKeyword "as") = true →
        st.step limit t =
          stepAfterName limit name (.root ⟨keyword.text, distinct.map (·.text)⟩ outer) t := by
  have hk (limit : Nat) :
      (State.atSelect outer).step limit keyword.token = .ok (.atName keyword.text outer) := by
    simp [State.step, expectKeyword, Keyword.token, keyword.spelled]
  cases distinct with
  | none =>
    by_cases hd : spells name "distinct" = true
    · refine ⟨.atDistinct keyword.text name outer, .cons hk (.step fun limit => ?_), ?_⟩
      · simp [State.step, stepName, expectWord, hd]
      · intro limit t ht
        simp [State.step, stepDistinct, ht]
    · refine ⟨.afterName name (.root ⟨keyword.text, none⟩ outer),
        .cons hk (.step fun limit => ?_), ?_⟩
      · simp [State.step, stepName, expectWord, hd]
      · intro limit t ht
        rfl
  | some d =>
    refine ⟨.afterName name (.root ⟨keyword.text, some d.text⟩ outer),
      .cons hk (.cons (b := .atDistinct keyword.text d.text outer) (fun limit => ?_)
        (.step fun limit => ?_)), ?_⟩
    · simp [State.step, stepName, expectWord, Keyword.token, d.spelled]
    · simp [State.step, stepDistinct, expectWord, Token.opensBlock, Token.isSymbol,
        Token.isKeyword, hn]
    · intro limit t ht
      rfl

theorem head_leads (keyword : Keyword "select") (distinct : Option (Keyword "distinct"))
    (name : String) (label : Option LabelPhrase) (outer : Outer)
    (hn : distinct.isSome = true → spells name "as" = false) :
    ∃ st, Leads (.atSelect outer) (headTokens keyword distinct name label) 0 st ∧
      ∀ limit single, st.step limit (.symbol (openBracket single)) =
        openBlock limit (.bare name ((label.map LabelPhrase.label).getD {}))
          (.root ⟨keyword.text, distinct.map (·.text)⟩ outer) (.symbol (openBracket single)) := by
  obtain ⟨st, hst, hnext⟩ := name_leads keyword distinct name outer hn
  cases label with
  | none =>
    refine ⟨st, hst, fun limit single => ?_⟩
    rw [hnext limit _ (by cases single <;> decide)]
    rfl
  | some l =>
    have has (limit : Nat) : st.step limit l.keyword.token = .ok (.atTableLabel l.keyword.text name
        (.root ⟨keyword.text, distinct.map (·.text)⟩ outer)) := by
      rw [hnext limit _ (by simp [Token.isKeyword, Keyword.token, l.keyword.spelled])]
      simp [stepAfterName, Keyword.token, l.keyword.spelled]
    have hl : Leads st l.tokens 0 (.atBlock (.bare name l.label)
        (.root ⟨keyword.text, distinct.map (·.text)⟩ outer)) := .cons has (.step fun _ => rfl)
    refine ⟨_, (hst.flat hl).congr (by simp [headTokens]) rfl, fun limit single => rfl⟩

/- Field blocks. -/

theorem Block.ne_closing (block : Block) {symbol : String}
    (h : ∀ single, symbol ≠ closeBracket single) : symbol ≠ block.closing := h block.table.single

theorem Block.step_comma (block : Block) (limit : Nat) :
    block.step limit .comma = .ok (.inBlock block) := by
  have hc : "," ≠ block.closing := block.ne_closing (by decide)
  simp [Block.step, hc, Token.comma, Token.isSymbol]

theorem commas_leads (block : Block) (n : Nat) :
    Leads (.inBlock block) (commas n) 0 (.inBlock block) := by
  induction n with
  | zero => exact .nil _
  | succ n ih => exact .cons (block.step_comma ·) ih

theorem column_labelled (block : Block) (name : String) (l : Label) (k : Keyword "as")
    (w : String) :
    Leads (.inBlock (block.push (.column ⟨name, l⟩))) [k.token, .word w] 0
      (.inBlock (block.push (.column ⟨name, labelled w k.text⟩))) := by
  refine .cons (b := .atColumnLabel k.text ⟨name, l⟩ block) (fun limit => ?_) (.step fun _ => rfl)
  simp [State.step, Block.step, Keyword.token, k.spelled, Block.relabel, Block.push, Block.eta]

theorem subQuery_labelled (block : Block) (select : Select) (l : Label) (k : Keyword "as")
    (w : String) :
    Leads (.inBlock (block.push (.subQuery select l))) [k.token, .word w] 0
      (.inBlock (block.push (.subQuery select (labelled w k.text)))) := by
  refine .cons (b := .atSubQueryLabel k.text select block) (fun limit => ?_) (.step fun _ => rfl)
  simp [State.step, Block.step, Keyword.token, k.spelled, Block.relabel, Block.push, Block.eta]

theorem labels_leads {block : Block} {g : Label → Field}
    (hg : ∀ (l : Label) (k : Keyword "as") (w : String),
      Leads (.inBlock (block.push (g l))) [k.token, .word w] 0
        (.inBlock (block.push (g (labelled w k.text)))))
    (labels : List (Nat × LabelPhrase)) (l : Label) :
    Leads (.inBlock (block.push (g l))) (labelsTokens labels) 0
      (.inBlock (block.push (g ((labels.getLast?.map (·.2.label)).getD l)))) := by
  induction labels generalizing l with
  | nil => exact .nil _
  | cons first labels ih =>
    have hfirst := (commas_leads _ first.1).flat (hg l first.2.keyword first.2.name)
    have hlast : (labels.getLast?.map (·.2.label)).getD first.2.label =
        (((first :: labels).getLast?).map (·.2.label)).getD l := by
      rw [List.getLast?_cons]
      cases labels.getLast? <;> rfl
    rw [← hlast]
    exact (hfirst.flat (ih first.2.label)).congr (by simp [labelsTokens, LabelPhrase.tokens]) rfl

/- Clauses that list columns. -/

theorem by_leads {word : String} (p : ByPhrase word) (listing : Listing) (owner : Owner) :
    Leads (.atBy listing p.first.text owner) [p.second.token] 0 (listing.begin p.text owner) := by
  refine .step fun limit => ?_
  simp [State.step, expectKeyword, Keyword.token, p.second.spelled, ByPhrase.text]

theorem groupColumns_leads (keyword : String) (owner : Owner) (front : List String) (last : String)
    (columns : List String) :
    Leads (.atGroupColumn ⟨keyword, columns, owner⟩) (groupTokens front last) 0
      (.afterGroupColumn ⟨keyword, last :: (front.reverse ++ columns), owner⟩) := by
  induction front generalizing columns with
  | nil => exact .step fun _ => rfl
  | cons c front ih =>
    have hc : Leads (.atGroupColumn ⟨keyword, columns, owner⟩) [.word c, .comma] 0
        (.atGroupColumn ⟨keyword, c :: columns, owner⟩) := .cons (fun _ => rfl) (.step fun _ => rfl)
    simpa [groupTokens] using hc.flat (ih (c :: columns))

theorem direction_leads {stage : Stage} (hs : stage = .named ∨ stage = .collated)
    (draft : EntryDraft) (d : DirectionPhrase) :
    Leads (.afterOrderWord stage draft) (d.words.map .word) 0
      (.afterOrderWord (if d.nulls.isSome then .placed else .directed)
        { draft with modifiers := d.words.reverse ++ draft.modifiers }) := by
  obtain ⟨text, spelled, nulls⟩ := d
  have hcollate : spells text "collate" = false := by
    rcases Bool.or_eq_true_iff.1 spelled with h | h <;> rw [spells_congr h] <;> decide
  have hdir (limit : Nat) : (State.afterOrderWord stage draft).step limit (.word text) =
      .ok (.afterOrderWord .directed (draft.push text)) := by
    rcases hs with rfl | rfl <;>
      simp [State.step, stepAfterOrderWord, modifier?, hcollate, spelled]
  cases nulls with
  | none => exact .step hdir
  | some nulls =>
    obtain ⟨keyword, place, hplace⟩ := nulls
    refine .cons hdir (.cons (b := .atNullsPlace ((draft.push text).push keyword.text))
      (fun limit => ?_) (.step fun limit => ?_))
    · simp [State.step, stepAfterOrderWord, modifier?, keyword.spelled]
    · simp only [State.step, expectKeyword, hplace]
      rfl

theorem entry_leads (draft : OrderDraft) (e : EntryPhrase) :
    Leads (.atOrderColumn draft) e.tokens 0
      (.afterOrderWord e.stage ⟨e.column, e.modifiers.reverse, draft⟩) := by
  obtain ⟨column, collation, direction⟩ := e
  have hcolumn (limit : Nat) : (State.atOrderColumn draft).step limit (.word column) =
      .ok (.afterOrderWord .named ⟨column, [], draft⟩) := rfl
  have hcollation (c : CollationPhrase) : Leads (.afterOrderWord .named ⟨column, [], draft⟩)
      (c.words.map .word) 0 (.afterOrderWord .collated ⟨column, c.words.reverse, draft⟩) := by
    refine .cons (b := .atCollation ⟨column, [c.keyword.text], draft⟩) (fun limit => ?_)
      (.step fun _ => rfl)
    simp [State.step, stepAfterOrderWord, modifier?, c.keyword.spelled, EntryDraft.push]
  cases collation with
  | none =>
    cases direction with
    | none => exact .step hcolumn
    | some d =>
      have h := Leads.cons hcolumn (direction_leads (.inl rfl) ⟨column, [], draft⟩ d)
      simpa [EntryPhrase.tokens, EntryPhrase.modifiers, EntryPhrase.stage] using h
  | some c =>
    cases direction with
    | none =>
      have h := Leads.cons hcolumn (hcollation c)
      simpa [EntryPhrase.tokens, EntryPhrase.modifiers, EntryPhrase.stage] using h
    | some d =>
      have h := Leads.cons hcolumn ((hcollation c).flat (direction_leads (.inr rfl) _ d))
      simpa [EntryPhrase.tokens, EntryPhrase.modifiers, EntryPhrase.stage] using h

theorem orderEntries_leads (keyword : String) (owner : Owner) (front : List EntryPhrase)
    (last : EntryPhrase) (entries : List OrderEntry) :
    Leads (.atOrderColumn ⟨keyword, entries, owner⟩) (orderTokens front last) 0
      (.afterOrderWord last.stage ⟨last.column, last.modifiers.reverse,
        ⟨keyword, (front.map EntryPhrase.entry).reverse ++ entries, owner⟩⟩) := by
  induction front generalizing entries with
  | nil => exact entry_leads _ last
  | cons e front ih =>
    have hcomma (limit : Nat) : (State.afterOrderWord e.stage
        ⟨e.column, e.modifiers.reverse, ⟨keyword, entries, owner⟩⟩).step limit .comma =
          .ok (.atOrderColumn ⟨keyword, e.entry :: entries, owner⟩) := by
      simp [State.step, stepAfterOrderWord, Token.comma, Token.isSymbol, e.close_draft]
    have he := (entry_leads ⟨keyword, entries, owner⟩ e).flat (.step hcomma)
    simpa [orderTokens] using he.flat (ih (e.entry :: entries))

/- Conditions that hold no other phrase. -/

theorem subject_leads {slot : Slot} {w : String}
    (hw : slot.negation = none → spells w "not" = false) :
    Leads (.atCondition slot) [.word w] 0 (.atOperator w slot) := by
  refine .step fun limit => ?_
  cases hn : slot.negation with
  | none => simp [State.step, stepCondition, hn, hw hn]
  | some negation => simp [State.step, stepCondition, hn]

theorem like_not {text : String} (h : WordOperator.ofWord? text = some .like) :
    spells text "not" = false := by
  obtain ⟨k, hk, hs⟩ := WordOperator.ofWord?_spells h
  have hnot : ∀ k ∈ ["like", "ilike", "glob", "regexp"], spells k "not" = false := by decide
  rw [spells_congr hs, hnot k hk]

theorem operator_leads (left : String) (slot : Slot) (op : OperatorPhrase) :
    Leads (.atOperator left slot) op.tokens 0 (.atRight left op.text slot) := by
  cases op with
  | symbol text free =>
    exact .step fun limit => by simp [State.step, stepOperator, free, OperatorPhrase.text]
  | word text like =>
    refine .step fun limit => ?_
    simp [State.step, stepOperator, like_not like, like, OperatorPhrase.text]
  | negated negation text like =>
    refine .cons (b := .atNegated left negation.text slot) (fun limit => ?_) (.step fun limit => ?_)
    · simp [State.step, stepOperator, Keyword.token, negation.spelled]
    · simp [State.step, stepNegated, like, OperatorPhrase.text]

theorem negatable_leads {subject text : String} {slot : Slot} (next : Bool → State)
    (hplain : ∀ limit, (State.atOperator subject slot).step limit (.word text) = .ok (next false))
    (hneg : ∀ limit n, (State.atNegated subject n slot).step limit (.word text) = .ok (next true))
    (negation : Option (Keyword "not")) :
    Leads (.atOperator subject slot) (negationTokens negation ++ [.word text]) 0
      (next negation.isSome) := by
  cases negation with
  | none => exact .step hplain
  | some n =>
    refine .cons (b := .atNegated subject n.text slot) (fun limit => ?_)
      (.step fun limit => hneg limit _)
    simp [State.step, stepOperator, Keyword.token, n.spelled]

theorem between_leads (subject : String) (slot : Slot) (negation : Option (Keyword "not"))
    (keyword : Keyword "between") :
    Leads (.atOperator subject slot) (negationTokens negation ++ [keyword.token]) 0
      (.atLow ⟨keyword.text, subject, negation.isSome⟩ slot) := by
  have hn : spells keyword.text "not" = false := by
    rw [spells_congr keyword.spelled]
    decide
  have hw : WordOperator.ofWord? keyword.text = some .between := by
    simp [WordOperator.ofWord?, keyword.spelled]
  refine negatable_leads (fun n => .atLow ⟨keyword.text, subject, n⟩ slot) ?_ ?_ negation
  · simp [State.step, stepOperator, hn, hw]
  · simp [State.step, stepNegated, hw]

theorem among_leads (subject : String) (slot : Slot) (negation : Option (Keyword "not"))
    (keyword : Keyword "in") :
    Leads (.atOperator subject slot) (negationTokens negation ++ [keyword.token]) 0
      (.atAmong keyword.text subject negation.isSome slot) := by
  have hn : spells keyword.text "not" = false := by
    rw [spells_congr keyword.spelled]
    decide
  have hb : spells keyword.text "between" = false := by
    rw [spells_congr keyword.spelled]
    decide
  have hw : WordOperator.ofWord? keyword.text = some .among := by
    simp [WordOperator.ofWord?, keyword.spelled, hb]
  refine negatable_leads (fun n => .atAmong keyword.text subject n slot) ?_ ?_ negation
  · simp [State.step, stepOperator, hn, hw]
  · simp [State.step, stepNegated, hw]

def Slot.under (slot : Slot) (negation : Option (Keyword "not")) : Slot :=
  { slot with negation := negation.map (·.text) }

theorem Slot.under_depth (slot : Slot) (negation : Option (Keyword "not")) :
    (slot.under negation).depth = slot.depth := by
  simp [Slot.under, Slot.depth_eq]

theorem Slot.under_fill (slot : Slot) (negation : Option (Keyword "not")) (e : Expr) :
    (slot.under negation).fill e = negated negation e := by
  cases negation <;> rfl

theorem negation_leads {slot : Slot} (hs : slot.negation = none)
    (negation : Option (Keyword "not")) :
    Leads (.atCondition slot) (negationTokens negation) 0
      (.atCondition (slot.under negation)) := by
  obtain ⟨none', links, frame⟩ := slot
  simp only at hs
  subst hs
  cases negation with
  | none => exact .nil _
  | some n =>
    exact .step fun limit => by
      simp [State.step, stepCondition, Keyword.token, n.spelled, Slot.under]

/- How deep a table nests with one more clause. -/

theorem Table.nest_eq (t : Table) :
    t.nest =
      1 + max (fieldsNest t.fields) (max (filterNest t.rowFilter) (filterNest t.groupFilter)) := by
  cases t
  rfl

theorem Owner.setFilter_nest {owner : Owner} {f : Filter} (h : owner.has (.filter f) = false)
    (keyword : Spelling) (e : Expr) :
    (owner.setFilter f ⟨keyword, e⟩).table.nest = max owner.table.nest (1 + e.nest) := by
  cases f with
  | rows =>
    have hr : owner.table.rowFilter = none := by simpa [Owner.has] using h
    simp only [Owner.setFilter, Table.nest_eq, hr, filterNest]
    omega
  | groups =>
    have hg : owner.table.groupFilter = none := by simpa [Owner.has] using h
    simp only [Owner.setFilter, Table.nest_eq, hg, filterNest]
    omega

def Owner.reach (owner : Owner) : Nat := owner.home.depth + owner.table.nest

theorem Owner.setFilter_home (owner : Owner) (f : Filter) (condition : Condition) :
    (owner.setFilter f condition).home = owner.home := by
  cases f <;> rfl

theorem Owner.setPage_reach (owner : Owner) (p : Page) (paging : Paging) :
    (owner.setPage p paging).reach = owner.reach := by
  cases p <;> simp [Owner.setPage, Owner.reach, Table.nest_eq]

/- What acceptance means for each kind of phrase. The levels that its tokens take are counted
   together with those of the place where they stand. -/

def TestPhrase.Accepted (test : TestPhrase) : Prop :=
  ∀ slot : Slot, (∀ w ∈ test.subject?, slot.negation = none → spells w "not" = false) →
    ∃ n, Leads (.atCondition slot) test.tokens n (.afterCondition (slot.fill test.expr) slot) ∧
      max slot.depth n = slot.depth + test.expr.nest

def ChainPhrase.Accepted (chain : ChainPhrase) : Prop :=
  ∀ slot : Slot, slot.negation = none →
    ∃ n e last, Leads (.atCondition slot) chain.tokens n (.afterCondition e last) ∧
      last.frame = slot.frame ∧ last.chain e = slot.chain chain.expr ∧
      max slot.depth n = slot.depth + chain.expr.nest

def ClausePhrase.Accepted (c : ClausePhrase) : Prop :=
  ∀ (owner : Owner) (clauses : List ClausePhrase) (st : State), owner.has c.kind = false →
    Rests st clauses owner →
      ∃ n next, Leads st c.tokens n next ∧ Rests next (clauses ++ [c]) (c.addTo owner) ∧
        max owner.reach n = (c.addTo owner).reach

def FieldPhrase.Accepted (f : FieldPhrase) : Prop :=
  ∀ (block : Block) (st : State) (t : Token), f.Fits t →
    (∀ limit, st.step limit f.first = block.step limit f.first) →
    ∃ n next, Leads st f.tokens n next ∧
      (∀ limit, next.step limit t = (block.push f.field).step limit t) ∧
      max block.depth n = block.depth + f.field.nest

def BodyPhrase.Accepted (body : BodyPhrase) : Prop :=
  ∀ (name : String) (label : Label) (home : Home) (st : State),
    (∀ limit, st.step limit (.symbol (openBracket body.single)) =
      openBlock limit (.bare name label) home (.symbol (openBracket body.single))) →
    ∃ next, Leads st body.tokens (home.depth + (body.table name label).nest) next ∧
      Rests next body.clauses ⟨body.table name label, home⟩

def SelectPhrase.Accepted (c : SelectPhrase) : Prop :=
  ∀ outer : Outer, ∃ next, Leads (.atSelect outer) c.tokens (outer.depth + c.select.nest) next ∧
    (∀ limit, next.step limit (.symbol ")") = outer.close c.select (.symbol ")")) ∧
    ∀ limit, next.finish limit = outer.finish c.select

namespace TestPhrase

theorem compare_accepted (left : String) (op : OperatorPhrase) (right : String) :
    (compare left op right).Accepted := by
  intro slot hs
  refine ⟨0, ?_, by simp [expr, Expr.nest, Operand.nest]⟩
  have hleft := subject_leads (hs left rfl)
  have hright : Leads (.atRight left op.text slot) [.word right] 0
      (.afterCondition (slot.fill (compare left op right).expr) slot) := .step fun _ => rfl
  exact (hleft.flat ((operator_leads left slot op).flat hright)).congr (by simp [tokens]) rfl

theorem between_accepted (subject : String) (negation : Option (Keyword "not"))
    (keyword : Keyword "between") (low : String) (andKeyword : Keyword "and") (high : String) :
    (between subject negation keyword low andKeyword high).Accepted := by
  intro slot hs
  refine ⟨0, ?_, by simp [expr, Expr.nest]⟩
  have hsubject := subject_leads (hs subject rfl)
  have hbounds : Leads (.atLow ⟨keyword.text, subject, negation.isSome⟩ slot)
      [.word low, andKeyword.token, .word high] 0
      (.afterCondition (slot.fill (between subject negation keyword low andKeyword high).expr)
        slot) := by
    refine .cons (b := .atAnd ⟨keyword.text, subject, negation.isSome⟩ low slot) (fun _ => rfl)
      (.cons (b := .atHigh ⟨keyword.text, subject, negation.isSome⟩ low andKeyword.text slot)
        (fun limit => ?_) (.step fun _ => rfl))
    simp [State.step, expectKeyword, Keyword.token, andKeyword.spelled]
  exact (hsubject.flat ((between_leads subject slot negation keyword).flat hbounds)).congr
    (by simp [tokens]) rfl

theorem among_accepted (subject : String) (negation : Option (Keyword "not"))
    (keyword : Keyword "in") {select : SelectPhrase} (h : select.Accepted) :
    (among subject negation keyword select).Accepted := by
  intro slot hs
  obtain ⟨st, hst, hend, -⟩ := h (.among slot subject negation.isSome keyword.text)
  have hsubject := subject_leads (hs subject rfl)
  have hopen : Leads (.atAmong keyword.text subject negation.isSome slot) [.symbol "("]
      (slot.depth + 1) (.atSelect (.among slot subject negation.isSome keyword.text)) :=
    .down fun limit => rfl
  have hclose : Leads st [.symbol ")"] 0
      (.afterCondition (slot.fill (among subject negation keyword select).expr) slot) :=
    .step fun limit => by rw [hend]; rfl
  refine ⟨_, (hsubject.flat ((among_leads subject slot negation keyword).flat
    (hopen.append (hst.append hclose)))).congr (by simp [tokens]) rfl, ?_⟩
  simp only [Outer.depth, expr, Expr.nest]
  omega

theorem paren_accepted {inner : ChainPhrase} (h : inner.Accepted) : (paren inner).Accepted := by
  intro slot hs
  obtain ⟨n, e, last, hlast, hframe, hchain, hn⟩ := h (.first (.paren slot)) rfl
  have hopen : Leads (.atCondition slot) [.symbol "("] (slot.depth + 1)
      (.atCondition (.first (.paren slot))) := .down fun limit => rfl
  have hclose : Leads (.afterCondition e last) [.symbol ")"] 0
      (.afterCondition (slot.fill (paren inner).expr) slot) := by
    refine .step fun limit => ?_
    simp only [State.step, stepAfterCondition, Slot.close, hframe, hchain, Slot.first]
    rfl
  refine ⟨_, (hopen.append (hlast.append hclose)).congr (by simp [tokens]) rfl, ?_⟩
  simp only [Slot.first, Slot.depth, Frame.depth, List.length_nil] at hn
  simp only [expr, Expr.nest]
  omega

end TestPhrase

namespace ChainPhrase

theorem condition_leads {negation : Option (Keyword "not")} {test : TestPhrase} (h : test.Accepted)
    (hs : ∀ w ∈ test.subject?, StartsWell negation w) {slot : Slot} (hslot : slot.negation = none) :
    ∃ n, Leads (.atCondition slot) (negationTokens negation ++ test.tokens) n
        (.afterCondition (negated negation test.expr) (slot.under negation)) ∧
      max slot.depth n = slot.depth + test.expr.nest := by
  obtain ⟨n, htest, hn⟩ := h (slot.under negation) (by simpa [Slot.under, StartsWell] using hs)
  rw [Slot.under_fill] at htest
  rw [Slot.under_depth] at hn
  exact ⟨n, (negation_leads hslot negation).flat htest, hn⟩

theorem last_accepted {negation : Option (Keyword "not")} {test : TestPhrase} (h : test.Accepted)
    (hs : ∀ w ∈ test.subject?, StartsWell negation w) : (last negation test).Accepted := by
  intro slot hslot
  obtain ⟨n, htest, hn⟩ := condition_leads h hs hslot
  refine ⟨n, _, _, htest, rfl, rfl, ?_⟩
  rw [expr, negated_nest]
  exact hn

theorem link_accepted {negation : Option (Keyword "not")} {test : TestPhrase}
    (op : ConnectivePhrase) {rest : ChainPhrase} (h : test.Accepted)
    (hs : ∀ w ∈ test.subject?, StartsWell negation w) (hr : rest.Accepted) :
    (link negation test op rest).Accepted := by
  intro slot hslot
  obtain ⟨n, htest, hn⟩ := condition_leads h hs hslot
  let next := (slot.under negation).link (negated negation test.expr) op.text
  have hop : Leads (.afterCondition (negated negation test.expr) (slot.under negation))
      [.word op.text] (slot.depth + 1) (.atCondition next) := by
    refine .down fun limit => ?_
    simp [State.step, stepAfterCondition, op.spelled, Slot.under_depth, next]
  obtain ⟨m, e, last, hlast, hframe, hchain, hm⟩ := hr next rfl
  have hnext : next.depth = slot.depth + 1 := by
    simp only [next, Slot.depth_eq, Slot.link, Slot.under, List.length_cons]
    omega
  refine ⟨_, e, last, (htest.append (hop.append hlast)).congr (by simp [tokens]) rfl, hframe,
    hchain, ?_⟩
  rw [hnext] at hm
  simp only [expr, Expr.link, Expr.nest, Operand.nest, negated_nest]
  omega

end ChainPhrase

namespace ClausePhrase

theorem filter_accepted {f : Filter} (k : Keyword f.name) {chain : ChainPhrase}
    (h : chain.Accepted) : (filter f k chain).Accepted := by
  intro owner clauses st hk hst
  obtain ⟨n, e, last, hlast, hframe, hchain, hn⟩ := h (.first (.clause f k.text owner)) rfl
  have hbegin := hst.begin (Clause.ofWord?_eq (c := .filter f) k.spelled) hk
  refine ⟨n, _, .cons hbegin hlast, ⟨fun limit t ht => ?_, fun limit => ?_⟩, ?_⟩
  · have hc : t.connective? = none := by
      simpa [lastContinuedBy, continuedBy] using ht
    have hclose : last.close limit e t = (addTo owner (.filter f k chain)).step limit t := by
      simp only [Slot.close, hframe, hchain, Slot.first]
      rfl
    rw [← hclose]
    cases t with
    | word text =>
      have hc' : Connective.ofWord? text = none := hc
      simp [State.step, stepAfterCondition, hc']
    | symbol text => rfl
    | newline => rfl
  · simp only [State.finish, Slot.finish, hframe, hchain, Slot.first]
    rfl
  · simp only [Slot.first, Slot.depth_eq, Frame.depth, Owner.depth_eq, List.length_nil] at hn
    have hpos : owner.table.nest = 1 + (owner.table.nest - 1) := by
      rw [Table.nest_eq]
      omega
    simp only [addTo, Owner.reach, Owner.setFilter_home, Owner.setFilter_nest hk]
    omega

theorem groupBy_accepted (p : ByPhrase "group") (front : List String) (last : String) :
    (groupBy p front last).Accepted := by
  intro owner clauses st hk hst
  have hbegin := hst.begin (Clause.ofWord?_eq (c := .groupBy) p.first.spelled) hk
  have hby := by_leads p .group owner
  have hcolumns := groupColumns_leads p.text owner front last []
  rw [List.append_nil] at hcolumns
  have hclose := GroupDraft.close_eq p front last owner
  refine ⟨0, _, .cons hbegin (hby.flat hcolumns), ⟨fun limit t ht => ?_, fun limit => ?_⟩, ?_⟩
  · have hc : t.isSymbol "," = false := by simpa [lastContinuedBy, continuedBy] using ht
    simp [State.step, stepAfterGroupColumn, hc, ← hclose]
  · rw [State.finish, hclose]
  · simp [addTo, Owner.setGroupBy, Owner.reach, Table.nest_eq]

theorem afterOrderWord_rests {p : ByPhrase "order"} {front : List EntryPhrase} {last : EntryPhrase}
    {owner : Owner} (clauses : List ClausePhrase) :
    Rests (.afterOrderWord last.stage ⟨last.column, last.modifiers.reverse,
        ⟨p.text, (front.map EntryPhrase.entry).reverse, owner⟩⟩)
      (clauses ++ [.orderBy p front last]) (addTo owner (.orderBy p front last)) := by
  have hclose := OrderDraft.close_eq p front last owner
  refine ⟨fun limit t ht => ?_, fun limit => ?_⟩
  · have hc : t.isSymbol "," = false ∧ last.stage.takes t = false := by
      simpa [lastContinuedBy, continuedBy] using ht
    cases t with
    | word text =>
      have hm := (modifier?_eq_none last.stage (EntryDraft.mk last.column last.modifiers.reverse
        ⟨p.text, (front.map EntryPhrase.entry).reverse, owner⟩) text).2 hc.2
      simp only [State.step, stepAfterOrderWord, hm, hclose]
    | symbol text =>
      simp only [State.step, stepAfterOrderWord, hc.1, hclose]
      rfl
    | newline =>
      simp only [State.step, stepAfterOrderWord, hc.1, hclose]
      rfl
  · rw [State.finish, hclose]

theorem orderBy_accepted (p : ByPhrase "order") (front : List EntryPhrase) (last : EntryPhrase) :
    (orderBy p front last).Accepted := by
  intro owner clauses st hk hst
  have hbegin := hst.begin (Clause.ofWord?_eq (c := .orderBy) p.first.spelled) hk
  have hby := by_leads p .order owner
  have hentries := orderEntries_leads p.text owner front last []
  rw [List.append_nil] at hentries
  refine ⟨0, _, .cons hbegin (hby.flat hentries), afterOrderWord_rests clauses, ?_⟩
  simp [addTo, Owner.setOrderBy, Owner.reach, Table.nest_eq]

theorem page_accepted {p : Page} (k : Keyword p.name) (value : String) :
    (page p k value).Accepted := by
  intro owner clauses st hk hst
  have hbegin := hst.begin (Clause.ofWord?_eq (c := .page p) k.spelled) hk
  refine ⟨0, .afterBlock (addTo owner (.page p k value)), .cons hbegin (.step fun _ => rfl),
    ⟨fun _ _ _ => rfl, fun _ => rfl⟩, ?_⟩
  simp [addTo, Owner.setPage_reach]

end ClausePhrase

def BodyPhrase.addAll (body : BodyPhrase) (clauses : List ClausePhrase) : BodyPhrase :=
  { body with clauses := body.clauses ++ clauses }

theorem clauses_accepted {clauses : List ClausePhrase} (h : ∀ c ∈ clauses, c.Accepted)
    (body : BodyPhrase) (hn : (body.addAll clauses).kinds.Nodup) (name : String) (label : Label)
    (home : Home) {st : State} (hst : Rests st body.clauses ⟨body.table name label, home⟩) :
    ∃ n next, Leads st (clausesTokens clauses) n next ∧
      Rests next (body.addAll clauses).clauses ⟨(body.addAll clauses).table name label, home⟩ ∧
      max (home.depth + (body.table name label).nest) n =
        home.depth + ((body.addAll clauses).table name label).nest := by
  induction clauses generalizing body st with
  | nil =>
    have hnil : body.addAll [] = body := by
      cases body
      simp [BodyPhrase.addAll]
    rw [hnil]
    exact ⟨0, st, .nil st, hst, by simp⟩
  | cons c clauses ih =>
    have hcons : (body.add c).addAll clauses = body.addAll (c :: clauses) := by
      simp [BodyPhrase.addAll, BodyPhrase.add]
    have hk : c.kind ∉ body.kinds := by
      simp only [BodyPhrase.kinds, BodyPhrase.addAll, List.map_append, List.map_cons] at hn
      exact fun hm => (List.nodup_append.1 hn).2.2 _ hm _ (List.mem_cons_self ..) rfl
    have hno : (Owner.mk (body.table name label) home).has c.kind = false := by
      rw [← Bool.not_eq_true, body.has_iff]
      exact hk
    obtain ⟨n, next, hnext, hrests, hreach⟩ := h c (by simp) _ _ _ hno hst
    rw [← BodyPhrase.table_add c hk] at hrests hreach
    rw [← hcons] at hn ⊢
    obtain ⟨m, last, hlast, hrests', hreach'⟩ := ih (fun d hd => h d (by simp [hd])) _ hn hrests
    refine ⟨_, last, hnext.append hlast, hrests', ?_⟩
    simp only [Owner.reach] at hreach
    omega

theorem openBlock_bracket (limit : Nat) (table : Table) (home : Home) (single : Bool) :
    openBlock limit table home (.symbol (openBracket single)) =
      deeper limit home.depth (.ok (.inBlock ⟨{ table with single := single }, [], home⟩)) := by
  cases single <;> simp [openBlock, openBracket, Token.isSymbol]

theorem Block.step_bracket (block : Block) (name : String) (label : Label) (single : Bool)
    (limit : Nat) :
    (block.push (.column ⟨name, label⟩)).step limit (.symbol (openBracket single)) =
      openBlock limit (.bare name label) (.relation block) (.symbol (openBracket single)) := by
  have hc : openBracket single ≠ (block.push (.column ⟨name, label⟩)).closing :=
    Block.ne_closing _ (by cases single <;> decide)
  cases single <;>
    simp_all [Block.step, Token.isSymbol, Token.opensBlock, openBracket, Block.nest, Block.push,
      Block.eta]

namespace FieldPhrase

theorem column_leads {block : Block} {st : State} {name : FieldName}
    (hst : ∀ limit, st.step limit (.word name.text) = block.step limit (.word name.text))
    (labels : List (Nat × LabelPhrase)) (n : Nat) :
    Leads st (column name labels n).tokens 0
      (.inBlock (block.push (.column ⟨name.text, lastLabel labels⟩))) := by
  have hname : Leads st [.word name.text] 0 (.inBlock (block.push (.column ⟨name.text, {}⟩))) := by
    refine .step fun limit => (hst limit).trans ?_
    simp [Block.step, name.free]
  have hlabels := labels_leads (column_labelled block name.text) labels {}
  exact (hname.flat (hlabels.flat (commas_leads _ n))).congr (by simp [tokens]) rfl

theorem column_accepted (name : FieldName) (labels : List (Nat × LabelPhrase)) (n : Nat) :
    (column name labels n).Accepted := by
  intro block st t _ hst
  exact ⟨0, _, column_leads hst labels n, fun _ => rfl, by simp [field, Field.nest]⟩

theorem relation_accepted (name : FieldName) (labels : List (Nat × LabelPhrase)) (gap n : Nat)
    {body : BodyPhrase} (h : body.Accepted) : (relation name labels gap body n).Accepted := by
  intro block st t ht hst
  obtain ⟨next, hnext, hrests⟩ := h name.text (lastLabel labels) (.relation block)
    (.inBlock (block.push (.column ⟨name.text, lastLabel labels⟩))) fun limit =>
      block.step_bracket name.text (lastLabel labels) body.single limit
  have htable := (column_leads hst labels gap).flat hnext
  have hlevels : max block.depth ((Home.relation block).depth +
      (body.table name.text (lastLabel labels)).nest) =
        block.depth + (relation name labels gap body n).field.nest := by
    simp only [Home.depth, field, Field.nest]
    omega
  -- After a comma the reader is in the block again; before that the relation rests.
  cases n with
  | zero =>
    exact ⟨_, next, htable.congr (by simp [tokens]) rfl, hrests.close ht, hlevels⟩
  | succ n =>
    have hcomma : Leads next [.comma] 0
        (.inBlock (block.push (relation name labels gap body (n + 1)).field)) :=
      .step fun limit => (hrests.close ht limit).trans (Block.step_comma _ limit)
    refine ⟨_, _, (htable.append (hcomma.flat (commas_leads _ n))).congr ?_ (by simp),
      fun _ => rfl, hlevels⟩
    simp [tokens, commas, List.replicate_succ]

theorem subQuery_accepted {select : SelectPhrase} (labels : List (Nat × LabelPhrase)) (n : Nat)
    (h : select.Accepted) : (subQuery select labels n).Accepted := by
  intro block st t _ hst
  obtain ⟨next, hnext, hend, -⟩ := h (.field block)
  have hopen : Leads st [.symbol "("] (block.depth + 1) (.atSelect (.field block)) := by
    refine .down fun limit => (hst limit).trans ?_
    have hc : "(" ≠ block.closing := block.ne_closing (by decide)
    simp [first, Block.step, Token.isSymbol, Token.opensBlock, hc]
  have hclose : Leads next [.symbol ")"] 0 (.inBlock (block.push (.subQuery select.select {}))) :=
    .step fun limit => by rw [hend]; rfl
  have hlabels := labels_leads (subQuery_labelled block select.select) labels {}
  have hafter := hclose.flat (hlabels.flat (commas_leads _ n))
  refine ⟨_, _, (hopen.append (hnext.append hafter)).congr (by simp [tokens]) rfl, fun _ => rfl, ?_⟩
  simp only [Outer.depth, field, Field.nest]
  omega

end FieldPhrase

def firstOf (fs : List FieldPhrase) (t : Token) : Token := (fs.head?.map FieldPhrase.first).getD t

theorem fields_accepted {fs : List FieldPhrase} (h : ∀ f ∈ fs, f.Accepted) {t : Token}
    (ht : FieldsFit t fs) (block : Block) (st : State)
    (hst : ∀ limit, st.step limit (firstOf fs t) = block.step limit (firstOf fs t)) :
    ∃ n next, Leads st (fieldsTokens fs) n next ∧
      (∀ limit, next.step limit t =
        Block.step limit { block with fields := (fieldsOf fs).reverse ++ block.fields } t) ∧
      max block.depth n = block.depth + fieldsNest (fieldsOf fs) := by
  induction fs generalizing block st with
  | nil =>
    refine ⟨0, st, .nil st, ?_, by simp [fieldsOf, fieldsNest]⟩
    simpa [fieldsOf, Block.eta, firstOf] using hst
  | cons f fs ih =>
    have hfit : f.Fits (firstOf fs t) ∧ FieldsFit t fs := by
      cases fs with
      | nil => exact ⟨ht, trivial⟩
      | cons g fs => exact ht
    obtain ⟨n, next, hnext, hstep, hn⟩ := h f (by simp) block st _ hfit.1 hst
    obtain ⟨m, last, hlast, hend, hm⟩ :=
      ih (fun g hg => h g (by simp [hg])) hfit.2 (block.push f.field) next hstep
    refine ⟨_, last, hnext.append hlast, ?_, ?_⟩
    · simpa [fieldsOf, Block.push] using hend
    · simp only [Block.depth_eq, Block.push] at hn hm
      simp only [Block.depth_eq, fieldsOf, fieldsNest]
      omega

theorem BodyPhrase.accepted_of {body : BodyPhrase} (hf : ∀ f ∈ body.fields, f.Accepted)
    (hc : ∀ c ∈ body.clauses, c.Accepted)
    (hfit : FieldsFit (.symbol (closeBracket body.single)) body.fields) (hn : body.kinds.Nodup) :
    body.Accepted := by
  intro name label home st hst
  obtain ⟨single, n, fields, clauses⟩ := body
  let block : Block := ⟨{ Table.bare name label with single := single }, [], home⟩
  have hopen : Leads st [.symbol (openBracket single)] (home.depth + 1) (.inBlock block) :=
    .down fun limit => (hst limit).trans (openBlock_bracket limit _ home single)
  obtain ⟨m, inner, hfields, hend, hm⟩ :=
    fields_accepted hf hfit block (.inBlock block) (fun _ => rfl)
  have hclose : Leads inner [.symbol (closeBracket single)] 0
      (.afterBlock ⟨(BodyPhrase.mk single n fields []).table name label, home⟩) := by
    refine .step fun limit => (hend limit).trans ?_
    simp [Block.step, Block.closing, Block.owner, block, Token.isSymbol, BodyPhrase.table,
      Table.bare, conditionOf]
  have hbare : Rests (.afterBlock ⟨(BodyPhrase.mk single n fields []).table name label, home⟩) []
      ⟨(BodyPhrase.mk single n fields []).table name label, home⟩ :=
    ⟨fun _ _ _ => rfl, fun _ => rfl⟩
  obtain ⟨l, last, hlast, hrests, hl⟩ :=
    clauses_accepted hc ⟨single, n, fields, []⟩ hn name label home hbare
  have hlead := hopen.append ((commas_leads block n).flat (hfields.append (hclose.flat hlast)))
  refine ⟨last, hlead.congr (by simp [tokens]) ?_, hrests⟩
  have hnest : ((BodyPhrase.mk single n fields []).table name label).nest =
      1 + fieldsNest (fieldsOf fields) := by
    simp [BodyPhrase.table, Table.nest, conditionOf, filterNest]
  change max (home.depth + ((BodyPhrase.mk single n fields []).table name label).nest) l =
    home.depth + ((BodyPhrase.mk single n fields clauses).table name label).nest at hl
  change max (home.depth + 1) m = home.depth + 1 + fieldsNest (fieldsOf fields) at hm
  omega

theorem SelectPhrase.accepted_of {c : SelectPhrase} (h : c.body.Accepted)
    (hn : c.distinct.isSome = true → spells c.name "as" = false) : c.Accepted := by
  intro outer
  obtain ⟨keyword, distinct, name, label, body⟩ := c
  obtain ⟨st, hst, hbracket⟩ := head_leads keyword distinct name label outer hn
  obtain ⟨next, hnext, hrests⟩ := h name _ _ st fun limit => hbracket limit body.single
  have hselect := Head.select_eq keyword distinct name label body
  refine ⟨next, hst.flat hnext, fun limit => ?_, fun limit => ?_⟩
  · rw [hrests.paren, ← hselect]
    rfl
  · rw [hrests.finish, ← hselect]
    rfl

mutual

theorem SelectPhrase.accepted {once : Bool} : (c : SelectPhrase) → c.Valid once → c.Accepted
  | ⟨_, _, _, _, body⟩, h =>
    SelectPhrase.accepted_of (BodyPhrase.accepted body h.2) h.1

theorem BodyPhrase.accepted {once : Bool} : (body : BodyPhrase) → body.Valid once → body.Accepted
  | ⟨_, _, fields, clauses⟩, h =>
    BodyPhrase.accepted_of (FieldPhrase.all_accepted fields h.1)
      (ClausePhrase.all_accepted clauses h.2.2.1) h.2.1 h.2.2.2

theorem FieldPhrase.accepted {once : Bool} : (f : FieldPhrase) → f.Valid once → f.Accepted
  | .column name labels n, _ => FieldPhrase.column_accepted name labels n
  | .relation name labels gap body n, h =>
    FieldPhrase.relation_accepted name labels gap n (BodyPhrase.accepted body h.2)
  | .subQuery select labels n, h =>
    FieldPhrase.subQuery_accepted labels n (SelectPhrase.accepted select h.2)

theorem FieldPhrase.all_accepted {once : Bool} :
    (fs : List FieldPhrase) → FieldsValid once fs → ∀ f ∈ fs, f.Accepted
  | [], _ => by simp
  | f :: fs, h =>
    List.forall_mem_cons.2 ⟨FieldPhrase.accepted f h.1, FieldPhrase.all_accepted fs h.2⟩

theorem ClausePhrase.accepted {once : Bool} : (c : ClausePhrase) → c.Valid once → c.Accepted
  | .filter _ k chain, h => ClausePhrase.filter_accepted k (ChainPhrase.accepted chain h)
  | .groupBy p front last, _ => ClausePhrase.groupBy_accepted p front last
  | .orderBy p front last, _ => ClausePhrase.orderBy_accepted p front last
  | .page _ k value, _ => ClausePhrase.page_accepted k value

theorem ClausePhrase.all_accepted {once : Bool} :
    (cs : List ClausePhrase) → ClausesValid once cs → ∀ c ∈ cs, c.Accepted
  | [], _ => by simp
  | c :: cs, h =>
    List.forall_mem_cons.2 ⟨ClausePhrase.accepted c h.1, ClausePhrase.all_accepted cs h.2⟩

theorem ChainPhrase.accepted {once : Bool} :
    (chain : ChainPhrase) → chain.Valid once → chain.Accepted
  | .last _ test, h => ChainPhrase.last_accepted (TestPhrase.accepted test h.2) h.1
  | .link _ test op rest, h =>
    ChainPhrase.link_accepted op (TestPhrase.accepted test h.2.1) h.1
      (ChainPhrase.accepted rest h.2.2)

theorem TestPhrase.accepted {once : Bool} : (test : TestPhrase) → test.Valid once → test.Accepted
  | .compare left op right, _ => TestPhrase.compare_accepted left op right
  | .between subject negation keyword low andKeyword high, _ =>
    TestPhrase.between_accepted subject negation keyword low andKeyword high
  | .among subject negation keyword select, h =>
    TestPhrase.among_accepted subject negation keyword (SelectPhrase.accepted select h)
  | .paren inner, h => TestPhrase.paren_accepted (ChainPhrase.accepted inner h)

end

/-- The tokens of a phrase are read as its tree under every limit that the tree keeps to. -/
theorem SelectPhrase.ofTokens_eq {once : Bool} {c : SelectPhrase} (h : c.Valid once)
    {ts : List Token} (hts : Token.significant ts = c.tokens) (limit : Nat) :
    Select.ofTokens limit ts =
      if c.select.nest ≤ limit then .ok c.select else .error (.tooDeep limit) := by
  obtain ⟨next, hnext, -, hfinish⟩ := c.accepted h .top
  have hrun := hnext limit
  simp only [Outer.depth, Nat.zero_add] at hrun
  change State.start.run limit c.tokens = _ at hrun
  rw [Select.ofTokens, hts, hrun]
  by_cases hn : c.select.nest ≤ limit
  · rw [if_pos hn, if_pos hn]
    exact hfinish limit
  · rw [if_neg hn, if_neg hn]
    rfl

end BracketQuery
