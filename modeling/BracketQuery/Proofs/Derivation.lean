import BracketQuery.Proofs.OpenPhrase

/-! Every query that is read has a phrase: its tokens are the tokens read and its tree is the
result. One token of the reader makes one open phrase from another. -/
namespace BracketQuery

/- What the parts of a step can do. -/

theorem deeper_ok {limit depth : Nat} {next : Reading} {st : State}
    (h : deeper limit depth next = .ok st) : next = .ok st := by
  unfold deeper at h
  split at h
  · exact h
  · simp at h

theorem expectWord_ok {expected : Expectation} {t : Token} {next : String → State} {st : State}
    (h : expectWord expected t next = .ok st) : ∃ text, t = .word text ∧ next text = st := by
  cases t with
  | word text => exact ⟨text, rfl, by simpa [expectWord] using h⟩
  | symbol text => simp [expectWord] at h
  | newline => simp [expectWord] at h

theorem expectKeyword_ok {keywords : List String} {expected : Expectation} {t : Token}
    {next : String → State} {st : State} (h : expectKeyword keywords expected t next = .ok st) :
    ∃ text, t = .word text ∧ keywords.any (spells text) = true ∧ next text = st := by
  cases t with
  | word text =>
    simp only [expectKeyword] at h
    split at h
    · exact ⟨text, rfl, ‹_›, by simpa using h⟩
    · simp at h
  | symbol text => simp [expectKeyword] at h
  | newline => simp [expectKeyword] at h

theorem expectSymbol_ok {symbol : String} {expected : Expectation} {t : Token} {next : Reading}
    {st : State} (h : expectSymbol symbol expected t next = .ok st) :
    t = .symbol symbol ∧ next = .ok st := by
  unfold expectSymbol at h
  split at h
  · exact ⟨by simpa [Token.isSymbol] using ‹t.isSymbol symbol = true›, h⟩
  · simp at h

theorem State.run_cons_ok {limit : Nat} {st last : State} {t : Token} {ts : List Token}
    (h : st.run limit (t :: ts) = .ok last) :
    ∃ next, st.step limit t = .ok next ∧ next.run limit ts = .ok last := by
  rw [State.run, List.foldlM_cons] at h
  cases hs : st.step limit t with
  | error e =>
    rw [hs] at h
    cases h
  | ok next =>
    rw [hs] at h
    exact ⟨next, rfl, h⟩

theorem ofTokens_eq_ok {limit : Nat} {ts : List Token} {s : Select}
    (h : Select.ofTokens limit ts = .ok s) :
    ∃ last, State.start.run limit (Token.significant ts) = .ok last ∧
      last.finish limit = .ok s := by
  unfold Select.ofTokens at h
  cases hr : State.start.run limit (Token.significant ts) with
  | error e =>
    rw [hr] at h
    cases h
  | ok last =>
    rw [hr] at h
    exact ⟨last, rfl, h⟩

def Clause.word : Clause → String
  | .filter f => f.name
  | .groupBy => "group"
  | .orderBy => "order"
  | .page p => p.name

theorem Clause.ofWord?_spells {text : String} {c : Clause} (h : Clause.ofWord? text = some c) :
    spells text c.word = true := by
  unfold Clause.ofWord? at h
  split at h
  · cases h; assumption
  split at h
  · cases h; assumption
  split at h
  · cases h; assumption
  split at h
  · cases h; assumption
  split at h
  · cases h; assumption
  split at h
  · cases h; assumption
  · simp at h

def Field.labelled : Field → Bool
  | .column c => c.label.name.isSome
  | .subQuery _ label => label.name.isSome
  | .relation _ => false

/-- The token asks for a label in place of one that is there. -/
def Block.relabelledBy (t : Token) (block : Block) : Bool :=
  t.isKeyword "as" && block.fields.head?.any Field.labelled

/-- The reader is in the state after the tokens, and these make up open phrases. -/
inductive Reached (once : Bool) : State → List Token → Prop
  | atSelect {o : OpenOuter} (ho : o.Valid once) : Reached once (.atSelect o.erase) o.tokens
  | atName {o : OpenOuter} (k : Keyword "select") (ho : o.Valid once) :
    Reached once (.atName k.text o.erase) (o.tokens ++ [k.token])
  | atDistinct {o : OpenOuter} (k : Keyword "select") (d : Keyword "distinct") (ho : o.Valid once) :
    Reached once (.atDistinct k.text d.text o.erase) (o.tokens ++ [k.token, d.token])
  | afterName {o : OpenOuter} (k : Keyword "select") (d : Option (Keyword "distinct"))
      (name : String) (h : (OpenHome.root k d name none o).Valid once) :
    Reached once (.afterName name (OpenHome.root k d name none o).erase)
      (OpenHome.root k d name none o).tokens
  | atTableLabel {o : OpenOuter} {k : Keyword "select"} {d : Option (Keyword "distinct")}
      {name : String} (a : Keyword "as") (h : (OpenHome.root k d name none o).Valid once) :
    Reached once (.atTableLabel a.text name (OpenHome.root k d name none o).erase)
      ((OpenHome.root k d name none o).tokens ++ [a.token])
  | atBlock (home : OpenHome) (h : home.Valid once) :
    Reached once (.atBlock (.bare home.name home.label) home.erase) home.tokens
  | inBlock {b : OpenBlock} (hb : ∀ t, b.Valid once t) : Reached once (.inBlock b.erase) b.tokens
  | atColumnLabel {b : OpenBlock} (name : FieldName) (labels : List (Nat × LabelPhrase)) (n : Nat)
      (a : Keyword "as") (hb : b.Valid once (.word name.text)) (hl : once = true → labels = []) :
    Reached once (.atColumnLabel a.text ⟨name.text, lastLabel labels⟩ b.erase)
      (b.tokens ++ (FieldPhrase.column name labels n).tokens ++ [a.token])
  | atSubQueryLabel {b : OpenBlock} {select : SelectPhrase} (labels : List (Nat × LabelPhrase))
      (n : Nat) (a : Keyword "as") (hb : b.Valid once (.symbol "(")) (hs : select.Valid once)
      (hl : once = true → labels = []) :
    Reached once (.atSubQueryLabel a.text select.select b.erase)
      (b.tokens ++ (FieldPhrase.subQuery select labels n).tokens ++ [a.token])
  | afterBlock {o : OpenOwner} (ho : o.Valid once)
      (hl : ∀ t, lastContinuedBy t o.body.clauses = false) :
    Reached once (.afterBlock o.erase) o.tokens
  | atCondition {s : OpenSlot} (hs : s.Valid once) : Reached once (.atCondition s.erase) s.tokens
  | atOperator {s : OpenSlot} {left : String} (hs : s.Valid once)
      (hl : StartsWell s.negation left) :
    Reached once (.atOperator left s.erase) (s.tokens ++ [.word left])
  | atNegated {s : OpenSlot} {left : String} (n : Keyword "not") (hs : s.Valid once)
      (hl : StartsWell s.negation left) :
    Reached once (.atNegated left n.text s.erase) (s.tokens ++ [.word left, n.token])
  | atRight {s : OpenSlot} {left : String} (op : OperatorPhrase) (hs : s.Valid once)
      (hl : StartsWell s.negation left) :
    Reached once (.atRight left op.text s.erase) (s.tokens ++ .word left :: op.tokens)
  | atLow {s : OpenSlot} {subject : String} (n : Option (Keyword "not")) (k : Keyword "between")
      (hs : s.Valid once) (hl : StartsWell s.negation subject) :
    Reached once (.atLow ⟨k.text, subject, n.isSome⟩ s.erase)
      (s.tokens ++ .word subject :: negationTokens n ++ [k.token])
  | atAnd {s : OpenSlot} {subject : String} (n : Option (Keyword "not")) (k : Keyword "between")
      (low : String) (hs : s.Valid once) (hl : StartsWell s.negation subject) :
    Reached once (.atAnd ⟨k.text, subject, n.isSome⟩ low s.erase)
      (s.tokens ++ .word subject :: negationTokens n ++ [k.token, .word low])
  | atHigh {s : OpenSlot} {subject : String} (n : Option (Keyword "not")) (k : Keyword "between")
      (low : String) (a : Keyword "and") (hs : s.Valid once) (hl : StartsWell s.negation subject) :
    Reached once (.atHigh ⟨k.text, subject, n.isSome⟩ low a.text s.erase)
      (s.tokens ++ .word subject :: negationTokens n ++ [k.token, .word low, a.token])
  | atAmong {s : OpenSlot} {subject : String} (n : Option (Keyword "not")) (k : Keyword "in")
      (hs : s.Valid once) (hl : StartsWell s.negation subject) :
    Reached once (.atAmong k.text subject n.isSome s.erase)
      (s.tokens ++ .word subject :: negationTokens n ++ [k.token])
  | afterCondition {s : OpenSlot} (test : TestPhrase) (hs : s.Valid once)
      (hl : ∀ w ∈ test.subject?, StartsWell s.negation w) (ht : test.Valid once) :
    Reached once (.afterCondition (negated s.negation test.expr) s.erase) (s.tokens ++ test.tokens)
  | atGroupBy {o : OpenOwner} (k : Keyword "group") (ho : o.Valid once) (hk : .groupBy ∉ o.kinds) :
    Reached once (.atBy .group k.text o.erase) (o.tokens ++ [k.token])
  | atOrderBy {o : OpenOwner} (k : Keyword "order") (ho : o.Valid once) (hk : .orderBy ∉ o.kinds) :
    Reached once (.atBy .order k.text o.erase) (o.tokens ++ [k.token])
  | atGroupColumn {o : OpenOwner} (p : ByPhrase "group") (front : List String) (ho : o.Valid once)
      (hk : .groupBy ∉ o.kinds) :
    Reached once (.atGroupColumn ⟨p.text, front.reverse, o.erase⟩)
      (o.tokens ++ p.tokens ++ front.flatMap fun c => [.word c, .comma])
  | afterGroupColumn {o : OpenOwner} (p : ByPhrase "group") (front : List String) (last : String)
      (ho : o.Valid once) (hk : .groupBy ∉ o.kinds) :
    Reached once (.afterGroupColumn ⟨p.text, last :: front.reverse, o.erase⟩)
      (o.tokens ++ p.tokens ++ groupTokens front last)
  | atOrderColumn {o : OpenOwner} (p : ByPhrase "order") (front : List EntryPhrase)
      (ho : o.Valid once) (hk : .orderBy ∉ o.kinds) :
    Reached once (.atOrderColumn ⟨p.text, (front.map EntryPhrase.entry).reverse, o.erase⟩)
      (o.tokens ++ p.tokens ++ front.flatMap fun e => e.tokens ++ [.comma])
  | afterOrderWord {o : OpenOwner} (p : ByPhrase "order") (front : List EntryPhrase)
      (e : EntryPhrase) (ho : o.Valid once) (hk : .orderBy ∉ o.kinds) :
    Reached once (.afterOrderWord e.stage ⟨e.column, e.modifiers.reverse,
        ⟨p.text, (front.map EntryPhrase.entry).reverse, o.erase⟩⟩)
      (o.tokens ++ p.tokens ++ orderTokens front e)
  | atCollation {o : OpenOwner} (p : ByPhrase "order") (front : List EntryPhrase) (column : String)
      (c : Keyword "collate") (ho : o.Valid once) (hk : .orderBy ∉ o.kinds) :
    Reached once (.atCollation ⟨column, [c.text],
        ⟨p.text, (front.map EntryPhrase.entry).reverse, o.erase⟩⟩)
      (o.tokens ++ p.tokens ++ orderTokens front ⟨column, none, none⟩ ++ [c.token])
  | atNullsPlace {o : OpenOwner} (p : ByPhrase "order") (front : List EntryPhrase)
      (column : String) (collation : Option CollationPhrase) (text : String)
      (spelled : (spells text "asc" || spells text "desc") = true) (k : Keyword "nulls")
      (ho : o.Valid once) (hk : .orderBy ∉ o.kinds) :
    Reached once (.atNullsPlace ⟨column,
        k.text :: (EntryPhrase.mk column collation (some ⟨text, spelled, none⟩)).modifiers.reverse,
        ⟨p.text, (front.map EntryPhrase.entry).reverse, o.erase⟩⟩)
      (o.tokens ++ p.tokens ++ orderTokens front ⟨column, collation, some ⟨text, spelled, none⟩⟩ ++
        [k.token])
  | atPage {o : OpenOwner} {page : Page} (k : Keyword page.name) (ho : o.Valid once)
      (hk : .page page ∉ o.kinds) :
    Reached once (.atPage page k.text o.erase) (o.tokens ++ [k.token])

variable {once : Bool} {limit : Nat} {t : Token} {st : State}

theorem Reached.congr {ts us : List Token} (h : Reached once st ts) (e : ts = us) :
    Reached once st us := e ▸ h

theorem Token.eq_symbol {symbol : String} (h : t.isSymbol symbol = true) : t = .symbol symbol := by
  simpa [Token.isSymbol] using h

theorem openBlock_reached (home : OpenHome) (hv : home.Valid once)
    (hs : openBlock limit (.bare home.name home.label) home.erase t = .ok st) :
    Reached once st (home.tokens ++ [t]) := by
  have opened (single : Bool) : Reached once (.inBlock (OpenBlock.mk single 0 [] home).erase)
      (home.tokens ++ [.symbol (openBracket single)]) := by
    refine (Reached.inBlock (b := ⟨single, 0, [], home⟩) fun _ => ⟨trivial, trivial, hv⟩).congr ?_
    simp [OpenBlock.tokens, fieldsTokens]
  have hs := deeper_ok hs
  split at hs
  · rename_i h
    cases hs
    exact Token.eq_symbol h ▸ opened false
  split at hs
  · rename_i h
    cases hs
    exact Token.eq_symbol h ▸ opened true
  · simp at hs

theorem lastLabel_name_isSome (labels : List (Nat × LabelPhrase)) :
    (lastLabel labels).name.isSome = false ↔ labels = [] := by
  rcases List.eq_nil_or_concat labels with rfl | ⟨front, l, rfl⟩
  · simp [lastLabel]
  · simp [lastLabel, LabelPhrase.label, labelled]

namespace OpenBlock

theorem relabel_reached {b : OpenBlock} {text : String} (hb : b.Valid once (.word text))
    (ha : spells text "as" = true)
    (hr : once = true → b.erase.relabelledBy (.word text) = false)
    (hs : b.erase.relabel text = .ok st) : Reached once st (b.tokens ++ [.word text]) := by
  rcases b.eq_push with he | ⟨front, f, rfl⟩
  · obtain ⟨single, n, fields, home⟩ := b
    subst he
    simp [erase, Block.relabel] at hs
  · obtain ⟨hf, hv, -⟩ := valid_of_push hb
    rw [push_erase] at hs hr
    rw [push_tokens]
    cases f with
    | column name labels n =>
      simp only [Block.relabel, Block.push, FieldPhrase.field, Block.eta, Except.ok.injEq] at hs
      subst hs
      refine Reached.atColumnLabel name labels n ⟨text, ha⟩ hf fun ho => ?_
      rw [← lastLabel_name_isSome]
      simpa [Block.relabelledBy, Token.isKeyword, ha, Block.push, FieldPhrase.field,
        Field.labelled] using hr ho
    | relation name labels gap body n => simp [Block.relabel, Block.push, FieldPhrase.field] at hs
    | subQuery select labels n =>
      simp only [Block.relabel, Block.push, FieldPhrase.field, Block.eta, Except.ok.injEq] at hs
      subst hs
      refine Reached.atSubQueryLabel labels n ⟨text, ha⟩ hf hv.2 fun ho => ?_
      rw [← lastLabel_name_isSome]
      simpa [Block.relabelledBy, Token.isKeyword, ha, Block.push, FieldPhrase.field,
        Field.labelled] using hr ho

theorem nest_reached {b : OpenBlock} (hb : b.Valid once t) (hs : b.erase.nest limit t = .ok st) :
    Reached once st (b.tokens ++ [t]) := by
  rcases b.eq_push with he | ⟨front, f, rfl⟩
  · obtain ⟨single, n, fields, home⟩ := b
    subst he
    simp [erase, Block.nest] at hs
  · obtain ⟨hf, hv, -⟩ := valid_of_push hb
    rw [push_erase] at hs
    cases f with
    | column name labels n =>
      simp only [Block.nest, Block.push, FieldPhrase.field, Block.eta] at hs
      refine (openBlock_reached (.relation front name labels n) ⟨hv, hf⟩ hs).congr ?_
      simp [push_tokens, OpenHome.tokens, FieldPhrase.tokens]
    | relation name labels gap body n => simp [Block.nest, Block.push, FieldPhrase.field] at hs
    | subQuery select labels n => simp [Block.nest, Block.push, FieldPhrase.field] at hs

theorem comma_reached {b : OpenBlock} (hb : b.Valid once .comma) :
    Reached once (.inBlock b.erase) (b.tokens ++ [.comma]) := by
  rcases b.eq_push with he | ⟨front, f, rfl⟩
  · obtain ⟨single, n, fields, home⟩ := b
    subst he
    refine (Reached.inBlock (b := ⟨single, n + 1, [], home⟩)
      fun _ => ⟨trivial, trivial, hb.2.2⟩).congr ?_
    simp [tokens, commas_succ, fieldsTokens]
  · obtain ⟨hf, hv, hc⟩ := valid_of_push hb
    have h := Reached.inBlock (b := front.push f.addComma) fun t =>
      push_valid (f.addComma_first ▸ hf) (FieldPhrase.addComma_valid hv)
        (FieldPhrase.addComma_fits hc t)
    rw [push_erase, FieldPhrase.addComma_field, ← push_erase] at h
    refine h.congr ?_
    simp [push_tokens, FieldPhrase.addComma_tokens]

theorem close_reached {b : OpenBlock} (hb : b.Valid once (.symbol b.erase.closing)) :
    Reached once (.afterBlock b.erase.owner) (b.tokens ++ [.symbol b.erase.closing]) := by
  obtain ⟨single, n, fields, home⟩ := b
  have h : Reached once (.afterBlock (OpenOwner.mk ⟨single, n, fields, []⟩ home).erase)
      (OpenOwner.mk ⟨single, n, fields, []⟩ home).tokens :=
    .afterBlock ⟨⟨hb.1, hb.2.1, trivial, by simp⟩, hb.2.2⟩ fun _ => rfl
  have he : (OpenOwner.mk ⟨single, n, fields, []⟩ home).erase =
      (OpenBlock.mk single n fields home).erase.owner := by
    simp [OpenOwner.erase, erase, Block.owner, BodyPhrase.table, fieldsOf_eq, conditionOf]
  rw [he] at h
  refine h.congr ?_
  simp [OpenOwner.tokens, tokens, BodyPhrase.tokens, erase, Block.closing, clausesTokens]

theorem step_reached {b : OpenBlock} (hb : b.Valid once t)
    (hr : once = true → b.erase.relabelledBy t = false) (hs : b.erase.step limit t = .ok st) :
    Reached once st (b.tokens ++ [t]) := by
  unfold Block.step at hs
  split at hs
  · split at hs
    · exact relabel_reached hb ‹_› hr hs
    · rename_i text ha
      cases hs
      have hf : spells text "as" = false := by simpa using ha
      have h := Reached.inBlock (b := b.push (.column ⟨text, hf⟩ [] 0)) fun t =>
        push_valid hb (fun _ => by simp) trivial
      rw [push_erase] at h
      refine h.congr ?_
      simp [push_tokens, FieldPhrase.tokens, labelsTokens]
  split at hs
  · rename_i h
    obtain rfl := Token.eq_symbol h
    cases hs
    exact close_reached hb
  split at hs
  · rename_i h
    obtain rfl := Token.eq_symbol h
    cases hs
    exact comma_reached hb
  split at hs
  · exact nest_reached hb hs
  split at hs
  · rename_i h
    obtain rfl := Token.eq_symbol h
    cases deeper_ok hs
    exact Reached.atSelect (o := .field b) hb
  · simp at hs

end OpenBlock

/- What ends passes its token on. -/

theorem OpenOuter.close_reached {o : OpenOuter} {c : SelectPhrase} (ho : o.Valid once)
    (hc : c.Valid once) (hs : o.erase.close c.select t = .ok st) :
    Reached once st (o.tokens ++ c.tokens ++ [t]) := by
  cases o with
  | top => simp [erase, Outer.close] at hs
  | field b =>
    obtain ⟨rfl, hs⟩ := expectSymbol_ok hs
    cases hs
    have h := Reached.inBlock (b := b.push (.subQuery c [] 0)) fun t =>
      OpenBlock.push_valid ho ⟨fun _ => by simp, hc⟩ trivial
    rw [OpenBlock.push_erase] at h
    refine h.congr ?_
    simp [OpenBlock.push_tokens, FieldPhrase.tokens, labelsTokens, tokens]
  | among s subject n k =>
    obtain ⟨rfl, hs⟩ := expectSymbol_ok hs
    cases hs
    rw [OpenSlot.fill_erase]
    have h := Reached.afterCondition (.among subject n k c) ho.1
      (by simpa [TestPhrase.subject?] using ho.2) hc
    refine h.congr ?_
    simp [TestPhrase.tokens, tokens]

theorem Head.select_eq (k : Keyword "select") (d : Option (Keyword "distinct")) (name : String)
    (label : Option LabelPhrase) (body : BodyPhrase) :
    (Head.mk k.text (d.map (·.text))).select
        (body.table name ((label.map LabelPhrase.label).getD {})) =
      (SelectPhrase.mk k d name label body).select := by
  cases d <;> simp [Head.select, SelectPhrase.select, Keyword.spelling]

namespace OpenOwner

theorem close_reached {o : OpenOwner} (ho : o.Valid once) (he : EndsBefore t o.body.clauses)
    (hs : o.erase.close limit t = .ok st) : Reached once st (o.tokens ++ [t]) := by
  obtain ⟨body, home⟩ := o
  cases home with
  | root k d name label outer =>
    simp only [erase, Owner.close, OpenHome.erase, OpenHome.name, OpenHome.label,
      Head.select_eq] at hs
    refine (outer.close_reached (c := ⟨k, d, name, label, body⟩) ho.2.2 ⟨ho.2.1, ho.1⟩ hs).congr ?_
    simp [tokens, OpenHome.tokens, SelectPhrase.tokens]
  | relation b name labels gap =>
    have hp := b.push_erase (.relation name labels gap body 0)
    simp only [FieldPhrase.field] at hp
    simp only [erase, Owner.close, OpenHome.erase, OpenHome.name, OpenHome.label, ← hp] at hs
    have hv : (b.push (.relation name labels gap body 0)).Valid once t :=
      OpenBlock.push_valid ho.2.2 ⟨ho.2.1, ho.1⟩ he
    have hr : (b.push (.relation name labels gap body 0)).erase.relabelledBy t = false := by
      simp [OpenBlock.push_erase, Block.relabelledBy, Block.push, FieldPhrase.field, Field.labelled]
    refine (OpenBlock.step_reached hv (fun _ => hr) hs).congr ?_
    simp [OpenBlock.push_tokens, FieldPhrase.tokens, tokens, OpenHome.tokens]

theorem begin_reached {o : OpenOwner} {text : String} {c : Clause} (ho : o.Valid once)
    (hc : Clause.ofWord? text = some c) (hk : c ∉ o.kinds) :
    Reached once (o.erase.begin text c) (o.tokens ++ [.word text]) := by
  have hw := Clause.ofWord?_spells hc
  cases c with
  | filter f =>
    refine (Reached.atCondition (s := ⟨none, [], .clause f ⟨text, hw⟩ o⟩)
      ⟨by simp, ho, hk⟩).congr ?_
    simp [OpenSlot.tokens, OpenFrame.tokens, negationTokens, Keyword.token]
  | groupBy => exact .atGroupBy ⟨text, hw⟩ ho hk
  | orderBy => exact .atOrderBy ⟨text, hw⟩ ho hk
  | page p => exact .atPage ⟨text, hw⟩ ho hk

theorem step_reached {o : OpenOwner} (ho : o.Valid once)
    (hl : lastContinuedBy t o.body.clauses = false) (hs : o.erase.step limit t = .ok st) :
    Reached once st (o.tokens ++ [t]) := by
  cases t with
  | word text =>
    simp only [Owner.step] at hs
    split at hs
    · rename_i c hc
      split at hs
      · simp at hs
      · rename_i hh
        cases hs
        exact begin_reached ho hc fun hk => hh ((o.has_iff c).2 hk)
    · exact close_reached ho ⟨‹_›, hl⟩ hs
  | symbol text => exact close_reached ho ⟨rfl, hl⟩ hs
  | newline => exact close_reached ho ⟨rfl, hl⟩ hs

theorem lastContinuedBy_add (o : OpenOwner) (c : ClausePhrase) (t : Token) :
    lastContinuedBy t (o.add c).body.clauses = c.continuedBy t := by
  simp [lastContinuedBy, add, BodyPhrase.add]

theorem add_reached {o : OpenOwner} {c : ClausePhrase} (ho : o.Valid once) (hc : c.Valid once)
    (hk : c.kind ∉ o.kinds) (hl : c.continuedBy t = false)
    (hs : (c.addTo o.erase).step limit t = .ok st) :
    Reached once st (o.tokens ++ c.tokens ++ [t]) := by
  rw [← erase_add c hk] at hs
  rw [← lastContinuedBy_add o c t] at hl
  rw [← add_tokens]
  exact step_reached (add_valid ho hc hk) hl hs

end OpenOwner

theorem OpenSlot.close_reached {s : OpenSlot} {test : TestPhrase} (hv : s.Valid once)
    (hl : ∀ w ∈ test.subject?, StartsWell s.negation w) (ht : test.Valid once)
    (hc : t.connective? = none)
    (hs : s.erase.close limit (negated s.negation test.expr) t = .ok st) :
    Reached once st (s.tokens ++ test.tokens ++ [t]) := by
  have hch := s.chain_erase test
  have hcv : (chainOf s.links s.negation test).Valid once := by
    obtain ⟨negation, links, frame⟩ := s
    exact chainOf_valid hv.1 hl ht
  simp only [Slot.close, hch] at hs
  obtain ⟨negation, links, frame⟩ := s
  cases frame with
  | clause f k o =>
    simp only [erase, OpenFrame.erase] at hs
    refine (OpenOwner.add_reached (c := .filter f k (chainOf links negation test)) hv.2.1 hcv
      hv.2.2 ?_ hs).congr ?_
    · simp [ClausePhrase.continuedBy, hc]
    · simp [ClausePhrase.tokens, chainOf_tokens, tokens, OpenFrame.tokens]
  | paren outer =>
    simp only [erase, OpenFrame.erase] at hs
    obtain ⟨rfl, hs⟩ := expectSymbol_ok hs
    cases hs
    rw [fill_erase]
    have h := Reached.afterCondition (.paren (chainOf links negation test)) hv.2
      (by simp [TestPhrase.subject?]) hcv
    refine h.congr ?_
    simp [TestPhrase.tokens, chainOf_tokens, tokens, OpenFrame.tokens]

/- One lemma for each state that decides something itself. -/

theorem afterName_reached {o : OpenOuter} (k : Keyword "select") (d : Option (Keyword "distinct"))
    (name : String) (h : (OpenHome.root k d name none o).Valid once)
    (hs : stepAfterName limit name (OpenHome.root k d name none o).erase t = .ok st) :
    Reached once st ((OpenHome.root k d name none o).tokens ++ [t]) := by
  cases t with
  | word text =>
    simp only [stepAfterName] at hs
    split at hs
    · rename_i ha
      cases hs
      exact .atTableLabel ⟨text, ha⟩ h
    · exact openBlock_reached _ h hs
  | symbol text => exact openBlock_reached _ h hs
  | newline => exact openBlock_reached _ h hs

theorem distinct_reached {o : OpenOuter} (k : Keyword "select") (d : Keyword "distinct")
    (ho : o.Valid once) (hs : stepDistinct limit k.text d.text o.erase t = .ok st) :
    Reached once st (o.tokens ++ [k.token, d.token] ++ [t]) := by
  unfold stepDistinct at hs
  split at hs
  · refine (afterName_reached k none d.text ⟨by simp, ho⟩ hs).congr ?_
    simp [OpenHome.tokens, headTokens, Keyword.token]
  · rename_i ha
    obtain ⟨name, rfl, rfl⟩ := expectWord_ok hs
    have hn : spells name "as" = false := by
      simpa [Token.opensBlock, Token.isSymbol, Token.isKeyword] using ha
    refine (Reached.afterName k (some d) name ⟨fun _ => hn, ho⟩).congr ?_
    simp [OpenHome.tokens, headTokens]

theorem condition_reached {s : OpenSlot} (hv : s.Valid once)
    (hs : stepCondition limit s.erase t = .ok st) : Reached once st (s.tokens ++ [t]) := by
  unfold stepCondition at hs
  split at hs
  · rename_i text
    split at hs
    · rename_i hn
      cases hs
      obtain ⟨negation, links, frame⟩ := s
      simp only [OpenSlot.erase, Option.isNone_map, Bool.and_eq_true,
        Option.isNone_iff_eq_none] at hn
      obtain ⟨rfl, hn⟩ := hn
      refine (Reached.atCondition (s := ⟨some ⟨text, hn⟩, links, frame⟩) hv).congr ?_
      simp [OpenSlot.tokens, negationTokens, Keyword.token]
    · rename_i hn
      cases hs
      refine .atOperator hv ?_
      intro he
      obtain ⟨negation, links, frame⟩ := s
      simp only at he
      subst he
      simpa [OpenSlot.erase] using hn
  split at hs
  · rename_i h
    obtain rfl := Token.eq_symbol h
    cases deeper_ok hs
    refine (Reached.atCondition (s := ⟨none, [], .paren s⟩) ⟨by simp, hv⟩).congr ?_
    simp [OpenSlot.tokens, OpenFrame.tokens, negationTokens]
  · simp at hs

theorem WordOperator.ofWord?_spells {text : String} {op : WordOperator}
    (h : WordOperator.ofWord? text = some op) :
    match op with
    | .between => spells text "between" = true
    | .among => spells text "in" = true
    | .like => ∃ k ∈ ["like", "ilike", "glob", "regexp"], spells text k = true := by
  unfold WordOperator.ofWord? at h
  split at h
  · cases h; assumption
  split at h
  · cases h; assumption
  split at h
  · cases h; exact List.any_eq_true.1 ‹_›
  · simp at h

theorem operator_reached {s : OpenSlot} {left : String} (hv : s.Valid once)
    (hl : StartsWell s.negation left) (hs : stepOperator left s.erase t = .ok st) :
    Reached once st (s.tokens ++ [.word left] ++ [t]) := by
  unfold stepOperator at hs
  split at hs
  · rename_i text
    split at hs
    · rename_i hn
      cases hs
      exact (Reached.atNegated ⟨text, hn⟩ hv hl).congr (by simp [Keyword.token])
    split at hs
    · rename_i hb
      cases hs
      exact (Reached.atLow none ⟨text, WordOperator.ofWord?_spells hb⟩ hv hl).congr
        (by simp [negationTokens, Keyword.token])
    · rename_i hi
      cases hs
      exact (Reached.atAmong none ⟨text, WordOperator.ofWord?_spells hi⟩ hv hl).congr
        (by simp [negationTokens, Keyword.token])
    · rename_i hk
      cases hs
      exact (Reached.atRight (.word text hk) hv hl).congr (by simp [OperatorPhrase.tokens])
    · simp at hs
  · rename_i text
    split at hs
    · simp at hs
    · rename_i hn
      cases hs
      exact (Reached.atRight (.symbol text (by simpa using hn)) hv hl).congr
        (by simp [OperatorPhrase.tokens])
  · simp at hs

theorem negated_reached {s : OpenSlot} {left : String} (n : Keyword "not") (hv : s.Valid once)
    (hl : StartsWell s.negation left) (hs : stepNegated left n.text s.erase t = .ok st) :
    Reached once st (s.tokens ++ [.word left, n.token] ++ [t]) := by
  unfold stepNegated at hs
  split at hs
  · rename_i text
    split at hs
    · rename_i hb
      cases hs
      exact (Reached.atLow (some n) ⟨text, WordOperator.ofWord?_spells hb⟩ hv hl).congr
        (by simp [negationTokens, Keyword.token])
    · rename_i hi
      cases hs
      exact (Reached.atAmong (some n) ⟨text, WordOperator.ofWord?_spells hi⟩ hv hl).congr
        (by simp [negationTokens, Keyword.token])
    · rename_i hk
      cases hs
      exact (Reached.atRight (.negated n text hk) hv hl).congr (by simp [OperatorPhrase.tokens])
    · simp at hs
  · simp at hs

theorem afterCondition_reached {s : OpenSlot} {test : TestPhrase} (hv : s.Valid once)
    (hl : ∀ w ∈ test.subject?, StartsWell s.negation w) (ht : test.Valid once)
    (hs : stepAfterCondition limit (negated s.negation test.expr) s.erase t = .ok st) :
    Reached once st (s.tokens ++ test.tokens ++ [t]) := by
  cases t with
  | word text =>
    simp only [stepAfterCondition] at hs
    split at hs
    · rename_i op hop
      cases deeper_ok hs
      have h := Reached.atCondition (OpenSlot.link_valid ⟨text, op, hop⟩ hv hl ht)
      rw [OpenSlot.link_erase] at h
      exact h.congr (by simp [OpenSlot.link_tokens])
    · exact OpenSlot.close_reached hv hl ht ‹_› hs
  | symbol text => exact OpenSlot.close_reached hv hl ht rfl hs
  | newline => exact OpenSlot.close_reached hv hl ht rfl hs

theorem afterGroupColumn_reached {o : OpenOwner} (p : ByPhrase "group") (front : List String)
    (last : String) (ho : o.Valid once) (hk : .groupBy ∉ o.kinds)
    (hs : stepAfterGroupColumn limit ⟨p.text, last :: front.reverse, o.erase⟩ t = .ok st) :
    Reached once st (o.tokens ++ p.tokens ++ groupTokens front last ++ [t]) := by
  unfold stepAfterGroupColumn at hs
  split at hs
  · rename_i h
    obtain rfl := Token.eq_symbol h
    cases hs
    have h := Reached.atGroupColumn p (front ++ [last]) ho hk
    rw [List.reverse_append] at h
    exact h.congr (by simp [groupTokens, Token.comma])
  · rename_i h
    rw [GroupDraft.close_eq] at hs
    refine (OpenOwner.add_reached (c := .groupBy p front last) ho trivial hk ?_ hs).congr ?_
    · simpa [ClausePhrase.continuedBy] using h
    · simp [ClausePhrase.tokens]

theorem modifier?_eq_none (stage : Stage) (draft : EntryDraft) (text : String) :
    modifier? stage draft text = none ↔ stage.takes (.word text) = false := by
  cases stage <;> grind [modifier?, Stage.takes, Token.isKeyword]

theorem modifier_reached {o : OpenOwner} {next : State} (p : ByPhrase "order")
    (front : List EntryPhrase) (e : EntryPhrase) (text : String) (ho : o.Valid once)
    (hk : .orderBy ∉ o.kinds)
    (hm : modifier? e.stage ⟨e.column, e.modifiers.reverse,
      ⟨p.text, (front.map EntryPhrase.entry).reverse, o.erase⟩⟩ text = some next) :
    Reached once next (o.tokens ++ p.tokens ++ orderTokens front e ++ [.word text]) := by
  have directed (column : String) (collation : Option CollationPhrase)
      (hd : (spells text "asc" || spells text "desc") = true) :
      Reached once (.afterOrderWord .directed ⟨column,
          text :: (EntryPhrase.mk column collation none).modifiers.reverse,
          ⟨p.text, (front.map EntryPhrase.entry).reverse, o.erase⟩⟩)
        (o.tokens ++ p.tokens ++ orderTokens front ⟨column, collation, none⟩ ++ [.word text]) := by
    have h := Reached.afterOrderWord p front ⟨column, collation, some ⟨text, hd, none⟩⟩ ho hk
    change Reached once (.afterOrderWord .directed _) _ at h
    simpa [EntryPhrase.modifiers, orderTokens, EntryPhrase.tokens, DirectionPhrase.words] using h
  obtain ⟨column, collation, direction⟩ := e
  cases direction with
  | none =>
    cases collation with
    | none =>
      change modifier? .named _ text = _ at hm
      simp only [modifier?] at hm
      split at hm
      · rename_i hc
        cases hm
        exact .atCollation p front column ⟨text, hc⟩ ho hk
      split at hm
      · cases hm
        exact directed column none ‹_›
      · simp at hm
    | some collation =>
      change modifier? .collated _ text = _ at hm
      simp only [modifier?] at hm
      split at hm
      · cases hm
        exact directed column (some collation) ‹_›
      · simp at hm
  | some direction =>
    obtain ⟨word, hd, nulls⟩ := direction
    cases nulls with
    | none =>
      change modifier? .directed _ text = _ at hm
      simp only [modifier?] at hm
      split at hm
      · rename_i hn
        cases hm
        exact .atNullsPlace p front column collation word hd ⟨text, hn⟩ ho hk
      · simp at hm
    | some nulls => simp [EntryPhrase.stage, modifier?] at hm

theorem afterOrderWord_reached {o : OpenOwner} (p : ByPhrase "order") (front : List EntryPhrase)
    (e : EntryPhrase) (ho : o.Valid once) (hk : .orderBy ∉ o.kinds)
    (hs : stepAfterOrderWord limit e.stage ⟨e.column, e.modifiers.reverse,
      ⟨p.text, (front.map EntryPhrase.entry).reverse, o.erase⟩⟩ t = .ok st) :
    Reached once st (o.tokens ++ p.tokens ++ orderTokens front e ++ [t]) := by
  have closed (hl : (t.isSymbol "," || e.stage.takes t) = false)
      (hs : (ClausePhrase.addTo o.erase (.orderBy p front e)).step limit t = .ok st) :
      Reached once st (o.tokens ++ p.tokens ++ orderTokens front e ++ [t]) := by
    refine (OpenOwner.add_reached (c := .orderBy p front e) ho trivial hk hl hs).congr ?_
    simp [ClausePhrase.tokens]
  unfold stepAfterOrderWord at hs
  rw [OrderDraft.close_eq] at hs
  split at hs
  · split at hs
    · cases hs
      exact modifier_reached p front e _ ho hk ‹_›
    · rename_i hm
      exact closed (by simpa [Token.isSymbol] using (modifier?_eq_none _ _ _).1 hm) hs
  · rename_i hw
    split at hs
    · rename_i h
      obtain rfl := Token.eq_symbol h
      cases hs
      rw [e.close_draft]
      have h := Reached.atOrderColumn p (front ++ [e]) ho hk
      rw [List.map_append, List.reverse_append] at h
      exact h.congr (by simp [orderTokens, Token.comma])
    · rename_i h
      refine closed ?_ hs
      have hk : ∀ k, t.isKeyword k = false := by
        intro k
        cases t with
        | word text => exact absurd rfl (hw text)
        | _ => rfl
      cases e.stage <;> simpa [Stage.takes, hk] using h

def State.relabelledBy (t : Token) : State → Bool
  | .inBlock block => block.relabelledBy t
  | _ => false

theorem Reached.step {ts : List Token} {next : State} (h : Reached once st ts)
    (hr : once = true → st.relabelledBy t = false) (hs : st.step limit t = .ok next) :
    Reached once next (ts ++ [t]) := by
  cases h with
  | atSelect ho =>
    obtain ⟨text, rfl, hk, rfl⟩ := expectKeyword_ok hs
    exact .atName ⟨text, by simpa using hk⟩ ho
  | atName k ho =>
    obtain ⟨text, rfl, rfl⟩ := expectWord_ok hs
    split
    · exact (Reached.atDistinct k ⟨text, ‹_›⟩ ho).congr (by simp [Keyword.token])
    · refine (Reached.afterName k none text ⟨by simp, ho⟩).congr ?_
      simp [OpenHome.tokens, headTokens]
  | atDistinct k d ho => exact distinct_reached k d ho hs
  | afterName k d name h => exact afterName_reached k d name h hs
  | @atTableLabel o k d name a h =>
    obtain ⟨text, rfl, rfl⟩ := expectWord_ok hs
    refine (Reached.atBlock (.root k d name (some ⟨a, text⟩) o) h).congr ?_
    simp [OpenHome.tokens, headTokens, LabelPhrase.tokens]
  | atBlock home h => exact openBlock_reached home h hs
  | inBlock hb => exact OpenBlock.step_reached (hb t) hr hs
  | @atColumnLabel b name labels n a hb hl =>
    obtain ⟨text, rfl, rfl⟩ := expectWord_ok hs
    have h := Reached.inBlock (b := b.push (.column name (labels ++ [(n, ⟨a, text⟩)]) 0)) fun t =>
      OpenBlock.push_valid hb (fun ho => by simp [hl ho]) trivial
    rw [OpenBlock.push_erase, FieldPhrase.field, lastLabel_append] at h
    refine h.congr ?_
    simp [OpenBlock.push_tokens, FieldPhrase.tokens, labelsTokens_append, LabelPhrase.tokens]
  | @atSubQueryLabel b select labels n a hb hv hl =>
    obtain ⟨text, rfl, rfl⟩ := expectWord_ok hs
    have h := Reached.inBlock (b := b.push (.subQuery select (labels ++ [(n, ⟨a, text⟩)]) 0))
      fun t => OpenBlock.push_valid hb ⟨fun ho => by simp [hl ho], hv⟩ trivial
    rw [OpenBlock.push_erase, FieldPhrase.field, lastLabel_append] at h
    refine h.congr ?_
    simp [OpenBlock.push_tokens, FieldPhrase.tokens, labelsTokens_append, LabelPhrase.tokens]
  | afterBlock ho hl => exact OpenOwner.step_reached ho (hl t) hs
  | atCondition hv => exact condition_reached hv hs
  | atOperator hv hl => exact operator_reached hv hl hs
  | atNegated n hv hl => exact negated_reached n hv hl hs
  | @atRight s left op hv hl =>
    obtain ⟨text, rfl, rfl⟩ := expectWord_ok hs
    rw [OpenSlot.fill_erase]
    refine (Reached.afterCondition (.compare left op text) hv ?_ trivial).congr ?_
    · simpa [TestPhrase.subject?] using hl
    · simp [TestPhrase.tokens]
  | atLow n k hv hl =>
    obtain ⟨text, rfl, rfl⟩ := expectWord_ok hs
    exact (Reached.atAnd n k text hv hl).congr (by simp)
  | atAnd n k low hv hl =>
    obtain ⟨text, rfl, ha, rfl⟩ := expectKeyword_ok hs
    exact (Reached.atHigh n k low ⟨text, by simpa using ha⟩ hv hl).congr (by simp [Keyword.token])
  | @atHigh s subject n k low a hv hl =>
    obtain ⟨text, rfl, rfl⟩ := expectWord_ok hs
    rw [OpenSlot.fill_erase]
    refine (Reached.afterCondition (.between subject n k low a text) hv ?_ trivial).congr ?_
    · simpa [TestPhrase.subject?] using hl
    · simp [TestPhrase.tokens]
  | @atAmong s subject n k hv hl =>
    obtain ⟨rfl, hs⟩ := expectSymbol_ok hs
    cases deeper_ok hs
    exact (Reached.atSelect (o := .among s subject n k) ⟨hv, hl⟩).congr (by simp [OpenOuter.tokens])
  | afterCondition test hv hl ht => exact afterCondition_reached hv hl ht hs
  | atGroupBy k ho hk =>
    obtain ⟨text, rfl, hb, rfl⟩ := expectKeyword_ok hs
    exact (Reached.atGroupColumn ⟨k, ⟨text, by simpa using hb⟩⟩ [] ho hk).congr
      (by simp [ByPhrase.tokens, Keyword.token])
  | atOrderBy k ho hk =>
    obtain ⟨text, rfl, hb, rfl⟩ := expectKeyword_ok hs
    exact (Reached.atOrderColumn ⟨k, ⟨text, by simpa using hb⟩⟩ [] ho hk).congr
      (by simp [ByPhrase.tokens, Keyword.token])
  | atGroupColumn p front ho hk =>
    simp only [State.step, stepGroupColumn] at hs
    split at hs
    · cases hs
      exact (Reached.afterGroupColumn p front _ ho hk).congr (by simp [groupTokens])
    · split at hs <;> simp at hs
  | afterGroupColumn p front last ho hk => exact afterGroupColumn_reached p front last ho hk hs
  | atOrderColumn p front ho hk =>
    simp only [State.step, stepOrderColumn] at hs
    split at hs
    · rename_i text
      cases hs
      exact (Reached.afterOrderWord p front ⟨text, none, none⟩ ho hk).congr
        (by simp [orderTokens, EntryPhrase.tokens, EntryPhrase.modifiers])
    · split at hs <;> simp at hs
  | afterOrderWord p front e ho hk => exact afterOrderWord_reached p front e ho hk hs
  | atCollation p front column c ho hk =>
    obtain ⟨text, rfl, rfl⟩ := expectWord_ok hs
    exact (Reached.afterOrderWord p front ⟨column, some ⟨c, text⟩, none⟩ ho hk).congr
      (by simp [orderTokens, EntryPhrase.tokens, EntryPhrase.modifiers, CollationPhrase.words,
        Keyword.token])
  | atNullsPlace p front column collation word hd k ho hk =>
    obtain ⟨text, rfl, hp, rfl⟩ := expectKeyword_ok hs
    have h := Reached.afterOrderWord p front
      ⟨column, collation, some ⟨word, hd, some ⟨k, text, hp⟩⟩⟩ ho hk
    change Reached once (.afterOrderWord .placed _) _ at h
    simpa [EntryPhrase.modifiers, orderTokens, EntryPhrase.tokens, DirectionPhrase.words,
      NullsPhrase.words, EntryDraft.push, Keyword.token] using h
  | @atPage o page k ho hk =>
    obtain ⟨text, rfl, rfl⟩ := expectWord_ok hs
    change Reached once (.afterBlock ((ClausePhrase.page page k text).addTo o.erase)) _
    rw [← OpenOwner.erase_add _ hk]
    refine (Reached.afterBlock (OpenOwner.add_valid (c := .page page k text) ho trivial hk)
      ?_).congr ?_
    · intro t
      rw [OpenOwner.lastContinuedBy_add]
      rfl
    · simp [OpenOwner.add_tokens, ClausePhrase.tokens]

/-- In a run from the state, no token asks for a label in place of another. -/
def LabelsOnce (limit : Nat) (st : State) (ts : List Token) : Prop :=
  ∀ us t vs, ts = us ++ t :: vs → ∀ st', st.run limit us = .ok st' → st'.relabelledBy t = false

theorem labelsOnce_cons {ts : List Token} {next : State} (hs : st.step limit t = .ok next) :
    LabelsOnce limit st (t :: ts) ↔ st.relabelledBy t = false ∧ LabelsOnce limit next ts := by
  have hrun (us : List Token) : st.run limit (t :: us) = next.run limit us := by
    rw [State.run, List.foldlM_cons, hs]
    rfl
  constructor
  · intro h
    refine ⟨h [] t ts rfl st rfl, fun us u vs he st' hst => ?_⟩
    exact h (t :: us) u vs (by rw [he, List.cons_append]) st' ((hrun us).trans hst)
  · rintro ⟨hfirst, hrest⟩ us u vs he st' hst
    cases us with
    | nil =>
      cases he
      cases hst
      exact hfirst
    | cons t' us =>
      obtain ⟨rfl, rfl⟩ := List.cons.inj he
      exact hrest us u vs rfl st' ((hrun us).symm.trans hst)

theorem Reached.run {ts us : List Token} {last : State} (h : Reached once st us)
    (hr : once = true → LabelsOnce limit st ts) (hs : st.run limit ts = .ok last) :
    Reached once last (us ++ ts) := by
  induction ts generalizing st us with
  | nil =>
    cases hs
    simpa using h
  | cons t ts ih =>
    obtain ⟨next, hstep, hs⟩ := State.run_cons_ok hs
    have hr' (ho : once = true) := (labelsOnce_cons hstep).1 (hr ho)
    have hn := h.step (fun ho => (hr' ho).1) hstep
    exact (ih hn (fun ho => (hr' ho).2) hs).congr (by simp)

theorem OpenOwner.finish_phrase {o : OpenOwner} {s : Select} (ho : o.Valid once)
    (hs : o.erase.finish = .ok s) :
    ∃ c : SelectPhrase, c.Valid once ∧ c.tokens = o.tokens ∧ c.select = s := by
  obtain ⟨body, home⟩ := o
  cases home with
  | relation b name labels gap => simp [erase, OpenHome.erase, Owner.finish] at hs
  | root k d name label outer =>
    cases outer with
    | field b => simp [erase, OpenHome.erase, OpenOuter.erase, Owner.finish, Outer.finish] at hs
    | among slot subject n i =>
      simp [erase, OpenHome.erase, OpenOuter.erase, Owner.finish, Outer.finish] at hs
    | top =>
      simp only [erase, OpenHome.erase, OpenOuter.erase, Owner.finish, Outer.finish, OpenHome.name,
        OpenHome.label, Head.select_eq, Except.ok.injEq] at hs
      refine ⟨⟨k, d, name, label, body⟩, ⟨ho.2.1, ho.1⟩, ?_, hs⟩
      simp [SelectPhrase.tokens, tokens, OpenHome.tokens, OpenOuter.tokens]

theorem OpenOwner.finish_add {o : OpenOwner} {c : ClausePhrase} {s : Select} (ho : o.Valid once)
    (hc : c.Valid once) (hk : c.kind ∉ o.kinds) (hs : (c.addTo o.erase).finish = .ok s) :
    ∃ q : SelectPhrase, q.Valid once ∧ q.tokens = o.tokens ++ c.tokens ∧ q.select = s := by
  rw [← erase_add c hk] at hs
  rw [← add_tokens]
  exact finish_phrase (add_valid ho hc hk) hs

theorem Reached.finish {ts : List Token} {s : Select} (h : Reached once st ts)
    (hs : st.finish limit = .ok s) :
    ∃ c : SelectPhrase, c.Valid once ∧ c.tokens = ts ∧ c.select = s := by
  cases h with
  | afterBlock ho hl => exact OpenOwner.finish_phrase ho hs
  | @afterCondition slot test hv hl ht =>
    have hch := slot.chain_erase test
    obtain ⟨negation, links, frame⟩ := slot
    cases frame with
    | clause f k o =>
      simp only [State.finish, Slot.finish, hch] at hs
      obtain ⟨q, hq, hts, hsel⟩ := OpenOwner.finish_add
        (c := .filter f k (chainOf links negation test)) hv.2.1 (chainOf_valid hv.1 hl ht) hv.2.2 hs
      refine ⟨q, hq, hts.trans ?_, hsel⟩
      simp [ClausePhrase.tokens, chainOf_tokens, OpenSlot.tokens, OpenFrame.tokens]
    | paren outer => simp [State.finish, Slot.finish, OpenSlot.erase, OpenFrame.erase] at hs
  | @afterGroupColumn o p front last ho hk =>
    rw [State.finish, GroupDraft.close_eq] at hs
    obtain ⟨q, hq, hts, hsel⟩ :=
      OpenOwner.finish_add (c := .groupBy p front last) ho trivial hk hs
    exact ⟨q, hq, hts.trans (by simp [ClausePhrase.tokens]), hsel⟩
  | @afterOrderWord o p front e ho hk =>
    rw [State.finish, OrderDraft.close_eq] at hs
    obtain ⟨q, hq, hts, hsel⟩ :=
      OpenOwner.finish_add (c := .orderBy p front e) ho trivial hk hs
    exact ⟨q, hq, hts.trans (by simp [ClausePhrase.tokens]), hsel⟩
  | atGroupColumn p front ho hk =>
    simp only [State.finish] at hs
    split at hs <;> simp at hs
  | atOrderColumn p front ho hk =>
    simp only [State.finish] at hs
    split at hs <;> simp at hs
  | _ => simp [State.finish] at hs

/-- The tokens of every query that is read are those of a phrase, and its tree is the result. -/
theorem Select.ofTokens_phrase (once : Bool) {ts : List Token} {s : Select}
    (h : Select.ofTokens limit ts = .ok s)
    (hr : once = true → LabelsOnce limit .start (Token.significant ts)) :
    ∃ c : SelectPhrase, c.Valid once ∧ c.tokens = Token.significant ts ∧ c.select = s := by
  obtain ⟨last, hrun, hfinish⟩ := ofTokens_eq_ok h
  have hst : Reached once State.start [] := Reached.atSelect (o := .top) trivial
  have hlast : Reached once last (Token.significant ts) := by simpa using hst.run hr hrun
  exact hlast.finish hfinish

end BracketQuery
