import BracketQuery.Proofs.SqlTokens

/-! The tree of a query whose words are plain is plain, so its statement has the tokens that it
should have, whatever the layout. -/
namespace BracketQuery
open Token

namespace Token

/- A scanned test for null has its `null` right after it. -/

def Tested : List Token → Prop
  | [] => True
  | t :: ts =>
    (∀ s, t = .symbol s → IsTest s.toList →
      ∃ w, ts.head? = some (.word w) ∧ spells w "null" = true) ∧ Tested ts

theorem Tested.append {us vs : List Token} (hu : Tested us) (hv : Tested vs) :
    Tested (us ++ vs) := by
  induction us with
  | nil => exact hv
  | cons t us ih =>
    refine ⟨fun s ht hs => ?_, ih hu.2⟩
    obtain ⟨w, hw, hnull⟩ := hu.1 s ht hs
    obtain ⟨rest, rfl⟩ := List.head?_eq_some_iff.1 hw
    exact ⟨w, rfl, hnull⟩

theorem Tested.right {us vs : List Token} (h : Tested (us ++ vs)) : Tested vs := by
  induction us with
  | nil => exact h
  | cons t us ih => exact ih h.2

theorem IsTest.isSymbolChar_first {c : Char} {cs : List Char} (h : IsTest (c :: cs)) :
    isSymbolChar c = false := by
  obtain ⟨d, ds, he, hd⟩ := h.first
  obtain ⟨rfl, rfl⟩ := List.cons.inj he
  rw [← Bool.not_eq_true]
  intro hs
  rw [toLower_of_isSymbolChar hs] at hd
  exact isSymbolChar_ne hs (by decide) hd

theorem Begins.tested {cs rest : List Char} {us : List Token} (h : Begins cs us rest) :
    Tested us := by
  have sign {c : Char} {w : List Char} (hc : isSymbolChar c = true) :
      Tested [.symbol (String.ofList (c :: w))] := by
    refine ⟨fun s hs ht => ?_, trivial⟩
    cases hs
    rw [String.toList_ofList] at ht
    simp [ht.isSymbolChar_first] at hc
  cases h with
  | double hd => exact sign (isSymbolChar_of_doubleSigns hd)
  | single hc => exact sign hc
  | test ht =>
    refine ⟨fun _ _ _ => ⟨_, rfl, ?_⟩, by simp, trivial⟩
    rw [spells, String.toList_ofList, (nullTest?_test ht).2]
    rfl
  | word => exact ⟨by simp, trivial⟩

theorem lineFrom_tested {number width : Nat} {cs : List Char} {ts : List Token}
    (h : lineFrom number width cs = .ok ts) : Tested ts := by
  induction cs using lineFrom.induct generalizing ts with
  | case1 cs hskip =>
    rw [lineFrom_nil number width hskip] at h
    cases h
    trivial
  | case2 cs c r hskip fault hhead => simp [lineFrom_fault number width hskip hhead] at h
  | case3 cs c r hskip us rest hhead _ ih =>
    rw [lineFrom_cons number width hskip hhead] at h
    cases hl : lineFrom number width rest with
    | error e =>
      rw [hl] at h
      cases h
    | ok vs =>
      rw [hl] at h
      cases h
      exact (head_begins hhead).tested.append (ih hl)

theorem Tested.joinLines {first rest : List Token} (hf : Tested first) (hr : Tested rest) :
    Tested (Token.joinLines first rest) := by
  unfold Token.joinLines
  split
  · exact hr
  split
  · exact hf
  · exact hf.append ⟨by simp, hr⟩

theorem linesFrom_tested {number : Nat} {ls : List (List Char)} {ts : List Token}
    (h : linesFrom number ls = .ok ts) : Tested ts := by
  induction ls generalizing number ts with
  | nil =>
    cases h
    trivial
  | cons l ls ih =>
    unfold linesFrom at h
    cases hline : line number l with
    | error e => simp [hline, bind, Except.bind] at h
    | ok first =>
      cases hrest : linesFrom (number + 1) ls with
      | error e => simp [hline, hrest, bind, Except.bind] at h
      | ok rest =>
        rw [hline, hrest] at h
        cases h
        exact (lineFrom_tested hline).joinLines (ih hrest)

theorem Tested.significant {ts : List Token} (h : Tested ts) : Tested (significant ts) := by
  induction ts with
  | nil => trivial
  | cons t ts ih =>
    cases t with
    | newline => exact ih h.2
    | word w => exact ⟨by simp, ih h.2⟩
    | symbol s =>
      refine ⟨fun s' hs ht => ?_, ih h.2⟩
      obtain ⟨w, hw, hnull⟩ := h.1 s' hs ht
      obtain ⟨rest, rfl⟩ := List.head?_eq_some_iff.1 hw
      exact ⟨w, rfl, hnull⟩

/-- Tokens that a tree can be written back from: plain words, `null` after each test for it, and a
name of letters after each `collate`. -/
structure Tame (ts : List Token) : Prop where
  scanned : ∀ t ∈ ts, t.Scanned
  plain : ∀ w, .word w ∈ ts → isPlain w.toList = true
  tested : ∀ s t, [.symbol s, t] <:+: ts → IsTest s.toList →
    ∃ w, t = .word w ∧ spells w "null" = true
  collation : ∀ k w, [.word k, .word w] <:+: ts → spells k "collate" = true →
    w.toList.all isWordChar = true

namespace Tame

variable {us ts : List Token} {w : String}

theorem of_infix (h : Tame ts) (hi : us <:+: ts) : Tame us where
  scanned t ht := h.scanned t (hi.subset ht)
  plain w hw := h.plain w (hi.subset hw)
  tested s t ht := h.tested s t (ht.trans hi)
  collation k w hw := h.collation k w (hw.trans hi)

theorem word (h : Tame ts) (hw : .word w ∈ ts) : PlainWord w := ⟨h.scanned _ hw, h.plain w hw⟩

end Tame

theorem tame_of_scan {text : String} {ts : List Token} (h : scan text = .ok ts)
    (hplain : ∀ w, .word w ∈ ts → isPlain w.toList = true)
    (hcollate : ∀ k w, [.word k, .word w] <:+: significant ts → spells k "collate" = true →
      w.toList.all isWordChar = true) : Tame (significant ts) where
  scanned t ht := scan_scanned h t (List.mem_filter.1 ht).1
  plain w hw := hplain w (List.mem_filter.1 hw).1
  tested s t ht hs := by
    have htested : Tested (significant ts) := (linesFrom_tested h).significant
    obtain ⟨front, back, happ⟩ := ht
    rw [← happ, List.append_assoc] at htested
    obtain ⟨w, hw, hnull⟩ := htested.right.1 s rfl hs
    exact ⟨w, Option.some.inj hw, hnull⟩
  collation := hcollate

end Token

/- Phrases of tame tokens. -/

theorem Spelling.fits_ofWord {w canonical : String} (h : spells w canonical = true) :
    (Spelling.ofWord w canonical).Fits canonical := by
  unfold Spelling.ofWord
  split
  · simp [Spelling.Fits]
  · simpa [Spelling.Fits] using h

theorem Keyword.fits {canonical : String} (k : Keyword canonical) : k.spelling.Fits canonical :=
  Spelling.fits_ofWord k.spelled

theorem ByPhrase.fits {word : String} (p : ByPhrase word) :
    (Spelling.ofWord p.text (word ++ " by")).Fits (word ++ " by") := by
  refine Spelling.fits_ofWord ?_
  have hfirst := beq_iff_eq.1 p.first.spelled
  have hsecond := beq_iff_eq.1 p.second.spelled
  simp only [spells, ByPhrase.text, String.toList_append, folded_append, hfirst, hsecond]
  simp [folded]

theorem Label.plain_empty : Label.Plain {} := ⟨by simp, by simp [Spelling.Fits]⟩

theorem LabelPhrase.plain {l : LabelPhrase} {ts : List Token} (h : Tame ts)
    (hl : .word l.name ∈ ts) : l.label.Plain := by
  refine ⟨?_, l.keyword.fits⟩
  simpa [LabelPhrase.label, labelled] using h.word hl

theorem plain_label {label : Option LabelPhrase} {ts : List Token} (h : Tame ts)
    (hl : label.toList.flatMap LabelPhrase.tokens ⊆ ts) :
    ((label.map LabelPhrase.label).getD {}).Plain := by
  cases label with
  | none => exact Label.plain_empty
  | some l => exact l.plain h (hl (by simp [LabelPhrase.tokens]))

theorem plain_lastLabel {labels : List (Nat × LabelPhrase)} {ts : List Token} (h : Tame ts)
    (hl : labelsTokens labels ⊆ ts) : (lastLabel labels).Plain := by
  unfold lastLabel
  cases hlast : labels.getLast? with
  | none => exact Label.plain_empty
  | some l =>
    refine l.2.plain h (hl (List.mem_flatMap.2 ⟨l, List.mem_of_getLast? hlast, ?_⟩))
    simp [LabelPhrase.tokens]

theorem OperatorPhrase.plain {op : OperatorPhrase} {right : String}
    (h : Tame (op.tokens ++ [.word right])) : PlainOperator op.text (.value right) := by
  have likes : ∀ k ∈ ["like", "ilike", "glob", "regexp"],
      k ∈ wordOperators ∧ "not " ++ k ∈ wordOperators := by decide
  cases op with
  | symbol text free =>
    by_cases ht : IsTest text.toList
    · obtain ⟨w, hw, hnull⟩ := h.tested text (.word right) List.infix_rfl ht
      cases hw
      refine .test ?_ hnull
      generalize hs : text.toList = cs at ht
      cases ht with
      | is his =>
        left
        rw [OperatorPhrase.text, spells, hs, his]
        rfl
      | isNot his hnot =>
        right
        rw [OperatorPhrase.text, spells, hs, folded_append, his]
        show (['i', 's'] ++ ' ' :: folded _ == _) = true
        rw [hnot]
        rfl
    · have hsign : IsSign text.toList := h.scanned (.symbol text) (by simp [OperatorPhrase.tokens])
      refine .compare (.inl ?_)
      rcases hsign.text with hs | hs | ⟨a, b, rfl, ha, hb⟩
      · have hall : ∀ s ∈ plainSigns, isStructural s = false → s ∈ comparisonSigns := by decide
        exact hall text hs free
      · exact absurd (isTest_of_spells (.inl hs)) ht
      · refine absurd ?_ ht
        simpa using IsTest.isNot (beq_iff_eq.1 ha) (beq_iff_eq.1 hb)
  | word text like =>
    obtain ⟨k, hk, hs⟩ := WordOperator.ofWord?_spells like
    exact .compare (.inr ⟨k, (likes k hk).1, hs⟩)
  | negated negation text like =>
    obtain ⟨k, hk, hs⟩ := WordOperator.ofWord?_spells like
    refine .compare (.inr ⟨"not " ++ k, (likes k hk).2, ?_⟩)
    have hnot := beq_iff_eq.1 negation.spelled
    have hlike := beq_iff_eq.1 hs
    simp only [spells, OperatorPhrase.text, String.toList_append, folded_append, hnot, hlike]
    simp [folded]

theorem ConnectivePhrase.plain (op : ConnectivePhrase) (right : Operand) :
    PlainOperator op.text right := by
  have hm : op.connective.name ∈ wordOperators := by cases op.connective <;> decide
  exact .compare (.inr ⟨_, hm, Connective.ofWord?_spells op.spelled⟩)

theorem letters_of_spells {w k : String} (hk : isLettered k = true) (h : spells w k = true) :
    w.toList.all isWordChar = true := by
  simp only [isLettered, Bool.and_eq_true] at hk
  exact List.all_eq_true.2 (isWordChar_of_folded hk.2 (beq_iff_eq.1 h))

theorem DirectionPhrase.letters (p : DirectionPhrase) :
    ∀ w ∈ p.words, w.toList.all isWordChar = true := by
  obtain ⟨text, spelled, nulls⟩ := p
  have htext : text.toList.all isWordChar = true := by
    rcases Bool.or_eq_true_iff.1 spelled with hs | hs
    · exact letters_of_spells (by decide) hs
    · exact letters_of_spells (by decide) hs
  cases nulls with
  | none => simpa [DirectionPhrase.words] using htext
  | some n =>
    have hplace : n.place.toList.all isWordChar = true := by
      obtain ⟨k, hk, hs⟩ := List.any_eq_true.1 n.spelled
      have hall : ∀ k ∈ ["first", "last"], isLettered k = true := by decide
      exact letters_of_spells (hall k hk) hs
    have hnulls := letters_of_spells (by decide) n.keyword.spelled
    intro w hw
    simp only [DirectionPhrase.words, NullsPhrase.words, Option.toList_some, List.flatMap_cons,
      List.flatMap_nil, List.append_nil, List.mem_cons, List.not_mem_nil, or_false] at hw
    rcases hw with rfl | rfl | rfl
    · exact htext
    · exact hnulls
    · exact hplace

theorem EntryPhrase.plain {e : EntryPhrase} (h : Tame e.tokens) : e.entry.Plain := by
  refine ⟨h.word (by simp [EntryPhrase.tokens, EntryPhrase.entry]), fun m hm => ?_⟩
  have hm' : e.modifiers ≠ [] ∧ " ".intercalate e.modifiers = m := by
    simpa [EntryPhrase.entry] using hm
  refine ⟨e.modifiers, hm'.2.symm, e.joinable fun w hw => ?_, fun w hw => ?_⟩
  · exact h.scanned (.word w) (by simp [EntryPhrase.tokens, hw])
  · obtain ⟨column, collation, direction⟩ := e
    rcases List.mem_append.1 hw with hcollate | hdirect
    · obtain ⟨c, hc, hword⟩ := List.mem_flatMap.1 hcollate
      obtain rfl : collation = some c := by simpa using hc
      have hnext : [.word c.keyword.text, .word c.name] <:+:
          EntryPhrase.tokens ⟨column, some c, direction⟩ :=
        ⟨[.word column], (direction.toList.flatMap DirectionPhrase.words).map .word,
          by simp [EntryPhrase.tokens, EntryPhrase.modifiers, CollationPhrase.words]⟩
      have hletters := h.collation _ _ hnext c.keyword.spelled
      simp only [CollationPhrase.words, List.mem_cons, List.not_mem_nil, or_false] at hword
      rcases hword with rfl | rfl
      · exact letters_of_spells (by decide) c.keyword.spelled
      · exact hletters
    · obtain ⟨d, -, hword⟩ := List.mem_flatMap.1 hdirect
      exact d.letters w hword

theorem ClausePhrase.plain_groupBy? {c : ClausePhrase} (h : Tame c.tokens) :
    ∀ g ∈ c.groupBy?, g.Plain := by
  intro g hg
  cases c with
  | groupBy keyword front last =>
    cases hg
    refine ⟨keyword.fits, fun column hc => h.word ?_⟩
    have hc' : column ∈ front ∨ column = last := by simpa using hc
    simp only [ClausePhrase.tokens, groupTokens, List.mem_append, List.mem_flatMap]
    rcases hc' with hc' | rfl
    · exact .inr (.inl ⟨column, hc', by simp⟩)
    · exact .inr (.inr (by simp))
  | _ => simp [ClausePhrase.groupBy?] at hg

theorem ClausePhrase.plain_orderBy? {c : ClausePhrase} (h : Tame c.tokens) :
    ∀ o ∈ c.orderBy?, o.Plain := by
  intro o ho
  cases c with
  | orderBy keyword front last =>
    cases ho
    refine ⟨keyword.fits, fun entry hentry => ?_⟩
    obtain ⟨e, he, rfl⟩ := List.mem_map.1 hentry
    refine e.plain (h.of_infix ?_)
    rcases List.mem_append.1 he with hfront | hlast
    · obtain ⟨before, after, rfl⟩ := List.append_of_mem hfront
      exact ⟨keyword.tokens ++ before.flatMap (fun e => e.tokens ++ [.comma]),
        [.comma] ++ after.flatMap (fun e => e.tokens ++ [.comma]) ++ last.tokens,
        by simp [ClausePhrase.tokens, orderTokens]⟩
    · obtain rfl := List.mem_singleton.1 hlast
      exact ⟨keyword.tokens ++ front.flatMap (fun e => e.tokens ++ [.comma]), [],
        by simp [ClausePhrase.tokens, orderTokens]⟩
  | _ => simp [ClausePhrase.orderBy?] at ho

theorem ClausePhrase.plain_page? {page : Page} {c : ClausePhrase} (h : Tame c.tokens) :
    ∀ p ∈ c.page? page, p.Plain page := by
  intro p hp
  cases c with
  | page q keyword value =>
    have hp' : q = page ∧ ⟨keyword.spelling, value⟩ = p := by simpa [ClausePhrase.page?] using hp
    obtain ⟨rfl, rfl⟩ := hp'
    exact ⟨keyword.fits, h.word (by simp [ClausePhrase.tokens])⟩
  | _ => simp [ClausePhrase.page?] at hp

theorem plain_findSome? {β : Type} {g : ClausePhrase → Option β} {P : β → Prop}
    {cs : List ClausePhrase} (h : Tame (clausesTokens cs))
    (hg : ∀ c : ClausePhrase, Tame c.tokens → ∀ b ∈ g c, P b) : ∀ b ∈ cs.findSome? g, P b := by
  intro b hb
  obtain ⟨c, hc, hgc⟩ := List.exists_of_findSome?_eq_some hb
  obtain ⟨before, after, rfl⟩ := List.append_of_mem hc
  refine hg c (h.of_infix ⟨clausesTokens before, clausesTokens after, ?_⟩) b hgc
  simp [clausesTokens_eq]

theorem plain_negated (negation : Option (Keyword "not")) {e : Expr} (h : e.Plain) :
    (negated negation e).Plain := by
  cases negation with
  | none => exact h
  | some k => exact ⟨k.fits, h⟩

mutual

theorem SelectPhrase.plain : (c : SelectPhrase) → Tame c.tokens → c.select.Plain
  | ⟨keyword, distinct, name, label, body⟩, h => by
    have hbody : Tame body.tokens := h.of_infix ⟨headTokens keyword distinct name label, [],
      by simp [SelectPhrase.tokens]⟩
    refine ⟨keyword.fits, ?_, BodyPhrase.plain body hbody (h.word ?_) (plain_label h ?_)⟩
    · cases distinct with
      | none => simp [Spelling.Fits]
      | some d => exact d.fits
    · simp [SelectPhrase.tokens, headTokens]
    · intro t ht
      simp only [SelectPhrase.tokens, headTokens, List.mem_append, List.mem_cons]
      exact .inl (.inr (.inr ht))

theorem BodyPhrase.plain {name : String} {label : Label} : (body : BodyPhrase) →
    Tame body.tokens → PlainWord name → label.Plain → (body.table name label).Plain
  | ⟨single, n, fields, clauses⟩, h, hname, hlabel => by
    have hfields : Tame (fieldsTokens fields) := h.of_infix
      ⟨.symbol (openBracket single) :: commas n,
        .symbol (closeBracket single) :: clausesTokens clauses, by simp [BodyPhrase.tokens]⟩
    have hclauses : Tame (clausesTokens clauses) := h.of_infix
      ⟨.symbol (openBracket single) :: commas n ++ fieldsTokens fields ++
        [.symbol (closeBracket single)], [], by simp [BodyPhrase.tokens]⟩
    exact ⟨hname, hlabel, plain_fieldsOf fields hfields,
      plain_conditionOf .rows clauses hclauses, plain_conditionOf .groups clauses hclauses,
      plain_findSome? hclauses fun _ => ClausePhrase.plain_groupBy?,
      plain_findSome? hclauses fun _ => ClausePhrase.plain_orderBy?,
      plain_findSome? hclauses fun _ => ClausePhrase.plain_page?,
      plain_findSome? hclauses fun _ => ClausePhrase.plain_page?⟩

theorem plain_fieldsOf : (fs : List FieldPhrase) → Tame (fieldsTokens fs) →
    FieldsPlain (fieldsOf fs)
  | [], _ => trivial
  | .column name labels n :: fs, h => by
    have hrest : Tame (fieldsTokens fs) := h.of_infix
      ⟨FieldPhrase.tokens (.column name labels n), [], by simp [fieldsTokens]⟩
    refine ⟨h.word ?_, plain_lastLabel h ?_, plain_fieldsOf fs hrest⟩
    · simp [fieldsTokens, FieldPhrase.tokens]
    · intro t ht
      simp [fieldsTokens, FieldPhrase.tokens, ht]
  | .relation name labels gap body n :: fs, h => by
    have hrest : Tame (fieldsTokens fs) := h.of_infix
      ⟨FieldPhrase.tokens (.relation name labels gap body n), [], by simp [fieldsTokens]⟩
    have hbody : Tame body.tokens := h.of_infix
      ⟨.word name.text :: labelsTokens labels ++ commas gap, commas n ++ fieldsTokens fs,
        by simp [fieldsTokens, FieldPhrase.tokens]⟩
    refine ⟨BodyPhrase.plain body hbody (h.word ?_) (plain_lastLabel h ?_), plain_fieldsOf fs hrest⟩
    · simp [fieldsTokens, FieldPhrase.tokens]
    · intro t ht
      simp [fieldsTokens, FieldPhrase.tokens, ht]
  | .subQuery select labels n :: fs, h => by
    have hrest : Tame (fieldsTokens fs) := h.of_infix
      ⟨FieldPhrase.tokens (.subQuery select labels n), [], by simp [fieldsTokens]⟩
    have hselect : Tame select.tokens := h.of_infix
      ⟨[.symbol "("], .symbol ")" :: labelsTokens labels ++ commas n ++ fieldsTokens fs,
        by simp [fieldsTokens, FieldPhrase.tokens]⟩
    refine ⟨SelectPhrase.plain select hselect, plain_lastLabel h ?_, plain_fieldsOf fs hrest⟩
    intro t ht
    simp [fieldsTokens, FieldPhrase.tokens, ht]

theorem plain_conditionOf (filter : Filter) : (cs : List ClausePhrase) → Tame (clausesTokens cs) →
    ConditionPlain filter (conditionOf filter cs)
  | [], _ => trivial
  | c :: cs, h => by
    have hrest : Tame (clausesTokens cs) := h.of_infix ⟨c.tokens, [], by simp [clausesTokens]⟩
    have hfirst : Tame c.tokens := h.of_infix ⟨[], clausesTokens cs, by simp [clausesTokens]⟩
    have hcondition := ClausePhrase.plain_condition? filter c hfirst
    rw [conditionOf]
    cases hc : ClausePhrase.condition? filter c with
    | none => exact plain_conditionOf filter cs hrest
    | some condition =>
      rw [hc] at hcondition
      exact hcondition

theorem ClausePhrase.plain_condition? (filter : Filter) : (c : ClausePhrase) → Tame c.tokens →
    ConditionPlain filter (c.condition? filter)
  | .filter f keyword chain, h => by
    have hchain : Tame chain.tokens := h.of_infix
      ⟨[keyword.token], [], by simp [ClausePhrase.tokens]⟩
    rw [ClausePhrase.condition?]
    split
    · rename_i hf
      subst hf
      exact ⟨keyword.fits, ChainPhrase.plain chain hchain⟩
    · trivial
  | .groupBy .., _ => trivial
  | .orderBy .., _ => trivial
  | .page .., _ => trivial

theorem ChainPhrase.plain : (chain : ChainPhrase) → Tame chain.tokens → chain.expr.Plain
  | .last negation test, h => by
    have htest : Tame test.tokens := h.of_infix
      ⟨negationTokens negation, [], by simp [ChainPhrase.tokens]⟩
    exact plain_negated negation (TestPhrase.plain test htest)
  | .link negation test op rest, h => by
    have htest : Tame test.tokens := h.of_infix
      ⟨negationTokens negation, .word op.text :: rest.tokens, by simp [ChainPhrase.tokens]⟩
    have hrest : Tame rest.tokens := h.of_infix
      ⟨negationTokens negation ++ test.tokens ++ [.word op.text], [], by simp [ChainPhrase.tokens]⟩
    exact ⟨plain_negated negation (TestPhrase.plain test htest), op.plain _,
      ChainPhrase.plain rest hrest⟩

theorem TestPhrase.plain : (test : TestPhrase) → Tame test.tokens → test.expr.Plain
  | .compare left op right, h => by
    have hop : Tame (op.tokens ++ [.word right]) := h.of_infix
      ⟨[.word left], [], by simp [TestPhrase.tokens]⟩
    exact ⟨h.word (by simp [TestPhrase.tokens]), op.plain hop, h.word (by simp [TestPhrase.tokens])⟩
  | .between subject negation keyword low andKeyword high, h =>
    ⟨keyword.fits, andKeyword.fits, h.word (by simp [TestPhrase.tokens]),
      h.word (by simp [TestPhrase.tokens]), h.word (by simp [TestPhrase.tokens])⟩
  | .among subject negation keyword select, h => by
    have hselect : Tame select.tokens := h.of_infix
      ⟨.word subject :: negationTokens negation ++ [keyword.token, .symbol "("], [.symbol ")"],
        by simp [TestPhrase.tokens]⟩
    exact ⟨keyword.fits, h.word (by simp [TestPhrase.tokens]), SelectPhrase.plain select hselect⟩
  | .paren inner, h => by
    have hinner : Tame inner.tokens := h.of_infix
      ⟨[.symbol "("], [.symbol ")"], by simp [TestPhrase.tokens]⟩
    exact ChainPhrase.plain inner hinner

end

/-- Layout is only layout: the statement of a query with plain words scans to the tokens that it is
made of, whatever lines, alignment and indentation they are written with. -/
theorem Select.scan_render {limit : Nat} {text : String} {s : Select} {ts : List Token}
    (h : compile limit text = .ok s) (hscan : scan text = .ok ts)
    (hplain : ∀ w, .word w ∈ ts → isPlain w.toList = true)
    (hcollate : ∀ k w, [.word k, .word w] <:+: significant ts → spells k "collate" = true →
      w.toList.all isWordChar = true) :
    ∃ us, scan s.render = .ok us ∧ significant us = Sql.selectTokens s := by
  obtain ⟨ts', hscan', hread⟩ := compile_eq_ok h
  obtain rfl : ts = ts' := Except.ok.inj (hscan.symm.trans hscan')
  obtain ⟨c, -, htokens, rfl⟩ := Select.ofTokens_phrase false hread (by simp)
  have hs : c.select.Plain := c.plain (htokens ▸ tame_of_scan hscan hplain hcollate)
  have hflow := Sql.select_before c.select hs [] [] trivial .nil
  rw [List.append_nil, List.append_nil] at hflow
  exact hflow.scan

/-- A literal as a label, two conditions of which one gets parentheses, a nested select, and a
collation called `is`. -/
theorem scan_render_nested :
    let text := "SELECT a as n [x as 'it''s', b \x7b\x7d where z = 1 or z is  Null]\nwhere k in " ++
      "(select c []) order by x collate is desc"
    let ts : List Token := [.word "SELECT", .word "a", .word "as", .word "n", .symbol "[",
      .word "x", .word "as", .word "'it''s'", .symbol ",", .word "b", .symbol "\x7b",
      .symbol "\x7d", .word "where", .word "z", .symbol "=", .word "1", .word "or", .word "z",
      .symbol "is", .word "Null", .symbol "]", .newline, .word "where", .word "k", .word "in",
      .symbol "(", .word "select", .word "c", .symbol "[", .symbol "]", .symbol ")",
      .word "order", .word "by", .word "x", .word "collate", .word "is", .word "desc"]
    ∃ s us, compile 3 text = .ok s ∧ scan text = .ok ts ∧ scan s.render = .ok us ∧
      significant us = Sql.selectTokens s := by
  intro text ts
  have hscan : scan text = .ok ts := scan_of_toOption (by decide +kernel)
  obtain ⟨s, hs⟩ : ∃ s, compile 3 text = .ok s := ⟨_, by rw [compile, hscan]; rfl⟩
  have hplain : ∀ w, .word w ∈ ts → isPlain w.toList = true := by
    intro w hw
    have hall : ∀ t ∈ ts, t = .word (String.ofList t.chars) → isPlain t.chars = true := by
      decide +kernel
    exact hall _ hw (by simp [Token.chars])
  have hcollate : ∀ k w, [.word k, .word w] <:+: significant ts → spells k "collate" = true →
      w.toList.all isWordChar = true := by
    intro k w hi hk
    obtain ⟨n, hn, hget⟩ := List.infix_iff_getElem?.1 hi
    have hall : ∀ n < 36, ∀ t ∈ (significant ts)[0 + n]?, t.isKeyword "collate" = true →
        (significant ts)[1 + n]? = some (.word "is") := by decide +kernel
    have hlen : (significant ts).length = 36 := rfl
    have hnext := hall n (by simp at hn; omega) _ (hget 0 (by simp)) hk
    rw [hget 1 (by simp)] at hnext
    obtain rfl : w = "is" := by simpa using hnext
    decide
  obtain ⟨us, hus, hsame⟩ := Select.scan_render hs hscan hplain hcollate
  exact ⟨s, us, hs, hscan, hus, hsame⟩

end BracketQuery
