import BracketQuery.Proofs.Unparse

/-! Reading drops no word. The tokens of a query come back when its tree is printed, in another
order perhaps and with other commas. -/
namespace BracketQuery

variable {limit : Nat} {t : Token} {st next : State}

/- A second label takes the place of the first, so the first is lost. -/

def State.awaitsLabel : State → Bool
  | .atTableLabel .. => true
  | .atColumnLabel .. => true
  | .atSubQueryLabel .. => true
  | _ => false

/-- No label has one more `as` after it, commas aside. The tokens are those from the state on, and
`after` says that a label and perhaps commas have just been read. -/
def labelledOnce (limit : Nat) (st : State) (after : Bool) : List Token → Bool
  | [] => true
  | t :: ts =>
    !(after && t.isKeyword "as") &&
      match st.step limit t with
      | .ok next => labelledOnce limit next (st.awaitsLabel || after && t.isSymbol ",") ts
      | .error _ => true

def State.labelled : State → Bool
  | .inBlock block => block.fields.head?.any Field.labelled
  | _ => false

theorem State.relabelledBy_eq (t : Token) (st : State) :
    st.relabelledBy t = (t.isKeyword "as" && st.labelled) := by
  cases st <;> simp [relabelledBy, Block.relabelledBy, labelled]

theorem openBlock_labelled {table : Table} {home : Home}
    (h : openBlock limit table home t = .ok next) : next.labelled = false := by
  have hopen := deeper_ok h
  split at hopen
  · cases hopen; rfl
  split at hopen
  · cases hopen; rfl
  · simp at hopen

theorem stepAfterName_labelled {name : String} {home : Home}
    (h : stepAfterName limit name home t = .ok next) : next.labelled = false := by
  cases t with
  | word text =>
    simp only [stepAfterName] at h
    split at h
    · cases h; rfl
    · exact openBlock_labelled h
  | symbol text => exact openBlock_labelled h
  | newline => exact openBlock_labelled h

theorem Block.step_labelled {block : Block} (h : block.step limit t = .ok next)
    (hl : next.labelled = true) : t.isSymbol "," = true ∧ next = .inBlock block := by
  unfold Block.step at h
  split at h
  · split at h
    · unfold Block.relabel at h
      split at h
      · cases h; simp [State.labelled] at hl
      · cases h; simp [State.labelled] at hl
      · cases h
      · cases h
    · cases h; simp [State.labelled, Block.push, Field.labelled] at hl
  · split at h
    · cases h; simp [State.labelled] at hl
    split at h
    · cases h; exact ⟨‹_›, rfl⟩
    split at h
    · unfold Block.nest at h
      split at h
      · rw [openBlock_labelled h] at hl
        cases hl
      · cases h
    split at h
    · cases deeper_ok h; simp [State.labelled] at hl
    · cases h

theorem Outer.close_labelled {outer : Outer} {select : Select}
    (h : outer.close select t = .ok next) : next.labelled = false := by
  cases outer with
  | top => cases h
  | field block =>
    obtain ⟨-, hn⟩ := expectSymbol_ok h
    cases hn; rfl
  | among slot subject negated keyword =>
    obtain ⟨-, hn⟩ := expectSymbol_ok h
    cases hn; rfl

theorem Owner.close_labelled {owner : Owner} (h : owner.close limit t = .ok next) :
    next.labelled = false := by
  unfold Owner.close at h
  split at h
  · exact Outer.close_labelled h
  · rw [← Bool.not_eq_true]
    intro hl
    obtain ⟨-, rfl⟩ := Block.step_labelled h hl
    simp [State.labelled, Block.push, Field.labelled] at hl

theorem Owner.step_labelled {owner : Owner} (h : owner.step limit t = .ok next) :
    next.labelled = false := by
  unfold Owner.step at h
  split at h
  · split at h
    · rename_i c _
      split at h
      · cases h
      · cases h
        cases c <;> rfl
    · exact Owner.close_labelled h
  · exact Owner.close_labelled h

theorem Slot.close_labelled {slot : Slot} {last : Expr} (h : slot.close limit last t = .ok next) :
    next.labelled = false := by
  unfold Slot.close at h
  split at h
  · exact Owner.step_labelled h
  · obtain ⟨-, hn⟩ := expectSymbol_ok h
    cases hn; rfl

theorem stepAfterCondition_labelled {expr : Expr} {slot : Slot}
    (h : stepAfterCondition limit expr slot t = .ok next) : next.labelled = false := by
  unfold stepAfterCondition at h
  split at h
  · split at h
    · cases deeper_ok h; rfl
    · exact Slot.close_labelled h
  · exact Slot.close_labelled h

theorem modifier?_labelled {stage : Stage} {draft : EntryDraft} {text : String}
    (h : modifier? stage draft text = some next) : next.labelled = false := by
  unfold modifier? at h
  split at h
  · split at h
    · cases h; rfl
    split at h
    · cases h; rfl
    · cases h
  · split at h
    · cases h; rfl
    · cases h
  · split at h
    · cases h; rfl
    · cases h
  · cases h

theorem stepAfterOrderWord_labelled {stage : Stage} {draft : EntryDraft}
    (h : stepAfterOrderWord limit stage draft t = .ok next) : next.labelled = false := by
  unfold stepAfterOrderWord at h
  split at h
  · split at h
    · rename_i hm
      cases h
      exact modifier?_labelled hm
    · exact Owner.step_labelled h
  · split at h
    · cases h; rfl
    · exact Owner.step_labelled h

theorem stepCondition_labelled {slot : Slot} (h : stepCondition limit slot t = .ok next) :
    next.labelled = false := by
  unfold stepCondition at h
  split at h
  · split at h
    · cases h; rfl
    · cases h; rfl
  · split at h
    · cases deeper_ok h; rfl
    · cases h

theorem stepOperator_labelled {left : String} {slot : Slot}
    (h : stepOperator left slot t = .ok next) : next.labelled = false := by
  unfold stepOperator at h
  split at h
  · split at h
    · cases h; rfl
    split at h
    · cases h; rfl
    · cases h; rfl
    · cases h; rfl
    · cases h
  · split at h
    · cases h
    · cases h; rfl
  · cases h

theorem stepNegated_labelled {left negation : String} {slot : Slot}
    (h : stepNegated left negation slot t = .ok next) : next.labelled = false := by
  unfold stepNegated at h
  split at h
  · split at h
    · cases h; rfl
    · cases h; rfl
    · cases h; rfl
    · cases h
  · cases h

/-- The last field has a label because one was just read, or because it was so before a comma. -/
theorem State.step_labelled (h : st.step limit t = .ok next) (hl : next.labelled = true) :
    st.awaitsLabel = true ∨ t.isSymbol "," = true ∧ st.labelled = true := by
  have word {expected : Expectation} {g : String → State} (hw : expectWord expected t g = .ok next)
      (hg : ∀ text, (g text).labelled = false) : False := by
    obtain ⟨text, -, rfl⟩ := expectWord_ok hw
    rw [hg] at hl
    cases hl
  have keyword {ks : List String} {expected : Expectation} {g : String → State}
      (hk : expectKeyword ks expected t g = .ok next) (hg : ∀ text, (g text).labelled = false) :
      False := by
    obtain ⟨text, -, -, rfl⟩ := expectKeyword_ok hk
    rw [hg] at hl
    cases hl
  have never (hn : next.labelled = false) : False := by
    rw [hn] at hl
    cases hl
  cases st with
  | atTableLabel k name home => exact .inl rfl
  | atColumnLabel k column block => exact .inl rfl
  | atSubQueryLabel k select block => exact .inl rfl
  | inBlock block =>
    obtain ⟨ht, rfl⟩ := Block.step_labelled h hl
    exact .inr ⟨ht, hl⟩
  | atSelect outer => exact (keyword h fun _ => rfl).elim
  | atName k outer => exact (word h fun text => by split <;> rfl).elim
  | atDistinct k w outer =>
    simp only [State.step, stepDistinct] at h
    split at h
    · exact (never (stepAfterName_labelled h)).elim
    · exact (word h fun _ => rfl).elim
  | afterName name home => exact (never (stepAfterName_labelled h)).elim
  | atBlock table home => exact (never (openBlock_labelled h)).elim
  | afterBlock owner => exact (never (Owner.step_labelled h)).elim
  | atCondition slot => exact (never (stepCondition_labelled h)).elim
  | atOperator left slot => exact (never (stepOperator_labelled h)).elim
  | atNegated left n slot => exact (never (stepNegated_labelled h)).elim
  | atRight left op slot => exact (word h fun _ => rfl).elim
  | atLow range slot => exact (word h fun _ => rfl).elim
  | atAnd range low slot => exact (keyword h fun _ => rfl).elim
  | atHigh range low k slot => exact (word h fun _ => rfl).elim
  | atAmong k subject n slot =>
    obtain ⟨-, hn⟩ := expectSymbol_ok h
    cases deeper_ok hn
    cases hl
  | afterCondition expr slot => exact (never (stepAfterCondition_labelled h)).elim
  | atBy listing w owner => exact (keyword h fun _ => by cases listing <;> rfl).elim
  | atGroupColumn draft =>
    simp only [State.step, stepGroupColumn] at h
    split at h
    · cases h; cases hl
    · split at h <;> cases h
  | afterGroupColumn draft =>
    simp only [State.step, stepAfterGroupColumn] at h
    split at h
    · cases h; cases hl
    · exact (never (Owner.step_labelled h)).elim
  | atOrderColumn draft =>
    simp only [State.step, stepOrderColumn] at h
    split at h
    · cases h; cases hl
    · split at h <;> cases h
  | afterOrderWord stage draft => exact (never (stepAfterOrderWord_labelled h)).elim
  | atCollation draft => exact (word h fun _ => rfl).elim
  | atNullsPlace draft => exact (keyword h fun _ => rfl).elim
  | atPage page k owner => exact (word h fun _ => rfl).elim

theorem labelsOnce_of_labelledOnce {after : Bool} {ts : List Token}
    (h : labelledOnce limit st after ts = true) (hst : st.labelled = true → after = true) :
    LabelsOnce limit st ts := by
  induction ts generalizing st after with
  | nil =>
    intro us t vs he
    simp at he
  | cons u ts ih =>
    simp only [labelledOnce, Bool.and_eq_true] at h
    intro us t vs he st' hrun
    cases us with
    | nil =>
      obtain ⟨rfl, rfl⟩ := List.cons.inj he
      cases hrun
      rw [State.relabelledBy_eq, ← Bool.not_eq_true]
      intro hl
      rw [Bool.and_eq_true] at hl
      simp [hst hl.2, hl.1] at h
    | cons u' us =>
      obtain ⟨rfl, rfl⟩ := List.cons.inj he
      simp only [State.run, List.foldlM_cons] at hrun
      cases hstep : st.step limit u with
      | error e => simp [hstep, bind, Except.bind] at hrun
      | ok next =>
        rw [hstep] at hrun h
        refine ih h.2 (fun hl => ?_) us t vs rfl st' hrun
        rcases State.step_labelled hstep hl with ha | ⟨ht, hl'⟩
        · simp [ha]
        · simp [ht, hst hl']

/- Words up to their order. -/

/-- The words and the symbols but for the commas. -/
def Token.content (ts : List Token) : List Token := (significant ts).filter (· != .comma)

/-- The second list is the first, but for the case of a `not` right before `between` or `in`. -/
inductive Respelled : List Token → List Token → Prop
  | nil : Respelled [] []
  | keep (t : Token) {us vs : List Token} (h : Respelled us vs) : Respelled (t :: us) (t :: vs)
  | lower (n : Keyword "not") {w : String} (hw : (spells w "between" || spells w "in") = true)
      {us vs : List Token} (h : Respelled us vs) :
    Respelled (n.token :: .word w :: us) (.word "not" :: .word w :: vs)

theorem Respelled.refl (ts : List Token) : Respelled ts ts := by
  induction ts with
  | nil => exact .nil
  | cons t ts ih => exact .keep t ih

theorem Respelled.append {us vs us' vs' : List Token} (h : Respelled us vs)
    (h' : Respelled us' vs') : Respelled (us ++ us') (vs ++ vs') := by
  induction h with
  | nil => exact h'
  | keep t _ ih => exact .keep t ih
  | lower n hw _ ih => exact .lower n hw ih

/-- Up to the case of such a `not`, both lists have the same content. -/
def SameWords (us vs : List Token) : Prop :=
  ∃ ws, Respelled us ws ∧ (Token.content ws).Perm (Token.content vs)

namespace Token

@[simp] theorem content_append (us vs : List Token) :
    content (us ++ vs) = content us ++ content vs := by
  simp [content]

@[simp] theorem content_commas (n : Nat) : content (commas n) = [] := by
  rw [content, significant_commas]
  simp [commas]

theorem content_perm {us vs : List Token} (h : us.Perm vs) : (content us).Perm (content vs) :=
  (h.filter _).filter _

end Token

namespace SameWords

variable {us vs us' vs' : List Token}

theorem refl (ts : List Token) : SameWords ts ts := ⟨ts, .refl ts, .refl _⟩

theorem append (h : SameWords us vs) (h' : SameWords us' vs') :
    SameWords (us ++ us') (vs ++ vs') := by
  obtain ⟨ws, hr, hp⟩ := h
  obtain ⟨ws', hr', hp'⟩ := h'
  refine ⟨ws ++ ws', hr.append hr', ?_⟩
  rw [Token.content_append, Token.content_append]
  exact hp.append hp'

theorem cons (t : Token) (h : SameWords us vs) : SameWords (t :: us) (t :: vs) :=
  (refl [t]).append h

theorem perm (h : SameWords us vs) (hp : (Token.content vs).Perm (Token.content vs')) :
    SameWords us vs' := by
  obtain ⟨ws, hr, hp'⟩ := h
  exact ⟨ws, hr, hp'.trans hp⟩

theorem of_content (h : Token.content us = Token.content vs) : SameWords us vs :=
  (refl us).perm (.of_eq h)

theorem commas (m n : Nat) : SameWords (commas m) (commas n) := of_content (by simp)

end SameWords

theorem ClausePhrase.eq_of_kind {cs : List ClausePhrase} (hn : (cs.map ClausePhrase.kind).Nodup)
    {c d : ClausePhrase} (hc : c ∈ cs) (hd : d ∈ cs) (hk : c.kind = d.kind) : c = d := by
  induction cs with
  | nil => simp at hc
  | cons e cs ih =>
    rw [List.map_cons, List.nodup_cons] at hn
    have hout {x : ClausePhrase} (hx : x ∈ cs) : x.kind ≠ e.kind := by
      intro he
      exact hn.1 (he ▸ List.mem_map_of_mem hx)
    rcases List.mem_cons.1 hc with rfl | hc'
    · rcases List.mem_cons.1 hd with rfl | hd'
      · rfl
      · exact absurd hk.symm (hout hd')
    · rcases List.mem_cons.1 hd with rfl | hd'
      · exact absurd hk (hout hc')
      · exact ih hn.2 hc' hd'

theorem arranged_perm {cs : List ClausePhrase} (hn : (cs.map ClausePhrase.kind).Nodup) :
    (arranged cs).Perm cs := by
  have nodup {ds : List ClausePhrase} (hd : (ds.map ClausePhrase.kind).Nodup) : ds.Nodup :=
    List.Pairwise.of_map ClausePhrase.kind (fun _ _ hk he => hk (congrArg _ he)) hd
  rw [List.perm_ext_iff_of_nodup (nodup (arranged_nodup cs)) (nodup hn)]
  intro c
  rw [mem_arranged]
  refine ⟨clauseOf_mem, fun hc => ?_⟩
  cases hf : clauseOf c.kind cs with
  | none => exact absurd rfl (clauseOf_eq_none.1 hf c hc)
  | some d => rw [ClausePhrase.eq_of_kind hn (clauseOf_mem hf) hc (clauseOf_kind hf)]

theorem clausesTokens_perm {cs : List ClausePhrase} (hn : (cs.map ClausePhrase.kind).Nodup) :
    (clausesTokens cs).Perm (clausesTokens (arranged cs)) := by
  rw [clausesTokens_eq, clausesTokens_eq]
  exact (arranged_perm hn).symm.flatMap_right _

theorem labels_sameWords {labels : List (Nat × LabelPhrase)} (h : LabelsValid true labels) :
    SameWords (labelsTokens labels) (labelsTokens (lastOnly labels)) := by
  have hl := h rfl
  match labels with
  | [] => exact .refl _
  | [(n, l)] => exact .of_content (by simp [labelsTokens, lastOnly])
  | _ :: _ :: _ => simp at hl

theorem negation_sameWords (negation : Option (Keyword "not")) {w : String}
    (hw : (spells w "between" || spells w "in") = true) {us vs : List Token} (h : SameWords us vs) :
    SameWords (negationTokens negation ++ .word w :: us)
      (negationTokens (plainNot negation) ++ .word w :: vs) := by
  cases negation with
  | none => exact h.cons _
  | some n =>
    have hpair : SameWords [n.token, .word w] [.word "not", .word w] :=
      ⟨_, .lower n hw .nil, .refl _⟩
    exact hpair.append h

/- A phrase and the canonical one have the same words. -/
mutual

theorem SelectPhrase.sameWords : (c : SelectPhrase) → c.Valid true →
    SameWords c.tokens c.canonical.tokens
  | ⟨keyword, distinct, name, label, body⟩, h =>
    (SameWords.refl (headTokens keyword distinct name label)).append (BodyPhrase.sameWords body h.2)

theorem BodyPhrase.sameWords : (body : BodyPhrase) → body.Valid true →
    SameWords body.tokens body.canonical.tokens
  | ⟨single, n, fields, clauses⟩, h => by
    have hk : ((canonicalClauses clauses).map ClausePhrase.kind).Nodup := by
      rw [canonicalClauses_kinds]
      exact h.2.2.2
    have hc := (clauses_sameWords clauses h.2.2.1).perm (Token.content_perm (clausesTokens_perm hk))
    exact ((SameWords.cons _ (.commas n 0)).append (fields_sameWords fields h.1)).append (hc.cons _)

theorem FieldPhrase.sameWords : (f : FieldPhrase) → f.Valid true →
    SameWords f.tokens f.canonical.tokens
  | .column _ _ n, h => (SameWords.cons _ (labels_sameWords h)).append (.commas n 1)
  | .relation _ _ gap body n, h =>
    (((SameWords.cons _ (labels_sameWords h.1)).append (.commas gap 0)).append
      (BodyPhrase.sameWords body h.2)).append (.commas n _)
  | .subQuery select _ n, h =>
    ((SameWords.cons _ (SelectPhrase.sameWords select h.2)).append
      (SameWords.cons _ (labels_sameWords h.1))).append (.commas n 1)

theorem fields_sameWords : (fs : List FieldPhrase) → FieldsValid true fs →
    SameWords (fieldsTokens fs) (fieldsTokens (canonicalFields fs))
  | [], _ => .refl _
  | f :: fs, h => (FieldPhrase.sameWords f h.1).append (fields_sameWords fs h.2)

theorem ClausePhrase.sameWords : (c : ClausePhrase) → c.Valid true →
    SameWords c.tokens c.canonical.tokens
  | .filter _ _ chain, h => (ChainPhrase.sameWords chain h).cons _
  | .groupBy .., _ => .refl _
  | .orderBy .., _ => .refl _
  | .page .., _ => .refl _

theorem clauses_sameWords : (cs : List ClausePhrase) → ClausesValid true cs →
    SameWords (clausesTokens cs) (clausesTokens (canonicalClauses cs))
  | [], _ => .refl _
  | c :: cs, h => (ClausePhrase.sameWords c h.1).append (clauses_sameWords cs h.2)

theorem ChainPhrase.sameWords : (chain : ChainPhrase) → chain.Valid true →
    SameWords chain.tokens chain.canonical.tokens
  | .last negation test, h =>
    (SameWords.refl (negationTokens negation)).append (TestPhrase.sameWords test h.2)
  | .link negation test _ rest, h =>
    ((SameWords.refl (negationTokens negation)).append (TestPhrase.sameWords test h.2.1)).append
      ((ChainPhrase.sameWords rest h.2.2).cons _)

theorem TestPhrase.sameWords : (test : TestPhrase) → test.Valid true →
    SameWords test.tokens test.canonical.tokens
  | .compare .., _ => .refl _
  | .between subject negation keyword low andKeyword high, _ => by
    have hk : (spells keyword.text "between" || spells keyword.text "in") = true := by
      simp [keyword.spelled]
    have h := negation_sameWords negation hk (.refl [.word low, andKeyword.token, .word high])
    exact h.cons _
  | .among subject negation keyword select, h => by
    have hk : (spells keyword.text "between" || spells keyword.text "in") = true := by
      simp [keyword.spelled]
    have hs := ((SelectPhrase.sameWords select h).append (.refl [.symbol ")"])).cons (.symbol "(")
    have hn := (negation_sameWords negation hk hs).cons (.word subject)
    simpa [TestPhrase.tokens, TestPhrase.canonical, Keyword.token] using hn
  | .paren inner, h => ((ChainPhrase.sameWords inner h).cons _).append (.refl _)

end

/-- The words and symbols of a query are those of the printed tree, commas aside and up to the case
of a `not` right before `between` or `in`. -/
theorem Select.content_unparse {text : String} {ts : List Token} {s : Select}
    (hscan : Token.scan text = .ok ts) (hread : Select.ofTokens limit ts = .ok s)
    (hlabels : labelledOnce limit .start false (Token.significant ts) = true) :
    ∃ us, Respelled (Token.significant ts) us ∧
      (Token.content us).Perm (Token.content s.unparse) := by
  have honce := labelsOnce_of_labelledOnce hlabels (by simp [State.start, State.labelled])
  obtain ⟨c, hv, htokens, rfl⟩ := Select.ofTokens_phrase true hread fun _ => honce
  rw [SelectPhrase.unparse_of_scan hscan htokens, ← htokens]
  exact c.sameWords hv

/-- A label, a `not` in capitals, and clauses that are printed in another order. -/
theorem content_unparse_reordered :
    ∃ ts s us, Token.scan "select a [x As y] limit 1 where x NOT in (select z [])" = .ok ts ∧
      Select.ofTokens 3 ts = .ok s ∧
      labelledOnce 3 .start false (Token.significant ts) = true ∧
      Respelled (Token.significant ts) us ∧ (Token.content us).Perm (Token.content s.unparse) := by
  have hscan : Token.scan "select a [x As y] limit 1 where x NOT in (select z [])" =
      .ok [.word "select", .word "a", .symbol "[", .word "x", .word "As", .word "y", .symbol "]",
        .word "limit", .word "1", .word "where", .word "x", .word "NOT", .word "in", .symbol "(",
        .word "select", .word "z", .symbol "[", .symbol "]", .symbol ")"] :=
    scan_of_toOption (by decide +kernel)
  obtain ⟨us, hus⟩ := @Select.content_unparse 3 _ _ _ hscan rfl rfl
  exact ⟨_, _, us, hscan, rfl, rfl, hus⟩

end BracketQuery
