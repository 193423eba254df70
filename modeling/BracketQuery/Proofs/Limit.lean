import BracketQuery.Proofs.Acceptance

/-! The limit counts levels exactly. It refuses a query if and only if its tree nests deeper, and a
query that is wrong for another reason stays wrong for that reason or is refused as too deep. -/
namespace BracketQuery
variable {once : Bool} {d n : Nat} {t : Token} {st : State}

/- Every level has a token that opened it. -/

theorem headTokens_length (keyword : Keyword "select") (distinct : Option (Keyword "distinct"))
    (name : String) (label : Option LabelPhrase) :
    2 ≤ (headTokens keyword distinct name label).length := by
  simp only [headTokens, List.length_cons, List.length_append]
  omega

mutual

theorem OpenOuter.depth_le : (o : OpenOuter) → o.erase.depth ≤ o.tokens.length
  | .top => Nat.zero_le _
  | .field block => by
    have h := OpenBlock.depth_le block
    simp only [OpenOuter.erase, Outer.depth, OpenOuter.tokens, List.length_append,
      List.length_singleton]
    omega
  | .among slot subject negation keyword => by
    have h := OpenSlot.depth_le slot
    simp only [OpenOuter.erase, Outer.depth, OpenOuter.tokens, List.length_append, List.length_cons]
    omega

theorem OpenHome.depth_le : (h : OpenHome) → h.erase.depth + 1 ≤ h.tokens.length
  | .root keyword distinct name label outer => by
    have h := OpenOuter.depth_le outer
    have h2 := headTokens_length keyword distinct name label
    simp only [OpenHome.erase, Home.depth, OpenHome.tokens, List.length_append]
    omega
  | .relation block name labels gap => by
    have h := OpenBlock.depth_le block
    simp only [OpenHome.erase, Home.depth, OpenHome.tokens, List.length_append, List.length_cons]
    omega

theorem OpenBlock.depth_le : (b : OpenBlock) → b.erase.depth ≤ b.tokens.length
  | ⟨single, n, fields, home⟩ => by
    have h := OpenHome.depth_le home
    simp only [OpenBlock.erase, Block.depth, OpenBlock.tokens, List.length_append, List.length_cons]
    omega

theorem OpenOwner.depth_le : (o : OpenOwner) → o.erase.depth ≤ o.tokens.length
  | ⟨body, home⟩ => by
    have h := OpenHome.depth_le home
    simp only [OpenOwner.erase, Owner.depth, OpenOwner.tokens, List.length_append]
    omega

theorem OpenSlot.depth_le : (s : OpenSlot) → s.erase.depth ≤ s.tokens.length
  | ⟨negation, links, frame⟩ => by
    have h := OpenFrame.depth_le frame
    have hl : links.length ≤ (links.flatMap LinkPhrase.tokens).length := by
      clear h
      induction links with
      | nil => simp
      | cons l links ih =>
        simp only [List.flatMap_cons, List.length_append, List.length_cons, LinkPhrase.tokens]
        omega
    simp only [OpenSlot.erase, Slot.depth, OpenSlot.tokens, List.length_append,
      List.length_reverse, List.length_map]
    omega

theorem OpenFrame.depth_le : (f : OpenFrame) → f.erase.depth ≤ f.tokens.length
  | .clause filter keyword owner => by
    have h := OpenOwner.depth_le owner
    simp only [OpenFrame.erase, Frame.depth, OpenFrame.tokens, List.length_append]
    omega
  | .paren slot => by
    have h := OpenSlot.depth_le slot
    simp only [OpenFrame.erase, Frame.depth, OpenFrame.tokens, List.length_append,
      List.length_singleton]
    omega

end

/-- The level of what is being read; a table counts from its name on. -/
def State.level : State → Nat
  | .atSelect outer => outer.depth
  | .atName _ outer => outer.depth + 1
  | .atDistinct _ _ outer => outer.depth + 1
  | .afterName _ home => home.depth + 1
  | .atTableLabel _ _ home => home.depth + 1
  | .atBlock _ home => home.depth + 1
  | .inBlock block => block.depth
  | .atColumnLabel _ _ block => block.depth
  | .atSubQueryLabel _ _ block => block.depth
  | .afterBlock owner => owner.depth
  | .atCondition slot => slot.depth
  | .atOperator _ slot => slot.depth
  | .atNegated _ _ slot => slot.depth
  | .atRight _ _ slot => slot.depth
  | .atLow _ slot => slot.depth
  | .atAnd _ _ slot => slot.depth
  | .atHigh _ _ _ slot => slot.depth
  | .atAmong _ _ _ slot => slot.depth
  | .afterCondition _ slot => slot.depth
  | .atBy _ _ owner => owner.depth
  | .atGroupColumn draft => draft.owner.depth
  | .afterGroupColumn draft => draft.owner.depth
  | .atOrderColumn draft => draft.owner.depth
  | .afterOrderWord _ draft => draft.order.owner.depth
  | .atCollation draft => draft.order.owner.depth
  | .atNullsPlace draft => draft.order.owner.depth
  | .atPage _ _ owner => owner.depth

theorem Reached.level_le {ts : List Token} (h : Reached once st ts) : st.level ≤ ts.length := by
  -- The tokens of the open construct come first.
  have front {m : Nat} {us : List Token} (hm : m ≤ us.length) (vs : List Token) :
      m ≤ (us ++ vs).length := by
    rw [List.length_append]
    omega
  cases h with
  | atSelect => exact OpenOuter.depth_le _
  | atName | atDistinct =>
    refine Nat.le_trans (Nat.succ_le_succ (OpenOuter.depth_le _)) ?_
    simp
  | afterName => exact OpenHome.depth_le (.root ..)
  | atBlock home => exact OpenHome.depth_le home
  | atTableLabel => exact front (OpenHome.depth_le (.root ..)) _
  | inBlock => exact OpenBlock.depth_le _
  | atColumnLabel | atSubQueryLabel => exact front (front (OpenBlock.depth_le _) _) _
  | atCondition => exact OpenSlot.depth_le _
  | atOperator | atNegated | atRight | afterCondition => exact front (OpenSlot.depth_le _) _
  | atLow | atAnd | atHigh | atAmong => exact front (front (OpenSlot.depth_le _) _) _
  | afterBlock => exact OpenOwner.depth_le _
  | atGroupBy | atOrderBy | atPage => exact front (OpenOwner.depth_le _) _
  | atGroupColumn | afterGroupColumn | atOrderColumn | afterOrderWord =>
    exact front (front (OpenOwner.depth_le _) _) _
  | atCollation | atNullsPlace => exact front (front (front (OpenOwner.depth_le _) _) _) _

/- Two limits. The limit `n` is the higher one, or lies above every level that occurs, so where it
   refuses `d` does. -/

/-- The first result is the second one, unless it is refused under the limit `d`. -/
def Agrees {α : Type} (d : Nat) (x y : Except ReadError α) : Prop :=
  x = .error (.tooDeep d) ∨ x = y

theorem Agrees.refl {α : Type} (x : Except ReadError α) : Agrees d x x := .inr rfl

theorem deeper_agrees {depth : Nat} (h : d ≤ n ∨ depth < n) (next : Reading) :
    Agrees d (deeper d depth next) (deeper n depth next) := by
  unfold deeper
  by_cases hd : depth < d
  · have hn : depth < n := by omega
    rw [if_pos hd, if_pos hn]
    exact .refl _
  · rw [if_neg hd]
    exact .inl rfl

theorem stepAfterName_agrees {home : Home} (h : d ≤ n ∨ home.depth < n) (name : String)
    (t : Token) : Agrees d (stepAfterName d name home t) (stepAfterName n name home t) := by
  cases t with
  | word text =>
    simp only [stepAfterName]
    split
    · exact .refl _
    · exact deeper_agrees h _
  | symbol text => exact deeper_agrees h _
  | newline => exact deeper_agrees h _

theorem Block.step_agrees {block : Block} (h : d ≤ n ∨ block.depth < n) (t : Token) :
    Agrees d (block.step d t) (block.step n t) := by
  unfold Block.step
  split
  · exact .refl _
  split
  · exact .refl _
  split
  · exact .refl _
  split
  · unfold Block.nest
    split
    · refine deeper_agrees ?_ _
      rw [Block.depth_eq] at h
      exact h
    · exact .refl _
  split
  · exact deeper_agrees h _
  · exact .refl _

theorem Owner.step_agrees {owner : Owner} (h : d ≤ n ∨ owner.depth < n) (t : Token) :
    Agrees d (owner.step d t) (owner.step n t) := by
  have hclose : Agrees d (owner.close d t) (owner.close n t) := by
    obtain ⟨table, home⟩ := owner
    cases home with
    | root head outer => exact .refl _
    | relation block =>
      have hb : d ≤ n ∨ (block.push (.relation table)).depth < n := by
        simp only [Owner.depth_eq, Home.depth, Block.depth_eq, Block.push] at h ⊢
        omega
      exact Block.step_agrees hb t
  unfold Owner.step
  split
  · split
    · exact .refl _
    · exact hclose
  · exact hclose

theorem stepAfterCondition_agrees {slot : Slot} (h : d ≤ n ∨ slot.depth < n) (e : Expr)
    (t : Token) : Agrees d (stepAfterCondition d e slot t) (stepAfterCondition n e slot t) := by
  have hclose : Agrees d (slot.close d e t) (slot.close n e t) := by
    obtain ⟨negation, links, frame⟩ := slot
    cases frame with
    | clause filter keyword owner =>
      refine Owner.step_agrees ?_ t
      simp only [Slot.depth_eq, Frame.depth, Owner.depth_eq] at h
      simp only [Owner.depth_eq, Owner.setFilter_home]
      omega
    | paren outer => exact .refl _
  unfold stepAfterCondition
  split
  · split
    · exact deeper_agrees h _
    · exact hclose
  · exact hclose

theorem State.step_agrees (h : d ≤ n ∨ st.level < n) (t : Token) :
    Agrees d (st.step d t) (st.step n t) := by
  cases st with
  | atDistinct keyword word outer =>
    simp only [State.step, stepDistinct]
    split
    · refine stepAfterName_agrees ?_ word t
      simp only [State.level, Home.depth] at h ⊢
      omega
    · exact .refl _
  | afterName name home => exact stepAfterName_agrees (h.imp_right Nat.lt_of_succ_lt) name t
  | atBlock table home => exact deeper_agrees (h.imp_right Nat.lt_of_succ_lt) _
  | inBlock block => exact Block.step_agrees h t
  | afterBlock owner => exact Owner.step_agrees h t
  | atCondition slot =>
    simp only [State.step, stepCondition]
    split
    · exact .refl _
    split
    · exact deeper_agrees h _
    · exact .refl _
  | atAmong keyword subject negated slot =>
    simp only [State.step, expectSymbol]
    split
    · exact deeper_agrees h _
    · exact .refl _
  | afterCondition e slot => exact stepAfterCondition_agrees h e t
  | afterGroupColumn draft =>
    have hd : d ≤ n ∨ draft.close.depth < n := by
      simp only [State.level, Owner.depth_eq] at h ⊢
      exact h
    simp only [State.step, stepAfterGroupColumn]
    split
    · exact .refl _
    · exact Owner.step_agrees hd t
  | afterOrderWord stage draft =>
    have hd : d ≤ n ∨ draft.close.close.depth < n := by
      simp only [State.level, Owner.depth_eq] at h ⊢
      exact h
    simp only [State.step, stepAfterOrderWord]
    split
    · split
      · exact .refl _
      · exact Owner.step_agrees hd _
    split
    · exact .refl _
    · exact Owner.step_agrees hd t
  | _ => exact .refl _

theorem State.finish_agrees (h : d ≤ n ∨ st.level ≤ n) : Agrees d (st.finish d) (st.finish n) := by
  have lack (home : Home) (hh : d ≤ n ∨ home.depth < n) (name : String) :
      Agrees (α := Select) d (.error (lackBlock d name home)) (.error (lackBlock n name home)) := by
    unfold lackBlock
    by_cases hd : home.depth < d
    · have hn : home.depth < n := by omega
      rw [if_pos hd, if_pos hn]
      exact .refl _
    · rw [if_neg hd]
      exact .inl rfl
  cases st with
  | atDistinct keyword word outer => exact lack (.root ⟨keyword, none⟩ outer) h word
  | afterName name home => exact lack home h name
  | atBlock table home => exact lack home h table.name
  | _ => exact .refl _

/-- One token more for both limits, as long as there are not more tokens than levels of `n`. -/
theorem Reached.run_agrees {us ts : List Token} (h : Reached false st us)
    (hn : us.length + ts.length ≤ n) : Agrees d (st.run d ts) (st.run n ts) := by
  induction ts generalizing st us with
  | nil => exact .refl _
  | cons t ts ih =>
    have hlevel : st.level < n := by
      have := h.level_le
      simp only [List.length_cons] at hn
      omega
    simp only [State.run, List.foldlM_cons]
    rcases State.step_agrees (.inr hlevel) t with hd | hd
    · rw [hd]
      exact .inl rfl
    · rw [hd]
      cases hs : st.step n t with
      | error e => exact .refl _
      | ok next =>
        refine ih (h.step (by simp) hs) ?_
        simp only [List.length_append, List.length_cons, List.length_nil] at hn ⊢
        omega

theorem Select.ofTokens_agrees {ts : List Token} (hn : ts.length ≤ n) :
    Agrees d (Select.ofTokens d ts) (Select.ofTokens n ts) := by
  have hlen : (Token.significant ts).length ≤ n :=
    Nat.le_trans (List.length_filter_le _ ts) hn
  have hstart : Reached false State.start [] := Reached.atSelect (o := .top) trivial
  unfold Select.ofTokens
  have hrun : Agrees d (State.start.run d (Token.significant ts))
      (State.start.run n (Token.significant ts)) := hstart.run_agrees (by simpa using hlen)
  rcases hrun with hd | hd
  · rw [hd]
    exact .inl rfl
  · rw [hd]
    cases hrun : State.start.run n (Token.significant ts) with
    | error e => exact .refl _
    | ok st =>
      have hst : Reached false st (Token.significant ts) := by
        simpa using hstart.run (by simp) hrun
      exact State.finish_agrees (.inr (Nat.le_trans hst.level_le hlen))

/- A higher limit accepts whatever a lower one does. -/

theorem State.run_mono {ts : List Token} {last : State} (hdn : d ≤ n) (h : st.run d ts = .ok last) :
    st.run n ts = .ok last := by
  induction ts generalizing st with
  | nil => exact h
  | cons t ts ih =>
    simp only [State.run, List.foldlM_cons] at h ⊢
    have hagrees : Agrees d (st.step d t) (st.step n t) := State.step_agrees (.inl hdn) t
    rcases hagrees with hd | hd
    · rw [hd] at h
      cases h
    · rw [← hd]
      cases hs : st.step d t with
      | error e =>
        rw [hs] at h
        cases h
      | ok next =>
        rw [hs] at h
        exact ih h

theorem Select.ofTokens_mono {ts : List Token} {s : Select} (hdn : d ≤ n)
    (h : Select.ofTokens d ts = .ok s) : Select.ofTokens n ts = .ok s := by
  unfold Select.ofTokens at h ⊢
  cases hrun : State.start.run d (Token.significant ts) with
  | error e =>
    rw [hrun] at h
    cases h
  | ok st =>
    have hfinish : st.finish d = .ok s := by rwa [hrun] at h
    rw [State.run_mono hdn hrun]
    have hagrees : Agrees d (st.finish d) (st.finish n) := State.finish_agrees (.inl hdn)
    rcases hagrees with hd | hd
    · rw [hd] at hfinish
      cases hfinish
    · exact hd.symm.trans hfinish

theorem Select.ofTokens_exact_depth (ts : List Token) (d n : Nat) (hn : ts.length ≤ n) :
    (∀ s, Select.ofTokens n ts = .ok s →
      (s.nest ≤ d → Select.ofTokens d ts = .ok s) ∧
      (d < s.nest → Select.ofTokens d ts = .error (.tooDeep d))) ∧
    ∀ e, Select.ofTokens n ts = .error e →
      Select.ofTokens d ts = .error e ∨ Select.ofTokens d ts = .error (.tooDeep d) := by
  constructor
  · intro s hs
    obtain ⟨c, hc, htokens, rfl⟩ := Select.ofTokens_phrase false hs (by simp)
    rw [c.ofTokens_eq hc htokens.symm d]
    exact ⟨fun h => if_pos h, fun h => if_neg (Nat.not_le.2 h)⟩
  · intro e he
    rcases Select.ofTokens_agrees (d := d) hn with h | h
    · exact .inr h
    · exact .inl (h.trans he)

/-- A parenthesis is one level more than the block. -/
theorem exact_depth_of_parenthesis :
    let ts := [.word "select", .word "a", .symbol "[", .symbol "]", .word "where", .symbol "(",
      .word "x", .symbol "=", .word "1", .symbol ")"]
    ∃ s, Select.ofTokens 10 ts = .ok s ∧ s.nest = 2 ∧ Select.ofTokens 2 ts = .ok s ∧
      Select.ofTokens 1 ts = .error (.tooDeep 1) :=
  ⟨_, rfl, rfl, ((Select.ofTokens_exact_depth _ 2 10 (by decide)).1 _ rfl).1 (by decide),
    ((Select.ofTokens_exact_depth _ 1 10 (by decide)).1 _ rfl).2 (by decide)⟩

end BracketQuery
