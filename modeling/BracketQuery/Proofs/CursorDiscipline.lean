import BracketQuery.Proofs.CursorAgreement

/-! The moves of the cursor. The parsers that move it read what the parsers by descent read, so they
give the same query or the same error; they come back to the depth at which they were called, with
the cursor further on; and none of the checks on the moves ever fails. -/
namespace BracketQuery.Cursor
open Descent (Parser lookahead outcome turnOutcome)

variable {α : Type} {input : Input} {pos depth : Nat}

section

variable (hturns : input.tokens.length < input.turns) (hpos : pos ≤ input.tokens.length)
include hturns hpos

/- Lists of columns. -/

theorem agrees_nulls (column : String) :
    Agrees input pos depth ⟨pos, depth⟩ (nulls input column) (Descent.nulls column) := by
  refine agrees_ifKeyword hturns hpos (fun text pos₁ h₁ hpos₁ => ?_) []
  exact ((agrees_take hturns hpos₁ _ _).bind_pure _).mono (by omega)

theorem agrees_direction (column : String) :
    Agrees input pos depth ⟨pos, depth⟩ (direction input column) (Descent.direction column) := by
  refine agrees_ifKeyword hturns hpos (fun text pos₁ h₁ hpos₁ => ?_) []
  exact ((agrees_nulls hturns hpos₁ column).bind_pure _).mono (by omega)

theorem agrees_collation (column : String) :
    Agrees input pos depth ⟨pos, depth⟩ (collation input column) (Descent.collation column) := by
  refine agrees_ifKeyword hturns hpos (fun text pos₁ h₁ hpos₁ => ?_) []
  exact ((agrees_takeWord hturns hpos₁ _).bind_pure _).mono (by omega)

theorem agrees_entry (table : String) :
    Agrees input (pos + 1) depth ⟨pos, depth⟩ (entry input table) (Descent.entry table) := by
  refine (agrees_takeWord hturns hpos _).bind fun column pos₁ h₁ hpos₁ => ?_
  refine (agrees_collation hturns hpos₁ column).bind fun collate pos₂ h₂ hpos₂ => ?_
  exact ((agrees_direction hturns hpos₂ column).bind_pure _).mono (by omega)

theorem meets_listTurn {item : Run α} {item' : Parser α}
    (hitem : ∀ pos, pos ≤ input.tokens.length →
      Agrees input (pos + 1) depth ⟨pos, depth⟩ item item') (items : α × List α) :
    Meets input pos depth (listTurn input item items ⟨pos, depth⟩)
      (turnOutcome (Descent.listTurn item' items (input.tokens.drop pos))) := by
  rw [listTurn, look_bind hpos]
  cases hcomma : (lookahead 0 (input.tokens.drop pos)).any (·.isSymbol ",") with
  | false =>
    rw [Descent.turnOutcome_list_end hcomma]
    exact .read _ pos (Nat.le_refl _) hpos
  | true =>
    obtain ⟨t, ht, hsymbol⟩ := (Option.any_eq_true _ _).1 hcomma
    rw [if_pos rfl, Descent.turnOutcome_list_comma ht hsymbol]
    have hmore : Agrees input pos depth ⟨pos, depth⟩
        (nextToken input >>= fun _ => item >>= fun v => pure (v, items.1 :: items.2))
        (Descent.pass >>= fun _ => item' >>= fun v => pure (v, items.1 :: items.2)) := by
      refine Agrees.pass hturns hpos ht fun pos₁ h₁ hpos₁ => ?_
      exact ((hitem pos₁ hpos₁).bind_pure _).mono (by omega)
    have hturn := hmore.map (Sum.inl : _ → _ ⊕ List α)
    simp only [run_bind_assoc] at hturn
    exact hturn

theorem agrees_listOf {item : Run α} {item' : Parser α}
    (hitem : ∀ pos, pos ≤ input.tokens.length →
      Agrees input (pos + 1) depth ⟨pos, depth⟩ item item') (clause : Clause) (table : String) :
    Agrees input (pos + 1) depth ⟨pos, depth⟩ (listOf input clause table item)
      (Descent.listOf clause table item') := by
  refine Agrees.look hpos 0 ?_
  cases hw : (lookahead 0 (input.tokens.drop pos)).bind Descent.word? with
  | none => exact agrees_refuse _
  | some text =>
    refine (hitem pos hpos).bind fun first pos₁ h₁ hpos₁ => ?_
    refine (agrees_loop (by omega) hpos₁ (fun items pos₂ h₂ hpos₂ => ?_) _).mono h₁
    exact meets_listTurn hturns hpos₂ hitem items

theorem agrees_groupColumns (table : String) :
    Agrees input (pos + 1) depth ⟨pos, depth⟩ (groupColumns input table)
      (Descent.listOf .groupBy table (Descent.takeWord (.groupColumn table))) :=
  agrees_listOf hturns hpos (fun _ h => agrees_takeWord hturns h _) _ _

theorem agrees_entries (table : String) :
    Agrees input (pos + 1) depth ⟨pos, depth⟩ (entries input table)
      (Descent.listOf .orderBy table (Descent.entry table)) :=
  agrees_listOf hturns hpos (fun _ h => agrees_entry hturns h table) _ _

theorem agrees_byKeyword {text : String}
    (h : lookahead 0 (input.tokens.drop pos) = some (.word text)) (table : String) :
    Agrees input (pos + 1) depth ⟨pos, depth⟩ (byKeyword input table)
      (Descent.pass >>= fun _ => Descent.byKeyword table text) := by
  refine Agrees.seen hturns hpos h fun pos₁ h₁ hpos₁ => ?_
  exact ((agrees_take hturns hpos₁ _ _).bind_pure _).mono (by omega)

theorem agrees_groupBy {text : String}
    (h : lookahead 0 (input.tokens.drop pos) = some (.word text)) (table : String) :
    Agrees input (pos + 1) depth ⟨pos, depth⟩ (groupBy input table)
      (Descent.pass >>= fun _ => Descent.groupBy table text) := by
  refine ((agrees_byKeyword hturns hpos h table).bind fun keyword pos₁ h₁ hpos₁ => ?_).assoc
  exact ((agrees_groupColumns hturns hpos₁ table).bind_pure _).mono (by omega)

theorem agrees_orderBy {text : String}
    (h : lookahead 0 (input.tokens.drop pos) = some (.word text)) (table : String) :
    Agrees input (pos + 1) depth ⟨pos, depth⟩ (orderBy input table)
      (Descent.pass >>= fun _ => Descent.orderBy table text) := by
  refine ((agrees_byKeyword hturns hpos h table).bind fun keyword pos₁ h₁ hpos₁ => ?_).assoc
  exact ((agrees_entries hturns hpos₁ table).bind_pure _).mono (by omega)

theorem agrees_paging {text : String}
    (h : lookahead 0 (input.tokens.drop pos) = some (.word text)) (page : Page) (table : String) :
    Agrees input (pos + 1) depth ⟨pos, depth⟩ (paging input page table)
      (Descent.pass >>= fun _ => Descent.paging page table text) := by
  refine Agrees.seen hturns hpos h fun pos₁ h₁ hpos₁ => ?_
  exact ((agrees_takeWord hturns hpos₁ _).bind_pure _).mono (by omega)

/- Conditions. -/

theorem agrees_negation :
    Agrees input pos depth ⟨pos, depth⟩ (negation input) Descent.negation := by
  refine Agrees.look hpos 0 (Agrees.look hpos 1 ?_)
  cases hnot : (lookahead 0 (input.tokens.drop pos)).bind (Descent.keyword? ["not"]) with
  | none => exact agrees_pure none hpos
  | some text =>
    cases (lookahead 1 (input.tokens.drop pos)).bind Descent.word? with
    | none => exact agrees_pure none hpos
    | some op =>
      simp only
      split
      · refine Agrees.seen hturns hpos (Descent.keyword_ahead hnot).1 fun pos₁ h₁ hpos₁ => ?_
        exact (agrees_pure _ hpos₁).mono (by omega)
      · exact agrees_pure none hpos

theorem agrees_rightSide (site : Site) (left op : String) :
    Agrees input (pos + 1) depth ⟨pos, depth⟩ (rightSide input site left op)
      (Descent.rightSide site left op) := by
  exact (agrees_takeWord hturns hpos _).bind_pure _

theorem agrees_between (site : Site) (range : Range) :
    Agrees input (pos + 1) depth ⟨pos, depth⟩ (between input site range)
      (Descent.between site range) := by
  refine (agrees_takeWord hturns hpos _).bind fun lower pos₁ h₁ hpos₁ => ?_
  refine (agrees_take hturns hpos₁ _ _).bind fun andKeyword pos₂ h₂ hpos₂ => ?_
  exact ((agrees_takeWord hturns hpos₂ _).bind_pure _).mono (by omega)

theorem agrees_notWord :
    Agrees input pos depth ⟨pos, depth⟩ (notWord input) Descent.notWord :=
  agrees_ifKeyword hturns hpos (fun _ _ h₁ hpos₁ => (agrees_pure _ hpos₁).mono (by omega)) none

theorem agrees_distinctWord :
    Agrees input pos depth ⟨pos, depth⟩ (distinctWord input) Descent.distinctWord := by
  refine Agrees.look hpos 0 (Agrees.look hpos 1 ?_)
  cases hdistinct : (lookahead 0 (input.tokens.drop pos)).bind
      (Descent.keyword? ["distinct"]) with
  | none => exact agrees_pure none hpos
  | some text =>
    cases lookahead 1 (input.tokens.drop pos) with
    | none => exact agrees_pure none hpos
    | some t =>
      simp only
      split
      · exact agrees_pure none hpos
      · refine Agrees.seen hturns hpos (Descent.keyword_ahead hdistinct).1 fun pos₁ h₁ hpos₁ => ?_
        exact (agrees_pure _ hpos₁).mono (by omega)

theorem agrees_tableLabel (name : String) :
    Agrees input pos depth ⟨pos, depth⟩ (tableLabel input name) (Descent.tableLabel name) := by
  refine agrees_ifKeyword hturns hpos (fun text pos₁ h₁ hpos₁ => ?_) _
  exact ((agrees_takeWord hturns hpos₁ _).bind_pure _).mono (by omega)

theorem agrees_relabel (table text : String) (prior : List Field) :
    Agrees input (pos + 1) depth ⟨pos, depth⟩ (relabel input table text prior)
      (Descent.relabel table text prior) := by
  cases prior with
  | nil => exact agrees_refuse _
  | cons field prior =>
    cases field with
    | relation relation => exact agrees_refuse _
    | column column =>
      have hlabel : Agrees input (pos + 1) depth ⟨pos, depth⟩ _ (Descent.columnLabel text column) :=
        (agrees_takeWord hturns hpos _).bind_pure _
      have hrelabel := hlabel.bind_pure (· :: prior)
      rw [run_bind_assoc] at hrelabel
      exact hrelabel
    | subQuery select label =>
      have hlabel : Agrees input (pos + 1) depth ⟨pos, depth⟩ _
          (Descent.subQueryLabel table text select) :=
        (agrees_takeWord hturns hpos _).bind_pure _
      have hrelabel := hlabel.bind_pure (· :: prior)
      rw [run_bind_assoc] at hrelabel
      exact hrelabel

end

/- Parsers that call others. -/

/-- From the place on, the parsers that are called agree with those of the level. -/
structure Calls.AgreeFrom (input : Input) (calls : Calls) (start : Nat) : Prop where
  select {pos depth : Nat} (hstart : start ≤ pos) (hpos : pos ≤ input.tokens.length) :
    Agrees input (pos + 1) depth ⟨pos, depth⟩ calls.select (levelAt input.limit depth).select
  fields {pos depth : Nat} (hstart : start ≤ pos) (hpos : pos ≤ input.tokens.length)
    (table : Table) :
    Meets input (pos + 1) depth (calls.fields table ⟨pos, depth⟩)
      (outcome ((levelAt input.limit depth).block table (input.tokens.drop pos)))
  chain {pos depth : Nat} (hstart : start ≤ pos) (hpos : pos ≤ input.tokens.length)
    (site : Site) :
    Agrees input (pos + 1) depth ⟨pos, depth⟩ (calls.chain site)
      ((levelAt input.limit depth).chain site [])

section

variable {calls : Calls} {start : Nat} (hcalls : calls.AgreeFrom input start)
  (hturns : input.tokens.length < input.turns) (hpos : pos ≤ input.tokens.length)
include hcalls hturns hpos

theorem agrees_nested (hstart : start ≤ pos) (ended : Expectation) :
    Agrees input (pos + 1) depth ⟨pos, depth⟩ (nested input calls ended)
      (Descent.nestedSelect input.limit (belowAt input.limit depth) ended) := by
  refine Agrees.enter ((hcalls.select hstart hpos).bind fun select pos₁ h₁ hpos₁ => ?_)
  refine (agrees_take hturns hpos₁ _ _).bind fun _ pos₂ h₂ hpos₂ => ?_
  exact ((agrees_pure select hpos₂).mono (by omega)).leave

theorem agrees_among (hstart : start ≤ pos + 1) (site : Site) (text left : String)
    (negated : Bool) :
    Agrees input (pos + 1) depth ⟨pos, depth⟩ (among input calls site text left negated)
      (Descent.among (Descent.nestedSelect input.limit (belowAt input.limit depth)) site text left
        negated) := by
  refine (agrees_take hturns hpos _ _).bind fun _ pos₁ h₁ hpos₁ => ?_
  exact ((agrees_nested hcalls hturns hpos₁ (by omega) _).bind_pure _).mono (by omega)

theorem agrees_comparison (hstart : start ≤ pos + 1) (site : Site) :
    Agrees input (pos + 1) depth ⟨pos, depth⟩ (comparison input calls site)
      (Descent.comparison (Descent.nestedSelect input.limit (belowAt input.limit depth)) site) := by
  refine (agrees_takeWord hturns hpos _).bind fun left pos₁ h₁ hpos₁ => ?_
  refine (agrees_negation hturns hpos₁).bind fun negation pos₂ h₂ hpos₂ => ?_
  refine Agrees.look hpos₂ 0 ?_
  -- without an operator that is a word, one that is a symbol has to follow
  have hsymbol : Agrees input (pos + 1) depth ⟨pos₂, depth⟩
      (take input (.operator site) Descent.operator? >>= rightSide input site left)
      (Descent.take (.operator site) Descent.operator? >>= Descent.rightSide site left) := by
    refine (agrees_take hturns hpos₂ _ _).bind fun op pos₃ h₃ hpos₃ => ?_
    exact (agrees_rightSide hturns hpos₃ site left op).mono (by omega)
  cases hword : (lookahead 0 (input.tokens.drop pos₂)).bind Descent.word? with
  | none => exact hsymbol
  | some text =>
    have hseen := Descent.word_ahead hword
    simp only
    cases WordOperator.ofWord? text with
    | none => exact hsymbol
    | some op =>
      cases op with
      | between =>
        refine Agrees.seen hturns hpos₂ hseen fun pos₃ h₃ hpos₃ => ?_
        exact (agrees_between hturns hpos₃ site _).mono (by omega)
      | among =>
        refine Agrees.seen hturns hpos₂ hseen fun pos₃ h₃ hpos₃ => ?_
        exact (agrees_among hcalls hturns hpos₃ (by omega) site _ _ _).mono (by omega)
      | like =>
        refine Agrees.seen hturns hpos₂ hseen fun pos₃ h₃ hpos₃ => ?_
        exact (agrees_rightSide hturns hpos₃ site _ _).mono (by omega)

theorem agrees_operand (hstart : start ≤ pos + 1) (site : Site) :
    Agrees input (pos + 1) depth ⟨pos, depth⟩ (operand input calls site)
      (Descent.operand input.limit (belowAt input.limit depth) site) := by
  refine Agrees.look hpos 0 ?_
  split
  · rename_i hparen
    obtain ⟨t, ht, -⟩ := (Option.any_eq_true _ _).1 hparen
    refine Agrees.enter (Agrees.pass hturns hpos ht fun pos₁ h₁ hpos₁ => ?_)
    refine (hcalls.chain (by omega) hpos₁ site).bind fun expr pos₂ h₂ hpos₂ => ?_
    refine (agrees_take hturns hpos₂ _ _).bind fun _ pos₃ h₃ hpos₃ => ?_
    exact ((agrees_pure (Expr.paren expr) hpos₃).mono (by omega)).leave
  · exact agrees_comparison hcalls hturns hpos hstart site

theorem agrees_primary (hstart : start ≤ pos + 1) (site : Site) :
    Agrees input (pos + 1) depth ⟨pos, depth⟩ (primary input calls site)
      (Descent.primary input.limit (belowAt input.limit depth) site) := by
  refine (agrees_notWord hturns hpos).bind fun negation pos₁ h₁ hpos₁ => ?_
  have hoperand : Agrees input (pos₁ + 1) depth ⟨pos₁, depth⟩ (operand input calls site)
      (Descent.operand input.limit (belowAt input.limit depth) site) :=
    agrees_operand hcalls hturns hpos₁ (by omega) site
  cases negation with
  | none => exact hoperand.mono (by omega)
  | some text =>
    refine hoperand.bind fun expr pos₂ h₂ hpos₂ => ?_
    exact (agrees_pure _ hpos₂).mono (by omega)

theorem agrees_links (site : Site) (hstart : start ≤ pos + 1) {n : Nat}
    (hn : input.tokens.length < pos + n) (links : List (Expr × String)) (last : Expr) :
    Agrees input pos depth ⟨pos, depth + links.length⟩
      (loop (linkTurn input calls site) n (links, last) >>= fun read =>
        leave read.1.length >>= fun _ => pure (Descent.linked read.1 read.2))
      (Descent.chainRest input.limit (belowAt input.limit (depth + links.length)) site links
        last) := by
  induction n generalizing pos links last with
  | zero => omega
  | succ n ih =>
    rw [loop, linkTurn]
    simp only [run_bind_assoc]
    refine Agrees.look hpos 0 ?_
    cases hlink : (lookahead 0 (input.tokens.drop pos)).bind
        (Descent.keyword? ["and", "or"]) with
    | none => exact (agrees_pure _ hpos).leave
    | some op =>
      simp only [run_bind_assoc]
      refine Agrees.enter (Agrees.seen hturns hpos (Descent.keyword_ahead hlink).1 ?_)
      intro pos₁ h₁ hpos₁
      refine Agrees.look hpos₁ 0 ?_
      split
      · exact agrees_refuse _
      · rw [levelAt_eq]
        simp only [run_bind_assoc]
        refine (agrees_primary hcalls hturns hpos₁ (by omega) site).bind ?_
        intro next pos₂ h₂ hpos₂
        exact (ih hpos₂ (by omega) (by omega) ((last, op) :: links) next).mono (by omega)

theorem agrees_chain (hstart : start ≤ pos + 1) (site : Site) :
    Agrees input (pos + 1) depth ⟨pos, depth⟩ (chain input calls site)
      (Descent.chain input.limit (belowAt input.limit depth) site []) := by
  rw [Descent.chain_eq]
  refine (agrees_primary hcalls hturns hpos hstart site).bind fun first pos₁ h₁ hpos₁ => ?_
  exact (agrees_links hcalls hturns hpos₁ site (by omega) (by omega) [] first).mono h₁

theorem agrees_condition (hstart : start ≤ pos + 1) {text : String}
    (h : lookahead 0 (input.tokens.drop pos) = some (.word text)) (filter : Filter)
    (table : String) :
    Agrees input (pos + 1) depth ⟨pos, depth⟩ (condition input calls filter table)
      (Descent.pass >>= fun _ =>
        Descent.condition (levelAt input.limit depth) filter table text) := by
  refine Agrees.seen hturns hpos h fun pos₁ h₁ hpos₁ => Agrees.look hpos₁ 0 ?_
  split
  · exact agrees_refuse _
  · refine (hcalls.chain (by omega) hpos₁ _).bind fun expr pos₂ h₂ hpos₂ => ?_
    exact (agrees_pure _ hpos₂).mono (by omega)

theorem agrees_addClause (hstart : start ≤ pos + 1) {text : String}
    (h : lookahead 0 (input.tokens.drop pos) = some (.word text)) (table : Table)
    (clause : Clause) :
    Agrees input (pos + 1) depth ⟨pos, depth⟩ (addClause input calls table clause)
      (Descent.pass >>= fun _ =>
        Descent.addClause (levelAt input.limit depth) table text clause) := by
  cases clause with
  | filter filter =>
    cases filter with
    | rows => exact ((agrees_condition hcalls hturns hpos hstart h _ _).bind_pure _).assoc
    | groups => exact ((agrees_condition hcalls hturns hpos hstart h _ _).bind_pure _).assoc
  | groupBy => exact ((agrees_groupBy hturns hpos h _).bind_pure _).assoc
  | orderBy => exact ((agrees_orderBy hturns hpos h _).bind_pure _).assoc
  | page page =>
    cases page with
    | limit => exact ((agrees_paging hturns hpos h _ _).bind_pure _).assoc
    | offset => exact ((agrees_paging hturns hpos h _ _).bind_pure _).assoc

theorem meets_clauseTurn (hstart : start ≤ pos + 1) (table : Table) :
    Meets input pos depth (clauseTurn input calls table ⟨pos, depth⟩)
      (turnOutcome (Descent.clauseTurn (levelAt input.limit depth) table
        (input.tokens.drop pos))) := by
  rw [Descent.turnOutcome_clause, clauseTurn, look_bind hpos]
  have hdone : Meets input pos depth ((pure (.inr table) : Run (Table ⊕ Table)) ⟨pos, depth⟩)
      (.ok (.inr table, input.tokens.drop pos)) := .read _ pos (Nat.le_refl _) hpos
  cases hseen : lookahead 0 (input.tokens.drop pos) with
  | none => exact hdone
  | some t =>
    cases t with
    | symbol text => exact hdone
    | newline => exact hdone
    | word text =>
      simp only
      cases Clause.ofWord? text with
      | none => exact hdone
      | some clause =>
        simp only
        split
        · exact .refused _
        · refine (Meets.map ?_ Sum.inl).mono (Nat.le_succ _)
          exact agrees_addClause hcalls hturns hpos hstart hseen table clause

theorem agrees_clauses (hstart : start ≤ pos + 1) (table : Table) :
    Agrees input pos depth ⟨pos, depth⟩ (clauses input calls table)
      (Descent.loop (Descent.clauseTurn (levelAt input.limit depth)) table) := by
  refine agrees_loop (by omega) hpos (fun table pos₁ h₁ hpos₁ => ?_) table
  exact meets_clauseTurn hcalls hturns hpos₁ (by omega) table

omit hturns in
theorem meets_nest (hstart : start ≤ pos) (table : String) (prior : List Field) :
    Meets input (pos + 1) depth (nest calls table prior ⟨pos, depth⟩)
      (outcome (Descent.nest (levelAt input.limit depth) table prior
        (input.tokens.drop pos))) := by
  cases prior with
  | nil => exact .refused _
  | cons field prior =>
    cases field with
    | relation relation => exact .refused _
    | subQuery select label => exact .refused _
    | column column =>
      rw [Descent.nest, Descent.outcome_map]
      exact (hcalls.fields hstart hpos _).map _

theorem meets_fieldTurn (hstart : start ≤ pos) (table : Table) (prior : List Field) :
    Meets input pos depth (fieldTurn input calls table prior ⟨pos, depth⟩)
      (turnOutcome (Descent.fieldTurn (levelAt input.limit depth) table prior
        (input.tokens.drop pos))) := by
  rw [fieldTurn, run_bind]
  cases ht : input.tokens[pos]? with
  | none =>
    rw [advance_none ht, List.drop_eq_nil_of_le (List.getElem?_eq_none_iff.1 ht)]
    exact .refused _
  | some t =>
    obtain ⟨hdrop, hlt⟩ := drop_of_getElem? ht
    rw [advance_some ht, hdrop]
    have hnext : ∀ v : List Field ⊕ List Field, Meets input pos depth
        (.ok (v, ⟨pos + 1, depth⟩)) (.ok (v, input.tokens.drop (pos + 1))) :=
      fun v => .read v (pos + 1) (Nat.le_succ _) hlt
    cases t with
    | newline => exact hnext (.inl prior)
    | word text =>
      simp only [Descent.fieldTurn]
      split
      · have hrelabel : Agrees input (pos + 1 + 1) depth ⟨pos + 1, depth⟩ _ _ :=
          agrees_relabel hturns hlt table.name text prior
        rw [Descent.turnOutcome_more]
        exact (hrelabel.map Sum.inl).mono (by omega)
      · exact hnext (.inl _)
    | symbol text =>
      simp only [Descent.fieldTurn, Descent.symbolTurn]
      split
      · exact hnext (.inr prior)
      split
      · exact hnext (.inl prior)
      split
      · -- after the step back the block starts with the bracket
        rw [Descent.turnOutcome_more, ← hdrop]
        exact ((meets_nest hcalls hpos hstart table.name prior).map Sum.inl).mono (Nat.le_succ _)
      split
      · have hnested : Agrees input (pos + 1 + 1) depth ⟨pos + 1, depth⟩ _ _ :=
          agrees_nested hcalls hturns hlt (by omega) (.subQueryEnd table.name)
        have hsub := (hnested.bind_pure (Field.subQuery · {} :: prior)).map
          (Sum.inl : _ → _ ⊕ List Field)
        rw [run_bind_assoc] at hsub
        rw [Descent.turnOutcome_more, Descent.subQuery, levelAt_nested]
        exact hsub.mono (by omega)
      · exact .refused _

theorem agrees_fieldLoop (hstart : start ≤ pos) (table : Table) :
    Agrees input pos depth ⟨pos, depth⟩ (loop (fieldTurn input calls table) input.turns [])
      (Descent.loop (Descent.fieldTurn (levelAt input.limit depth) table) []) := by
  refine agrees_loop (by omega) hpos (fun prior pos₁ h₁ hpos₁ => ?_) []
  exact meets_fieldTurn hcalls hturns hpos₁ (by omega) table prior

theorem meets_fields (hstart : start ≤ pos + 1) (table : Table) :
    Meets input (pos + 1) depth (fields input calls table ⟨pos, depth⟩)
      (outcome (Descent.block input.limit (belowAt input.limit depth) table
        (input.tokens.drop pos))) := by
  rw [Descent.outcome_block]
  refine Agrees.enter ((agrees_take hturns hpos _ _).bind fun single pos₁ h₁ hpos₁ => ?_)
  refine (agrees_fieldLoop hcalls hturns hpos₁ (by omega) _).bind fun fields pos₂ h₂ hpos₂ => ?_
  exact (agrees_clauses hcalls hturns hpos₂ (by omega) _).thenLeave.mono (by omega)

theorem agrees_table (hstart : start ≤ pos + 1) :
    Agrees input (pos + 1) depth ⟨pos, depth⟩ (table input calls)
      (Descent.table (levelAt input.limit depth).fields) := by
  refine (agrees_takeWord hturns hpos _).bind fun name pos₁ h₁ hpos₁ => ?_
  refine (agrees_tableLabel hturns hpos₁ name).bind fun label pos₂ h₂ hpos₂ => ?_
  unfold Agrees
  rw [Descent.outcome_fields]
  exact (hcalls.fields (by omega) hpos₂ _).mono (by omega)

theorem agrees_select (hstart : start ≤ pos + 1) :
    Agrees input (pos + 1) depth ⟨pos, depth⟩ (select input calls)
      (levelAt input.limit depth).select := by
  rw [levelAt_select, Descent.select_eq]
  refine (agrees_take hturns hpos _ _).bind fun keyword pos₁ h₁ hpos₁ => ?_
  refine (agrees_distinctWord hturns hpos₁).bind fun distinct pos₂ h₂ hpos₂ => ?_
  exact ((agrees_table hcalls hturns hpos₂ (by omega)).bind_pure _).mono (by omega)

end

/-- As many calls within each other as tokens are left, and one more, are enough: each of them has
taken a token before the next. -/
theorem callsWithin_agree (hturns : input.tokens.length < input.turns) (n : Nat) :
    (callsWithin input n).AgreeFrom input (input.tokens.length + 1 - n) := by
  induction n with
  | zero => constructor <;> intros <;> omega
  | succ n ih =>
    constructor
    · intro pos depth hstart hpos
      exact agrees_select ih hturns hpos (by omega)
    · intro pos depth hstart hpos table
      rw [levelAt_eq]
      exact meets_fields ih hturns hpos (by omega) table
    · intro pos depth hstart hpos site
      rw [levelAt_eq]
      exact agrees_chain ih hturns hpos (by omega) site

/- Discipline. -/

/-- What a run may end with: not with a misstep, and with a value only at the depth, not before the
place `low` and not past the tokens. -/
def Keeps (input : Input) (low depth : Nat) : Except Stop (α × Cursor) → Prop
  | .error (.misstep _) => False
  | .error _ => True
  | .ok (_, c) => c.depth = depth ∧ low ≤ c.pos ∧ c.pos ≤ input.tokens.length

theorem Meets.keeps {low : Nat} {x : Except Stop (α × Cursor)}
    {y : Except ReadError (α × List Token)} (h : Meets input low depth x y) :
    Keeps input low depth x := by
  cases h with
  | refused e => trivial
  | read v pos hlow hend => exact ⟨rfl, hlow, hend⟩

/-- The parsers of the constructs of a query. -/
inductive Routine : Type → Type
  | select : Routine Select
  | table : Routine Table
  | fields (table : Table) : Routine Table
  | relabel (table text : String) (prior : List Field) : Routine (List Field)
  | nest (table : String) (prior : List Field) : Routine (List Field)
  | nested (ended : Expectation) : Routine Select
  | clauses (table : Table) : Routine Table
  | condition (filter : Filter) (table : String) : Routine Condition
  | chain (site : Site) : Routine Expr
  | primary (site : Site) : Routine Expr
  | comparison (site : Site) : Routine Expr
  | groupBy (table : String) : Routine GroupBy
  | orderBy (table : String) : Routine OrderBy
  | entry (table : String) : Routine OrderEntry
  | byKeyword (table : String) : Routine String
  | groupColumns (table : String) : Routine (List String)
  | entries (table : String) : Routine (List OrderEntry)
  | paging (page : Page) (table : String) : Routine Paging

def Routine.run (input : Input) (calls : Calls) : Routine α → Run α
  | .select => Cursor.select input calls
  | .table => Cursor.table input calls
  | .fields bare => Cursor.fields input calls bare
  | .relabel name text prior => Cursor.relabel input name text prior
  | .nest name prior => Cursor.nest calls name prior
  | .nested ended => Cursor.nested input calls ended
  | .clauses read => Cursor.clauses input calls read
  | .condition filter name => Cursor.condition input calls filter name
  | .chain site => Cursor.chain input calls site
  | .primary site => Cursor.primary input calls site
  | .comparison site => Cursor.comparison input calls site
  | .groupBy name => Cursor.groupBy input name
  | .orderBy name => Cursor.orderBy input name
  | .entry name => Cursor.entry input name
  | .byKeyword name => Cursor.byKeyword input name
  | .groupColumns name => Cursor.groupColumns input name
  | .entries name => Cursor.entries input name
  | .paging page name => Cursor.paging input page name

/-- How many tokens it takes at least. A table may have no clauses. -/
def Routine.least : Routine α → Nat
  | .clauses _ => 0
  | _ => 1

section

variable (hturns : input.tokens.length < input.turns) (hpos : pos ≤ input.tokens.length)
include hturns hpos

theorem seenWord_unseen
    (h : ∀ text, lookahead 0 (input.tokens.drop pos) ≠ some (.word text)) :
    seenWord input ⟨pos, depth⟩ = .error .unseen := by
  rw [seenWord, run_bind]
  rcases nextToken_cases depth hturns hpos with ⟨-, hrun⟩ | ⟨t, next, hskip, hrun, -, -⟩
  · rw [hrun]
    rfl
  · rw [hrun]
    cases t with
    | word text =>
      refine absurd ?_ (h text)
      rw [Descent.lookahead_zero, hskip, List.head?_cons]
    | symbol text => rfl
    | newline => rfl

theorem keeps_of_seen {low : Nat} {p : Run α} (hp : ∃ f, p = seenWord input >>= f)
    (h : ∀ text, lookahead 0 (input.tokens.drop pos) = some (.word text) →
      Keeps input low depth (p ⟨pos, depth⟩)) :
    Keeps input low depth (p ⟨pos, depth⟩) := by
  by_cases hword : ∃ text, lookahead 0 (input.tokens.drop pos) = some (.word text)
  · obtain ⟨text, hseen⟩ := hword
    exact h text hseen
  · obtain ⟨f, rfl⟩ := hp
    rw [run_bind, seenWord_unseen hturns hpos fun text hseen => hword ⟨text, hseen⟩]
    trivial

theorem Routine.keeps (r : Routine α) {n : Nat} (hn : input.tokens.length < pos + n) :
    Keeps input (pos + r.least) depth (r.run input (callsWithin input n) ⟨pos, depth⟩) := by
  have hcalls := callsWithin_agree hturns n
  have hstart : input.tokens.length + 1 - n ≤ pos := by omega
  have hnext : input.tokens.length + 1 - n ≤ pos + 1 := by omega
  cases r with
  | select => exact (agrees_select hcalls hturns hpos hnext).keeps
  | table => exact (agrees_table hcalls hturns hpos hnext).keeps
  | fields table => exact (meets_fields hcalls hturns hpos hnext table).keeps
  | relabel table text prior => exact (agrees_relabel hturns hpos table text prior).keeps
  | nest table prior => exact (meets_nest hcalls hpos hstart table prior).keeps
  | nested ended => exact (agrees_nested hcalls hturns hpos hstart ended).keeps
  | clauses table => exact (agrees_clauses hcalls hturns hpos hnext table).keeps
  | condition filter table =>
    refine keeps_of_seen hturns hpos ⟨_, rfl⟩ fun text hseen => ?_
    exact (agrees_condition hcalls hturns hpos hnext hseen filter table).keeps
  | chain site => exact (agrees_chain hcalls hturns hpos hnext site).keeps
  | primary site => exact (agrees_primary hcalls hturns hpos hnext site).keeps
  | comparison site => exact (agrees_comparison hcalls hturns hpos hnext site).keeps
  | groupBy table =>
    refine keeps_of_seen hturns hpos ⟨_, run_bind_assoc _ _ _⟩ fun text hseen => ?_
    exact (agrees_groupBy hturns hpos hseen table).keeps
  | orderBy table =>
    refine keeps_of_seen hturns hpos ⟨_, run_bind_assoc _ _ _⟩ fun text hseen => ?_
    exact (agrees_orderBy hturns hpos hseen table).keeps
  | entry table => exact (agrees_entry hturns hpos table).keeps
  | byKeyword table =>
    refine keeps_of_seen hturns hpos ⟨_, rfl⟩ fun text hseen => ?_
    exact (agrees_byKeyword hturns hpos hseen table).keeps
  | groupColumns table => exact (agrees_groupColumns hturns hpos table).keeps
  | entries table => exact (agrees_entries hturns hpos table).keeps
  | paging page table =>
    refine keeps_of_seen hturns hpos ⟨_, rfl⟩ fun text hseen => ?_
    exact (agrees_paging hturns hpos hseen page table).keeps

end

/-- The query that is read with the cursor is the one that is read by descent, and then the cursor
is at the end. -/
theorem parse_eq (hturns : input.tokens.length < input.turns) :
    parse input {} = ((Select.ofTokens input.limit input.tokens).map
      fun select => (select, ⟨input.tokens.length, 0⟩)).mapError .refused := by
  have hselect : Meets input 1 0 ((callsWithin input input.turns).select {})
      (outcome ((Descent.level input.limit input.limit).select input.tokens)) :=
    (callsWithin_agree hturns input.turns).select (by omega) (Nat.zero_le _)
  rw [← Descent.parse_eq, Descent.parse, parse, run_bind]
  generalize (callsWithin input input.turns).select {} = x,
    (Descent.level input.limit input.limit).select input.tokens = y at hselect
  cases y with
  | error e =>
    cases hselect with
    | refused e => rfl
  | ok r =>
    obtain ⟨select, rest, hrest⟩ := r
    cases hselect with
    | read select pos hlow hpos =>
      obtain ⟨next, hskip, hdrop, -, hend⟩ := skipNewlines_run 0 hturns hpos
      simp only [run_bind, hskip, ← hdrop, peek]
      cases ht : input.tokens[next]? with
      | none =>
        have hlast := List.getElem?_eq_none_iff.1 ht
        obtain rfl : next = input.tokens.length := by omega
        rw [List.drop_length]
        rfl
      | some t =>
        rw [(drop_of_getElem? ht).1]
        rfl

/-- For every list of tokens and every limit, the run with the cursor comes to the query or the
error that the tokens have, without a misstep, if loops and calls may have more turns than there are
tokens. Wherever in a run the parser of a construct is called, with enough calls left for the tokens
that are left, it makes no misstep, and if it succeeds it is back at its depth, further on and not
past the tokens. -/
theorem parse_disciplined (hturns : input.tokens.length < input.turns) :
    parse input {} = ((Select.ofTokens input.limit input.tokens).map
      fun select => (select, ⟨input.tokens.length, 0⟩)).mapError .refused ∧
    ∀ {α : Type} (r : Routine α) (n pos depth : Nat), pos ≤ input.tokens.length →
      input.tokens.length < pos + n →
      Keeps input (pos + r.least) depth (r.run input (callsWithin input n) ⟨pos, depth⟩) :=
  ⟨parse_eq hturns, fun r _ _ _ hpos hn => r.keeps hturns hpos hn⟩

def nestedBlocks : Input where
  tokens := [.word "select", .word "a", .symbol "[", .word "b", .symbol "[", .word "c", .symbol "]",
    .symbol "]"]
  limit := 2
  turns := 9

theorem parse_disciplined_nestedBlocks :
    nestedBlocks.tokens.length < nestedBlocks.turns ∧
    parse nestedBlocks {} = ((Select.ofTokens 2 nestedBlocks.tokens).map
      fun select => (select, ⟨8, 0⟩)).mapError .refused ∧
    Keeps nestedBlocks 5 1 ((Routine.nest "a" [.column ⟨"b", {}⟩]).run nestedBlocks
      (callsWithin nestedBlocks 5) ⟨4, 1⟩) := by
  have hturns : nestedBlocks.tokens.length < nestedBlocks.turns := by decide
  obtain ⟨hparse, hkeeps⟩ := parse_disciplined hturns
  exact ⟨hturns, hparse, hkeeps (.nest "a" [.column ⟨"b", {}⟩]) 5 4 1 (by decide) (by decide)⟩

end BracketQuery.Cursor
