import BracketQuery.Proofs.Follow

/-! The reader follows the descent through the clauses of a table. -/
namespace BracketQuery.Descent
open Token

variable {limit depth : Nat} {α : Type} {ts : List Token}

theorem follows_byKeyword (listing : Listing) (owner : Owner) (text : String) (ts : List Token) :
    Follows limit (((State.atBy listing text owner).place limit).read limit ts)
      (fun keyword => (listing.begin keyword owner).place limit)
      (byKeyword owner.table.name text ts) :=
  follows_takeKeyword (fun _ => rfl) rfl fun _ _ => rfl

theorem follows_groupColumn (draft : GroupDraft)
    (hfirst : draft.columns = [] → ((lookahead 0 ts).bind word?).isSome = true) :
    Follows limit (((State.atGroupColumn draft).place limit).read limit ts)
      (fun column =>
        (State.afterGroupColumn { draft with columns := column :: draft.columns }).place limit)
      (takeWord (.groupColumn draft.owner.table.name) ts) := by
  obtain ⟨keyword, columns, owner⟩ := draft
  refine .of_pure (follows_take
    (fun text => .ok (.afterGroupColumn ⟨keyword, text :: columns, owner⟩)) (fun t ht => ?_)
    (fun ht => ?_) fun _ _ => rfl)
  · cases t with
    | word text => rfl
    | _ =>
      cases columns with
      | nil => simp [ht, word?] at hfirst
      | cons => rfl
  · cases columns with
    | nil => simp [ht] at hfirst
    | cons => rfl

theorem follows_groupColumns (keyword : String) (owner : Owner) (ts : List Token) :
    Follows limit (((State.atGroupColumn ⟨keyword, [], owner⟩).place limit).read limit ts)
      (fun columns => (State.afterBlock
        (owner.setGroupBy ⟨.ofWord keyword "group by", columns⟩)).place limit)
      (listOf .groupBy owner.table.name (takeWord (.groupColumn owner.table.name)) ts) := by
  refine follows_listOf (fun columns => .atGroupColumn ⟨keyword, columns, owner⟩)
    (fun columns => (State.afterGroupColumn ⟨keyword, columns, owner⟩).place limit)
    (fun t ht => ?_) rfl (fun columns us => follows_groupColumn ⟨keyword, columns, owner⟩)
    (fun _ => rfl) (fun columns t ht => ?_) (fun _ => rfl) ts
  · cases t with
    | word text => cases ht
    | _ => rfl
  · show stepAfterGroupColumn limit _ t = _
    rw [stepAfterGroupColumn, if_neg (by simp [ht])]
    rfl

theorem follows_groupBy (owner : Owner) (text : String) (ts : List Token) :
    Follows limit (((State.atBy .group text owner).place limit).read limit ts)
      (fun g => (State.afterBlock (owner.setGroupBy g)).place limit)
      (groupBy owner.table.name text ts) :=
  (follows_byKeyword .group owner text ts).bind fun keyword us =>
    (follows_groupColumns keyword owner us).bind fun _ _ => rfl

def orderPlace (limit : Nat) (draft : OrderDraft) : Place where
  step t := if t.isSymbol "," then .ok (.atOrderColumn draft) else draft.close.step limit t
  finish := draft.close.finish

theorem stepAfterOrderWord_ended (stage : Stage) (draft : EntryDraft) {t : Token}
    (h : ∀ text, t = .word text → modifier? stage draft text = none) :
    stepAfterOrderWord limit stage draft t = (orderPlace limit draft.close).step t := by
  cases t with
  | word text => simp [stepAfterOrderWord, h text rfl, orderPlace, Token.isSymbol]
  | symbol text => rfl
  | newline => rfl

def extend (draft : EntryDraft) (words : List String) : EntryDraft :=
  { draft with modifiers := words.reverse ++ draft.modifiers }

theorem follows_nulls (draft : EntryDraft) (ts : List Token) :
    Follows limit (((State.afterOrderWord .directed draft).place limit).read limit ts)
      (fun words => orderPlace limit (extend draft words).close) (nulls draft.column ts) := by
  refine follows_ifKeyword (fun text => .atNullsPlace (draft.push text))
    (fun text htext => ?_) (fun text us => ?_) (fun t _ ht => ?_) fun _ => rfl
  · have hnulls : spells text "nulls" = true := by simpa using htext
    simp [State.place, State.step, stepAfterOrderWord, modifier?, hnulls]
  · refine follows_takeKeyword (fun _ => rfl) rfl fun place us => ?_
    refine Place.read_congr (fun t _ => ?_) fun _ => rfl
    exact stepAfterOrderWord_ended .placed ((draft.push text).push place) fun _ _ => rfl
  · refine stepAfterOrderWord_ended _ draft fun text htext => ?_
    subst htext
    simp [modifier?, keyword?_eq_none ht "nulls" (by simp)]

theorem follows_direction (draft : EntryDraft) (ts : List Token) :
    Follows limit (((State.afterOrderWord .collated draft).place limit).read limit ts)
      (fun words => orderPlace limit (extend draft words).close) (direction draft.column ts) := by
  refine follows_ifKeyword (fun text => .afterOrderWord .directed (draft.push text))
    (fun text htext => ?_) (fun text us => ?_) (fun t _ ht => ?_) fun _ => rfl
  · have hword : (spells text "asc" || spells text "desc") = true := by simpa using htext
    simp only [State.place, State.step, stepAfterOrderWord, modifier?, hword, if_true]
  · refine (follows_nulls (draft.push text) us).bind fun words us => ?_
    show _ = (orderPlace limit (extend draft (text :: words)).close).read limit us
    simp [extend, EntryDraft.push]
  · refine stepAfterOrderWord_ended _ draft fun text htext => ?_
    subst htext
    have hnone := keyword?_eq_none ht
    simp [modifier?, hnone "asc" (by simp), hnone "desc" (by simp)]

theorem follows_collation (draft : EntryDraft) (ts : List Token) :
    Follows limit (((State.afterOrderWord .named draft).place limit).read limit ts)
      (fun words => (State.afterOrderWord .collated (extend draft words)).place limit)
      (collation draft.column ts) := by
  refine follows_ifKeyword (fun text => .atCollation (draft.push text))
    (fun text htext => ?_) (fun text us => ?_) (fun t _ ht => ?_) fun _ => rfl
  · have hcollate : spells text "collate" = true := by simpa using htext
    simp [State.place, State.step, stepAfterOrderWord, modifier?, hcollate]
  · exact follows_takeWord (fun _ => rfl) rfl fun _ _ => rfl
  · cases t with
    | word text =>
      have hnone := keyword?_eq_none ht "collate" (by simp)
      simp [State.place, State.step, stepAfterOrderWord, modifier?, hnone, extend]
    | _ => rfl

theorem follows_entry (draft : OrderDraft) (ts : List Token)
    (hfirst : draft.entries = [] → ((lookahead 0 ts).bind word?).isSome = true) :
    Follows limit (((State.atOrderColumn draft).place limit).read limit ts)
      (fun e => orderPlace limit { draft with entries := e :: draft.entries })
      (entry draft.owner.table.name ts) := by
  refine follows_take (fun text => .ok (.afterOrderWord .named ⟨text, [], draft⟩))
    (fun t ht => ?_) (fun ht => ?_) fun column us => ?_
  · cases t with
    | word text => rfl
    | _ =>
      cases hentries : draft.entries with
      | nil => simp [ht, word?, hentries] at hfirst
      | cons =>
        simp [State.place, State.step, stepOrderColumn, hentries, word?]
  · cases hentries : draft.entries with
    | nil => simp [ht, hentries] at hfirst
    | cons => simp [State.place, State.finish, hentries]
  · refine (follows_collation ⟨column, [], draft⟩ us).bind fun collation us => ?_
    refine (follows_direction _ us).bind fun direction us => ?_
    show _ = _
    simp [extend, EntryDraft.close, EntryDraft.modifierText, and_comm]

theorem follows_entries (keyword : String) (owner : Owner) (ts : List Token) :
    Follows limit (((State.atOrderColumn ⟨keyword, [], owner⟩).place limit).read limit ts)
      (fun entries => (State.afterBlock
        (owner.setOrderBy ⟨.ofWord keyword "order by", entries⟩)).place limit)
      (listOf .orderBy owner.table.name (entry owner.table.name) ts) := by
  refine follows_listOf (fun entries => .atOrderColumn ⟨keyword, entries, owner⟩)
    (fun entries => orderPlace limit ⟨keyword, entries, owner⟩) (fun t ht => ?_) rfl
    (fun entries us => follows_entry ⟨keyword, entries, owner⟩ us) (fun _ => rfl)
    (fun entries t ht => ?_) (fun _ => rfl) ts
  · cases t with
    | word text => cases ht
    | _ => rfl
  · simp [orderPlace, ht, State.place, State.step, OrderDraft.close]

theorem follows_orderBy (owner : Owner) (text : String) (ts : List Token) :
    Follows limit (((State.atBy .order text owner).place limit).read limit ts)
      (fun o => (State.afterBlock (owner.setOrderBy o)).place limit)
      (orderBy owner.table.name text ts) :=
  (follows_byKeyword .order owner text ts).bind fun keyword us =>
    (follows_entries keyword owner us).bind fun _ _ => rfl

theorem follows_paging (page : Page) (owner : Owner) (text : String) (ts : List Token) :
    Follows limit (((State.atPage page text owner).place limit).read limit ts)
      (fun p => (State.afterBlock (owner.setPage page p)).place limit)
      (paging page owner.table.name text ts) :=
  follows_takeWord (fun _ => rfl) rfl fun _ _ => rfl

/- What comes after a construct that has ended. -/

def outerPlace (outer : Outer) (select : Select) : Place :=
  ⟨outer.close select, outer.finish select⟩

def homePlace (limit : Nat) (home : Home) (table : Table) : Place :=
  ⟨Owner.close limit ⟨table, home⟩, Owner.finish ⟨table, home⟩⟩

def framePlace (limit : Nat) (frame : Frame) (expr : Expr) : Place :=
  ⟨(Slot.first frame).close limit expr, (Slot.first frame).finish expr⟩

/-- The parsers of a level are followed by the reader at that depth. -/
structure Level.Sound (limit depth : Nat) (level : Level) : Prop where
  select : ∀ outer : Outer, outer.depth = depth → ∀ ts,
    Follows limit (((State.atSelect outer).place limit).read limit ts) (outerPlace outer)
      (level.select ts)
  nested : ∀ (outer : Outer) (ended : Expectation) (st : Select → State),
    outer.depth = depth + 1 →
    (∀ s t, outer.close s t = expectSymbol ")" ended t (.ok (st s))) →
    (∀ s, outer.finish s = .error (.missing ended)) → ∀ ts,
    Follows limit (deeper limit depth (.ok (.atSelect outer)) >>=
      fun st => (st.place limit).read limit ts) (fun s => (st s).place limit)
      (level.nested ended ts)
  block : ∀ (table : Table) (home : Home), home.depth = depth → ∀ ts,
    Follows limit (((State.atBlock table home).place limit).read limit ts) (homePlace limit home)
      (level.block table ts)
  chain : ∀ slot : Slot, slot.depth = depth → slot.negation = none → ∀ ts,
    (lookahead 0 ts = none → slot.lack = .missing (.leftSide slot.site)) →
    Follows limit (((State.atCondition slot).place limit).read limit ts)
      (framePlace limit slot.frame) (level.chain slot.site slot.links ts)

/-- The level below one at some depth, which is there unless the limit is reached. -/
def Below (limit depth : Nat) : Option Level → Prop
  | some inner => depth < limit ∧ inner.Sound limit (depth + 1)
  | none => ¬ depth < limit

theorem follows_enter {below : Option Level} (h : Below limit depth below) {f : Level → Parser α}
    {reading : Reading} {k : State → Except ReadError Select} {next : α → Place}
    (hf : ∀ inner, inner.Sound limit (depth + 1) →
      Follows limit (reading >>= k) next (f inner ts)) :
    Follows limit (deeper limit depth reading >>= k) next ((enter limit below >>= f) ts) := by
  cases below with
  | none =>
    show _ = _
    rw [deeper, if_neg h]
    rfl
  | some inner =>
    rw [deeper, if_pos h.1]
    exact (hf inner h.2).mono _

theorem follows_nestedSelect {below : Option Level} (h : Below limit depth below) (outer : Outer)
    (ended : Expectation) (st : Select → State) (hdepth : outer.depth = depth + 1)
    (hclose : ∀ s t, outer.close s t = expectSymbol ")" ended t (.ok (st s)))
    (hfinish : ∀ s, outer.finish s = .error (.missing ended)) (ts : List Token) :
    Follows limit (deeper limit depth (.ok (.atSelect outer)) >>=
      fun st => (st.place limit).read limit ts) (fun s => (st s).place limit)
      (nestedSelect limit below ended ts) := by
  refine follows_enter h fun inner hinner => ?_
  refine (hinner.select outer hdepth ts).bind fun s us => ?_
  exact follows_takeSymbol (hclose s) (hfinish s) fun _ => rfl

/- Conditions. -/

/-- Before the operator of a comparison, once it is known whether a `not` negates it. -/
def operatorPlace (left : String) (negation : Option String) (slot : Slot) : Place where
  step
    | .word text =>
      match WordOperator.ofWord? text with
      | some .between => .ok (.atLow ⟨text, left, negation.isSome⟩ slot)
      | some .among => .ok (.atAmong text left negation.isSome slot)
      | some .like => .ok (.atRight left (negatedWord negation text) slot)
      | none => .error (.unexpected (.operator slot.site) (.word text))
    | .symbol text =>
      if isStructural text then .error (.unexpected (.operator slot.site) (.symbol text))
      else .ok (.atRight left text slot)
    | .newline => .error (.unexpected (.operator slot.site) .newline)
  finish := .error (.missing (.operator slot.site))

theorem ofWord?_of_not {text : String} (h : spells text "not" = true) :
    WordOperator.ofWord? text = none := by
  have hsame : spells text = spells "not" := by
    have hf : folded text.toList = folded "not".toList := by simpa [spells] using h
    funext k
    simp [spells, hf]
  rw [WordOperator.ofWord?, hsame]
  decide

theorem atOperator_not (left : String) (slot : Slot) {text : String}
    (h : spells text "not" = true) : ((State.atOperator left slot).place limit).step (.word text) =
      .ok (.atNegated left text slot) := by
  simp [State.place, State.step, stepOperator, h]

theorem read_plainOperator (left : String) (slot : Slot)
    (h : (lookahead 0 ts).bind (keyword? ["not"]) = none) :
    ((State.atOperator left slot).place limit).read limit ts =
      (operatorPlace left none slot).read limit ts := by
  refine Place.read_congr (fun t ht => ?_) fun _ => rfl
  cases t with
  | word text =>
    have hnot : spells text "not" = false := by
      rw [ht] at h
      exact keyword?_eq_none h "not" (by simp)
    simp only [State.place, State.step, stepOperator, hnot, operatorPlace]
    rfl
  | _ => rfl

/-- A `not` that negates no operator is out of place itself. -/
theorem read_strayNot (left : String) (slot : Slot) {text : String}
    (ht : lookahead 0 ts = some (.word text)) (hnot : spells text "not" = true)
    (hop : ∀ op, lookahead 1 ts = some (.word op) → WordOperator.ofWord? op = none) :
    ((State.atOperator left slot).place limit).read limit ts =
      (operatorPlace left none slot).read limit ts := by
  have hright : (operatorPlace left none slot).step (.word text) =
      .error (.unexpected (.operator slot.site) (.word text)) := by
    simp [operatorPlace, ofWord?_of_not hnot]
  rw [Place.read_next ht, Place.read_next ht, atOperator_not left slot hnot, hright]
  -- the reader takes the `not` and finds out one token later, but blames the `not` all the same
  show ((State.atNegated left text slot).place limit).read limit (afterNext ts) = _
  cases hu : lookahead 0 (afterNext ts) with
  | none => exact Place.read_end hu
  | some u =>
    rw [Place.read_next hu]
    rw [lookahead_afterNext] at hu
    have herror : ((State.atNegated left text slot).place limit).step u =
        .error (.unexpected (.operator slot.site) (.word text)) := by
      cases u with
      | word op => simp [State.place, State.step, stepNegated, hop op hu]
      | _ => rfl
    rw [herror]
    rfl

theorem read_negatedOperator (left text : String) (slot : Slot) {op : String}
    (hop : lookahead 0 ts = some (.word op)) (hw : (WordOperator.ofWord? op).isSome = true) :
    ((State.atNegated left text slot).place limit).read limit ts =
      (operatorPlace left (some text) slot).read limit ts := by
  refine Place.read_congr_next hop ?_
  show stepNegated left text slot (.word op) = _
  unfold stepNegated operatorPlace
  cases h : WordOperator.ofWord? op with
  | none => simp [h] at hw
  | some w => cases w <;> simp [h, negatedWord]

theorem follows_negation (left : String) (slot : Slot) (ts : List Token) :
    Follows limit (((State.atOperator left slot).place limit).read limit ts)
      (fun negation => operatorPlace left negation slot) (negation ts) := by
  refine .of_look (.of_look ?_)
  cases hk : (lookahead 0 ts).bind (keyword? ["not"]) with
  | none => exact read_plainOperator left slot hk
  | some text =>
    obtain ⟨ht, hspells⟩ := keyword_ahead hk
    have hnot : spells text "not" = true := by simpa using hspells
    cases hu : (lookahead 1 ts).bind word? with
    | none => exact read_strayNot left slot ht hnot fun op hop => by simp [hop, word?] at hu
    | some op =>
      have hu' := word_ahead hu
      simp only
      split
      · rename_i hop
        refine .of_pass ht ?_
        rw [atOperator_not left slot hnot]
        exact read_negatedOperator left text slot ((lookahead_afterNext ts 0).trans hu') hop
      · rename_i hop
        refine read_strayNot left slot ht hnot fun op' hop' => ?_
        rw [hu'] at hop'
        cases hop'
        simpa using hop

theorem follows_rightSide (left op : String) (slot : Slot) (ts : List Token) :
    Follows limit (((State.atRight left op slot).place limit).read limit ts)
      (fun e => (State.afterCondition (slot.fill e) slot).place limit)
      (rightSide slot.site left op ts) :=
  follows_takeWord (fun _ => rfl) rfl fun _ _ => rfl

theorem follows_symbolOperator (left : String) (negation : Option String) (slot : Slot)
    (hword : ∀ text, lookahead 0 ts = some (.word text) → WordOperator.ofWord? text = none) :
    Follows limit ((operatorPlace left negation slot).read limit ts)
      (fun e => (State.afterCondition (slot.fill e) slot).place limit)
      ((do rightSide slot.site left (← take (.operator slot.site) operator?)) ts) := by
  refine follows_take (fun op => .ok (.atRight left op slot)) (fun t ht => ?_)
    (fun _ => rfl) fun op us => follows_rightSide left op slot us
  cases t with
  | word text => simp [operatorPlace, hword text ht, operator?]
  | symbol text =>
    simp only [operatorPlace, operator?]
    split <;> rfl
  | newline => rfl

theorem follows_between (range : Range) (slot : Slot) (ts : List Token) :
    Follows limit (((State.atLow range slot).place limit).read limit ts)
      (fun e => (State.afterCondition (slot.fill e) slot).place limit)
      (between slot.site range ts) := by
  refine follows_takeWord (fun _ => rfl) rfl fun low us => ?_
  refine follows_takeKeyword (fun _ => rfl) rfl fun andKeyword us => ?_
  exact follows_takeWord (fun _ => rfl) rfl fun _ _ => rfl

theorem follows_among {below : Option Level} (text left : String) (negated : Bool) (slot : Slot)
    (h : Below limit slot.depth below) (ts : List Token) :
    Follows limit (((State.atAmong text left negated slot).place limit).read limit ts)
      (fun e => (State.afterCondition (slot.fill e) slot).place limit)
      (among (nestedSelect limit below) slot.site text left negated ts) := by
  refine follows_takeSymbol (fun _ => rfl) rfl fun us => ?_
  exact (follows_nestedSelect h (.among slot left negated text) _ _ rfl (fun _ _ => rfl)
    (fun _ => rfl) us).bind fun _ _ => rfl

/-- Before a condition of which the `not`, if it has one, has been read. -/
def operandPlace (limit : Nat) (slot : Slot) : Place where
  step
    | .word text => .ok (.atOperator text slot)
    | t =>
      if t.isSymbol "(" then deeper limit slot.depth (.ok (.atCondition (.first (.paren slot))))
      else .error (.unexpected (.leftSide slot.site) t)
  finish := .error (.missing (.leftSide slot.site))

theorem follows_comparison {below : Option Level} (slot : Slot)
    (h : Below limit slot.depth below) (hopen : lookahead 0 ts ≠ some (.symbol "(")) :
    Follows limit ((operandPlace limit slot).read limit ts)
      (fun e => (State.afterCondition (slot.fill e) slot).place limit)
      (comparison (nestedSelect limit below) slot.site ts) := by
  refine follows_take (fun left => .ok (.atOperator left slot)) (fun t ht => ?_)
    (fun _ => rfl) fun left us => ?_
  · cases t with
    | word text => rfl
    | symbol text =>
      have hne : text ≠ "(" := by
        rintro rfl
        exact hopen ht
      simp [operandPlace, Token.isSymbol, hne, word?]
    | newline => rfl
  · refine (follows_negation left slot us).bind fun negation us => .of_look ?_
    cases hw : (lookahead 0 us).bind word? with
    | none =>
      exact follows_symbolOperator left negation slot fun text ht => by simp [ht, word?] at hw
    | some text =>
      have ht := word_ahead hw
      simp only
      cases hop : WordOperator.ofWord? text with
      | none =>
        refine follows_symbolOperator left negation slot fun text' ht' => ?_
        rw [ht] at ht'
        cases ht'
        exact hop
      | some op =>
        cases op with
        | between =>
          refine .of_pass ht ?_
          simp only [operatorPlace, hop]
          exact follows_between ⟨text, left, negation.isSome⟩ slot _
        | among =>
          refine .of_pass ht ?_
          simp only [operatorPlace, hop]
          exact follows_among text left negation.isSome slot h _
        | like =>
          refine .of_pass ht ?_
          simp only [operatorPlace, hop]
          exact follows_rightSide left _ slot _

theorem follows_paren {below : Option Level} (slot : Slot) (h : Below limit slot.depth below)
    (ht : lookahead 0 ts = some (.symbol "(")) :
    Follows limit ((operandPlace limit slot).read limit ts)
      (fun e => (State.afterCondition (slot.fill e) slot).place limit)
      (paren limit below slot.site ts) := by
  rw [Place.read_next ht]
  refine follows_enter h fun inner hinner => .of_passed ?_
  refine (hinner.chain (.first (.paren slot)) rfl rfl _ fun _ => rfl).bind fun e us => ?_
  exact follows_takeSymbol (fun _ => rfl) rfl fun _ => rfl

theorem follows_operand {below : Option Level} (slot : Slot) (h : Below limit slot.depth below)
    (ts : List Token) :
    Follows limit ((operandPlace limit slot).read limit ts)
      (fun e => (State.afterCondition (slot.fill e) slot).place limit)
      (operand limit below slot.site ts) := by
  refine .of_look ?_
  split
  · rename_i hany
    obtain ⟨t, ht, hs⟩ := (Option.any_eq_true _ _).1 hany
    obtain rfl : t = .symbol "(" := by simpa [Token.isSymbol] using hs
    exact follows_paren slot h ht
  · rename_i hany
    refine follows_comparison slot h fun ht => hany ?_
    simp [ht, Token.isSymbol]

theorem follows_notWord (links : List (Expr × String)) (frame : Frame)
    (hlack : lookahead 0 ts = none →
      Slot.lack ⟨none, links, frame⟩ = .missing (.leftSide frame.site)) :
    Follows limit (((State.atCondition ⟨none, links, frame⟩).place limit).read limit ts)
      (fun word => operandPlace limit ⟨word, links, frame⟩) (notWord ts) := by
  refine follows_ifKeyword (fun text => .atCondition ⟨some text, links, frame⟩)
    (fun text htext => ?_) (fun text us => ?_) (fun t _ ht => ?_) fun hnone => ?_
  · have hnot : spells text "not" = true := by simpa using htext
    simp [State.place, State.step, stepCondition, hnot]
  · refine Place.read_congr (fun t _ => ?_) fun _ => rfl
    cases t <;> rfl
  · cases t with
    | word text =>
      have hnot := keyword?_eq_none ht "not" (by simp)
      simp [State.place, State.step, stepCondition, hnot, operandPlace]
    | _ => rfl
  · exact congrArg Except.error (hlack hnone)

theorem follows_primary {below : Option Level} (slot : Slot) (h : Below limit slot.depth below)
    (hplain : slot.negation = none)
    (hlack : lookahead 0 ts = none → slot.lack = .missing (.leftSide slot.site)) :
    Follows limit (((State.atCondition slot).place limit).read limit ts)
      (fun e => (State.afterCondition e slot).place limit) (primary limit below slot.site ts) := by
  obtain ⟨negation, links, frame⟩ := slot
  obtain rfl : negation = none := hplain
  refine (follows_notWord links frame hlack).bind fun word us => ?_
  cases word with
  | none => exact follows_operand ⟨none, links, frame⟩ h us
  | some text => exact (follows_operand ⟨some text, links, frame⟩ h us).bind fun _ _ => rfl

theorem read_chainEnd (last : Expr) (slot : Slot)
    (h : (lookahead 0 ts).bind (keyword? ["and", "or"]) = none) :
    ((State.afterCondition last slot).place limit).read limit ts =
      (framePlace limit slot.frame (linked slot.links last)).read limit ts := by
  obtain ⟨negation, links, frame⟩ := slot
  refine Place.read_congr (fun t ht => ?_) fun _ => ?_
  · rw [ht] at h
    have hclose : ((State.afterCondition last ⟨negation, links, frame⟩).place limit).step t =
        Slot.close limit ⟨negation, links, frame⟩ last t := by
      cases t with
      | word text =>
        have hspells := keyword?_eq_none h
        have hnone : Connective.ofWord? text = none := by
          simp [Connective.ofWord?, hspells "and" (by simp), hspells "or" (by simp)]
        simp [State.place, State.step, stepAfterCondition, hnone]
      | _ => rfl
    rw [hclose]
    cases frame <;> rfl
  · cases frame <;> rfl

theorem exists_connective {text : String} (h : ["and", "or"].any (spells text) = true) :
    ∃ c, Connective.ofWord? text = some c := by
  unfold Connective.ofWord?
  cases hand : spells text "and" with
  | true => exact ⟨_, rfl⟩
  | false =>
    have hor : spells text "or" = true := by simpa [hand] using h
    exact ⟨_, by rw [hor]; rfl⟩

theorem depth_link (slot : Slot) (left : Expr) (op : String) :
    (slot.link left op).depth = slot.depth + 1 := by
  cases slot
  rfl

theorem site_link (slot : Slot) (left : Expr) (op : String) :
    (slot.link left op).site = slot.site := by
  cases slot
  rfl

theorem follows_chain {below : Option Level} (slot : Slot) (h : Below limit slot.depth below)
    (hplain : slot.negation = none)
    (hlack : lookahead 0 ts = none → slot.lack = .missing (.leftSide slot.site)) :
    Follows limit (((State.atCondition slot).place limit).read limit ts)
      (framePlace limit slot.frame) (chain limit below slot.site slot.links ts) := by
  refine (follows_primary slot h hplain hlack).bind fun last us => .of_look ?_
  cases hk : (lookahead 0 us).bind (keyword? ["and", "or"]) with
  | some op =>
    obtain ⟨ht, hop⟩ := keyword_ahead hk
    obtain ⟨c, hc⟩ := exists_connective hop
    rw [Place.read_next ht]
    have hstep : ((State.afterCondition last slot).place limit).step (.word op) =
        deeper limit slot.depth (.ok (.atCondition (slot.link last op))) := by
      simp [State.place, State.step, stepAfterCondition, hc]
    rw [hstep]
    -- the rest of the chain is read one level deeper, and so is a slot with one more link
    refine follows_enter h fun inner hinner => .of_passed (.of_look ?_)
    split
    · rename_i hnone
      show ((State.atCondition (slot.link last op)).place limit).read limit (afterNext us) = _
      rw [Place.read_end (by simpa using hnone), ← site_link slot last op]
      rfl
    · rename_i hsome
      rw [← site_link slot last op]
      exact hinner.chain (slot.link last op) (depth_link slot last op) rfl _ fun hnone =>
        absurd hnone (by simpa using hsome)
  | none => exact read_chainEnd last slot hk

theorem follows_condition {inner : Level} (owner : Owner)
    (hinner : inner.Sound limit owner.depth) (filter : Filter) (text : String) (ts : List Token) :
    Follows limit
      (((State.atCondition (.first (.clause filter text owner))).place limit).read limit ts)
      (fun c => (State.afterBlock (owner.setFilter filter c)).place limit)
      (condition inner filter owner.table.name text ts) := by
  refine .of_look ?_
  split
  · rename_i hnone
    exact Place.read_end (by simpa using hnone)
  · rename_i hsome
    exact (hinner.chain (.first (.clause filter text owner)) rfl rfl ts fun hnone =>
      absurd hnone (by simpa using hsome)).bind fun _ _ => rfl

end BracketQuery.Descent
