import BracketQuery.Proofs.FollowClauses

/-! Line marks mean nothing: the descent, which meets them everywhere, reads what the reader reads,
which never sees them. -/
namespace BracketQuery.Descent
open Token

variable {limit depth : Nat} {ts : List Token}

/- Tables. -/

theorem follows_columnLabel (text : String) (column : Column) (block : Block) (ts : List Token) :
    Follows limit (((State.atColumnLabel text column block).place limit).read limit ts)
      (fun field => (State.inBlock (block.push field)).place limit)
      (columnLabel text column ts) :=
  follows_takeWord (fun _ => rfl) rfl fun _ _ => rfl

theorem follows_subQueryLabel (text : String) (select : Select) (block : Block)
    (ts : List Token) :
    Follows limit (((State.atSubQueryLabel text select block).place limit).read limit ts)
      (fun field => (State.inBlock (block.push field)).place limit)
      (subQueryLabel block.table.name text select ts) :=
  follows_takeWord (fun _ => rfl) rfl fun _ _ => rfl

theorem follows_relabel (block : Block) (text : String) (ts : List Token) :
    Follows limit (block.relabel text >>= fun st => (st.place limit).read limit ts)
      (fun fields => (State.inBlock { block with fields := fields }).place limit)
      (relabel block.table.name text block.fields ts) := by
  obtain ⟨table, fields, home⟩ := block
  rcases fields with _ | ⟨column | relation | select, rest⟩
  · rfl
  · exact (follows_columnLabel text column ⟨table, rest, home⟩ ts).bind fun _ _ => rfl
  · rfl
  · exact (follows_subQueryLabel text select ⟨table, rest, home⟩ ts).bind fun _ _ => rfl

section Tables

variable {inner : Level} (home : Home) (hinner : inner.Sound limit (home.depth + 1))
include hinner

theorem follows_addClause (table : Table) (text : String) (clause : Clause) (ts : List Token) :
    Follows limit (((Owner.begin ⟨table, home⟩ text clause).place limit).read limit ts)
      (fun table => (State.afterBlock ⟨table, home⟩).place limit)
      (addClause inner table text clause ts) := by
  cases clause with
  | filter filter =>
    have hfilter := follows_condition ⟨table, home⟩ hinner filter text ts
    cases filter <;> exact hfilter.bind fun _ _ => rfl
  | groupBy => exact (follows_groupBy ⟨table, home⟩ text ts).bind fun _ _ => rfl
  | orderBy => exact (follows_orderBy ⟨table, home⟩ text ts).bind fun _ _ => rfl
  | page page =>
    cases page <;> exact (follows_paging _ ⟨table, home⟩ text ts).bind fun _ _ => rfl

theorem followsTurn_clause (table : Table) (ts : List Token) :
    FollowsTurn limit (((State.afterBlock ⟨table, home⟩).place limit).read limit ts)
      (fun table => (State.afterBlock ⟨table, home⟩).place limit) (homePlace limit home)
      (clauseTurn inner table ts) := by
  unfold clauseTurn
  split
  · rename_i text ht
    cases hc : Clause.ofWord? text with
    | none =>
      refine Place.read_congr_next ht ?_
      simp [State.place, State.step, Owner.step, hc, homePlace]
    | some clause =>
      have hstep : ((State.afterBlock ⟨table, home⟩).place limit).step (.word text) =
          if hasClause table clause then .error (.repeatedClause clause table.name)
          else .ok (Owner.begin ⟨table, home⟩ text clause) := by
        simp only [State.place, State.step, Owner.step, hc]
        rcases clause with (_ | _) | _ | _ | (_ | _) <;> rfl
      simp only
      split
      · rename_i hhas
        show _ = _
        rw [Place.read_next ht, hstep, if_pos hhas]
        rfl
      · rename_i hhas
        refine followsTurn_past ht ?_
        rw [hstep, if_neg hhas]
        exact follows_addClause home hinner table text clause _
  · rename_i hword
    refine Place.read_congr (fun t ht => ?_) fun _ => rfl
    cases t with
    | word text => exact absurd ht (hword text)
    | _ => rfl

theorem follows_nest (table : Table) (prior : List Field) {t : Token} (ht : t ≠ .newline)
    (hstep : ((State.inBlock ⟨table, prior, home⟩).place limit).step t =
      Block.nest limit ⟨table, prior, home⟩ t) (ts : List Token) :
    Follows limit (((State.inBlock ⟨table, prior, home⟩).place limit).read limit (t :: ts))
      (fun fields => (State.inBlock ⟨table, fields, home⟩).place limit)
      (nest inner table.name prior (t :: ts)) := by
  rw [Place.read_cons ht, hstep]
  rcases prior with _ | ⟨column | relation | select, prior⟩
  · rfl
  · have hblock := hinner.block (.bare column.name column.label)
      (.relation ⟨table, prior, home⟩) rfl (t :: ts)
    rw [Place.read_cons ht] at hblock
    refine Follows.map (.relation · :: prior) ?_
    exact hblock
  · rfl
  · rfl

theorem follows_subQuery (table : Table) (prior : List Field) (ts : List Token) :
    Follows limit (deeper limit (home.depth + 1) (.ok (.atSelect (.field ⟨table, prior, home⟩))) >>=
        fun st => (st.place limit).read limit ts)
      (fun fields => (State.inBlock ⟨table, fields, home⟩).place limit)
      (subQuery inner table.name prior ts) :=
  (hinner.nested (.field ⟨table, prior, home⟩) _ _ rfl (fun _ _ => rfl) (fun _ => rfl) ts).bind
    fun _ _ => rfl

theorem followsTurn_symbol (table : Table) (prior : List Field) (text : String) (ts : List Token) :
    FollowsTurn limit
      (((State.inBlock ⟨table, prior, home⟩).place limit).read limit (.symbol text :: ts))
      (fun prior => (State.inBlock ⟨table, prior, home⟩).place limit)
      (fun fields =>
        (State.afterBlock ⟨{ table with fields := fields.reverse }, home⟩).place limit)
      (symbolTurn inner table prior text ts) := by
  have hstep : ((State.inBlock ⟨table, prior, home⟩).place limit).step (.symbol text) =
      if text = closeBracket table.single then
        .ok (.afterBlock ⟨{ table with fields := prior.reverse }, home⟩)
      else if text = "," then .ok (.inBlock ⟨table, prior, home⟩)
      else if text = "[" ∨ text = "\x7b" then Block.nest limit ⟨table, prior, home⟩ (.symbol text)
      else if text = "(" then
        deeper limit (home.depth + 1) (.ok (.atSelect (.field ⟨table, prior, home⟩)))
      else .error (.unexpected (.fields table.name) (.symbol text)) := by
    simp [State.place, State.step, Block.step, Token.isSymbol, Token.opensBlock, Block.closing,
      Block.owner, Block.depth]
  unfold symbolTurn
  split
  -- the tests come in the same order on both sides: each failed one leaves `hstep` a shorter `if`
  · rename_i hclose
    rw [Place.read_cons (by simp), hstep, if_pos hclose]
    rfl
  rename_i hclose
  rw [if_neg hclose] at hstep
  split
  · rename_i hcomma
    rw [Place.read_cons (by simp), hstep, if_pos hcomma]
    rfl
  rename_i hcomma
  rw [if_neg hcomma] at hstep
  split
  · rename_i hopen
    rw [if_pos hopen] at hstep
    exact (follows_nest home hinner table prior (by simp) hstep ts).more
  rename_i hopen
  rw [if_neg hopen] at hstep
  rw [Place.read_cons (by simp), hstep]
  split
  · exact (follows_subQuery home hinner table prior ts).more
  · rfl

theorem followsTurn_field (table : Table) (prior : List Field) (ts : List Token) :
    FollowsTurn limit (((State.inBlock ⟨table, prior, home⟩).place limit).read limit ts)
      (fun prior => (State.inBlock ⟨table, prior, home⟩).place limit)
      (fun fields =>
        (State.afterBlock ⟨{ table with fields := fields.reverse }, home⟩).place limit)
      (fieldTurn inner table prior ts) := by
  match ts with
  | [] => rfl
  | .newline :: ts => rfl
  | .symbol text :: ts => exact followsTurn_symbol home hinner table prior text ts
  | .word text :: ts =>
    rw [Place.read_cons (by simp)]
    simp only [fieldTurn]
    split
    · rename_i has
      have hstep : ((State.inBlock ⟨table, prior, home⟩).place limit).step (.word text) =
          Block.relabel ⟨table, prior, home⟩ text := by
        simp [State.place, State.step, Block.step, has]
      rw [hstep]
      exact (follows_relabel ⟨table, prior, home⟩ text ts).more
    · rename_i has
      have hstep : ((State.inBlock ⟨table, prior, home⟩).place limit).step (.word text) =
          .ok (.inBlock ⟨table, .column ⟨text, {}⟩ :: prior, home⟩) := by
        simp [State.place, State.step, Block.step, has, Block.push]
      rw [hstep]
      rfl

theorem follows_body (table : Table) (ts : List Token) :
    Follows limit (((State.inBlock ⟨table, [], home⟩).place limit).read limit ts)
      (homePlace limit home) (body inner table ts) :=
  (follows_loop (followsTurn_field home hinner table) [] ts).bind fun _ us =>
    follows_loop (followsTurn_clause home hinner) _ us

end Tables

theorem read_tooDeep (table : Table) (home : Home) (h : ¬ home.depth < limit) (ts : List Token) :
    ((State.atBlock table home).place limit).read limit ts = .error (.tooDeep limit) := by
  cases ht : lookahead 0 ts with
  | none =>
    rw [Place.read_end ht]
    simp [State.place, State.finish, lackBlock, h]
  | some t =>
    rw [Place.read_next ht]
    simp [State.place, State.step, openBlock, deeper, h]
    rfl

theorem follows_block {below : Option Level} (table : Table) (home : Home)
    (h : Below limit home.depth below) (ts : List Token) :
    Follows limit (((State.atBlock table home).place limit).read limit ts) (homePlace limit home)
      (block limit below table ts) := by
  cases below with
  | none => exact read_tooDeep table home h ts
  | some inner =>
    obtain ⟨hdepth, hinner⟩ := h
    unfold block
    simp only
    split
    · rename_i hnone
      show _ = _
      rw [Place.read_end hnone]
      simp [State.place, State.finish, lackBlock, hdepth]
    · rename_i t ht
      have hstep : ((State.atBlock table home).place limit).step t =
          if t.opensBlock then
            .ok (.inBlock ⟨{ table with single := t.isSymbol "\x7b" }, [], home⟩)
          else .error (.unexpected (.openBracket table.name) t) := by
        simp only [State.place, State.step, openBlock, deeper, if_pos hdepth]
        by_cases hmany : t = .symbol "["
        · subst hmany
          rfl
        · by_cases hone : t = .symbol "\x7b"
          · subst hone
            rfl
          · simp [Token.opensBlock, Token.isSymbol, hmany, hone]
      rw [Place.read_next ht, hstep]
      split
      · exact (follows_body home hinner _ _).mono _
      · rfl

/- Selects. -/

/-- Before the name of a table, once it is known whether `distinct` comes before it. -/
def namePlace (keyword : String) (outer : Outer) (distinct : Option String) : Place where
  step t := expectWord .tableName t fun name => .afterName name (.root ⟨keyword, distinct⟩ outer)
  finish := .error (.missing .tableName)

theorem atName_distinct (keyword : String) (outer : Outer) {text : String}
    (h : spells text "distinct" = true) :
    ((State.atName keyword outer).place limit).step (.word text) =
      .ok (.atDistinct keyword text outer) := by
  simp [State.place, State.step, stepName, expectWord, h]

/-- Before a bracket, `as` or the end, `distinct` names the table. -/
theorem read_distinctName (keyword : String) (outer : Outer) {text : String}
    (ht : lookahead 0 ts = some (.word text)) (htext : spells text "distinct" = true)
    (hu : ∀ u, lookahead 1 ts = some u → (u.opensBlock || u.isKeyword "as") = true) :
    ((State.atName keyword outer).place limit).read limit ts =
      (namePlace keyword outer none).read limit ts := by
  rw [Place.read_next ht, Place.read_next ht, atName_distinct keyword outer htext]
  refine Place.read_congr (fun u hahead => ?_) fun _ => rfl
  rw [lookahead_afterNext] at hahead
  show stepDistinct limit keyword text outer u = _
  rw [stepDistinct, if_pos (hu u hahead)]
  rfl

theorem follows_distinctWord (keyword : String) (outer : Outer) (ts : List Token) :
    Follows limit (((State.atName keyword outer).place limit).read limit ts)
      (namePlace keyword outer) (distinctWord ts) := by
  refine .of_look (.of_look ?_)
  cases hk : (lookahead 0 ts).bind (keyword? ["distinct"]) with
  | none =>
    refine Place.read_congr (fun t ht => ?_) fun _ => rfl
    cases t with
    | word text =>
      rw [ht] at hk
      have hspells := keyword?_eq_none hk "distinct" (by simp)
      simp [State.place, State.step, stepName, expectWord, hspells, namePlace]
    | _ => rfl
  | some text =>
    obtain ⟨ht, hany⟩ := keyword_ahead hk
    have hspells : spells text "distinct" = true := by simpa using hany
    cases hu : lookahead 1 ts with
    | none => exact read_distinctName keyword outer ht hspells fun u hu' => by simp [hu] at hu'
    | some u =>
      simp only
      split
      · rename_i hname
        refine read_distinctName keyword outer ht hspells fun u' hu' => ?_
        obtain rfl : u = u' := Option.some.inj (hu.symm.trans hu')
        exact hname
      · rename_i hname
        refine .of_pass ht ?_
        rw [atName_distinct keyword outer hspells]
        refine Place.read_congr_next ((lookahead_afterNext ts 0).trans hu) ?_
        show stepDistinct limit keyword text outer u = _
        rw [stepDistinct, if_neg hname]
        rfl

theorem follows_tableLabel (name : String) (home : Home) (ts : List Token) :
    Follows limit (((State.afterName name home).place limit).read limit ts)
      (fun label => (State.atBlock (.bare name label) home).place limit)
      (tableLabel name ts) := by
  refine follows_ifKeyword (fun text => .atTableLabel text name home) (fun text htext => ?_)
    (fun text us => ?_) (fun t _ ht => ?_) fun _ => rfl
  · have has : spells text "as" = true := by simpa using htext
    simp [State.place, State.step, stepAfterName, has]
  · exact follows_takeWord (fun _ => rfl) rfl fun _ _ => rfl
  · cases t with
    | word text =>
      have has := keyword?_eq_none ht "as" (by simp)
      simp [State.place, State.step, stepAfterName, has]
    | _ => rfl

theorem follows_select {block : Table → Parser Table} (outer : Outer)
    (hblock : ∀ (table : Table) (home : Home), home.depth = outer.depth → ∀ ts,
      Follows limit (((State.atBlock table home).place limit).read limit ts)
        (homePlace limit home) (block table ts)) (ts : List Token) :
    Follows limit (((State.atSelect outer).place limit).read limit ts) (outerPlace outer)
      (select block ts) := by
  refine follows_takeKeyword (fun _ => rfl) rfl fun keyword us => ?_
  refine (follows_distinctWord keyword outer us).bind fun distinct us => ?_
  refine follows_takeWord (fun _ => rfl) rfl fun name us => ?_
  refine (follows_tableLabel name (.root ⟨keyword, distinct⟩ outer) us).bind fun label us => ?_
  exact (hblock (.bare name label) (.root ⟨keyword, distinct⟩ outer) rfl us).bind fun _ _ => rfl

/- Levels. -/

theorem sound_above {below : Option Level} (h : Below limit depth below) :
    (above limit below).Sound limit depth where
  select outer houter ts :=
    follows_select outer (fun table home hhome us =>
      (follows_block table home (by rwa [hhome, houter]) us).mono (Nat.le_succ _)) ts
  nested outer ended st houter hclose hfinish ts :=
    follows_nestedSelect h outer ended st houter hclose hfinish ts
  block table home hhome ts := follows_block table home (by rwa [hhome]) ts
  chain slot hslot hplain ts hlack := follows_chain slot (by rwa [hslot]) hplain hlack

theorem sound_level {n : Nat} (h : depth + n = limit) : (level limit n).Sound limit depth := by
  -- on the levels that are left, which is how the parsers recurse
  induction n generalizing depth with
  | zero => exact sound_above (show ¬ depth < limit by omega)
  | succ n ih => exact sound_above ⟨by omega, ih (by omega)⟩

theorem parse_eq (limit : Nat) (ts : List Token) : parse limit ts = Select.ofTokens limit ts := by
  have hselect : Follows limit (Select.ofTokens limit ts) (outerPlace .top)
      ((level limit limit).select ts) := by
    have hstart : Select.ofTokens limit ts = (State.start.place limit).read limit ts :=
      State.read_significant limit State.start ts
    rw [hstart]
    exact (sound_level (Nat.zero_add limit)).select .top rfl ts
  unfold parse
  cases hr : (level limit limit).select ts with
  | error e =>
    rw [hr] at hselect
    exact hselect.symm
  | ok r =>
    rw [hr] at hselect
    have hread : Select.ofTokens limit ts = (outerPlace .top r.value).read limit r.rest := hselect
    rw [hread]
    rcases skipNewlines_cases r.rest with ⟨hs, hsig⟩ | ⟨t, rest, -, hs, hsig, -⟩
    · simp only [hs, Place.read, hsig]
      rfl
    · simp only [hs, Place.read, hsig]
      rfl

theorem ofTokens_significant (limit : Nat) (ts : List Token) :
    Select.ofTokens limit (significant ts) = Select.ofTokens limit ts := by
  simp only [Select.ofTokens, significant, List.filter_filter, Bool.and_self]

/-- Line marks make no difference, wherever they stand: without them the tokens form the same query,
or are refused for the same reason. That holds of the descent, which meets the marks, and the reader
that drops them before it starts agrees with the descent on all tokens. -/
theorem parse_without_lineMarks (limit : Nat) (ts : List Token) :
    parse limit (ts.filter (· != .newline)) = parse limit ts ∧
      parse limit ts = Select.ofTokens limit ts ∧
      Select.ofTokens limit (ts.filter (· != .newline)) = Select.ofTokens limit ts := by
  have hreader : Select.ofTokens limit (ts.filter (· != .newline)) = Select.ofTokens limit ts :=
    ofTokens_significant limit ts
  refine ⟨?_, parse_eq limit ts, hreader⟩
  rw [parse_eq, parse_eq, hreader]

end BracketQuery.Descent
