import BracketQuery.Proofs.Unparse
import Mathlib.Data.List.Perm.Basic

/-! The order of clauses. The tokens after the outermost block are cut where a clause of its table
begins, and the pieces may be read in any order. -/
namespace BracketQuery

/- Where a clause of the outermost table begins. -/

def Home.isTop : Home → Bool
  | .root _ .top => true
  | _ => false

def Owner.begins (owner : Owner) (t : Token) : Option Clause :=
  if owner.home.isTop then t.clause? else none

/-- The table that is complete in this state, if the last clause does not go on. -/
def State.rest? : State → Option Owner
  | .afterBlock owner => some owner
  | .afterCondition expr ⟨negation, links, .clause filter keyword owner⟩ =>
    let slot : Slot := ⟨negation, links, .clause filter keyword owner⟩
    some (owner.setFilter filter ⟨.ofWord keyword filter.name, slot.chain expr⟩)
  | .afterGroupColumn draft => some draft.close
  | .afterOrderWord _ draft => some draft.close.close
  | _ => none

/-- The clause of the outermost table that the token begins. -/
def State.begins (st : State) (t : Token) : Option Clause := st.rest?.bind (·.begins t)

/-- The tokens, cut before each one that begins a clause of the outermost table. -/
def State.cut (limit : Nat) (st : State) : List Token → List Token × List (List Token)
  | [] => ([], [])
  | t :: ts =>
    match st.step limit t with
    | .error _ => (t :: ts, [])
    | .ok next =>
      let (front, clauses) := next.cut limit ts
      if (st.begins t).isSome then ([], (t :: front) :: clauses) else (t :: front, clauses)

/- Clauses of the outermost table that have begun. Until the table is known, there is none. -/
mutual

/-- The outermost table has the clause, or is reading it. For a select at the top that is `own`. -/
def Outer.started (k : Clause) (own : Bool) : Outer → Bool
  | .top => own
  | .field block => block.started k
  | .among slot _ _ _ => slot.started k

def Home.started (k : Clause) (own : Bool) : Home → Bool
  | .root _ outer => outer.started k own
  | .relation block => block.started k

def Block.started (k : Clause) : Block → Bool
  | ⟨table, _, home⟩ => home.started k ((Owner.mk table home).has k)

def Slot.started (k : Clause) : Slot → Bool
  | ⟨_, _, frame⟩ => frame.started k

def Frame.started (k : Clause) : Frame → Bool
  | .clause filter _ ⟨table, home⟩ =>
    home.started k ((Owner.mk table home).has k || k = .filter filter)
  | .paren slot => slot.started k

end

def Owner.started (owner : Owner) (k : Clause) : Bool := owner.home.started k (owner.has k)

def Owner.startedWith (owner : Owner) (extra k : Clause) : Bool :=
  owner.home.started k (owner.has k || k = extra)

def Listing.clause : Listing → Clause
  | .group => .groupBy
  | .order => .orderBy

def State.started (st : State) (k : Clause) : Bool :=
  match st with
  | .atSelect outer | .atName _ outer | .atDistinct _ _ outer => outer.started k false
  | .afterName _ home | .atTableLabel _ _ home => home.started k false
  | .atBlock table home => (Owner.mk table home).started k
  | .inBlock block | .atColumnLabel _ _ block | .atSubQueryLabel _ _ block => block.started k
  | .afterBlock owner => owner.started k
  | .atCondition slot | .atOperator _ slot | .atNegated _ _ slot | .atRight _ _ slot
  | .atLow _ slot | .atAnd _ _ slot | .atHigh _ _ _ slot | .atAmong _ _ _ slot
  | .afterCondition _ slot => slot.started k
  | .atBy listing _ owner => owner.startedWith listing.clause k
  | .atGroupColumn draft | .afterGroupColumn draft => draft.owner.startedWith .groupBy k
  | .atOrderColumn draft => draft.owner.startedWith .orderBy k
  | .afterOrderWord _ draft | .atCollation draft | .atNullsPlace draft =>
    draft.order.owner.startedWith .orderBy k
  | .atPage page _ owner => owner.startedWith (.page page) k

variable {limit : Nat} {t : Token} {st next : State}

/- A clause that is complete was begun before. -/

theorem Owner.started_setFilter (owner : Owner) (filter : Filter) (condition : Condition)
    (k : Clause) :
    (owner.setFilter filter condition).started k = owner.startedWith (.filter filter) k := by
  have hhas : (owner.setFilter filter condition).has k = (owner.has k || k = .filter filter) := by
    cases filter <;> rcases k with (_ | _) | _ | _ | (_ | _) <;> simp [setFilter, has]
  rw [started, hhas]
  cases filter <;> rfl

theorem Owner.started_setGroupBy (owner : Owner) (groupBy : GroupBy) (k : Clause) :
    (owner.setGroupBy groupBy).started k = owner.startedWith .groupBy k := by
  have hhas : (owner.setGroupBy groupBy).has k = (owner.has k || k = .groupBy) := by
    rcases k with (_ | _) | _ | _ | (_ | _) <;> simp [setGroupBy, has]
  rw [started, hhas]
  rfl

theorem Owner.started_setOrderBy (owner : Owner) (orderBy : OrderBy) (k : Clause) :
    (owner.setOrderBy orderBy).started k = owner.startedWith .orderBy k := by
  have hhas : (owner.setOrderBy orderBy).has k = (owner.has k || k = .orderBy) := by
    rcases k with (_ | _) | _ | _ | (_ | _) <;> simp [setOrderBy, has]
  rw [started, hhas]
  rfl

theorem Owner.started_setPage (owner : Owner) (page : Page) (paging : Paging) (k : Clause) :
    (owner.setPage page paging).started k = owner.startedWith (.page page) k := by
  have hhas : (owner.setPage page paging).has k = (owner.has k || k = .page page) := by
    cases page <;> rcases k with (_ | _) | _ | _ | (_ | _) <;> simp [setPage, has]
  rw [started, hhas]
  cases page <;> rfl

theorem Frame.started_clause (filter : Filter) (keyword : String) (owner : Owner) (k : Clause) :
    (Frame.clause filter keyword owner).started k = owner.startedWith (.filter filter) k := by
  cases owner
  rfl

theorem State.started_rest? {owner : Owner} (h : st.rest? = some owner) (k : Clause) :
    owner.started k = st.started k := by
  unfold rest? at h
  split at h
  · cases h
    rfl
  · rename_i filter keyword owner
    cases h
    have hframe := Frame.started_clause filter keyword owner k
    exact (owner.started_setFilter filter _ k).trans hframe.symm
  · cases h
    exact Owner.started_setGroupBy _ _ k
  · cases h
    exact Owner.started_setOrderBy _ _ k
  · cases h

/- One token. -/

theorem openBlock_started {table : Table} {home : Home}
    (h : openBlock limit table home t = .ok next) (k : Clause) :
    next.started k = (Owner.mk table home).started k := by
  have hopen := deeper_ok h
  split at hopen
  · cases hopen
    rcases k with (_ | _) | _ | _ | (_ | _) <;> rfl
  split at hopen
  · cases hopen
    rcases k with (_ | _) | _ | _ | (_ | _) <;> rfl
  · cases hopen

theorem Owner.has_bare (name : String) (label : Label) (home : Home) (k : Clause) :
    (Owner.mk (.bare name label) home).has k = false := by
  rcases k with (_ | _) | _ | _ | (_ | _) <;> rfl

theorem stepAfterName_started {name : String} {home : Home}
    (h : stepAfterName limit name home t = .ok next) (k : Clause) :
    next.started k = home.started k false := by
  have opened (hopen : openBlock limit (.bare name {}) home t = .ok next) :
      next.started k = home.started k false := by
    rw [openBlock_started hopen, Owner.started, Owner.has_bare]
  cases t with
  | word text =>
    simp only [stepAfterName] at h
    split at h
    · cases h
      rfl
    · exact opened h
  | symbol text => exact opened h
  | newline => exact opened h

theorem Block.started_push (block : Block) (field : Field) (k : Clause) :
    (block.push field).started k = block.started k := by
  cases block
  rfl

theorem Block.started_owner (block : Block) (k : Clause) :
    block.owner.started k = block.started k := by
  cases block
  rcases k with (_ | _) | _ | _ | (_ | _) <;> rfl

theorem Block.nest_started {block : Block} (h : block.nest limit t = .ok next) (k : Clause) :
    next.started k = block.started k := by
  cases block
  unfold Block.nest at h
  split at h
  · rw [openBlock_started h]
    rfl
  · cases h

theorem Block.step_started {block : Block} (h : block.step limit t = .ok next) (k : Clause) :
    next.started k = block.started k := by
  unfold Block.step at h
  split at h
  · split at h
    · cases block
      unfold Block.relabel at h
      split at h <;> cases h <;> rfl
    · cases h
      rw [State.started, Block.started_push]
  · split at h
    · cases h
      exact block.started_owner k
    split at h
    · cases h
      rfl
    split at h
    · exact Block.nest_started h k
    split at h
    · cases deeper_ok h
      rfl
    · cases h

theorem Outer.close_started {outer : Outer} {select : Select} (h : outer.close select t = .ok next)
    (k : Clause) (own : Bool) : next.started k = outer.started k own := by
  cases outer with
  | top => cases h
  | field block =>
    obtain ⟨-, hn⟩ := expectSymbol_ok h
    cases hn
    rw [State.started, Block.started_push, Outer.started]
  | among slot subject negated keyword =>
    obtain ⟨-, hn⟩ := expectSymbol_ok h
    cases hn
    rfl

theorem Owner.close_started {owner : Owner} (h : owner.close limit t = .ok next) (k : Clause) :
    next.started k = owner.started k := by
  obtain ⟨table, home⟩ := owner
  cases home with
  | root head outer => exact Outer.close_started h k _
  | relation block => exact (Block.step_started h k).trans (block.started_push _ k)

/-- The token adds the clause that it begins, if any, to those that have begun, and it was not one
of them. -/
def Advances (started : Clause → Bool) (begins : Option Clause) (next : State) : Prop :=
  ∀ k, next.started k = (started k || begins = some k) ∧ (begins = some k → started k = false)

theorem Advances.none {started : Clause → Bool} (h : ∀ k, next.started k = started k) :
    Advances started .none next := by
  intro k
  simp [h k]

theorem Home.started_of_not_isTop {home : Home} (h : home.isTop = false) (k : Clause)
    (own own' : Bool) : home.started k own = home.started k own' := by
  cases home with
  | relation block => rfl
  | root head outer =>
    cases outer with
    | top => cases h
    | field block => rfl
    | among slot subject negated keyword => rfl

theorem Owner.begin_started (owner : Owner) (word : String) (c k : Clause) :
    (owner.begin word c).started k = owner.startedWith c k := by
  cases c with
  | filter filter => exact Frame.started_clause filter word owner k
  | groupBy => rfl
  | orderBy => rfl
  | page page => rfl

theorem Owner.begin_advances {owner : Owner} {c : Clause} (h : owner.has c = false)
    {word : String} (hc : Clause.ofWord? word = some c) :
    Advances owner.started (owner.begins (.word word)) (owner.begin word c) := by
  obtain ⟨table, home⟩ := owner
  cases htop : home.isTop with
  | false =>
    rw [begins, htop]
    refine .none fun k => ?_
    rw [begin_started]
    exact Home.started_of_not_isTop htop k _ _
  | true =>
    have hhome : ∀ k own, home.started k own = own := by
      intro k own
      match home with
      | .root head .top => rfl
    intro k
    have hbegins : begins ⟨table, home⟩ (.word word) = some c := by
      rw [begins, htop]
      exact hc
    simp only [hbegins, begin_started, startedWith, started, hhome, Option.some.injEq]
    refine ⟨by simp [eq_comm], ?_⟩
    rintro rfl
    exact h

theorem Owner.step_advances {owner : Owner} (h : owner.step limit t = .ok next) :
    Advances owner.started (owner.begins t) next := by
  have closed (hc : t.clause? = none) (h : owner.close limit t = .ok next) :
      Advances owner.started (owner.begins t) next := by
    have hbegins : owner.begins t = none := by
      rw [begins, hc, ite_self]
    rw [hbegins]
    exact .none (Owner.close_started h)
  unfold Owner.step at h
  split at h
  · split at h
    · rename_i c hc
      split at h
      · cases h
      · rename_i hnew
        cases h
        exact Owner.begin_advances (by simpa using hnew) hc
    · exact closed ‹_› h
  · rename_i hword
    refine closed ?_ h
    cases t with
    | word text => exact absurd rfl (hword text)
    | symbol text => rfl
    | newline => rfl

theorem State.begins_eq_none (h : t.clause? = none) : st.begins t = none := by
  unfold begins
  cases st.rest? with
  | none => rfl
  | some owner => simp [Owner.begins, h]

theorem State.advances_of_rest? {owner : Owner} (hrest : st.rest? = some owner)
    (h : owner.step limit t = .ok next) : Advances st.started (st.begins t) next := by
  have hbegins : st.begins t = owner.begins t := by
    rw [begins, hrest]
    rfl
  have hstarted : st.started = owner.started := by
    funext k
    exact (started_rest? hrest k).symm
  rw [hbegins, hstarted]
  exact Owner.step_advances h

theorem Clause.ofWord?_eq_none {text word : String} (h : spells text word = true)
    (hw : word ∈ ["and", "or", "collate", "asc", "desc", "nulls"]) :
    Clause.ofWord? text = none := by
  have hall : ∀ w ∈ ["and", "or", "collate", "asc", "desc", "nulls"], Clause.ofWord? w = none := by
    decide
  rw [← hall word hw]
  simp only [Clause.ofWord?, spells_congr h]

theorem modifier?_started {stage : Stage} {draft : EntryDraft} {text : String}
    (h : modifier? stage draft text = some next) :
    (Token.word text).clause? = none ∧
      ∀ k, next.started k = draft.order.owner.startedWith .orderBy k := by
  have directed (hd : (spells text "asc" || spells text "desc") = true) :
      Clause.ofWord? text = none := by
    rcases Bool.or_eq_true_iff.1 hd with hd | hd
    · exact Clause.ofWord?_eq_none hd (by simp)
    · exact Clause.ofWord?_eq_none hd (by simp)
  unfold modifier? at h
  split at h
  · split at h
    · rename_i hcollate
      cases h
      exact ⟨Clause.ofWord?_eq_none hcollate (by simp), fun _ => rfl⟩
    split at h
    · cases h
      exact ⟨directed ‹_›, fun _ => rfl⟩
    · cases h
  · split at h
    · cases h
      exact ⟨directed ‹_›, fun _ => rfl⟩
    · cases h
  · split at h
    · rename_i hnulls
      cases h
      exact ⟨Clause.ofWord?_eq_none hnulls (by simp), fun _ => rfl⟩
    · cases h
  · cases h

theorem stepCondition_started {slot : Slot} (h : stepCondition limit slot t = .ok next)
    (k : Clause) : next.started k = slot.started k := by
  unfold stepCondition at h
  split at h
  · split at h
    · cases h
      cases slot
      rfl
    · cases h
      rfl
  · split at h
    · cases deeper_ok h
      rfl
    · cases h

theorem stepOperator_started {left : String} {slot : Slot}
    (h : stepOperator left slot t = .ok next) (k : Clause) : next.started k = slot.started k := by
  unfold stepOperator at h
  split at h
  · split at h
    · cases h
      rfl
    split at h <;> cases h <;> rfl
  · split at h <;> cases h
    rfl
  · cases h

theorem stepNegated_started {left negation : String} {slot : Slot}
    (h : stepNegated left negation slot t = .ok next) (k : Clause) :
    next.started k = slot.started k := by
  unfold stepNegated at h
  split at h
  · split at h <;> cases h <;> rfl
  · cases h

theorem stepAfterCondition_advances {expr : Expr} {slot : Slot}
    (h : stepAfterCondition limit expr slot t = .ok next) :
    Advances (State.afterCondition expr slot).started
      ((State.afterCondition expr slot).begins t) next := by
  obtain ⟨negation, links, frame⟩ := slot
  have closed (h : Slot.close limit ⟨negation, links, frame⟩ expr t = .ok next) :
      Advances (State.afterCondition expr ⟨negation, links, frame⟩).started
        ((State.afterCondition expr ⟨negation, links, frame⟩).begins t) next := by
    cases frame with
    | clause filter keyword owner => exact State.advances_of_rest? rfl h
    | paren outer =>
      obtain ⟨-, hn⟩ := expectSymbol_ok h
      cases hn
      exact .none fun _ => rfl
  unfold stepAfterCondition at h
  split at h
  · rename_i text
    split at h
    · rename_i op hop
      cases deeper_ok h
      have hclause : (Token.word text).clause? = none :=
        Clause.ofWord?_eq_none (Connective.ofWord?_spells hop) (by cases op <;> decide)
      rw [State.begins_eq_none hclause]
      exact .none fun _ => rfl
    · exact closed h
  · exact closed h

/-- One token begins one clause at most, and no clause twice. -/
theorem State.step_advances (h : st.step limit t = .ok next) :
    Advances st.started (st.begins t) next := by
  cases st with
  | atSelect outer =>
    obtain ⟨text, rfl, -, rfl⟩ := expectKeyword_ok h
    exact .none fun _ => rfl
  | atName keyword outer =>
    obtain ⟨text, rfl, rfl⟩ := expectWord_ok h
    refine .none fun k => ?_
    split <;> rfl
  | atDistinct keyword word outer =>
    refine .none fun k => ?_
    simp only [State.step, stepDistinct] at h
    split at h
    · exact stepAfterName_started h k
    · obtain ⟨text, rfl, rfl⟩ := expectWord_ok h
      rfl
  | afterName name home => exact .none (stepAfterName_started h)
  | atTableLabel keyword name home =>
    obtain ⟨text, rfl, rfl⟩ := expectWord_ok h
    refine .none fun k => ?_
    simp only [State.started, Owner.started, Owner.has_bare]
  | atBlock table home => exact .none (openBlock_started h)
  | inBlock block => exact .none (Block.step_started h)
  | atColumnLabel keyword column block =>
    obtain ⟨text, rfl, rfl⟩ := expectWord_ok h
    refine .none fun k => ?_
    rw [State.started, Block.started_push]
    rfl
  | atSubQueryLabel keyword select block =>
    obtain ⟨text, rfl, rfl⟩ := expectWord_ok h
    refine .none fun k => ?_
    rw [State.started, Block.started_push]
    rfl
  | afterBlock owner => exact advances_of_rest? rfl h
  | atCondition slot => exact .none (stepCondition_started h)
  | atOperator left slot => exact .none (stepOperator_started h)
  | atNegated left negation slot => exact .none (stepNegated_started h)
  | atRight left op slot =>
    obtain ⟨text, rfl, rfl⟩ := expectWord_ok h
    exact .none fun _ => rfl
  | atLow range slot =>
    obtain ⟨text, rfl, rfl⟩ := expectWord_ok h
    exact .none fun _ => rfl
  | atAnd range low slot =>
    obtain ⟨text, rfl, -, rfl⟩ := expectKeyword_ok h
    exact .none fun _ => rfl
  | atHigh range low andKeyword slot =>
    obtain ⟨text, rfl, rfl⟩ := expectWord_ok h
    exact .none fun _ => rfl
  | atAmong keyword subject negated slot =>
    obtain ⟨-, hn⟩ := expectSymbol_ok h
    cases deeper_ok hn
    exact .none fun _ => rfl
  | afterCondition expr slot => exact stepAfterCondition_advances h
  | atBy listing word owner =>
    obtain ⟨text, rfl, -, rfl⟩ := expectKeyword_ok h
    exact .none fun _ => by cases listing <;> rfl
  | atGroupColumn draft =>
    simp only [State.step, stepGroupColumn] at h
    split at h
    · cases h
      exact .none fun _ => rfl
    · split at h <;> cases h
  | afterGroupColumn draft =>
    simp only [State.step, stepAfterGroupColumn] at h
    split at h
    · rename_i hcomma
      obtain rfl := Token.eq_symbol hcomma
      cases h
      rw [begins_eq_none rfl]
      exact .none fun _ => rfl
    · exact advances_of_rest? rfl h
  | atOrderColumn draft =>
    simp only [State.step, stepOrderColumn] at h
    split at h
    · cases h
      exact .none fun _ => rfl
    · split at h <;> cases h
  | afterOrderWord stage draft =>
    simp only [State.step, stepAfterOrderWord] at h
    split at h
    · split at h
      · rename_i hm
        cases h
        rw [begins_eq_none (modifier?_started hm).1]
        exact .none (modifier?_started hm).2
      · exact advances_of_rest? rfl h
    · split at h
      · rename_i hcomma
        obtain rfl := Token.eq_symbol hcomma
        cases h
        rw [begins_eq_none rfl]
        exact .none fun _ => rfl
      · exact advances_of_rest? rfl h
  | atCollation draft =>
    obtain ⟨text, rfl, rfl⟩ := expectWord_ok h
    exact .none fun _ => rfl
  | atNullsPlace draft =>
    obtain ⟨text, rfl, -, rfl⟩ := expectKeyword_ok h
    exact .none fun _ => rfl
  | atPage page keyword owner =>
    obtain ⟨text, rfl, rfl⟩ := expectWord_ok h
    exact .none fun k => owner.started_setPage page _ k

/- Many tokens. -/

theorem State.run_started {ts : List Token} {last : State} {k : Clause}
    (h : st.run limit ts = .ok last) (hk : st.started k = true) :
    last.started k = true := by
  induction ts generalizing st with
  | nil =>
    cases h
    exact hk
  | cons t ts ih =>
    obtain ⟨next, hs, h⟩ := run_cons_ok h
    refine ih h ?_
    rw [(step_advances hs k).1, hk, Bool.true_or]

theorem State.cut_of_started {ts : List Token} {last : State} (h : st.run limit ts = .ok last)
    (hk : ∀ k, last.started k = true → st.started k = true) : st.cut limit ts = (ts, []) := by
  induction ts generalizing st with
  | nil => rfl
  | cons t ts ih =>
    obtain ⟨next, hs, h⟩ := run_cons_ok h
    cases hbegins : st.begins t with
    | some c =>
      have hadvances := step_advances hs c
      rw [hbegins] at hadvances
      have hnext : next.started c = true := by simp [hadvances.1]
      have hold := hk c (run_started h hnext)
      rw [hadvances.2 rfl] at hold
      cases hold
    | none =>
      have hstarted (k : Clause) : next.started k = st.started k := by
        simp [(step_advances hs k).1, hbegins]
      have hrest := ih h fun k => by
        rw [hstarted]
        exact hk k
      simp [cut, hs, hbegins, hrest]

theorem State.cut_append {ts us : List Token} {mid : State} (h : st.run limit ts = .ok mid)
    (hcut : st.cut limit ts = (ts, [])) :
    st.cut limit (ts ++ us) = (ts ++ (mid.cut limit us).1, (mid.cut limit us).2) := by
  induction ts generalizing st with
  | nil =>
    cases h
    rfl
  | cons t ts ih =>
    obtain ⟨next, hs, h⟩ := run_cons_ok h
    cases hbegins : st.begins t with
    | some c => simp [cut, hs, hbegins] at hcut
    | none =>
      have hnext : next.cut limit ts = (ts, []) := by
        simpa [cut, hs, hbegins, Prod.ext_iff] using hcut
      simp [cut, hs, hbegins, ih h hnext]

theorem State.finish_rest? {s : Select} (h : st.finish limit = .ok s) :
    ∃ head table, st.rest? = some ⟨table, .root head .top⟩ ∧ head.select table = s := by
  have owned {owner : Owner} (hrest : st.rest? = some owner) (h : owner.finish = .ok s) :
      ∃ head table, st.rest? = some ⟨table, .root head .top⟩ ∧ head.select table = s := by
    obtain ⟨table, home⟩ := owner
    match home with
    | .relation block => cases h
    | .root head (.field block) => cases h
    | .root head (.among slot subject negated keyword) => cases h
    | .root head .top =>
      cases h
      exact ⟨head, table, hrest, rfl⟩
  cases st with
  | afterBlock owner => exact owned rfl h
  | afterCondition expr slot =>
    obtain ⟨negation, links, frame⟩ := slot
    cases frame with
    | clause filter keyword owner => exact owned rfl h
    | paren outer => cases h
  | afterGroupColumn draft => exact owned rfl h
  | afterOrderWord stage draft => exact owned rfl h
  | atGroupColumn draft =>
    simp only [finish] at h
    split at h <;> cases h
  | atOrderColumn draft =>
    simp only [finish] at h
    split at h <;> cases h
  | _ => cases h

/- Phrases with other clauses. -/

namespace SelectPhrase

def withClauses (q : SelectPhrase) (cs : List ClausePhrase) : SelectPhrase :=
  { q with body := { q.body with clauses := cs } }

def blockTokens (q : SelectPhrase) : List Token := (q.withClauses []).tokens

theorem tokens_withClauses (q : SelectPhrase) (cs : List ClausePhrase) :
    (q.withClauses cs).tokens = q.blockTokens ++ cs.flatMap ClausePhrase.tokens := by
  obtain ⟨keyword, distinct, name, label, body⟩ := q
  obtain ⟨single, n, fields, clauses⟩ := body
  simp [blockTokens, withClauses, tokens, BodyPhrase.tokens, clausesTokens_eq]

theorem withClauses_self (q : SelectPhrase) : q.withClauses q.body.clauses = q := by
  obtain ⟨keyword, distinct, name, label, body⟩ := q
  cases body
  rfl

theorem valid_withClauses {once : Bool} {q : SelectPhrase} (h : q.Valid once)
    {cs : List ClausePhrase} (hcs : ∀ c ∈ cs, c.Valid once)
    (hn : (cs.map ClausePhrase.kind).Nodup) :
    (q.withClauses cs).Valid once := by
  obtain ⟨keyword, distinct, name, label, body⟩ := q
  obtain ⟨single, n, fields, clauses⟩ := body
  exact ⟨h.1, h.2.1, h.2.2.1, (ClausesValid_iff cs).2 hcs, hn⟩

theorem exists_last {once : Bool} {q : SelectPhrase} (h : q.Valid once)
    (hn : q.select.nest ≤ limit) :
    ∃ last, State.start.run limit q.tokens = .ok last ∧ last.finish limit = .ok q.select := by
  have hread : Select.ofTokens limit q.tokens = .ok q.select := by
    rw [ofTokens_eq h q.significant_tokens, if_pos hn]
  obtain ⟨last, hrun, hfinish⟩ := ofTokens_eq_ok hread
  rw [q.significant_tokens] at hrun
  exact ⟨last, hrun, hfinish⟩

theorem started_last {q : SelectPhrase} {last : State} (h : last.finish limit = .ok q.select)
    (k : Clause) : last.started k = true ↔ k ∈ q.body.clauses.map ClausePhrase.kind := by
  obtain ⟨head, table, hrest, hselect⟩ := State.finish_rest? h
  have htable : table = q.select.table := congrArg Select.table hselect
  obtain ⟨keyword, distinct, name, label, body⟩ := q
  rw [← State.started_rest? hrest, htable]
  exact body.has_iff name _ (.root head .top) k

theorem nest_withClauses (q : SelectPhrase) (cs ds : List ClausePhrase) :
    (q.withClauses cs).select.nest ≤ (q.withClauses (cs ++ ds)).select.nest := by
  have hfilter (f : Filter) :
      filterNest (conditionOf f cs) ≤ filterNest (conditionOf f (cs ++ ds)) := by
    rw [conditionOf_eq, conditionOf_eq, List.findSome?_append]
    cases cs.findSome? (ClausePhrase.condition? f) with
    | none => exact Nat.zero_le _
    | some c => exact Nat.le_refl _
  obtain ⟨keyword, distinct, name, label, body⟩ := q
  have hrows := hfilter .rows
  have hgroups := hfilter .groups
  simp only [withClauses, select, BodyPhrase.table, Select.nest, Table.nest]
  omega

end SelectPhrase

theorem ClausePhrase.tokens_eq_cons (c : ClausePhrase) :
    ∃ text ts, c.tokens = .word text :: ts ∧ Clause.ofWord? text = some c.kind := by
  cases c with
  | filter f keyword chain => exact ⟨_, _, rfl, Clause.ofWord?_eq (c := .filter f) keyword.spelled⟩
  | groupBy keyword front last =>
    exact ⟨_, _, rfl, Clause.ofWord?_eq (c := .groupBy) keyword.first.spelled⟩
  | orderBy keyword front last =>
    exact ⟨_, _, rfl, Clause.ofWord?_eq (c := .orderBy) keyword.first.spelled⟩
  | page p keyword value => exact ⟨_, _, rfl, Clause.ofWord?_eq (c := .page p) keyword.spelled⟩

namespace SelectPhrase

theorem clauses_valid {once : Bool} {q : SelectPhrase} (h : q.Valid once) :
    (∀ c ∈ q.body.clauses, c.Valid once) ∧ (q.body.clauses.map ClausePhrase.kind).Nodup := by
  obtain ⟨keyword, distinct, name, label, body⟩ := q
  cases body
  exact ⟨(ClausesValid_iff _).1 h.2.2.2.1, h.2.2.2.2⟩

theorem exists_mid {once : Bool} {q : SelectPhrase} (h : q.Valid once) (hn : q.select.nest ≤ limit)
    {done todo : List ClausePhrase} (hclauses : q.body.clauses = done ++ todo) :
    ∃ mid, State.start.run limit (q.withClauses done).tokens = .ok mid ∧
      mid.finish limit = .ok (q.withClauses done).select := by
  obtain ⟨hvalid, hnodup⟩ := clauses_valid h
  rw [hclauses] at hvalid hnodup
  have hdone : (q.withClauses done).Valid once := by
    refine valid_withClauses h (fun c hc => hvalid c (by simp [hc])) ?_
    rw [List.map_append] at hnodup
    exact (List.nodup_append.1 hnodup).1
  refine exists_last hdone (Nat.le_trans (nest_withClauses q done todo) ?_)
  rw [← hclauses, withClauses_self]
  exact hn

theorem cut_clauses {once : Bool} {q : SelectPhrase} (h : q.Valid once)
    (hn : q.select.nest ≤ limit) {done todo : List ClausePhrase}
    (hclauses : q.body.clauses = done ++ todo) {mid : State}
    (hmid : State.start.run limit (q.withClauses done).tokens = .ok mid)
    (hfinish : mid.finish limit = .ok (q.withClauses done).select) :
    mid.cut limit (todo.flatMap ClausePhrase.tokens) = ([], todo.map ClausePhrase.tokens) := by
  induction todo generalizing done mid with
  | nil => rfl
  | cons c todo ih =>
    have hnext : q.body.clauses = (done ++ [c]) ++ todo := by simp [hclauses]
    obtain ⟨last, hlast, hlastFinish⟩ := exists_mid h hn hnext
    have hcut := ih hnext hlast hlastFinish
    obtain ⟨text, us, htokens, hword⟩ := c.tokens_eq_cons
    -- the first token of the clause begins it
    have hbegins : mid.begins (.word text) = some c.kind := by
      obtain ⟨head, table, hrest, -⟩ := State.finish_rest? hfinish
      rw [State.begins, hrest]
      exact hword
    have hrun : mid.run limit (.word text :: us) = .ok last := by
      rw [← htokens]
      rw [tokens_withClauses, List.flatMap_append, List.flatMap_singleton, ← List.append_assoc,
        ← tokens_withClauses, State.run_append, hmid] at hlast
      exact hlast
    obtain ⟨next, hs, hrun⟩ := State.run_cons_ok hrun
    -- and no other token of it begins one
    have hquiet : next.cut limit us = (us, []) := by
      refine State.cut_of_started hrun fun k hk => ?_
      have hkind : k ∈ done.map ClausePhrase.kind ∨ k = c.kind := by
        simpa [withClauses] using (started_last hlastFinish k).1 hk
      have hstarted : next.started k = (mid.started k || some c.kind = some k) := by
        rw [(State.step_advances hs k).1, hbegins]
      rcases hkind with hdone | rfl
      · rw [hstarted, (started_last hfinish k).2 hdone, Bool.true_or]
      · simp [hstarted]
    rw [List.flatMap_cons, htokens, List.cons_append, State.cut, hs]
    simp [hbegins, State.cut_append hrun hquiet, hcut, htokens]

/-- The cut finds the clauses of a phrase. -/
theorem cut_tokens {once : Bool} {q : SelectPhrase} (h : q.Valid once)
    (hn : q.select.nest ≤ limit) :
    State.start.cut limit q.tokens = (q.blockTokens, q.body.clauses.map ClausePhrase.tokens) := by
  have hclauses : q.body.clauses = [] ++ q.body.clauses := rfl
  obtain ⟨mid, hmid, hfinish⟩ := exists_mid h hn hclauses
  have hcut := cut_clauses h hn hclauses hmid hfinish
  have hquiet :
      State.start.cut limit (q.withClauses []).tokens = ((q.withClauses []).tokens, []) := by
    refine State.cut_of_started hmid fun k hk => ?_
    have hnone := (started_last hfinish k).1 hk
    cases hnone
  conv_lhs => rw [← q.withClauses_self, tokens_withClauses, blockTokens]
  rw [State.cut_append hmid hquiet, hcut, List.append_nil, blockTokens]

end SelectPhrase

/- Another order. -/

section

variable {cs cs' : List ClausePhrase}

theorem findSome?_perm {β : Type} {g : ClausePhrase → Option β} {k : Clause}
    (hg : ∀ c, (g c).isSome = true ↔ c.kind = k) (h : cs'.Perm cs)
    (hn : (cs.map ClausePhrase.kind).Nodup) : cs'.findSome? g = cs.findSome? g := by
  induction h with
  | nil => rfl
  | cons c _ ih =>
    rw [List.findSome?_cons, List.findSome?_cons, ih (List.nodup_cons.1 hn).2]
  | swap c d cs =>
    have hne : d.kind ≠ c.kind := by
      have hd := (List.nodup_cons.1 hn).1
      simp only [List.map_cons, List.mem_cons, not_or] at hd
      exact fun he => hd.1 he.symm
    rw [List.findSome?_cons, List.findSome?_cons, List.findSome?_cons, List.findSome?_cons]
    cases hc : g c with
    | none => rfl
    | some b =>
      cases hd : g d with
      | none => rfl
      | some b' => exact absurd (((hg d).1 (by simp [hd])).trans ((hg c).1 (by simp [hc])).symm) hne
  | trans hfirst hsecond ih ih' =>
    exact (ih ((hsecond.map ClausePhrase.kind).nodup_iff.2 hn)).trans (ih' hn)

theorem SelectPhrase.select_withClauses (q : SelectPhrase) (h : cs'.Perm cs)
    (hn : (cs.map ClausePhrase.kind).Nodup) :
    (q.withClauses cs').select = (q.withClauses cs).select := by
  obtain ⟨keyword, distinct, name, label, body⟩ := q
  simp only [withClauses, select, BodyPhrase.table, conditionOf_eq,
    findSome?_perm (ClausePhrase.condition?_isSome _) h hn,
    findSome?_perm ClausePhrase.groupBy?_isSome h hn,
    findSome?_perm ClausePhrase.orderBy?_isSome h hn,
    findSome?_perm (ClausePhrase.page?_isSome _) h hn]

theorem exists_perm_of_perm_map {α β : Type} {f : α → β} {as : List α} {bs : List β}
    (h : bs.Perm (as.map f)) : ∃ as' : List α, as'.Perm as ∧ bs = as'.map f := by
  have hcomp := congrFun (congrFun (List.eq_map_comp_perm f) bs) as
  obtain ⟨as', hmap, hperm⟩ := hcomp.mpr h
  exact ⟨as', hperm, hmap⟩

theorem SelectPhrase.ofTokens_withClauses {once : Bool} {q : SelectPhrase} (h : q.Valid once)
    (hn : q.select.nest ≤ limit) (hp : cs.Perm q.body.clauses) {ts : List Token}
    (hts : Token.significant ts = (q.withClauses cs).tokens) :
    Select.ofTokens limit ts = .ok q.select := by
  obtain ⟨hvalid, hnodup⟩ := clauses_valid h
  have hselect : (q.withClauses cs).select = q.select := by
    rw [q.select_withClauses hp hnodup, withClauses_self]
  have hcs : (q.withClauses cs).Valid once :=
    valid_withClauses h (fun c hc => hvalid c (hp.mem_iff.1 hc))
      ((hp.map ClausePhrase.kind).nodup_iff.2 hnodup)
  rw [ofTokens_eq hcs hts, hselect, if_pos hn]

end

/-- The tokens in pieces: what comes before the clauses of the outermost table, these clauses one by
one, and line marks. -/
structure ClauseCut (limit : Nat) (ts head : List Token) (cs : List (List Token))
    (rest : List Token) : Prop where
  tokens : ts = head ++ cs.flatten ++ rest
  marks : Token.significant rest = []
  cut : State.start.cut limit (Token.significant ts) =
    (Token.significant head, cs.map Token.significant)

/-- Line marks may stand anywhere, and they go with some piece. -/
theorem exists_pieces {ts : List Token} {parts : List (List Token)}
    (h : Token.significant ts = parts.flatten) :
    ∃ (cs : List (List Token)) (rest : List Token), ts = cs.flatten ++ rest ∧
      cs.map Token.significant = parts ∧ Token.significant rest = [] := by
  induction parts generalizing ts with
  | nil => exact ⟨[], ts, rfl, rfl, h⟩
  | cons part parts ih =>
    obtain ⟨us, vs, rfl, hus, hvs⟩ := List.filter_eq_append_iff.1 h
    obtain ⟨cs, rest, rfl, hcs, hrest⟩ := ih hvs
    exact ⟨us :: cs, rest, by simp, congrArg₂ List.cons hus hcs, hrest⟩

def Table.clauseCount (t : Table) : Nat :=
  [t.rowFilter.isSome, t.groupFilter.isSome, t.groupBy.isSome, t.orderBy.isSome, t.limit.isSome,
    t.offset.isSome].count true

theorem Owner.length_filter_has (owner : Owner) :
    (clauseOrder.filter owner.has).length = owner.table.clauseCount := by
  obtain ⟨⟨name, label, single, fields, rowFilter, groupFilter, groupBy, orderBy, limit, offset⟩,
    home⟩ := owner
  cases rowFilter <;> cases groupFilter <;> cases groupBy <;> cases orderBy <;> cases limit <;>
    cases offset <;> rfl

theorem SelectPhrase.clauseCount_select {once : Bool} {q : SelectPhrase} (h : q.Valid once) :
    q.select.table.clauseCount = q.body.clauses.length := by
  obtain ⟨-, hnodup⟩ := clauses_valid h
  obtain ⟨keyword, distinct, name, label, body⟩ := q
  let owner : Owner :=
    ⟨body.table name ((label.map LabelPhrase.label).getD {}), .root ⟨keyword.text, none⟩ .top⟩
  have hperm : (body.clauses.map ClausePhrase.kind).Perm (clauseOrder.filter owner.has) := by
    have horder : clauseOrder.Nodup := by decide
    refine (List.perm_ext_iff_of_nodup hnodup (horder.sublist List.filter_sublist)).2 fun k => ?_
    rw [List.mem_filter, body.has_iff]
    exact ⟨fun hk => ⟨mem_clauseOrder k, hk⟩, And.right⟩
  calc
    owner.table.clauseCount = (clauseOrder.filter owner.has).length := owner.length_filter_has.symm
    _ = (body.clauses.map ClausePhrase.kind).length := hperm.length_eq.symm
    _ = body.clauses.length := List.length_map _

/-- The clauses of the outermost table, cut off one by one, may be put in any order: the query is
the same. -/
theorem Select.ofTokens_clauses_perm {ts : List Token} {s : Select}
    (h : Select.ofTokens limit ts = .ok s) :
    (∃ head cs rest, ClauseCut limit ts head cs rest) ∧
    ∀ head cs rest, ClauseCut limit ts head cs rest → cs.length = s.table.clauseCount ∧
      ∀ cs' : List (List Token), cs'.Perm cs →
        Select.ofTokens limit (head ++ cs'.flatten ++ rest) = .ok s := by
  obtain ⟨q, hvalid, htokens, hselect⟩ := Select.ofTokens_phrase false h (by simp)
  have hnest : q.select.nest ≤ limit := by
    rw [SelectPhrase.ofTokens_eq hvalid htokens.symm] at h
    split at h
    · assumption
    · cases h
  have hcut := SelectPhrase.cut_tokens hvalid hnest
  refine ⟨?_, fun head cs rest hpieces => ?_⟩
  · have hparts : Token.significant ts =
        (q.blockTokens :: q.body.clauses.map ClausePhrase.tokens).flatten := by
      rw [List.flatten_cons, ← List.flatMap_def, ← q.tokens_withClauses, q.withClauses_self,
        htokens]
    obtain ⟨pieces, rest, hts, hpieces, hrest⟩ := exists_pieces hparts
    obtain ⟨head, cs, rfl, hhead, hcs⟩ := List.map_eq_cons_iff.1 hpieces
    refine ⟨head, cs, rest, by simpa using hts, hrest, ?_⟩
    rw [← htokens, hcut, hhead, hcs]
  · have hsame := hpieces.cut
    rw [← htokens, hcut, Prod.mk.injEq] at hsame
    obtain ⟨hhead, hcs⟩ := hsame
    refine ⟨?_, fun cs' hperm => ?_⟩
    · have hlength := congrArg List.length hcs
      rw [List.length_map, List.length_map] at hlength
      rw [← hselect, SelectPhrase.clauseCount_select hvalid, hlength]
    · have hmap := hperm.map Token.significant
      rw [← hcs] at hmap
      obtain ⟨clauses, hclauses, hmap⟩ := exists_perm_of_perm_map hmap
      rw [← hselect]
      refine SelectPhrase.ofTokens_withClauses hvalid hnest hclauses ?_
      rw [Token.significant_append, Token.significant_append, hpieces.marks, List.append_nil,
        ← hhead, q.tokens_withClauses, List.flatMap_def, ← hmap, Token.significant,
        List.filter_flatten]
      rfl

theorem Select.ofTokens_clauses_perm_nested :
    let head : List Token := [.word "select", .word "t", .symbol "[", .word "a", .symbol "]"]
    let condition : List Token :=
      [.newline, .word "where", .word "x", .word "in", .symbol "(", .word "select", .word "u",
        .symbol "[", .word "y", .symbol "]", .word "limit", .word "2", .word "order", .word "by",
        .word "y", .symbol ")", .word "and", .newline, .word "z", .symbol "=", .word "limit"]
    let order : List Token :=
      [.word "order", .word "by", .word "limit", .word "desc", .symbol ",", .word "where"]
    let limit : List Token := [.word "limit", .word "3", .newline]
    let u : Table :=
      { name := "u"
        fields := [.column { name := "y" }]
        orderBy := some { entries := [{ column := "y" }] }
        limit := some { value := "2" } }
    let t : Table :=
      { name := "t"
        fields := [.column { name := "a" }]
        rowFilter := some
          { expr := .link (.among none "x" false { table := u }) "and"
              (.compare (.value "z") "=" (.value "limit")) }
        orderBy := some
          { entries := [{ column := "limit", modifiers := some "desc" }, { column := "where" }] }
        limit := some { value := "3" } }
    let s : Select := { table := t }
    let ts := head ++ [condition, order, limit].flatten ++ [.newline]
    Select.ofTokens 3 ts = .ok s ∧
      ClauseCut 3 ts head [condition, order, limit] [.newline] ∧ s.table.clauseCount = 3 ∧
      Select.ofTokens 3 (head ++ [limit, condition, order].flatten ++ [.newline]) = .ok s := by
  intro head condition order limit u t s ts
  have hread : Select.ofTokens 3 ts = .ok s := rfl
  have hcut : ClauseCut 3 ts head [condition, order, limit] [.newline] := ⟨rfl, rfl, rfl⟩
  have hperm : [limit, condition, order].Perm [condition, order, limit] := by decide
  have hall := (Select.ofTokens_clauses_perm hread).2 _ _ _ hcut
  exact ⟨hread, hcut, hall.1.symm, hall.2 _ hperm⟩

end BracketQuery
