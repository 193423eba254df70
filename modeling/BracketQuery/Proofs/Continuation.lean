import BracketQuery.Proofs.Limit
import BracketQuery.Proofs.FollowClauses

/-! What more tokens can do about an error. If the tokens ran out, some others complete the query;
if one of them was out of place, it stays so whatever comes after it. -/
namespace BracketQuery
open Token Descent

namespace ReadError

/-- There were too few tokens. -/
def exhausted : ReadError → Bool
  | .missing _ => true
  | .unclosedBracket _ _ => true
  | .emptyClause (.filter _) _ => true
  | _ => false

/-- There was a wrong token. -/
def final : ReadError → Bool
  | .unexpected _ _ => true
  | .trailingToken _ => true
  | .repeatedClause _ _ => true
  | .labelWithoutField _ => true
  | .labelAfterRelation _ => true
  | .namelessRelation _ => true
  | _ => false

end ReadError

variable {limit : Nat} {t : Token} {st : State}

/- One token. -/

def State.depth : State → Nat
  | .atName _ outer => outer.depth
  | .atDistinct _ _ outer => outer.depth
  | .afterName _ home => home.depth
  | .atTableLabel _ _ home => home.depth
  | .atBlock _ home => home.depth
  | st => st.level

/-- The reader stays within the limit, or refuses a token that is there. -/
def Within (limit : Nat) : Reading → Prop
  | .ok st => st.depth ≤ limit
  | .error e => e.exhausted = false

theorem deeper_within {depth : Nat} {next : Reading} (h : depth < limit → Within limit next) :
    Within limit (deeper limit depth next) := by
  unfold deeper
  split
  · exact h ‹_›
  · rfl

theorem expectWord_within {expected : Expectation} {next : String → State}
    (h : ∀ text, (next text).depth ≤ limit) : Within limit (expectWord expected t next) := by
  cases t with
  | word text => exact h text
  | _ => rfl

theorem expectKeyword_within {keywords : List String} {expected : Expectation}
    {next : String → State} (h : ∀ text, (next text).depth ≤ limit) :
    Within limit (expectKeyword keywords expected t next) := by
  cases t with
  | word text =>
    rw [expectKeyword]
    split
    · exact h text
    · rfl
  | _ => rfl

theorem expectSymbol_within {symbol : String} {expected : Expectation} {next : Reading}
    (h : Within limit next) : Within limit (expectSymbol symbol expected t next) := by
  unfold expectSymbol
  split
  · exact h
  · rfl

theorem openBlock_within (table : Table) (home : Home) :
    Within limit (openBlock limit table home t) := by
  refine deeper_within fun h => ?_
  split
  · exact h
  split
  · exact h
  · rfl

theorem stepAfterName_within (name : String) {home : Home} (h : home.depth ≤ limit) :
    Within limit (stepAfterName limit name home t) := by
  unfold stepAfterName
  split
  · split
    · exact h
    · exact openBlock_within _ home
  · exact openBlock_within _ home

theorem Block.step_within {block : Block} (h : block.depth ≤ limit) :
    Within limit (block.step limit t) := by
  have hd : block.home.depth + 1 ≤ limit := Block.depth_eq block ▸ h
  unfold Block.step
  split
  · split
    · unfold Block.relabel
      split
      · exact hd
      · exact hd
      · rfl
      · rfl
    · exact hd
  split
  · exact hd
  split
  · exact h
  split
  · unfold Block.nest
    split
    · exact openBlock_within _ _
    · rfl
  split
  · exact deeper_within id
  · rfl

theorem Owner.step_within {owner : Owner} (h : owner.depth ≤ limit) :
    Within limit (owner.step limit t) := by
  have hclose : Within limit (owner.close limit t) := by
    obtain ⟨table, home⟩ := owner
    cases home with
    | root head outer =>
      cases outer with
      | top => rfl
      | field block =>
        refine expectSymbol_within (Nat.le_trans ?_ h)
        show block.home.depth + 1 ≤ _
        simp only [Owner.depth_eq, Home.depth, Outer.depth, Block.depth_eq]
        omega
      | among slot subject negated keyword =>
        refine expectSymbol_within (Nat.le_trans ?_ h)
        show slot.depth ≤ _
        simp only [Owner.depth_eq, Home.depth, Outer.depth]
        omega
    | relation block =>
      refine Block.step_within (Nat.le_trans ?_ h)
      simp only [Owner.depth_eq, Home.depth, Block.depth_eq, Block.push]
      omega
  unfold Owner.step
  split
  · split
    · split
      · rfl
      · rename_i clause _ _
        cases clause <;> exact h
    · exact hclose
  · exact hclose

theorem stepAfterCondition_within (e : Expr) {slot : Slot} (h : slot.depth ≤ limit) :
    Within limit (stepAfterCondition limit e slot t) := by
  have hclose : Within limit (slot.close limit e t) := by
    obtain ⟨negation, links, frame⟩ := slot
    cases frame with
    | clause filter keyword owner =>
      refine Owner.step_within (Nat.le_trans ?_ h)
      simp only [Slot.depth_eq, Frame.depth, Owner.depth_eq, Owner.setFilter_home]
      omega
    | paren outer =>
      refine expectSymbol_within (Nat.le_trans ?_ h)
      show outer.depth ≤ _
      simp only [Slot.depth_eq, Frame.depth]
      omega
  unfold stepAfterCondition
  split
  · split
    · refine deeper_within fun hd => ?_
      rw [Slot.depth_eq] at hd
      exact hd
    · exact hclose
  · exact hclose

theorem modifier?_depth {stage : Stage} {draft : EntryDraft} {text : String} {next : State}
    (h : modifier? stage draft text = some next) : next.depth = draft.order.owner.depth := by
  unfold modifier? at h
  split at h
  · split at h
    · cases h
      rfl
    split at h <;> cases h
    rfl
  · split at h <;> cases h
    rfl
  · split at h <;> cases h
    rfl
  · cases h

theorem State.step_within (h : st.depth ≤ limit) (t : Token) : Within limit (st.step limit t) := by
  cases st with
  | atSelect outer => exact expectKeyword_within fun _ => h
  | atName keyword outer =>
    refine expectWord_within fun text => ?_
    split
    · exact h
    · exact h
  | atDistinct keyword word outer =>
    simp only [State.step, stepDistinct]
    split
    · exact stepAfterName_within word h
    · exact expectWord_within fun _ => h
  | afterName name home => exact stepAfterName_within name h
  | atBlock table home => exact openBlock_within table home
  | inBlock block => exact Block.step_within h
  | afterBlock owner => exact Owner.step_within h
  | atCondition slot =>
    simp only [State.step, stepCondition]
    split
    · split
      · simpa [Within, State.depth, State.level, Slot.depth_eq] using h
      · exact h
    split
    · exact deeper_within id
    · rfl
  | atOperator left slot =>
    simp only [State.step, stepOperator]
    split
    · split
      · exact h
      split
      · exact h
      · exact h
      · exact h
      · rfl
    · split
      · rfl
      · exact h
    · rfl
  | atNegated left negation slot =>
    simp only [State.step, stepNegated]
    split
    · split
      · exact h
      · exact h
      · exact h
      · rfl
    · rfl
  | atAmong keyword subject negated slot =>
    exact expectSymbol_within (deeper_within id)
  | afterCondition e slot => exact stepAfterCondition_within e h
  | atAnd range low slot => exact expectKeyword_within fun _ => h
  | atBy listing word owner =>
    refine expectKeyword_within fun text => ?_
    cases listing <;> exact h
  | atGroupColumn draft =>
    simp only [State.step, stepGroupColumn]
    split
    · exact h
    · split <;> rfl
  | afterGroupColumn draft =>
    have hd : draft.owner.home.depth + 1 ≤ limit := Owner.depth_eq draft.owner ▸ h
    simp only [State.step, stepAfterGroupColumn]
    split
    · exact h
    · exact Owner.step_within hd
  | atOrderColumn draft =>
    simp only [State.step, stepOrderColumn]
    split
    · exact h
    · split <;> rfl
  | afterOrderWord stage draft =>
    have hd : draft.order.owner.home.depth + 1 ≤ limit := Owner.depth_eq draft.order.owner ▸ h
    simp only [State.step, stepAfterOrderWord]
    split
    · split
      · show _ ≤ limit
        rw [modifier?_depth ‹_›]
        exact h
      · exact Owner.step_within hd
    split
    · exact h
    · exact Owner.step_within hd
  | atNullsPlace draft => exact expectKeyword_within fun _ => h
  | atPage page keyword owner =>
    refine expectWord_within fun text => ?_
    have hd : owner.home.depth + 1 ≤ limit := Owner.depth_eq owner ▸ h
    cases page <;> exact hd
  | atColumnLabel keyword column block =>
    have hd : block.home.depth + 1 ≤ limit := Block.depth_eq block ▸ h
    exact expectWord_within fun _ => hd
  | atSubQueryLabel keyword select block =>
    have hd : block.home.depth + 1 ≤ limit := Block.depth_eq block ▸ h
    exact expectWord_within fun _ => hd
  | _ => exact expectWord_within fun _ => h

theorem State.run_within (h : st.depth ≤ limit) (ts : List Token) :
    Within limit (st.run limit ts) := by
  induction ts generalizing st with
  | nil => exact h
  | cons t ts ih =>
    have hstep := State.step_within h t
    simp only [State.run, List.foldlM_cons]
    cases hs : st.step limit t with
    | error e =>
      rw [hs] at hstep
      exact hstep
    | ok next =>
      rw [hs] at hstep
      exact ih hstep

/- The end of what is open. -/

mutual

/-- The brackets and parentheses that end what a select stands in, innermost first. -/
def Outer.closers : Outer → List String
  | .top => []
  | .field block => ")" :: Block.closers block
  | .among slot _ _ _ => ")" :: Slot.closers slot

def Home.closers : Home → List String
  | .root _ outer => Outer.closers outer
  | .relation block => Block.closers block

def Block.closers : Block → List String
  | ⟨table, _, home⟩ => closeBracket table.single :: Home.closers home

def Slot.closers : Slot → List String
  | ⟨_, _, frame⟩ => Frame.closers frame

def Frame.closers : Frame → List String
  | .clause _ _ ⟨_, home⟩ => Home.closers home
  | .paren slot => ")" :: Slot.closers slot

end

def Descent.Place.Completed (limit : Nat) (place : Place) (us : List Token) : Prop :=
  ∃ s, place.read limit us = .ok s

theorem Descent.Place.Completed.step {place : Place} {us : List Token} (next : State)
    (hs : place.step t = .ok next) (ht : t ≠ .newline)
    (h : (next.place limit).Completed limit us) : place.Completed limit (t :: us) := by
  obtain ⟨s, hs'⟩ := h
  refine ⟨s, ?_⟩
  rw [Place.read_cons ht, hs]
  exact hs'

theorem Home.closers_cases (home : Home) :
    home.closers = [] ∨ ∃ c cs, home.closers = c :: cs ∧ c ≠ "," := by
  rcases home with ⟨head, _ | block | slot⟩ | ⟨⟨name, label, single⟩, fields, home⟩
  · exact .inl rfl
  · exact .inr ⟨")", _, rfl, by decide⟩
  · exact .inr ⟨")", _, rfl, by decide⟩
  · exact .inr ⟨closeBracket single, _, rfl, by cases single <;> decide⟩

theorem afterBlock_closing (table : Table) (home : Home) (cs : List String) :
    ((State.afterBlock ⟨table, home⟩).place limit).read limit (cs.map .symbol) =
      (homePlace limit home table).read limit (cs.map .symbol) := by
  cases cs with
  | nil => rfl
  | cons c cs =>
    rw [List.map_cons, Place.read_cons (by simp), Place.read_cons (by simp)]
    rfl

/- The induction is on the constructs that are open; what is in them may be any tree. -/
mutual

theorem Outer.closed (limit : Nat) : (outer : Outer) → (select : Select) →
    (outerPlace outer select).Completed limit (outer.closers.map .symbol)
  | .top, select => ⟨select, rfl⟩
  | .field block, select => .step (.inBlock (block.push (.subQuery select {})))
      (by simp [outerPlace, Outer.close, expectSymbol, Token.isSymbol]) (by simp)
      (Block.closed limit block _)
  | .among slot subject negated keyword, select =>
    .step (.afterCondition (slot.fill (.among (.ofWord keyword "in") subject negated select)) slot)
      (by simp [outerPlace, Outer.close, expectSymbol, Token.isSymbol]) (by simp)
      (Slot.closed limit slot _)

theorem Home.closed (limit : Nat) : (home : Home) → (table : Table) →
    (homePlace limit home table).Completed limit (home.closers.map .symbol)
  | .root head outer, table => Outer.closed limit outer (head.select table)
  | .relation block, table => Block.closed limit block (.relation table :: block.fields)

theorem Block.closed (limit : Nat) : (block : Block) → (fields : List Field) →
    ((State.inBlock { block with fields := fields }).place limit).Completed limit
      (block.closers.map .symbol)
  | ⟨table, _, home⟩, fields => by
    refine .step (.afterBlock ⟨{ table with fields := fields.reverse }, home⟩) ?_ (by simp) ?_
    · simp [State.place, State.step, Block.step, Block.closing, Token.isSymbol, Block.owner]
    · rw [Place.Completed, afterBlock_closing]
      exact Home.closed limit home _

theorem Slot.closed (limit : Nat) : (slot : Slot) → (e : Expr) →
    ((State.afterCondition e slot).place limit).Completed limit (slot.closers.map .symbol)
  | ⟨negation, links, frame⟩, e => by
    rw [Place.Completed, read_chainEnd e]
    · exact Frame.closed limit frame _
    · cases Slot.closers ⟨negation, links, frame⟩ <;> rfl

theorem Frame.closed (limit : Nat) : (frame : Frame) → (e : Expr) →
    (framePlace limit frame e).Completed limit (frame.closers.map .symbol)
  | .clause filter keyword ⟨table, home⟩, e => by
    have hplace : ∃ table', framePlace limit (.clause filter keyword ⟨table, home⟩) e =
        (State.afterBlock ⟨table', home⟩).place limit := by
      cases filter with
      | rows => exact ⟨_, rfl⟩
      | groups => exact ⟨_, rfl⟩
    obtain ⟨table', hplace⟩ := hplace
    rw [hplace, Place.Completed]
    exact (afterBlock_closing table' home home.closers).symm ▸ Home.closed limit home table'
  | .paren slot, e => .step (.afterCondition (slot.fill (.paren e)) slot)
      (by simp [framePlace, Slot.first, Slot.close, Slot.chain, expectSymbol, Token.isSymbol])
      (by simp) (Slot.closed limit slot _)

end

/- The end from any state. -/

def closing (cs : List String) : List Token := cs.map .symbol

def blockEnding (cs : List String) : List Token := closing ("[" :: "]" :: cs)

def State.ending : State → List Token
  | .atSelect outer => .word "select" :: .word "x" :: blockEnding outer.closers
  | .atName _ outer => .word "x" :: blockEnding outer.closers
  | .atDistinct _ _ outer => blockEnding outer.closers
  | .afterName _ home => blockEnding home.closers
  | .atTableLabel _ _ home => .word "x" :: blockEnding home.closers
  | .atBlock _ home => blockEnding home.closers
  | .inBlock block => closing block.closers
  | .atColumnLabel _ _ block => .word "x" :: closing block.closers
  | .atSubQueryLabel _ _ block => .word "x" :: closing block.closers
  | .afterBlock owner => closing owner.home.closers
  | .atCondition slot => .word "x" :: .symbol "=" :: .word "x" :: closing slot.closers
  | .atOperator _ slot => .symbol "=" :: .word "x" :: closing slot.closers
  | .atNegated _ _ slot => .word "like" :: .word "x" :: closing slot.closers
  | .atRight _ _ slot => .word "x" :: closing slot.closers
  | .atLow _ slot => .word "x" :: .word "and" :: .word "x" :: closing slot.closers
  | .atAnd _ _ slot => .word "and" :: .word "x" :: closing slot.closers
  | .atHigh _ _ _ slot => .word "x" :: closing slot.closers
  | .atAmong _ _ _ slot =>
    .symbol "(" :: .word "select" :: .word "x" :: blockEnding (")" :: slot.closers)
  | .afterCondition _ slot => closing slot.closers
  | .atBy _ _ owner => .word "by" :: .word "x" :: closing owner.home.closers
  | .atGroupColumn draft => .word "x" :: closing draft.owner.home.closers
  | .afterGroupColumn draft => closing draft.owner.home.closers
  | .atOrderColumn draft => .word "x" :: closing draft.owner.home.closers
  | .afterOrderWord _ draft => closing draft.order.owner.home.closers
  | .atCollation draft => .word "x" :: closing draft.order.owner.home.closers
  | .atNullsPlace draft => .word "first" :: closing draft.order.owner.home.closers
  | .atPage _ _ owner => .word "x" :: closing owner.home.closers

def State.Completed (limit : Nat) (st : State) (us : List Token) : Prop :=
  (st.place limit).Completed limit us

namespace State.Completed
variable {us : List Token}

theorem word (next : State) {text : String} (hs : st.step limit (.word text) = .ok next)
    (h : next.Completed limit us) : st.Completed limit (.word text :: us) :=
  .step next hs (by simp) h

theorem symbol (next : State) {text : String} (hs : st.step limit (.symbol text) = .ok next)
    (h : next.Completed limit us) : st.Completed limit (.symbol text :: us) :=
  .step next hs (by simp) h

theorem afterBlock (owner : Owner)
    (hs : ∀ text, text ≠ "," → st.step limit (.symbol text) = owner.step limit (.symbol text))
    (hf : st.finish limit = owner.finish) : st.Completed limit (closing owner.home.closers) := by
  obtain ⟨table, home⟩ := owner
  have hread : (st.place limit).read limit (closing home.closers) =
      (homePlace limit home table).read limit (closing home.closers) := by
    rw [closing, ← afterBlock_closing]
    rcases home.closers_cases with hc | ⟨c, cs, hc, hne⟩
    · rw [hc]
      exact hf
    · rw [hc, List.map_cons, Place.read_cons (by simp), Place.read_cons (by simp)]
      simp only [State.place, hs c hne]
      rfl
  rw [State.Completed, Place.Completed, hread]
  exact Home.closed limit home table

theorem atBlock (table : Table) (home : Home) (h : home.depth < limit) :
    (State.atBlock table home).Completed limit (blockEnding home.closers) := by
  refine .symbol (.inBlock ⟨{ table with single := false }, [], home⟩) ?_
    (Block.closed limit ⟨{ table with single := false }, [], home⟩ [])
  simp [State.step, openBlock, deeper, h, Token.isSymbol]

theorem atName (keyword : String) (outer : Outer) (h : outer.depth < limit) :
    (State.atName keyword outer).Completed limit (.word "x" :: blockEnding outer.closers) :=
  .word (.afterName "x" (.root ⟨keyword, none⟩ outer)) rfl
    (atBlock (.bare "x" {}) (.root ⟨keyword, none⟩ outer) h)

theorem atSelect (outer : Outer) (h : outer.depth < limit) : (State.atSelect outer).Completed limit
    (.word "select" :: .word "x" :: blockEnding outer.closers) :=
  .word (.atName "select" outer) rfl (atName "select" outer h)

theorem atRight (left op : String) (slot : Slot) :
    (State.atRight left op slot).Completed limit (.word "x" :: closing slot.closers) :=
  .word _ rfl (Slot.closed limit slot _)

theorem atOperator (left : String) (slot : Slot) :
    (State.atOperator left slot).Completed limit
      (.symbol "=" :: .word "x" :: closing slot.closers) :=
  .symbol (.atRight left "=" slot) rfl (atRight left "=" slot)

theorem afterGroupColumn (draft : GroupDraft) :
    (State.afterGroupColumn draft).Completed limit (closing draft.owner.home.closers) := by
  refine afterBlock draft.close (fun text ht => ?_) rfl
  simp [State.step, stepAfterGroupColumn, Token.isSymbol, ht]

theorem afterOrderWord (stage : Stage) (draft : EntryDraft) :
    (State.afterOrderWord stage draft).Completed limit
      (closing draft.order.owner.home.closers) := by
  refine afterBlock draft.close.close (fun text ht => ?_) rfl
  simp [State.step, stepAfterOrderWord, Token.isSymbol, ht]

end State.Completed

theorem State.completed_ending (h : st.depth + 2 ≤ limit) : st.Completed limit st.ending := by
  cases st with
  | atSelect outer => exact .atSelect outer (Nat.lt_of_succ_lt h)
  | atName keyword outer => exact .atName keyword outer (Nat.lt_of_succ_lt h)
  | atDistinct keyword word outer =>
    exact .atBlock (.bare word {}) (.root ⟨keyword, none⟩ outer) (Nat.lt_of_succ_lt h)
  | afterName name home => exact .atBlock (.bare name {}) home (Nat.lt_of_succ_lt h)
  | atTableLabel keyword name home => exact .word _ rfl (.atBlock _ home (Nat.lt_of_succ_lt h))
  | atBlock table home => exact .atBlock table home (Nat.lt_of_succ_lt h)
  | inBlock block => exact block.eta ▸ Block.closed limit block block.fields
  | atColumnLabel keyword column block => exact .word _ rfl (Block.closed limit block _)
  | atSubQueryLabel keyword select block => exact .word _ rfl (Block.closed limit block _)
  | afterBlock owner => exact .afterBlock owner (fun _ _ => rfl) rfl
  | atCondition slot =>
    refine .word (.atOperator "x" slot) ?_ (.atOperator "x" slot)
    have hx : spells "x" "not" = false := by decide
    simp [State.step, stepCondition, hx]
  | atOperator left slot => exact .atOperator left slot
  | atNegated left negation slot => exact .word _ rfl (.atRight left _ slot)
  | atRight left op slot => exact .atRight left op slot
  | atLow range slot =>
    exact .word _ rfl (.word (.atHigh range "x" "and" slot) rfl
      (.word _ rfl (Slot.closed limit slot _)))
  | atAnd range low slot =>
    exact .word (.atHigh range low "and" slot) rfl (.word _ rfl (Slot.closed limit slot _))
  | atHigh range low andKeyword slot => exact .word _ rfl (Slot.closed limit slot _)
  | atAmong keyword subject negated slot =>
    refine .symbol (.atSelect (.among slot subject negated keyword)) ?_ (.atSelect _ h)
    have hd : slot.depth < limit := Nat.lt_of_succ_lt h
    simp [State.step, expectSymbol, deeper, Token.isSymbol, hd]
  | afterCondition expr slot => exact Slot.closed limit slot expr
  | atBy listing word owner =>
    cases listing with
    | group => exact .word _ rfl (.word _ rfl (.afterGroupColumn _))
    | order => exact .word _ rfl (.word _ rfl (.afterOrderWord _ _))
  | atGroupColumn draft => exact .word _ rfl (.afterGroupColumn _)
  | afterGroupColumn draft => exact .afterGroupColumn draft
  | atOrderColumn draft => exact .word _ rfl (.afterOrderWord _ _)
  | afterOrderWord stage draft => exact .afterOrderWord stage draft
  | atCollation draft => exact .word _ rfl (.afterOrderWord _ _)
  | atNullsPlace draft => exact .word _ rfl (.afterOrderWord _ _)
  | atPage page keyword owner =>
    cases page with
    | limit => exact .word _ rfl (.afterBlock (owner.setPage .limit _) (fun _ _ => rfl) rfl)
    | offset => exact .word _ rfl (.afterBlock (owner.setPage .offset _) (fun _ _ => rfl) rfl)

/- Queries. -/

theorem State.depth_le_level (st : State) : st.depth ≤ st.level := by
  cases st with
  | atName | atDistinct | afterName | atTableLabel | atBlock => exact Nat.le_succ _
  | _ => exact Nat.le_refl _

theorem Select.ofTokens_append {ts : List Token} (us : List Token)
    (h : State.start.run limit (significant ts) = .ok st) :
    Select.ofTokens limit (ts ++ us) = (st.place limit).read limit us := by
  rw [← State.read_significant, Select.ofTokens, significant_append, State.run_append, h]
  rfl

/-- Tokens that the reader took without an error are the start of a query. -/
theorem State.exists_completion {d : Nat} {ts : List Token}
    (h : State.start.run d (significant ts) = .ok st) :
    ∃ us s, ∀ n, min d ts.length + 2 ≤ n → Select.ofTokens n (ts ++ us) = .ok s := by
  have hlength : (significant ts).length ≤ ts.length := List.length_filter_le _ ts
  have hstart : Reached false State.start [] := .atSelect (o := .top) trivial
  have hdepth : st.depth ≤ min d ts.length := by
    have hd : Within d (State.start.run d (significant ts)) := State.run_within (Nat.zero_le d) _
    rw [h] at hd
    have hlevel := (hstart.run (by simp) h).level_le
    exact Nat.le_min.2 ⟨hd, Nat.le_trans st.depth_le_level (Nat.le_trans hlevel hlength)⟩
  have hrun : State.start.run (min d ts.length + 2) (significant ts) = .ok st := by
    by_cases hd : d ≤ ts.length
    · exact State.run_mono (by omega) h
    · have hn : ([] : List Token).length + (significant ts).length ≤ min d ts.length + 2 := by
        simp only [List.length_nil]
        omega
      rcases hstart.run_agrees (d := d) hn with hagrees | hagrees
      · rw [h] at hagrees
        cases hagrees
      · rw [← hagrees, h]
  obtain ⟨s, hs⟩ := State.completed_ending (Nat.add_le_add_right hdepth 2)
  refine ⟨st.ending, s, fun n hn => Select.ofTokens_mono hn ?_⟩
  rw [Select.ofTokens_append _ hrun]
  exact hs

/-- If the tokens of a query ran out, there are some that complete it, under the same limit as well
if that is two above the number of the tokens. A select to be `in` lies two levels deeper than what
is before it, so fewer than two levels more than were enough for the tokens need not be enough. -/
theorem Select.exists_completion_of_exhausted {d : Nat} {ts : List Token} {e : ReadError}
    (h : Select.ofTokens d ts = .error e) (he : e.exhausted = true) :
    ∃ us s, ∀ n, min d ts.length + 2 ≤ n → Select.ofTokens n (ts ++ us) = .ok s := by
  cases hrun : State.start.run d (significant ts) with
  | ok st => exact State.exists_completion hrun
  | error e' =>
    have hwithin : Within d (State.start.run d (significant ts)) :=
      State.run_within (Nat.zero_le d) _
    rw [hrun] at hwithin
    obtain rfl : e' = e := by simpa [Select.ofTokens, hrun, bind, Except.bind] using h
    rw [show e'.exhausted = false from hwithin] at he
    cases he

/-- A query that ends after `in` under the limit it just fits in. -/
theorem completion_after_in :
    let ts := [.word "select", .word "a", .symbol "[", .word "b", .symbol "\x7b", .symbol "\x7d",
      .word "where", .word "k", .word "in"]
    Select.ofTokens 2 ts = .error (.missing (.amongStart ⟨.rows, "b"⟩)) ∧
      ∃ us s, ∀ n, 4 ≤ n → Select.ofTokens n (ts ++ us) = .ok s := by
  intro ts
  have h : Select.ofTokens 2 ts = .error (.missing (.amongStart ⟨.rows, "b"⟩)) := rfl
  exact ⟨h, Select.exists_completion_of_exhausted h rfl⟩

/- Tokens that are out of place. -/

theorem Owner.finish_final {owner : Owner} {e : ReadError} (h : owner.finish = .error e) :
    e.final = false := by
  obtain ⟨table, home⟩ := owner
  rcases home with ⟨head, _ | block | slot⟩ | block
  · cases h
  · cases h
    rfl
  · cases h
    rfl
  · cases h
    rfl

theorem lackBlock_final (limit : Nat) (name : String) (home : Home) :
    (lackBlock limit name home).final = false := by
  unfold lackBlock
  split <;> rfl

theorem Slot.lack_final (slot : Slot) : slot.lack.final = false := by
  unfold Slot.lack
  split <;> rfl

/-- At the end of the tokens nothing is out of place, but for a `not` without its operator. -/
theorem State.finish_final {e : ReadError} (h : st.finish limit = .error e)
    (he : e.final = true) : ∃ left negation slot, st = .atNegated left negation slot := by
  have absurd_of {P : Prop} (hf : e.final = false) : P := by simp [hf] at he
  cases st with
  | atNegated left negation slot => exact ⟨left, negation, slot, rfl⟩
  | afterBlock owner => exact absurd_of (Owner.finish_final h)
  | afterGroupColumn draft => exact absurd_of (Owner.finish_final h)
  | afterOrderWord stage draft => exact absurd_of (Owner.finish_final h)
  | afterCondition expr slot =>
    obtain ⟨negation, links, frame⟩ := slot
    cases frame with
    | clause filter keyword owner => exact absurd_of (Owner.finish_final h)
    | paren outer =>
      cases h
      exact absurd_of rfl
  | atDistinct keyword word outer =>
    cases h
    exact absurd_of (lackBlock_final ..)
  | afterName name home =>
    cases h
    exact absurd_of (lackBlock_final ..)
  | atBlock table home =>
    cases h
    exact absurd_of (lackBlock_final ..)
  | atCondition slot =>
    cases h
    exact absurd_of slot.lack_final
  | atGroupColumn draft =>
    simp only [State.finish] at h
    split at h <;> cases h <;> exact absurd_of rfl
  | atOrderColumn draft =>
    simp only [State.finish] at h
    split at h <;> cases h <;> exact absurd_of rfl
  | _ =>
    cases h
    exact absurd_of rfl

/-- A token that is out of place stays so: whatever follows, the error is the same. Only a `not` at
the end may still find its operator. -/
theorem Select.ofTokens_append_of_final {ts : List Token} {e : ReadError}
    (h : Select.ofTokens limit ts = .error e) (he : e.final = true)
    (hlast : ∀ t ∈ (significant ts).getLast?, t.isKeyword "not" = false) (us : List Token) :
    Select.ofTokens limit (ts ++ us) = .error e := by
  cases hrun : State.start.run limit (significant ts) with
  | error e' =>
    obtain rfl : e' = e := by simpa [Select.ofTokens, hrun, bind, Except.bind] using h
    rw [Select.ofTokens, significant_append, State.run_append, hrun]
    rfl
  | ok st =>
    have hfinish : st.finish limit = .error e := by
      simpa [Select.ofTokens, hrun, bind, Except.bind] using h
    obtain ⟨left, negation, slot, rfl⟩ := State.finish_final hfinish he
    have hstart : Reached false State.start [] := .atSelect (o := .top) trivial
    have hreached := hstart.run (by simp) hrun
    rw [List.nil_append] at hreached
    generalize significant ts = read at hreached hlast
    cases hreached with
    | atNegated n =>
      have hn := hlast n.token (by simp)
      simp [Keyword.token, Token.isKeyword, n.spelled] at hn

/-- The equals sign after `not` shows that `not` was out of place. -/
theorem append_after_stray_not :
    let ts := [.word "select", .word "a", .symbol "[", .symbol "]", .word "where", .word "x",
      .word "not", .symbol "="]
    let e := ReadError.unexpected (.operator ⟨.rows, "a"⟩) (.word "not")
    Select.ofTokens 5 ts = .error e ∧ e.final = true ∧
      (∀ t ∈ (significant ts).getLast?, t.isKeyword "not" = false) ∧
      ∀ us, Select.ofTokens 5 (ts ++ us) = .error e := by
  intro ts e
  have h : Select.ofTokens 5 ts = .error e := rfl
  have hlast : ∀ t ∈ (significant ts).getLast?, t.isKeyword "not" = false := by decide
  exact ⟨h, rfl, hlast, Select.ofTokens_append_of_final h rfl hlast⟩

-- without the sign the same error goes away when an operator follows
example :
    let ts := [.word "select", .word "a", .symbol "[", .symbol "]", .word "where", .word "x",
      .word "not"]
    Select.ofTokens 5 ts = .error (.unexpected (.operator ⟨.rows, "a"⟩) (.word "not")) ∧
      (Select.ofTokens 5 (ts ++ [.word "like", .word "y"])).toOption.isSome = true :=
  ⟨rfl, rfl⟩

end BracketQuery
