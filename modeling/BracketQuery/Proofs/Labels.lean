import BracketQuery.Proofs.Words
import Mathlib.Algebra.Order.Group.Multiset
import Mathlib.Tactic.Abel

/-! The labels of a query. The reader neither loses nor invents one: those that the tokens give are
those of the tree and those that a second `as` replaced. -/
namespace BracketQuery

/-- What a label is put on. A column that becomes a relation keeps its name and its label. -/
inductive Subject where
  | named (name : String)
  | subQuery (select : Select)

def Label.on (label : Label) (subject : Subject) : List (Subject × Label) :=
  if label.name.isSome then [(subject, label)] else []

/- The labels of a tree, in the order of the text. -/
mutual

def Select.labels : Select → List (Subject × Label)
  | ⟨_, _, _, table⟩ => table.labels

def Table.labels : Table → List (Subject × Label)
  | ⟨name, label, _, fields, rowFilter, groupFilter, _, _, _, _⟩ =>
    label.on (.named name) ++ fieldsLabels fields ++ conditionLabels rowFilter ++
      conditionLabels groupFilter

def fieldsLabels : List Field → List (Subject × Label)
  | [] => []
  | field :: fields => field.labels ++ fieldsLabels fields

def Field.labels : Field → List (Subject × Label)
  | .column column => column.label.on (.named column.name)
  | .relation table => table.labels
  | .subQuery select label => select.labels ++ label.on (.subQuery select)

def conditionLabels : Option Condition → List (Subject × Label)
  | none => []
  | some ⟨_, expr⟩ => expr.labels

def Expr.labels : Expr → List (Subject × Label)
  | .compare left _ right => left.labels ++ right.labels
  | .not _ inner => inner.labels
  | .paren inner => inner.labels
  | .between .. => []
  | .among _ _ _ select => select.labels

def Operand.labels : Operand → List (Subject × Label)
  | .value _ => []
  | .expr expr => expr.labels

end

/- The labels of a run. -/

/-- The label that the token gives: the word after `as`. -/
def State.labelGiven : State → Token → List (Subject × Label)
  | .atTableLabel keyword name _, .word text => [(.named name, BracketQuery.labelled text keyword)]
  | .atColumnLabel keyword column _, .word text =>
    [(.named column.name, BracketQuery.labelled text keyword)]
  | .atSubQueryLabel keyword select _, .word text =>
    [(.subQuery select, BracketQuery.labelled text keyword)]
  | _, _ => []

def Block.lastLabel (block : Block) : List (Subject × Label) :=
  match block.fields with
  | .column column :: _ => column.label.on (.named column.name)
  | .subQuery select label :: _ => label.on (.subQuery select)
  | _ => []

/-- The label that the token discards: an `as` after a field that has one. -/
def State.labelReplaced : State → Token → List (Subject × Label)
  | .inBlock block, t => if t.isKeyword "as" then block.lastLabel else []
  | _, _ => []

def State.along {α : Type} (limit : Nat) (f : State → Token → List α) (st : State) :
    List Token → List α
  | [] => []
  | t :: ts =>
    f st t ++
      match st.step limit t with
      | .ok next => next.along limit f ts
      | .error _ => []

def labelsGiven (limit : Nat) (ts : List Token) : List (Subject × Label) :=
  State.start.along limit State.labelGiven (Token.significant ts)

def labelsReplaced (limit : Nat) (ts : List Token) : List (Subject × Label) :=
  State.start.along limit State.labelReplaced (Token.significant ts)

/- The labels that the reader holds. -/

def Table.without (table : Table) : Filter → Table
  | .rows => { table with rowFilter := none }
  | .groups => { table with groupFilter := none }

mutual

/-- The labels that have been read and not been replaced, in any order. -/
def Outer.held : Outer → Multiset (Subject × Label)
  | .top => 0
  | .field block => block.held
  | .among slot _ _ _ => slot.held

def Home.held : Home → Multiset (Subject × Label)
  | .root _ outer => outer.held
  | .relation block => block.held

def Block.held : Block → Multiset (Subject × Label)
  | ⟨table, fields, home⟩ => Table.labels { table with fields := fields.reverse } + home.held

def Owner.held : Owner → Multiset (Subject × Label)
  | ⟨table, home⟩ => table.labels + home.held

def Slot.held : Slot → Multiset (Subject × Label)
  | ⟨_, links, frame⟩ => (links.flatMap (·.1.labels) : List (Subject × Label)) + frame.held

def Frame.held : Frame → Multiset (Subject × Label)
  | .clause filter _ ⟨table, home⟩ => (table.without filter).labels + home.held
  | .paren slot => slot.held

end

def State.held : State → Multiset (Subject × Label)
  | .atSelect outer | .atName _ outer | .atDistinct _ _ outer => outer.held
  | .afterName _ home | .atTableLabel _ _ home => home.held
  | .atBlock table home => Table.labels { table with fields := [] } + home.held
  | .inBlock block | .atColumnLabel _ _ block => block.held
  | .atSubQueryLabel _ select block => select.labels + block.held
  | .afterBlock owner | .atPage _ _ owner | .atBy _ _ owner => owner.held
  | .atCondition slot | .atOperator _ slot | .atNegated _ _ slot | .atRight _ _ slot
  | .atLow _ slot | .atAnd _ _ slot | .atHigh _ _ _ slot | .atAmong _ _ _ slot => slot.held
  | .afterCondition expr slot => expr.labels + slot.held
  | .atGroupColumn draft | .afterGroupColumn draft => draft.owner.held
  | .atOrderColumn draft => draft.owner.held
  | .afterOrderWord _ draft | .atCollation draft | .atNullsPlace draft => draft.order.owner.held

variable {limit : Nat} {t : Token} {st next : State}

theorem fieldsLabels_eq (fields : List Field) :
    fieldsLabels fields = fields.flatMap Field.labels := by
  induction fields with
  | nil => rfl
  | cons field fields ih => rw [fieldsLabels, ih, List.flatMap_cons]

theorem Block.held_push (block : Block) (field : Field) :
    (block.push field).held = field.labels + block.held := by
  obtain ⟨table, fields, home⟩ := block
  simp only [Block.push, Block.held, Table.labels, fieldsLabels_eq, List.reverse_cons,
    List.flatMap_append, List.flatMap_singleton, ← Multiset.coe_add]
  abel

theorem Block.held_owner (block : Block) : block.owner.held = block.held := by
  cases block
  rfl

theorem Owner.held_setGroupBy (owner : Owner) (groupBy : GroupBy) :
    (owner.setGroupBy groupBy).held = owner.held := by
  obtain ⟨table, home⟩ := owner
  cases table
  rfl

theorem Owner.held_setOrderBy (owner : Owner) (orderBy : OrderBy) :
    (owner.setOrderBy orderBy).held = owner.held := by
  obtain ⟨table, home⟩ := owner
  cases table
  rfl

theorem Owner.held_setPage (owner : Owner) (page : Page) (paging : Paging) :
    (owner.setPage page paging).held = owner.held := by
  obtain ⟨table, home⟩ := owner
  cases table
  cases page <;> rfl

theorem Owner.held_setFilter (filter : Filter) (keyword : String) (owner : Owner)
    (spelling : Spelling) (expr : Expr) : (owner.setFilter filter ⟨spelling, expr⟩).held =
      expr.labels + (Frame.clause filter keyword owner).held := by
  obtain ⟨table, home⟩ := owner
  cases filter <;>
    simp only [Owner.setFilter, Owner.held, Frame.held, Table.without, Table.labels,
      conditionLabels, ← Multiset.coe_add, Multiset.coe_nil] <;> abel

theorem Frame.held_clause {filter : Filter} {owner : Owner} (h : owner.has (.filter filter) = false)
    (keyword : String) : (Frame.clause filter keyword owner).held = owner.held := by
  obtain ⟨table, home⟩ := owner
  have hwithout : table.without filter = table := by
    cases table
    cases filter <;> simp_all [Owner.has, Table.without]
  rw [Frame.held, Owner.held, hwithout]

theorem Slot.labels_fill (slot : Slot) (expr : Expr) : (slot.fill expr).labels = expr.labels := by
  unfold Slot.fill
  split <;> rfl

theorem labels_foldl_link (links : List (Expr × String)) (last : Expr) :
    ((links.foldl (fun right left => .link left.1 left.2 right) last).labels :
      Multiset (Subject × Label)) =
      (links.flatMap (·.1.labels) : List (Subject × Label)) + last.labels := by
  induction links generalizing last with
  | nil => simp
  | cons link links ih =>
    rw [List.foldl_cons, ih, List.flatMap_cons]
    simp only [Expr.link, Expr.labels, Operand.labels, ← Multiset.coe_add]
    abel

theorem Slot.held_chain (slot : Slot) (last : Expr) :
    ((slot.chain last).labels : Multiset (Subject × Label)) + slot.frame.held =
      last.labels + slot.held := by
  obtain ⟨negation, links, frame⟩ := slot
  simp only [Slot.chain, Slot.held, labels_foldl_link]
  abel

/- One token. -/

theorem openBlock_held {table : Table} {home : Home} (h : openBlock limit table home t = .ok next) :
    next.held = Table.labels { table with fields := [] } + home.held := by
  have hopen := deeper_ok h
  split at hopen
  · cases hopen
    rfl
  split at hopen
  · cases hopen
    rfl
  · cases hopen

theorem labels_bare (name : String) (label : Label) :
    (Table.bare name label).labels = label.on (.named name) := by
  simp [Table.bare, Table.labels, fieldsLabels, conditionLabels]

theorem stepAfterName_held {name : String} {home : Home}
    (h : stepAfterName limit name home t = .ok next) : next.held = home.held := by
  have opened (hopen : openBlock limit (.bare name {}) home t = .ok next) :
      next.held = home.held := by
    rw [openBlock_held hopen]
    exact zero_add _
  cases t with
  | word text =>
    simp only [stepAfterName] at h
    split at h
    · cases h
      rfl
    · exact opened h
  | symbol text => exact opened h
  | newline => exact opened h

theorem Block.relabel_held {block : Block} {keyword : String}
    (h : block.relabel keyword = .ok next) : next.held + block.lastLabel = block.held := by
  obtain ⟨table, fields, home⟩ := block
  cases fields with
  | nil => cases h
  | cons field rest =>
    have hpush := Block.held_push ⟨table, rest, home⟩ field
    rw [Block.push] at hpush
    rw [hpush]
    cases field with
    | column column =>
      cases h
      simp only [State.held, Block.lastLabel, Field.labels]
      abel
    | relation table => cases h
    | subQuery select label =>
      cases h
      simp only [State.held, Block.lastLabel, Field.labels, ← Multiset.coe_add]
      abel

theorem Block.nest_held {block : Block} (h : block.nest limit t = .ok next) :
    next.held = block.held := by
  obtain ⟨table, fields, home⟩ := block
  unfold Block.nest at h
  split at h
  · rename_i column rest hfields
    cases hfields
    have hpush := Block.held_push ⟨table, rest, home⟩ (.column column)
    rw [Block.push] at hpush
    rw [openBlock_held h, hpush]
    exact congrArg (fun l : List _ => (l : Multiset (Subject × Label)) + _) (labels_bare _ _)
  · cases h

theorem Block.step_held {block : Block} (h : block.step limit t = .ok next) :
    next.held + (State.inBlock block).labelReplaced t = block.held := by
  have kept (hk : t.isKeyword "as" = false) (hn : next.held = block.held) :
      next.held + (State.inBlock block).labelReplaced t = block.held := by
    rw [State.labelReplaced, hk, hn]
    exact add_zero _
  unfold Block.step at h
  split at h
  · split at h
    · rename_i hk
      rw [State.labelReplaced, Token.isKeyword, if_pos hk]
      exact Block.relabel_held h
    · rename_i hk
      cases h
      refine kept (by simpa [Token.isKeyword] using hk) ?_
      exact (Block.held_push block _).trans (zero_add _)
  · rename_i hword
    have hk : t.isKeyword "as" = false := by
      cases t with
      | word text => exact absurd rfl (hword text)
      | symbol text => rfl
      | newline => rfl
    refine kept hk ?_
    split at h
    · cases h
      exact block.held_owner
    split at h
    · cases h
      rfl
    split at h
    · exact Block.nest_held h
    split at h
    · cases deeper_ok h
      rfl
    · cases h

theorem Outer.close_held {outer : Outer} {select : Select} (h : outer.close select t = .ok next) :
    next.held = select.labels + outer.held := by
  cases outer with
  | top => cases h
  | field block =>
    obtain ⟨-, hn⟩ := expectSymbol_ok h
    cases hn
    refine (Block.held_push block _).trans ?_
    simp [Field.labels, Label.on, Outer.held]
  | among slot subject negated keyword =>
    obtain ⟨-, hn⟩ := expectSymbol_ok h
    cases hn
    rw [State.held, Slot.labels_fill, Expr.labels, Outer.held]

theorem Owner.close_held {owner : Owner} (h : owner.close limit t = .ok next) :
    next.held = owner.held := by
  obtain ⟨table, home⟩ := owner
  cases home with
  | root head outer => exact Outer.close_held h
  | relation block =>
    -- the relation is the last field now, and it takes no label
    have hstep := Block.step_held h
    have hlast : (State.inBlock (block.push (.relation table))).labelReplaced t = [] := by
      simp [State.labelReplaced, Block.lastLabel, Block.push]
    rw [hlast, Multiset.coe_nil, add_zero, Block.held_push] at hstep
    exact hstep

theorem Owner.step_held {owner : Owner} (h : owner.step limit t = .ok next) :
    next.held = owner.held := by
  unfold Owner.step at h
  split at h
  · split at h
    · rename_i clause _
      split at h
      · cases h
      · rename_i hnew
        cases h
        cases clause with
        | filter filter =>
          refine (zero_add _).trans (Frame.held_clause ?_ _)
          simpa using hnew
        | groupBy => rfl
        | orderBy => rfl
        | page page => rfl
    · exact Owner.close_held h
  · exact Owner.close_held h

theorem Slot.close_held {slot : Slot} {last : Expr} (h : slot.close limit last t = .ok next) :
    next.held = last.labels + slot.held := by
  have hchain := slot.held_chain last
  unfold Slot.close at h
  split at h
  · rename_i filter keyword owner hframe
    rw [Owner.step_held h, Owner.held_setFilter filter keyword, ← hframe, hchain]
  · rename_i outer hframe
    obtain ⟨-, hn⟩ := expectSymbol_ok h
    cases hn
    rw [hframe, Frame.held] at hchain
    rw [State.held, Slot.labels_fill, Expr.labels, hchain]

theorem stepAfterCondition_held {expr : Expr} {slot : Slot}
    (h : stepAfterCondition limit expr slot t = .ok next) :
    next.held = expr.labels + slot.held := by
  unfold stepAfterCondition at h
  split at h
  · split at h
    · cases deeper_ok h
      obtain ⟨negation, links, frame⟩ := slot
      simp only [State.held, Slot.held, Slot.link, List.flatMap_cons, ← Multiset.coe_add]
      abel
    · exact Slot.close_held h
  · exact Slot.close_held h

theorem stepCondition_held {slot : Slot} (h : stepCondition limit slot t = .ok next) :
    next.held = slot.held := by
  unfold stepCondition at h
  split at h
  · split at h
    · cases h
      cases slot
      rfl
    · cases h
      rfl
  · split at h
    · cases deeper_ok h
      exact zero_add _
    · cases h

theorem stepOperator_held {left : String} {slot : Slot} (h : stepOperator left slot t = .ok next) :
    next.held = slot.held := by
  unfold stepOperator at h
  split at h
  · split at h
    · cases h
      rfl
    split at h <;> cases h <;> rfl
  · split at h <;> cases h
    rfl
  · cases h

theorem stepNegated_held {left negation : String} {slot : Slot}
    (h : stepNegated left negation slot t = .ok next) : next.held = slot.held := by
  unfold stepNegated at h
  split at h
  · split at h <;> cases h <;> rfl
  · cases h

theorem modifier?_held {stage : Stage} {draft : EntryDraft} {text : String}
    (h : modifier? stage draft text = some next) : next.held = draft.order.owner.held := by
  unfold modifier? at h
  split at h
  · split at h
    · cases h
      rfl
    split at h <;> cases h
    rfl
  · split at h <;> cases h
    rfl
  · split at h <;> cases h
    rfl
  · cases h

theorem stepAfterOrderWord_held {stage : Stage} {draft : EntryDraft}
    (h : stepAfterOrderWord limit stage draft t = .ok next) :
    next.held = draft.order.owner.held := by
  have hclosed : draft.close.close.held = draft.order.owner.held := Owner.held_setOrderBy _ _
  unfold stepAfterOrderWord at h
  split at h
  · split at h
    · rename_i hm
      cases h
      exact modifier?_held hm
    · exact (Owner.step_held h).trans hclosed
  · split at h
    · cases h
      rfl
    · exact (Owner.step_held h).trans hclosed

/-- A token leaves what the state holds, but for the label that it gives or replaces. -/
theorem State.step_held (h : st.step limit t = .ok next) :
    next.held + st.labelReplaced t = st.held + st.labelGiven t := by
  have plain (hr : st.labelReplaced t = []) (hg : st.labelGiven t = [])
      (hn : next.held = st.held) : next.held + st.labelReplaced t = st.held + st.labelGiven t := by
    rw [hr, hg, hn]
  have filled {slot : Slot} {expr : Expr} (he : expr.labels = []) :
      (State.afterCondition (slot.fill expr) slot).held = slot.held := by
    rw [State.held, Slot.labels_fill, he]
    exact zero_add _
  cases st with
  | atSelect outer =>
    obtain ⟨text, rfl, -, rfl⟩ := expectKeyword_ok h
    rfl
  | atName keyword outer =>
    obtain ⟨text, rfl, rfl⟩ := expectWord_ok h
    split <;> rfl
  | atDistinct keyword word outer =>
    refine plain rfl rfl ?_
    simp only [State.step, stepDistinct] at h
    split at h
    · exact stepAfterName_held h
    · obtain ⟨text, rfl, rfl⟩ := expectWord_ok h
      rfl
  | afterName name home => exact plain rfl rfl (stepAfterName_held h)
  | atTableLabel keyword name home =>
    obtain ⟨text, rfl, rfl⟩ := expectWord_ok h
    exact (add_zero _).trans (add_comm _ _)
  | atBlock table home => exact plain rfl rfl (openBlock_held h)
  | inBlock block => exact (Block.step_held h).trans (add_zero _).symm
  | atColumnLabel keyword column block =>
    obtain ⟨text, rfl, rfl⟩ := expectWord_ok h
    exact ((add_zero _).trans (Block.held_push block _)).trans (add_comm _ _)
  | atSubQueryLabel keyword select block =>
    obtain ⟨text, rfl, rfl⟩ := expectWord_ok h
    have hpush := Block.held_push block (.subQuery select (BracketQuery.labelled text keyword))
    rw [Field.labels, ← Multiset.coe_add, add_right_comm] at hpush
    exact (add_zero _).trans hpush
  | afterBlock owner => exact plain rfl rfl (Owner.step_held h)
  | atCondition slot => exact plain rfl rfl (stepCondition_held h)
  | atOperator left slot => exact plain rfl rfl (stepOperator_held h)
  | atNegated left negation slot => exact plain rfl rfl (stepNegated_held h)
  | atRight left op slot =>
    obtain ⟨text, rfl, rfl⟩ := expectWord_ok h
    exact plain rfl rfl (filled rfl)
  | atLow range slot =>
    obtain ⟨text, rfl, rfl⟩ := expectWord_ok h
    rfl
  | atAnd range low slot =>
    obtain ⟨text, rfl, -, rfl⟩ := expectKeyword_ok h
    rfl
  | atHigh range low andKeyword slot =>
    obtain ⟨text, rfl, rfl⟩ := expectWord_ok h
    exact plain rfl rfl (filled rfl)
  | atAmong keyword subject negated slot =>
    refine plain rfl rfl ?_
    obtain ⟨-, hn⟩ := expectSymbol_ok h
    cases deeper_ok hn
    rfl
  | afterCondition expr slot => exact plain rfl rfl (stepAfterCondition_held h)
  | atBy listing word owner =>
    obtain ⟨text, rfl, -, rfl⟩ := expectKeyword_ok h
    cases listing <;> rfl
  | atGroupColumn draft =>
    refine plain rfl rfl ?_
    simp only [State.step, stepGroupColumn] at h
    split at h
    · cases h
      rfl
    · split at h <;> cases h
  | afterGroupColumn draft =>
    refine plain rfl rfl ?_
    simp only [State.step, stepAfterGroupColumn] at h
    split at h
    · cases h
      rfl
    · exact (Owner.step_held h).trans (Owner.held_setGroupBy _ _)
  | atOrderColumn draft =>
    refine plain rfl rfl ?_
    simp only [State.step, stepOrderColumn] at h
    split at h
    · cases h
      rfl
    · split at h <;> cases h
  | afterOrderWord stage draft => exact plain rfl rfl (stepAfterOrderWord_held h)
  | atCollation draft =>
    obtain ⟨text, rfl, rfl⟩ := expectWord_ok h
    rfl
  | atNullsPlace draft =>
    obtain ⟨text, rfl, -, rfl⟩ := expectKeyword_ok h
    rfl
  | atPage page keyword owner =>
    obtain ⟨text, rfl, rfl⟩ := expectWord_ok h
    exact plain rfl rfl (Owner.held_setPage _ _ _)

theorem State.run_held {ts : List Token} {last : State} (h : st.run limit ts = .ok last) :
    last.held + st.along limit State.labelReplaced ts =
      st.held + st.along limit State.labelGiven ts := by
  induction ts generalizing st with
  | nil =>
    cases h
    rfl
  | cons t ts ih =>
    obtain ⟨next, hs, h⟩ := State.run_cons_ok h
    have hstep := State.step_held hs
    have hrest := ih h
    simp only [State.along, hs, ← Multiset.coe_add]
    calc last.held + (st.labelReplaced t + next.along limit State.labelReplaced ts)
        = last.held + next.along limit State.labelReplaced ts + st.labelReplaced t := by abel
      _ = next.held + st.labelReplaced t + next.along limit State.labelGiven ts := by
        rw [hrest]
        abel
      _ = st.held + (st.labelGiven t + next.along limit State.labelGiven ts) := by
        rw [hstep]
        abel

/- The end of the tokens. -/

theorem Owner.finish_held {owner : Owner} {s : Select} (h : owner.finish = .ok s) :
    owner.held = s.labels := by
  obtain ⟨table, home⟩ := owner
  cases home with
  | root head outer =>
    cases outer with
    | top =>
      cases h
      exact add_zero _
    | field block => cases h
    | among slot subject negated keyword => cases h
  | relation block => cases h

theorem State.finish_held {s : Select} (h : st.finish limit = .ok s) : st.held = s.labels := by
  cases st with
  | afterBlock owner => exact Owner.finish_held h
  | afterCondition expr slot =>
    have hchain := slot.held_chain expr
    simp only [State.finish, Slot.finish] at h
    split at h
    · rename_i filter keyword owner hframe
      have hheld := Owner.finish_held h
      rw [Owner.held_setFilter filter keyword, ← hframe, hchain] at hheld
      exact hheld
    · cases h
  | afterGroupColumn draft => exact (Owner.held_setGroupBy _ _).symm.trans (Owner.finish_held h)
  | afterOrderWord stage draft => exact (Owner.held_setOrderBy _ _).symm.trans (Owner.finish_held h)
  | atGroupColumn draft =>
    simp only [State.finish] at h
    split at h <;> cases h
  | atOrderColumn draft =>
    simp only [State.finish] at h
    split at h <;> cases h
  | _ => cases h

/- When nothing is replaced. -/

theorem Label.on_eq_nil (label : Label) (subject : Subject) :
    label.on subject = [] ↔ label.name.isSome = false := by
  unfold Label.on
  split <;> simp_all

theorem State.labelReplaced_eq_nil (st : State) (t : Token) :
    st.labelReplaced t = [] ↔ st.relabelledBy t = false := by
  cases st with
  | inBlock block =>
    obtain ⟨table, fields, home⟩ := block
    rw [State.relabelledBy_eq, State.labelReplaced]
    split
    · rename_i hk
      rw [hk, Bool.true_and]
      cases fields with
      | nil => simp [Block.lastLabel, State.labelled]
      | cons field rest =>
        cases field <;>
          simp [Block.lastLabel, State.labelled, Field.labelled, Label.on_eq_nil]
    · rename_i hk
      simp [hk]
  | _ => exact iff_of_true rfl rfl

theorem State.along_labelReplaced {ts : List Token} {last : State}
    (h : st.run limit ts = .ok last) :
    st.along limit State.labelReplaced ts = [] ↔ LabelsOnce limit st ts := by
  induction ts generalizing st with
  | nil => exact iff_of_true rfl fun us t vs he => by simp at he
  | cons t ts ih =>
    obtain ⟨next, hs, h⟩ := State.run_cons_ok h
    rw [labelsOnce_cons hs, ← State.labelReplaced_eq_nil, ← ih h, State.along, hs,
      List.append_eq_nil_iff]

/-- Each label that the tokens give is the label of a node of its own in the tree, or the next label
of the same field replaced it. -/
theorem Select.labels_perm {ts : List Token} {s : Select} (h : Select.ofTokens limit ts = .ok s) :
    (labelsGiven limit ts).Perm (s.labels ++ labelsReplaced limit ts) ∧
      (labelsReplaced limit ts = [] ↔ LabelsOnce limit .start (Token.significant ts)) := by
  obtain ⟨last, hr, hfinish⟩ := ofTokens_eq_ok h
  refine ⟨?_, State.along_labelReplaced hr⟩
  have hrun := State.run_held hr
  rw [State.finish_held hfinish] at hrun
  rw [← Multiset.coe_eq_coe, ← Multiset.coe_add]
  exact (zero_add _).symm.trans hrun.symm

/-- A column with two labels that becomes a relation. -/
theorem labels_perm_relation :
    let label (name : String) : Label := ⟨some name, none⟩
    let ts : List Token := [.word "select", .word "t", .word "as", .word "a", .symbol "[",
      .word "id", .word "as", .word "x", .word "as", .word "y", .symbol "\x7b", .word "n",
      .word "as", .word "z", .symbol "\x7d", .symbol "]"]
    let n : Field := .column ⟨"n", label "z"⟩
    let id : Field := .relation { name := "id", label := label "y", single := true, fields := [n] }
    let s : Select := { table := { name := "t", label := label "a", fields := [id] } }
    Select.ofTokens 3 ts = .ok s ∧
      labelsReplaced 3 ts = [(.named "id", label "x")] ∧
      s.labels = [(.named "t", label "a"), (.named "id", label "y"), (.named "n", label "z")] ∧
      (labelsGiven 3 ts).Perm (s.labels ++ labelsReplaced 3 ts) ∧
      ¬ LabelsOnce 3 .start (Token.significant ts) := by
  intro label ts n id s
  have hs : Select.ofTokens 3 ts = .ok s := rfl
  obtain ⟨hperm, honce⟩ := Select.labels_perm hs
  exact ⟨hs, rfl, rfl, hperm, fun h => List.cons_ne_nil _ _ (honce.2 h)⟩

/-- A second `as` is not refused: it takes the first label away. -/
theorem exists_label_replaced : ∃ (ts : List Token) (s : Select),
    Token.scan "select t [ id as x as y ]" = .ok ts ∧ Select.ofTokens 3 ts = .ok s ∧
      labelsGiven 3 ts =
        [(.named "id", ⟨some "x", none⟩), (.named "id", ⟨some "y", none⟩)] ∧
      s.labels = [(.named "id", ⟨some "y", none⟩)] := by
  refine ⟨[.word "select", .word "t", .symbol "[", .word "id", .word "as", .word "x", .word "as",
      .word "y", .symbol "]"],
    { table := { name := "t", fields := [.column ⟨"id", ⟨some "y", none⟩⟩] } },
    scan_of_toOption (by decide +kernel), rfl, rfl, rfl⟩

end BracketQuery
