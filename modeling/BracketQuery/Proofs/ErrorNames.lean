import BracketQuery.Compile
import BracketQuery.Proofs.Rescan

/-! What messages say. The names in an error are words of the query, which the reader keeps with
the constructs that are open; all else that comes from the query is shown with escapes. So every
message is one line. -/
namespace BracketQuery

/- The names in an error. -/

def Expectation.names : Expectation → List String
  | .selectKeyword | .tableName => []
  | .tableLabel name | .openBracket name | .fields name | .columnLabel name | .subQueryLabel name
  | .subQueryEnd name | .groupColumn name | .orderColumn name | .collation name | .nullsPlace name
  | .pageValue _ name => [name]
  | .leftSide site | .operator site | .rightSide site | .parenEnd site | .lowerBound site
  | .betweenAnd site | .upperBound site | .amongStart site | .amongEnd site => [site.table]
  | .conditionAfter op site => [op, site.table]
  | .byKeyword word table => [word, table]

def ReadError.names : ReadError → List String
  | .missing expected | .unexpected expected _ => expected.names
  | .unclosedBracket _ name | .emptyClause _ name | .labelWithoutField name
  | .labelAfterRelation name | .namelessRelation name | .repeatedClause _ name => [name]
  | .trailingToken _ | .tooDeep _ => []

/- The names that the reader keeps. -/

def Field.Names (P : String → Prop) : Field → Prop
  | .column c => P c.name
  | .relation t => P t.name
  | .subQuery _ _ => True

mutual

/-- Every name that an error can take from the construct has the property. -/
def Outer.Names (P : String → Prop) : Outer → Prop
  | .top => True
  | .field block => block.Names P
  | .among slot _ _ _ => slot.Names P

def Home.Names (P : String → Prop) : Home → Prop
  | .root _ outer => outer.Names P
  | .relation block => block.Names P

def Block.Names (P : String → Prop) : Block → Prop
  | ⟨table, fields, home⟩ => P table.name ∧ (∀ f ∈ fields, f.Names P) ∧ home.Names P

def Owner.Names (P : String → Prop) : Owner → Prop
  | ⟨table, home⟩ => P table.name ∧ home.Names P

def Slot.Names (P : String → Prop) : Slot → Prop
  | ⟨_, links, frame⟩ => (∀ l ∈ links, P l.2) ∧ frame.Names P

def Frame.Names (P : String → Prop) : Frame → Prop
  | .clause _ _ owner => owner.Names P
  | .paren slot => slot.Names P

end

def State.Names (P : String → Prop) : State → Prop
  | .atSelect outer | .atName _ outer => outer.Names P
  | .atDistinct _ word outer => P word ∧ outer.Names P
  | .afterName name home | .atTableLabel _ name home => P name ∧ home.Names P
  | .atBlock table home => P table.name ∧ home.Names P
  | .inBlock block | .atSubQueryLabel _ _ block => block.Names P
  | .atColumnLabel _ column block => P column.name ∧ block.Names P
  | .afterBlock owner | .atPage _ _ owner => owner.Names P
  | .atCondition slot | .atOperator _ slot | .atNegated _ _ slot | .atRight _ _ slot
  | .atLow _ slot | .atAnd _ _ slot | .atHigh _ _ _ slot | .atAmong _ _ _ slot
  | .afterCondition _ slot => slot.Names P
  | .atBy _ word owner => P word ∧ owner.Names P
  | .atGroupColumn draft | .afterGroupColumn draft => draft.owner.Names P
  | .atOrderColumn draft => draft.owner.Names P
  | .afterOrderWord _ draft | .atCollation draft | .atNullsPlace draft =>
    P draft.column ∧ draft.order.owner.Names P

/-- Every name of the state, or of the error, has the property. -/
def Known (P : String → Prop) : Reading → Prop
  | .ok st => st.Names P
  | .error e => ∀ w ∈ e.names, P w

variable {P : String → Prop} {limit : Nat} {t : Token}

theorem Block.names_iff {block : Block} : block.Names P ↔
    P block.table.name ∧ (∀ f ∈ block.fields, f.Names P) ∧ block.home.Names P := by
  cases block
  exact Iff.rfl

theorem Owner.names_iff {owner : Owner} :
    owner.Names P ↔ P owner.table.name ∧ owner.home.Names P := by
  cases owner
  exact Iff.rfl

theorem Slot.names_iff {slot : Slot} :
    slot.Names P ↔ (∀ l ∈ slot.links, P l.2) ∧ slot.frame.Names P := by
  cases slot
  exact Iff.rfl

theorem Owner.setFilter_names {owner : Owner} (h : owner.Names P) (filter : Filter)
    (condition : Condition) : (owner.setFilter filter condition).Names P := by
  cases filter <;> exact Owner.names_iff.1 h

theorem Owner.setPage_names {owner : Owner} (h : owner.Names P) (page : Page) (paging : Paging) :
    (owner.setPage page paging).Names P := by
  cases page <;> exact Owner.names_iff.1 h

theorem GroupDraft.close_names {draft : GroupDraft} (h : draft.owner.Names P) :
    draft.close.Names P := Owner.names_iff.1 h

theorem OrderDraft.close_names {draft : OrderDraft} (h : draft.owner.Names P) :
    draft.close.Names P := Owner.names_iff.1 h

theorem Block.push_names {block : Block} (h : block.Names P) {field : Field}
    (hfield : field.Names P) : (block.push field).Names P := by
  obtain ⟨hname, hfields, hhome⟩ := Block.names_iff.1 h
  exact ⟨hname, List.forall_mem_cons.2 ⟨hfield, hfields⟩, hhome⟩

mutual

theorem Slot.site_names : (slot : Slot) → slot.Names P → P slot.site.table
  | ⟨_, _, frame⟩, h => frame.site_names h.2

theorem Frame.site_names : (frame : Frame) → frame.Names P → P frame.site.table
  | .clause _ _ _, h => (Owner.names_iff.1 h).1
  | .paren slot, h => slot.site_names h

end

theorem Slot.only_site {slot : Slot} (h : slot.Names P) : ∀ w ∈ [slot.site.table], P w :=
  List.forall_mem_singleton.2 (slot.site_names h)

theorem Block.only_table {block : Block} (h : block.Names P) : ∀ w ∈ [block.table.name], P w :=
  List.forall_mem_singleton.2 (Block.names_iff.1 h).1

theorem Owner.only_table {owner : Owner} (h : owner.Names P) : ∀ w ∈ [owner.table.name], P w :=
  List.forall_mem_singleton.2 (Owner.names_iff.1 h).1

/- One token. -/

theorem deeper_known {depth : Nat} {next : Reading} (h : Known P next) :
    Known P (deeper limit depth next) := by
  unfold deeper
  split
  · exact h
  · simp [Known, ReadError.names]

theorem expectWord_known {expected : Expectation} {next : String → State}
    (hexpected : ∀ w ∈ expected.names, P w) (h : ∀ w, t = .word w → (next w).Names P) :
    Known P (expectWord expected t next) := by
  cases t with
  | word text => exact h text rfl
  | _ => exact hexpected

theorem expectKeyword_known {keywords : List String} {expected : Expectation}
    {next : String → State} (hexpected : ∀ w ∈ expected.names, P w)
    (h : ∀ w, t = .word w → (next w).Names P) :
    Known P (expectKeyword keywords expected t next) := by
  cases t with
  | word text =>
    rw [expectKeyword]
    split
    · exact h text rfl
    · exact hexpected
  | _ => exact hexpected

theorem expectSymbol_known {symbol : String} {expected : Expectation} {next : Reading}
    (hexpected : ∀ w ∈ expected.names, P w) (h : Known P next) :
    Known P (expectSymbol symbol expected t next) := by
  unfold expectSymbol
  split
  · exact h
  · exact hexpected

theorem openBlock_known {table : Table} {home : Home} (hname : P table.name)
    (hhome : home.Names P) : Known P (openBlock limit table home t) := by
  have hblock (single : Bool) :
      (State.inBlock ⟨{ table with single := single }, [], home⟩).Names P := ⟨hname, by simp, hhome⟩
  refine deeper_known ?_
  split
  · exact hblock false
  split
  · exact hblock true
  · exact List.forall_mem_singleton.2 hname

theorem stepAfterName_known {name : String} {home : Home} (hname : P name) (hhome : home.Names P) :
    Known P (stepAfterName limit name home t) := by
  unfold stepAfterName
  split
  · split
    · exact ⟨hname, hhome⟩
    · exact openBlock_known hname hhome
  · exact openBlock_known hname hhome

theorem Block.relabel_known {block : Block} (h : block.Names P) (keyword : String) :
    Known P (block.relabel keyword) := by
  obtain ⟨hname, hfields, hhome⟩ := Block.names_iff.1 h
  obtain ⟨table, fields, home⟩ := block
  cases fields with
  | nil => exact List.forall_mem_singleton.2 hname
  | cons f rest =>
    obtain ⟨hf, hrest⟩ := List.forall_mem_cons.1 hfields
    cases f with
    | column column => exact ⟨hf, hname, hrest, hhome⟩
    | relation relation => exact List.forall_mem_singleton.2 hf
    | subQuery select label => exact ⟨hname, hrest, hhome⟩

theorem Block.nest_known {block : Block} (h : block.Names P) : Known P (block.nest limit t) := by
  obtain ⟨hname, hfields, hhome⟩ := Block.names_iff.1 h
  unfold Block.nest
  split
  · rename_i column rest hcons
    rw [hcons] at hfields
    obtain ⟨hcolumn, hrest⟩ := List.forall_mem_cons.1 hfields
    exact openBlock_known hcolumn ⟨hname, hrest, hhome⟩
  · exact Block.only_table h

theorem Block.step_known {block : Block} (h : block.Names P) (ht : ∀ w, t = .word w → P w) :
    Known P (block.step limit t) := by
  obtain ⟨hname, -, hhome⟩ := Block.names_iff.1 h
  unfold Block.step
  split
  · split
    · exact Block.relabel_known h _
    · exact Block.push_names h (ht _ rfl)
  split
  · exact ⟨hname, hhome⟩
  split
  · exact h
  split
  · exact Block.nest_known h
  split
  · exact deeper_known h
  · exact Block.only_table h

theorem Outer.close_known {outer : Outer} (h : outer.Names P) (select : Select) :
    Known P (outer.close select t) := by
  cases outer with
  | top => simp [Outer.close, Known, ReadError.names]
  | field block => exact expectSymbol_known (Block.only_table h) (Block.push_names h trivial)
  | among slot subject negated keyword => exact expectSymbol_known (Slot.only_site h) h

theorem Owner.close_known {owner : Owner} (h : owner.Names P) (ht : ∀ w, t = .word w → P w) :
    Known P (owner.close limit t) := by
  obtain ⟨table, home⟩ := owner
  cases home with
  | root head outer => exact Outer.close_known h.2 _
  | relation block => exact Block.step_known (Block.push_names h.2 h.1) ht

theorem Owner.step_known {owner : Owner} (h : owner.Names P) (ht : ∀ w, t = .word w → P w) :
    Known P (owner.step limit t) := by
  unfold Owner.step
  split
  · rename_i text
    split
    · rename_i clause _
      split
      · exact Owner.only_table h
      · cases clause with
        | filter filter => exact ⟨by simp, h⟩
        | page page => exact h
        | _ => exact ⟨ht text rfl, h⟩
    · exact Owner.close_known h ht
  · exact Owner.close_known h ht

theorem Slot.close_known {slot : Slot} (h : slot.Names P) (last : Expr)
    (ht : ∀ w, t = .word w → P w) : Known P (slot.close limit last t) := by
  obtain ⟨negation, links, frame⟩ := slot
  cases frame with
  | clause filter keyword owner => exact Owner.step_known (Owner.setFilter_names h.2 _ _) ht
  | paren outer => exact expectSymbol_known (Slot.only_site h.2) h.2

theorem stepAfterCondition_known {slot : Slot} (h : slot.Names P) (e : Expr)
    (ht : ∀ w, t = .word w → P w) : Known P (stepAfterCondition limit e slot t) := by
  obtain ⟨hlinks, hframe⟩ := Slot.names_iff.1 h
  unfold stepAfterCondition
  split
  · rename_i text
    split
    · exact deeper_known ⟨List.forall_mem_cons.2 ⟨ht text rfl, hlinks⟩, hframe⟩
    · exact Slot.close_known h e ht
  · exact Slot.close_known h e ht

theorem modifier?_names {stage : Stage} {draft : EntryDraft} {text : String} {next : State}
    (hcolumn : P draft.column) (howner : draft.order.owner.Names P)
    (h : modifier? stage draft text = some next) : next.Names P := by
  unfold modifier? at h
  split at h
  · split at h
    · cases h
      exact ⟨hcolumn, howner⟩
    split at h <;> cases h
    exact ⟨hcolumn, howner⟩
  · split at h <;> cases h
    exact ⟨hcolumn, howner⟩
  · split at h <;> cases h
    exact ⟨hcolumn, howner⟩
  · cases h

theorem State.step_known {st : State} (h : st.Names P) (ht : ∀ w, t = .word w → P w) :
    Known P (st.step limit t) := by
  cases st with
  | atSelect outer => exact expectKeyword_known (by simp [Expectation.names]) fun _ _ => h
  | atName keyword outer =>
    refine expectWord_known (by simp [Expectation.names]) fun w hw => ?_
    split
    · exact ⟨ht w hw, h⟩
    · exact ⟨ht w hw, h⟩
  | atDistinct keyword word outer =>
    simp only [State.step, stepDistinct]
    split
    · exact stepAfterName_known h.1 h.2
    · exact expectWord_known (by simp [Expectation.names]) fun w hw => ⟨ht w hw, h.2⟩
  | afterName name home => exact stepAfterName_known h.1 h.2
  | atTableLabel keyword name home =>
    exact expectWord_known (List.forall_mem_singleton.2 h.1) fun _ _ => h
  | atBlock table home => exact openBlock_known h.1 h.2
  | inBlock block => exact Block.step_known h ht
  | atColumnLabel keyword column block =>
    exact expectWord_known (List.forall_mem_singleton.2 h.1) fun _ _ => Block.push_names h.2 h.1
  | atSubQueryLabel keyword select block =>
    exact expectWord_known (Block.only_table h) fun _ _ => Block.push_names h trivial
  | afterBlock owner => exact Owner.step_known h ht
  | atCondition slot =>
    simp only [State.step, stepCondition]
    split
    · split
      · exact Slot.names_iff.1 h
      · exact h
    split
    · exact deeper_known ⟨by simp, h⟩
    · exact Slot.only_site h
  | atOperator left slot =>
    simp only [State.step, stepOperator]
    split
    · split
      · exact h
      split
      · exact h
      · exact h
      · exact h
      · exact Slot.only_site h
    · split
      · exact Slot.only_site h
      · exact h
    · exact Slot.only_site h
  | atNegated left negation slot =>
    simp only [State.step, stepNegated]
    split
    · split
      · exact h
      · exact h
      · exact h
      · exact Slot.only_site h
    · exact Slot.only_site h
  | atRight left op slot => exact expectWord_known (Slot.only_site h) fun _ _ => h
  | atLow range slot => exact expectWord_known (Slot.only_site h) fun _ _ => h
  | atAnd range low slot => exact expectKeyword_known (Slot.only_site h) fun _ _ => h
  | atHigh range low andKeyword slot => exact expectWord_known (Slot.only_site h) fun _ _ => h
  | atAmong keyword subject negated slot =>
    exact expectSymbol_known (Slot.only_site h) (deeper_known h)
  | afterCondition e slot => exact stepAfterCondition_known h e ht
  | atBy listing word owner =>
    refine expectKeyword_known (List.forall_mem_cons.2 ⟨h.1, Owner.only_table h.2⟩) fun _ _ => ?_
    cases listing <;> exact h.2
  | atGroupColumn draft =>
    simp only [State.step, stepGroupColumn]
    split
    · exact h
    split
    · exact Owner.only_table h
    · exact Owner.only_table h
  | afterGroupColumn draft =>
    simp only [State.step, stepAfterGroupColumn]
    split
    · exact h
    · exact Owner.step_known (GroupDraft.close_names h) ht
  | atOrderColumn draft =>
    simp only [State.step, stepOrderColumn]
    split
    · exact ⟨ht _ rfl, h⟩
    split
    · exact Owner.only_table h
    · exact Owner.only_table h
  | afterOrderWord stage draft =>
    simp only [State.step, stepAfterOrderWord]
    split
    · split
      · exact modifier?_names h.1 h.2 ‹_›
      · exact Owner.step_known (OrderDraft.close_names h.2) ht
    split
    · exact h.2
    · exact Owner.step_known (OrderDraft.close_names h.2) ht
  | atCollation draft => exact expectWord_known (List.forall_mem_singleton.2 h.1) fun _ _ => h
  | atNullsPlace draft => exact expectKeyword_known (List.forall_mem_singleton.2 h.1) fun _ _ => h
  | atPage page keyword owner =>
    exact expectWord_known (Owner.only_table h) fun _ _ => Owner.setPage_names h page _

variable {e : ReadError}

end BracketQuery
