import BracketQuery.Proofs.Derivation

/-! The brackets of a query. In the tokens of every query that is read they close in the order in
which they open, each with its own kind, and the pairs around field blocks are those of the tables
of the tree, one pair for each table. -/
namespace BracketQuery

/-- A pair of brackets with the pairs inside it. The pair around a field block is marked. -/
inductive Pair (α : Type) where
  | block (mark : α) (inner : List (Pair α))
  | paren (inner : List (Pair α))

namespace Pair

variable {α β : Type}

mutual

def map (f : α → β) : Pair α → Pair β
  | .block a inner => .block (f a) (mapAll f inner)
  | .paren inner => .paren (mapAll f inner)

def mapAll (f : α → β) : List (Pair α) → List (Pair β)
  | [] => []
  | p :: ps => map f p :: mapAll f ps

end

mutual

/-- The marks of field blocks, each with the pairs inside the block. -/
def blocks : Pair α → List (α × List (Pair α))
  | .block a inner => (a, inner) :: blocksAll inner
  | .paren inner => blocksAll inner

def blocksAll : List (Pair α) → List (α × List (Pair α))
  | [] => []
  | p :: ps => blocks p ++ blocksAll ps

end

def marks (ps : List (Pair α)) : List α := (blocksAll ps).map Prod.fst

theorem mapAll_append (f : α → β) (ps qs : List (Pair α)) :
    mapAll f (ps ++ qs) = mapAll f ps ++ mapAll f qs := by
  induction ps with
  | nil => rfl
  | cons p ps ih => simp [mapAll, ih]

theorem blocksAll_append (ps qs : List (Pair α)) :
    blocksAll (ps ++ qs) = blocksAll ps ++ blocksAll qs := by
  induction ps with
  | nil => rfl
  | cons p ps ih => simp [blocksAll, ih]

@[simp] theorem marks_append (ps qs : List (Pair α)) : marks (ps ++ qs) = marks ps ++ marks qs := by
  simp [marks, blocksAll_append]

end Pair

/- Matching brackets. -/

inductive Bracket where
  | block (single : Bool)
  | paren
deriving DecidableEq

namespace Bracket

def kinds : List Bracket := [.block false, .block true, .paren]

def opening : Bracket → Token
  | .block single => .symbol (openBracket single)
  | .paren => .symbol "("

def closing : Bracket → Token
  | .block single => .symbol (closeBracket single)
  | .paren => .symbol ")"

def pair (inner : List (Pair Bool)) : Bracket → Pair Bool
  | .block single => .block single inner
  | .paren => .paren inner

def opened? (t : Token) : Option Bracket := kinds.find? (t = ·.opening)

def closed? (t : Token) : Option Bracket := kinds.find? (t = ·.closing)

end Bracket

mutual

def Pair.written : Pair Bool → List Token
  | .block single inner =>
    (Bracket.block single).opening :: writtenAll inner ++ [(Bracket.block single).closing]
  | .paren inner => Bracket.paren.opening :: writtenAll inner ++ [Bracket.paren.closing]

def Pair.writtenAll : List (Pair Bool) → List Token
  | [] => []
  | p :: ps => p.written ++ writtenAll ps

end

theorem Pair.writtenAll_append (ps qs : List (Pair Bool)) :
    writtenAll (ps ++ qs) = writtenAll ps ++ writtenAll qs := by
  induction ps with
  | nil => rfl
  | cons p ps ih => simp [writtenAll, ih]

theorem Bracket.written_pair (b : Bracket) (inner : List (Pair Bool)) :
    (b.pair inner).written = b.opening :: Pair.writtenAll inner ++ [b.closing] := by
  cases b <;> rfl

/-- What is known of the brackets between two tokens: the pairs at this place, the last one first,
and the brackets that are open, each with the pairs before it, the innermost one first. -/
structure Nesting where
  done : List (Pair Bool) := []
  around : List (Bracket × List (Pair Bool)) := []

namespace Nesting

def opens (n : Nesting) (b : Bracket) : Nesting := ⟨[], (b, n.done) :: n.around⟩

/-- A bracket closes the innermost one that is open, if that is of its kind. -/
def closes? (n : Nesting) (b : Bracket) : Option Nesting :=
  match n.around with
  | (c, before) :: around => if b = c then some ⟨b.pair n.done.reverse :: before, around⟩ else none
  | [] => none

def step (n : Nesting) (t : Token) : Option Nesting :=
  match Bracket.opened? t with
  | some b => some (n.opens b)
  | none =>
    match Bracket.closed? t with
    | some b => n.closes? b
    | none => some n

def run (n : Nesting) (ts : List Token) : Option Nesting := ts.foldlM step n

def add (n : Nesting) (ps : List (Pair Bool)) : Nesting := { n with done := ps.reverse ++ n.done }

def written (n : Nesting) : List Token :=
  n.around.reverse.flatMap (fun a => Pair.writtenAll a.2.reverse ++ [a.1.opening]) ++
    Pair.writtenAll n.done.reverse

theorem written_opens (n : Nesting) (b : Bracket) :
    (n.opens b).written = n.written ++ [b.opening] := by
  simp [written, opens, Pair.writtenAll]

theorem written_closes? {n m : Nesting} {b : Bracket} (h : n.closes? b = some m) :
    m.written = n.written ++ [b.closing] := by
  obtain ⟨done, around⟩ := n
  cases around with
  | nil => cases h
  | cons top around =>
    obtain ⟨c, before⟩ := top
    obtain ⟨rfl, hm⟩ := Option.ite_none_right_eq_some.1 h
    cases hm
    simp [written, Pair.writtenAll_append, Pair.writtenAll, Bracket.written_pair]

end Nesting

/-- The pairs of brackets among tokens, if each bracket is closed by one of its kind, and not before
those that were opened after it. -/
def Token.pairs? (ts : List Token) : Option (List (Pair Bool)) :=
  match Nesting.run {} ts with
  | some ⟨done, []⟩ => some done.reverse
  | _ => none

namespace Token

def isBracket (t : Token) : Bool := (Bracket.opened? t).isSome || (Bracket.closed? t).isSome

theorem step_of_isBracket {t : Token} (h : t.isBracket = false) (n : Nesting) :
    n.step t = some n := by
  simp only [isBracket, Bool.or_eq_false_iff, Option.isSome_eq_false_iff,
    Option.isNone_iff_eq_none] at h
  simp [Nesting.step, h.1, h.2]

theorem written_step {n m : Nesting} {t : Token} (h : n.step t = some m) :
    m.written = n.written ++ [t].filter isBracket := by
  rw [Nesting.step] at h
  cases hopen : Bracket.opened? t with
  | some b =>
    obtain rfl : n.opens b = m := by simpa [hopen] using h
    have ht : t = b.opening := by simpa using List.find?_some hopen
    rw [List.filter_cons_of_pos (by simp [isBracket, hopen]), Nesting.written_opens, ht]
    rfl
  | none =>
    cases hclose : Bracket.closed? t with
    | some b =>
      have ht : t = b.closing := by simpa using List.find?_some hclose
      rw [List.filter_cons_of_pos (by simp [isBracket, hclose]), ht]
      exact Nesting.written_closes? (by simpa [hopen, hclose] using h)
    | none =>
      obtain rfl : n = m := by simpa [hopen, hclose] using h
      simp [isBracket, hopen, hclose]

theorem written_run {n m : Nesting} {ts : List Token} (h : n.run ts = some m) :
    m.written = n.written ++ ts.filter isBracket := by
  induction ts generalizing n with
  | nil =>
    cases h
    simp
  | cons t ts ih =>
    obtain ⟨k, hk, hm⟩ := Option.bind_eq_some_iff.1 h
    rw [ih hm, written_step hk, List.append_assoc, ← List.filter_append, List.singleton_append]

theorem written_of_pairs? {ts : List Token} {ps : List (Pair Bool)} (h : pairs? ts = some ps) :
    ts.filter isBracket = Pair.writtenAll ps := by
  rw [pairs?] at h
  split at h
  · rename_i done hrun
    cases h
    simpa [Nesting.written, Pair.writtenAll] using (written_run hrun).symm
  · cases h

theorem run_significant (ts : List Token) (n : Nesting) : n.run (significant ts) = n.run ts := by
  induction ts generalizing n with
  | nil => rfl
  | cons t ts ih =>
    have hcons : (t :: significant ts).foldlM Nesting.step n = n.run (t :: ts) := by
      simp only [Nesting.run, List.foldlM_cons]
      exact congrArg _ (funext ih)
    cases t with
    | newline => exact ih n
    | word w => exact hcons
    | symbol s => exact hcons

def Plain (ts : List Token) : Prop := ∀ t ∈ ts, t.isBracket = false

@[simp] theorem isBracket_word (w : String) : (Token.word w).isBracket = false := rfl

theorem Plain.append {ts us : List Token} (h : Plain ts) (h' : Plain us) : Plain (ts ++ us) :=
  List.forall_mem_append.2 ⟨h, h'⟩

theorem plain_words (ws : List String) : Plain (ws.map .word) := by simp [Plain]

theorem plain_flatMap {α : Type} {g : α → List Token} (h : ∀ a, Plain (g a)) (as : List α) :
    Plain (as.flatMap g) := by
  intro t ht
  obtain ⟨a, -, hg⟩ := List.mem_flatMap.1 ht
  exact h a t hg

/-- The tokens bring these pairs, whatever there is around them. -/
def Adds (ts : List Token) (ps : List (Pair Bool)) : Prop :=
  ∀ n : Nesting, n.run ts = some (n.add ps)

variable {ts us : List Token} {ps qs : List (Pair Bool)}

theorem Adds.append (h : Adds ts ps) (h' : Adds us qs) : Adds (ts ++ us) (ps ++ qs) := by
  intro n
  have hadd : (n.add ps).add qs = n.add (ps ++ qs) := by simp [Nesting.add]
  rw [Nesting.run, List.foldlM_append, ← Nesting.run, h n, ← hadd]
  exact h' (n.add ps)

theorem Plain.adds (h : Plain ts) : Adds ts [] := by
  intro n
  induction ts with
  | nil => rfl
  | cons t ts ih =>
    obtain ⟨ht, hts⟩ := List.forall_mem_cons.1 h
    rw [Nesting.run, List.foldlM_cons, step_of_isBracket ht]
    exact ih hts

theorem Adds.after (h : Adds us ps) (hts : Plain ts) : Adds (ts ++ us) ps := hts.adds.append h

theorem Adds.before (h : Adds ts ps) (hus : Plain us) : Adds (ts ++ us) ps := by
  simpa using h.append hus.adds

theorem Adds.enclose (h : Adds ts ps) (b : Bracket) :
    Adds (b.opening :: ts ++ [b.closing]) [b.pair ps] := by
  intro n
  have hopen : n.step b.opening = some (n.opens b) := by
    cases b with
    | paren => rfl
    | block single => cases single <;> rfl
  have hclose : ((n.opens b).add ps).step b.closing = some (n.add [b.pair ps]) := by
    have hstep (m : Nesting) : m.step b.closing = m.closes? b := by
      cases b with
      | paren => rfl
      | block single => cases single <;> rfl
    rw [hstep]
    simp [Nesting.closes?, Nesting.opens, Nesting.add]
  rw [Nesting.run, List.cons_append, List.foldlM_cons, hopen]
  show (ts ++ [b.closing]).foldlM Nesting.step (n.opens b) = _
  rw [List.foldlM_append, ← Nesting.run, h]
  simp [hclose]

theorem pairs?_of_adds (h : Adds (significant ts) ps) : pairs? ts = some ps := by
  rw [pairs?, ← run_significant, h]
  simp [Nesting.add]

end Token

/- The tables of a tree, each before those in its fields and conditions. -/
mutual

def Select.tables : Select → List Table
  | ⟨_, _, _, table⟩ => table.tables

def Table.tables : Table → List Table
  | ⟨name, label, single, fields, rowFilter, groupFilter, groupBy, orderBy, limit, offset⟩ =>
    ⟨name, label, single, fields, rowFilter, groupFilter, groupBy, orderBy, limit, offset⟩ ::
      fieldsTables fields ++ conditionTables rowFilter ++ conditionTables groupFilter

def fieldsTables : List Field → List Table
  | [] => []
  | field :: fields => field.tables ++ fieldsTables fields

def Field.tables : Field → List Table
  | .column _ => []
  | .relation table => table.tables
  | .subQuery select _ => select.tables

def conditionTables : Option Condition → List Table
  | none => []
  | some ⟨_, expr⟩ => expr.tables

def Expr.tables : Expr → List Table
  | .compare left _ right => left.tables ++ right.tables
  | .not _ inner => inner.tables
  | .paren inner => inner.tables
  | .between .. => []
  | .among _ _ _ select => select.tables

def Operand.tables : Operand → List Table
  | .value _ => []
  | .expr expr => expr.tables

end

/- The brackets of a phrase, with its tables. -/
mutual

def SelectPhrase.pairs : SelectPhrase → List (Pair Table)
  | ⟨_, _, name, label, body⟩ => body.pairs name ((label.map LabelPhrase.label).getD {})

def BodyPhrase.pairs (body : BodyPhrase) (name : String) (label : Label) : List (Pair Table) :=
  match body with
  | ⟨single, n, fields, clauses⟩ =>
    .block (BodyPhrase.table ⟨single, n, fields, clauses⟩ name label) (fieldsPairs fields) ::
      clausesPairs clauses

def FieldPhrase.pairs : FieldPhrase → List (Pair Table)
  | .column .. => []
  | .relation name labels _ body _ => body.pairs name.text (lastLabel labels)
  | .subQuery select _ _ => [.paren select.pairs]

def fieldsPairs : List FieldPhrase → List (Pair Table)
  | [] => []
  | f :: fs => f.pairs ++ fieldsPairs fs

def ClausePhrase.pairs : ClausePhrase → List (Pair Table)
  | .filter _ _ chain => chain.pairs
  | .groupBy .. => []
  | .orderBy .. => []
  | .page .. => []

def clausesPairs : List ClausePhrase → List (Pair Table)
  | [] => []
  | c :: cs => c.pairs ++ clausesPairs cs

def ChainPhrase.pairs : ChainPhrase → List (Pair Table)
  | .last _ test => test.pairs
  | .link _ test _ rest => test.pairs ++ rest.pairs

def TestPhrase.pairs : TestPhrase → List (Pair Table)
  | .compare .. => []
  | .between .. => []
  | .among _ _ _ select => [.paren select.pairs]
  | .paren inner => [.paren inner.pairs]

end

open Token (Adds Plain)

def kinds (ps : List (Pair Table)) : List (Pair Bool) := Pair.mapAll Table.single ps

@[simp] theorem kinds_append (ps qs : List (Pair Table)) :
    kinds (ps ++ qs) = kinds ps ++ kinds qs := Pair.mapAll_append ..

/- The tokens between the brackets. -/

theorem plain_commas (n : Nat) : Plain (commas n) := by
  intro t ht
  rw [List.eq_of_mem_replicate ht]
  rfl

theorem plain_labelsTokens (labels : List (Nat × LabelPhrase)) : Plain (labelsTokens labels) :=
  Token.plain_flatMap (fun l : Nat × LabelPhrase => (plain_commas l.1).append
    (Token.plain_words [l.2.keyword.text, l.2.name])) labels

theorem plain_negationTokens (negation : Option (Keyword "not")) :
    Plain (negationTokens negation) := by
  cases negation with
  | none => exact Token.plain_words []
  | some k => exact Token.plain_words [_]

theorem plain_headTokens (keyword : Keyword "select") (distinct : Option (Keyword "distinct"))
    (name : String) (label : Option LabelPhrase) :
    Plain (headTokens keyword distinct name label) := by
  cases distinct <;> cases label <;> simp [Plain, headTokens, LabelPhrase.tokens, Keyword.token]

theorem OperatorPhrase.plain_tokens (op : OperatorPhrase) : Plain op.tokens := by
  cases op with
  | symbol text free =>
    have hsymbol : (Token.symbol text).isBracket = false := by
      simp only [isStructural, List.contains_eq_mem, List.mem_cons, List.not_mem_nil, or_false,
        decide_eq_false_iff_not, not_or] at free
      simp [Token.isBracket, Bracket.opened?, Bracket.closed?, Bracket.kinds, Bracket.opening,
        Bracket.closing, openBracket, closeBracket, free]
    simpa [Plain, tokens] using hsymbol
  | word text like => exact Token.plain_words [_]
  | negated negation text like => exact Token.plain_words [_, _]

theorem plain_groupTokens (front : List String) (last : String) : Plain (groupTokens front last) :=
  (Token.plain_flatMap (fun c => (Token.plain_words [c]).append (plain_commas 1)) front).append
    (Token.plain_words [last])

theorem plain_orderTokens (front : List EntryPhrase) (last : EntryPhrase) :
    Plain (orderTokens front last) :=
  (Token.plain_flatMap (fun e : EntryPhrase => (Token.plain_words (e.column :: e.modifiers)).append
    (plain_commas 1)) front).append (Token.plain_words (last.column :: last.modifiers))

/- The brackets of a phrase are those of its tables, its nested selects and its parentheses. -/
mutual

theorem SelectPhrase.adds : (c : SelectPhrase) → Adds c.tokens (kinds c.pairs)
  | ⟨keyword, distinct, name, label, body⟩ =>
    (BodyPhrase.adds body name _).after (plain_headTokens keyword distinct name label)

theorem BodyPhrase.adds : (body : BodyPhrase) → ∀ name label,
    Adds body.tokens (kinds (body.pairs name label))
  | ⟨single, n, fields, clauses⟩, name, label => by
    have hblock := ((adds_fieldsTokens fields).after (plain_commas n)).enclose (.block single)
    have hbody := hblock.append (adds_clausesTokens clauses)
    rw [List.append_assoc] at hbody
    exact hbody

theorem FieldPhrase.adds : (f : FieldPhrase) → Adds f.tokens (kinds f.pairs)
  | .column name labels n =>
    (((Token.plain_words [name.text]).append (plain_labelsTokens labels)).append
      (plain_commas n)).adds
  | .relation name labels gap body n => by
    have hhead := ((Token.plain_words [name.text]).append (plain_labelsTokens labels)).append
      (plain_commas gap)
    exact ((BodyPhrase.adds body _ _).after hhead).before (plain_commas n)
  | .subQuery select labels n => by
    have hparen := ((SelectPhrase.adds select).enclose .paren).before (plain_labelsTokens labels)
    rw [List.append_assoc] at hparen
    exact hparen.before (plain_commas n)

theorem adds_fieldsTokens : (fs : List FieldPhrase) →
    Adds (fieldsTokens fs) (kinds (fieldsPairs fs))
  | [] => (Token.plain_words []).adds
  | f :: fs => by
    rw [fieldsPairs, kinds_append]
    exact (FieldPhrase.adds f).append (adds_fieldsTokens fs)

theorem ClausePhrase.adds : (c : ClausePhrase) → Adds c.tokens (kinds c.pairs)
  | .filter _ keyword chain => (ChainPhrase.adds chain).after (Token.plain_words [keyword.text])
  | .groupBy keyword front last =>
    ((Token.plain_words [keyword.first.text, keyword.second.text]).append
      (plain_groupTokens front last)).adds
  | .orderBy keyword front last =>
    ((Token.plain_words [keyword.first.text, keyword.second.text]).append
      (plain_orderTokens front last)).adds
  | .page _ keyword value => (Token.plain_words [keyword.text, value]).adds

theorem adds_clausesTokens : (cs : List ClausePhrase) →
    Adds (clausesTokens cs) (kinds (clausesPairs cs))
  | [] => (Token.plain_words []).adds
  | c :: cs => by
    rw [clausesPairs, kinds_append]
    exact (ClausePhrase.adds c).append (adds_clausesTokens cs)

theorem ChainPhrase.adds : (chain : ChainPhrase) → Adds chain.tokens (kinds chain.pairs)
  | .last negation test => (TestPhrase.adds test).after (plain_negationTokens negation)
  | .link negation test op rest => by
    have htest := (TestPhrase.adds test).after (plain_negationTokens negation)
    have hrest := (ChainPhrase.adds rest).after (Token.plain_words [op.text])
    rw [ChainPhrase.pairs, kinds_append]
    exact htest.append hrest

theorem TestPhrase.adds : (test : TestPhrase) → Adds test.tokens (kinds test.pairs)
  | .compare left op right =>
    (((Token.plain_words [left]).append op.plain_tokens).append (Token.plain_words [right])).adds
  | .between subject negation keyword low andKeyword high =>
    (((Token.plain_words [subject]).append (plain_negationTokens negation)).append
      (Token.plain_words [keyword.text, low, andKeyword.text, high])).adds
  | .among subject negation keyword select => by
    have hfront := ((Token.plain_words [subject]).append (plain_negationTokens negation)).append
      (Token.plain_words [keyword.text])
    have htest := ((SelectPhrase.adds select).enclose .paren).after hfront
    show Adds _ [.paren (kinds select.pairs)]
    simpa [TestPhrase.tokens, Keyword.token, Bracket.opening, Bracket.closing, Bracket.pair]
      using htest
  | .paren inner => (ChainPhrase.adds inner).enclose .paren

end

/-- The blocks among the pairs are those of the tables, one block for each table, and inside the
block of a table are those of the tables in its fields. -/
structure Outlines (ps : List (Pair Table)) (tables : List Table) : Prop where
  marks : (Pair.marks ps).Perm tables
  inner : ∀ p ∈ Pair.blocksAll ps, (Pair.marks p.2).Perm (fieldsTables p.1.fields)

namespace Outlines

variable {ps qs : List (Pair Table)} {tables others : List Table}

theorem nil : Outlines [] [] := ⟨.refl _, by simp [Pair.blocksAll]⟩

theorem append (h : Outlines ps tables) (h' : Outlines qs others) :
    Outlines (ps ++ qs) (tables ++ others) where
  marks := by
    rw [Pair.marks_append]
    exact h.marks.append h'.marks
  inner := by
    rw [Pair.blocksAll_append]
    exact List.forall_mem_append.2 ⟨h.inner, h'.inner⟩

theorem perm (h : Outlines ps tables) (hp : tables.Perm others) : Outlines ps others :=
  ⟨h.marks.trans hp, h.inner⟩

theorem paren (h : Outlines ps tables) : Outlines [.paren ps] tables := by
  have hblocks : Pair.blocksAll [.paren ps] = Pair.blocksAll ps := List.append_nil _
  refine ⟨?_, by rw [hblocks]; exact h.inner⟩
  rw [Pair.marks, hblocks]
  exact h.marks

theorem block {t : Table} (h : Outlines ps (fieldsTables t.fields)) :
    Outlines [.block t ps] (t :: fieldsTables t.fields) := by
  have hblocks : Pair.blocksAll [.block t ps] = (t, ps) :: Pair.blocksAll ps := List.append_nil _
  refine ⟨?_, ?_⟩
  · rw [Pair.marks, hblocks]
    exact h.marks.cons t
  · rw [hblocks]
    exact List.forall_mem_cons.2 ⟨h.marks, h.inner⟩

end Outlines

theorem tables_negated (negation : Option (Keyword "not")) (e : Expr) :
    (negated negation e).tables = e.tables := by
  cases negation <;> simp [negated, Expr.tables]

theorem conditionOf_eq_none {f : Filter} {cs : List ClausePhrase}
    (h : .filter f ∉ cs.map ClausePhrase.kind) : conditionOf f cs = none := by
  rw [conditionOf_eq, List.findSome?_eq_none_iff]
  intro c hc
  rw [← Option.not_isSome_iff_eq_none, ClausePhrase.condition?_isSome]
  exact fun hkind => h (List.mem_map.2 ⟨c, hc, hkind⟩)

mutual

theorem SelectPhrase.outlines {once : Bool} : (c : SelectPhrase) → c.Valid once →
    Outlines c.pairs c.select.tables
  | ⟨_, _, name, _, body⟩, h => BodyPhrase.outlines body h.2 name _

theorem BodyPhrase.outlines {once : Bool} : (body : BodyPhrase) → body.Valid once →
    ∀ name label, Outlines (body.pairs name label) (body.table name label).tables
  | ⟨single, n, fields, clauses⟩, ⟨hfields, _, hclauses, hkinds⟩, name, label => by
    let table := BodyPhrase.table ⟨single, n, fields, clauses⟩ name label
    have hfields : Outlines (fieldsPairs fields) (fieldsTables table.fields) :=
      outlines_fields fields hfields
    have hbody := hfields.block.append (outlines_clauses clauses hclauses hkinds)
    rw [← List.append_assoc] at hbody
    exact hbody

theorem FieldPhrase.outlines {once : Bool} : (f : FieldPhrase) → f.Valid once →
    Outlines f.pairs f.field.tables
  | .column .., _ => .nil
  | .relation name labels _ body _, h => BodyPhrase.outlines body h.2 name.text (lastLabel labels)
  | .subQuery select _ _, h => (SelectPhrase.outlines select h.2).paren

theorem outlines_fields {once : Bool} : (fs : List FieldPhrase) → FieldsValid once fs →
    Outlines (fieldsPairs fs) (fieldsTables (fieldsOf fs))
  | [], _ => .nil
  | f :: fs, h => (FieldPhrase.outlines f h.1).append (outlines_fields fs h.2)

-- The two conditions of a table come in either order, and in the tree in only one.
theorem outlines_clauses {once : Bool} : (cs : List ClausePhrase) → ClausesValid once cs →
    (cs.map ClausePhrase.kind).Nodup → Outlines (clausesPairs cs)
      (conditionTables (conditionOf .rows cs) ++ conditionTables (conditionOf .groups cs))
  | [], _, _ => .nil
  | .filter .rows keyword chain :: cs, ⟨hc, hcs⟩, hkinds => by
    obtain ⟨hnew, hrest⟩ := List.nodup_cons.1 hkinds
    have htail := outlines_clauses cs hcs hrest
    rw [conditionOf_eq_none hnew] at htail
    exact (ChainPhrase.outlines chain hc).append htail
  | .filter .groups keyword chain :: cs, ⟨hc, hcs⟩, hkinds => by
    obtain ⟨hnew, hrest⟩ := List.nodup_cons.1 hkinds
    have htail := outlines_clauses cs hcs hrest
    rw [conditionOf_eq_none hnew, conditionTables, List.append_nil] at htail
    exact ((ChainPhrase.outlines chain hc).append htail).perm List.perm_append_comm
  | .groupBy .. :: cs, h, hkinds => outlines_clauses cs h.2 hkinds.of_cons
  | .orderBy .. :: cs, h, hkinds => outlines_clauses cs h.2 hkinds.of_cons
  | .page .. :: cs, h, hkinds => outlines_clauses cs h.2 hkinds.of_cons

theorem ChainPhrase.outlines {once : Bool} : (chain : ChainPhrase) → chain.Valid once →
    Outlines chain.pairs chain.expr.tables
  | .last negation test, h => by
    rw [ChainPhrase.expr, tables_negated]
    exact TestPhrase.outlines test h.2
  | .link negation test op rest, h => by
    rw [ChainPhrase.expr, Expr.link, Expr.tables, Operand.tables, Operand.tables, tables_negated]
    exact (TestPhrase.outlines test h.2.1).append (ChainPhrase.outlines rest h.2.2)

theorem TestPhrase.outlines {once : Bool} : (test : TestPhrase) → test.Valid once →
    Outlines test.pairs test.expr.tables
  | .compare .., _ => .nil
  | .between .., _ => .nil
  | .among _ _ _ select, h => (SelectPhrase.outlines select h).paren
  | .paren inner, h => (ChainPhrase.outlines inner h).paren

end

/-- In the tokens of every query that is read each bracket is closed by one of its kind, in proper
order, and the pairs around field blocks are those of the query's tables, one pair for each table,
of the kind that the table remembers. -/
theorem Select.ofTokens_pairs {limit : Nat} {ts : List Token} {s : Select}
    (h : Select.ofTokens limit ts = .ok s) :
    ∃ ps : List (Pair Table), Token.pairs? ts = some (kinds ps) ∧
      ts.filter Token.isBracket = Pair.writtenAll (kinds ps) ∧ Outlines ps s.tables := by
  obtain ⟨c, hvalid, htokens, rfl⟩ := Select.ofTokens_phrase false h (by simp)
  have hpairs : Token.pairs? ts = some (kinds c.pairs) := Token.pairs?_of_adds (htokens ▸ c.adds)
  exact ⟨c.pairs, hpairs, Token.written_of_pairs? hpairs, c.outlines hvalid⟩

/-- A relation and a sub-query in the block, and a select in each of the two conditions. -/
theorem ofTokens_pairs_conditions :
    let block : List Token := [.symbol "[", .word "x", .symbol "\x7b", .symbol "\x7d", .symbol "(",
      .word "select", .word "b", .symbol "[", .symbol "]", .symbol ")", .symbol "]"]
    let groups : List Token := [.word "having", .word "u", .word "in", .symbol "(", .word "select",
      .word "c", .symbol "\x7b", .symbol "\x7d", .symbol ")"]
    let rows : List Token := [.word "where", .word "v", .word "in", .symbol "(", .word "select",
      .word "d", .symbol "[", .symbol "]", .symbol ")"]
    let ts := .word "select" :: .word "a" :: block ++ groups ++ .newline :: rows
    let b : Table := { name := "b" }
    let c : Table := { name := "c", single := true }
    let d : Table := { name := "d" }
    let x : Table := { name := "x", single := true }
    let a : Table := { name := "a", fields := [.relation x, .subQuery { table := b } {}],
                       rowFilter := some { expr := .among none "v" false { table := d } },
                       groupFilter := some { expr := .among none "u" false { table := c } } }
    let s : Select := { table := a }
    Select.ofTokens 9 ts = .ok s ∧ s.tables = [a, x, b, d, c] ∧
      Token.pairs? ts = some [.block false [.block true [], .paren [.block false []]],
        .paren [.block true []], .paren [.block false []]] ∧
      ∃ ps : List (Pair Table), Token.pairs? ts = some (kinds ps) ∧
        ts.filter Token.isBracket = Pair.writtenAll (kinds ps) ∧ Outlines ps s.tables := by
  intro block groups rows ts b c d x a s
  have hs : Select.ofTokens 9 ts = .ok s := rfl
  exact ⟨hs, rfl, rfl, Select.ofTokens_pairs hs⟩

end BracketQuery
