import BracketQuery.Reader.Finish

/-! Phrases: queries as their authors write them. A phrase keeps every token of what it stands for,
so it has a yield, its tokens, as well as a meaning, its tree. -/
namespace BracketQuery

def Token.comma : Token := .symbol ","
def commas (n : Nat) : List Token := List.replicate n .comma
def openBracket (single : Bool) : String := if single then "\x7b" else "["

structure Keyword (canonical : String) where
  text : String
  spelled : spells text canonical = true

namespace Keyword
variable {canonical : String}

def token (k : Keyword canonical) : Token := .word k.text
def spelling (k : Keyword canonical) : Spelling := .ofWord k.text canonical

end Keyword

structure LabelPhrase where
  keyword : Keyword "as"
  name : String

def LabelPhrase.tokens (l : LabelPhrase) : List Token := [l.keyword.token, .word l.name]
def LabelPhrase.label (l : LabelPhrase) : Label := labelled l.name l.keyword.text

/- In a field block commas may come before `as`, and the last of several labels counts. -/
def labelsTokens (labels : List (Nat × LabelPhrase)) : List Token :=
  labels.flatMap fun l => commas l.1 ++ l.2.tokens
def lastLabel (labels : List (Nat × LabelPhrase)) : Label :=
  (labels.getLast?.map (·.2.label)).getD {}

/-- A word that names a field: `as` would not. -/
structure FieldName where
  text : String
  free : spells text "as" = false

inductive OperatorPhrase where
  | symbol (text : String) (free : isStructural text = false)
  | word (text : String) (like : WordOperator.ofWord? text = some .like)
  | negated (negation : Keyword "not") (text : String)
      (like : WordOperator.ofWord? text = some .like)

namespace OperatorPhrase

def tokens : OperatorPhrase → List Token
  | .symbol text _ => [.symbol text]
  | .word text _ => [.word text]
  | .negated negation text _ => [negation.token, .word text]

def text : OperatorPhrase → String
  | .symbol text _ => text
  | .word text _ => text
  | .negated negation text _ => negation.text ++ " " ++ text

end OperatorPhrase

structure ConnectivePhrase where
  text : String
  connective : Connective
  spelled : Connective.ofWord? text = some connective

structure ByPhrase (word : String) where
  first : Keyword word
  second : Keyword "by"

def ByPhrase.text {word : String} (p : ByPhrase word) : String :=
  p.first.text ++ " " ++ p.second.text

def ByPhrase.tokens {word : String} (p : ByPhrase word) : List Token :=
  [p.first.token, p.second.token]

structure NullsPhrase where
  keyword : Keyword "nulls"
  place : String
  spelled : ["first", "last"].any (spells place) = true

structure DirectionPhrase where
  text : String
  spelled : (spells text "asc" || spells text "desc") = true
  nulls : Option NullsPhrase

structure CollationPhrase where
  keyword : Keyword "collate"
  name : String

structure EntryPhrase where
  column : String
  collation : Option CollationPhrase := none
  direction : Option DirectionPhrase := none

def NullsPhrase.words (p : NullsPhrase) : List String := [p.keyword.text, p.place]
def DirectionPhrase.words (p : DirectionPhrase) : List String :=
  p.text :: p.nulls.toList.flatMap NullsPhrase.words
def CollationPhrase.words (p : CollationPhrase) : List String := [p.keyword.text, p.name]

namespace EntryPhrase

def modifiers (e : EntryPhrase) : List String :=
  e.collation.toList.flatMap CollationPhrase.words ++
    e.direction.toList.flatMap DirectionPhrase.words

def tokens (e : EntryPhrase) : List Token := .word e.column :: e.modifiers.map .word

def entry (e : EntryPhrase) : OrderEntry :=
  ⟨e.column, if e.modifiers.isEmpty then none else some (" ".intercalate e.modifiers)⟩

def stage (e : EntryPhrase) : Stage :=
  match e.direction with
  | some direction => if direction.nulls.isSome then .placed else .directed
  | none => if e.collation.isSome then .collated else .named

end EntryPhrase

mutual

structure SelectPhrase where
  keyword : Keyword "select"
  distinct : Option (Keyword "distinct")
  name : String
  label : Option LabelPhrase
  body : BodyPhrase

/-- A field block and the clauses after it, which may come in any order. -/
structure BodyPhrase where
  single : Bool
  commas : Nat
  fields : List FieldPhrase
  clauses : List ClausePhrase

/-- A field and the commas after it. The commas before the bracket of a relation are its `gap`. -/
inductive FieldPhrase where
  | column (name : FieldName) (labels : List (Nat × LabelPhrase)) (commas : Nat)
  | relation (name : FieldName) (labels : List (Nat × LabelPhrase)) (gap : Nat) (body : BodyPhrase)
      (commas : Nat)
  | subQuery (select : SelectPhrase) (labels : List (Nat × LabelPhrase)) (commas : Nat)

inductive ClausePhrase where
  | filter (filter : Filter) (keyword : Keyword filter.name) (chain : ChainPhrase)
  | groupBy (keyword : ByPhrase "group") (front : List String) (last : String)
  | orderBy (keyword : ByPhrase "order") (front : List EntryPhrase) (last : EntryPhrase)
  | page (page : Page) (keyword : Keyword page.name) (value : String)

inductive ChainPhrase where
  | last (negation : Option (Keyword "not")) (test : TestPhrase)
  | link (negation : Option (Keyword "not")) (test : TestPhrase) (op : ConnectivePhrase)
      (rest : ChainPhrase)

inductive TestPhrase where
  | compare (left : String) (op : OperatorPhrase) (right : String)
  | between (subject : String) (negation : Option (Keyword "not")) (keyword : Keyword "between")
      (low : String) (andKeyword : Keyword "and") (high : String)
  | among (subject : String) (negation : Option (Keyword "not")) (keyword : Keyword "in")
      (select : SelectPhrase)
  | paren (inner : ChainPhrase)

end

/- Yields. -/

def negationTokens (negation : Option (Keyword "not")) : List Token :=
  negation.toList.map Keyword.token

def groupTokens (front : List String) (last : String) : List Token :=
  front.flatMap (fun c => [.word c, .comma]) ++ [.word last]
def orderTokens (front : List EntryPhrase) (last : EntryPhrase) : List Token :=
  front.flatMap (fun e => e.tokens ++ [.comma]) ++ last.tokens

def headTokens (keyword : Keyword "select") (distinct : Option (Keyword "distinct")) (name : String)
    (label : Option LabelPhrase) : List Token :=
  keyword.token :: distinct.toList.map Keyword.token ++
    .word name :: label.toList.flatMap LabelPhrase.tokens

mutual

def SelectPhrase.tokens : SelectPhrase → List Token
  | ⟨keyword, distinct, name, label, body⟩ =>
    headTokens keyword distinct name label ++ BodyPhrase.tokens body

def BodyPhrase.tokens : BodyPhrase → List Token
  | ⟨single, n, fields, clauses⟩ =>
    .symbol (openBracket single) :: commas n ++ fieldsTokens fields ++
      .symbol (closeBracket single) :: clausesTokens clauses

def FieldPhrase.tokens : FieldPhrase → List Token
  | .column name labels n => .word name.text :: labelsTokens labels ++ commas n
  | .relation name labels gap body n =>
    .word name.text :: labelsTokens labels ++ commas gap ++ BodyPhrase.tokens body ++ commas n
  | .subQuery select labels n =>
    .symbol "(" :: SelectPhrase.tokens select ++ .symbol ")" :: labelsTokens labels ++ commas n

def fieldsTokens : List FieldPhrase → List Token
  | [] => []
  | f :: fs => FieldPhrase.tokens f ++ fieldsTokens fs

def ClausePhrase.tokens : ClausePhrase → List Token
  | .filter _ keyword chain => keyword.token :: ChainPhrase.tokens chain
  | .groupBy keyword front last => keyword.tokens ++ groupTokens front last
  | .orderBy keyword front last => keyword.tokens ++ orderTokens front last
  | .page _ keyword value => [keyword.token, .word value]

def clausesTokens : List ClausePhrase → List Token
  | [] => []
  | c :: cs => ClausePhrase.tokens c ++ clausesTokens cs

def ChainPhrase.tokens : ChainPhrase → List Token
  | .last negation test => negationTokens negation ++ TestPhrase.tokens test
  | .link negation test op rest =>
    negationTokens negation ++ TestPhrase.tokens test ++ .word op.text :: ChainPhrase.tokens rest

def TestPhrase.tokens : TestPhrase → List Token
  | .compare left op right => .word left :: op.tokens ++ [.word right]
  | .between subject negation keyword low andKeyword high =>
    .word subject :: negationTokens negation ++
      [keyword.token, .word low, andKeyword.token, .word high]
  | .among subject negation keyword select =>
    .word subject :: negationTokens negation ++ [keyword.token, .symbol "("] ++
      SelectPhrase.tokens select ++ [.symbol ")"]
  | .paren inner => .symbol "(" :: ChainPhrase.tokens inner ++ [.symbol ")"]

end

theorem fieldsTokens_eq (fs : List FieldPhrase) :
    fieldsTokens fs = fs.flatMap FieldPhrase.tokens := by
  induction fs with
  | nil => rfl
  | cons f fs ih => simp [fieldsTokens, ih]

theorem clausesTokens_eq (cs : List ClausePhrase) :
    clausesTokens cs = cs.flatMap ClausePhrase.tokens := by
  induction cs with
  | nil => rfl
  | cons c cs ih => simp [clausesTokens, ih]

/- No line mark is part of a phrase. -/

namespace Token

@[simp] theorem significant_append (us vs : List Token) :
    significant (us ++ vs) = significant us ++ significant vs := List.filter_append ..

@[simp] theorem significant_nil : significant [] = [] := rfl

@[simp] theorem significant_word (w : String) (ts : List Token) :
    significant (.word w :: ts) = .word w :: significant ts := rfl

@[simp] theorem significant_symbol (w : String) (ts : List Token) :
    significant (.symbol w :: ts) = .symbol w :: significant ts := rfl

@[simp] theorem significant_words (ws : List String) :
    significant (ws.map .word) = ws.map .word := by
  induction ws with
  | nil => rfl
  | cons w ws ih => simp [ih]

theorem significant_flatMap {α : Type} {g : α → List Token} (h : ∀ a, significant (g a) = g a)
    (as : List α) : significant (as.flatMap g) = as.flatMap g := by
  induction as with
  | nil => rfl
  | cons a as ih => simp [h, ih]

@[simp] theorem significant_commas (n : Nat) : significant (commas n) = commas n := by
  induction n with
  | zero => rfl
  | succ n ih => exact congrArg (Token.comma :: ·) ih

end Token

@[simp] theorem Keyword.significant_token {canonical : String} (k : Keyword canonical)
    (ts : List Token) : Token.significant (k.token :: ts) = k.token :: Token.significant ts := rfl

@[simp] theorem significant_labelsTokens (labels : List (Nat × LabelPhrase)) :
    Token.significant (labelsTokens labels) = labelsTokens labels :=
  Token.significant_flatMap (fun l => by simp [LabelPhrase.tokens]) labels

@[simp] theorem significant_negationTokens (negation : Option (Keyword "not")) :
    Token.significant (negationTokens negation) = negationTokens negation := by
  cases negation <;> simp [negationTokens]

theorem significant_headTokens (keyword : Keyword "select") (distinct : Option (Keyword "distinct"))
    (name : String) (label : Option LabelPhrase) :
    Token.significant (headTokens keyword distinct name label) =
      headTokens keyword distinct name label := by
  cases distinct <;> cases label <;> simp [headTokens, LabelPhrase.tokens]

theorem OperatorPhrase.significant_tokens (op : OperatorPhrase) :
    Token.significant op.tokens = op.tokens := by
  cases op <;> simp [tokens]

theorem significant_groupTokens (front : List String) (last : String) :
    Token.significant (groupTokens front last) = groupTokens front last := by
  rw [groupTokens, Token.significant_append, Token.significant_flatMap fun _ => rfl]
  rfl

theorem significant_orderTokens (front : List EntryPhrase) (last : EntryPhrase) :
    Token.significant (orderTokens front last) = orderTokens front last := by
  simp [orderTokens, Token.comma, EntryPhrase.tokens, Token.significant_flatMap]

mutual

theorem SelectPhrase.significant_tokens :
    (c : SelectPhrase) → Token.significant c.tokens = c.tokens
  | ⟨keyword, distinct, name, label, body⟩ => by
    simp [SelectPhrase.tokens, significant_headTokens, BodyPhrase.significant_tokens body]

theorem BodyPhrase.significant_tokens : (body : BodyPhrase) →
    Token.significant body.tokens = body.tokens
  | ⟨single, n, fields, clauses⟩ => by
    simp [BodyPhrase.tokens, significant_fieldsTokens fields, significant_clausesTokens clauses]

theorem FieldPhrase.significant_tokens : (f : FieldPhrase) →
    Token.significant f.tokens = f.tokens
  | .column name labels n => by simp [FieldPhrase.tokens]
  | .relation name labels gap body n => by
    simp [FieldPhrase.tokens, BodyPhrase.significant_tokens body]
  | .subQuery select labels n => by
    simp [FieldPhrase.tokens, SelectPhrase.significant_tokens select]

theorem significant_fieldsTokens : (fs : List FieldPhrase) →
    Token.significant (fieldsTokens fs) = fieldsTokens fs
  | [] => rfl
  | f :: fs => by
    simp [fieldsTokens, FieldPhrase.significant_tokens f, significant_fieldsTokens fs]

theorem ClausePhrase.significant_tokens : (c : ClausePhrase) →
    Token.significant c.tokens = c.tokens
  | .filter f keyword chain => by simp [ClausePhrase.tokens, ChainPhrase.significant_tokens chain]
  | .groupBy keyword front last => by
    simp [ClausePhrase.tokens, ByPhrase.tokens, significant_groupTokens]
  | .orderBy keyword front last => by
    simp [ClausePhrase.tokens, ByPhrase.tokens, significant_orderTokens]
  | .page p keyword value => by simp [ClausePhrase.tokens]

theorem significant_clausesTokens : (cs : List ClausePhrase) →
    Token.significant (clausesTokens cs) = clausesTokens cs
  | [] => rfl
  | c :: cs => by
    simp [clausesTokens, ClausePhrase.significant_tokens c, significant_clausesTokens cs]

theorem ChainPhrase.significant_tokens : (chain : ChainPhrase) →
    Token.significant chain.tokens = chain.tokens
  | .last negation test => by simp [ChainPhrase.tokens, TestPhrase.significant_tokens test]
  | .link negation test op rest => by
    simp [ChainPhrase.tokens, TestPhrase.significant_tokens test,
      ChainPhrase.significant_tokens rest]

theorem TestPhrase.significant_tokens : (test : TestPhrase) →
    Token.significant test.tokens = test.tokens
  | .compare left op right => by simp [TestPhrase.tokens, OperatorPhrase.significant_tokens]
  | .between subject negation keyword low andKeyword high => by simp [TestPhrase.tokens]
  | .among subject negation keyword select => by
    simp [TestPhrase.tokens, SelectPhrase.significant_tokens select]
  | .paren inner => by simp [TestPhrase.tokens, ChainPhrase.significant_tokens inner]

end

/- Meanings. -/

def negated (negation : Option (Keyword "not")) (e : Expr) : Expr :=
  match negation with
  | some k => .not k.spelling e
  | none => e

namespace ClausePhrase

def kind : ClausePhrase → Clause
  | .filter f _ _ => .filter f
  | .groupBy .. => .groupBy
  | .orderBy .. => .orderBy
  | .page p _ _ => .page p

def groupBy? : ClausePhrase → Option GroupBy
  | .groupBy keyword front last => some ⟨.ofWord keyword.text "group by", front ++ [last]⟩
  | _ => none

def orderBy? : ClausePhrase → Option OrderBy
  | .orderBy keyword front last =>
    some ⟨.ofWord keyword.text "order by", (front ++ [last]).map EntryPhrase.entry⟩
  | _ => none

def page? (p : Page) : ClausePhrase → Option Paging
  | .page q keyword value => if q = p then some ⟨keyword.spelling, value⟩ else none
  | _ => none

end ClausePhrase

mutual

def SelectPhrase.select : SelectPhrase → Select
  | ⟨keyword, distinct, name, label, body⟩ =>
    { keyword := keyword.spelling
      distinct := distinct.isSome
      distinctKeyword := distinct.bind Keyword.spelling
      table := BodyPhrase.table body name ((label.map LabelPhrase.label).getD {}) }

def BodyPhrase.table (body : BodyPhrase) (name : String) (label : Label) : Table :=
  match body with
  | ⟨single, _, fields, clauses⟩ =>
    { name := name
      label := label
      single := single
      fields := fieldsOf fields
      rowFilter := conditionOf .rows clauses
      groupFilter := conditionOf .groups clauses
      groupBy := clauses.findSome? ClausePhrase.groupBy?
      orderBy := clauses.findSome? ClausePhrase.orderBy?
      limit := clauses.findSome? (ClausePhrase.page? .limit)
      offset := clauses.findSome? (ClausePhrase.page? .offset) }

def FieldPhrase.field : FieldPhrase → Field
  | .column name labels _ => .column ⟨name.text, lastLabel labels⟩
  | .relation name labels _ body _ => .relation (BodyPhrase.table body name.text (lastLabel labels))
  | .subQuery select labels _ => .subQuery (SelectPhrase.select select) (lastLabel labels)

def fieldsOf : List FieldPhrase → List Field
  | [] => []
  | f :: fs => FieldPhrase.field f :: fieldsOf fs

def ClausePhrase.condition? (filter : Filter) : ClausePhrase → Option Condition
  | .filter f keyword chain =>
    if f = filter then some ⟨keyword.spelling, ChainPhrase.expr chain⟩ else none
  | _ => none

def conditionOf (filter : Filter) : List ClausePhrase → Option Condition
  | [] => none
  | c :: cs => (ClausePhrase.condition? filter c).or (conditionOf filter cs)

def ChainPhrase.expr : ChainPhrase → Expr
  | .last negation test => negated negation (TestPhrase.expr test)
  | .link negation test op rest =>
    .link (negated negation (TestPhrase.expr test)) op.text (ChainPhrase.expr rest)

def TestPhrase.expr : TestPhrase → Expr
  | .compare left op right => .compare (.value left) op.text (.value right)
  | .between subject negation keyword low andKeyword high =>
    .between keyword.spelling subject negation.isSome andKeyword.spelling low high
  | .among subject negation keyword select =>
    .among keyword.spelling subject negation.isSome (SelectPhrase.select select)
  | .paren inner => .paren (ChainPhrase.expr inner)

end

theorem fieldsOf_eq (fs : List FieldPhrase) : fieldsOf fs = fs.map FieldPhrase.field := by
  induction fs with
  | nil => rfl
  | cons f fs ih => simp [fieldsOf, ih]

theorem conditionOf_eq (filter : Filter) (cs : List ClausePhrase) :
    conditionOf filter cs = cs.findSome? (ClausePhrase.condition? filter) := by
  induction cs with
  | nil => rfl
  | cons c cs ih => cases h : ClausePhrase.condition? filter c <;> simp [conditionOf, h, ih]

/- The grammar reads as far as it can: what follows a relation must not go on with its last clause
   or begin another one. -/

def Token.clause? : Token → Option Clause
  | .word text => Clause.ofWord? text
  | _ => none

def Token.connective? : Token → Option Connective
  | .word text => Connective.ofWord? text
  | _ => none

def Stage.takes (stage : Stage) (t : Token) : Bool :=
  match stage with
  | .named => t.isKeyword "collate" || t.isKeyword "asc" || t.isKeyword "desc"
  | .collated => t.isKeyword "asc" || t.isKeyword "desc"
  | .directed => t.isKeyword "nulls"
  | .placed => false

def ClausePhrase.continuedBy (t : Token) : ClausePhrase → Bool
  | .filter .. => t.connective?.isSome
  | .groupBy .. => t.isSymbol ","
  | .orderBy _ _ last => t.isSymbol "," || last.stage.takes t
  | .page .. => false

def lastContinuedBy (t : Token) (clauses : List ClausePhrase) : Bool :=
  clauses.getLast?.any (·.continuedBy t)

def EndsBefore (t : Token) (clauses : List ClausePhrase) : Prop :=
  t.clause? = none ∧ lastContinuedBy t clauses = false

namespace FieldPhrase

def first : FieldPhrase → Token
  | .column name _ _ => .word name.text
  | .relation name _ _ _ _ => .word name.text
  | .subQuery _ _ _ => .symbol "("

/-- The field ends before `t`. -/
def Fits (t : Token) : FieldPhrase → Prop
  | .relation _ _ _ body n => EndsBefore (if n = 0 then t else .comma) body.clauses
  | _ => True

end FieldPhrase

/-- Each field ends before what follows it, and the last one before `t`. -/
def FieldsFit (t : Token) : List FieldPhrase → Prop
  | [] => True
  | [f] => f.Fits t
  | f :: g :: fs => f.Fits g.first ∧ FieldsFit t (g :: fs)

def TestPhrase.subject? : TestPhrase → Option String
  | .compare left _ _ => some left
  | .between subject _ _ _ _ _ => some subject
  | .among subject _ _ _ => some subject
  | .paren _ => none

/-- A first `not` negates, so only what is negated may start with a second one. -/
def StartsWell (negation : Option (Keyword "not")) (subject : String) : Prop :=
  negation = none → spells subject "not" = false

def LabelsValid (once : Bool) (labels : List (Nat × LabelPhrase)) : Prop :=
  once = true → labels.length ≤ 1

/- With `once`, no field has a second label. -/
mutual

def SelectPhrase.Valid (once : Bool) : SelectPhrase → Prop
  | ⟨_, distinct, name, _, body⟩ =>
    (distinct.isSome = true → spells name "as" = false) ∧ BodyPhrase.Valid once body

def BodyPhrase.Valid (once : Bool) : BodyPhrase → Prop
  | ⟨single, _, fields, clauses⟩ =>
    FieldsValid once fields ∧ FieldsFit (.symbol (closeBracket single)) fields ∧
      ClausesValid once clauses ∧ (clauses.map ClausePhrase.kind).Nodup

def FieldPhrase.Valid (once : Bool) : FieldPhrase → Prop
  | .column _ labels _ => LabelsValid once labels
  | .relation _ labels _ body _ => LabelsValid once labels ∧ BodyPhrase.Valid once body
  | .subQuery select labels _ => LabelsValid once labels ∧ SelectPhrase.Valid once select

def FieldsValid (once : Bool) : List FieldPhrase → Prop
  | [] => True
  | f :: fs => FieldPhrase.Valid once f ∧ FieldsValid once fs

def ClausePhrase.Valid (once : Bool) : ClausePhrase → Prop
  | .filter _ _ chain => ChainPhrase.Valid once chain
  | _ => True

def ClausesValid (once : Bool) : List ClausePhrase → Prop
  | [] => True
  | c :: cs => ClausePhrase.Valid once c ∧ ClausesValid once cs

def ChainPhrase.Valid (once : Bool) : ChainPhrase → Prop
  | .last negation test => (∀ w ∈ test.subject?, StartsWell negation w) ∧ TestPhrase.Valid once test
  | .link negation test _ rest =>
    (∀ w ∈ test.subject?, StartsWell negation w) ∧ TestPhrase.Valid once test ∧
      ChainPhrase.Valid once rest

def TestPhrase.Valid (once : Bool) : TestPhrase → Prop
  | .among _ _ _ select => SelectPhrase.Valid once select
  | .paren inner => ChainPhrase.Valid once inner
  | _ => True

end

theorem FieldsValid_iff {once : Bool} (fs : List FieldPhrase) :
    FieldsValid once fs ↔ ∀ f ∈ fs, f.Valid once := by
  induction fs with
  | nil => simp [FieldsValid]
  | cons f fs ih => simp [FieldsValid, ih]

theorem ClausesValid_iff {once : Bool} (cs : List ClausePhrase) :
    ClausesValid once cs ↔ ∀ c ∈ cs, c.Valid once := by
  induction cs with
  | nil => simp [ClausesValid]
  | cons c cs ih => simp [ClausesValid, ih]

end BracketQuery
