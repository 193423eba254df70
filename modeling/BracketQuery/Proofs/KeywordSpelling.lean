import BracketQuery.Proofs.CallArguments
import BracketQuery.Proofs.ClauseOrder
import BracketQuery.Proofs.Pieces
import BracketQuery.Proofs.Words
import Mathlib.Algebra.Order.Group.Multiset
import Mathlib.Tactic.Abel

/-! The spelling of keywords. In the statement of a select with one table the keywords of its author
stand as they were written, if they have a capital. Only two kinds of keywords are left out: a `not`
before `between` or `in`, of which no more than a flag is kept, and the `as` of a label that another
one replaced. -/
namespace BracketQuery
open Sql

/- What the author wrote. -/

def Token.text : Token → String
  | .word text => text
  | .symbol text => text
  | .newline => ""

namespace Token

def tokensInk (ts : List Token) : List Char := ts.flatMap fun t => ink t.text.toList

@[simp] theorem tokensInk_append (ts us : List Token) :
    tokensInk (ts ++ us) = tokensInk ts ++ tokensInk us := List.flatMap_append

theorem tokensInk_significant (ts : List Token) : tokensInk (significant ts) = tokensInk ts := by
  induction ts with
  | nil => rfl
  | cons t ts ih =>
    cases t with
    | newline => exact ih
    | word w => exact congrArg (ink w.toList ++ ·) ih
    | symbol w => exact congrArg (ink w.toList ++ ·) ih

theorem ink_skipBlanks (cs : List Char) : ink (Text.skipBlanks cs) = ink cs := by
  have hblanks : ink (cs.takeWhile Text.isBlank) = [] :=
    ink_of_blanks fun c hc => List.mem_takeWhile_imp hc
  have hcs := congrArg ink (List.takeWhile_append_dropWhile (p := Text.isBlank) (l := cs))
  rwa [ink_append, hblanks, List.nil_append] at hcs

theorem ink_afterWord (cs : List Char) :
    ink (Text.firstWord cs) ++ ink (Text.skipBlanks (Text.afterWord cs)) = ink cs := by
  rw [ink_skipBlanks, ← ink_append, Text.firstWord_append]

theorem nullTail?_ink {operator cs : List Char} {test : NullTest}
    (h : nullTail? operator cs = some test) :
    ink test.operator ++ ink test.null ++ ink test.rest = ink operator ++ ink cs := by
  unfold nullTail? at h
  split at h
  · cases h
    rw [List.append_assoc, ← ink_append, List.take_append_drop]
  · cases h

theorem nullTest?_ink {cs : List Char} {test : NullTest} (h : nullTest? cs = some test) :
    ink test.operator ++ ink test.null ++ ink test.rest = ink cs := by
  unfold nullTest? afterIs? at h
  split at h
  · split at h
    · have hblank : ink [' '] = [] := by decide
      rw [nullTail?_ink h, ← List.singleton_append, ink_append, ink_append, hblank, List.nil_append,
        List.append_assoc, ink_afterWord, ink_afterWord]
    · rw [nullTail?_ink h, ink_afterWord]
  · cases h

theorem head_ink {c : Char} {cs rest : List Char} {ts : List Token}
    (h : head c cs = .ok (ts, rest)) : tokensInk ts ++ ink rest = ink (c :: cs) := by
  unfold head at h
  split at h
  · rename_i hs
    cases h
    simp [tokensInk, text, ← (doubleSign?_sign hs).2]
  · rename_i hn
    cases h
    simpa [tokensInk, text] using nullTest?_ink hn
  · split at h
    · cases h
      simp [tokensInk, text, ← ink_append]
    · unfold wordHead at h
      split at h
      · cases h
      · cases h
      · rename_i hw
        cases h
        simp [tokensInk, text, ← splitWord_append hw]

theorem lineFrom_ink {number width : Nat} {cs : List Char} {ts : List Token}
    (h : lineFrom number width cs = .ok ts) : tokensInk ts = ink cs := by
  induction cs using lineFrom.induct generalizing ts with
  | case1 cs hskip =>
    rw [lineFrom_nil number width hskip] at h
    cases h
    rw [← ink_skipBlanks, hskip]
    rfl
  | case2 cs c r hskip fault hhead => simp [lineFrom_fault number width hskip hhead] at h
  | case3 cs c r hskip us rest hhead _ ih =>
    rw [lineFrom_cons number width hskip hhead] at h
    cases hl : lineFrom number width rest with
    | error e =>
      rw [hl] at h
      cases h
    | ok vs =>
      rw [hl] at h
      cases h
      rw [tokensInk_append, ih hl, head_ink hhead, ← hskip, ink_skipBlanks]

theorem tokensInk_joinLines (first rest : List Token) :
    tokensInk (joinLines first rest) = tokensInk first ++ tokensInk rest := by
  rw [← tokensInk_significant, significant_joinLines, tokensInk_append, tokensInk_significant,
    tokensInk_significant]

theorem linesFrom_ink {number : Nat} {ls : List (List Char)} {ts : List Token}
    (h : linesFrom number ls = .ok ts) : tokensInk ts = ls.flatMap ink := by
  induction ls generalizing number ts with
  | nil =>
    cases h
    rfl
  | cons l ls ih =>
    unfold linesFrom at h
    cases hline : line number l with
    | error e => simp [hline, bind, Except.bind] at h
    | ok first =>
      cases hrest : linesFrom (number + 1) ls with
      | error e => simp [hline, hrest, bind, Except.bind] at h
      | ok rest =>
        rw [hline, hrest] at h
        cases h
        rw [tokensInk_joinLines, lineFrom_ink hline, ih hrest, List.flatMap_cons]

theorem ink_lines (cs : List Char) : (Text.lines cs).flatMap ink = ink cs := by
  have hfeed (cs : List Char) : ink ('\n' :: cs) = ink cs := List.filter_cons_of_neg (by decide)
  have hreturn (cs : List Char) : ink ('\r' :: cs) = ink cs := List.filter_cons_of_neg (by decide)
  have hcons (c : Char) (cs : List Char) : ink (c :: cs) = ink [c] ++ ink cs := ink_append [c] cs
  induction cs using Text.lines.induct with
  | case1 => rfl
  | case2 cs ih => rw [Text.lines, hfeed, ← ih, List.flatMap_cons]; rfl
  | case3 cs ih => rw [Text.lines, hreturn, hfeed, ← ih, List.flatMap_cons]; rfl
  | case4 c cs hn hr hl ih =>
    rw [hl] at ih
    rw [Text.lines, hl, hcons, ← ih]
    · simp
    · exact hn
    · exact hr
  | case5 c cs hn hr line rest hl ih =>
    rw [hl] at ih
    rw [Text.lines, hl, hcons, ← ih]
    · simp [hcons c line]
    · exact hn
    · exact hr

/-- Scanning keeps every character but blanks. -/
theorem scan_ink {text : String} {ts : List Token} (h : scan text = .ok ts) :
    tokensInk ts = ink text.toList :=
  (linesFrom_ink h).trans (ink_lines _)

end Token

/- The author's keywords. -/

/-- The tokens that make one keyword, or a token that is no part of a keyword. -/
inductive Lexeme where
  | keyword (tokens : List Token)
  | other (t : Token)

namespace Lexeme

def tokens : Lexeme → List Token
  | .keyword ts => ts
  | .other t => [t]

@[simp] theorem tokens_keyword (ts : List Token) : (keyword ts).tokens = ts := rfl

@[simp] theorem tokens_other (t : Token) : (other t).tokens = [t] := rfl

def keyword? : Lexeme → Option String
  | .keyword ts => some (" ".intercalate (ts.map Token.text))
  | .other _ => none

end Lexeme

def others (ts : List Token) : List Lexeme := ts.map .other

def Keyword.lexeme {canonical : String} (k : Keyword canonical) : Lexeme := .keyword [k.token]

def negationLexemes (negation : Option (Keyword "not")) : List Lexeme :=
  negation.toList.map Keyword.lexeme

def LabelPhrase.lexemes (l : LabelPhrase) : List Lexeme := [l.keyword.lexeme, .other (.word l.name)]

def labelsLexemes (labels : List (Nat × LabelPhrase)) : List Lexeme :=
  labels.flatMap fun l => others (commas l.1) ++ l.2.lexemes

/-- The tokens of a nested select are its own. -/
def nestedLexemes (select : SelectPhrase) : List Lexeme :=
  others (.symbol "(" :: select.tokens ++ [.symbol ")"])

mutual

def ChainPhrase.lexemes : ChainPhrase → List Lexeme
  | .last negation test => negationLexemes negation ++ TestPhrase.lexemes test
  | .link negation test op rest =>
    negationLexemes negation ++ TestPhrase.lexemes test ++
      .keyword [.word op.text] :: ChainPhrase.lexemes rest

def TestPhrase.lexemes : TestPhrase → List Lexeme
  | .compare left op right => [.other (.word left), .keyword op.tokens, .other (.word right)]
  | .between subject negation keyword low andKeyword high =>
    .other (.word subject) :: negationLexemes negation ++
      [keyword.lexeme, .other (.word low), andKeyword.lexeme, .other (.word high)]
  | .among subject negation keyword select =>
    .other (.word subject) :: negationLexemes negation ++ keyword.lexeme :: nestedLexemes select
  | .paren inner => .other (.symbol "(") :: ChainPhrase.lexemes inner ++ [.other (.symbol ")")]

end

def EntryPhrase.lexemes (e : EntryPhrase) : List Lexeme :=
  .other (.word e.column) ::
    e.collation.toList.flatMap (fun p => [p.keyword.lexeme, .other (.word p.name)]) ++
    (e.direction.toList.flatMap DirectionPhrase.words).map fun w => .keyword [.word w]

def ClausePhrase.lexemes : ClausePhrase → List Lexeme
  | .filter _ keyword chain => keyword.lexeme :: chain.lexemes
  | .groupBy keyword front last => .keyword keyword.tokens :: others (groupTokens front last)
  | .orderBy keyword front last =>
    .keyword keyword.tokens :: front.flatMap (fun e => e.lexemes ++ [.other .comma]) ++ last.lexemes
  | .page _ keyword value => [keyword.lexeme, .other (.word value)]

def FieldPhrase.lexemes : FieldPhrase → List Lexeme
  | .column name labels n =>
    .other (.word name.text) :: labelsLexemes labels ++ others (commas n)
  | .subQuery select labels n => nestedLexemes select ++ labelsLexemes labels ++ others (commas n)
  | .relation name labels gap body n => others (FieldPhrase.relation name labels gap body n).tokens

def SelectPhrase.lexemes (q : SelectPhrase) : List Lexeme :=
  q.keyword.lexeme :: q.distinct.toList.map Keyword.lexeme ++
    .other (.word q.name) :: q.label.toList.flatMap LabelPhrase.lexemes ++
    .other (.symbol (openBracket q.body.single)) :: others (commas q.body.commas) ++
    q.body.fields.flatMap FieldPhrase.lexemes ++
    .other (.symbol (closeBracket q.body.single)) :: q.body.clauses.flatMap ClausePhrase.lexemes

section

variable {α : Type}

def lexemesTokens (ls : List Lexeme) : List Token := ls.flatMap Lexeme.tokens

@[simp] theorem lexemesTokens_nil : lexemesTokens [] = [] := rfl

@[simp] theorem lexemesTokens_cons (l : Lexeme) (ls : List Lexeme) :
    lexemesTokens (l :: ls) = l.tokens ++ lexemesTokens ls := rfl

@[simp] theorem lexemesTokens_append (ls ms : List Lexeme) :
    lexemesTokens (ls ++ ms) = lexemesTokens ls ++ lexemesTokens ms := List.flatMap_append

@[simp] theorem lexemesTokens_others (ts : List Token) : lexemesTokens (others ts) = ts := by
  simp [lexemesTokens, others, List.flatMap_map]

theorem lexemesTokens_flatMap {f : α → List Lexeme} {g : α → List Token}
    (h : ∀ a, lexemesTokens (f a) = g a) (as : List α) :
    lexemesTokens (as.flatMap f) = as.flatMap g := by
  induction as with
  | nil => rfl
  | cons a as ih => rw [List.flatMap_cons, lexemesTokens_append, h, ih, List.flatMap_cons]

end

@[simp] theorem Keyword.lexeme_tokens {canonical : String} (k : Keyword canonical) :
    k.lexeme.tokens = [k.token] := rfl

@[simp] theorem lexemesTokens_negation (negation : Option (Keyword "not")) :
    lexemesTokens (negationLexemes negation) = negationTokens negation := by
  cases negation <;> rfl

@[simp] theorem lexemesTokens_labels (labels : List (Nat × LabelPhrase)) :
    lexemesTokens (labelsLexemes labels) = labelsTokens labels :=
  lexemesTokens_flatMap (fun l => by simp [LabelPhrase.lexemes, LabelPhrase.tokens])
    labels

mutual

theorem ChainPhrase.lexemesTokens_lexemes : (chain : ChainPhrase) →
    lexemesTokens chain.lexemes = chain.tokens
  | .last negation test => by
    simp [ChainPhrase.lexemes, ChainPhrase.tokens, TestPhrase.lexemesTokens_lexemes test]
  | .link negation test op rest => by
    simp [ChainPhrase.lexemes, ChainPhrase.tokens, TestPhrase.lexemesTokens_lexemes test,
      ChainPhrase.lexemesTokens_lexemes rest]

theorem TestPhrase.lexemesTokens_lexemes : (test : TestPhrase) →
    lexemesTokens test.lexemes = test.tokens
  | .compare left op right => by simp [TestPhrase.lexemes, TestPhrase.tokens]
  | .between subject negation keyword low andKeyword high => by
    simp [TestPhrase.lexemes, TestPhrase.tokens]
  | .among subject negation keyword select => by
    simp [TestPhrase.lexemes, TestPhrase.tokens, nestedLexemes]
  | .paren inner => by
    simp [TestPhrase.lexemes, TestPhrase.tokens, ChainPhrase.lexemesTokens_lexemes inner]

end

theorem EntryPhrase.lexemesTokens_lexemes (e : EntryPhrase) :
    lexemesTokens e.lexemes = e.tokens := by
  obtain ⟨column, collation, direction⟩ := e
  have hwords (ws : List String) :
      lexemesTokens (ws.map fun w => .keyword [.word w]) = ws.map .word := by
    induction ws with
    | nil => rfl
    | cons w ws ih => exact congrArg (Token.word w :: ·) ih
  cases collation <;>
    simp [EntryPhrase.lexemes, EntryPhrase.tokens, EntryPhrase.modifiers, CollationPhrase.words,
      hwords, Keyword.token]

theorem ClausePhrase.lexemesTokens_lexemes (c : ClausePhrase) :
    lexemesTokens c.lexemes = c.tokens := by
  cases c with
  | filter f keyword chain =>
    simp [ClausePhrase.lexemes, ClausePhrase.tokens, chain.lexemesTokens_lexemes]
  | groupBy keyword front last => simp [ClausePhrase.lexemes, ClausePhrase.tokens]
  | orderBy keyword front last =>
    have hfront := lexemesTokens_flatMap (f := fun e : EntryPhrase => e.lexemes ++ [.other .comma])
      (g := fun e => e.tokens ++ [.comma])
      (fun e => by simp [e.lexemesTokens_lexemes]) front
    simp [ClausePhrase.lexemes, ClausePhrase.tokens, orderTokens, hfront,
      last.lexemesTokens_lexemes]
  | page p keyword value => simp [ClausePhrase.lexemes, ClausePhrase.tokens]

theorem FieldPhrase.lexemesTokens_lexemes (f : FieldPhrase) :
    lexemesTokens f.lexemes = f.tokens := by
  cases f with
  | column name labels n => simp [FieldPhrase.lexemes, FieldPhrase.tokens]
  | relation name labels gap body n => simp [FieldPhrase.lexemes]
  | subQuery select labels n => simp [FieldPhrase.lexemes, FieldPhrase.tokens, nestedLexemes]

theorem SelectPhrase.lexemesTokens_lexemes (q : SelectPhrase) :
    lexemesTokens q.lexemes = q.tokens := by
  obtain ⟨keyword, distinct, name, label, ⟨single, n, fields, clauses⟩⟩ := q
  have hfields := lexemesTokens_flatMap FieldPhrase.lexemesTokens_lexemes fields
  have hclauses := lexemesTokens_flatMap ClausePhrase.lexemesTokens_lexemes clauses
  cases distinct <;> cases label <;>
    simp [lexemes, tokens, headTokens, BodyPhrase.tokens, fieldsTokens_eq, clausesTokens_eq,
      LabelPhrase.lexemes, LabelPhrase.tokens, hfields, hclauses]

variable (casing : Casing)

/- Which keywords are kept. -/

/-- The keywords of the author among some pieces. -/
def written (ps : List Piece) : Multiset String := ↑(ps.filterMap Piece.keyword?)

def spelled (ls : List Lexeme) : Multiset String := ↑(ls.filterMap Lexeme.keyword?)

@[simp] theorem written_nil : written [] = 0 := rfl

@[simp] theorem written_keyword (w : String) (ps : List Piece) :
    written (.keyword w :: ps) = {w} + written ps := rfl

@[simp] theorem written_text (w : String) (ps : List Piece) :
    written (.text w :: ps) = written ps := rfl

@[simp] theorem written_append (ps qs : List Piece) :
    written (ps ++ qs) = written ps + written qs := by
  simp [written]

theorem written_intercalate (sep : String) (parts : List (List Piece)) :
    written ([.text sep].intercalate parts) = written parts.flatten := by
  induction parts with
  | nil => rfl
  | cons part parts ih =>
    cases parts with
    | nil => simp
    | cons next parts => simp [List.intercalate_cons_cons, ih]

@[simp] theorem spelled_nil : spelled [] = 0 := rfl

@[simp] theorem spelled_keyword (ts : List Token) (ls : List Lexeme) :
    spelled (.keyword ts :: ls) = {" ".intercalate (ts.map Token.text)} + spelled ls := rfl

@[simp] theorem spelled_lexeme {canonical : String} (k : Keyword canonical) (ls : List Lexeme) :
    spelled (k.lexeme :: ls) = {k.text} + spelled ls := by
  simp [Keyword.lexeme, Keyword.token, Token.text]

@[simp] theorem spelled_other (t : Token) (ls : List Lexeme) :
    spelled (.other t :: ls) = spelled ls := rfl

@[simp] theorem spelled_append (ls ms : List Lexeme) :
    spelled (ls ++ ms) = spelled ls + spelled ms := by
  simp [spelled]

@[simp] theorem spelled_others (ts : List Token) : spelled (others ts) = 0 := by
  induction ts with
  | nil => rfl
  | cons t ts ih => exact ih

theorem conserved_flatMap {α : Type} {f : α → List Piece} {d : α → List String}
    {g : α → List Lexeme} (h : ∀ a, written (f a) + d a = spelled (g a)) (as : List α) :
    written (as.flatMap f) + as.flatMap d = spelled (as.flatMap g) := by
  induction as with
  | nil => rfl
  | cons a as ih =>
    simp only [List.flatMap_cons, written_append, spelled_append, ← h, ← ih, ← Multiset.coe_add]
    abel

/- The keywords that are left out. -/

/-- All labels of a field but the last are replaced. -/
def replacedLabels (labels : List (Nat × LabelPhrase)) : List String :=
  labels.dropLast.map (·.2.keyword.text)

mutual

def ChainPhrase.dropped : ChainPhrase → List String
  | .last _ test => TestPhrase.dropped test
  | .link _ test _ rest => TestPhrase.dropped test ++ ChainPhrase.dropped rest

/-- Of the `not` before `between` or `in` only a flag is kept. -/
def TestPhrase.dropped : TestPhrase → List String
  | .between _ negation .. => negation.toList.map Keyword.text
  | .among _ negation .. => negation.toList.map Keyword.text
  | .paren inner => ChainPhrase.dropped inner
  | .compare .. => []

end

def ClausePhrase.dropped : ClausePhrase → List String
  | .filter _ _ chain => chain.dropped
  | _ => []

def FieldPhrase.dropped : FieldPhrase → List String
  | .column _ labels _ => replacedLabels labels
  | .subQuery _ labels _ => replacedLabels labels
  | .relation .. => []

def SelectPhrase.dropped (q : SelectPhrase) : List String :=
  q.body.fields.flatMap FieldPhrase.dropped ++ q.body.clauses.flatMap ClausePhrase.dropped

theorem labels_conserved (labels : List (Nat × LabelPhrase)) :
    written (lastPieces labels) + replacedLabels labels = spelled (labelsLexemes labels) := by
  have hall : spelled (labelsLexemes labels) = ↑(labels.map (·.2.keyword.text)) := by
    induction labels with
    | nil => rfl
    | cons l labels ih =>
      rw [labelsLexemes, List.flatMap_cons, spelled_append, ← labelsLexemes, ih]
      simp [LabelPhrase.lexemes]
  rw [hall]
  rcases labels.eq_nil_or_concat with rfl | ⟨front, l, rfl⟩
  · rfl
  · have hlast : written (lastPieces (front.concat l)) = {l.2.keyword.text} := by
      simp [lastPieces, LabelPhrase.pieces]
    have hreplaced : replacedLabels (front.concat l) = front.map (·.2.keyword.text) := by
      simp [replacedLabels]
    rw [hlast, hreplaced, List.concat_eq_append, List.map_append, ← Multiset.coe_add, add_comm]
    rfl

theorem negation_conserved (negation : Option (Keyword "not")) :
    written (negationPieces negation) = spelled (negationLexemes negation) := by
  cases negation with
  | none => rfl
  | some k => simp [negationPieces, negationLexemes]

theorem negation_dropped (negation : Option (Keyword "not")) :
    ↑(negation.toList.map Keyword.text) = spelled (negationLexemes negation) := by
  cases negation with
  | none => rfl
  | some k => simp [negationLexemes]

theorem written_link (layout : Layout) (op : String) : written (linkPieces layout op) = {op} := by
  cases layout <;> rfl

theorem OperatorPhrase.intercalate_tokens (op : OperatorPhrase) :
    " ".intercalate (op.tokens.map Token.text) = op.text := by
  cases op <;> simp [tokens, text, Keyword.token, Token.text, String.intercalate_cons_cons]

theorem ByPhrase.intercalate_tokens {word : String} (p : ByPhrase word) :
    " ".intercalate (p.tokens.map Token.text) = p.text := by
  simp [tokens, text, Keyword.token, Token.text, String.intercalate_cons_cons]

section

variable (casing : Casing) (scope : String)

mutual

theorem ChainPhrase.conserved (layout : Layout) : (chain : ChainPhrase) →
    written (chain.pieces casing scope layout) + chain.dropped = spelled chain.lexemes
  | .last negation test => by
    simp [ChainPhrase.pieces, ChainPhrase.dropped, ChainPhrase.lexemes, negation_conserved,
      ← TestPhrase.conserved test, add_assoc]
  | .link negation test op rest => by
    simp only [ChainPhrase.pieces, written_append, negation_conserved, written_link,
      ChainPhrase.dropped, ← Multiset.coe_add, ChainPhrase.lexemes, spelled_append, spelled_keyword,
      List.map_cons, List.map_nil, Token.text, String.intercalate_singleton,
      ← TestPhrase.conserved test, ← ChainPhrase.conserved layout rest]
    abel

theorem TestPhrase.conserved : (test : TestPhrase) →
    written (test.pieces casing scope) + test.dropped = spelled test.lexemes
  | .compare left op right => by
    simp [TestPhrase.pieces, TestPhrase.dropped, TestPhrase.lexemes, op.intercalate_tokens]
  | .between subject negation keyword low andKeyword high => by
    simp only [TestPhrase.pieces, written_text, written_keyword, written_nil, TestPhrase.dropped,
      TestPhrase.lexemes, List.cons_append, spelled_other, spelled_append, spelled_lexeme,
      spelled_nil, ← negation_dropped]
    abel
  | .among subject negation keyword select => by
    simp [TestPhrase.pieces, TestPhrase.dropped, TestPhrase.lexemes, ← negation_dropped,
      nestedLexemes, add_comm]
  | .paren inner => by
    simp [TestPhrase.pieces, TestPhrase.dropped, TestPhrase.lexemes,
      ← ChainPhrase.conserved .inline inner]

end

theorem EntryPhrase.conserved (e : EntryPhrase) :
    written (e.pieces casing scope) = spelled e.lexemes := by
  obtain ⟨column, collation, direction⟩ := e
  have hwords (ws : List String) : written (ws.flatMap fun w => [.text " ", .keyword w]) =
      spelled (ws.map fun w => .keyword [.word w]) := by
    induction ws with
    | nil => rfl
    | cons w ws ih => simp [ih, Token.text]
  cases collation <;> simp [EntryPhrase.pieces, EntryPhrase.lexemes, hwords]

theorem entries_conserved (front : List EntryPhrase) (last : EntryPhrase) :
    written ([.text ", "].intercalate ((front ++ [last]).map (·.pieces casing scope))) =
      spelled (front.flatMap (fun e => e.lexemes ++ [.other .comma]) ++ last.lexemes) := by
  rw [written_intercalate]
  induction front with
  | nil => simp [last.conserved]
  | cons e front ih =>
    simp only [List.cons_append, List.map_cons, List.flatten_cons, written_append, ih, e.conserved,
      List.flatMap_cons, spelled_append, spelled_other, spelled_nil, add_zero, add_assoc]

theorem ClausePhrase.conserved (c : ClausePhrase) :
    written (c.pieces casing scope) + c.dropped = spelled c.lexemes := by
  cases c with
  | filter f keyword chain =>
    simp [ClausePhrase.pieces, ClausePhrase.dropped, ClausePhrase.lexemes, chain.conserved]
  | groupBy keyword front last =>
    simp [ClausePhrase.pieces, ClausePhrase.dropped, ClausePhrase.lexemes,
      keyword.intercalate_tokens]
  | orderBy keyword front last =>
    have hentries := entries_conserved casing scope front last
    simpa [ClausePhrase.pieces, ClausePhrase.dropped, ClausePhrase.lexemes,
      keyword.intercalate_tokens] using hentries
  | page p keyword value =>
    simp [ClausePhrase.pieces, ClausePhrase.dropped, ClausePhrase.lexemes]

theorem FieldPhrase.conserved (f : FieldPhrase) :
    written (f.pieces scope) + f.dropped = spelled f.lexemes := by
  cases f with
  | column name labels n =>
    simp [FieldPhrase.pieces, FieldPhrase.dropped, FieldPhrase.lexemes, labels_conserved]
  | subQuery select labels n =>
    simp [FieldPhrase.pieces, FieldPhrase.dropped, FieldPhrase.lexemes, labels_conserved,
      nestedLexemes]
  | relation name labels gap body n =>
    simp [FieldPhrase.pieces, FieldPhrase.dropped, FieldPhrase.lexemes]

end

namespace SelectPhrase

variable {q : SelectPhrase}

def statementClauses (q : SelectPhrase) : List ClausePhrase :=
  [Clause.filter .rows, .groupBy, .filter .groups, .orderBy, .page .limit, .page .offset].flatMap
    fun k => (clauseOf k q.body.clauses).toList

theorem statementClauses_perm {once : Bool} (h : q.Valid once) :
    q.statementClauses.Perm q.body.clauses := by
  have hkinds : q.statementClauses.Perm (arranged q.body.clauses) :=
    List.Perm.flatMap_right _ (by decide)
  exact hkinds.trans (arranged_perm (clauses_valid h).2)

theorem written_sections (q : SelectPhrase) : written (q.pieces casing) =
    written q.columnPieces + written (q.fromPieces casing) +
      written (q.statementClauses.flatMap (·.pieces casing q.scope)) := by
  have hlines (sections : List (List Piece)) :
      written (sections.flatMap (· ++ [.text "\n"])) = written sections.flatten := by
    induction sections with
    | nil => rfl
    | cons ps sections ih => simp [ih]
  have hclause (k : Clause) : written (q.clausePieces casing k).flatten =
      written ((clauseOf k q.body.clauses).toList.flatMap (·.pieces casing q.scope)) := by
    rw [clausePieces, List.flatMap_def]
  -- The limit of a single row has no keyword of the author.
  have hlimit : written (q.limitPieces casing).flatten =
      written (q.clausePieces casing (.page .limit)).flatten := by
    rw [limitPieces, clausePieces]
    cases clauseOf (.page .limit) q.body.clauses <;> cases q.body.single <;> rfl
  simp [pieces, hlines, sectionPieces, statementClauses, hlimit, hclause, add_assoc]

theorem written_columnPieces (q : SelectPhrase) : written q.columnPieces =
    spelled (q.keyword.lexeme :: q.distinct.toList.map Keyword.lexeme) +
      written (q.body.fields.flatMap (·.pieces q.scope)) := by
  have hfields : written (if q.body.fields.isEmpty then [.text "*"]
      else [.text "\n, "].intercalate (q.body.fields.map (·.pieces q.scope))) =
      written (q.body.fields.flatMap (·.pieces q.scope)) := by
    cases q.body.fields with
    | nil => rfl
    | cons f fs =>
      rw [List.flatMap_def, ← written_intercalate "\n, "]
      rfl
  have hdistinct : written (q.distinct.toList.flatMap fun d => [.text " ", .keyword d.text]) =
      spelled (q.distinct.toList.map Keyword.lexeme) := by
    cases q.distinct <;> simp
  rw [columnPieces, List.cons_append, written_keyword, written_append, written_text, hfields,
    hdistinct, spelled_lexeme, add_assoc]

/-- Each keyword of the author is in the statement or left out. -/
theorem conserved {once : Bool} (h : q.Valid once) :
    written (q.pieces casing) + q.dropped = spelled q.lexemes := by
  have hlabel : written (q.fromPieces casing) =
      spelled (q.label.toList.flatMap LabelPhrase.lexemes) := by
    cases hl : q.label <;> simp [fromPieces, LabelPhrase.pieces, LabelPhrase.lexemes, hl]
  have hfields : written (q.body.fields.flatMap (·.pieces q.scope)) +
      q.body.fields.flatMap FieldPhrase.dropped = spelled (q.body.fields.flatMap _) :=
    conserved_flatMap (FieldPhrase.conserved q.scope) _
  have hperm : written (q.statementClauses.flatMap (·.pieces casing q.scope)) =
      written (q.body.clauses.flatMap (·.pieces casing q.scope)) :=
    Quotient.sound (((statementClauses_perm h).flatMap_right _).filterMap _)
  have hclauses : written (q.body.clauses.flatMap (·.pieces casing q.scope)) +
      q.body.clauses.flatMap ClausePhrase.dropped = spelled (q.body.clauses.flatMap _) :=
    conserved_flatMap (ClausePhrase.conserved casing q.scope) _
  have hlexemes : spelled q.lexemes =
      spelled (q.keyword.lexeme :: q.distinct.toList.map Keyword.lexeme) +
        spelled (q.label.toList.flatMap LabelPhrase.lexemes) +
        spelled (q.body.fields.flatMap FieldPhrase.lexemes) +
        spelled (q.body.clauses.flatMap ClausePhrase.lexemes) := by
    simp only [lexemes, List.cons_append, List.append_assoc, spelled_append, spelled_other,
      spelled_others, spelled_lexeme, zero_add, add_assoc]
  rw [written_sections, written_columnPieces, hlabel, hperm, hlexemes, ← hfields, ← hclauses,
    dropped, ← Multiset.coe_add]
  abel

end SelectPhrase

/-- A query with one table gives a statement in which the keywords of its author have their places.
Each keyword that the author wrote is among them, but for a `not` before `between` or `in` and for
the `as` of a label that another one replaced. So every other keyword with a capital is found in the
statement as it was written. -/
theorem compile_spelling {limit : Nat} {text : String} {s : Select} (h : compile limit text = .ok s)
    (hone : ∀ f ∈ s.table.fields, f.table? = none) :
    ∃ ts q, Token.scan text = .ok ts ∧ SelectPhrase.Valid false q ∧ q.select = s ∧
      lexemesTokens q.lexemes = Token.significant ts ∧
      Token.tokensInk (lexemesTokens q.lexemes) = ink text.toList ∧
      s.render = piecesText s.casing (q.pieces s.casing) ∧
      ((q.pieces s.casing).filterMap Piece.keyword? ++ q.dropped).Perm
        (q.lexemes.filterMap Lexeme.keyword?) ∧
      ∀ w ∈ q.lexemes.filterMap Lexeme.keyword?, hasCapital w = true → w ∉ q.dropped →
        ∃ before after, s.render = before ++ w ++ after := by
  obtain ⟨ts, hscan, hread⟩ := compile_eq_ok h
  obtain ⟨q, hvalid, htokens, rfl⟩ := Select.ofTokens_phrase false hread (by simp)
  have hscanned : ∀ t ∈ q.tokens, t.Scanned := by
    intro t ht
    rw [htokens] at ht
    exact Token.scan_scanned hscan t (List.mem_filter.1 ht).1
  have hlexemes : lexemesTokens q.lexemes = Token.significant ts :=
    q.lexemesTokens_lexemes.trans htokens
  have hrender := q.render_pieces hscanned hone
  have hkept : ((q.pieces q.select.casing).filterMap Piece.keyword? ++ q.dropped).Perm
      (q.lexemes.filterMap Lexeme.keyword?) :=
    Multiset.coe_eq_coe.1 (SelectPhrase.conserved q.select.casing hvalid)
  refine ⟨ts, q, hscan, hvalid, rfl, hlexemes, ?_, hrender, hkept, fun w hw hcapital hdropped => ?_⟩
  · rw [hlexemes, Token.tokensInk_significant, Token.scan_ink hscan]
  · have hpiece : .keyword w ∈ q.pieces q.select.casing := by
      rcases List.mem_append.1 (hkept.mem_iff.2 hw) with hmem | hmem
      · obtain ⟨p, hp, hpw⟩ := List.mem_filterMap.1 hmem
        exact Piece.keyword?_eq_some.1 hpw ▸ hp
      · exact absurd hmem hdropped
    rw [hrender]
    exact exists_piecesText _ hpiece hcapital

theorem compile_spelling_capitals :
    let text := "sElect t As u [ id AS x as y ] WHERE Not a IS  NOT null " ++
      "Or d NOT Between 1 And 2 Order BY id DESC Nulls Last LIMIT 5"
    let condition := Expr.link
      (.not (some "Not") (.compare (.value "a") "IS NOT" (.value "null"))) "Or"
      (.between (some "Between") "d" true (some "And") "1" "2")
    let order : OrderEntry := { column := "id", modifiers := some "DESC Nulls Last" }
    let t : Table :=
      { name := "t"
        label := ⟨some "u", some "As"⟩
        fields := [.column ⟨"id", ⟨some "y", none⟩⟩]
        rowFilter := some ⟨some "WHERE", condition⟩
        orderBy := some ⟨some "Order BY", [order]⟩
        limit := some ⟨some "LIMIT", "5"⟩ }
    let s : Select := { keyword := some "sElect", table := t }
    let sql := "\nsElect\n  u.id as y\nfrom t As u\nWHERE Not u.a IS NOT null\n" ++
      "   Or u.d not Between 1 And 2\nOrder BY u.id DESC Nulls Last\nLIMIT 5\n"
    compile 2 text = .ok s ∧ (∀ f ∈ s.table.fields, f.table? = none) ∧ s.render = sql ∧
      ∃ q : SelectPhrase, q.select = s ∧
        Token.tokensInk (lexemesTokens q.lexemes) = ink text.toList ∧
        sql = piecesText s.casing (q.pieces s.casing) ∧
        ((q.pieces s.casing).filterMap Piece.keyword? ++ q.dropped).Perm
          (q.lexemes.filterMap Lexeme.keyword?) ∧
        ∀ w ∈ q.lexemes.filterMap Lexeme.keyword?, hasCapital w = true → w ∉ q.dropped →
          ∃ before after, sql = before ++ w ++ after := by
  intro text condition order t s sql
  have hscan : Token.scan text =
      .ok [.word "sElect", .word "t", .word "As", .word "u", .symbol "[", .word "id", .word "AS",
        .word "x", .word "as", .word "y", .symbol "]", .word "WHERE", .word "Not", .word "a",
        .symbol "IS NOT", .word "null", .word "Or", .word "d", .word "NOT", .word "Between",
        .word "1", .word "And", .word "2", .word "Order", .word "BY", .word "id", .word "DESC",
        .word "Nulls", .word "Last", .word "LIMIT", .word "5"] :=
    scan_of_toOption (by decide +kernel)
  have hs : compile 2 text = .ok s := by
    rw [compile, hscan]
    rfl
  have hone : ∀ f ∈ s.table.fields, f.table? = none := by simp [s, t, Field.table?]
  have hsql : s.render = sql := by decide +kernel
  obtain ⟨-, q, -, -, hselect, -, hink, hkept⟩ := compile_spelling hs hone
  rw [hsql] at hkept
  exact ⟨hs, hone, hsql, q, hselect, hink, hkept⟩

/-- The `NOT` before `between` is gone. -/
theorem exists_negation_respelled : ∃ (ts : List Token) (s : Select),
    Token.scan "select t [ id ] where a NOT between 1 and 2" = .ok ts ∧
      Select.ofTokens 3 ts = .ok s ∧ (∀ f ∈ s.table.fields, f.table? = none) ∧ .word "NOT" ∈ ts ∧
      s.render = "\nselect\n  t.id\nfrom t\nwhere t.a not between 1 and 2\n" ∧
      ¬ "NOT".toList <:+: s.render.toList := by
  refine ⟨[.word "select", .word "t", .symbol "[", .word "id", .symbol "]", .word "where",
      .word "a", .word "NOT", .word "between", .word "1", .word "and", .word "2"],
    { table :=
        { name := "t"
          fields := [.column { name := "id" }]
          rowFilter := some { expr := .between none "a" true none "1" "2" } } },
    scan_of_toOption (by decide +kernel), rfl, by simp [Field.table?], by decide,
    by decide +kernel, by decide +kernel⟩

end BracketQuery
