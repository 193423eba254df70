import BracketQuery.Proofs.Layout
import BracketQuery.Proofs.Unparse

/-! One condition: the signs that its author wrote, with which its text in the statement is written
too, and the value that precedence gives them. -/
namespace BracketQuery

/- Operators are not read as connectives, in whatever case they come out. -/

theorem isAscii_of_spells {word keyword : String} (h : spells word keyword = true)
    (hk : isAscii (String.ofList (folded keyword.toList)) = true) : isAscii word = true := by
  have hf : folded word.toList = folded keyword.toList := by simpa [spells] using h
  rw [isAscii, List.all_eq_true]
  intro c hc
  have hm : c.toLower ∈ folded keyword.toList := by
    rw [← hf]
    exact List.mem_map_of_mem hc
  have hl : c.toLower.toNat < 128 := by
    rw [isAscii, String.toList_ofList, List.all_eq_true] at hk
    simpa using hk _ hm
  rw [decide_eq_true_iff]
  unfold Char.toLower at hl
  split at hl
  · rename_i hu
    have hn : 65 ≤ c.toNat ∧ c.toNat ≤ 90 := hu
    omega
  · exact hl

theorem Connective.ofWord?_of_blank {text : String} (h : ' ' ∈ text.toList) :
    Connective.ofWord? text = none := by
  have hs : ∀ k ∈ ["and", "or"], spells text k = false := by
    intro k hk
    rw [← Bool.not_eq_true]
    intro hs
    have hf : folded text.toList = folded k.toList := by simpa [spells] using hs
    have hb : ' ' ∈ folded k.toList := by
      rw [← hf]
      exact List.mem_map_of_mem (f := Char.toLower) h
    have hall : ∀ k ∈ ["and", "or"], ' ' ∉ folded k.toList := by decide
    exact hall k hk hb
  simp [Connective.ofWord?, hs "and" (by simp), hs "or" (by simp)]

/-- A text that no casing turns into a connective. -/
structure IsOperator (text : String) : Prop where
  ascii : isAscii text = true
  free : Connective.ofWord? text = none

theorem IsOperator.of_spells {word keyword : String} (h : spells word keyword = true)
    (hk : isAscii (String.ofList (folded keyword.toList)) = true)
    (hf : Connective.ofWord? keyword = none) : IsOperator word := by
  refine ⟨isAscii_of_spells h hk, ?_⟩
  rw [Connective.ofWord?_congr (funext (spells_congr h)), hf]

theorem IsOperator.pair {a b : String} (ha : isAscii a = true) (hb : isAscii b = true) :
    IsOperator (a ++ " " ++ b) := by
  refine ⟨?_, Connective.ofWord?_of_blank (by simp)⟩
  have hblank : ' '.toNat < 128 := by decide
  simp_all [isAscii]

theorem IsOperator.of_sign {s : String} (h : Token.IsSign s.toList) : IsOperator s := by
  rcases h.text with hs | hs | ⟨a, b, rfl, ha, hb⟩
  · have hall : ∀ s ∈ Token.plainSigns, isAscii s = true ∧ Connective.ofWord? s = none := by decide
    exact ⟨(hall s hs).1, (hall s hs).2⟩
  · exact .of_spells hs (by decide) (by decide)
  · exact .pair (isAscii_of_spells ha (by decide)) (isAscii_of_spells hb (by decide))

theorem IsOperator.of_like {text : String} (h : WordOperator.ofWord? text = some .like) :
    IsOperator text := by
  obtain ⟨k, hm, hs⟩ := WordOperator.ofWord?_spells h
  have hall : ∀ k ∈ ["like", "ilike", "glob", "regexp"],
      isAscii (String.ofList (folded k.toList)) = true ∧ Connective.ofWord? k = none := by decide
  exact .of_spells hs (hall k hm).1 (hall k hm).2

theorem OperatorPhrase.isOperator {op : OperatorPhrase} (h : ∀ t ∈ op.tokens, t.Scanned) :
    IsOperator op.text := by
  cases op with
  | symbol text free => exact .of_sign (h (.symbol text) (by simp [tokens]))
  | word text like => exact .of_like like
  | negated negation text like =>
    exact .pair (isAscii_of_spells negation.spelled (by decide)) (IsOperator.of_like like).ascii

theorem IsOperator.ofWord?_word {text : String} (h : IsOperator text) (casing : Sql.Casing) :
    Connective.ofWord? (casing.word text) = none := by
  rw [Connective.ofWord?_congr (casing.spells_word h.ascii), h.free]

theorem ConnectivePhrase.ofWord?_word (op : ConnectivePhrase) (casing : Sql.Casing) :
    Connective.ofWord? (casing.word op.text) = some op.connective := by
  have hk : isAscii (String.ofList (folded op.connective.name.toList)) = true := by
    cases op.connective <;> decide
  have ha := isAscii_of_spells (Connective.ofWord?_spells op.spelled) hk
  rw [Connective.ofWord?_congr (casing.spells_word ha), op.spelled]

/- Conditions as their authors wrote them. -/

def foldCase (word : String) : String := String.ofList (folded word.toList)

theorem folded_folded {cs : List Char} (h : ∀ c ∈ cs, c.toNat < 128) :
    folded (folded cs) = folded cs := by
  have hall : ∀ n < 128, (Char.ofNat n).toLower.toLower = (Char.ofNat n).toLower := by
    decide +kernel
  rw [folded, folded, List.map_map]
  refine List.map_congr_left fun c hc => ?_
  have htwice := hall c.toNat (h c hc)
  rwa [Char.ofNat_toNat] at htwice

theorem spells_foldCase {word : String} (h : isAscii word = true) :
    spells word (foldCase word) = true := by
  have hascii : ∀ c ∈ word.toList, c.toNat < 128 := by simpa [isAscii] using h
  rw [spells, foldCase, String.toList_ofList, folded_folded hascii]
  exact beq_self_eq_true _

def notSigns (negation : Option (Keyword "not")) : List Sign := negation.toList.map fun _ => .not

/- The signs of a condition, read off its tokens. A comparison, a `between` and an `in` are
   atoms. -/
mutual

def ChainPhrase.signs (scope : String) : ChainPhrase → List Sign
  | .last negation test => notSigns negation ++ TestPhrase.signs scope test
  | .link negation test op rest =>
    notSigns negation ++ TestPhrase.signs scope test ++
      .link op.connective :: ChainPhrase.signs scope rest

def TestPhrase.signs (scope : String) : TestPhrase → List Sign
  | .paren inner => .opening :: ChainPhrase.signs scope inner ++ [.closing]
  | .compare left op right =>
    [.atom (.compare (Sql.qualify left scope) (foldCase op.text) (Sql.qualify right scope))]
  | .between subject negation _ low _ high =>
    [.atom (.between (Sql.qualify subject scope) negation.isSome (Sql.qualify low scope)
      (Sql.qualify high scope))]
  | .among subject negation _ select =>
    [.atom (.among (Sql.qualify subject scope) negation.isSome select.select)]

end

variable {casing : Sql.Casing} {scope : String}

theorem writes_negated (negation : Option (Keyword "not")) {e : Expr} {ss : List Sign}
    (h : (Sql.formula casing scope e).Writes ss) :
    (Sql.formula casing scope (negated negation e)).Writes (notSigns negation ++ ss) := by
  cases negation with
  | none => exact h
  | some k => exact h.not (casing.spells_keyword (by decide) k.spelled)

mutual

theorem ChainPhrase.writes : (chain : ChainPhrase) → (∀ t ∈ chain.tokens, t.Scanned) →
    (Sql.formula casing scope chain.expr).Writes (chain.signs scope)
  | .last negation test, h => by
    have ht := TestPhrase.writes test fun t ht => h t (by simp [ChainPhrase.tokens, ht])
    exact writes_negated negation ht
  | .link negation test op rest, h => by
    have ht := TestPhrase.writes test fun t ht => h t (by simp [ChainPhrase.tokens, ht])
    have hr := ChainPhrase.writes rest fun t ht => h t (by simp [ChainPhrase.tokens, ht])
    exact (writes_negated negation ht).link hr (op.ofWord?_word casing)

theorem TestPhrase.writes : (test : TestPhrase) → (∀ t ∈ test.tokens, t.Scanned) →
    (Sql.formula casing scope test.expr).Writes (test.signs scope)
  | .compare left op right, h => by
    have hop := op.isOperator fun t ht => h t (by simp [TestPhrase.tokens, ht])
    have hword : spells (casing.word op.text) (foldCase op.text) = true := by
      rw [casing.spells_word hop.ascii]
      exact spells_foldCase hop.ascii
    exact .compare (hop.ofWord?_word casing) ⟨_, hword, rfl⟩
  | .between subject negation keyword low andKeyword high, _ => by
    have hk := casing.spells_keyword (by decide) keyword.spelled
    have hand := casing.spells_keyword (by decide) andKeyword.spelled
    have hn := Sql.negationWritten_negationText casing negation.isSome
    exact .text ⟨_, _, _, hn, hk, hand, rfl⟩
  | .among subject negation keyword select, _ => by
    have hk := casing.spells_keyword (by decide) keyword.spelled
    have hn := Sql.negationWritten_negationText casing negation.isSome
    exact .text ⟨_, _, hn, hk, rfl⟩
  | .paren inner, h =>
    (ChainPhrase.writes inner fun t ht => h t (by simp [TestPhrase.tokens, ht])).paren

end

/- Every condition has a value. -/

variable {v : Atom → Bool}

theorem reads_negated (negation : Option (Keyword "not")) {ss : List Sign}
    (h : ∃ b, Reads v .test ss b) : ∃ b, Reads v .test (notSigns negation ++ ss) b := by
  obtain ⟨b, hb⟩ := h
  cases negation with
  | none => exact ⟨b, hb⟩
  | some k => exact ⟨!b, .not hb⟩

theorem reads_link {c : Connective} {ss ts : List Sign} (h : ∃ a, Reads v .test ss a)
    (h' : ∃ b, Reads v .condition ts b) : ∃ b, Reads v .condition (ss ++ .link c :: ts) b := by
  obtain ⟨a, ha⟩ := h
  obtain ⟨b, hb⟩ := h'
  cases c with
  | and => exact ha.exists_and hb
  | or => exact ⟨a || b, .or (.test ha) hb⟩

mutual

theorem ChainPhrase.reads (v : Atom → Bool) (scope : String) :
    (chain : ChainPhrase) → ∃ b, Reads v .condition (chain.signs scope) b
  | .last negation test => by
    obtain ⟨b, hb⟩ := reads_negated negation (TestPhrase.reads v scope test)
    exact ⟨b, .conjunction (.test hb)⟩
  | .link negation test _ rest =>
    reads_link (reads_negated negation (TestPhrase.reads v scope test))
      (ChainPhrase.reads v scope rest)

theorem TestPhrase.reads (v : Atom → Bool) (scope : String) :
    (test : TestPhrase) → ∃ b, Reads v .test (test.signs scope) b
  | .paren inner => by
    obtain ⟨b, hb⟩ := ChainPhrase.reads v scope inner
    exact ⟨b, .paren hb⟩
  | .compare .. => ⟨_, .atom _⟩
  | .between .. => ⟨_, .atom _⟩
  | .among .. => ⟨_, .atom _⟩

end

theorem hasOr_link {left right : Expr} {op : String} (h : (Expr.link left op right).hasOr = false) :
    Connective.ofWord? op ≠ some .or ∧ right.hasOr = false := by
  simp only [Expr.link, Expr.hasOr, Operand.hasOr, Bool.or_eq_false_iff] at h
  refine ⟨fun he => ?_, h.2⟩
  simp [he] at h

theorem ChainPhrase.reads_conjunction (v : Atom → Bool) (scope : String) :
    (chain : ChainPhrase) → chain.expr.hasOr = false →
      ∃ b, Reads v .conjunction (chain.signs scope) b
  | .last negation test, _ => by
    obtain ⟨b, hb⟩ := reads_negated negation (TestPhrase.reads v scope test)
    exact ⟨b, .test hb⟩
  | .link negation test op rest, h => by
    obtain ⟨hop, hrest⟩ := hasOr_link h
    obtain ⟨a, ha⟩ := reads_negated negation (TestPhrase.reads v scope test)
    obtain ⟨b, hb⟩ := ChainPhrase.reads_conjunction v scope rest hrest
    have hand : op.connective = .and := by
      rw [op.spelled] at hop
      cases hc : op.connective with
      | and => rfl
      | or => exact absurd (congrArg some hc) hop
    rw [ChainPhrase.signs, hand]
    exact ⟨a && b, .and ha hb⟩

end BracketQuery
