import BracketQuery.Compile
import BracketQuery.Proofs.Precedence

/-! The clauses of a statement as texts: the signs that a condition is written with, and that the
text of the condition is these signs, in some layout. -/
namespace BracketQuery

/- The case of the letters does not matter to a keyword. -/

def isAscii (s : String) : Bool := s.toList.all (·.toNat < 128)

theorem folded_append (cs ds : List Char) : folded (cs ++ ds) = folded cs ++ folded ds :=
  List.map_append

namespace Text

theorem folded_lowerChar {c : Char} (h : c.toNat < 128) : folded (lowerChar c) = folded [c] := by
  have hall : ∀ n < 128, folded (lowerChar (Char.ofNat n)) = folded [Char.ofNat n] := by
    decide +kernel
  simpa using hall c.toNat h

theorem folded_upperChar {c : Char} (h : c.toNat < 128) : folded (upperChar c) = folded [c] := by
  have hall : ∀ n < 128, folded (upperChar (Char.ofNat n)) = folded [Char.ofNat n] := by
    decide +kernel
  simpa using hall c.toNat h

theorem folded_lowerFrom {cs : List Char} (h : ∀ c ∈ cs, c.toNat < 128) (before : List Char) :
    folded (lowerFrom before cs) = folded cs := by
  induction cs generalizing before with
  | nil => rfl
  | cons c cs ih =>
    rw [List.forall_mem_cons] at h
    have hsigma : c ≠ 'Σ' := by
      rintro rfl
      exact absurd h.1 (by decide)
    rw [lowerFrom, if_neg hsigma, folded_append, folded_lowerChar h.1, ih h.2]
    rfl

theorem folded_flatMap_upperChar {cs : List Char} (h : ∀ c ∈ cs, c.toNat < 128) :
    folded (cs.flatMap upperChar) = folded cs := by
  induction cs with
  | nil => rfl
  | cons c cs ih =>
    rw [List.forall_mem_cons] at h
    rw [List.flatMap_cons, folded_append, folded_upperChar h.1, ih h.2]
    rfl

theorem folded_titleFrom {cs : List Char} (h : ∀ c ∈ cs, c.toNat < 128) (start : Bool) :
    folded (titleFrom start cs) = folded cs := by
  induction cs generalizing start with
  | nil => rfl
  | cons c cs ih =>
    rw [List.forall_mem_cons] at h
    unfold titleFrom
    split
    · exact congrArg (c.toLower :: ·) (ih h.2 true)
    · cases start with
      | false =>
        simp only [Bool.false_eq_true, if_false, folded_append, folded_lowerChar h.1, ih h.2]
        rfl
      | true =>
        simp only [if_true, folded_append, folded_upperChar h.1, ih h.2]
        rfl

end Text

namespace Sql.Casing

theorem spells_apply (casing : Casing) {s : String} (h : isAscii s = true) :
    spells (casing.apply s) = spells s := by
  have hs : ∀ c ∈ s.toList, c.toNat < 128 := by simpa [isAscii] using h
  have hf : folded (casing.apply s).toList = folded s.toList := by
    cases casing with
    | lower => simpa [apply, Text.lowercase] using Text.folded_lowerFrom hs []
    | upper => simpa [apply, Text.uppercase] using Text.folded_flatMap_upperChar hs
    | title => simpa [apply, Text.titlecase] using Text.folded_titleFrom hs true
  funext k
  rw [spells, spells, hf]

theorem spells_word (casing : Casing) {s : String} (h : isAscii s = true) :
    spells (casing.word s) = spells s := by
  unfold word
  split
  · exact casing.spells_apply h
  · rfl

theorem spells_keyword (casing : Casing) {word canonical : String}
    (hk : isAscii canonical = true) (h : spells word canonical = true) :
    spells (casing.keyword (.ofWord word canonical) canonical) canonical = true := by
  unfold keyword Spelling.ofWord
  split
  · rename_i he
    rw [Option.getD_none, casing.spells_apply hk, ← he]
    simp [spells]
  · rw [Option.getD_some]
    exact h

end Sql.Casing

theorem Connective.ofWord?_congr {word word' : String} (h : spells word = spells word') :
    Connective.ofWord? word = Connective.ofWord? word' := by
  rw [Connective.ofWord?, Connective.ofWord?, h]

/- Signs and their texts. -/

/-- The word `not` and a blank, if there is a negation. -/
def NegationWritten (text : String) : Bool → Prop
  | true => ∃ word, spells word "not" = true ∧ text = word ++ " "
  | false => text = ""

/-- The atom may be written so. -/
def Atom.Written (text : String) : Atom → Prop
  | .compare left op right => ∃ word, spells word op = true ∧
    text = left ++ " " ++ word ++ " " ++ right
  | .between subject negated low high => ∃ negation word link, NegationWritten negation negated ∧
    spells word "between" = true ∧ spells link "and" = true ∧
      text = subject ++ " " ++ negation ++ word ++ " " ++ low ++ " " ++ link ++ " " ++ high
  | .among subject negated select => ∃ negation word, NegationWritten negation negated ∧
    spells word "in" = true ∧
      text = subject ++ " " ++ negation ++ word ++ " " ++ ("(" ++ Text.indent select.render ++ ")")

def Sign.Written (word : String) : Sign → Prop
  | .atom p => p.Written word
  | .not => spells word "not" = true
  | .link c => Connective.ofWord? word = some c
  | .opening => word = "("
  | .closing => word = ")"

def isGap (s : String) : Bool := s.toList.all Text.isBlank

/-- The text is made of the signs with blanks between them. At the inner side of a parenthesis no
blank is needed. -/
inductive Laid : List Sign → String → Prop
  | nil : Laid [] ""
  | cons {s : Sign} {ss : List Sign} {word text : String} (gap : String) (hw : s.Written word)
      (hgap : isGap gap = true)
      (hfree : gap = "" → s = .opening ∨ ss = [] ∨ ss.head? = some .closing)
      (h : Laid ss text) : Laid (s :: ss) (word ++ gap ++ text)

theorem isGap_append {g g' : String} (h : isGap g = true) (h' : isGap g' = true) :
    isGap (g ++ g') = true := by
  simp_all [isGap]

namespace Laid

variable {s : Sign} {ss ts : List Sign} {word text text' : String}

theorem single (hw : s.Written word) : Laid [s] word := by
  have h := Laid.cons "" hw rfl (fun _ => .inr (.inl rfl)) .nil
  simpa using h

theorem append (h : Laid ss text) (hne : ss ≠ []) (gap : String) (hgap : isGap gap = true)
    (hfree : gap = "" → ts.head? = some .closing) (h' : Laid ts text') :
    Laid (ss ++ ts) (text ++ gap ++ text') := by
  induction h with
  | nil => exact absurd rfl hne
  | @cons s ss word text gap' hw hgap' hfree' h ih =>
    cases ss with
    | nil =>
      cases h
      have hlast := Laid.cons (gap' ++ gap) hw (isGap_append hgap' hgap) (fun he => ?_) h'
      · simpa [String.append_assoc] using hlast
      · have hg : gap = "" := by
          rw [← String.toList_inj] at he ⊢
          simp_all
        exact .inr (.inr (hfree hg))
    | cons s' ss =>
      have hmore := Laid.cons gap' hw hgap' (fun he => ?_) (ih (by simp))
      · simpa [String.append_assoc] using hmore
      · rcases hfree' he with ho | hn | hc
        · exact .inl ho
        · simp at hn
        · exact .inr (.inr (by simpa using hc))

theorem paren (h : Laid ss text) (hne : ss ≠ []) :
    Laid (.opening :: ss ++ [.closing]) ("(" ++ text ++ ")") := by
  have hinner := h.append hne "" rfl (fun _ => rfl) (single (s := .closing) rfl)
  have h' := Laid.cons (s := .opening) "" rfl rfl (fun _ => .inl rfl) hinner
  simpa [String.append_assoc] using h'

theorem before (h : Laid ss text) (hw : s.Written word) : Laid (s :: ss) (word ++ " " ++ text) :=
  .cons " " hw (by decide) (by simp) h

theorem join {α : Type} {signs : α → List Sign} {texts : α → String} {as : List α}
    (h : ∀ a ∈ as, Laid (signs a) (texts a)) (hne : ∀ a ∈ as, signs a ≠ []) {c : Connective}
    {link gap : String} (hl : Connective.ofWord? link = some c) (hgap : isGap gap = true)
    (hfree : gap ≠ "") :
    Laid ([.link c].intercalate (as.map signs))
      ((gap ++ link ++ " ").intercalate (as.map texts)) := by
  induction as with
  | nil => exact .nil
  | cons a as ih =>
    rw [List.forall_mem_cons] at h hne
    cases as with
    | nil => simpa using h.1
    | cons b as =>
      have hrest := (ih h.2 hne.2).before (s := .link c) hl
      have happ := h.1.append hne.1 gap hgap (fun he => absurd he hfree) hrest
      simpa [List.intercalate_cons_cons, String.intercalate_cons_cons, String.append_assoc]
        using happ

end Laid

namespace Sql

/-- A new line, up to a word that ends in a column. -/
def lineStart (width : Nat) (word : String) : String :=
  "\n" ++ String.ofList (List.replicate (width - word.length) ' ')

theorem isGap_lineStart (width : Nat) (word : String) : isGap (lineStart width word) = true := by
  have hblank : Text.isBlank ' ' = true := by decide
  have hline : Text.isBlank '\n' = true := by decide
  simp [isGap, lineStart, hblank, hline]

theorem negationWritten_negationText (casing : Casing) (negated : Bool) :
    NegationWritten (negationText casing negated) negated := by
  cases negated with
  | false => rfl
  | true =>
    have hnot : spells (casing.apply "not") "not" = true := by
      rw [casing.spells_apply (by decide)]
      decide
    exact ⟨_, hnot, rfl⟩

/- What a condition is written with. -/

/-- In every layout the text of the formula is the signs. -/
structure Formula.Writes (f : Formula) (ss : List Sign) : Prop where
  ne_nil : ss ≠ []
  laid : ∀ layout, Laid ss (f.sql layout)

namespace Formula.Writes

variable {f g : Formula} {ss ts : List Sign} {p : Atom} {op : String}

theorem text {sql : String} (h : p.Written sql) : (Formula.text sql).Writes [.atom p] :=
  ⟨by simp, fun _ => .single h⟩

theorem compare {left right : String} (hop : Connective.ofWord? op = none)
    (h : p.Written (left ++ " " ++ op ++ " " ++ right)) :
    (Formula.binary (.text left) op (.text right)).Writes [.atom p] := by
  refine ⟨by simp, fun layout => ?_⟩
  have hs : (Formula.binary (.text left) op (.text right)).sql layout =
      left ++ " " ++ op ++ " " ++ right := by
    cases layout <;> simp [Formula.sql, binaryText, hop]
  rw [hs]
  exact .single h

theorem link (hf : f.Writes ss) (hg : g.Writes ts) {c : Connective}
    (hop : Connective.ofWord? op = some c) :
    (Formula.binary f op g).Writes (ss ++ .link c :: ts) := by
  refine ⟨by simp, fun layout => ?_⟩
  have hright : Laid (.link c :: ts) (op ++ " " ++ g.sql layout) := (hg.laid layout).before hop
  cases layout with
  | inline =>
    have h := (hf.laid .inline).append hf.ne_nil " " (by decide) (by simp) hright
    simpa [Formula.sql, binaryText, hop, String.append_assoc] using h
  | aligned width =>
    have h := (hf.laid (.aligned width)).append hf.ne_nil (lineStart width op)
      (isGap_lineStart width op) (by simp [lineStart]) hright
    simpa [Formula.sql, binaryText, hop, Text.alignRight, lineStart, String.append_assoc] using h

theorem not (hf : f.Writes ss) {keyword : String} (hk : spells keyword "not" = true) :
    (Formula.not keyword f).Writes (.not :: ss) :=
  ⟨by simp, fun layout => (hf.laid layout).before hk⟩

theorem paren (hf : f.Writes ss) : (Formula.paren f).Writes (.opening :: ss ++ [.closing]) :=
  ⟨by simp, fun _ => (hf.laid .inline).paren hf.ne_nil⟩

end Formula.Writes

end Sql

def inParens (parens : Bool) (ss : List Sign) : List Sign :=
  if parens then .opening :: ss ++ [.closing] else ss

namespace Sql

theorem Restriction.laid {r : Restriction} {ss : List Sign} (h : r.formula.Writes ss) (width : Nat)
    (several : Bool) : Laid (inParens (several && r.hasOr) ss) (r.sql width several) := by
  unfold inParens sql
  split
  · exact h.paren.laid .inline
  · exact h.laid (.aligned width)

/-- After the keyword a clause is written with the signs of its conditions, joined by `and`. -/
theorem restrictionText_laid {α : Type} (casing : Casing) (clause : String)
    {restriction : α → Restriction} {signs : α → List Sign} {a : α} {as : List α}
    (h : ∀ x ∈ a :: as, (restriction x).formula.Writes (signs x)) :
    ∃ body, restrictionText casing clause (restriction a) (as.map restriction) =
        casing.keyword (restriction a).keyword clause ++ " " ++ body ∧
      Laid ([.link .and].intercalate ((a :: as).map fun x =>
        inParens (!as.isEmpty && (restriction x).hasOr) (signs x))) body := by
  let width := (casing.keyword (restriction a).keyword clause).length
  have hand : Connective.ofWord? (casing.apply "and") = some .and := by
    rw [Connective.ofWord?_congr (casing.spells_apply (by decide))]
    decide
  have hne : ∀ x ∈ a :: as, inParens (!as.isEmpty && (restriction x).hasOr) (signs x) ≠ [] := by
    intro x hx
    unfold inParens
    split
    · simp
    · exact (h x hx).ne_nil
  have hjoin := Laid.join (fun x hx => Restriction.laid (h x hx) width !as.isEmpty)
    hne hand (isGap_lineStart width (casing.apply "and")) (by simp [lineStart])
  refine ⟨_, ?_, hjoin⟩
  simp [restrictionText, lineStart, Text.alignRight, width, String.append_assoc,
    Function.comp_def]

end Sql

end BracketQuery
