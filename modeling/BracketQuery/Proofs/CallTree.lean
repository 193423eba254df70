import BracketQuery.Proofs.CallArguments
import BracketQuery.Proofs.Unscan
import Mathlib.Data.List.TakeWhile

/-! Trees of calls. Their leaves are columns and literals, and nothing in a leaf is taken for the
structure around it: so qualification reaches every column of a tree and nothing else. -/
namespace BracketQuery.Sql
open Text (isBlank)
open Token (isQuote isWordChar)

def isLeafChar (c : Char) : Bool := !isBlank c && c != '.' && c != '*'

structure BareName where
  text : List Char
  ne_nil : text ≠ []
  letters : ∀ c ∈ text, isNameChar c = true

/-- A text between quotes; a quote inside it is written twice. -/
def quotedText (quote : Char) (content : List Char) : List Char :=
  quote :: (content.flatMap (fun c => if c = quote then [c, c] else [c]) ++ [quote])

def constants : List (List Char) := ["null".toList, "true".toList, "false".toList]

inductive LeafLiteral where
  | number (digits : List Char) (h : Text.allDigits digits = true)
  | constant (text : List Char) (h : folded text ∈ constants)
  | parameter (mark : Char) (name : List Char) (hmark : mark ∈ [':', '@', '$', '?'])
      (hname : ∀ c ∈ name, isWordChar c = true ∧ isLeafChar c = true)
  | quoted (quote : Char) (content : List Char) (hquote : isQuote quote = true)
      (hcontent : ∀ c ∈ content, isLeafChar c = true)

def LeafLiteral.text : LeafLiteral → List Char
  | .number digits _ => digits
  | .constant text _ => text
  | .parameter mark name _ _ => mark :: name
  | .quoted quote content _ _ => quotedText quote content

inductive CallTree where
  | column (name : BareName) (h : isLiteralText name.text = false)
  | literal (literal : LeafLiteral)
  | call (function : BareName) (arguments : List CallTree)

/- The text of a tree, with what separates arguments and what stands before a column. -/
mutual

def CallTree.print (separator before : List Char) : CallTree → List Char
  | .column name _ => before ++ name.text
  | .literal literal => literal.text
  | .call function arguments =>
    function.text ++ '(' ::
      (separator.intercalate (printAll separator before arguments) ++ [')'])

def printAll (separator before : List Char) : List CallTree → List (List Char)
  | [] => []
  | tree :: trees => tree.print separator before :: printAll separator before trees

end

/- Texts that a reader of arguments takes in as one. -/

namespace Level

/-- A text that starts at the level ends there, and is not cut in between. -/
def Passes (l : Level) (cs : List Char) : Prop := l.after cs = l ∧ l.uncut cs = true

variable {l : Level}

theorem passes_nil (l : Level) : l.Passes [] := ⟨rfl, rfl⟩

theorem Passes.append {cs ds : List Char} (hc : l.Passes cs) (hd : l.Passes ds) :
    l.Passes (cs ++ ds) := by
  simp [Passes, hc.1, hc.2, hd.1, hd.2]

theorem passes_single {c : Char} (hnext : l.next c = l) (hcuts : l.cuts c = false) :
    l.Passes [c] := by
  simp [Passes, hnext, hcuts]

theorem passes_flatMap {cs : List Char} {f : Char → List Char} (h : ∀ c ∈ cs, l.Passes (f c)) :
    l.Passes (cs.flatMap f) := by
  induction cs with
  | nil => exact passes_nil l
  | cons c cs ih =>
    rw [List.flatMap_cons]
    exact (h c (by simp)).append (ih fun d hd => h d (by simp [hd]))

theorem passes_letter {c : Char} (h : isWordChar c = true) (depth : Nat) :
    Passes ⟨depth, none⟩ [c] :=
  passes_single (next_letter h depth) (by simp [cuts, ne_of_test h (d := ',') (by decide)])

theorem passes_letters {cs : List Char} (h : ∀ c ∈ cs, isWordChar c = true) (depth : Nat) :
    Passes ⟨depth, none⟩ cs := by
  simpa using passes_flatMap (f := fun c => [c]) fun c hc => passes_letter (h c hc) depth

theorem passes_quotedText {quote : Char} (hquote : isQuote quote = true) (content : List Char)
    (depth : Nat) : Passes ⟨depth, none⟩ (quotedText quote content) := by
  have hcomma : quote ≠ ',' := ne_of_test hquote (by decide)
  have hopen : next ⟨depth, none⟩ quote = ⟨depth, some quote⟩ := next_quote hquote depth
  have hclose : next ⟨depth, some quote⟩ quote = ⟨depth, none⟩ := by simp [next, quoteNext]
  have hinside : Passes ⟨depth, some quote⟩
      (content.flatMap fun c => if c = quote then [c, c] else [c]) := by
    refine passes_flatMap fun c _ => ?_
    split
    · rename_i hc
      subst hc
      simp [Passes, hopen, hclose, cuts, hcomma]
    · rename_i hc
      exact passes_single (by simp [next, quoteNext, hc]) (by simp [cuts])
  simp [Passes, quotedText, hopen, hclose, hinside.1, hinside.2, cuts, hcomma]

theorem passes_intercalate {depth : Nat} {ps : List (List Char)}
    (h : ∀ p ∈ ps, Passes ⟨depth + 1, none⟩ p) : Passes ⟨depth + 1, none⟩ ([','].intercalate ps) :=
  intercalate_of_append (passes_nil _) (fun _ _ => Passes.append)
    (passes_single rfl (by simp [cuts])) h

end Level

/-- The text is an argument on its own, and none of those that are kept as they are. -/
structure Whole (cs : List Char) : Prop where
  ne_nil : cs ≠ []
  leaf : ∀ c ∈ cs, isLeafChar c = true
  passes (depth : Nat) : Level.Passes ⟨depth, none⟩ cs

theorem whole_letters {cs : List Char} (hne : cs ≠ [])
    (h : ∀ c ∈ cs, isWordChar c = true ∧ isLeafChar c = true) : Whole cs where
  ne_nil := hne
  leaf := fun c hc => (h c hc).2
  passes := Level.passes_letters fun c hc => (h c hc).1

theorem isLeafChar_of_isWordChar {c : Char} (h : isWordChar c = true) (hdot : c ≠ '.')
    (hstar : c ≠ '*') : isLeafChar c = true := by
  simp [isLeafChar, Token.isBlank_of_isWordChar h, hdot, hstar]

theorem isWordChar_of_isNameChar {c : Char} (h : isNameChar c = true) :
    isWordChar c = true ∧ isLeafChar c = true := by
  have hdot : c ≠ '.' := ne_of_test h (by decide)
  have hstar : c ≠ '*' := ne_of_test h (by decide)
  have hword : isWordChar c = true := by
    simp only [isNameChar, Bool.or_eq_true, decide_eq_true_eq] at h
    rcases h with h | rfl
    · simp [isWordChar, h]
    · decide
  exact ⟨hword, isLeafChar_of_isWordChar hword hdot hstar⟩

theorem BareName.whole (name : BareName) : Whole name.text :=
  whole_letters name.ne_nil fun c hc => isWordChar_of_isNameChar (name.letters c hc)

theorem isNameChar_of_isDigit {c : Char} (h : c.isDigit = true) : isNameChar c = true := by
  have hall : ∀ k < 10, isNameChar (Char.ofNat (48 + k)) = true := by decide
  have hn : 48 ≤ c.toNat ∧ c.toNat ≤ 57 := by
    simpa [Char.isDigit, UInt32.le_iff_toNat_le] using h
  have hk := hall (c.toNat - 48) (by omega)
  rwa [Nat.add_sub_cancel' hn.1, Char.ofNat_toNat] at hk

theorem whole_constant {text : List Char} (h : folded text ∈ constants) : Whole text := by
  have hall : ∀ k ∈ constants, k ≠ [] ∧ k.all isWordChar = true ∧ '.' ∉ k ∧ '*' ∉ k := by decide
  obtain ⟨hne, hletters, hdot, hstar⟩ := hall _ h
  refine whole_letters (by rintro rfl; exact hne rfl) fun c hc => ?_
  have hmem : c.toLower ∈ folded text := List.mem_map_of_mem hc
  have hword := Token.isWordChar_of_folded hletters rfl c hc
  refine ⟨hword, isLeafChar_of_isWordChar hword ?_ ?_⟩
  · rintro rfl
    exact hdot hmem
  · rintro rfl
    exact hstar hmem

theorem isLeafChar_of_isQuote {c : Char} (h : isQuote c = true) : isLeafChar c = true := by
  simp only [isQuote, Bool.or_eq_true, decide_eq_true_eq] at h
  rcases h with rfl | rfl <;> decide

theorem LeafLiteral.whole (literal : LeafLiteral) : Whole literal.text := by
  cases literal with
  | number digits h =>
    simp only [Text.allDigits, Bool.and_eq_true, Bool.not_eq_true', List.isEmpty_eq_false_iff,
      List.all_eq_true] at h
    exact whole_letters h.1 fun c hc => isWordChar_of_isNameChar (isNameChar_of_isDigit (h.2 c hc))
  | constant text h => exact whole_constant h
  | parameter mark name hmark hname =>
    have hall : [':', '@', '$', '?'].all (fun m => isWordChar m && isLeafChar m) = true := by decide
    have hm := List.all_eq_true.1 hall mark hmark
    rw [Bool.and_eq_true] at hm
    exact whole_letters (by simp [text]) (List.forall_mem_cons.2 ⟨hm, hname⟩)
  | quoted quote content hquote hcontent =>
    refine ⟨by simp [text, quotedText], ?_, Level.passes_quotedText hquote content⟩
    have hq := isLeafChar_of_isQuote hquote
    intro c hc
    simp only [text, quotedText, List.mem_cons, List.mem_append, List.mem_flatMap,
      List.not_mem_nil, or_false] at hc
    rcases hc with rfl | ⟨d, hd, hc⟩ | rfl
    · exact hq
    · have hcd : c = d := by
        split at hc <;> simpa using hc
      exact hcd ▸ hcontent d hd
    · exact hq

/- Which texts are literals. -/

theorem LeafLiteral.isLiteralText (literal : LeafLiteral) : isLiteralText literal.text = true := by
  cases literal with
  | number digits h =>
    simp only [Text.allDigits, Bool.and_eq_true, Bool.not_eq_true', List.isEmpty_eq_false_iff,
      List.all_eq_true] at h
    have hdrop : digits.dropWhile Char.isDigit = [] := List.dropWhile_eq_nil_iff.2 h.2
    have hnumber : isNumber digits = true := by
      rw [isNumber, hdrop]
      cases digits with
      | nil => exact absurd rfl h.1
      | cons c digits => simp [isFraction, isExponent, h.2 c]
    simp [Sql.isLiteralText, text, hnumber]
  | constant text h =>
    have hany : ["null", "true", "false"].any (folded text == ·.toList) = true := by
      simp only [constants, List.mem_cons, List.not_mem_nil, or_false] at h
      rcases h with h | h | h <;> rw [h] <;> decide
    simp [Sql.isLiteralText, LeafLiteral.text, hany]
  | parameter mark name hmark hname =>
    have hall : [':', '@', '$', '?'].all marksLiteral = true := by decide
    simp [Sql.isLiteralText, text, List.all_eq_true.1 hall mark hmark]
  | quoted quote content hquote hcontent =>
    simp [Sql.isLiteralText, text, quotedText, marksLiteral, hquote]

theorem mem_dropWhile {p : Char → Bool} {c : Char} {cs : List Char} (hc : c ∈ cs)
    (hp : p c = false) : c ∈ cs.dropWhile p := by
  rw [← List.takeWhile_append_dropWhile (p := p) (l := cs), List.mem_append] at hc
  rcases hc with hc | hc
  · simp [List.mem_takeWhile_imp hc] at hp
  · exact hc

def isNumberChar (c : Char) : Bool := c.isDigit || ['.', 'e', 'E', '+', '-'].contains c

theorem mem_dropSign {c : Char} {cs : List Char} (h : c ∈ cs) :
    c ∈ dropSign cs ∨ isNumberChar c = true := by
  unfold dropSign
  split
  · rcases List.mem_cons.1 h with rfl | h
    · exact .inr (by decide)
    · exact .inl h
  · rcases List.mem_cons.1 h with rfl | h
    · exact .inr (by decide)
    · exact .inl h
  · exact .inl h

theorem isNumberChar_of_exponent {cs : List Char} (h : isExponent cs = true) :
    ∀ c ∈ cs, isNumberChar c = true := by
  intro c hc
  cases cs with
  | nil => simp at hc
  | cons e cs =>
    simp only [isExponent, Text.allDigits, Bool.and_eq_true, Bool.or_eq_true, decide_eq_true_eq,
      List.all_eq_true] at h
    obtain ⟨he, -, hdigits⟩ := h
    rcases List.mem_cons.1 hc with rfl | hc
    · rcases he with rfl | rfl <;> decide
    · rcases mem_dropSign hc with hc | hc
      · simp [isNumberChar, hdigits c hc]
      · exact hc

theorem isNumberChar_of_isNumber {cs : List Char} (h : isNumber cs = true) :
    ∀ c ∈ cs, isNumberChar c = true := by
  intro c hc
  cases hd : c.isDigit with
  | true => simp [isNumberChar, hd]
  | false =>
    have hrest := mem_dropWhile hc hd
    simp only [isNumber, Bool.and_eq_true] at h
    generalize cs.dropWhile Char.isDigit = rest at h hrest
    obtain ⟨-, hfraction⟩ := h
    unfold isFraction at hfraction
    split at hfraction
    · rcases List.mem_cons.1 hrest with rfl | hrest
      · decide
      · exact isNumberChar_of_exponent hfraction c (mem_dropWhile hrest hd)
    · exact isNumberChar_of_exponent hfraction c hrest

/-- A call is taken for a literal exactly if something in its arguments is a dot or a star. -/
theorem isLiteralText_call (function : BareName) (rest : List Char) :
    isLiteralText (function.text ++ '(' :: rest) = rest.any (fun c => c = '.' || c = '*') := by
  obtain ⟨name, hne, hletters⟩ := function
  have hname : name.any (fun c => c = '.' || c = '*') = false := by
    refine List.any_eq_false.2 fun c hc => ?_
    have hdot : c ≠ '.' := ne_of_test (hletters c hc) (by decide)
    have hstar : c ≠ '*' := ne_of_test (hletters c hc) (by decide)
    simp [hdot, hstar]
  have hdots : (name ++ '(' :: rest).any (fun c => c = '.' || c = '*') =
      rest.any (fun c => c = '.' || c = '*') := by
    rw [List.any_append, hname]
    rfl
  generalize htext : name ++ '(' :: rest = cs at hdots
  have hmem : '(' ∈ cs := by simp [← htext]
  have hmark : cs.head?.any marksLiteral = false := by
    cases name with
    | nil => exact absurd rfl hne
    | cons c name =>
      have hc : c ∉ [':', '@', '$', '?', '\x27', '\x22'] :=
        Token.not_mem_of_all (by decide) (hletters c (by simp))
      simpa [← htext, marksLiteral, isQuote, and_assoc] using hc
  have hconstant : ["null", "true", "false"].any (folded cs == ·.toList) = false := by
    have hfolded : '(' ∈ folded cs := List.mem_map_of_mem (f := Char.toLower) hmem
    have hall : ∀ k ∈ ["null", "true", "false"], '(' ∉ k.toList := by decide
    refine List.any_eq_false.2 fun k hk he => hall k hk ?_
    rwa [← eq_of_beq he]
  have hnumber : isNumber cs = false :=
    Bool.eq_false_iff.2 fun hn => absurd (isNumberChar_of_isNumber hn '(' hmem) (by decide)
  rw [isLiteralText, hmark, hconstant, hnumber, hdots]
  rfl

/- Trees. -/

theorem whole_call (function : BareName) {ps : List (List Char)} (h : ∀ p ∈ ps, Whole p) :
    Whole (function.text ++ '(' :: ([','].intercalate ps ++ [')'])) where
  ne_nil := by simp
  leaf := by
    have hsigns : ∀ c ∈ ['(', ')', ','], isLeafChar c = true := List.all_eq_true.1 (by decide)
    intro c hc
    simp only [List.mem_append, List.mem_cons, mem_intercalate_iff, List.not_mem_nil,
      or_false] at hc
    rcases hc with hc | hc | (⟨p, hp, hc⟩ | ⟨-, hc⟩) | hc
    · exact function.whole.leaf c hc
    · exact hsigns c (by simp [hc])
    · exact (h p hp).leaf c hc
    · exact hsigns c (by simp [hc])
    · exact hsigns c (by simp [hc])
  passes := by
    intro depth
    have hname := function.whole.passes depth
    have hargs := Level.passes_intercalate fun p hp => (h p hp).passes (depth + 1)
    simp [Level.Passes, hname.1, hname.2, hargs.1, hargs.2, Level.cuts]

theorem isLiteralText_whole_call (function : BareName) {rest : List Char}
    (h : Whole (function.text ++ '(' :: rest)) :
    isLiteralText (function.text ++ '(' :: rest) = false := by
  rw [isLiteralText_call]
  refine List.any_eq_false.2 fun c hc => ?_
  have hleaf := h.leaf c (by simp [hc])
  simp only [isLeafChar, Bool.and_eq_true, bne_iff_ne] at hleaf
  simp [hleaf.1.2, hleaf.2]

mutual

theorem CallTree.whole_print : (tree : CallTree) → Whole (tree.print [','] [])
  | .column name _ => name.whole
  | .literal literal => literal.whole
  | .call function arguments => whole_call function (whole_printAll arguments)

theorem whole_printAll : (trees : List CallTree) → ∀ p ∈ printAll [','] [] trees, Whole p
  | [] => by simp [printAll]
  | tree :: trees => List.forall_mem_cons.2 ⟨tree.whole_print, whole_printAll trees⟩

end

theorem Whole.isBlank {cs : List Char} (h : Whole cs) : ∀ c ∈ cs, isBlank c = false := by
  intro c hc
  have hleaf := h.leaf c hc
  simp only [isLeafChar, Bool.and_eq_true, Bool.not_eq_true'] at hleaf
  exact hleaf.1.1

/-- The text is found as an argument of its own, and no blank keeps it from being qualified. -/
structure Separate (a : List Char) : Prop where
  ne_nil : a ≠ []
  tight : Text.Tight a
  passes : Level.Passes {} a
  literal : a.any isBlank = true → isLiteralText a = true

theorem separate_of_solid {a : List Char} (hne : a ≠ []) (h : ∀ c ∈ a, isBlank c = false)
    (hp : Level.Passes {} a) : Separate a where
  ne_nil := hne
  tight := ⟨fun c hc => h c (List.mem_of_mem_head? hc), fun c hc => h c (List.mem_of_getLast? hc)⟩
  passes := hp
  literal := fun hb => by
    obtain ⟨c, hc, hblank⟩ := List.any_eq_true.1 hb
    simp [h c hc] at hblank

theorem Whole.separate {cs : List Char} (h : Whole cs) : Separate cs :=
  separate_of_solid h.ne_nil h.isBlank (h.passes 0)

section

variable {ps : List (List Char)} {gap : List Char}

/-- Separate arguments are found as they are, however the commas are spaced. -/
theorem arguments_separate (hne : ps ≠ []) (h : ∀ p ∈ ps, Separate p)
    (hgap : ∀ c ∈ gap, isBlank c = true) : arguments ((',' :: gap).intercalate ps) = ps := by
  have hpieces : Pieces ps :=
    ⟨hne, fun p hp => (h p hp).passes.2, fun p hp => (h p (List.dropLast_subset _ hp)).passes.1⟩
  rw [hpieces.arguments hgap]
  exact (List.map_congr_left fun p hp => (h p hp).tight.trim).trans (List.map_id ps)

theorem qualifiedArgument_separate {p : List Char} (h : Separate p) (scope : List Char) :
    qualifiedArgument scope p = qualifiedText scope p := by
  have hempty : p.isEmpty = false := List.isEmpty_eq_false_iff.2 h.ne_nil
  rw [qualifiedArgument, hempty, Bool.false_or]
  split
  · rename_i hblank
    exact (qualifiedText_literal scope (h.literal hblank)).symm
  · rfl

theorem qualifiedArguments_separate (scope : List Char) (h : ∀ p ∈ ps, Separate p)
    (hgap : ∀ c ∈ gap, isBlank c = true) :
    [',', ' '].intercalate
        ((arguments ((',' :: gap).intercalate ps)).map (qualifiedArgument scope)) =
      [',', ' '].intercalate (ps.map (qualifiedText scope)) := by
  cases ps with
  | nil => rfl
  | cons p ps =>
    rw [arguments_separate (by simp) h hgap]
    exact congrArg _ (List.map_congr_left fun q hq => qualifiedArgument_separate (h q hq) scope)

end

theorem BareName.noParen (name : BareName) : '(' ∉ name.text :=
  fun h => absurd (name.letters _ h) (by decide)

theorem BareName.call?_none (name : BareName) : call? name.text = none := by
  refine Option.eq_none_iff_forall_ne_some.2 fun found hc => name.noParen ?_
  rw [(call?_eq_some_iff.1 hc).1]
  simp

theorem BareName.call?_some (name : BareName) (args : List Char) :
    call? (name.text ++ '(' :: (args ++ [')'])) = some (name.text, args) :=
  call?_eq_some_iff.2 ⟨rfl, name.ne_nil, name.noParen⟩

mutual

theorem CallTree.qualifiedText_print (scope : List Char) : (tree : CallTree) →
    qualifiedText scope (tree.print [','] []) = tree.print [',', ' '] (scope ++ ['.'])
  | .column name h => by
    simpa [CallTree.print] using qualifiedText_name scope h name.call?_none
  | .literal literal => qualifiedText_literal scope literal.isLiteralText
  | .call function arguments => by
    have hwhole := whole_printAll arguments
    have hliteral := isLiteralText_whole_call function (whole_call function hwhole)
    rw [CallTree.print, qualifiedText_call scope hliteral (function.call?_some _),
      qualifiedArguments_separate scope (fun p hp => (hwhole p hp).separate) (by simp),
      qualifiedText_printAll scope arguments, CallTree.print]

theorem qualifiedText_printAll (scope : List Char) : (trees : List CallTree) →
    (printAll [','] [] trees).map (qualifiedText scope) = printAll [',', ' '] (scope ++ ['.']) trees
  | [] => rfl
  | tree :: trees => by
    rw [printAll, printAll, List.map_cons, tree.qualifiedText_print, qualifiedText_printAll]

end

/-- Exactly the columns of a tree get the scope; literals and functions stay as they are. -/
theorem CallTree.qualify_print (tree : CallTree) (scope : String) :
    qualify (String.ofList (tree.print [','] [])) scope =
      String.ofList (tree.print [',', ' '] (scope.toList ++ ['.'])) := by
  rw [qualify, String.toList_ofList, tree.qualifiedText_print]

end BracketQuery.Sql
