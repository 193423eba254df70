import BracketQuery.Proofs.CallTree

/-! Calls with plain arguments. The test for a literal sees a call as a whole, before its arguments
are taken apart: a dot or a star in one of them keeps all of them as they are, and otherwise each is
qualified on its own. -/
namespace BracketQuery.Sql
open Text (isBlank)
open Token (isQuote isWordChar)

/-- An argument that is no call. A literal between quotes may hold anything, blanks included. -/
inductive PlainArgument where
  | column (name : BareName)
  | dotted (text : List Char) (letters : ∀ c ∈ text, isWordChar c = true) (dot : '.' ∈ text)
  | number (text : List Char) (h : isNumber (dropSign text) = true)
  | parameter (mark : Char) (name : List Char) (hmark : mark ∈ [':', '@', '$', '?'])
      (letters : ∀ c ∈ name, isWordChar c = true)
  | quoted (quote : Char) (content : List Char) (hquote : isQuote quote = true)

namespace PlainArgument

def text : PlainArgument → List Char
  | .column name => name.text
  | .dotted text _ _ => text
  | .number text _ => text
  | .parameter mark name _ _ => mark :: name
  | .quoted quote content _ => quotedText quote content

/-- The argument makes a literal of the call it stands in. -/
def shields (a : PlainArgument) : Bool := a.text.any fun c => c = '.' || c = '*'

end PlainArgument

/- Each argument is separate. -/

theorem separate_of_letters {a : List Char} (hne : a ≠ []) (h : ∀ c ∈ a, isWordChar c = true) :
    Separate a :=
  separate_of_solid hne (fun c hc => Token.isBlank_of_isWordChar (h c hc))
    (Level.passes_letters h 0)

theorem isBlank_of_isNumberChar {c : Char} (h : isNumberChar c = true) : isBlank c = false := by
  cases hb : isBlank c with
  | false => rfl
  | true =>
    have hdigit : c.isDigit = false := by
      rw [← Bool.not_eq_true]
      intro hd
      have hword := (isWordChar_of_isNameChar (isNameChar_of_isDigit hd)).1
      simp [Token.isBlank_of_isWordChar hword] at hb
    have hsign : c ∉ ['.', 'e', 'E', '+', '-'] := Token.not_mem_of_all (by decide) hb
    simp [isNumberChar, hdigit] at h
    simp [h] at hsign

theorem Level.passes_number {cs : List Char} (h : ∀ c ∈ cs, isNumberChar c = true) :
    Passes {} cs := by
  have hone : ∀ c ∈ cs, Passes {} [c] := by
    intro c hc
    have hquote : isQuote c = false := by
      have h1 : c ≠ '\x27' := ne_of_test (h c hc) (by decide)
      have h2 : c ≠ '\x22' := ne_of_test (h c hc) (by decide)
      simp [isQuote, h1, h2]
    have hcomma : c ≠ ',' := ne_of_test (h c hc) (by decide)
    exact passes_single
      (next_other hquote (ne_of_test (h c hc) (by decide)) (ne_of_test (h c hc) (by decide)) 0)
      (by simp [cuts, hcomma])
  simpa using passes_flatMap (f := fun c => [c]) hone

theorem separate_number {text : List Char} (h : isNumber (dropSign text) = true) :
    Separate text := by
  have hchars : ∀ c ∈ text, isNumberChar c = true := by
    intro c hc
    rcases mem_dropSign hc with hc | hc
    · exact isNumberChar_of_isNumber h c hc
    · exact hc
  refine separate_of_solid ?_ (fun c hc => isBlank_of_isNumberChar (hchars c hc))
    (Level.passes_number hchars)
  rintro rfl
  exact absurd h (by decide)

theorem separate_quotedText {quote : Char} (hquote : isQuote quote = true) (content : List Char) :
    Separate (quotedText quote content) where
  ne_nil := by simp [quotedText]
  tight := by
    have hblank : isBlank quote = false := by
      rw [← Bool.not_eq_true]
      intro hb
      simp [Token.isQuote_of_isBlank hb] at hquote
    refine ⟨by simpa [quotedText] using hblank, fun c hc => ?_⟩
    rw [quotedText, ← List.cons_append, List.getLast?_concat] at hc
    cases hc
    exact hblank
  passes := Level.passes_quotedText hquote content 0
  literal := fun _ => by simp [isLiteralText, quotedText, marksLiteral, hquote]

theorem PlainArgument.separate (a : PlainArgument) : Separate a.text := by
  cases a with
  | column name => exact name.whole.separate
  | dotted text letters dot => exact separate_of_letters (List.ne_nil_of_mem dot) letters
  | number text h => exact separate_number h
  | parameter mark name hmark letters =>
    have hall : [':', '@', '$', '?'].all isWordChar = true := by decide
    exact separate_of_letters (by simp [text])
      (List.forall_mem_cons.2 ⟨List.all_eq_true.1 hall mark hmark, letters⟩)
  | quoted quote content hquote => exact separate_quotedText hquote content

/- Calls. -/

def callText (function : BareName) (separator : List Char) (args : List (List Char)) : List Char :=
  function.text ++ '(' :: (separator.intercalate args ++ [')'])

theorem any_callText {p : Char → Bool} {separator : List Char} (hs : separator.any p = false)
    (hclose : p ')' = false) (args : List (List Char)) :
    (separator.intercalate args ++ [')']).any p = args.any (·.any p) := by
  rw [Bool.eq_iff_iff]
  simp only [List.any_eq_true, List.any_eq_false, List.mem_append, List.mem_singleton,
    mem_intercalate_iff] at hs ⊢
  constructor
  · rintro ⟨c, (⟨a, ha, hc⟩ | ⟨-, hc⟩) | rfl, hp⟩
    · exact ⟨a, ha, c, hc, hp⟩
    · exact absurd hp (hs c hc)
    · simp [hclose] at hp
  · rintro ⟨a, ha, c, hc, hp⟩
    exact ⟨c, .inl (.inl ⟨a, ha, hc⟩), hp⟩

theorem isLiteralText_callText (function : BareName) {gap : List Char}
    (hgap : ∀ c ∈ gap, isBlank c = true) (args : List (List Char)) :
    isLiteralText (callText function (',' :: gap) args) =
      args.any (·.any fun c => c = '.' || c = '*') := by
  have hs : (',' :: gap).any (fun c => c = '.' || c = '*') = false := by
    refine List.any_eq_false.2 (List.forall_mem_cons.2 ⟨by decide, fun c hc => ?_⟩)
    have hdot : c ≠ '.' := ne_of_test (hgap c hc) (by decide)
    have hstar : c ≠ '*' := ne_of_test (hgap c hc) (by decide)
    simp [hdot, hstar]
  rw [callText, isLiteralText_call, any_callText hs (by decide)]

/-- Unless one of them holds a dot or a star, each argument of a call is qualified as it would be
alone, whatever the others are; else all of them stay as they are. -/
theorem qualify_callText (function : BareName) (blanks : Nat) (args : List PlainArgument)
    (scope : String) :
    qualify (String.ofList
        (callText function (',' :: List.replicate blanks ' ') (args.map (·.text)))) scope =
      String.ofList (
        if args.any (·.shields) then
          callText function (',' :: List.replicate blanks ' ') (args.map (·.text))
        else
          callText function [',', ' ']
            (args.map fun a => (qualify (String.ofList a.text) scope).toList)) := by
  have hgap : ∀ c ∈ List.replicate blanks ' ', isBlank c = true := by
    intro c hc
    exact isBlank_space c (by simp [(List.mem_replicate.1 hc).2])
  have hliteral := isLiteralText_callText function hgap (args.map (·.text))
  rw [List.any_map] at hliteral
  rw [qualify, String.toList_ofList]
  congr 1
  split
  · rename_i hshields
    exact qualifiedText_literal _ (hliteral.trans hshields)
  · rename_i hshields
    rw [Bool.not_eq_true] at hshields
    have hseparate : ∀ p ∈ args.map (·.text), Separate p := by
      intro p hp
      obtain ⟨a, -, rfl⟩ := List.mem_map.1 hp
      exact a.separate
    have hcall := function.call?_some ((',' :: List.replicate blanks ' ').intercalate
      (args.map (·.text)))
    refine (qualifiedText_call _ (hliteral.trans hshields) hcall).trans ?_
    rw [qualifiedArguments_separate _ hseparate hgap, callText]
    simp [qualify, Function.comp_def]

/-- A dot inside a literal leaves the column beside it without its scope. -/
theorem exists_argument_not_qualified : ∃ (function : BareName) (args : List PlainArgument)
    (scope : String), qualify (String.ofList (callText function [','] (args.map (·.text)))) scope ≠
      String.ofList (callText function [',', ' ']
        (args.map fun a => (qualify (String.ofList a.text) scope).toList)) := by
  let function : BareName := ⟨"coalesce".toList, by decide, List.all_eq_true.1 (by decide)⟩
  let title : BareName := ⟨"title".toList, by decide, List.all_eq_true.1 (by decide)⟩
  refine ⟨function, [.column title, .quoted '\x27' "n.a.".toList (by decide)], "post", ?_⟩
  decide +kernel

end BracketQuery.Sql
