import BracketQuery.Proofs.Lossless
import BracketQuery.Proofs.PlainLayout
import Mathlib.Data.List.Chain

/-! What scanning makes of any text: words of letters, closed literals and closed calls, a fixed
list of symbols, each test for null before its `null`, and single line marks between other
tokens. -/
namespace BracketQuery.Token

/-- A literal between two quotes. A doubled quote is the end of one literal and the start of
another. -/
def IsLiteral (l : List Char) : Prop :=
  ∃ q body, isQuote q = true ∧ q ∉ body ∧ l = q :: body ++ [q]

/-- What may stand between the parentheses of a call: all parentheses outside literals are
closed. -/
inductive Arguments : List Char → Prop
  | nil : Arguments []
  | other {c : Char} {cs : List Char} (hq : isQuote c = false) (ho : c ≠ '(') (hc : c ≠ ')')
      (h : Arguments cs) : Arguments (c :: cs)
  | literal {l cs : List Char} (hl : IsLiteral l) (h : Arguments cs) : Arguments (l ++ cs)
  | group {inner cs : List Char} (hi : Arguments inner) (h : Arguments cs) :
    Arguments ('(' :: inner ++ ')' :: cs)

/-- Word characters, literals and calls, and nothing between them. -/
inductive Parts : List Char → Prop
  | nil : Parts []
  | letter {c : Char} {cs : List Char} (hc : isWordChar c = true) (h : Parts cs) : Parts (c :: cs)
  | literal {l cs : List Char} (hl : IsLiteral l) (h : Parts cs) : Parts (l ++ cs)
  | call {inner cs : List Char} (hi : Arguments inner) (h : Parts cs) :
    Parts ('(' :: inner ++ ')' :: cs)

/-- The rest of a word, after so many open parentheses. -/
def Closes : Nat → List Char → Prop
  | 0, cs => Parts cs
  | depth + 1, cs => ∃ inner rest, Arguments inner ∧ Closes depth rest ∧ cs = inner ++ ')' :: rest

/-- The rest of a word, after so many open parentheses and inside a literal. -/
def ClosesQuoted (depth : Nat) : Option Char → List Char → Prop
  | none, cs => Closes depth cs
  | some q, cs => ∃ body rest, q ∉ body ∧ Closes depth rest ∧ cs = body ++ q :: rest

namespace Closes

variable {depth : Nat} {cs : List Char}

theorem literal {l : List Char} (hl : IsLiteral l) (h : Closes depth cs) :
    Closes depth (l ++ cs) := by
  cases depth with
  | zero => exact .literal hl h
  | succ depth =>
    obtain ⟨inner, rest, hinner, hrest, rfl⟩ := h
    exact ⟨l ++ inner, rest, .literal hl hinner, hrest, (List.append_assoc ..).symm⟩

theorem other {c : Char} (hq : isQuote c = false) (ho : c ≠ '(') (hc : c ≠ ')')
    (h : Closes (depth + 1) cs) : Closes (depth + 1) (c :: cs) := by
  obtain ⟨inner, rest, hinner, hrest, rfl⟩ := h
  exact ⟨c :: inner, rest, .other hq ho hc hinner, hrest, rfl⟩

theorem closed (h : Closes depth cs) : Closes (depth + 1) (')' :: cs) := ⟨[], cs, .nil, h, rfl⟩

theorem opened (h : Closes (depth + 2) cs) : Closes (depth + 1) ('(' :: cs) := by
  obtain ⟨inner, middle, hinner, ⟨outer, rest, houter, hrest, rfl⟩, rfl⟩ := h
  exact ⟨'(' :: inner ++ ')' :: outer, rest, .group hinner houter, hrest, by simp⟩

theorem call (h : Closes 1 cs) : Parts ('(' :: cs) := by
  obtain ⟨inner, rest, hinner, hrest, rfl⟩ := h
  exact .call hinner hrest

end Closes

theorem ClosesQuoted.literal {depth : Nat} {q : Char} {cs : List Char} (hq : isQuote q = true)
    (h : ClosesQuoted depth (some q) cs) : Closes depth (q :: cs) := by
  obtain ⟨body, rest, hbody, hrest, rfl⟩ := h
  have hclose := hrest.literal ⟨q, body, hq, hbody, rfl⟩
  simpa using hclose

theorem ClosesQuoted.cons {depth : Nat} {q c : Char} {cs : List Char}
    (h : ClosesQuoted depth (if c = q then none else some q) cs) :
    ClosesQuoted depth (some q) (c :: cs) := by
  split at h
  · rename_i hc
    exact ⟨[], cs, by simp, h, by rw [hc]; rfl⟩
  · rename_i hc
    obtain ⟨body, rest, hbody, hrest, rfl⟩ := h
    exact ⟨c :: body, rest, by simp [hbody, Ne.symm hc], hrest, rfl⟩

/-- What a word takes of the line closes all that was open before it. -/
theorem wordFrom_shape {taken cs word rest : List Char} {depth : Nat} {quote : Option Char}
    (h : wordFrom taken depth quote cs = .ok (word, rest)) :
    ∃ w, word = taken.reverse ++ w ∧ ClosesQuoted depth quote w := by
  induction cs generalizing taken depth quote with
  | nil =>
    cases quote with
    | some q => simp [wordFrom] at h
    | none =>
      cases depth with
      | succ depth => simp [wordFrom] at h
      | zero =>
        simp only [wordFrom, Except.ok.injEq, Prod.mk.injEq] at h
        exact ⟨[], by simp [h.1], Parts.nil⟩
  | cons c cs ih =>
    -- a character that is taken leaves the rest of the word with the depth and quote after it
    have taking {depth' : Nat} {quote' : Option Char}
        (h' : wordFrom (c :: taken) depth' quote' cs = .ok (word, rest))
        (hstep : ∀ w, ClosesQuoted depth' quote' w → ClosesQuoted depth quote (c :: w)) :
        ∃ w, word = taken.reverse ++ w ∧ ClosesQuoted depth quote w := by
      obtain ⟨w, hw, hcloses⟩ := ih h'
      exact ⟨c :: w, by simp [hw], hstep w hcloses⟩
    cases quote with
    | some q =>
      rw [wordFrom] at h
      exact taking h fun w hw => hw.cons
    | none =>
      cases depth with
      | succ depth =>
        rw [wordFrom] at h
        split at h
        · rename_i hq
          exact taking h fun w hw => hw.literal hq
        · rename_i hq
          refine taking h fun w hw => ?_
          rw [Bool.not_eq_true] at hq
          unfold depthAfter at hw
          split at hw
          · rename_i hc
            exact hc ▸ Closes.opened hw
          · split at hw
            · rename_i hc
              exact hc ▸ Closes.closed hw
            · rename_i ho hc
              exact Closes.other hq ho hc hw
      | zero =>
        rw [wordFrom] at h
        split at h
        · rename_i hc
          exact taking h fun w hw => Parts.letter hc hw
        split at h
        · rename_i hq
          exact taking h fun w hw => hw.literal hq
        split at h
        · rename_i hc
          simp only [Bool.and_eq_true, decide_eq_true_eq] at hc
          exact taking h fun w hw => hc.1 ▸ Closes.call hw
        · simp only [Except.ok.injEq, Prod.mk.injEq] at h
          exact ⟨[], by simp [h.1], Parts.nil⟩

theorem IsWord.parts {w : List Char} (h : IsWord w) : Parts w := by
  obtain ⟨v, hv, hparts⟩ := wordFrom_shape (h.split [] endsWord_nil)
  rw [hv]
  exact hparts

theorem isWordChar_of_leadsGroup {name : List Char} (h : leadsGroup name = true) :
    ∀ c ∈ name, isWordChar c = true := by
  simp only [leadsGroup, List.any_cons, List.any_nil, Bool.or_false, Bool.or_eq_true,
    beq_iff_eq] at h
  rcases h with h | h | h | h <;> exact isWordChar_of_folded (by decide) h

theorem wordFrom_taken {letters : List Char} (h : ∀ c ∈ letters, isWordChar c = true)
    (taken next : List Char) :
    wordFrom taken 0 none (letters ++ next) = wordFrom (letters.reverse ++ taken) 0 none next := by
  induction letters generalizing taken with
  | nil => rfl
  | cons c letters ih =>
    rw [List.forall_mem_cons] at h
    rw [List.cons_append, wordFrom, if_pos h.1, ih h.2, List.reverse_cons, List.append_assoc]
    rfl

theorem IsWord.calls {name rest : List Char} (h : IsWord (name ++ '(' :: rest)) :
    leadsGroup name = false := by
  rw [← Bool.not_eq_true]
  intro hname
  have hletters := isWordChar_of_leadsGroup hname
  have hsplit := h.split [] endsWord_nil
  -- the word would have ended before the parenthesis
  have hstop : splitWord (name ++ '(' :: rest ++ []) = .ok (name, '(' :: rest) := by
    rw [splitWord, List.append_nil, wordFrom_taken hletters, wordFrom,
      if_neg (by decide), if_neg (by decide), if_neg (by simp [callable, hname])]
    simp
  rw [hstop, Except.ok.injEq, Prod.mk.injEq] at hsplit
  simp at hsplit

structure WordShape (w : List Char) : Prop where
  ne_nil : w ≠ []
  oneLine : '\n' ∉ w
  tight : Text.Tight w
  parts : Parts w
  called : ∀ name rest, w = name ++ '(' :: rest → name ≠ [] ∧ leadsGroup name = false

theorem IsWord.shape {w : List Char} (h : IsWord w) : WordShape w where
  ne_nil := h.ne_nil
  oneLine := h.oneLine
  tight := by
    refine ⟨fun c hc => ?_, h.compact.last⟩
    obtain ⟨cs, rfl⟩ := List.head?_eq_some_iff.1 hc
    exact h.isBlank_first
  parts := h.parts
  called := by
    rintro name rest rfl
    refine ⟨?_, h.calls⟩
    rintro rfl
    obtain ⟨c, cs, he, hc⟩ := h.first
    obtain ⟨rfl, -⟩ := List.cons.inj he
    exact absurd hc (by decide)

theorem isTest_iff_spells {s : String} :
    IsTest s.toList ↔ spells s "is" = true ∨ spells s "is not" = true := by
  simp only [spells, beq_iff_eq]
  constructor
  · generalize s.toList = cs
    rintro (h | ⟨hw, hv⟩)
    · exact .inl h
    · right
      rw [folded_append, hw, folded, List.map_cons, ← folded, hv]
      rfl
  · rintro (h | h)
    · exact .is h
    · obtain ⟨w, v, hs, hw, hv⟩ := split_of_folded (a := "is".toList) (b := "not".toList) h
      exact hs ▸ .isNot hw hv

theorem IsSign.shape {s : String} (h : IsSign s.toList) :
    s ∈ plainSigns ∨ spells s "is" = true ∨ spells s "is not" = true := by
  rcases h.text with hplain | his | ⟨a, b, rfl, ha, hb⟩
  · exact .inl hplain
  · exact .inr (.inl his)
  · refine .inr (isTest_iff_spells.1 ?_)
    have htest : IsTest (a.toList ++ ' ' :: b.toList) := .isNot (beq_iff_eq.1 ha) (beq_iff_eq.1 hb)
    simpa using htest

/- Line marks. -/

/-- Neither at an end nor next to another one is there a line mark. -/
structure MarksApart (ts : List Token) : Prop where
  first : ts.head? ≠ some .newline
  last : ts.getLast? ≠ some .newline
  apart : ts.IsChain fun t u => t ≠ .newline ∨ u ≠ .newline

theorem marksApart_of_row {row : List Token} (h : .newline ∉ row) : MarksApart row where
  first hfirst := h (List.mem_of_head? hfirst)
  last hlast := h (List.mem_of_getLast? hlast)
  apart := by
    refine (List.pairwise_of_forall_mem_list fun t ht u _ => .inl ?_).isChain
    rintro rfl
    exact h ht

theorem MarksApart.join {row rest : List Token} (hrow : .newline ∉ row) (hne : row ≠ [])
    (h : MarksApart rest) (hrest : rest ≠ []) : MarksApart (row ++ .newline :: rest) where
  first := by
    rw [List.head?_append_of_ne_nil _ hne]
    exact (marksApart_of_row hrow).first
  last := by
    obtain ⟨t, rest, rfl⟩ := List.exists_cons_of_ne_nil hrest
    simpa using h.last
  apart := by
    have hmark : (.newline :: rest).IsChain fun t u => t ≠ .newline ∨ u ≠ .newline := by
      refine List.isChain_cons.2 ⟨fun u hu => .inr ?_, h.apart⟩
      rintro rfl
      exact h.first hu
    refine (marksApart_of_row hrow).apart.append hmark fun t ht u _ => .inl ?_
    rintro rfl
    exact hrow (List.mem_of_getLast? ht)

theorem marksApart_intercalate {rows : List (List Token)}
    (h : ∀ row ∈ rows, row ≠ [] ∧ .newline ∉ row) : MarksApart ([.newline].intercalate rows) := by
  induction rows with
  | nil => exact marksApart_of_row List.not_mem_nil
  | cons row rows ih =>
    rw [List.forall_mem_cons] at h
    cases rows with
    | nil => simpa [List.intercalate] using marksApart_of_row h.1.2
    | cons other rows =>
      have hrest := intercalate_ne_nil (h.2 other (by simp)).1 rows
      rw [List.intercalate_cons_cons]
      simpa using MarksApart.join h.1.2 h.1.1 (ih h.2) hrest

/-- Tokens as the rest of the program counts on: nothing foreign in a word, no other symbols, `null`
right after each test for it, and line marks only between tokens. -/
structure Shaped (ts : List Token) : Prop where
  words : ∀ w, .word w ∈ ts → WordShape w.toList
  symbols : ∀ s, .symbol s ∈ ts → s ∈ plainSigns ∨ spells s "is" = true ∨ spells s "is not" = true
  tests : ∀ front s back, ts = front ++ .symbol s :: back →
    spells s "is" = true ∨ spells s "is not" = true →
    ∃ w, back.head? = some (.word w) ∧ spells w "null" = true
  marks : MarksApart ts

theorem scan_shaped {text : String} {ts : List Token} (h : scan text = .ok ts) : Shaped ts where
  words w hw := IsWord.shape (scan_scanned h (.word w) hw)
  symbols s hs := IsSign.shape (scan_scanned h (.symbol s) hs)
  tests := by
    rintro front s back rfl hs
    exact (linesFrom_tested h).right.1 s rfl (isTest_iff_spells.2 hs)
  marks := by
    obtain ⟨rows, hrows, rfl⟩ := linesFrom_rows h
    have hmarks : List.Forall₂ (fun row _ => .newline ∉ row ∧ True) rows (Text.lines text.toList) :=
      hrows.imp fun row l ⟨_, hline⟩ => ⟨lineFrom_ne_newline hline, trivial⟩
    refine marksApart_intercalate fun row hrow => ?_
    obtain ⟨hmem, hne⟩ := List.mem_filter.1 hrow
    exact ⟨by simpa using hne, ((List.forall₂_and_left _ _).1 hmarks).1 row hmem⟩

/-- Calls in a call, a parenthesis in a literal, a test for null, and a group that is no call. -/
theorem scan_shaped_nested :
    let text := "a is  NOT Null and f( 'x)', (b) )''\n\nnot (c >= 1)\n"
    let ts : List Token := [.word "a", .symbol "is NOT", .word "Null", .word "and",
      .word "f( 'x)', (b) )''", .newline, .word "not", .symbol "(", .word "c", .symbol ">=",
      .word "1", .symbol ")"]
    scan text = .ok ts ∧ Shaped ts := by
  intro text ts
  have hscan : scan text = .ok ts := scan_of_toOption (by decide +kernel)
  exact ⟨hscan, scan_shaped hscan⟩

end BracketQuery.Token
