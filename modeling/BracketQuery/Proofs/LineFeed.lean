import BracketQuery.Proofs.LineCut
import BracketQuery.Proofs.Lossless

/-! Texts with a line feed between them. Their lines are scanned apart: the tokens of both are put
together with one line mark, and a fault of the second is found as many lines further down as the
first has. -/
namespace BracketQuery

def ScanError.lower (n : Nat) : ScanError → ScanError
  | .unknownCharacter c line column => .unknownCharacter c (line + n) column
  | .unterminated what line => .unterminated what (line + n)

namespace Token
open Text (isBlank skipBlanks)

/- Words, one character at a time. -/

/-- The depth and the quote after a character that belongs to the word. -/
def wordStep (taken : List Char) (depth : Nat) (quote : Option Char) (c : Char) :
    Option (Nat × Option Char) :=
  match quote, depth with
  | some q, depth => some (depth, if c = q then none else some q)
  | none, depth + 1 =>
    if isQuote c then some (depth + 1, some c) else some (depthAfter depth c, none)
  | none, 0 =>
    if isWordChar c then some (0, none)
    else if isQuote c then some (0, some c)
    else if c = '(' && callable taken then some (1, none)
    else none

section

variable {taken : List Char} {depth depth' : Nat} {quote quote' : Option Char} {c : Char}

theorem wordFrom_step (h : wordStep taken depth quote c = some (depth', quote')) (cs : List Char) :
    wordFrom taken depth quote (c :: cs) = wordFrom (c :: taken) depth' quote' cs := by
  rw [wordFrom.eq_def]
  cases quote with
  | some q =>
    cases h
    rfl
  | none =>
    cases depth with
    | succ depth =>
      simp only [wordStep] at h ⊢
      split at h
      · cases h
        rw [if_pos ‹_›]
      · cases h
        rw [if_neg ‹_›]
    | zero =>
      simp only [wordStep] at h ⊢
      split at h
      · cases h
        rw [if_pos ‹_›]
      rw [if_neg ‹_›]
      split at h
      · cases h
        rw [if_pos ‹_›]
      rw [if_neg ‹_›]
      split at h
      · cases h
        rw [if_pos ‹_›]
      · cases h

theorem wordFrom_stopped (h : wordStep taken depth quote c = none) (cs : List Char) :
    wordFrom taken depth quote (c :: cs) = .ok (taken.reverse, c :: cs) := by
  cases quote with
  | some q => cases h
  | none =>
    cases depth with
    | succ depth =>
      simp only [wordStep] at h
      split at h <;> cases h
    | zero =>
      simp only [wordStep] at h
      rw [wordFrom]
      split at h
      · cases h
      rw [if_neg ‹_›]
      split at h
      · cases h
      rw [if_neg ‹_›]
      split at h
      · cases h
      rw [if_neg ‹_›]

theorem wordStep_quote (h : wordStep taken depth quote c = some (depth', quote'))
    (hquote : ∀ q ∈ quote, isQuote q = true) : ∀ q ∈ quote', isQuote q = true := by
  unfold wordStep at h
  grind

end

/- Numbers of lines. -/

theorem lineFrom_lower (n number width : Nat) (cs : List Char) :
    lineFrom (number + n) width cs = (lineFrom number width cs).mapError (.lower n) := by
  induction cs using lineFrom.induct with
  | case1 cs hskip =>
    rw [lineFrom_nil _ _ hskip, lineFrom_nil _ _ hskip]
    rfl
  | case2 cs c r hskip fault hhead =>
    rw [lineFrom_fault _ _ hskip hhead, lineFrom_fault _ _ hskip hhead]
    cases fault <;> rfl
  | case3 cs c r hskip us rest hhead _ ih =>
    rw [lineFrom_cons _ _ hskip hhead, lineFrom_cons _ _ hskip hhead, ih]
    cases lineFrom number width rest <;> rfl

theorem linesFrom_lower (n number : Nat) (ls : List (List Char)) :
    linesFrom (number + n) ls = (linesFrom number ls).mapError (.lower n) := by
  induction ls generalizing number with
  | nil => rfl
  | cons l ls ih =>
    have hline : line (number + n) l = (line number l).mapError (.lower n) :=
      lineFrom_lower n number l.length l
    rw [linesFrom, linesFrom, hline, Nat.add_right_comm, ih]
    cases line number l with
    | error e => rfl
    | ok first => cases linesFrom (number + 1) ls <;> rfl

/- A blank at the end of a line. -/

section

variable {b : Char} (hb : isBlank b = true)
include hb

theorem wordFrom_fault_blank {taken cs : List Char} {depth : Nat} {quote : Option Char}
    {what : Unfinished} (hquote : ∀ q ∈ quote, isQuote q = true)
    (h : wordFrom taken depth quote cs = .error what) :
    wordFrom taken depth quote (cs ++ [b]) = .error what := by
  induction cs generalizing taken depth quote with
  | nil =>
    have hb' := isQuote_of_isBlank hb
    cases quote with
    | some q =>
      have hne : b ≠ q := by
        rintro rfl
        simp [hquote b rfl] at hb'
      simpa [wordFrom, hne] using h
    | none =>
      cases depth with
      | zero => simp [wordFrom] at h
      | succ depth =>
        have hopen : b ≠ '(' := Sql.ne_of_test hb (by decide)
        have hclose : b ≠ ')' := Sql.ne_of_test hb (by decide)
        simpa [wordFrom, hb', depthAfter, hopen, hclose] using h
  | cons c cs ih =>
    rw [List.cons_append]
    cases hstep : wordStep taken depth quote c with
    | none =>
      rw [wordFrom_stopped hstep] at h
      cases h
    | some next =>
      rw [wordFrom_step hstep] at h ⊢
      exact ih (wordStep_quote hstep hquote) h

theorem head_fault_blank {c : Char} {cs : List Char} {fault : Fault}
    (h : head c cs = .error fault) : head c (cs ++ [b]) = .error fault := by
  cases hext : head c (cs ++ [b]) with
  | ok found =>
    obtain ⟨us, rest⟩ := found
    obtain ⟨rest, rfl⟩ := head_last hb hext
    rw [head_cut hb hext] at h
    cases h
  | error fault' =>
    obtain ⟨-, -, -, hword⟩ := head_eq_error h
    obtain ⟨-, -, -, hword'⟩ := head_eq_error hext
    unfold wordHead at hword hword'
    cases hs : splitWord (c :: cs) with
    | error what =>
      have hs' : splitWord (c :: (cs ++ [b])) = .error what :=
        wordFrom_fault_blank hb (by simp) hs
      rw [hs] at hword
      rw [hs'] at hword'
      cases hword
      cases hword'
      rfl
    | ok result =>
      obtain ⟨word, rest⟩ := result
      have hs' : splitWord (c :: (cs ++ [b])) = .ok (word, rest ++ [b]) := (wordFrom_cut hb).2 hs
      rw [hs] at hword
      rw [hs'] at hword'
      cases word with
      | nil =>
        cases hword
        cases hword'
        rfl
      | cons d word => cases hword

theorem lineFrom_blank_end (number width : Nat) (cs : List Char) :
    lineFrom number (width + 1) (cs ++ [b]) = lineFrom number width cs := by
  induction cs using lineFrom.induct with
  | case1 cs hskip =>
    rw [lineFrom_nil _ _ hskip]
    exact (lineFrom_lastBlank hb _ _).2 (lineFrom_nil _ _ hskip)
  | case2 cs c r hskip fault hhead =>
    rw [lineFrom_fault _ _ hskip hhead,
      lineFrom_fault _ _ (skipBlanks_first_append hskip [b]) (head_fault_blank hb hhead)]
    cases fault <;> simp [Fault.located]
  | case3 cs c r hskip us rest hhead _ ih =>
    rw [lineFrom_cons _ _ hskip hhead,
      lineFrom_cons _ _ (skipBlanks_first_append hskip [b]) (head_blank hb hhead), ih]

theorem line_blank_end (number : Nat) (cs : List Char) :
    line number (cs ++ [b]) = line number cs := by
  rw [line, List.length_append]
  exact lineFrom_blank_end hb number cs.length cs

end

/- Texts cut at their line feeds. -/

theorem SameLines.linesFrom {ls pieces : List (List Char)} (h : SameLines ls pieces)
    (number : Nat) : Token.linesFrom number pieces = Token.linesFrom number ls := by
  induction h generalizing number with
  | nil => rfl
  | last =>
    have hempty : line number [] = .ok [] := lineFrom_nil number 0 rfl
    simp only [Token.linesFrom, hempty]
    rfl
  | feed _ ih => rw [Token.linesFrom, Token.linesFrom, ih]
  | returnFeed _ ih =>
    rw [Token.linesFrom, Token.linesFrom, ih, line_blank_end (by decide)]

/-- The carriage return of a line end is a blank like any other. -/
theorem scan_eq_splitOn (text : String) :
    scan text = linesFrom 1 (text.toList.splitOn '\n') :=
  ((sameLines_splitOn text.toList).linesFrom 1).symm

theorem length_splitOn_feed (cs : List Char) :
    (cs.splitOn '\n').length = cs.count '\n' + 1 := by
  induction cs with
  | nil => rfl
  | cons c cs ih =>
    rw [List.splitOn_cons_eq_if_modifyHead, List.count_cons]
    split <;> simp [ih]

theorem joinLines_assoc (ts us vs : List Token) :
    joinLines ts (joinLines us vs) = joinLines (joinLines ts us) vs := by
  cases ts <;> cases us <;> cases vs <;> simp [joinLines]

theorem linesFrom_append (number : Nat) (ls ms : List (List Char)) :
    linesFrom number (ls ++ ms) = do
      let ts ← linesFrom number ls
      let us ← linesFrom (number + ls.length) ms
      return joinLines ts us := by
  induction ls generalizing number with
  | nil =>
    show linesFrom number ms = linesFrom number ms >>= fun us => pure us
    exact (bind_pure _).symm
  | cons l ls ih =>
    have hlength : number + (l :: ls).length = number + 1 + ls.length := by
      rw [List.length_cons]
      omega
    rw [List.cons_append, linesFrom, ih, linesFrom, hlength]
    cases line number l with
    | error e => rfl
    | ok first =>
      cases linesFrom (number + 1) ls with
      | error e => rfl
      | ok ts =>
        cases linesFrom (number + 1 + ls.length) ms with
        | error e => rfl
        | ok us => exact congrArg Except.ok (joinLines_assoc first ts us)

/-- Two texts with a line feed between them have the tokens of both, with a line mark between them
unless one of them has none. What is wrong with the first is wrong with the whole; what is wrong
with the second is so further down, by the lines of the first. -/
theorem scan_append_feed (a b : String) :
    scan (a ++ "\n" ++ b) = do
      let ts ← scan a
      let us ← (scan b).mapError (.lower (1 + a.toList.count '\n'))
      return if ts = [] ∨ us = [] then ts ++ us else ts ++ [.newline] ++ us := by
  have hsplit : (a ++ "\n" ++ b).toList.splitOn '\n' =
      a.toList.splitOn '\n' ++ b.toList.splitOn '\n' := by
    simp [List.splitOn_append_cons_self]
  rw [scan_eq_splitOn, hsplit, linesFrom_append, length_splitOn_feed, scan_eq_splitOn a,
    scan_eq_splitOn b, Nat.add_comm 1 (a.toList.count '\n'), linesFrom_lower]
  refine bind_congr fun ts => bind_congr fun us => congrArg pure ?_
  unfold joinLines
  split
  · simp_all
  split
  · simp_all
  · simp_all

end Token
end BracketQuery
