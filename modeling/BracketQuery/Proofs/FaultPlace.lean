import BracketQuery.Proofs.LineBreak
import BracketQuery.Proofs.LineFeed

/-! Where scanning fails. An unknown character is the first one that no token accounts for: the text
before it has tokens, and what comes after it does not matter. A literal or a call that is cut short
needs only some more characters in its line. -/
namespace BracketQuery

namespace Token
open Text (isBlank skipBlanks)

/- Characters that no look ahead passes. -/

/-- A character that is no blank, belongs to no name and is not the second one of a sign. -/
structure Barrier (d : Char) : Prop where
  blank : isBlank d = false
  word : isWordChar d = false
  sign : ∀ a, (a, d) ∉ doubleSigns

/-- A character that occurs in no token, literals and calls apart, and is no blank. -/
structure Foreign (c : Char) : Prop where
  blank : isBlank c = false
  word : isWordChar c = false
  quote : isQuote c = false
  symbol : isSymbolChar c = false

theorem isSymbolChar_second {a d : Char} (h : (a, d) ∈ doubleSigns) : isSymbolChar d = true := by
  have hall : (doubleSigns.all fun p => isSymbolChar p.2) = true := by decide
  exact List.all_eq_true.1 hall (a, d) h

theorem Foreign.barrier {c : Char} (h : Foreign c) : Barrier c where
  blank := h.blank
  word := h.word
  sign a ha := by
    have hc := isSymbolChar_second ha
    simp [h.symbol] at hc

theorem Foreign.stops {c : Char} (h : Foreign c) (cs : List Char) : StopsWord (c :: cs) := by
  have hopen : c ≠ '(' := by
    rintro rfl
    exact absurd h.symbol (by decide)
  simp [StopsWord, h.word, h.quote, hopen]

theorem barrier_quote {q : Char} (h : isQuote q = true) : Barrier q := by
  simp only [isQuote, Bool.or_eq_true, decide_eq_true_eq] at h
  rcases h with rfl | rfl
  · exact ⟨by decide, by decide, fun a ha => by simp [doubleSigns] at ha⟩
  · exact ⟨by decide, by decide, fun a ha => by simp [doubleSigns] at ha⟩

theorem barrier_paren : Barrier '(' :=
  ⟨by decide, by decide, fun a ha => by simp [doubleSigns] at ha⟩

section

variable {d : Char} (hd : Barrier d) (cs next : List Char)
include hd

theorem skipBlanks_barrier : skipBlanks (cs ++ d :: next) = skipBlanks cs ++ d :: next := by
  unfold skipBlanks
  rw [List.dropWhile_append]
  cases cs.dropWhile isBlank <;> simp [hd.blank]

theorem firstWord_barrier :
    Text.afterWord cs = [] ∧ d ∈ Text.firstWord (cs ++ d :: next) ∨
      Text.firstWord (cs ++ d :: next) = Text.firstWord cs ∧
        Text.afterWord (cs ++ d :: next) = Text.afterWord cs ++ d :: next := by
  unfold Text.firstWord Text.afterWord
  induction cs with
  | nil => simp [hd.blank]
  | cons c cs ih =>
    by_cases hc : isBlank c = true
    · simp [hc]
    · rcases ih with ⟨hafter, hfirst⟩ | ⟨hfirst, hafter⟩
      · left
        simp [hc, hafter, hfirst]
      · right
        simp [hc, hfirst, hafter]

theorem folded_ne_barrier {w keyword : List Char} (hk : keyword.all isWordChar = true)
    (hw : d ∈ w) : folded w ≠ keyword := by
  intro h
  have hword := isWordChar_of_folded hk h d hw
  simp [hd.word] at hword

end

theorem nullTail?_eq_none {cs : List Char} (operator : List Char)
    (h : folded (cs.take 4) ≠ "null".toList) : nullTail? operator cs = none := by
  refine if_neg fun hn => h ?_
  simp only [Bool.and_eq_true, decide_eq_true_eq] at hn
  exact hn.1

theorem nullTail?_short {cs : List Char} (operator : List Char) (h : cs.length < 4) :
    nullTail? operator cs = none := by
  refine nullTail?_eq_none operator fun hnull => ?_
  have hlen := congrArg List.length hnull
  simp [folded] at hlen
  omega

def NullTest.before (test : NullTest) (more : List Char) : NullTest :=
  { test with rest := test.rest ++ more }

section

variable {d : Char} (hd : Barrier d) (cs next : List Char)
include hd

theorem nullTail?_barrier (operator : List Char) : nullTail? operator (cs ++ d :: next) =
    (nullTail? operator cs).map (·.before (d :: next)) := by
  by_cases hlen : 4 ≤ cs.length
  · have hends : ((cs ++ d :: next).drop 4).head?.any isWordChar =
        (cs.drop 4).head?.any isWordChar := by
      rw [List.drop_append_of_le_length hlen]
      cases cs.drop 4 with
      | nil => simpa using hd.word
      | cons c r => rfl
    unfold nullTail?
    rw [hends, List.take_append_of_le_length hlen, List.drop_append_of_le_length hlen]
    split <;> rfl
  · -- four characters would take in the barrier, or are not there
    have hmem : d ∈ (cs ++ d :: next).take 4 := by
      rw [List.take_append]
      have hlast : 4 - cs.length = (3 - cs.length) + 1 := by omega
      simp [hlast]
    rw [nullTail?_eq_none operator (folded_ne_barrier hd (by decide) hmem),
      nullTail?_short operator (by omega)]
    rfl

theorem afterIs?_barrier (is : List Char) : afterIs? is (cs ++ d :: next) =
    (afterIs? is cs).map (·.before (d :: next)) := by
  unfold afterIs?
  rcases firstWord_barrier hd cs next with ⟨hafter, hfirst⟩ | ⟨hfirst, hafter⟩
  · rw [if_neg (folded_ne_barrier hd (by decide) hfirst), nullTail?_barrier hd]
    split
    · -- `not` alone is too short for `null`
      rename_i hnot
      have hcs := Text.firstWord_append cs
      rw [hafter, List.append_nil] at hcs
      rw [hcs] at hnot
      have hlen : cs.length = 3 := by simpa [folded] using congrArg List.length hnot
      rw [hafter, nullTail?_short is (by omega), nullTail?_short _ (by simp [skipBlanks])]
    · rfl
  · rw [hfirst, hafter, skipBlanks_barrier hd]
    split
    · exact nullTail?_barrier hd _ _ _
    · exact nullTail?_barrier hd _ _ _

theorem nullTest?_barrier :
    nullTest? (cs ++ d :: next) = (nullTest? cs).map (·.before (d :: next)) := by
  unfold nullTest?
  rcases firstWord_barrier hd cs next with ⟨hafter, hfirst⟩ | ⟨hfirst, hafter⟩
  · rw [if_neg (folded_ne_barrier hd (by decide) hfirst), hafter]
    split
    · simp [afterIs?, nullTail?, skipBlanks, Text.firstWord, folded]
    · rfl
  · rw [hfirst, hafter, skipBlanks_barrier hd]
    split
    · exact afterIs?_barrier hd _ _ _
    · rfl

end

theorem doubleSign?_none_of_second {a b : Char} {cs : List Char} (h : (a, b) ∉ doubleSigns) :
    doubleSign? (a :: b :: cs) = none := by
  simp [doubleSign?, h]

theorem doubleSign?_none_of_third {a b c : Char} {cs : List Char} (h : isBlank c = false) :
    doubleSign? (a :: b :: c :: cs) = none := by
  simp [doubleSign?, h]

theorem doubleSign?_none_of_symbol {c : Char} (h : isSymbolChar c = false) (cs : List Char) :
    doubleSign? (c :: cs) = none := by
  have hall : (['<', '!', '>'].all isSymbolChar) = true := by decide
  refine doubleSign?_none (fun hm => ?_) cs
  have hc := List.all_eq_true.1 hall c hm
  simp [h] at hc

section

variable {d x : Char} {cs rest back : List Char} {ts : List Token}

theorem doubleSign?_barrier (hd : Barrier d) (x : Char) (cs next : List Char) :
    doubleSign? (x :: (cs ++ d :: next)) =
      if cs.length < 2 then none
      else (doubleSign? (x :: cs)).map fun found => (found.1, found.2 ++ d :: next) := by
  match cs with
  | [] => simpa using doubleSign?_none_of_second (hd.sign x)
  | [y] => simpa using doubleSign?_none_of_third hd.blank
  | y :: z :: cs =>
    by_cases hs : (x, y) ∈ doubleSigns ∧ isBlank z = true
    · simp [doubleSign?, hs]
    · simp [doubleSign?, hs]

theorem wordFrom_barrier {taken word : List Char} {depth : Nat} {quote : Option Char}
    (h : wordFrom taken depth quote (cs ++ d :: back) = .ok (word, rest ++ d :: back))
    (back' : List Char) :
    wordFrom taken depth quote (cs ++ d :: back') = .ok (word, rest ++ d :: back') := by
  induction cs generalizing taken depth quote with
  | nil =>
    rw [List.nil_append] at h ⊢
    cases hstep : wordStep taken depth quote d with
    | none =>
      rw [wordFrom_stopped hstep, Except.ok.injEq, Prod.mk.injEq] at h
      obtain ⟨rfl, hrest⟩ := h
      obtain rfl : rest = [] := by
        have hlen := congrArg List.length hrest
        simpa using hlen
      exact wordFrom_stopped hstep back'
    | some next =>
      -- a word that takes the barrier leaves less than the barrier and what follows it
      rw [wordFrom_step hstep] at h
      obtain ⟨w, hw, -⟩ := wordFrom_again h
      have hlen := congrArg List.length hw
      simp at hlen
      omega
  | cons c cs ih =>
    rw [List.cons_append] at h ⊢
    cases hstep : wordStep taken depth quote c with
    | none =>
      rw [wordFrom_stopped hstep, Except.ok.injEq, Prod.mk.injEq, ← List.cons_append,
        List.append_cancel_right_eq] at h
      obtain ⟨rfl, rfl⟩ := h
      exact wordFrom_stopped hstep _
    | some next =>
      rw [wordFrom_step hstep] at h ⊢
      exact ih h

/-- A token that ends before the barrier is the same whatever follows the barrier. -/
theorem head_barrier (hd : Barrier d)
    (h : head x (cs ++ d :: back) = .ok (ts, rest ++ d :: back)) (back' : List Char) :
    head x (cs ++ d :: back') = .ok (ts, rest ++ d :: back') := by
  unfold head at h ⊢
  rw [doubleSign?_barrier hd, ← List.cons_append, nullTest?_barrier hd] at h ⊢
  cases hs : (if cs.length < 2 then none else doubleSign? (x :: cs)) with
  | some found =>
    obtain ⟨hlen, hs⟩ := Option.ite_none_left_eq_some.1 hs
    rw [if_neg hlen, hs] at h ⊢
    simp only [Option.map_some, Except.ok.injEq, Prod.mk.injEq,
      List.append_cancel_right_eq] at h ⊢
    exact h
  | none =>
    have hnone (next : List Char) : (if cs.length < 2 then none
        else (doubleSign? (x :: cs)).map fun found => (found.1, found.2 ++ d :: next)) = none := by
      split at hs
      · rw [if_pos ‹_›]
      · rw [if_neg ‹_›, hs]
        rfl
    rw [hnone] at h ⊢
    cases hn : nullTest? (x :: cs) with
    | some test =>
      rw [hn] at h
      simp only [Option.map_some, NullTest.before, Except.ok.injEq, Prod.mk.injEq,
        List.append_cancel_right_eq] at h ⊢
      exact h
    | none =>
      rw [hn] at h
      simp only [Option.map_none] at h ⊢
      split at h
      · rw [if_pos ‹_›]
        simp only [Except.ok.injEq, Prod.mk.injEq, List.append_cancel_right_eq] at h ⊢
        exact h
      · rw [if_neg ‹_›]
        obtain ⟨word, hword, hne, rfl⟩ := wordHead_eq_ok.1 h
        rw [splitWord, ← List.cons_append] at hword
        exact wordHead_eq_ok.2 ⟨word, wordFrom_barrier hword back', hne, rfl⟩

theorem head_cut_foreign (hd : Foreign d)
    (h : head x (cs ++ d :: back) = .ok (ts, rest ++ d :: back)) :
    head x cs = .ok (ts, rest) ∨ ∃ sign, head x cs = .ok (sign, []) := by
  cases hs : doubleSign? (x :: cs) with
  | some found =>
    obtain ⟨sign, left⟩ := found
    have hhead : head x cs = .ok ([.symbol (String.ofList sign)], left) := by simp [head, hs]
    by_cases hlen : cs.length < 2
    · have hnil : left = [] := by
        cases cs with
        | nil => cases hs
        | cons y rest =>
          rw [List.length_cons] at hlen
          obtain rfl : rest = [] := List.length_eq_zero_iff.1 (by omega)
          simp only [doubleSign?] at hs
          split at hs <;> simp_all
      exact .inr ⟨_, hnil ▸ hhead⟩
    · unfold head at h
      rw [doubleSign?_barrier hd.barrier, if_neg hlen, hs] at h
      simp only [Option.map_some, Except.ok.injEq, Prod.mk.injEq,
        List.append_cancel_right_eq] at h
      exact .inl (by rw [hhead, h.1, h.2])
  | none =>
    left
    unfold head at h ⊢
    rw [doubleSign?_barrier hd.barrier, ← List.cons_append, nullTest?_barrier hd.barrier, hs,
      Option.map_none, ite_self] at h
    rw [hs]
    cases hn : nullTest? (x :: cs) with
    | some test =>
      rw [hn] at h
      simp only [Option.map_some, NullTest.before, Except.ok.injEq, Prod.mk.injEq,
        List.append_cancel_right_eq] at h ⊢
      exact h
    | none =>
      rw [hn] at h
      simp only [Option.map_none] at h ⊢
      split at h
      · rw [if_pos ‹_›]
        simp only [Except.ok.injEq, Prod.mk.injEq, List.append_cancel_right_eq] at h ⊢
        exact h
      · rw [if_neg ‹_›]
        obtain ⟨word, hword, hne, rfl⟩ := wordHead_eq_ok.1 h
        rw [splitWord, ← List.cons_append] at hword
        exact wordHead_eq_ok.2 ⟨word, (wordFrom_cut_stop (hd.stops back)).1 hword, hne, rfl⟩

theorem head_suffix (h : head x cs = .ok (ts, rest)) : rest <:+ cs := by
  have hsuffix : rest <:+ x :: cs := by
    cases head_begins h with
    | double _ hcs => exact ⟨[_, _], hcs.symm⟩
    | test htest => exact (List.suffix_append _ _).trans (nullTest?_suffix htest)
    | single _ hcs => exact ⟨[_], hcs.symm⟩
    | word hsplit => exact ⟨_, splitWord_append hsplit⟩
  rcases List.suffix_cons_iff.1 hsuffix with hsame | hrest
  · have hlen := head_length h
    simp [hsame] at hlen
  · exact hrest

end

/- The first fault of a line. -/

/-- The front part of the line has its tokens, and none starts right after it. -/
structure FaultAt (front : List Char) (x : Char) (r : List Char) (fault : Fault) : Prop where
  between : Between (x :: r) front
  blank : isBlank x = false
  fault : head x r = .error fault

section

variable {front back r : List Char} {x d : Char} {fault : Fault}

theorem Between.lineFrom (h : Between back front) : ∃ us, ∀ number width,
    Token.lineFrom number width (front ++ back) =
      (us ++ ·) <$> Token.lineFrom number width back := by
  induction h with
  | here hgap =>
    refine ⟨[], fun number width => ?_⟩
    rw [← lineFrom_skipBlanks, Text.skipBlanks_append (List.all_eq_true.1 hgap),
      lineFrom_skipBlanks]
    simp
  | @token front r left c ts hskip hhead _ ih =>
    obtain ⟨us, hus⟩ := ih
    refine ⟨ts ++ us, fun number width => ?_⟩
    rw [lineFrom_cons _ _ (skipBlanks_first_append hskip back) hhead, hus]
    simp

theorem Between.barrier (hd : Barrier d) {a b : List Char} (h : Between (a ++ d :: b) front)
    (b' : List Char) : Between (a ++ d :: b') front := by
  induction h with
  | here hgap => exact .here hgap
  | token hskip hhead _ ih =>
    simp only [← List.append_assoc] at hhead
    have hhead' := head_barrier hd hhead b'
    simp only [List.append_assoc] at hhead'
    exact .token hskip hhead' ih

theorem FaultAt.lineFrom (h : FaultAt front x r fault) (number width : Nat) :
    Token.lineFrom number width (front ++ x :: r) =
      .error (fault.located number width (x :: r).length) := by
  obtain ⟨us, hus⟩ := h.between.lineFrom
  have hskip : skipBlanks (x :: r) = x :: r := by simp [skipBlanks, h.blank]
  rw [hus, lineFrom_fault number width hskip h.fault]
  rfl

theorem exists_faultAt {number width : Nat} {cs : List Char} {e : ScanError}
    (h : lineFrom number width cs = .error e) : ∃ front x r fault,
      cs = front ++ x :: r ∧ FaultAt front x r fault ∧
      e = fault.located number width (x :: r).length := by
  induction cs using lineFrom.induct with
  | case1 cs hskip =>
    rw [lineFrom_nil _ _ hskip] at h
    cases h
  | case2 cs c r hskip fault hhead =>
    rw [lineFrom_fault _ _ hskip hhead, Except.error.injEq] at h
    obtain ⟨gap, hgap, hcs⟩ := Text.skipBlanks_split cs
    have hblank := Text.skipBlanks_first cs c (by rw [hskip]; rfl)
    rw [hskip] at hcs
    exact ⟨gap, c, r, fault, hcs, ⟨.here (List.all_eq_true.2 hgap), hblank, hhead⟩, h.symm⟩
  | case3 cs c r hskip us rest hhead _ ih =>
    rw [lineFrom_cons _ _ hskip hhead] at h
    have hrest : lineFrom number width rest = .error e := by
      cases hl : lineFrom number width rest with
      | error e' =>
        rw [hl] at h
        exact h
      | ok ts =>
        rw [hl] at h
        cases h
    obtain ⟨front, x, r', fault, rfl, hfault, he⟩ := ih hrest
    obtain ⟨v, rfl⟩ := head_suffix hhead
    obtain ⟨gap, hgap, hcs⟩ := Text.skipBlanks_split cs
    have hblank := Text.skipBlanks_first cs c (by rw [hskip]; rfl)
    rw [hskip] at hcs
    refine ⟨gap ++ c :: (v ++ front), x, r', fault, by simp [hcs],
      ⟨?_, hfault.blank, hfault.fault⟩, he⟩
    rw [← List.append_assoc] at hhead
    exact .token (skipBlanks_gap (List.all_eq_true.2 hgap) hblank (v ++ front)) hhead
      hfault.between

/- Unknown characters. -/

theorem wordFrom_taken_prefix {taken cs word rest : List Char} {depth : Nat}
    {quote : Option Char} (h : wordFrom taken depth quote cs = .ok (word, rest)) :
    taken.reverse <+: word := by
  obtain ⟨w, rfl, -⟩ := wordFrom_again h
  have hword := wordFrom_append h
  rw [← List.append_assoc, List.append_cancel_right_eq] at hword
  exact ⟨w, hword.symm⟩

theorem head_foreign (hd : Foreign d) (cs : List Char) : head d cs = .error (.unknown d) := by
  have htest : nullTest? (d :: cs) = none := nullTest?_barrier hd.barrier [] cs
  have hword : splitWord (d :: cs) = .ok ([], d :: cs) := wordFrom_stop [] (hd.stops cs)
  simp [head, doubleSign?_none_of_symbol hd.symbol, htest, hd.symbol, wordHead, hword]

theorem foreign_of_head (hblank : isBlank x = false) (h : head x r = .error (.unknown d)) :
    x = d ∧ Foreign x := by
  obtain ⟨-, -, hsymbol, hword⟩ := head_eq_error h
  unfold wordHead at hword
  split at hword
  · cases hword
  · rename_i rest hsplit
    cases hword
    have hstop : wordStep [] 0 none x = none := by
      cases hstep : wordStep [] 0 none x with
      | none => rfl
      | some next =>
        -- a word that starts with the character is not empty
        rw [splitWord, wordFrom_step hstep] at hsplit
        simpa using wordFrom_taken_prefix hsplit
    have hletter : isWordChar x = false ∧ isQuote x = false := by
      simp only [wordStep] at hstop
      split at hstop
      · cases hstop
      split at hstop
      · cases hstop
      · simp_all
    exact ⟨rfl, hblank, hletter.1, hletter.2, by simpa using hsymbol⟩
  · cases hword

theorem Between.lineFrom_front (hd : Foreign d) (h : Between (d :: back) front) :
    ∃ ts, ∀ number width, Token.lineFrom number width front = .ok ts := by
  induction h with
  | here hgap =>
    refine ⟨[], fun number width => lineFrom_nil _ _ ?_⟩
    have hskip := Text.skipBlanks_append (List.all_eq_true.1 hgap) []
    rwa [List.append_nil] at hskip
  | @token front r left c ts hskip hhead _ ih =>
    obtain ⟨us, hus⟩ := ih
    rcases head_cut_foreign hd hhead with hcut | ⟨sign, hcut⟩
    · refine ⟨ts ++ us, fun number width => ?_⟩
      rw [lineFrom_cons _ _ hskip hcut, hus]
      rfl
    · refine ⟨sign ++ [], fun number width => ?_⟩
      rw [lineFrom_cons _ _ hskip hcut, lineFrom_nil _ _ rfl]
      rfl

/-- Nothing that stands behind it makes an unknown character known. -/
theorem FaultAt.more (h : FaultAt front x r (.unknown d)) (more : List Char) :
    FaultAt front x (r ++ more) (.unknown d) := by
  obtain ⟨rfl, hforeign⟩ := foreign_of_head h.blank h.fault
  have hbetween : Between ([] ++ x :: r) front := h.between
  exact ⟨hbetween.barrier hforeign.barrier (r ++ more), h.blank, head_foreign hforeign _⟩

/- Literals and calls that are cut short. -/

theorem wordFrom_closing (taken : List Char) (depth : Nat) :
    ∃ word, wordFrom taken depth none (List.replicate depth ')') = .ok (word, []) := by
  induction depth generalizing taken with
  | zero => exact ⟨taken.reverse, rfl⟩
  | succ depth ih =>
    have hstep : wordStep taken (depth + 1) none ')' = some (depth, none) := by
      simp [wordStep, isQuote, depthAfter]
    rw [List.replicate_succ, wordFrom_step hstep]
    exact ih _

theorem wordFrom_complete {taken cs : List Char} {depth : Nat} {quote : Option Char}
    {what : Unfinished} (hquote : ∀ q ∈ quote, isQuote q = true)
    (h : wordFrom taken depth quote cs = .error what) :
    ∃ more word, '\n' ∉ more ∧ wordFrom taken depth quote (cs ++ more) = .ok (word, []) := by
  induction cs generalizing taken depth quote with
  | nil =>
    cases quote with
    | none =>
      obtain ⟨word, hword⟩ := wordFrom_closing taken depth
      exact ⟨_, word, by simp, hword⟩
    | some q =>
      obtain ⟨word, hword⟩ := wordFrom_closing (q :: taken) depth
      have hstep : wordStep taken depth (some q) q = some (depth, none) := by simp [wordStep]
      have hfeed : '\n' ≠ q := by
        rintro rfl
        exact absurd (hquote _ rfl) (by decide)
      refine ⟨q :: List.replicate depth ')', word, by simp [hfeed], ?_⟩
      rw [List.nil_append, wordFrom_step hstep]
      exact hword
  | cons c cs ih =>
    cases hstep : wordStep taken depth quote c with
    | none =>
      rw [wordFrom_stopped hstep] at h
      cases h
    | some next =>
      rw [wordFrom_step hstep] at h
      obtain ⟨more, word, hmore, hword⟩ := ih (wordStep_quote hstep hquote) h
      refine ⟨more, word, hmore, ?_⟩
      rw [List.cons_append, wordFrom_step hstep]
      exact hword

theorem exists_barrier {taken cs : List Char} {what : Unfinished}
    (h : wordFrom taken 0 none cs = .error what) : ∃ a d b, cs = a ++ d :: b ∧ Barrier d := by
  induction cs generalizing taken with
  | nil => cases h
  | cons c cs ih =>
    cases hstep : wordStep taken 0 none c with
    | none =>
      rw [wordFrom_stopped hstep] at h
      cases h
    | some next =>
      rw [wordFrom_step hstep] at h
      simp only [wordStep] at hstep
      split at hstep
      · cases hstep
        obtain ⟨a, d, b, rfl, hd⟩ := ih h
        exact ⟨c :: a, d, b, rfl, hd⟩
      split at hstep
      · exact ⟨[], c, cs, rfl, barrier_quote ‹_›⟩
      split at hstep
      · rename_i hopen
        simp only [Bool.and_eq_true, decide_eq_true_eq] at hopen
        exact ⟨[], c, cs, rfl, hopen.1 ▸ barrier_paren⟩
      · cases hstep

/-- Some characters of the same line complete what is cut short there. -/
theorem FaultAt.complete {what : Unfinished} (h : FaultAt front x r (.unfinished what)) :
    ∃ more ts, '\n' ∉ more ∧
      ∀ number width, Token.lineFrom number width (front ++ x :: r ++ more) = .ok ts := by
  obtain ⟨-, htest, hsymbol, hword⟩ := head_eq_error h.fault
  have hsplit : splitWord (x :: r) = .error what := by
    unfold wordHead at hword
    split at hword
    · cases hword
      assumption
    · cases hword
    · cases hword
  obtain ⟨more, word, hmore, hwhole⟩ := wordFrom_complete (by simp) hsplit
  obtain ⟨a, d, b, hr, hd⟩ := exists_barrier hsplit
  have hmid : x :: (r ++ more) = a ++ d :: (b ++ more) := by
    rw [← List.cons_append, hr, List.append_assoc, List.cons_append]
  have hbetween : Between (x :: (r ++ more)) front := by
    rw [hmid]
    exact (hr ▸ h.between).barrier hd (b ++ more)
  have htest' : nullTest? (x :: (r ++ more)) = none := by
    rw [hr, nullTest?_barrier hd, Option.map_eq_none_iff] at htest
    rw [hmid, nullTest?_barrier hd, htest]
    rfl
  have hsign := doubleSign?_none_of_symbol (by simpa using hsymbol) (r ++ more)
  have hhead : head x (r ++ more) = .ok ([.word (String.ofList word)], []) := by
    have hne : word ≠ [] := by
      rintro rfl
      simpa using splitWord_append hwhole
    simp only [head, hsign, htest', if_neg hsymbol]
    exact wordHead_eq_ok.2 ⟨word, hwhole, hne, rfl⟩
  obtain ⟨us, hus⟩ := hbetween.lineFrom
  have hskip : skipBlanks (x :: (r ++ more)) = x :: (r ++ more) := by
    simp [skipBlanks, h.blank]
  refine ⟨more, us ++ [.word (String.ofList word)], hmore, fun number width => ?_⟩
  rw [List.append_assoc, List.cons_append, hus, lineFrom_cons _ _ hskip hhead,
    lineFrom_nil _ _ rfl]
  rfl

end

/- The first fault of a text. -/

def ofRows (rows : List (List Char)) : String := String.ofList (['\n'].intercalate rows)

theorem splitOn_feed (cs : List Char) : ('\n' :: cs).splitOn '\n' = [] :: cs.splitOn '\n' :=
  List.splitOn_append_cons_self [] cs

theorem splitOn_other {c : Char} (hc : c ≠ '\n') (cs : List Char) :
    ∃ first rows, cs.splitOn '\n' = first :: rows ∧
      (c :: cs).splitOn '\n' = (c :: first) :: rows := by
  obtain ⟨first, rows, hrows⟩ := List.exists_cons_of_ne_nil (List.splitOn_ne_nil '\n' cs)
  refine ⟨first, rows, hrows, ?_⟩
  rw [List.splitOn_cons_eq_if_modifyHead, if_neg (by simpa using hc), hrows]
  rfl

theorem feed_not_mem_of_mem_splitOn {cs row : List Char} (h : row ∈ cs.splitOn '\n') :
    '\n' ∉ row := by
  induction cs generalizing row with
  | nil =>
    obtain rfl : row = [] := by simpa using h
    simp
  | cons c cs ih =>
    by_cases hc : c = '\n'
    · rw [hc, splitOn_feed] at h
      rcases List.mem_cons.1 h with rfl | hrow
      · simp
      · exact ih hrow
    · obtain ⟨first, rows, hcs, hrows⟩ := splitOn_other hc cs
      rw [hrows] at h
      rcases List.mem_cons.1 h with rfl | hrow
      · have hfirst : '\n' ∉ first := ih (hcs ▸ List.mem_cons_self)
        rw [List.mem_cons, not_or]
        exact ⟨Ne.symm hc, hfirst⟩
      · exact ih (hcs ▸ List.mem_cons_of_mem _ hrow)

theorem scan_ofRows {rows : List (List Char)} (h : ∀ row ∈ rows, '\n' ∉ row) :
    scan (ofRows rows) = linesFrom 1 rows := by
  cases rows with
  | nil => rfl
  | cons row rows =>
    rw [scan_eq_splitOn, ofRows, String.toList_ofList,
      List.splitOn_intercalate _ h (List.cons_ne_nil _ _)]

theorem scan_ofRows_concat {above : List (List Char)} {row : List Char}
    (habove : ∀ l ∈ above, '\n' ∉ l) (hrow : '\n' ∉ row) :
    scan (ofRows (above ++ [row])) = linesFrom 1 (above ++ [row]) :=
  scan_ofRows (List.forall_mem_append.2 ⟨habove, List.forall_mem_singleton.2 hrow⟩)

theorem splitOn_append {cs row : List Char} {above below : List (List Char)}
    (h : cs.splitOn '\n' = above ++ row :: below) (more : List Char) :
    ∃ tail below', (cs ++ more).splitOn '\n' = above ++ (row ++ tail) :: below' := by
  induction cs generalizing above row with
  | nil =>
    obtain ⟨rfl, rfl, rfl⟩ : above = [] ∧ row = [] ∧ below = [] := by
      simpa [List.singleton_eq_append_iff] using h
    obtain ⟨first, rows, hmore⟩ := List.exists_cons_of_ne_nil (List.splitOn_ne_nil '\n' more)
    exact ⟨first, rows, hmore⟩
  | cons c cs ih =>
    rw [List.cons_append]
    by_cases hc : c = '\n'
    · subst hc
      rw [splitOn_feed] at h ⊢
      cases above with
      | nil =>
        cases h
        exact ⟨[], _, rfl⟩
      | cons l above =>
        rw [List.cons_append, List.cons.injEq] at h
        obtain ⟨tail, below', hrows⟩ := ih h.2
        exact ⟨tail, below', by rw [hrows, h.1, List.cons_append]⟩
    · obtain ⟨first, rows, hcs, hrows⟩ := splitOn_other hc cs
      obtain ⟨first', rows', hmore, hrows'⟩ := splitOn_other hc (cs ++ more)
      rw [hrows] at h
      rw [hrows']
      -- the first line of the shorter text is the first one of the whole without its front
      cases above with
      | nil =>
        cases h
        obtain ⟨tail, below', hsplit⟩ := ih (hcs.trans (List.nil_append _).symm)
        rw [hmore] at hsplit
        cases hsplit
        exact ⟨tail, rows', rfl⟩
      | cons l above =>
        rw [List.cons_append, List.cons.injEq] at h
        obtain ⟨rfl, rfl⟩ := h
        obtain ⟨tail, below', hsplit⟩ := ih (hcs.trans (List.cons_append ..).symm)
        rw [hmore] at hsplit
        cases hsplit
        exact ⟨tail, below', rfl⟩

theorem exists_row {number : Nat} {rows : List (List Char)} {e : ScanError}
    (h : linesFrom number rows = .error e) : ∃ above row below ts, rows = above ++ row :: below ∧
      linesFrom number above = .ok ts ∧ line (number + above.length) row = .error e := by
  induction rows generalizing number with
  | nil => cases h
  | cons row rows ih =>
    cases hline : line number row with
    | error e' =>
      rw [linesFrom, hline] at h
      cases h
      exact ⟨[], row, rows, [], rfl, rfl, hline⟩
    | ok first =>
      have hrest : linesFrom (number + 1) rows = .error e := by
        cases hl : linesFrom (number + 1) rows with
        | error e' =>
          rw [linesFrom, hline, hl] at h
          exact h
        | ok ts =>
          rw [linesFrom, hline, hl] at h
          cases h
      obtain ⟨above, row', below, ts, rfl, habove, he⟩ := ih hrest
      refine ⟨row :: above, row', below, joinLines first ts, rfl, ?_, ?_⟩
      · rw [linesFrom, hline, habove]
        rfl
      · rwa [List.length_cons, ← Nat.add_assoc, Nat.add_right_comm]

theorem linesFrom_row_error {number : Nat} {above : List (List Char)} {row : List Char}
    {ts : List Token} {e : ScanError} (habove : linesFrom number above = .ok ts)
    (hrow : line (number + above.length) row = .error e) (below : List (List Char)) :
    linesFrom number (above ++ row :: below) = .error e := by
  rw [linesFrom_append, habove, linesFrom, hrow]
  rfl

theorem linesFrom_row_ok {number : Nat} {above : List (List Char)} {row : List Char}
    {ts us : List Token} (habove : linesFrom number above = .ok ts)
    (hrow : line (number + above.length) row = .ok us) :
    linesFrom number (above ++ [row]) = .ok (joinLines ts (joinLines us [])) := by
  rw [linesFrom_append, habove, linesFrom, hrow]
  rfl

end Token

/-- An error is true of a text. The character that it names stands at its place, belongs to no
token, and follows a text that has tokens; it stays an error whatever follows. The line of what is
cut short follows lines that have tokens, and can be completed. -/
def ScanError.Locates (text : String) : ScanError → Prop
  | .unknownCharacter c line column => ∃ above left right below,
    text.toList.splitOn '\n' = above ++ (left ++ c :: right) :: below ∧
    line = above.length + 1 ∧ column = left.length + 1 ∧ Token.Foreign c ∧
    (∃ ts, Token.scan (Token.ofRows (above ++ [left])) = .ok ts) ∧
    ∀ more, Token.scan (text ++ more) = .error (.unknownCharacter c line column)
  | .unterminated _ line => ∃ above row below,
    text.toList.splitOn '\n' = above ++ row :: below ∧ line = above.length + 1 ∧
    (∃ ts, Token.scan (Token.ofRows above) = .ok ts) ∧
    ∃ more ts, '\n' ∉ more ∧ Token.scan (Token.ofRows (above ++ [row ++ more])) = .ok ts

namespace Token

/-- Scanning errors point at what is wrong. -/
theorem locates_of_scan_error {text : String} {e : ScanError} (h : scan text = .error e) :
    e.Locates text := by
  rw [scan_eq_splitOn] at h
  obtain ⟨above, row, below, ts, hrows, habove, hline⟩ := exists_row h
  obtain ⟨front, x, r, fault, rfl, hfault, rfl⟩ := exists_faultAt hline
  have hall : ∀ row ∈ above ++ (front ++ x :: r) :: below, '\n' ∉ row :=
    fun row hrow => feed_not_mem_of_mem_splitOn (hrows ▸ hrow)
  rw [List.forall_mem_append, List.forall_mem_cons] at hall
  obtain ⟨hfeeds, hfeed, -⟩ := hall
  cases fault with
  | unknown c =>
    obtain ⟨rfl, hforeign⟩ := foreign_of_head hfault.blank hfault.fault
    have hcolumn (back : List Char) :
        (front ++ x :: back).length - (x :: back).length + 1 = front.length + 1 := by simp
    refine ⟨above, front, r, below, hrows, Nat.add_comm 1 _, hcolumn r, hforeign, ?_,
      fun more => ?_⟩
    · obtain ⟨us, hus⟩ := hfault.between.lineFrom_front hforeign
      have hfront : '\n' ∉ front := fun hm => hfeed (List.mem_append_left _ hm)
      exact ⟨_, (scan_ofRows_concat hfeeds hfront).trans (linesFrom_row_ok habove (hus _ _))⟩
    · obtain ⟨tail, below', hmore⟩ := splitOn_append hrows more.toList
      rw [scan_eq_splitOn, String.toList_append, hmore, List.append_assoc, List.cons_append]
      refine linesFrom_row_error habove ?_ below'
      rw [line, (hfault.more tail).lineFrom]
      simp only [Fault.located, hcolumn]
  | unfinished what =>
    obtain ⟨more, us, hmore, hus⟩ := hfault.complete
    have hrow : '\n' ∉ front ++ x :: r ++ more := by
      rw [List.mem_append, not_or]
      exact ⟨hfeed, hmore⟩
    exact ⟨above, front ++ x :: r, below, hrows, Nat.add_comm 1 _,
      ⟨ts, (scan_ofRows hfeeds).trans habove⟩, more, _, hmore,
      (scan_ofRows_concat hfeeds hrow).trans (linesFrom_row_ok habove (hus _ _))⟩

/-- A sign right before the unknown character, and a literal cut short within a call. -/
theorem locates_of_scan_error_second_line :
    (scan "user\n [id <=# is\n 'x" = .error (.unknownCharacter '#' 2 8) ∧
      ScanError.Locates "user\n [id <=# is\n 'x" (.unknownCharacter '#' 2 8)) ∧
    (scan "user\n f(a, 'b)\n c" = .error (.unterminated .literal 2) ∧
      ScanError.Locates "user\n f(a, 'b)\n c" (.unterminated .literal 2)) := by
  have hunknown : scan "user\n [id <=# is\n 'x" = .error (.unknownCharacter '#' 2 8) := by cbv
  have hcut : scan "user\n f(a, 'b)\n c" = .error (.unterminated .literal 2) := by cbv
  exact ⟨⟨hunknown, locates_of_scan_error hunknown⟩, hcut, locates_of_scan_error hcut⟩

end Token
end BracketQuery
