import BracketQuery.Proofs.CallArguments
import BracketQuery.Proofs.Flow

/-! A line that is cut before a blank. What ends before the blank is read in the same way without
the rest, and a blank at the end of a line is never missed. -/
namespace BracketQuery.Token
open Text (isBlank skipBlanks)

/- The parts of a token. -/

section

variable {b : Char} {cs rest next : List Char}

theorem firstWord_cut (hb : isBlank b = true) (cs next : List Char) :
    Text.firstWord (cs ++ b :: next) = Text.firstWord cs := by
  unfold Text.firstWord
  induction cs with
  | nil => simp [hb]
  | cons c cs ih => simp [List.takeWhile_cons, ih]

theorem afterWord_cut (hb : isBlank b = true) (cs next : List Char) :
    Text.afterWord (cs ++ b :: next) = Text.afterWord cs ++ b :: next := by
  unfold Text.afterWord
  induction cs with
  | nil => simp [hb]
  | cons c cs ih => by_cases hc : isBlank c = true <;> simp [hc, ih]

theorem skipBlanks_cut (hb : isBlank b = true) (cs next : List Char) :
    skipBlanks cs = [] ∧ skipBlanks (cs ++ b :: next) = skipBlanks next ∨
      skipBlanks cs ≠ [] ∧ skipBlanks (cs ++ b :: next) = skipBlanks cs ++ b :: next := by
  unfold skipBlanks
  rw [List.dropWhile_append]
  cases cs.dropWhile isBlank with
  | nil => simp [hb]
  | cons c r => simp

theorem skipBlanks_first_append {c : Char} {r : List Char} (h : skipBlanks cs = c :: r)
    (next : List Char) : skipBlanks (cs ++ next) = c :: (r ++ next) := by
  unfold skipBlanks at h ⊢
  simp [List.dropWhile_append, h]

theorem wordFrom_cut_stop (hstop : StopsWord (b :: next)) {taken word : List Char} {depth : Nat}
    {quote : Option Char} :
    wordFrom taken depth quote (cs ++ b :: next) = .ok (word, rest ++ b :: next) ↔
      wordFrom taken depth quote cs = .ok (word, rest) := by
  induction cs generalizing taken depth quote with
  | nil =>
    -- a word that takes the character leaves less than it and what follows it
    have short {taken' : List Char} {depth' : Nat} {quote' : Option Char} :
        ¬ wordFrom taken' depth' quote' next = .ok (word, rest ++ b :: next) := by
      intro h
      obtain ⟨w, hw, -⟩ := wordFrom_again h
      have hlen := congrArg List.length hw
      simp at hlen
      omega
    rw [List.nil_append]
    cases quote with
    | some q => exact iff_of_false short nofun
    | none =>
      cases depth with
      | succ depth =>
        refine iff_of_false (fun h => ?_) nofun
        rw [wordFrom] at h
        split at h <;> exact short h
      | zero =>
        rw [wordFrom_stop taken hstop]
        simp [wordFrom]
  | cons c cs ih =>
    rw [List.cons_append, wordFrom.eq_def, wordFrom.eq_def taken]
    cases quote with
    | some q => exact ih
    | none =>
      cases depth with
      | succ depth =>
        dsimp only
        split
        · exact ih
        · exact ih
      | zero =>
        dsimp only
        split
        · exact ih
        split
        · exact ih
        split
        · exact ih
        · rw [← List.cons_append]
          simp only [Except.ok.injEq, Prod.mk.injEq, List.append_cancel_right_eq]

theorem wordFrom_cut (hb : isBlank b = true) {taken word : List Char} {depth : Nat}
    {quote : Option Char} :
    wordFrom taken depth quote (cs ++ b :: next) = .ok (word, rest ++ b :: next) ↔
      wordFrom taken depth quote cs = .ok (word, rest) :=
  wordFrom_cut_stop (stopsWord_blank hb next)

theorem doubleSign?_cut (hb : isBlank b = true) {sign : List Char} :
    doubleSign? (cs ++ b :: next) = some (sign, rest ++ b :: next) ↔
      doubleSign? cs = some (sign, rest) := by
  match cs with
  | [] =>
    have hlen : ¬ doubleSign? (b :: next) = some (sign, rest ++ b :: next) := by
      intro h
      have := doubleSign?_length h
      simp at this
      omega
    exact iff_of_false hlen (by simp [doubleSign?])
  | [a] =>
    have hlen : ¬ doubleSign? (a :: b :: next) = some (sign, rest ++ b :: next) := by
      intro h
      rw [doubleSign?_of_endsWord a (by simpa [EndsWord] using hb)] at h
      cases h
    exact iff_of_false hlen (by simp [doubleSign?])
  | a :: c :: cs =>
    have hends : (cs ++ b :: next).head?.all isBlank = cs.head?.all isBlank := by
      cases cs with
      | nil => simpa using hb
      | cons d cs => rfl
    simp only [List.cons_append, doubleSign?, hends]
    split <;> simp

theorem nullTail?_cut (hb : isBlank b = true) {operator : List Char} {o n : List Char} :
    nullTail? operator (cs ++ b :: next) = some ⟨o, n, rest ++ b :: next⟩ ↔
      nullTail? operator cs = some ⟨o, n, rest⟩ := by
  by_cases hlen : 4 ≤ cs.length
  · have hends : ((cs ++ b :: next).drop 4).head?.any isWordChar =
        (cs.drop 4).head?.any isWordChar := by
      rw [List.drop_append_of_le_length hlen]
      cases cs.drop 4 with
      | nil => simpa using isWordChar_of_isBlank hb
      | cons c r => rfl
    unfold nullTail?
    rw [hends, List.take_append_of_le_length hlen, List.drop_append_of_le_length hlen]
    split <;> simp
  · -- four characters would take in the blank, or are not there
    refine iff_of_false (fun h => ?_) (fun h => ?_)
    · unfold nullTail? at h
      split at h
      · have hrest : (cs ++ b :: next).drop 4 = rest ++ b :: next := by
          simpa using congrArg (·.map (·.rest)) h
        have := congrArg List.length hrest
        simp at this
        omega
      · cases h
    · have hnull := (nullTail?_isSome_iff.1 (Option.isSome_of_eq_some h)).1
      have := congrArg List.length hnull
      simp [folded] at this
      omega

theorem afterIs?_cut (hb : isBlank b = true) {is o n : List Char} :
    afterIs? is (cs ++ b :: next) = some ⟨o, n, rest ++ b :: next⟩ ↔
      afterIs? is cs = some ⟨o, n, rest⟩ := by
  unfold afterIs?
  rw [firstWord_cut hb, afterWord_cut hb]
  split
  · rcases skipBlanks_cut hb (Text.afterWord cs) next with ⟨hnil, hskip⟩ | ⟨-, hskip⟩
    · rw [hnil, hskip]
      refine iff_of_false (fun h => ?_) (by simp [nullTail?, folded])
      have hlen := nullTail?_length h
      have := Text.skipBlanks_length next
      simp at hlen
      omega
    · rw [hskip]
      exact nullTail?_cut hb
  · exact nullTail?_cut hb

theorem nullTest?_cut (hb : isBlank b = true) {o n : List Char} :
    nullTest? (cs ++ b :: next) = some ⟨o, n, rest ++ b :: next⟩ ↔
      nullTest? cs = some ⟨o, n, rest⟩ := by
  unfold nullTest?
  rw [firstWord_cut hb, afterWord_cut hb]
  split
  · rcases skipBlanks_cut hb (Text.afterWord cs) next with ⟨hnil, hskip⟩ | ⟨-, hskip⟩
    · rw [hnil, hskip]
      refine iff_of_false (fun h => ?_) ?_
      · have hlen := afterIs?_length h
        have := Text.skipBlanks_length next
        simp at hlen
        omega
      · simp [afterIs?, nullTail?, Text.firstWord, folded]
    · rw [hskip]
      exact afterIs?_cut hb
  · simp

theorem doubleSign?_none_cut (hb : isBlank b = true) (h : doubleSign? (cs ++ b :: next) = none) :
    doubleSign? cs = none := by
  refine Option.eq_none_iff_forall_ne_some.2 fun found hf => ?_
  rw [(doubleSign?_cut hb).2 hf] at h
  cases h

theorem nullTest?_none_cut (hb : isBlank b = true) (h : nullTest? (cs ++ b :: next) = none) :
    nullTest? cs = none := by
  refine Option.eq_none_iff_forall_ne_some.2 fun found hf => ?_
  rw [(nullTest?_cut hb).2 hf] at h
  cases h

theorem wordHead_eq_ok {c : Char} {ts : List Token} : wordHead c cs = .ok (ts, rest) ↔
    ∃ word, splitWord (c :: cs) = .ok (word, rest) ∧ word ≠ [] ∧
      ts = [.word (String.ofList word)] := by
  unfold wordHead
  cases hs : splitWord (c :: cs) with
  | error what => simp
  | ok result =>
    obtain ⟨word, r⟩ := result
    cases word with
    | nil => simp
    | cons d word => grind

theorem wordHead_cut (hb : isBlank b = true) {c : Char} {ts : List Token} :
    wordHead c (cs ++ b :: next) = .ok (ts, rest ++ b :: next) ↔
      wordHead c cs = .ok (ts, rest) := by
  simp only [wordHead_eq_ok, splitWord, ← List.cons_append, wordFrom_cut hb]

theorem head_cut (hb : isBlank b = true) {c : Char} {ts : List Token}
    (h : head c (cs ++ b :: next) = .ok (ts, rest ++ b :: next)) : head c cs = .ok (ts, rest) := by
  unfold head at h ⊢
  rw [← List.cons_append] at h
  cases hd : doubleSign? (c :: cs ++ b :: next) with
  | some found =>
    obtain ⟨sign, r⟩ := found
    rw [hd] at h
    simp only [Except.ok.injEq, Prod.mk.injEq] at h
    obtain ⟨rfl, rfl⟩ := h
    rw [(doubleSign?_cut hb).1 hd]
  | none =>
    rw [hd] at h
    rw [doubleSign?_none_cut hb hd]
    cases hn : nullTest? (c :: cs ++ b :: next) with
    | some test =>
      rw [hn] at h
      simp only [Except.ok.injEq, Prod.mk.injEq] at h
      obtain ⟨operator, null, r⟩ := test
      obtain ⟨rfl, rfl⟩ := h
      rw [(nullTest?_cut hb).1 hn]
    | none =>
      rw [hn] at h
      rw [nullTest?_none_cut hb hn]
      dsimp only at h ⊢
      split at h
      · rw [if_pos ‹_›]
        simp only [Except.ok.injEq, Prod.mk.injEq, List.append_cancel_right_eq] at h
        rw [h.1, h.2]
      · rw [if_neg ‹_›]
        exact (wordHead_cut hb).1 h

/- A blank at the end of a line. -/

theorem nullTail?_text {operator : List Char} {test : NullTest}
    (h : nullTail? operator cs = some test) : test.null ++ test.rest = cs := by
  unfold nullTail? at h
  split at h
  · cases h
    exact List.take_append_drop 4 cs
  · cases h

theorem nullTest?_suffix {test : NullTest} (h : nullTest? cs = some test) :
    test.null ++ test.rest <:+ cs := by
  unfold nullTest? at h
  split at h
  · unfold afterIs? at h
    split at h
    · rw [nullTail?_text h]
      exact (afterWord_suffix _).trans (afterWord_suffix _)
    · rw [nullTail?_text h]
      exact afterWord_suffix _
  · cases h

theorem isBlank_of_doubleSigns {a d : Char} (h : (a, d) ∈ doubleSigns) : isBlank d = false := by
  have hall : (doubleSigns.all fun p => !isBlank p.2) = true := by decide
  simpa using List.all_eq_true.1 hall (a, d) h

theorem head_last (hb : isBlank b = true) {c : Char} {ts : List Token}
    (h : head c (cs ++ [b]) = .ok (ts, rest)) : ∃ r, rest = r ++ [b] := by
  have hlast : (c :: (cs ++ [b])).getLast? = some b := by
    rw [← List.cons_append, List.getLast?_concat]
  have ends {r : List Char} (hr : r <:+ c :: (cs ++ [b])) (hne : r ≠ []) :
      ∃ r', r = r' ++ [b] := by
    obtain rfl | ⟨r', hr', -⟩ := List.suffix_concat_iff.1 (List.cons_append ▸ hr)
    · exact absurd rfl hne
    · exact ⟨r', hr'⟩
  cases head_begins h with
  | @double a d _ hd hcs =>
    refine ends ⟨[a, d], hcs.symm⟩ ?_
    rintro rfl
    have hd' : b = d := by simpa [hcs] using hlast.symm
    rw [hd', isBlank_of_doubleSigns hd] at hb
    cases hb
  | @test test htest =>
    have hsuffix := nullTest?_suffix htest
    refine ends ((List.suffix_append _ _).trans hsuffix) ?_
    intro hnil
    rw [hnil, List.append_nil] at hsuffix
    obtain ⟨-, hnull⟩ := nullTest?_test htest
    have hne : test.null ≠ [] := by
      intro he
      rw [he] at hnull
      exact absurd hnull (by decide)
    obtain ⟨w, hw⟩ := ends hsuffix hne
    have hletter := isWordChar_of_folded (by decide) hnull b (by simp [hw])
    simp [isWordChar_of_isBlank hb] at hletter
  | @single d _ hd hcs => exact ⟨cs, (List.cons.inj hcs).2.symm⟩
  | @word w _ hsplit hne hnull =>
    obtain ⟨v, hv, -⟩ := wordFrom_again hsplit
    refine ends ⟨v, hv.symm⟩ ?_
    rintro rfl
    have hsolid := wordFrom_last (by simp) hsplit b hlast
    simp [hb] at hsolid

theorem head_eq_error {c : Char} {fault : Fault} (h : head c cs = .error fault) :
    doubleSign? (c :: cs) = none ∧ nullTest? (c :: cs) = none ∧ ¬ isSymbolChar c = true ∧
      wordHead c cs = .error fault := by
  unfold head at h
  split at h
  · cases h
  · cases h
  · split at h
    · cases h
    · exact ⟨‹_›, ‹_›, ‹_›, h⟩

theorem head_blank (hb : isBlank b = true) {c : Char} {ts : List Token}
    (h : head c cs = .ok (ts, rest)) : head c (cs ++ [b]) = .ok (ts, rest ++ [b]) := by
  cases hext : head c (cs ++ [b]) with
  | ok found =>
    obtain ⟨us, r⟩ := found
    obtain ⟨r, rfl⟩ := head_last hb hext
    have hcut := (head_cut hb hext).symm.trans h
    simp only [Except.ok.injEq, Prod.mk.injEq] at hcut
    rw [hcut.1, hcut.2]
  | error fault =>
    -- only a word can be at fault, and it would be without the blank
    obtain ⟨hd, hn, hc, hword⟩ := head_eq_error hext
    rw [head, doubleSign?_none_cut hb hd, nullTest?_none_cut hb hn, if_neg hc] at h
    rw [(wordHead_cut hb).2 h] at hword
    cases hword

/- The tokens of a line do not depend on its number, nor on a blank at its end. -/

theorem map_eq_ok {ts us : List Token} {result : Except ScanError (List Token)} :
    (ts ++ ·) <$> result = .ok us ↔ ∃ vs, result = .ok vs ∧ ts ++ vs = us := by
  cases result with
  | error e => exact iff_of_false nofun (by simp)
  | ok vs =>
    show Except.ok (ts ++ vs) = .ok us ↔ _
    simp

theorem lineGives_of_lineFrom {number width : Nat} {ts : List Token}
    (h : lineFrom number width cs = .ok ts) : LineGives cs ts := by
  intro number' width'
  induction cs using lineFrom.induct generalizing ts with
  | case1 cs hskip =>
    rw [lineFrom_nil _ _ hskip] at h ⊢
    exact h
  | case2 cs c r hskip fault hhead => simp [lineFrom_fault _ _ hskip hhead] at h
  | case3 cs c r hskip us rest hhead _ ih =>
    rw [lineFrom_cons _ _ hskip hhead, map_eq_ok] at h ⊢
    obtain ⟨vs, hvs, rfl⟩ := h
    exact ⟨vs, ih hvs, rfl⟩

theorem lineFrom_lastBlank (hb : isBlank b = true) (number width : Nat) {ts : List Token} :
    lineFrom number width (cs ++ [b]) = .ok ts ↔ lineFrom number width cs = .ok ts := by
  induction cs using lineFrom.induct generalizing ts with
  | case1 cs hskip =>
    have hskip' : skipBlanks (cs ++ [b]) = [] := by
      obtain ⟨-, he⟩ | ⟨hne, -⟩ := skipBlanks_cut hb cs []
      · exact he
      · exact absurd hskip hne
    rw [lineFrom_nil _ _ hskip, lineFrom_nil _ _ hskip']
  | case2 cs c r hskip fault hhead =>
    have hskip' := skipBlanks_first_append hskip [b]
    rw [lineFrom_fault _ _ hskip hhead]
    cases hext : head c (r ++ [b]) with
    | error fault' => simp [lineFrom_fault _ _ hskip' hext]
    | ok found =>
      obtain ⟨us, rest⟩ := found
      obtain ⟨rest, rfl⟩ := head_last hb hext
      rw [head_cut hb hext] at hhead
      cases hhead
  | case3 cs c r hskip us rest hhead _ ih =>
    have hskip' := skipBlanks_first_append hskip [b]
    rw [lineFrom_cons _ _ hskip hhead, lineFrom_cons _ _ hskip' (head_blank hb hhead)]
    simp only [map_eq_ok, ih]

theorem lineGives_lastBlank (hb : isBlank b = true) {ts : List Token} :
    LineGives (cs ++ [b]) ts ↔ LineGives cs ts :=
  forall₂_congr fun number width => lineFrom_lastBlank hb number width

end

end BracketQuery.Token
