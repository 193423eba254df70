import BracketQuery.Proofs.CallTree
import BracketQuery.Proofs.LineFeed
import BracketQuery.Proofs.TokenShape
import Mathlib.Data.List.DropRight

/-! Two readers of one call. To find the end of a word, parentheses are counted from the one that
opens the call and a doubled quote is passed as a quote of its literal. To tell the arguments apart,
parentheses are counted from zero and a doubled quote ends one literal and opens another. Both find
the same commas between arguments. -/
namespace BracketQuery.Sql
open Text (isBlank skipBlanks trimBlanks)
open Token (isQuote wordFrom wordStep Arguments IsLiteral)

/- Calls as they are passed in search of their end. -/

/-- A character of a call. It cuts if it is a comma right inside the call, in no literal. -/
structure Passed where
  char : Char
  cuts : Bool := false
deriving DecidableEq

def chars (ps : List Passed) : List Char := ps.map Passed.char

def uncutChars (cs : List Char) : List Passed := cs.map fun c => { char := c }

/-- The rest of a literal with the quote that ends it, and what follows. A doubled quote belongs to
the literal. -/
def passLiteral (q : Char) : List Char → Option (List Char × List Char)
  | [] => none
  | [c] => if c = q then some ([c], []) else none
  | c :: d :: cs =>
    if c = q then
      if d = q then (passLiteral q cs).map (Prod.map ([c, d] ++ ·) id) else some ([c], d :: cs)
    else (passLiteral q (d :: cs)).map (Prod.map (c :: ·) id)

theorem passLiteral_append {q : Char} {cs l rest : List Char}
    (h : passLiteral q cs = some (l, rest)) : cs = l ++ rest := by
  fun_induction passLiteral q cs generalizing l with
  | case1 => cases h
  | case2 => simp_all
  | case3 => cases h
  | case4 cs ih =>
    obtain ⟨⟨l', rest'⟩, hpass, hl⟩ := Option.map_eq_some_iff.1 h
    cases hl
    rw [ih hpass]
    rfl
  | case5 =>
    cases h
    rfl
  | case6 c d cs _ ih =>
    obtain ⟨⟨l', rest'⟩, hpass, hl⟩ := Option.map_eq_some_iff.1 h
    cases hl
    rw [ih hpass]
    rfl

theorem passLiteral_length {q : Char} {cs l rest : List Char}
    (h : passLiteral q cs = some (l, rest)) : rest.length ≤ cs.length := by
  rw [passLiteral_append h, List.length_append]
  omega

def before (ps : List Passed) (found : Option (List Passed × List Char)) :
    Option (List Passed × List Char) :=
  found.map (Prod.map (ps ++ ·) id)

/-- A call, from a place on where so many parentheses are open up to the one that closes it, and
what follows it. -/
def passCall (depth : Nat) : List Char → Option (List Passed × List Char)
  | [] => none
  | c :: cs =>
    if c = '(' then before [{ char := c }] (passCall (depth + 1) cs)
    else if c = ')' then
      if depth ≤ 1 then some ([{ char := c }], cs)
      else before [{ char := c }] (passCall (depth - 1) cs)
    else if isQuote c then
      match h : passLiteral c cs with
      | none => none
      | some (l, rest) =>
        have := passLiteral_length h
        before (uncutChars (c :: l)) (passCall depth rest)
    else before [{ char := c, cuts := c = ',' && depth = 1 }] (passCall depth cs)
termination_by cs => cs.length

/- The literals in a call. -/

theorem passLiteral_literals {q : Char} (hq : isQuote q = true) {cs l rest : List Char}
    (h : passLiteral q cs = some (l, rest)) {body : List Char} (hbody : q ∉ body) :
    ∃ ls : List (List Char), (∀ x ∈ ls, IsLiteral x) ∧ q :: body ++ l = ls.flatten := by
  fun_induction passLiteral q cs generalizing l body with
  | case1 => cases h
  | case2 =>
    cases h
    exact ⟨[q :: body ++ [q]], by simpa using ⟨q, body, hq, hbody, rfl⟩, by simp⟩
  | case3 => cases h
  | case4 cs ih =>
    obtain ⟨⟨l', rest'⟩, hpass, hl⟩ := Option.map_eq_some_iff.1 h
    cases hl
    -- the first of the two quotes ends a literal, the second opens the next
    obtain ⟨ls, hls, hflat⟩ := ih hpass List.not_mem_nil
    refine ⟨(q :: body ++ [q]) :: ls, ?_, ?_⟩
    · rw [List.forall_mem_cons]
      exact ⟨⟨q, body, hq, hbody, rfl⟩, hls⟩
    · rw [List.flatten_cons, ← hflat]
      simp
  | case5 =>
    cases h
    exact ⟨[q :: body ++ [q]], by simpa using ⟨q, body, hq, hbody, rfl⟩, by simp⟩
  | case6 c d cs hc ih =>
    obtain ⟨⟨l', rest'⟩, hpass, hl⟩ := Option.map_eq_some_iff.1 h
    cases hl
    have hmore : q ∉ body ++ [c] := by simpa [hbody] using Ne.symm hc
    obtain ⟨ls, hls, hflat⟩ := ih hpass hmore
    exact ⟨ls, hls, by simpa using hflat⟩

theorem wordStep_quoted (taken : List Char) (depth : Nat) {q : Char} (hq : isQuote q = true) :
    wordStep taken depth none q = some (depth, some q) := by
  have hword : Token.isWordChar q = false := by
    simp only [isQuote, Bool.or_eq_true, decide_eq_true_eq] at hq
    rcases hq with rfl | rfl <;> decide
  cases depth <;> simp [wordStep, hq, hword]

theorem wordFrom_inside {q : Char} {body : List Char} (hbody : q ∉ body) (taken : List Char)
    (depth : Nat) (cs : List Char) : wordFrom taken depth (some q) (body ++ cs) =
      wordFrom (body.reverse ++ taken) depth (some q) cs := by
  induction body generalizing taken with
  | nil => rfl
  | cons c body ih =>
    rw [List.mem_cons, not_or] at hbody
    have hstep : wordStep taken depth (some q) c = some (depth, some q) := by
      simp [wordStep, Ne.symm hbody.1]
    rw [List.cons_append, Token.wordFrom_step hstep, ih hbody.2]
    simp

theorem wordFrom_literal {l : List Char} (hl : IsLiteral l) (taken : List Char) (depth : Nat)
    (cs : List Char) :
    wordFrom taken depth none (l ++ cs) = wordFrom (l.reverse ++ taken) depth none cs := by
  obtain ⟨q, body, hq, hbody, rfl⟩ := hl
  have hclose (taken : List Char) : wordStep taken depth (some q) q = some (depth, none) := by
    simp [wordStep]
  rw [List.append_assoc, List.cons_append, Token.wordFrom_step (wordStep_quoted taken depth hq),
    wordFrom_inside hbody, List.singleton_append, Token.wordFrom_step (hclose _)]
  simp

theorem wordFrom_literals {ls : List (List Char)} (hls : ∀ l ∈ ls, IsLiteral l)
    (taken : List Char) (depth : Nat) (cs : List Char) :
    wordFrom taken depth none (ls.flatten ++ cs) =
      wordFrom (ls.flatten.reverse ++ taken) depth none cs := by
  induction ls generalizing taken with
  | nil => rfl
  | cons l ls ih =>
    rw [List.forall_mem_cons] at hls
    rw [List.flatten_cons, List.append_assoc, wordFrom_literal hls.1, ih hls.2]
    simp

theorem wordFrom_of_passLiteral {q : Char} (hq : isQuote q = true) {cs l rest : List Char}
    (h : passLiteral q cs = some (l, rest)) (taken : List Char) (depth : Nat) :
    wordFrom taken depth none (q :: cs) = wordFrom ((q :: l).reverse ++ taken) depth none rest := by
  obtain ⟨ls, hls, hflat⟩ := passLiteral_literals hq h List.not_mem_nil
  rw [List.singleton_append] at hflat
  rw [passLiteral_append h, ← List.cons_append, hflat, wordFrom_literals hls]

theorem wordFrom_of_passLiteral_none {q : Char} (hq : isQuote q = true) {cs : List Char}
    (h : passLiteral q cs = none) (taken : List Char) (depth : Nat) :
    wordFrom taken depth (some q) cs = .error .literal := by
  have hend (taken : List Char) : wordStep taken depth (some q) q = some (depth, none) := by
    simp [wordStep]
  fun_induction passLiteral q cs generalizing taken with
  | case1 => rfl
  | case2 => cases h
  | case3 c hc =>
    rw [wordFrom, if_neg hc]
    rfl
  | case4 cs ih =>
    rw [Token.wordFrom_step (hend _), Token.wordFrom_step (wordStep_quoted _ depth hq)]
    exact ih (Option.map_eq_none_iff.1 h) _
  | case5 => cases h
  | case6 c d cs hc ih =>
    rw [wordFrom, if_neg hc]
    exact ih (Option.map_eq_none_iff.1 h) _

/- The call and the word around it. -/

theorem chars_append (ps qs : List Passed) : chars (ps ++ qs) = chars ps ++ chars qs :=
  List.map_append ..

theorem chars_uncutChars (cs : List Char) : chars (uncutChars cs) = cs := by
  simp [chars, uncutChars, Function.comp_def]

theorem before_eq_some {ps qs : List Passed} {rest : List Char}
    {found : Option (List Passed × List Char)} (h : before ps found = some (qs, rest)) :
    ∃ qs', found = some (qs', rest) ∧ qs = ps ++ qs' := by
  obtain ⟨⟨qs', rest'⟩, hfound, he⟩ := Option.map_eq_some_iff.1 h
  cases he
  exact ⟨qs', hfound, rfl⟩

theorem wordStep_inside {c : Char} (hq : isQuote c = false) (taken : List Char) (depth : Nat) :
    wordStep taken (depth + 1) none c = some (Token.depthAfter depth c, none) := by
  simp [wordStep, hq]

theorem wordFrom_of_passCall {depth : Nat} (hdepth : 0 < depth) {cs rest : List Char}
    {ps : List Passed} (h : passCall depth cs = some (ps, rest)) (taken : List Char) :
    wordFrom taken depth none cs = wordFrom ((chars ps).reverse ++ taken) 0 none rest := by
  fun_induction passCall depth cs generalizing taken ps with
  | case1 => cases h
  | case2 depth cs ih =>
    obtain ⟨ps, hpass, rfl⟩ := before_eq_some h
    obtain ⟨depth, rfl⟩ := Nat.exists_eq_succ_of_ne_zero hdepth.ne'
    rw [Token.wordFrom_step (wordStep_inside (by decide) taken depth)]
    simpa [chars, Token.depthAfter] using ih (by omega) hpass ('(' :: taken)
  | case3 depth cs hlast _ =>
    cases h
    obtain rfl : depth = 1 := by omega
    rw [Token.wordFrom_step (wordStep_inside (by decide) taken 0)]
    rfl
  | case4 depth cs hlast _ ih =>
    obtain ⟨ps, hpass, rfl⟩ := before_eq_some h
    obtain ⟨depth, rfl⟩ := Nat.exists_eq_succ_of_ne_zero hdepth.ne'
    rw [Token.wordFrom_step (wordStep_inside (by decide) taken depth)]
    simpa [chars, Token.depthAfter] using ih (by omega) hpass (')' :: taken)
  | case5 => cases h
  | case6 depth c cs _ _ hq l rest' hliteral _ ih =>
    obtain ⟨ps, hpass, rfl⟩ := before_eq_some h
    rw [wordFrom_of_passLiteral hq hliteral, ih hdepth hpass, chars_append, chars_uncutChars]
    simp
  | case7 depth c cs hopen hclose hq ih =>
    obtain ⟨ps, hpass, rfl⟩ := before_eq_some h
    obtain ⟨depth, rfl⟩ := Nat.exists_eq_succ_of_ne_zero hdepth.ne'
    rw [Token.wordFrom_step (wordStep_inside (by simpa using hq) taken depth)]
    simpa [chars, Token.depthAfter, hopen, hclose] using ih (by omega) hpass (c :: taken)

theorem wordFrom_of_passCall_none {depth : Nat} (hdepth : 0 < depth) {cs : List Char}
    (h : passCall depth cs = none) (taken : List Char) :
    ∃ what, wordFrom taken depth none cs = .error what := by
  fun_induction passCall depth cs generalizing taken with
  | case1 depth =>
    obtain ⟨depth, rfl⟩ := Nat.exists_eq_succ_of_ne_zero hdepth.ne'
    exact ⟨.call, rfl⟩
  | case2 depth cs ih =>
    obtain ⟨depth, rfl⟩ := Nat.exists_eq_succ_of_ne_zero hdepth.ne'
    rw [Token.wordFrom_step (wordStep_inside (by decide) taken depth)]
    exact ih (by omega) (Option.map_eq_none_iff.1 h) _
  | case3 => cases h
  | case4 depth cs hlast _ ih =>
    obtain ⟨depth, rfl⟩ := Nat.exists_eq_succ_of_ne_zero hdepth.ne'
    rw [Token.wordFrom_step (wordStep_inside (by decide) taken depth)]
    exact ih (by omega) (Option.map_eq_none_iff.1 h) _
  | case5 depth c cs _ _ hq hliteral =>
    rw [Token.wordFrom_step (wordStep_quoted taken depth hq)]
    exact ⟨.literal, wordFrom_of_passLiteral_none hq hliteral _ _⟩
  | case6 depth c cs _ _ hq l rest' hliteral _ ih =>
    rw [wordFrom_of_passLiteral hq hliteral]
    exact ih hdepth (Option.map_eq_none_iff.1 h) _
  | case7 depth c cs hopen hclose hq ih =>
    obtain ⟨depth, rfl⟩ := Nat.exists_eq_succ_of_ne_zero hdepth.ne'
    rw [Token.wordFrom_step (wordStep_inside (by simpa using hq) taken depth)]
    have hnext := ih (by omega) (Option.map_eq_none_iff.1 h) (c :: taken)
    simpa [Token.depthAfter, hopen, hclose] using hnext

/- Arguments under the reader that cuts them. -/

theorem passes_literal {l : List Char} (hl : IsLiteral l) (depth : Nat) :
    Level.Passes ⟨depth, none⟩ l := by
  obtain ⟨q, body, hq, hbody, rfl⟩ := hl
  have hcomma : q ≠ ',' := ne_of_test hq (by decide)
  have hopen : Level.next ⟨depth, none⟩ q = ⟨depth, some q⟩ := Level.next_quote hq depth
  have hclose : Level.next ⟨depth, some q⟩ q = ⟨depth, none⟩ := by simp [Level.next, quoteNext]
  have hinside : Level.Passes ⟨depth, some q⟩ (body.flatMap fun c => [c]) := by
    refine Level.passes_flatMap fun c hc => Level.passes_single ?_ (by simp [Level.cuts])
    have hne : c ≠ q := fun he => hbody (he ▸ hc)
    simp [Level.next, quoteNext, hne]
  rw [List.flatMap_singleton'] at hinside
  simp [Level.Passes, hopen, hclose, hinside.1, hinside.2, Level.cuts, hcomma]

theorem passes_literals {ls : List (List Char)} (hls : ∀ l ∈ ls, IsLiteral l) (depth : Nat) :
    Level.Passes ⟨depth, none⟩ ls.flatten := by
  induction ls with
  | nil => exact Level.passes_nil _
  | cons l ls ih =>
    rw [List.forall_mem_cons] at hls
    exact (passes_literal hls.1 depth).append (ih hls.2)

theorem passes_group {inner : List Char} {depth : Nat}
    (h : Level.Passes ⟨depth + 1, none⟩ inner) :
    Level.Passes ⟨depth, none⟩ ('(' :: inner ++ [')']) := by
  simp [Level.Passes, h.1, h.2, Level.cuts]

theorem passes_arguments {cs : List Char} (h : Arguments cs) (depth : Nat) :
    Level.Passes ⟨depth + 1, none⟩ cs := by
  induction h generalizing depth with
  | nil => exact Level.passes_nil _
  | @other c cs hq hopen hclose _ ih =>
    have hc : Level.Passes ⟨depth + 1, none⟩ [c] :=
      Level.passes_single (Level.next_other hq hopen hclose _) (by simp [Level.cuts])
    exact hc.append (ih depth)
  | literal hl _ ih => exact (passes_literal hl _).append (ih depth)
  | @group inner cs _ _ ihi ih =>
    have hgroup := (passes_group (ihi (depth + 1))).append (ih depth)
    simpa using hgroup

/-- The text is one argument: what it opens it closes, and no comma cuts it. -/
structure IsArgument (cs : List Char) : Prop where
  arguments : Arguments cs
  passes : Level.Passes {} cs

/-- What a call holds after a place where so many parentheses are open besides its own. -/
def Enclosed : Nat → List Passed → Prop
  | 0, ps => ∀ p ∈ ps.splitOnP Passed.cuts, IsArgument (chars p)
  | depth + 1, ps => ∃ inner rest, Arguments (chars inner) ∧ (∀ x ∈ inner, x.cuts = false) ∧
      Enclosed depth rest ∧ ps = inner ++ { char := ')' } :: rest

theorem splitOnP_uncut {chunk : List Passed} (h : ∀ x ∈ chunk, x.cuts = false)
    (ps : List Passed) : (chunk ++ ps).splitOnP Passed.cuts =
      (ps.splitOnP Passed.cuts).modifyHead (chunk ++ ·) := by
  induction chunk with
  | nil =>
    rw [List.nil_append]
    cases ps.splitOnP Passed.cuts <;> rfl
  | cons x chunk ih =>
    rw [List.forall_mem_cons] at h
    rw [List.cons_append, List.splitOnP_cons_eq_if_modifyHead, if_neg (by simp [h.1]), ih h.2]
    cases ps.splitOnP Passed.cuts <;> rfl

theorem Enclosed.append {depth : Nat} {ps chunk : List Passed} (h : Enclosed depth ps)
    (huncut : ∀ x ∈ chunk, x.cuts = false)
    (hargs : ∀ cs, Arguments cs → Arguments (chars chunk ++ cs))
    (hpasses : depth = 0 → Level.Passes {} (chars chunk)) : Enclosed depth (chunk ++ ps) := by
  cases depth with
  | zero =>
    intro p hp
    rw [splitOnP_uncut huncut] at hp
    obtain ⟨first, others, hsplit⟩ :=
      List.exists_cons_of_ne_nil (List.splitOnP_ne_nil Passed.cuts ps)
    rw [hsplit, List.modifyHead_cons, List.mem_cons] at hp
    have hmem (q : List Passed) (hq : q ∈ first :: others) : IsArgument (chars q) :=
      h q (hsplit ▸ hq)
    rcases hp with rfl | hp
    · have hfirst := hmem first List.mem_cons_self
      rw [chars_append]
      exact ⟨hargs _ hfirst.arguments, (hpasses rfl).append hfirst.passes⟩
    · exact hmem p (List.mem_cons_of_mem _ hp)
  | succ depth =>
    obtain ⟨inner, rest, hinner, hcuts, hrest, rfl⟩ := h
    refine ⟨chunk ++ inner, rest, ?_, ?_, hrest, (List.append_assoc ..).symm⟩
    · rw [chars_append]
      exact hargs _ hinner
    · exact List.forall_mem_append.2 ⟨huncut, hcuts⟩

def CutsAtCommas (ps : List Passed) : Prop := ∀ x ∈ ps, x.cuts = true → x.char = ','

theorem uncutChars_cuts (cs : List Char) : ∀ x ∈ uncutChars cs, x.cuts = false := by
  simp [uncutChars]

theorem arguments_literals {ls : List (List Char)} (hls : ∀ l ∈ ls, IsLiteral l) {cs : List Char}
    (h : Arguments cs) : Arguments (ls.flatten ++ cs) := by
  induction ls with
  | nil => exact h
  | cons l ls ih =>
    rw [List.forall_mem_cons] at hls
    rw [List.flatten_cons, List.append_assoc]
    exact .literal hls.1 (ih hls.2)

theorem Enclosed.literal {depth : Nat} {ps : List Passed} {q : Char} (hq : isQuote q = true)
    {cs l rest : List Char} (hl : passLiteral q cs = some (l, rest)) (h : Enclosed depth ps) :
    Enclosed depth (uncutChars (q :: l) ++ ps) := by
  obtain ⟨ls, hls, hflat⟩ := passLiteral_literals hq hl List.not_mem_nil
  rw [List.singleton_append] at hflat
  refine h.append (uncutChars_cuts _) (fun cs hcs => ?_) fun _ => ?_
  · rw [chars_uncutChars, hflat]
    exact arguments_literals hls hcs
  · rw [chars_uncutChars, hflat]
    exact passes_literals hls 0

theorem Enclosed.group {depth : Nat} {inner ps : List Passed} (hinner : Arguments (chars inner))
    (huncut : ∀ x ∈ inner, x.cuts = false) (h : Enclosed depth ps) :
    Enclosed depth (({ char := '(' } :: inner ++ [{ char := ')' }]) ++ ps) := by
  have hchars : chars ({ char := '(' } :: inner ++ [{ char := ')' }]) =
      '(' :: chars inner ++ [')'] := by simp [chars]
  refine h.append ?_ (fun cs hcs => ?_) fun _ => ?_
  · rw [List.forall_mem_append, List.forall_mem_cons]
    exact ⟨⟨rfl, huncut⟩, by simp⟩
  · rw [hchars]
    simpa using hinner.group hcs
  · rw [hchars]
    exact passes_group (passes_arguments hinner 0)

theorem Enclosed.other {depth : Nat} {ps : List Passed} {c : Char} (hq : isQuote c = false)
    (hopen : c ≠ '(') (hclose : c ≠ ')') (h : Enclosed depth ps) :
    Enclosed depth ({ char := c, cuts := c = ',' && depth + 1 = 1 } :: ps) := by
  by_cases hcut : c = ',' ∧ depth = 0
  · obtain ⟨rfl, rfl⟩ := hcut
    -- the comma leaves an empty argument in front of it
    intro p hp
    rw [List.splitOnP_cons_eq_if_modifyHead, if_pos (by simp), List.mem_cons] at hp
    rcases hp with rfl | hp
    · exact ⟨.nil, Level.passes_nil _⟩
    · exact h p hp
  · have huncut : (decide (c = ',') && decide (depth + 1 = 1)) = false := by simpa using hcut
    rw [huncut]
    have hone : ∀ x ∈ [({ char := c, cuts := false } : Passed)], x.cuts = false := by simp
    refine h.append hone (fun cs hcs => .other hq hopen hclose hcs) fun hdepth => ?_
    have hcomma : c ≠ ',' := fun hc => hcut ⟨hc, hdepth⟩
    exact Level.passes_single (Level.next_other hq hopen hclose 0) (by simp [Level.cuts, hcomma])

/-- A call is closed by its last character. Between the commas that cut, each argument closes what
it opens. -/
theorem enclosed_of_passCall {depth : Nat} {cs rest : List Char} {ps : List Passed}
    (h : passCall (depth + 1) cs = some (ps, rest)) :
    ∃ body, ps = body ++ [{ char := ')' }] ∧ cs = chars body ++ ')' :: rest ∧
      Enclosed depth body ∧ CutsAtCommas body := by
  generalize hopened : depth + 1 = opened at h
  fun_induction passCall opened cs generalizing depth ps with
  | case1 => cases h
  | case2 opened cs ih =>
    obtain ⟨ps, hpass, rfl⟩ := before_eq_some h
    obtain ⟨body, rfl, rfl, ⟨inner, after, hinner, huncut, hafter, rfl⟩, hcommas⟩ :=
      ih (show (depth + 1) + 1 = opened + 1 by omega) hpass
    refine ⟨{ char := '(' } :: (inner ++ { char := ')' } :: after), rfl, rfl, ?_, ?_⟩
    · simpa using hafter.group hinner huncut
    · exact List.forall_mem_cons.2 ⟨by simp, hcommas⟩
  | case3 opened cs hlast _ =>
    cases h
    obtain rfl : depth = 0 := by omega
    refine ⟨[], rfl, rfl, fun p hp => ?_, by simp [CutsAtCommas]⟩
    obtain rfl : p = [] := by simpa using hp
    exact ⟨.nil, Level.passes_nil _⟩
  | case4 opened cs hlast _ ih =>
    obtain ⟨ps, hpass, rfl⟩ := before_eq_some h
    obtain ⟨depth, rfl⟩ : ∃ k, depth = k + 1 := ⟨depth - 1, by omega⟩
    obtain ⟨body, rfl, rfl, hbody, hcommas⟩ := ih (show depth + 1 = opened - 1 by omega) hpass
    refine ⟨{ char := ')' } :: body, rfl, rfl, ⟨[], body, .nil, by simp, hbody, rfl⟩, ?_⟩
    exact List.forall_mem_cons.2 ⟨by simp, hcommas⟩
  | case5 => cases h
  | case6 opened c cs _ _ hq l rest' hliteral _ ih =>
    obtain ⟨ps, hpass, rfl⟩ := before_eq_some h
    obtain ⟨body, rfl, hrest, hbody, hcommas⟩ := ih hopened hpass
    refine ⟨uncutChars (c :: l) ++ body, (List.append_assoc ..).symm, ?_,
      hbody.literal hq hliteral, ?_⟩
    · rw [passLiteral_append hliteral, hrest, chars_append, chars_uncutChars]
      simp
    · refine List.forall_mem_append.2 ⟨fun x hx hcut => ?_, hcommas⟩
      rw [uncutChars_cuts _ x hx] at hcut
      cases hcut
  | case7 opened c cs hopen hclose hq ih =>
    obtain ⟨ps, hpass, rfl⟩ := before_eq_some h
    obtain ⟨body, rfl, rfl, hbody, hcommas⟩ := ih hopened hpass
    subst hopened
    refine ⟨_, rfl, rfl, hbody.other (by simpa using hq) hopen hclose, ?_⟩
    refine List.forall_mem_cons.2 ⟨fun hcut => ?_, hcommas⟩
    simp only [Bool.and_eq_true, decide_eq_true_eq] at hcut
    exact hcut.1

/- Blanks at the ends of arguments. -/

theorem arguments_after_blank {b : Char} (hb : isBlank b = true) {cs : List Char}
    (h : Arguments (b :: cs)) : Arguments cs := by
  generalize hx : b :: cs = x at h
  cases h with
  | nil => cases hx
  | other hq hopen hclose h =>
    cases hx
    exact h
  | literal hl h =>
    obtain ⟨q, body, hq, -, rfl⟩ := hl
    cases hx
    simp [Token.isQuote_of_isBlank hb] at hq
  | group hinner h =>
    cases hx
    exact absurd hb (by decide)

theorem arguments_before_blank {b : Char} (hb : isBlank b = true) {cs : List Char}
    (h : Arguments (cs ++ [b])) : Arguments cs := by
  generalize hx : cs ++ [b] = x at h
  induction h generalizing cs with
  | nil => simp at hx
  | @other c ds hq hopen hclose h ih =>
    cases cs with
    | nil => exact .nil
    | cons a cs =>
      rw [List.cons_append, List.cons.injEq] at hx
      obtain ⟨rfl, hx⟩ := hx
      exact .other hq hopen hclose (ih hx)
  | @literal l ds hl h ih =>
    rcases List.eq_nil_or_concat' ds with rfl | ⟨ds, d, rfl⟩
    · -- the quote at the end of a literal is no blank
      obtain ⟨q, body, hq, -, rfl⟩ := hl
      rw [List.append_nil] at hx
      obtain ⟨-, hbq⟩ := List.append_inj' hx rfl
      cases hbq
      simp [Token.isQuote_of_isBlank hb] at hq
    · rw [← List.append_assoc] at hx
      obtain ⟨rfl, hbd⟩ := List.append_inj' hx rfl
      exact .literal hl (ih (by rw [hbd]))
  | @group inner ds hinner h _ ih =>
    rcases List.eq_nil_or_concat' ds with rfl | ⟨ds, d, rfl⟩
    · obtain ⟨-, hbq⟩ := List.append_inj' hx rfl
      cases hbq
      exact absurd hb (by decide)
    · rw [← List.cons_append, ← List.append_assoc] at hx
      obtain ⟨rfl, hbd⟩ := List.append_inj' hx rfl
      exact .group hinner (ih (by rw [hbd]))

theorem arguments_trimBlanks {cs : List Char} (h : Arguments cs) : Arguments (trimBlanks cs) := by
  obtain ⟨front, back, hfront, hback, hcs⟩ := Text.trimBlanks_split cs
  rw [hcs] at h
  generalize trimBlanks cs = middle at h ⊢
  clear hcs
  have hmiddle : Arguments (middle ++ back) := by
    induction front with
    | nil => exact h
    | cons b front ih =>
      rw [List.forall_mem_cons] at hfront
      exact ih hfront.2 (arguments_after_blank hfront.1 h)
  clear h
  induction back using List.reverseRecOn with
  | nil => rwa [List.append_nil] at hmiddle
  | append_singleton back b ih =>
    rw [List.forall_mem_append] at hback
    rw [← List.append_assoc] at hmiddle
    exact ih hback.1 (arguments_before_blank (hback.2 b (by simp)) hmiddle)

/- Texts without the blanks around their cuts. -/

def pieces (ps : List Passed) : List (List Char) := (ps.splitOnP Passed.cuts).map chars

/-- Takes out the blanks after each cut, and those at the start if `start` is set. -/
def dropAfterCuts (start : Bool) : List Passed → List Passed
  | [] => []
  | x :: ps =>
    if start && isBlank x.char then dropAfterCuts true ps else x :: dropAfterCuts x.cuts ps

def dropBeforeCuts : List Passed → List Passed
  | [] => []
  | x :: ps =>
    if isBlank x.char && (dropBeforeCuts ps).head?.all Passed.cuts then dropBeforeCuts ps
    else x :: dropBeforeCuts ps

def closeUp (ps : List Passed) : List Passed := dropBeforeCuts (dropAfterCuts true ps)

theorem CutsAtCommas.isBlank {ps : List Passed} (h : CutsAtCommas ps) {x : Passed} (hx : x ∈ ps)
    (hcut : x.cuts = true) : isBlank x.char = false := by
  rw [h x hx hcut]
  decide

theorem splitOnP_cons_cut {x : Passed} (hx : x.cuts = true) (ps : List Passed) :
    (x :: ps).splitOnP Passed.cuts = [] :: ps.splitOnP Passed.cuts := by
  rw [List.splitOnP_cons_eq_if_modifyHead, if_pos hx]

theorem splitOnP_cons_uncut {x : Passed} (hx : x.cuts = false) (ps : List Passed) :
    (x :: ps).splitOnP Passed.cuts = (ps.splitOnP Passed.cuts).modifyHead (x :: ·) :=
  splitOnP_uncut (List.forall_mem_singleton.2 hx) ps

theorem splitOnP_cases (x : Passed) (ps : List Passed) :
    ∃ first others, ps.splitOnP Passed.cuts = first :: others ∧
      (x.cuts = true ∧ (x :: ps).splitOnP Passed.cuts = [] :: first :: others ∨
        x.cuts = false ∧ (x :: ps).splitOnP Passed.cuts = (x :: first) :: others) := by
  obtain ⟨first, others, hps⟩ := List.exists_cons_of_ne_nil (List.splitOnP_ne_nil Passed.cuts ps)
  refine ⟨first, others, hps, ?_⟩
  rw [List.splitOnP_cons_eq_if_modifyHead, hps]
  cases x.cuts
  · exact .inr ⟨rfl, rfl⟩
  · exact .inl ⟨rfl, rfl⟩

theorem splitOnP_dropAfterCuts {ps : List Passed} (h : CutsAtCommas ps) (start : Bool)
    {first : List Passed} {others : List (List Passed)}
    (hps : ps.splitOnP Passed.cuts = first :: others) :
    (dropAfterCuts start ps).splitOnP Passed.cuts =
      (if start then first.dropWhile (isBlank ·.char) else first) ::
        others.map (·.dropWhile (isBlank ·.char)) := by
  induction ps generalizing start first others with
  | nil =>
    cases hps
    cases start <;> rfl
  | cons x ps ih =>
    have hrest : CutsAtCommas ps := fun y hy => h y (List.mem_cons_of_mem _ hy)
    obtain ⟨first', others', hps', ⟨hcut, hsplit⟩ | ⟨hcut, hsplit⟩⟩ := splitOnP_cases x ps
    · rw [hps] at hsplit
      cases hsplit
      rw [dropAfterCuts, if_neg (by simp [h.isBlank List.mem_cons_self hcut]), hcut,
        splitOnP_cons_cut hcut, ih hrest true hps']
      cases start <;> rfl
    · rw [hps] at hsplit
      cases hsplit
      rw [dropAfterCuts]
      split
      · rename_i hblank
        rw [Bool.and_eq_true] at hblank
        rw [ih hrest true hps', hblank.1]
        simp [hblank.2]
      · rename_i hblank
        rw [splitOnP_cons_uncut hcut, hcut, ih hrest false hps']
        cases start <;> simp_all

theorem head?_all_cuts (ps : List Passed) :
    ps.head?.all Passed.cuts = ((ps.splitOnP Passed.cuts).head?.any List.isEmpty) := by
  cases ps with
  | nil => rfl
  | cons x ps =>
    obtain ⟨first, others, hps⟩ := List.exists_cons_of_ne_nil (List.splitOnP_ne_nil Passed.cuts ps)
    rw [List.splitOnP_cons_eq_if_modifyHead, hps]
    cases hx : x.cuts <;> simp [hx]

theorem rdropWhile_cons {α : Type} (p : α → Bool) (x : α) (l : List α) :
    (x :: l).rdropWhile p =
      if (l.rdropWhile p).isEmpty && p x then [] else x :: l.rdropWhile p := by
  simp only [List.rdropWhile, List.reverse_cons, List.dropWhile_append, List.isEmpty_reverse]
  cases l.reverse.dropWhile p with
  | nil => cases hx : p x <;> simp [hx]
  | cons y ys => simp

theorem splitOnP_dropBeforeCuts {ps : List Passed} (h : CutsAtCommas ps) :
    (dropBeforeCuts ps).splitOnP Passed.cuts =
      (ps.splitOnP Passed.cuts).map (·.rdropWhile (isBlank ·.char)) := by
  induction ps with
  | nil => rfl
  | cons x ps ih =>
    have hrest : CutsAtCommas ps := fun y hy => h y (List.mem_cons_of_mem _ hy)
    obtain ⟨first, others, hps, ⟨hcut, hsplit⟩ | ⟨hcut, hsplit⟩⟩ := splitOnP_cases x ps
    · rw [dropBeforeCuts, if_neg (by simp [h.isBlank List.mem_cons_self hcut]),
        splitOnP_cons_cut hcut, ih hrest, hsplit, hps]
      rfl
    · have hsplit' := ih hrest
      rw [hps, List.map_cons] at hsplit'
      rw [dropBeforeCuts, head?_all_cuts, hsplit', hsplit, List.map_cons, rdropWhile_cons]
      split
      · rename_i hblank
        rw [if_pos (by simpa [and_comm] using hblank), hsplit']
        simp_all
      · rename_i hblank
        rw [if_neg (by simpa [and_comm] using hblank), splitOnP_cons_uncut hcut, hsplit']
        rfl

theorem intercalate_pieces {ps : List Passed} (h : CutsAtCommas ps) :
    [','].intercalate (pieces ps) = chars ps := by
  induction ps with
  | nil => rfl
  | cons x ps ih =>
    have hrest : CutsAtCommas ps := fun y hy => h y (List.mem_cons_of_mem _ hy)
    have hps' := ih hrest
    obtain ⟨first, others, hps, ⟨hcut, hsplit⟩ | ⟨hcut, hsplit⟩⟩ := splitOnP_cases x ps
    · rw [pieces, hps] at hps'
      rw [pieces, hsplit, List.map_cons, List.map_cons, List.intercalate_cons_cons,
        ← List.map_cons, hps', ← h x List.mem_cons_self hcut]
      rfl
    · rw [pieces, hps] at hps'
      have hcons : chars (x :: ps) = x.char :: chars ps := rfl
      rw [pieces, hsplit, hcons, ← hps']
      cases others <;> simp [chars]

theorem CutsAtCommas.dropAfterCuts {ps : List Passed} (h : CutsAtCommas ps) (start : Bool) :
    CutsAtCommas (dropAfterCuts start ps) := by
  induction ps generalizing start with
  | nil => exact h
  | cons x ps ih =>
    have hrest : CutsAtCommas ps := fun y hy => h y (List.mem_cons_of_mem _ hy)
    rw [Sql.dropAfterCuts]
    split
    · exact ih hrest true
    · exact List.forall_mem_cons.2 ⟨h x List.mem_cons_self, ih hrest _⟩

theorem CutsAtCommas.dropBeforeCuts {ps : List Passed} (h : CutsAtCommas ps) :
    CutsAtCommas (dropBeforeCuts ps) := by
  induction ps with
  | nil => exact h
  | cons x ps ih =>
    have hrest := ih fun y hy => h y (List.mem_cons_of_mem _ hy)
    rw [Sql.dropBeforeCuts]
    split
    · exact hrest
    · exact List.forall_mem_cons.2 ⟨h x List.mem_cons_self, hrest⟩

/-- Without the blanks around its cuts, a text has its pieces without the blanks around them. -/
theorem pieces_closeUp {ps : List Passed} (h : CutsAtCommas ps) :
    pieces (closeUp ps) = (pieces ps).map trimBlanks := by
  obtain ⟨first, others, hps⟩ := List.exists_cons_of_ne_nil (List.splitOnP_ne_nil Passed.cuts ps)
  have htrim (p : List Passed) :
      chars ((p.dropWhile (isBlank ·.char)).rdropWhile (isBlank ·.char)) =
        trimBlanks (chars p) := by
    simp only [List.rdropWhile, chars, trimBlanks, skipBlanks, List.dropWhile_map,
      ← List.map_reverse]
    rfl
  rw [pieces, closeUp, splitOnP_dropBeforeCuts (h.dropAfterCuts true),
    splitOnP_dropAfterCuts h true hps, pieces, hps]
  simp [htrim]

theorem chars_closeUp {ps : List Passed} (h : CutsAtCommas ps) :
    chars (closeUp ps) = [','].intercalate ((pieces ps).map trimBlanks) := by
  rw [← pieces_closeUp h]
  exact (intercalate_pieces (h.dropAfterCuts true).dropBeforeCuts).symm

theorem Enclosed.pieces {body : List Passed} (h : Enclosed 0 body) : Pieces (pieces body) where
  ne_nil := by simp [Sql.pieces]
  uncut := by
    rintro p hp
    obtain ⟨q, hq, rfl⟩ := List.mem_map.1 hp
    exact (h q hq).passes.2
  closed := by
    rintro p hp
    obtain ⟨q, hq, rfl⟩ := List.mem_map.1 (List.dropLast_subset _ hp)
    exact (h q hq).passes.1

/- Calls that are words. -/

/-- The arguments of a call are what stands between its cuts, without the blanks around it. Each
closes its literals and parentheses, and together they are all but those blanks. -/
structure CutsAgree (args : List Char) (inner : List Passed) : Prop where
  chars : chars inner = args
  arguments : arguments args = (pieces inner).map trimBlanks
  closed : ∀ a ∈ Sql.arguments args, Arguments a
  joined : [','].intercalate (Sql.arguments args) = Sql.chars (closeUp inner)

theorem Enclosed.cutsAgree {body : List Passed} (h : Enclosed 0 body)
    (hcommas : CutsAtCommas body) : CutsAgree (chars body) body := by
  have harguments : arguments (chars body) = (Sql.pieces body).map trimBlanks := by
    rw [← intercalate_pieces hcommas, arguments_eq h.pieces]
  refine ⟨rfl, harguments, fun a ha => ?_, by rw [harguments, chars_closeUp hcommas]⟩
  rw [harguments] at ha
  obtain ⟨p, hp, rfl⟩ := List.mem_map.1 ha
  obtain ⟨q, hq, rfl⟩ := List.mem_map.1 hp
  exact arguments_trimBlanks (h q hq).arguments

theorem wordFrom_call {f rest : List Char} (hword : Token.IsWord (f ++ '(' :: rest))
    (hf : ∀ c ∈ f, isNameChar c = true) :
    wordFrom f.reverse 0 none ('(' :: rest) = wordFrom ('(' :: f.reverse) 1 none rest ∧
      wordFrom f.reverse 0 none ('(' :: rest) = .ok (f ++ '(' :: rest, []) := by
  have hsplit := hword.split [] Token.endsWord_nil
  have hletters : ∀ c ∈ f, Token.isWordChar c = true :=
    fun c hc => (isWordChar_of_isNameChar (hf c hc)).1
  rw [List.append_nil, Token.splitWord, Token.wordFrom_taken hletters, List.append_nil] at hsplit
  refine ⟨?_, hsplit⟩
  cases hstep : wordStep f.reverse 0 none '(' with
  | none =>
    rw [Token.wordFrom_stopped hstep] at hsplit
    simp at hsplit
  | some next =>
    have hnext : next = (1, none) := by
      rw [wordStep, if_neg (by decide), if_neg (by decide)] at hstep
      split at hstep
      · exact (Option.some.inj hstep).symm
      · cases hstep
    exact Token.wordFrom_step (hnext ▸ hstep) rest

/-- In every word that is a name with parentheses after it, a call is passed right after the name.
Where it ends with the word, the arguments of the call are cut at the commas that were passed right
inside it. -/
theorem arguments_scanned_call {text w : String} {ts : List Token} {f args : List Char}
    (hscan : Token.scan text = .ok ts) (hw : .word w ∈ ts)
    (hcall : w.toList = f ++ '(' :: (args ++ [')'])) (hf : ∀ c ∈ f, isNameChar c = true) :
    ∃ passed rest, passCall 0 ('(' :: (args ++ [')'])) = some (passed, rest) ∧
      wordFrom f.reverse 0 none ('(' :: (args ++ [')'])) =
        wordFrom ((chars passed).reverse ++ f.reverse) 0 none rest ∧
      (rest = [] → ∃ inner, passed = { char := '(' } :: (inner ++ [{ char := ')' }]) ∧
        CutsAgree args inner) := by
  have hword : Token.IsWord (f ++ '(' :: (args ++ [')'])) :=
    hcall ▸ Token.scan_scanned hscan (.word w) hw
  obtain ⟨hstep, hok⟩ := wordFrom_call hword hf
  have hopen : passCall 0 ('(' :: (args ++ [')'])) =
      before [{ char := '(' }] (passCall 1 (args ++ [')'])) := by
    rw [passCall, if_pos rfl]
  cases hpass : passCall 1 (args ++ [')']) with
  | none =>
    obtain ⟨what, herror⟩ := wordFrom_of_passCall_none Nat.one_pos hpass ('(' :: f.reverse)
    rw [hstep, herror] at hok
    cases hok
  | some found =>
    obtain ⟨ps, rest⟩ := found
    obtain ⟨inner, rfl, hchars, hinner, hcommas⟩ := enclosed_of_passCall hpass
    refine ⟨_, rest, by rw [hopen, hpass]; rfl, ?_, ?_⟩
    · rw [hstep, wordFrom_of_passCall Nat.one_pos hpass]
      simp [chars]
    · rintro rfl
      obtain rfl := List.append_cancel_right hchars
      exact ⟨inner, rfl, hinner.cutsAgree hcommas⟩

/-- A comma and a parenthesis in a literal with a doubled quote, and a comma in an inner call. -/
theorem arguments_scanned_call_quoted :
    let args := " 'a,''b(' , g(x, y) ,\"z\" ".toList
    Token.scan "f( 'a,''b(' , g(x, y) ,\"z\" )" = .ok [.word "f( 'a,''b(' , g(x, y) ,\"z\" )"] ∧
      arguments args = ["'a,''b('".toList, "g(x, y)".toList, "\"z\"".toList] ∧
      ∃ inner, passCall 0 ('(' :: (args ++ [')'])) =
        some ({ char := '(' } :: (inner ++ [{ char := ')' }]), []) ∧ CutsAgree args inner := by
  intro args
  have hscan : Token.scan "f( 'a,''b(' , g(x, y) ,\"z\" )" =
      .ok [.word "f( 'a,''b(' , g(x, y) ,\"z\" )"] := scan_of_toOption (by decide +kernel)
  have hcall : "f( 'a,''b(' , g(x, y) ,\"z\" )".toList = ['f'] ++ '(' :: (args ++ [')']) := by
    decide
  obtain ⟨passed, rest, hpass, -, hagree⟩ :=
    arguments_scanned_call hscan List.mem_cons_self hcall (List.all_eq_true.1 (by decide))
  have hrest : (passCall 0 ('(' :: (args ++ [')']))).map Prod.snd = some [] := by decide +kernel
  rw [hpass, Option.map_some, Option.some.injEq] at hrest
  obtain ⟨inner, rfl, hcuts⟩ := hagree hrest
  exact ⟨hscan, by decide, inner, hrest ▸ hpass, hcuts⟩

end BracketQuery.Sql
