import BracketQuery.Proofs.CallArguments
import BracketQuery.Proofs.Unscan

/-! Quoted text under qualification. Every literal of a word stays as it is as long as no name
that is called hides a parenthesis in a literal: the call would be opened there. -/
namespace BracketQuery.Sql
open Text (isBlank trimBlanks)
open Token (isQuote)

/- Literals. -/

/-- Puts a literal, if there is one, in front; its last character comes first. -/
def flush (part : List Char) (rest : List (List Char)) : List (List Char) :=
  if part.isEmpty then rest else part.reverse :: rest

/-- The literals of a text with their quotes. `part` is the one that was read last, last character
first; right after its end the same quote goes on with it, for a quote inside is written twice. -/
def literalsFrom (part : List Char) (quote : Option Char) : List Char → List (List Char)
  | [] => flush part []
  | c :: cs =>
    match quote with
    | some q => literalsFrom (c :: part) (quoteNext (some q) c) cs
    | none =>
      if isQuote c then
        if part.head? = some c then literalsFrom (c :: part) (some c) cs
        else flush part (literalsFrom [c] (some c) cs)
      else flush part (literalsFrom [] none cs)

def literals (cs : List Char) : List (List Char) := literalsFrom [] none cs

example : (literals "f('a''b,(',\"c\"'d')".toList).map String.ofList =
    ["'a''b,('", "\"c\"", "'d'"] := by decide

@[simp] theorem literals_nil : literals [] = [] := rfl

def quoteAfter (quote : Option Char) (cs : List Char) : Option Char := cs.foldl quoteNext quote

/-- Every literal of the text ends in it. -/
def Closed (cs : List Char) : Prop := quoteAfter none cs = none

@[simp] theorem quoteAfter_nil (quote : Option Char) : quoteAfter quote [] = quote := rfl
@[simp] theorem quoteAfter_cons (quote : Option Char) (c : Char) (cs : List Char) :
    quoteAfter quote (c :: cs) = quoteAfter (quoteNext quote c) cs := rfl
@[simp] theorem quoteAfter_append (quote : Option Char) (cs ds : List Char) :
    quoteAfter quote (cs ++ ds) = quoteAfter (quoteAfter quote cs) ds := List.foldl_append

theorem quoteNext_other {c : Char} (h : isQuote c = false) : quoteNext none c = none := by
  simp [quoteNext, h]

theorem Level.after_quote (l : Level) (cs : List Char) :
    (l.after cs).quote = quoteAfter l.quote cs := by
  induction cs generalizing l with
  | nil => rfl
  | cons c cs ih => exact ih (l.next c)

theorem flush_append (part : List Char) (ls ms : List (List Char)) :
    flush part ls ++ ms = flush part (ls ++ ms) := by
  unfold flush
  split <;> rfl

theorem literalsFrom_append {part : List Char} {quote : Option Char} {cs : List Char} {c : Char}
    (h : quoteAfter quote cs = none) (hc : isQuote c = false) (ds : List Char) :
    literalsFrom part quote (cs ++ c :: ds) = literalsFrom part quote cs ++ literals ds := by
  induction cs generalizing part quote with
  | nil =>
    cases h
    simp [literalsFrom, hc, literals, flush_append]
  | cons d cs ih =>
    cases quote with
    | some q => exact ih h
    | none =>
      simp only [List.cons_append, literalsFrom]
      split
      · rename_i hd
        have hrest : quoteAfter (some d) cs = none := by simpa [quoteNext, hd] using h
        split
        · exact ih hrest
        · rw [ih hrest, flush_append]
      · rename_i hd
        rw [ih (by simpa [quoteNext, hd] using h), flush_append]

theorem literals_append {cs : List Char} (h : Closed cs) {c : Char} (hc : isQuote c = false)
    (ds : List Char) : literals (cs ++ c :: ds) = literals cs ++ literals ds :=
  literalsFrom_append h hc ds

theorem literals_cons {c : Char} (hc : isQuote c = false) (cs : List Char) :
    literals (c :: cs) = literals cs := by
  simp [literals, literalsFrom, hc, flush]

theorem literals_plain {front : List Char} (h : ∀ c ∈ front, isQuote c = false) (cs : List Char) :
    literals (front ++ cs) = literals cs := by
  induction front with
  | nil => rfl
  | cons c front ih =>
    rw [List.cons_append, literals_cons (h c (by simp)), ih fun d hd => h d (by simp [hd])]

theorem quoteAfter_plain {front : List Char} (h : ∀ c ∈ front, isQuote c = false) :
    quoteAfter none front = none := by
  induction front with
  | nil => rfl
  | cons c front ih =>
    rw [quoteAfter_cons, quoteNext_other (h c (by simp))]
    exact ih fun d hd => h d (by simp [hd])

theorem closed_concat {cs : List Char} {c : Char} (hc : isQuote c = false) :
    Closed (cs ++ [c]) ↔ Closed cs := by
  have hsound := (Level.Sound.outside 0).after cs
  rw [Level.Sound, Level.after_quote] at hsound
  rw [Closed, Closed, quoteAfter_append]
  cases hq : quoteAfter none cs with
  | none => simp [quoteNext, hc]
  | some q =>
    have hne : c ≠ q := (ne_of_test (hsound q hq) hc).symm
    simp [quoteNext, hne]

theorem Closed.append {cs ds : List Char} (hc : Closed cs) (hd : Closed ds) :
    Closed (cs ++ ds) := by
  rw [Closed, quoteAfter_append, hc]
  exact hd

theorem Closed.of_append {cs ds : List Char} (h : Closed (cs ++ ds)) (hc : Closed cs) :
    Closed ds := by
  rw [Closed, quoteAfter_append, hc] at h
  exact h

theorem closed_of_ink {cs ds : List Char} (h : ink cs = ink ds) (hc : Closed cs) : Closed ds := by
  have hlevel : ({} : Level).after cs = ({} : Level).after ds := by
    rw [← Level.after_ink (.outside 0), h, Level.after_ink (.outside 0)]
  rw [Closed, ← Level.after_quote {} ds, ← hlevel, Level.after_quote]
  exact hc

theorem isQuote_of_blanks {cs : List Char} (h : ∀ c ∈ cs, isBlank c = true) :
    ∀ c ∈ cs, isQuote c = false := fun c hc => Token.isQuote_of_isBlank (h c hc)

theorem literals_append_plain {cs back : List Char} (h : Closed cs)
    (hback : ∀ c ∈ back, isQuote c = false) : literals (cs ++ back) = literals cs := by
  cases back with
  | nil => rw [List.append_nil]
  | cons c back =>
    have hrest : literals back = [] := by
      simpa using literals_plain (fun d hd => hback d (by simp [hd])) []
    rw [literals_append h (hback c (by simp)), hrest, List.append_nil]

theorem literals_trimBlanks {cs : List Char} (h : Closed cs) :
    literals (trimBlanks cs) = literals cs := by
  obtain ⟨front, back, hfront, hback, hcs⟩ := Text.trimBlanks_split cs
  have htrim : Closed (trimBlanks cs) := closed_of_ink (ink_trimBlanks cs).symm h
  have hliterals := congrArg literals hcs
  rw [List.append_assoc, literals_plain (isQuote_of_blanks hfront),
    literals_append_plain htrim (isQuote_of_blanks hback)] at hliterals
  exact hliterals.symm

/- Characters outside literals. -/

/-- The characters that are neither in a literal nor its quotes. -/
def bareFrom (quote : Option Char) : List Char → List Char
  | [] => []
  | c :: cs =>
    if quote = none ∧ isQuote c = false then c :: bareFrom none cs
    else bareFrom (quoteNext quote c) cs

def bare (cs : List Char) : List Char := bareFrom none cs

theorem bareFrom_append (quote : Option Char) (cs ds : List Char) :
    bareFrom quote (cs ++ ds) = bareFrom quote cs ++ bareFrom (quoteAfter quote cs) ds := by
  induction cs generalizing quote with
  | nil => rfl
  | cons c cs ih =>
    simp only [List.cons_append, bareFrom, quoteAfter_cons]
    split
    · rename_i hc
      rw [ih, hc.1, quoteNext_other hc.2, List.cons_append]
    · exact ih _

theorem bare_append {cs : List Char} (h : Closed cs) (ds : List Char) :
    bare (cs ++ ds) = bare cs ++ bare ds := by
  rw [bare, bareFrom_append, h]
  rfl

theorem bare_cons {c : Char} (hc : isQuote c = false) (cs : List Char) :
    bare (c :: cs) = c :: bare cs := by
  simp [bare, bareFrom, hc]

theorem bareFrom_sublist (quote : Option Char) (cs : List Char) :
    (bareFrom quote cs).Sublist cs := by
  induction cs generalizing quote with
  | nil => exact .slnil
  | cons c cs ih =>
    rw [bareFrom]
    split
    · exact (ih none).cons_cons c
    · exact (ih _).cons c

/-- No parenthesis outside literals is closed more often than it is opened. -/
def Bracketed (cs : List Char) : Prop := (bare cs).count ')' ≤ (bare cs).count '('

/- Names that are called. -/

/-- The names before the parentheses that open a call, with `run` before the first character, last
character first. A name starts after a comma, a blank or an opening parenthesis. -/
def calledFrom (run : List Char) (quote : Option Char) : List Char → List (List Char)
  | [] => []
  | c :: cs =>
    match quote with
    | some q => calledFrom (c :: run) (quoteNext (some q) c) cs
    | none =>
      if c = '(' then run.reverse :: calledFrom [] none cs
      else if c = ',' || isBlank c then calledFrom [] none cs
      else calledFrom (c :: run) (quoteNext none c) cs

def calledNames (cs : List Char) : List (List Char) := calledFrom [] none cs

/-- No name that is called hides an opening parenthesis in a literal. What starts with a literal is
no name and is never opened. -/
def CallsOpenly (cs : List Char) : Prop :=
  ∀ name ∈ calledNames cs, '(' ∈ name → name.head?.any isQuote = true

instance (cs : List Char) : Decidable (CallsOpenly cs) :=
  inferInstanceAs (Decidable (∀ name ∈ calledNames cs, '(' ∈ name → name.head?.any isQuote = true))

theorem calledFrom_append_subset (run : List Char) (quote : Option Char) (cs ds : List Char) :
    calledFrom run quote cs ⊆ calledFrom run quote (cs ++ ds) := by
  induction cs generalizing run quote with
  | nil => simp [calledFrom]
  | cons c cs ih =>
    cases quote with
    | some q => exact ih _ _
    | none =>
      simp only [List.cons_append, calledFrom]
      split
      · exact List.cons_subset_cons _ (ih _ _)
      split
      · exact ih _ _
      · exact ih _ _

def startsName (c : Char) : Bool := c = '(' || c = ',' || isBlank c

theorem calledNames_subset_append {run : List Char} {quote : Option Char} {cs : List Char}
    {c : Char} (h : quoteAfter quote cs = none) (hc : startsName c = true) (ds : List Char) :
    calledNames ds ⊆ calledFrom run quote (cs ++ c :: ds) := by
  induction cs generalizing run quote with
  | nil =>
    cases h
    simp only [List.nil_append, calledFrom]
    split
    · exact List.subset_cons_self ..
    · rename_i hopen
      rw [if_pos (by simpa [startsName, hopen] using hc)]
      exact List.Subset.refl _
  | cons d cs ih =>
    cases quote with
    | some q => exact ih h
    | none =>
      simp only [List.cons_append, calledFrom]
      split
      · rename_i hd
        subst hd
        exact List.subset_cons_of_subset _ (ih h)
      split
      · rename_i hd
        have hquote : isQuote d = false := by
          simp only [Bool.or_eq_true, decide_eq_true_eq] at hd
          rcases hd with rfl | hd
          · decide
          · exact Token.isQuote_of_isBlank hd
        exact ih (by simpa [quoteNext, hquote] using h)
      · exact ih h

/- The first call. -/

/-- Outside parentheses and literals there is neither a comma nor a blank. -/
def Level.quiet (l : Level) : List Char → Bool
  | [] => true
  | c :: cs => !((c = ',' || isBlank c) && l = {}) && (l.next c).quiet cs

theorem exists_first_call {quote : Option Char} {cs : List Char}
    (hquiet : Level.quiet ⟨0, quote⟩ cs = true) (hopen : '(' ∈ bareFrom quote cs)
    (run : List Char) : ∃ front back, cs = front ++ '(' :: back ∧ quoteAfter quote front = none ∧
      calledFrom run quote cs = (run.reverse ++ front) :: calledNames back := by
  induction cs generalizing quote run with
  | nil => simp [bareFrom] at hopen
  | cons c cs ih =>
    by_cases hc : quote = none ∧ c = '('
    · obtain ⟨rfl, rfl⟩ := hc
      exact ⟨[], cs, rfl, rfl, by simp [calledFrom, calledNames]⟩
    · -- the level stays outside parentheses, and `c` belongs to the name
      have hnext : Level.next ⟨0, quote⟩ c = ⟨0, quoteNext quote c⟩ := by
        cases quote with
        | some q => rfl
        | none => simp_all [Level.next]
      have hbare : '(' ∈ bareFrom (quoteNext quote c) cs := by
        rw [bareFrom] at hopen
        split at hopen
        · rename_i hplain
          obtain ⟨rfl, hplain⟩ := hplain
          rw [quoteNext_other hplain]
          exact (List.mem_cons.1 hopen).resolve_left fun h => hc ⟨rfl, h.symm⟩
        · exact hopen
      simp only [Level.quiet, hnext, Bool.and_eq_true, Bool.not_eq_true'] at hquiet
      have hcalled : calledFrom run quote (c :: cs) =
          calledFrom (c :: run) (quoteNext quote c) cs := by
        cases quote with
        | some q => rfl
        | none =>
          have hname : (c = ',' || isBlank c) = false := by simpa using hquiet.1
          simp_all [calledFrom]
      obtain ⟨front, back, rfl, hclosed, hnames⟩ := ih hquiet.2 hbare (c :: run)
      exact ⟨c :: front, back, rfl, hclosed, by simp [hcalled, hnames]⟩

/- Texts that qualification may open. -/

/-- A text whose literals qualification keeps. -/
structure Safe (cs : List Char) : Prop where
  closed : Closed cs
  quiet : Level.quiet {} cs = true
  bracketed : Bracketed cs
  openly : CallsOpenly cs

variable {cs name args : List Char}

theorem Safe.mem_bare (h : Safe (cs ++ [')'])) : '(' ∈ bare (cs ++ [')']) := by
  have hclosed : Closed cs := (closed_concat (by decide)).1 h.closed
  have hbare : bare (cs ++ [')']) = bare cs ++ [')'] := bare_append hclosed _
  have hcount := h.bracketed
  rw [Bracketed, hbare] at hcount
  rw [hbare, ← List.count_pos_iff]
  simp only [List.count_append, List.count_singleton_self] at hcount ⊢
  omega

theorem eq_of_append_paren {front name back rest : List Char}
    (h : front ++ '(' :: back = name ++ '(' :: rest) (hfront : '(' ∉ front) (hname : '(' ∉ name) :
    front = name := by
  have htake := congrArg (List.takeWhile (· != '(')) h
  simpa [List.takeWhile_append_of_pos (ne_paren hfront),
    List.takeWhile_append_of_pos (ne_paren hname)] using htake

theorem Safe.closed_name (h : Safe cs) (hl : isLiteralText cs = false)
    (hc : call? cs = some (name, args)) : Closed name := by
  obtain ⟨hcs, -, hname⟩ := call?_eq_some_iff.1 hc
  have hopen : '(' ∈ bare cs := by
    rw [show cs = (name ++ '(' :: args) ++ [')'] by simp [hcs]] at h ⊢
    exact h.mem_bare
  obtain ⟨front, back, hfront, hclosed, hcalled⟩ := exists_first_call h.quiet hopen []
  have hhidden : '(' ∉ front := by
    intro hmem
    have hquote := h.openly front (by simp [calledNames, hcalled]) hmem
    cases front with
    | nil => simp at hmem
    | cons c front =>
      have hmark : isLiteralText cs = true := by
        have : isQuote c = true := by simpa using hquote
        simp [hfront, isLiteralText, marksLiteral, this]
      simp [hmark] at hl
  have heq := eq_of_append_paren (hfront.symm.trans hcs) hhidden hname
  exact heq ▸ hclosed

/- Arguments. -/

/-- Of two readers, one of them one level deeper, the deeper one stays so until a parenthesis is
closed that the other has not seen opened; up to there parentheses are in balance. -/
theorem Level.after_deeper (depth : Nat) (quote : Option Char) (cs : List Char) :
    after ⟨depth + 1, quote⟩ cs = after ⟨depth, quote⟩ cs ∨
      (after ⟨depth + 1, quote⟩ cs).depth = (after ⟨depth, quote⟩ cs).depth + 1 ∧
        (bareFrom quote cs).count '(' + depth =
          (bareFrom quote cs).count ')' + (after ⟨depth, quote⟩ cs).depth := by
  induction cs generalizing depth quote with
  | nil => exact .inr ⟨rfl, rfl⟩
  | cons c cs ih =>
    cases quote with
    | some q => exact ih depth _
    | none =>
      by_cases hq : isQuote c = true
      · simpa [bareFrom, hq, next_quote hq, quoteNext] using ih depth (some c)
      · rw [Bool.not_eq_true] at hq
        by_cases h1 : c = '('
        · subst h1
          have h := ih (depth + 1) none
          simp only [bareFrom, hq, and_self, if_true, after_cons, next_open, List.count_cons]
          simpa [Nat.add_right_comm, Nat.add_assoc] using h
        · by_cases h2 : c = ')'
          · subst h2
            cases depth with
            | zero =>
              -- the other reader passes over this parenthesis, and from here on both are level
              exact .inl rfl
            | succ depth =>
              refine (ih depth none).imp id fun h => ⟨h.1, ?_⟩
              have hbare : bareFrom none (')' :: cs) = ')' :: bareFrom none cs := rfl
              simp only [hbare, List.count_cons_self,
                List.count_cons_of_ne (show ')' ≠ '(' by decide), after_cons, next_close,
                Nat.add_sub_cancel]
              omega
          · simpa [bareFrom, hq, next_other hq h1 h2, h1, h2] using ih depth none

theorem Level.quiet_append (l : Level) (cs ds : List Char) :
    l.quiet (cs ++ ds) = (l.quiet cs && (l.after cs).quiet ds) := by
  induction cs generalizing l with
  | nil => rfl
  | cons c cs ih => simp [quiet, ih, Bool.and_assoc]

theorem Level.uncut_of_quiet {l : Level} {cs : List Char} (h : l.quiet cs = true) :
    l.uncut cs = true := by
  induction cs generalizing l with
  | nil => rfl
  | cons c cs ih =>
    simp only [quiet, Bool.and_eq_true] at h
    rw [uncut_cons, ih h.2, Bool.and_true]
    by_cases hc : c = ',' <;> simp_all [cuts]

theorem Level.quiet_of_uncut {l : Level} {cs : List Char} (h : l.uncut cs = true)
    (hblank : ∀ c ∈ cs, isBlank c = false) : l.quiet cs = true := by
  induction cs generalizing l with
  | nil => rfl
  | cons c cs ih =>
    simp only [uncut_cons, Bool.and_eq_true] at h
    rw [quiet, ih h.2 fun d hd => hblank d (by simp [hd]), Bool.and_true]
    simpa [hblank c (by simp), cuts] using h.1

theorem Level.after_depth_zero {quote : Option Char} {cs : List Char} (h : '(' ∉ cs) :
    (after ⟨0, quote⟩ cs).depth = 0 := by
  induction cs generalizing quote with
  | nil => rfl
  | cons c cs ih =>
    simp only [List.mem_cons, not_or] at h
    have hnext : next ⟨0, quote⟩ c = ⟨0, quoteNext quote c⟩ := by
      simp [next, Ne.symm h.1]
    rw [after_cons, hnext]
    exact ih h.2

theorem closed_of_after {cs : List Char} (h : ({} : Level).after cs = {}) : Closed cs := by
  rw [Closed, ← Level.after_quote {} cs, h]

/-- Before a comma that cuts, but does not one level deeper, parentheses are in balance. -/
theorem balanced_of_cut {p rest : List Char} (hcut : ({} : Level).after p = {})
    (huncut : Level.uncut ⟨1, none⟩ (p ++ ',' :: rest) = true) :
    Level.uncut ⟨1, none⟩ rest = true ∧ (bare p).count '(' = (bare p).count ')' := by
  simp only [Level.uncut_append, Level.uncut_cons, Bool.and_eq_true, Bool.not_eq_true'] at huncut
  obtain hsame | ⟨hdepth, hcount⟩ := Level.after_deeper 0 none p
  · rw [hsame, hcut] at huncut
    exact absurd huncut.2.1 (by decide)
  · have hquote : (Level.after ⟨1, none⟩ p).quote = none :=
      (Level.after_quote _ p).trans (closed_of_after hcut)
    rw [hcut] at hdepth hcount
    have hone : Level.after ⟨1, none⟩ p = ⟨1, none⟩ := Level.ext hdepth hquote
    rw [hone] at huncut
    exact ⟨huncut.2.2, hcount⟩

theorem Pieces.bracketed {ps : List (List Char)} (h : Pieces ps)
    (huncut : Level.uncut ⟨1, none⟩ ([','].intercalate ps) = true)
    (hclosed : Closed ([','].intercalate ps)) (hbracketed : Bracketed ([','].intercalate ps)) :
    ∀ p ∈ ps, Closed p ∧ Bracketed p := by
  induction ps with
  | nil => simp
  | cons p ps ih =>
    cases ps with
    | nil => simpa using And.intro (by simpa using hclosed) (by simpa using hbracketed)
    | cons q ps =>
      rw [List.intercalate_cons_of_ne_nil (by simp), List.append_assoc,
        List.singleton_append] at huncut hclosed hbracketed
      have hcut : ({} : Level).after p = {} := h.closed p (by simp)
      have hp : Closed p := closed_of_after hcut
      obtain ⟨hrest, hcount⟩ := balanced_of_cut hcut huncut
      have hbare : bare (p ++ ',' :: [','].intercalate (q :: ps)) =
          bare p ++ ',' :: bare ([','].intercalate (q :: ps)) := bare_append hp _
      refine List.forall_mem_cons.2 ⟨⟨hp, Nat.le_of_eq hcount.symm⟩, ih h.tail hrest ?_ ?_⟩
      · exact hclosed.of_append hp
      · rw [Bracketed, hbare] at hbracketed
        simp only [List.count_append, List.count_cons, hcount] at hbracketed
        simpa [Bracketed] using hbracketed

theorem count_bare_blanks {blanks : List Char} (h : ∀ c ∈ blanks, isBlank c = true) {c : Char}
    (hc : isBlank c = false) : (bare blanks).count c = 0 := by
  refine List.count_eq_zero.2 fun hmem => ?_
  simp [h c ((bareFrom_sublist none blanks).subset hmem)] at hc

theorem bracketed_trimBlanks (hc : Closed cs) (h : Bracketed cs) : Bracketed (trimBlanks cs) := by
  have htrim : Closed (trimBlanks cs) := closed_of_ink (ink_trimBlanks cs).symm hc
  obtain ⟨front, back, hfront, hback, hcs⟩ := Text.trimBlanks_split cs
  have hbare : bare cs = bare front ++ (bare (trimBlanks cs) ++ bare back) := by
    rw [← bare_append htrim, ← bare_append (quoteAfter_plain (isQuote_of_blanks hfront)),
      ← List.append_assoc, ← hcs]
  have hparens : isBlank '(' = false ∧ isBlank ')' = false := by decide
  rw [Bracketed, hbare] at h
  simpa [Bracketed, count_bare_blanks hfront, count_bare_blanks hback, hparens.1, hparens.2] using h

theorem calledNames_blanks {front : List Char} (h : ∀ c ∈ front, isBlank c = true)
    (cs : List Char) : calledNames (front ++ cs) = calledNames cs := by
  induction front with
  | nil => rfl
  | cons c front ih =>
    have hc : isBlank c = true := h c (by simp)
    have hopen : c ≠ '(' := ne_of_test hc (by decide)
    rw [← ih fun d hd => h d (by simp [hd])]
    simp [calledNames, calledFrom, hc, hopen]

theorem calledNames_trimBlanks (cs : List Char) : calledNames (trimBlanks cs) ⊆ calledNames cs := by
  obtain ⟨front, back, hfront, -, hcs⟩ := Text.trimBlanks_split cs
  have hnames := congrArg calledNames hcs
  rw [List.append_assoc, calledNames_blanks hfront] at hnames
  rw [hnames]
  exact calledFrom_append_subset [] none _ back

theorem Pieces.calledNames {ps : List (List Char)} (h : Pieces ps) :
    ∀ p ∈ ps, calledNames p ⊆ calledNames ([','].intercalate ps) := by
  induction ps with
  | nil => simp
  | cons p ps ih =>
    cases ps with
    | nil => simp
    | cons q ps =>
      rw [List.intercalate_cons_of_ne_nil (by simp), List.append_assoc, List.singleton_append]
      refine List.forall_mem_cons.2 ⟨calledFrom_append_subset _ _ _ _, fun r hr => ?_⟩
      have hp : Closed p := closed_of_after (h.closed p (by simp))
      exact List.Subset.trans (ih h.tail r hr) (calledNames_subset_append hp rfl _)

theorem CallsOpenly.mono {ds : List Char} (h : CallsOpenly cs)
    (hsub : calledNames ds ⊆ calledNames cs) : CallsOpenly ds := fun f hf => h f (hsub hf)

theorem closed_of_call (h : Closed (name ++ '(' :: (args ++ [')']))) (hname : Closed name) :
    Closed args := by
  have hopen : Closed (['('] ++ (args ++ [')'])) := h.of_append hname
  exact (closed_concat (by decide)).1 (hopen.of_append rfl)

theorem uncut_of_call (h : Level.quiet {} (name ++ '(' :: (args ++ [')'])) = true)
    (hclosed : Closed name) (hparen : '(' ∉ name) : Level.uncut ⟨1, none⟩ args = true := by
  have hname : ({} : Level).after name = {} := by
    have hquote : (Level.after {} name).quote = none := (Level.after_quote _ name).trans hclosed
    exact Level.ext (Level.after_depth_zero hparen) hquote
  rw [Level.quiet_append, hname, Level.quiet] at h
  simp only [Bool.and_eq_true] at h
  have huncut := Level.uncut_of_quiet h.2.2
  rw [Level.uncut_append, Bool.and_eq_true] at huncut
  exact huncut.1

theorem bracketed_of_call (h : Bracketed (name ++ '(' :: (args ++ [')'])))
    (hname : Closed name) (hargs : Closed args) (hparen : '(' ∉ name) : Bracketed args := by
  have hbare : bare (name ++ '(' :: (args ++ [')'])) =
      bare name ++ '(' :: (bare args ++ [')']) := by
    rw [bare_append hname, bare_cons (by decide), bare_append hargs]
    rfl
  have hzero : (bare name).count '(' = 0 :=
    List.count_eq_zero.2 fun hmem => hparen ((bareFrom_sublist none name).subset hmem)
  rw [Bracketed, hbare] at h
  simp [hzero] at h
  rw [Bracketed]
  omega

theorem Safe.argument (h : Safe cs) (hl : isLiteralText cs = false)
    (hc : call? cs = some (name, args)) {a : List Char} (ha : a ∈ arguments args) :
    Closed a ∧ (a.any isBlank = false → Safe a) := by
  have hname := h.closed_name hl hc
  obtain ⟨rfl, -, hparen⟩ := call?_eq_some_iff.1 hc
  have hargs := closed_of_call h.closed hname
  have hopenly : CallsOpenly args := h.openly.mono <| List.Subset.trans
    (calledFrom_append_subset [] none args [')']) (calledNames_subset_append hname rfl _)
  obtain ⟨ps, hps, rfl⟩ := exists_pieces args
  rw [arguments_eq hps] at ha
  obtain ⟨p, hp, rfl⟩ := List.mem_map.1 ha
  obtain ⟨hclosed, hbracketed⟩ := hps.bracketed (uncut_of_call h.quiet hname hparen) hargs
    (bracketed_of_call h.bracketed hname hargs hparen) p hp
  have htrim : Closed (trimBlanks p) := closed_of_ink (ink_trimBlanks p).symm hclosed
  refine ⟨htrim, fun hblank => ⟨htrim, ?_, bracketed_trimBlanks hclosed hbracketed, ?_⟩⟩
  · refine Level.quiet_of_uncut ?_ fun c hc => by simpa using List.any_eq_false.1 hblank c hc
    rw [← Level.uncut_ink (.outside 0), ink_trimBlanks, Level.uncut_ink (.outside 0)]
    exact hps.uncut p hp
  · exact hopenly.mono (List.Subset.trans (calledNames_trimBlanks p) (hps.calledNames p hp))

/- The literals of a call. -/

theorem literals_intercalate {gap : List Char} (hgap : ∀ c ∈ gap, isBlank c = true)
    {ps : List (List Char)} (h : ∀ p ∈ ps, Closed p) :
    literals ((',' :: gap).intercalate ps) = (ps.map literals).flatten := by
  induction ps with
  | nil => rfl
  | cons p ps ih =>
    cases ps with
    | nil => simp
    | cons q ps =>
      rw [List.intercalate_cons_of_ne_nil (by simp), List.append_assoc, List.cons_append,
        literals_append (h p (by simp)) (by decide), literals_plain (isQuote_of_blanks hgap),
        ih fun r hr => h r (by simp [hr])]
      rfl

theorem closed_intercalate {gap : List Char} (hgap : ∀ c ∈ gap, isBlank c = true)
    {ps : List (List Char)} (h : ∀ p ∈ ps, Closed p) : Closed ((',' :: gap).intercalate ps) := by
  have hsep : Closed (',' :: gap) :=
    quoteAfter_plain (List.forall_mem_cons.2 ⟨by decide, isQuote_of_blanks hgap⟩)
  exact intercalate_of_append (P := Closed) rfl (fun _ _ => Closed.append) hsep h

theorem literals_arguments (h : ∀ a ∈ arguments args, Closed a) :
    literals args = ((arguments args).map literals).flatten := by
  obtain ⟨ps, hps, rfl⟩ := exists_pieces args
  rw [arguments_eq hps] at h ⊢
  have hclosed : ∀ p ∈ ps, Closed p := fun p hp =>
    closed_of_ink (ink_trimBlanks p) (h _ (List.mem_map_of_mem hp))
  have hmap : (ps.map trimBlanks).map literals = ps.map literals := by
    rw [List.map_map]
    exact List.map_congr_left fun p hp => literals_trimBlanks (hclosed p hp)
  rw [literals_intercalate (by simp) hclosed, hmap]

theorem literals_call (hname : Closed name) (hargs : Closed args) :
    literals (name ++ '(' :: (args ++ [')'])) = literals name ++ literals args := by
  have hclose : ∀ c ∈ [')'], isQuote c = false := List.forall_mem_singleton.2 rfl
  rw [literals_append hname (by decide), literals_append_plain hargs hclose]

theorem closed_call (hname : Closed name) (hargs : Closed args) :
    Closed (name ++ '(' :: (args ++ [')'])) := by
  have hopen : Closed ['('] := rfl
  have hclose : Closed [')'] := rfl
  exact hname.append (hopen.append (hargs.append hclose))

variable {scope : List Char}

/-- Qualification keeps the literals of a safe text. -/
theorem Safe.literals_qualifiedText (hscope : ∀ c ∈ scope, isQuote c = false) (h : Safe cs) :
    Closed (qualifiedText scope cs) ∧ literals (qualifiedText scope cs) = literals cs := by
  induction cs using qualified_induction with
  | literal cs hl =>
    rw [qualifiedText_literal _ hl]
    exact ⟨h.closed, rfl⟩
  | name cs hl hc =>
    rw [qualifiedText_name _ hl hc]
    refine ⟨Closed.append (quoteAfter_plain hscope) h.closed, ?_⟩
    rw [literals_plain hscope, literals_cons (by decide)]
  | call cs name args hl hc ih =>
    have hname := h.closed_name hl hc
    have hargs : ∀ a ∈ arguments args, Closed (qualifiedArgument scope a) ∧
        literals (qualifiedArgument scope a) = literals a := by
      intro a ha
      obtain ⟨hclosed, hsafe⟩ := h.argument hl hc ha
      unfold qualifiedArgument
      split
      · exact ⟨hclosed, rfl⟩
      · rename_i hkept
        exact ih a ha (hsafe (by simp_all))
    have hjoined : ∀ p ∈ (arguments args).map (qualifiedArgument scope), Closed p := by
      intro p hp
      obtain ⟨a, ha, rfl⟩ := List.mem_map.1 hp
      exact (hargs a ha).1
    have hcs : literals cs = literals name ++ ((arguments args).map literals).flatten := by
      have hclosed : ∀ a ∈ arguments args, Closed a := fun a ha => (h.argument hl hc ha).1
      obtain ⟨rfl, -, -⟩ := call?_eq_some_iff.1 hc
      rw [literals_call hname (closed_of_call h.closed hname), literals_arguments hclosed]
    have hmap : ((arguments args).map (qualifiedArgument scope)).map literals =
        (arguments args).map literals := by
      rw [List.map_map]
      exact List.map_congr_left fun a ha => (hargs a ha).2
    have hinside := closed_intercalate isBlank_space hjoined
    rw [qualifiedText_call _ hl hc]
    refine ⟨closed_call hname hinside, ?_⟩
    rw [literals_call hname hinside, literals_intercalate isBlank_space hjoined, hcs, hmap]

/- Words. -/

/-- Read from the level on, the text closes its literals and just the parentheses that are open, and
has no comma or blank outside them. -/
structure Tidy (l : Level) (cs : List Char) : Prop where
  closed : quoteAfter l.quote cs = none
  quiet : l.quiet cs = true
  balanced : (bareFrom l.quote cs).count ')' = (bareFrom l.quote cs).count '(' + l.depth

theorem Tidy.cons {l : Level} {c : Char} (h : Tidy (l.next c) cs)
    (hc : l = {} → c ≠ ')' ∧ (c = ',' || isBlank c) = false) : Tidy l (c :: cs) where
  closed := h.closed
  quiet := by
    rw [Level.quiet, h.quiet, Bool.and_true]
    by_cases hl : l = {} <;> simp_all
  balanced := by
    have hbalanced := h.balanced
    obtain ⟨depth, quote⟩ := l
    cases quote with
    | some q => exact hbalanced
    | none =>
      by_cases hq : isQuote c = true
      · simpa [Level.next_quote hq, bareFrom, hq, quoteNext] using hbalanced
      · rw [Bool.not_eq_true] at hq
        have hbare : bareFrom none (c :: cs) = c :: bareFrom none cs := by simp [bareFrom, hq]
        by_cases h1 : c = '('
        · subst h1
          simp only [Level.next_open, hbare, List.count_cons_self,
            List.count_cons_of_ne (show '(' ≠ ')' by decide)] at hbalanced ⊢
          omega
        · by_cases h2 : c = ')'
          · subst h2
            have hdepth : depth ≠ 0 := by
              rintro rfl
              exact (hc rfl).1 rfl
            simp only [Level.next_close, hbare, List.count_cons_self,
              List.count_cons_of_ne (show ')' ≠ '(' by decide)] at hbalanced ⊢
            omega
          · simpa [Level.next_other hq h1 h2, hbare, h1, h2] using hbalanced

theorem Level.next_depthAfter {c : Char} (h : isQuote c = false) (depth : Nat) :
    next ⟨depth + 1, none⟩ c = ⟨Token.depthAfter depth c, none⟩ := by
  unfold Token.depthAfter
  split
  · simp_all
  split
  · simp_all
  · exact next_other h ‹_› ‹_› _

theorem tidy_of_wordFrom {taken word cs : List Char} {depth : Nat} {quote : Option Char}
    (h : Token.wordFrom taken depth quote cs = .ok (word, [])) : Tidy ⟨depth, quote⟩ cs := by
  induction cs generalizing taken depth quote with
  | nil =>
    cases quote <;> cases depth <;> simp [Token.wordFrom] at h
    exact ⟨rfl, rfl, rfl⟩
  | cons c cs ih =>
    cases quote with
    | some q => exact Tidy.cons (ih h) (by simp)
    | none =>
      -- inside a call every character is taken, outside it only what can go on with a word
      cases depth with
      | succ depth =>
        refine Tidy.cons ?_ (by simp)
        rw [Token.wordFrom] at h
        split at h
        · rename_i hq
          exact Level.next_quote hq _ ▸ ih h
        · rename_i hq
          exact Level.next_depthAfter (Bool.eq_false_iff.2 hq) depth ▸ ih h
      | zero =>
        rw [Token.wordFrom] at h
        split at h
        · rename_i hw
          refine Tidy.cons ?_ fun _ => ?_
          · rw [Level.next_letter hw 0]
            exact ih h
          · simp [ne_of_test hw (d := ')') (by decide), ne_of_test hw (d := ',') (by decide),
              Token.isBlank_of_isWordChar hw]
        split at h
        · rename_i hq
          refine Tidy.cons (Level.next_quote hq 0 ▸ ih h) fun _ => ?_
          simp only [isQuote, Bool.or_eq_true, decide_eq_true_eq] at hq
          rcases hq with rfl | rfl <;> decide
        split at h
        · rename_i hopen
          simp only [Bool.and_eq_true, decide_eq_true_eq] at hopen
          obtain ⟨rfl, -⟩ := hopen
          exact Tidy.cons (ih h) fun _ => by decide
        · simp at h

theorem safe_of_isWord {w : List Char} (h : Token.IsWord w) (hopenly : CallsOpenly w) : Safe w := by
  have hsplit := h.split [] Token.endsWord_nil
  rw [List.append_nil] at hsplit
  have htidy := tidy_of_wordFrom hsplit
  exact ⟨htidy.closed, htidy.quiet, Nat.le_of_eq htidy.balanced, hopenly⟩

/-- The literals of a word stay as they are when it is qualified, unless a name that is called
hides a parenthesis. -/
theorem literals_qualify {text w scope : String} {ts : List Token}
    (hscan : Token.scan text = .ok ts) (hw : .word w ∈ ts)
    (hscope : ∀ c ∈ scope.toList, isNameChar c = true)
    (hopenly : CallsOpenly w.toList) :
    literals (qualify w scope).toList = literals w.toList := by
  have hsafe := safe_of_isWord (Token.scan_scanned hscan _ hw) hopenly
  have hunquoted : ∀ c ∈ scope.toList, isQuote c = false := by
    intro c hc
    have h := hscope c hc
    cases hq : isQuote c with
    | false => rfl
    | true =>
      simp only [isQuote, Bool.or_eq_true, decide_eq_true_eq] at hq
      rcases hq with rfl | rfl <;> exact absurd h (by decide)
  rw [qualify, String.toList_ofList]
  exact (hsafe.literals_qualifiedText hunquoted).2

/- Literals that imitate calls and commas, one of them called itself and one right before a call. -/
theorem literals_qualify_nested :
    let word := "coalesce(concat(a,'),(b',\"it\"\"s,(\"),'(c)'(d),g(x,h'y,z'(e)))"
    ∃ ts, Token.scan ("t[" ++ word ++ "]") = .ok ts ∧ .word word ∈ ts ∧
      CallsOpenly word.toList ∧ qualify word "t" ≠ word ∧
      literals (qualify word "t").toList = literals word.toList := by
  intro word
  have hscan : Token.scan ("t[" ++ word ++ "]") =
      .ok [.word "t", .symbol "[", .word word, .symbol "]"] :=
    scan_of_toOption (by decide +kernel)
  have hscope : ∀ c ∈ "t".toList, isNameChar c = true := List.all_eq_true.1 (by decide)
  have hopenly : CallsOpenly word.toList := by decide +kernel
  exact ⟨_, hscan, by simp, hopenly, by decide +kernel,
    literals_qualify hscan (by simp) hscope hopenly⟩

/-- A name that hides a parenthesis is opened there, and the text of its literal is qualified. -/
theorem exists_literals_qualify_ne : ∃ (text w scope : String) (ts : List Token),
    Token.scan text = .ok ts ∧ .word w ∈ ts ∧ (∀ c ∈ scope.toList, isNameChar c = true) ∧
      literals (qualify w scope).toList ≠ literals w.toList := by
  have hscan : Token.scan "f'(id)'(x)" = .ok [.word "f'(id)'(x)"] :=
    scan_of_toOption (by decide +kernel)
  refine ⟨_, "f'(id)'(x)", "t", _, hscan, by simp, List.all_eq_true.1 (by decide), ?_⟩
  have hqualify : qualify "f'(id)'(x)" "t" = "f'(t.id)'(x)" := by decide +kernel
  rw [hqualify]
  decide

end BracketQuery.Sql
