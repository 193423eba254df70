import BracketQuery.Proofs.Rescan
import BracketQuery.Sql.Name

/-! Calls and their arguments. While an argument text is read, a level says how many parentheses
are open and which literal is. A comma at the outermost level ends an argument; the text between
two such commas is a piece, and an argument is a piece without the blanks around it. -/
namespace BracketQuery.Text

/- Blanks at both ends. -/

theorem skipBlanks_append {front : List Char} (h : ∀ c ∈ front, isBlank c = true) (cs : List Char) :
    skipBlanks (front ++ cs) = skipBlanks cs :=
  List.dropWhile_append_of_pos h

theorem skipBlanks_split (cs : List Char) :
    ∃ front, (∀ c ∈ front, isBlank c = true) ∧ cs = front ++ skipBlanks cs :=
  ⟨cs.takeWhile isBlank, List.all_eq_true.1 List.all_takeWhile,
    List.takeWhile_append_dropWhile.symm⟩

theorem trimBlanks_append {front : List Char} (h : ∀ c ∈ front, isBlank c = true)
    (cs : List Char) : trimBlanks (front ++ cs) = trimBlanks cs := by
  rw [trimBlanks, skipBlanks_append h, trimBlanks]

theorem trimBlanks_split (cs : List Char) : ∃ front back, (∀ c ∈ front, isBlank c = true) ∧
    (∀ c ∈ back, isBlank c = true) ∧ cs = front ++ trimBlanks cs ++ back := by
  obtain ⟨front, hfront, hcs⟩ := skipBlanks_split cs
  obtain ⟨back, hback, hrev⟩ := skipBlanks_split (skipBlanks cs).reverse
  refine ⟨front, back.reverse, hfront, by simpa using hback, ?_⟩
  rw [List.append_assoc, trimBlanks, ← List.reverse_append, ← hrev, List.reverse_reverse]
  exact hcs

/-- Neither end of the text is a blank. -/
structure Tight (cs : List Char) : Prop where
  first : ∀ c ∈ cs.head?, isBlank c = false
  last : ∀ c ∈ cs.getLast?, isBlank c = false

theorem skipBlanks_first (cs : List Char) : ∀ c ∈ (skipBlanks cs).head?, isBlank c = false := by
  intro c hc
  have := List.head?_dropWhile_not isBlank cs
  rw [← skipBlanks, Option.mem_def.1 hc] at this
  exact this

theorem skipBlanks_eq_self {cs : List Char} (h : ∀ c ∈ cs.head?, isBlank c = false) :
    skipBlanks cs = cs := by
  cases cs with
  | nil => rfl
  | cons c cs => simp [skipBlanks, h c rfl]

theorem Tight.trim {cs : List Char} (h : Tight cs) : trimBlanks cs = cs := by
  rw [trimBlanks, skipBlanks_eq_self h.first, skipBlanks_eq_self, List.reverse_reverse]
  simpa using h.last

theorem tight_trimBlanks (cs : List Char) : Tight (trimBlanks cs) where
  first := by
    intro c hc
    obtain ⟨back, -, hrev⟩ := skipBlanks_split (skipBlanks cs).reverse
    refine skipBlanks_first cs c ?_
    have hcs := congrArg List.reverse hrev
    rw [List.reverse_reverse, List.reverse_append, ← trimBlanks] at hcs
    rw [hcs, List.head?_append, Option.mem_def.1 hc]
    rfl
  last := by
    intro c hc
    rw [trimBlanks, List.getLast?_reverse] at hc
    exact skipBlanks_first _ c hc

end BracketQuery.Text

namespace BracketQuery.Sql
open Text (isBlank trimBlanks)

theorem ne_of_test {p : Char → Bool} {c d : Char} (h : p c = true) (hd : p d = false) : c ≠ d := by
  rintro rfl
  simp [h] at hd

def quoteNext (quote : Option Char) (c : Char) : Option Char :=
  match quote with
  | some q => if c = q then none else some q
  | none => if Token.isQuote c then some c else none

/-- How many parentheses are open at a place, and the quote that ends the literal around it. -/
@[ext] structure Level where
  depth : Nat := 0
  quote : Option Char := none
deriving DecidableEq

namespace Level

def next (l : Level) (c : Char) : Level where
  depth :=
    if l.quote.isSome then l.depth
    else if c = '(' then l.depth + 1
    else if c = ')' then l.depth - 1
    else l.depth
  quote := quoteNext l.quote c

def after (l : Level) (cs : List Char) : Level := cs.foldl next l

/-- The character is a comma that separates two arguments. -/
def cuts (l : Level) (c : Char) : Bool := c = ',' && l = {}

def uncut (l : Level) : List Char → Bool
  | [] => true
  | c :: cs => !l.cuts c && (l.next c).uncut cs

@[simp] theorem next_open (depth : Nat) : next ⟨depth, none⟩ '(' = ⟨depth + 1, none⟩ := rfl
@[simp] theorem next_close (depth : Nat) : next ⟨depth, none⟩ ')' = ⟨depth - 1, none⟩ := rfl

theorem next_inside (depth : Nat) (q c : Char) :
    next ⟨depth, some q⟩ c = ⟨depth, quoteNext (some q) c⟩ := rfl

theorem next_quote {c : Char} (h : Token.isQuote c = true) (depth : Nat) :
    next ⟨depth, none⟩ c = ⟨depth, some c⟩ := by
  have h1 : c ≠ '(' := ne_of_test h (by decide)
  have h2 : c ≠ ')' := ne_of_test h (by decide)
  simp [next, quoteNext, h, h1, h2]

theorem next_other {c : Char} (h : Token.isQuote c = false) (h1 : c ≠ '(') (h2 : c ≠ ')')
    (depth : Nat) : next ⟨depth, none⟩ c = ⟨depth, none⟩ := by
  simp [next, quoteNext, h, h1, h2]

theorem next_letter {c : Char} (h : Token.isWordChar c = true) (depth : Nat) :
    next ⟨depth, none⟩ c = ⟨depth, none⟩ := by
  have hquote : Token.isQuote c = false := by
    have h1 : c ≠ '\x27' := ne_of_test h (by decide)
    have h2 : c ≠ '\x22' := ne_of_test h (by decide)
    simp [Token.isQuote, h1, h2]
  exact next_other hquote (ne_of_test h (by decide)) (ne_of_test h (by decide)) depth

@[simp] theorem after_nil (l : Level) : l.after [] = l := rfl
@[simp] theorem after_cons (l : Level) (c : Char) (cs : List Char) :
    l.after (c :: cs) = (l.next c).after cs := rfl
@[simp] theorem after_append (l : Level) (cs ds : List Char) :
    l.after (cs ++ ds) = (l.after cs).after ds := List.foldl_append

@[simp] theorem uncut_nil (l : Level) : l.uncut [] = true := rfl
@[simp] theorem uncut_cons (l : Level) (c : Char) (cs : List Char) :
    l.uncut (c :: cs) = (!l.cuts c && (l.next c).uncut cs) := rfl
@[simp] theorem uncut_append (l : Level) (cs ds : List Char) :
    l.uncut (cs ++ ds) = (l.uncut cs && (l.after cs).uncut ds) := by
  induction cs generalizing l with
  | nil => rfl
  | cons c cs ih => simp [ih, Bool.and_assoc]

end Level

theorem argumentsFrom_cons (part : List Char) (l : Level) (c : Char) (cs : List Char) :
    argumentsFrom part l.depth l.quote (c :: cs) =
      if l.cuts c then trimBlanks part.reverse :: arguments cs
      else argumentsFrom (c :: part) (l.next c).depth (l.next c).quote cs := by
  obtain ⟨depth, quote⟩ := l
  cases quote with
  | some q => simp [argumentsFrom, Level.cuts, Level.next_inside, quoteNext]
  | none =>
    simp only [argumentsFrom]
    split
    · rename_i hq
      have hc : c ≠ ',' := ne_of_test hq (by decide)
      simp [hc, Level.cuts, Level.next_quote hq]
    split
    · simp_all [Level.cuts]
    split
    · simp_all [Level.cuts]
    · rename_i hq h1 h2
      simp [Level.cuts, arguments, Level.next_other (Bool.eq_false_iff.2 hq) h1 h2]

theorem argumentsFrom_uncut {l : Level} {cs : List Char} (h : l.uncut cs = true)
    (part rest : List Char) : argumentsFrom part l.depth l.quote (cs ++ rest) =
      argumentsFrom (cs.reverse ++ part) (l.after cs).depth (l.after cs).quote rest := by
  induction cs generalizing l part with
  | nil => rfl
  | cons c cs ih =>
    simp only [Level.uncut_cons, Bool.and_eq_true, Bool.not_eq_true'] at h
    simp [argumentsFrom_cons, h.1, ih h.2]

theorem mem_intercalate_iff {c : Char} {sep : List Char} {ps : List (List Char)} :
    c ∈ sep.intercalate ps ↔ (∃ p ∈ ps, c ∈ p) ∨ (1 < ps.length ∧ c ∈ sep) := by
  induction ps with
  | nil => simp
  | cons p ps ih =>
    cases ps with
    | nil => simp
    | cons q ps =>
      rw [List.intercalate_cons_of_ne_nil (by simp), List.mem_append, List.mem_append, ih]
      by_cases hc : c ∈ sep <;> simp [hc]

theorem intercalate_of_append {P : List Char → Prop} (nil : P [])
    (append : ∀ cs ds, P cs → P ds → P (cs ++ ds)) {sep : List Char} (hsep : P sep)
    {ps : List (List Char)} (h : ∀ p ∈ ps, P p) : P (sep.intercalate ps) := by
  induction ps with
  | nil => exact nil
  | cons p ps ih =>
    cases ps with
    | nil => simpa using h p (by simp)
    | cons q ps =>
      rw [List.intercalate_cons_of_ne_nil (by simp)]
      exact append _ _ (append _ _ (h p (by simp)) hsep) (ih fun r hr => h r (by simp [hr]))

/-- What stands between the commas that cut. Only the last piece can leave something open. -/
structure Pieces (ps : List (List Char)) : Prop where
  ne_nil : ps ≠ []
  uncut : ∀ p ∈ ps, ({} : Level).uncut p = true
  closed : ∀ p ∈ ps.dropLast, ({} : Level).after p = {}

theorem Pieces.cons {p : List Char} {ps : List (List Char)} (hp : ({} : Level).uncut p = true)
    (hclosed : ({} : Level).after p = {}) (h : Pieces ps) : Pieces (p :: ps) where
  ne_nil := by simp
  uncut := by simpa [hp] using h.uncut
  closed := by simpa [List.dropLast_cons_of_ne_nil h.ne_nil, hclosed] using h.closed

theorem Pieces.tail {p q : List Char} {ps : List (List Char)} (h : Pieces (p :: q :: ps)) :
    Pieces (q :: ps) where
  ne_nil := by simp
  uncut := fun r hr => h.uncut r (List.mem_cons_of_mem _ hr)
  closed := fun r hr => h.closed r (by simp [hr])

theorem exists_pieces_append (part : List Char) (h : ({} : Level).uncut part = true)
    (cs : List Char) : ∃ ps, Pieces ps ∧ [','].intercalate ps = part ++ cs := by
  induction cs generalizing part with
  | nil => exact ⟨[part], ⟨by simp, by simpa using h, by simp⟩, by simp⟩
  | cons c cs ih =>
    by_cases hcut : (({} : Level).after part).cuts c = true
    · obtain ⟨rfl, hlevel⟩ : c = ',' ∧ ({} : Level).after part = {} := by
        simpa [Level.cuts] using hcut
      obtain ⟨ps, hps, hjoin⟩ := ih [] rfl
      refine ⟨part :: ps, hps.cons h hlevel, ?_⟩
      rw [List.intercalate_cons_of_ne_nil hps.ne_nil, hjoin]
      simp
    · obtain ⟨ps, hps, hjoin⟩ := ih (part ++ [c]) (by simp [h, hcut])
      exact ⟨ps, hps, by simp [hjoin]⟩

theorem exists_pieces (cs : List Char) : ∃ ps, Pieces ps ∧ [','].intercalate ps = cs :=
  exists_pieces_append [] rfl cs

/- Blanks. -/

/-- The text without its blanks. -/
def ink (cs : List Char) : List Char := cs.filter (!isBlank ·)

@[simp] theorem ink_append (cs ds : List Char) : ink (cs ++ ds) = ink cs ++ ink ds :=
  List.filter_append ..

theorem ink_cons {c : Char} (h : isBlank c = false) (cs : List Char) :
    ink (c :: cs) = c :: ink cs := by
  simp [ink, h]

theorem ink_of_blanks {cs : List Char} (h : ∀ c ∈ cs, isBlank c = true) : ink cs = [] := by
  simpa [ink] using h

theorem ink_trimBlanks (cs : List Char) : ink (trimBlanks cs) = ink cs := by
  obtain ⟨front, back, hfront, hback, hcs⟩ := Text.trimBlanks_split cs
  have h := congrArg ink hcs
  simp only [ink_append, ink_of_blanks hfront, ink_of_blanks hback, List.nil_append,
    List.append_nil] at h
  exact h.symm

namespace Level

/-- A literal is ended by a quote. -/
def Sound (l : Level) : Prop := ∀ q ∈ l.quote, Token.isQuote q = true

theorem Sound.outside (depth : Nat) : Sound ⟨depth, none⟩ := by simp [Sound]

theorem Sound.next {l : Level} (h : l.Sound) (c : Char) : (l.next c).Sound := by
  obtain ⟨depth, quote⟩ := l
  cases quote with
  | some q =>
    have hq : Token.isQuote q = true := h q rfl
    by_cases hc : c = q <;> simp [Sound, Level.next, quoteNext, hc, hq]
  | none => by_cases hc : Token.isQuote c = true <;> simp [Sound, Level.next, quoteNext, hc]

theorem Sound.after {l : Level} (h : l.Sound) (cs : List Char) : (l.after cs).Sound := by
  induction cs generalizing l with
  | nil => exact h
  | cons c cs ih => exact ih (h.next c)

theorem next_blank {l : Level} (h : l.Sound) {c : Char} (hc : isBlank c = true) : l.next c = l := by
  obtain ⟨depth, quote⟩ := l
  have hquote : Token.isQuote c = false := Token.isQuote_of_isBlank hc
  have h1 : c ≠ '(' := ne_of_test hc (by decide)
  have h2 : c ≠ ')' := ne_of_test hc (by decide)
  cases quote with
  | none => exact next_other hquote h1 h2 depth
  | some q =>
    have hq : Token.isQuote q = true := h q rfl
    have hne : c ≠ q := (ne_of_test hq hquote).symm
    simp [Level.next, quoteNext, hne]

theorem cuts_blank (l : Level) {c : Char} (hc : isBlank c = true) : l.cuts c = false := by
  have h : c ≠ ',' := ne_of_test hc (by decide)
  simp [cuts, h]

theorem after_ink {l : Level} (h : l.Sound) (cs : List Char) : l.after (ink cs) = l.after cs := by
  induction cs generalizing l with
  | nil => rfl
  | cons c cs ih =>
    by_cases hc : isBlank c = true
    · simpa [ink, hc, next_blank h hc] using ih h
    · simpa [ink, hc] using ih (h.next c)

theorem uncut_ink {l : Level} (h : l.Sound) (cs : List Char) : l.uncut (ink cs) = l.uncut cs := by
  induction cs generalizing l with
  | nil => rfl
  | cons c cs ih =>
    by_cases hc : isBlank c = true
    · simpa [ink, hc, next_blank h hc, cuts_blank l hc] using ih h
    · simpa [ink, hc] using congrArg (!l.cuts c && ·) (ih (h.next c))

end Level

theorem argumentsFrom_blanks {gap : List Char} (hgap : ∀ c ∈ gap, isBlank c = true)
    (cs : List Char) :
    argumentsFrom [] 0 none (gap ++ cs) = argumentsFrom gap.reverse 0 none cs := by
  have hink := ink_of_blanks hgap
  have huncut : ({} : Level).uncut gap = true := by
    rw [← Level.uncut_ink (.outside 0), hink]
    rfl
  have hafter : ({} : Level).after gap = {} := by
    rw [← Level.after_ink (.outside 0), hink]
    rfl
  have h := argumentsFrom_uncut huncut [] cs
  rw [hafter] at h
  simpa using h

theorem Pieces.argumentsFrom {ps : List (List Char)} (h : Pieces ps) {gap : List Char}
    (hgap : ∀ c ∈ gap, isBlank c = true) (lead : List Char) (hlead : ∀ c ∈ lead, isBlank c = true) :
    argumentsFrom lead.reverse 0 none ((',' :: gap).intercalate ps) = ps.map trimBlanks := by
  induction ps generalizing lead with
  | nil => exact absurd rfl h.ne_nil
  | cons p ps ih =>
    have huncut := h.uncut p (by simp)
    cases ps with
    | nil =>
      have hp := argumentsFrom_uncut huncut lead.reverse []
      simp only [List.append_nil] at hp
      simp [hp, Sql.argumentsFrom, Text.trimBlanks_append hlead]
    | cons q ps =>
      have hclosed : ({} : Level).after p = {} := h.closed p (by simp)
      rw [List.intercalate_cons_of_ne_nil (by simp), List.append_assoc,
        argumentsFrom_uncut huncut lead.reverse, hclosed, List.cons_append, argumentsFrom_cons,
        if_pos (by decide), arguments, argumentsFrom_blanks hgap, ih h.tail gap hgap]
      simp [Text.trimBlanks_append hlead]

/-- The arguments are the trimmed pieces, however the commas are spaced. -/
theorem Pieces.arguments {ps : List (List Char)} (h : Pieces ps) {gap : List Char}
    (hgap : ∀ c ∈ gap, isBlank c = true) :
    arguments ((',' :: gap).intercalate ps) = ps.map trimBlanks :=
  h.argumentsFrom hgap [] (by simp)

theorem isBlank_space : ∀ c ∈ [' '], isBlank c = true := List.all_eq_true.1 (by decide)

theorem arguments_eq {ps : List (List Char)} (h : Pieces ps) :
    arguments ([','].intercalate ps) = ps.map trimBlanks :=
  h.arguments (by simp)

def isNameChar (c : Char) : Bool := Text.isAlphanumeric c || c = '_'

/- How a text is qualified. -/

theorem ne_paren {name : List Char} (h : '(' ∉ name) : ∀ c ∈ name, (c != '(') = true := by
  intro c hc
  rw [bne_iff_ne]
  rintro rfl
  exact h hc

theorem call?_eq_some_iff {cs name args : List Char} : call? cs = some (name, args) ↔
    cs = name ++ '(' :: (args ++ [')']) ∧ name ≠ [] ∧ '(' ∉ name := by
  constructor
  · intro h
    have hcs := (List.takeWhile_append_dropWhile (p := (· != '(')) (l := cs)).symm
    unfold call? at h
    split at h
    · cases h
    · rename_i c rest hd
      split at h
      · rename_i hends
        simp only [Bool.and_eq_true, bne_iff_ne, ne_eq, beq_iff_eq] at hends
        simp only [Option.some.injEq, Prod.mk.injEq] at h
        have hc : c = '(' := by
          have := List.head?_dropWhile_not (· != '(') cs
          simpa [hd] using this
        have hrest : rest.dropLast ++ [')'] = rest := by
          obtain ⟨front, rfl⟩ := List.getLast?_eq_some_iff.1 hends.2
          simp
        have hname : '(' ∉ name := by
          intro hmem
          have hall := List.all_eq_true.1 (List.all_takeWhile (p := (· != '(')) (l := cs))
          simpa using hall '(' (h.1 ▸ hmem)
        subst hc
        rw [hd, h.1, ← hrest, h.2] at hcs
        refine ⟨hcs, ?_, hname⟩
        rintro rfl
        simp [hcs] at hends
      · cases h
  · rintro ⟨rfl, hne, hname⟩
    have htake := ne_paren hname
    rw [call?, List.dropWhile_append_of_pos htake, List.takeWhile_append_of_pos htake]
    cases name with
    | nil => exact absurd rfl hne
    | cons c name =>
      have hc : c ≠ '(' := by simpa using htake c
      simp [hc]

def qualifiedArgument (scope a : List Char) : List Char :=
  if a.isEmpty || a.any isBlank then a else qualifiedText scope a

variable (scope : List Char) {cs name args : List Char}

theorem qualifiedText_literal (hl : isLiteralText cs = true) : qualifiedText scope cs = cs := by
  rw [qualifiedText, if_pos hl]

theorem qualifiedText_name (hl : isLiteralText cs = false) (hc : call? cs = none) :
    qualifiedText scope cs = scope ++ '.' :: cs := by
  rw [qualifiedText, if_neg (Bool.eq_false_iff.1 hl)]
  split <;> simp_all

theorem qualifiedText_call (hl : isLiteralText cs = false) (hc : call? cs = some (name, args)) :
    qualifiedText scope cs = name ++ '(' ::
      ([',', ' '].intercalate ((arguments args).map (qualifiedArgument scope)) ++ [')']) := by
  rw [qualifiedText, if_neg (Bool.eq_false_iff.1 hl)]
  split
  · simp_all
  · rename_i name' args' hcall
    obtain ⟨rfl, rfl⟩ : name' = name ∧ args' = args := by simpa [hc, eq_comm] using hcall
    have hmap : (arguments args').attach.map (fun x => qualifiedArgument scope x.1) =
        (arguments args').map (qualifiedArgument scope) := by simp
    rw [← hmap]
    simp [qualifiedArgument]

/-- What is so of literals and names, and of calls if it is so of their arguments, is so of every
text. -/
theorem qualified_induction {motive : List Char → Prop}
    (literal : ∀ cs, isLiteralText cs = true → motive cs)
    (name : ∀ cs, isLiteralText cs = false → call? cs = none → motive cs)
    (call : ∀ cs name args, isLiteralText cs = false → call? cs = some (name, args) →
      (∀ a ∈ arguments args, motive a) → motive cs) (cs : List Char) : motive cs := by
  cases hl : isLiteralText cs with
  | true => exact literal cs hl
  | false =>
    match hc : call? cs with
    | none => exact name cs hl hc
    | some (f, args) =>
      refine call cs f args hl hc fun a ha => ?_
      have := arguments_length hc ha
      exact qualified_induction literal name call a
termination_by cs.length

end BracketQuery.Sql
