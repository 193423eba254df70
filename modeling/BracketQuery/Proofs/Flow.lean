import BracketQuery.Proofs.Layout
import BracketQuery.Proofs.Unscan

/-! Texts that are put together from pieces, in lines of any length. A piece gives its tokens before
every text that does not run into it, so texts flow together as their tokens do. -/
namespace BracketQuery.Token

def LineGives (l : List Char) (ts : List Token) : Prop :=
  ∀ number width, lineFrom number width l = .ok ts

/-- The tokens of lines, without the line marks. -/
inductive Gives : List (List Char) → List Token → Prop
  | nil : Gives [] []
  | cons {l : List Char} {ls : List (List Char)} {ts us : List Token} (h : LineGives l ts)
      (h' : Gives ls us) : Gives (l :: ls) (ts ++ us)

def Flows (cs : List Char) (ts : List Token) : Prop := Gives (Text.lines cs) ts

theorem significant_joinLines (first rest : List Token) :
    significant (joinLines first rest) = significant first ++ significant rest := by
  unfold joinLines
  split
  · simp_all [significant]
  split
  · simp_all [significant]
  · simp [significant]

theorem significant_of_ne_newline {ts : List Token} (h : .newline ∉ ts) : significant ts = ts := by
  refine List.filter_eq_self.2 fun t ht => ?_
  have hne : t ≠ .newline := fun he => h (he ▸ ht)
  simpa using hne

theorem Gives.linesFrom {ls : List (List Char)} {ts : List Token} (h : Gives ls ts)
    (number : Nat) : ∃ us, Token.linesFrom number ls = .ok us ∧ significant us = ts := by
  induction h generalizing number with
  | nil => exact ⟨[], rfl, rfl⟩
  | @cons l ls ts us h h' ih =>
    obtain ⟨vs, hvs, hsig⟩ := ih (number + 1)
    have hline : line number l = .ok ts := h number l.length
    refine ⟨joinLines ts vs, ?_, ?_⟩
    · rw [Token.linesFrom, hline, hvs]
      rfl
    · rw [significant_joinLines, hsig, significant_of_ne_newline (lineFrom_ne_newline hline)]

theorem Flows.scan {text : String} {ts : List Token} (h : Flows text.toList ts) :
    ∃ us, Token.scan text = .ok us ∧ significant us = ts := h.linesFrom 1

/- The first line of a text. -/

theorem lineGives_nil : LineGives [] [] := fun _ _ => lineFrom_nil _ _ rfl

theorem flows_iff {cs : List Char} {ts : List Token} : Flows cs ts ↔
    ∃ first rest, LineGives (firstLine cs) first ∧ Gives (otherLines cs) rest ∧
      ts = first ++ rest := by
  unfold Flows firstLine otherLines
  constructor
  · intro h
    generalize Text.lines cs = ls at h
    cases h with
    | nil => exact ⟨[], [], lineGives_nil, .nil, rfl⟩
    | cons h h' => exact ⟨_, _, h, h', rfl⟩
  · rintro ⟨first, rest, hfirst, hrest, rfl⟩
    cases hl : Text.lines cs with
    | nil =>
      rw [hl] at hfirst hrest
      cases hrest
      have hnil := (hfirst 1 0).symm.trans (lineGives_nil 1 0)
      cases hnil
      exact .nil
    | cons l ls =>
      rw [hl] at hfirst hrest
      exact .cons hfirst hrest

theorem firstLine_head (cs : List Char) :
    (firstLine cs).head? = none ∨ (firstLine cs).head? = cs.head? := by
  cases cs with
  | nil => exact .inl rfl
  | cons c cs =>
    by_cases hc : c = '\n'
    · subst hc
      exact .inl (by rw [firstLine, lines_feed]; rfl)
    by_cases hr : c = '\r' ∧ ∃ ds, cs = '\n' :: ds
    · obtain ⟨rfl, ds, rfl⟩ := hr
      exact .inl (by rw [firstLine, lines_return_feed]; rfl)
    · refine .inr ?_
      rw [firstLine, lines_cons hc fun he ds hd => hr ⟨he, ds, hd⟩]
      rfl

theorem StopsWord.firstLine {cs : List Char} (h : StopsWord cs) : StopsWord (firstLine cs) := by
  unfold StopsWord
  rcases firstLine_head cs with hn | hs
  · rw [hn]
    rfl
  · rw [hs]
    exact h

theorem EndsWord.firstLine {cs : List Char} (h : EndsWord cs) : EndsWord (firstLine cs) := by
  unfold EndsWord
  rcases firstLine_head cs with hn | hs
  · rw [hn]
    rfl
  · rw [hs]
    exact h

/- One token before a text. -/

theorem IsTest.isSign {w : List Char} (h : IsTest w) : IsSign w := by
  cases h with
  | is his => exact .is his
  | isNot his hnot => exact .isNot his hnot

namespace Flows

variable {w next : List Char} {ts us : List Token}

theorem nil : Flows [] [] := Gives.nil

theorem blank {b : Char} (hb : Text.isBlank b = true) (h : Flows next us) :
    Flows (b :: next) us := by
  by_cases hfeed : b = '\n'
  · subst hfeed
    rw [Flows, lines_feed]
    exact .cons lineGives_nil h
  by_cases hreturn : b = '\r' ∧ ∃ ds, next = '\n' :: ds
  · obtain ⟨rfl, ds, rfl⟩ := hreturn
    rwa [Flows, lines_return_feed, ← lines_feed]
  · obtain ⟨first, rest, hfirst, hrest, rfl⟩ := flows_iff.1 h
    rw [Flows, lines_cons hfeed fun he ds hd => hreturn ⟨he, ds, hd⟩]
    refine .cons (fun number width => ?_) hrest
    rw [lineFrom_blank number width hb]
    exact hfirst number width

theorem step (ts : List Token) (hw : Compact w) (h : Flows next us)
    (hline : ∀ number width, lineFrom number width (w ++ firstLine next) =
      (ts ++ ·) <$> lineFrom number width (firstLine next)) : Flows (w ++ next) (ts ++ us) := by
  obtain ⟨first, rest, hfirst, hrest, rfl⟩ := flows_iff.1 h
  rw [Flows, lines_compact hw, ← List.append_assoc]
  refine .cons (fun number width => ?_) hrest
  rw [hline, hfirst number width]
  rfl

theorem word (hw : IsWord w) (hn : StopsWord next)
    (hcalm : folded w = "is".toList →
      ∀ c ∈ (Text.skipBlanks (firstLine next)).head?, c.toLower ≠ 'n')
    (h : Flows next us) : Flows (w ++ next) (.word (String.ofList w) :: us) :=
  h.step [.word (String.ofList w)] hw.compact fun number width =>
    lineFrom_word number width hw hn.firstLine (nullTest?_none hw hn.firstLine hcalm)

theorem single {c : Char} (hc : isSymbolChar c = true) (hd : c ∉ ['<', '!', '>'])
    (h : Flows next us) : Flows (c :: next) (.symbol (String.ofList [c]) :: us) :=
  h.step (w := [c]) [.symbol (String.ofList [c])] (compact_of_isSymbolChar hc)
    fun number width => lineFrom_single number width hc (doubleSign?_none hd _)

theorem sign (hs : IsSign w) (hw : ¬ IsTest w) (hn : EndsWord next) (h : Flows next us) :
    Flows (w ++ next) (.symbol (String.ofList w) :: us) := by
  have hcompact := hs.compact
  refine h.step [.symbol (String.ofList w)] hcompact fun number width => ?_
  cases hs with
  | single hc => exact lineFrom_single number width hc (doubleSign?_of_endsWord _ hn.firstLine)
  | double hd => exact lineFrom_double number width hd hn.firstLine
  | is his => exact absurd (.is his) hw
  | isNot his hnot => exact absurd (.isNot his hnot) hw

theorem test {null : List Char} (hw : IsTest w) (hnull : folded null = "null".toList)
    (hn : StopsWord next) (h : Flows next us) : Flows (w ++ ' ' :: (null ++ next))
      (.symbol (String.ofList w) :: .word (String.ofList null) :: us) := by
  have hletters := isWordChar_of_folded (by decide) hnull
  have hne : null ≠ [] := by
    rintro rfl
    exact absurd hnull (by decide)
  have hfront : '\n' ∉ w ++ [' '] := by simp [hw.isSign.compact.oneLine]
  have hcompact : Compact (w ++ ' ' :: null) := by
    simpa using (compact_of_letters hne hletters).append hfront
  have hlast : (firstLine next).head?.any isWordChar = false := by
    have hf := hn.firstLine
    cases hl : firstLine next with
    | nil => rfl
    | cons c l => simp_all [StopsWord]
  have hstep := h.step [.symbol (String.ofList w), .word (String.ofList null)] hcompact
    fun number width => by
      have htest := lineFrom_test number width (hw.nullTest? hnull hlast)
      simpa using htest
  simpa using hstep

end Flows

/- Indentation. -/

theorem indentInner_head (cs next : List Char) :
    (Text.indentInner cs ++ next).head? = (cs ++ next).head? := by
  cases cs with
  | nil => rfl
  | cons c cs =>
    unfold Text.indentInner
    split <;> rfl

/-- The blanks that move a line to the right stand at its start. The first line stays. -/
theorem indentInner_lines (cs next : List Char) :
    firstLine (Text.indentInner cs ++ next) = firstLine (cs ++ next) ∧
      ∀ ts, Gives (otherLines (cs ++ next)) ts →
        Gives (otherLines (Text.indentInner cs ++ next)) ts := by
  induction cs with
  | nil => exact ⟨rfl, fun _ => id⟩
  | cons c cs ih =>
    have hblank : Text.isBlank ' ' = true := by decide
    have hflows : ∀ ts, Flows (cs ++ next) ts → Flows (Text.indentInner cs ++ next) ts := by
      intro ts h
      obtain ⟨first, rest, hfirst, hrest, rfl⟩ := flows_iff.1 h
      exact flows_iff.2 ⟨first, rest, ih.1 ▸ hfirst, ih.2 rest hrest, rfl⟩
    by_cases hc : c = '\n'
    · subst hc
      unfold Text.indentInner
      split
      · refine ⟨by simp [firstLine, lines_feed], fun ts h => ?_⟩
        rw [List.cons_append, otherLines, lines_feed, List.tail_cons] at h ⊢
        exact ((hflows ts h).blank hblank).blank hblank
      · refine ⟨by simp [firstLine, lines_feed], fun ts h => ?_⟩
        rw [List.cons_append, otherLines, lines_feed, List.tail_cons] at h ⊢
        exact hflows ts h
    have hindent : Text.indentInner (c :: cs) = c :: Text.indentInner cs := by
      simp [Text.indentInner, hc]
    rw [hindent, List.cons_append, List.cons_append]
    by_cases hr : c = '\r' ∧ ∃ ds, cs ++ next = '\n' :: ds
    · obtain ⟨rfl, ds, hds⟩ := hr
      have hhead := indentInner_head cs next
      rw [hds] at hhead
      obtain ⟨es, hes⟩ := List.head?_eq_some_iff.1 hhead
      rw [hds, hes] at ih ⊢
      simpa only [firstLine, otherLines, lines_return_feed, lines_feed] using ih
    · have hr' : c = '\r' → ∀ ds, Text.indentInner cs ++ next ≠ '\n' :: ds := by
        intro he ds hds
        have hhead := indentInner_head cs next
        rw [hds] at hhead
        obtain ⟨es, hes⟩ := List.head?_eq_some_iff.1 hhead.symm
        exact hr ⟨he, es, hes⟩
      have hl := lines_cons hc fun he ds hd => hr ⟨he, ds, hd⟩
      have hl' := lines_cons hc hr'
      rw [firstLine, otherLines, otherLines, firstLine, hl, hl']
      exact ⟨congrArg (c :: ·) ih.1, ih.2⟩

theorem Flows.indentInner {cs next : List Char} {ts : List Token} (h : Flows (cs ++ next) ts) :
    Flows (Text.indentInner cs ++ next) ts := by
  obtain ⟨hline, hothers⟩ := indentInner_lines cs next
  obtain ⟨first, rest, hfirst, hrest, rfl⟩ := flows_iff.1 h
  exact flows_iff.2 ⟨first, rest, hline ▸ hfirst, hothers rest hrest, rfl⟩

/- Pieces of a text. -/

/-- The piece gives the tokens before every text that has the property. -/
def Before (P : List Char → Prop) (piece : String) (ts : List Token) : Prop :=
  ∀ next us, P next → Flows next us → Flows (piece.toList ++ next) (ts ++ us)

def Anything (_ : List Char) : Prop := True

/-- A text that may follow any word: it stops the word, and if the word is `is`, it makes no test
for null of it. -/
structure EndsName (cs : List Char) : Prop where
  stops : StopsWord cs
  calm : ∀ c ∈ (Text.skipBlanks (firstLine cs)).head?, c.toLower ≠ 'n'

theorem stopsWord_blank {b : Char} (hb : Text.isBlank b = true) (cs : List Char) :
    StopsWord (b :: cs) :=
  EndsWord.stops (by simpa [EndsWord] using hb)

theorem stopsWord_gap {gap : String} (hgap : isGap gap = true) (hne : gap ≠ "") (cs : List Char) :
    StopsWord (gap.toList ++ cs) := by
  have hall : ∀ c ∈ gap.toList, Text.isBlank c = true := by simpa [isGap] using hgap
  obtain ⟨c, rest, hc⟩ := List.exists_cons_of_ne_nil (by simpa using hne : gap.toList ≠ [])
  rw [hc]
  exact stopsWord_blank (hall c (by simp [hc])) _

theorem endsName_feed (cs : List Char) : EndsName ('\n' :: cs) :=
  ⟨stopsWord_blank (by decide) cs, by simp [firstLine, lines_feed, Text.skipBlanks]⟩

namespace Before

variable {P Q : List Char → Prop} {s t : String} {ts us : List Token}

theorem mono (h : Before P s ts) (hPQ : ∀ cs, Q cs → P cs) : Before Q s ts :=
  fun next us hn hf => h next us (hPQ next hn) hf

theorem empty : Before P "" [] := fun _ _ _ h => h

theorem append_of (h : Before P s ts) (h' : Before Q t us)
    (hQ : ∀ next, Q next → P (t.toList ++ next)) : Before Q (s ++ t) (ts ++ us) := by
  intro next vs hn hf
  rw [String.toList_append, List.append_assoc, List.append_assoc]
  exact h _ _ (hQ next hn) (h' next vs hn hf)

theorem append (h : Before Anything s ts) (h' : Before Q t us) : Before Q (s ++ t) (ts ++ us) :=
  h.append_of h' fun _ _ => trivial

theorem gap (hs : isGap s = true) : Before P s [] := by
  intro next us _ h
  have hall : ∀ c ∈ s.toList, Text.isBlank c = true := by simpa [isGap] using hs
  rw [List.nil_append]
  generalize s.toList = cs at hall
  induction cs with
  | nil => exact h
  | cons c cs ih =>
    rw [List.forall_mem_cons] at hall
    exact (ih hall.2).blank hall.1

theorem apart (h : Before StopsWord s ts) (ht : isGap t = true) (hne : t ≠ "") :
    Before Anything (s ++ t) ts := by
  have hs := h.append_of (gap (P := Anything) ht) fun next _ => stopsWord_gap ht hne next
  rwa [List.append_nil] at hs

theorem blank (h : Before StopsWord s ts) : Before Anything (s ++ " ") ts :=
  h.apart (by decide) (by decide)

theorem word (hw : IsWord s.toList) (his : folded s.toList ≠ "is".toList) :
    Before StopsWord s [.word s] := by
  intro next us hn hf
  have h := hf.word hw hn fun he => absurd he his
  rwa [String.ofList_toList] at h

theorem name (hw : IsWord s.toList) : Before EndsName s [.word s] := by
  intro next us hn hf
  have h := hf.word hw hn.stops fun _ => hn.calm
  rwa [String.ofList_toList] at h

theorem openParen : Before P "(" [.symbol "("] :=
  fun _ _ _ h => h.single (by decide) (by decide)

theorem closeParen : Before P ")" [.symbol ")"] :=
  fun _ _ _ h => h.single (by decide) (by decide)

theorem comma : Before P "," [.symbol ","] :=
  fun _ _ _ h => h.single (by decide) (by decide)

theorem indent (h : Before P s ts) : Before P (Text.indent s) ts := by
  intro next us hn hf
  rw [Text.indent, String.toList_ofList]
  exact (h next us hn hf).indentInner

theorem paren (h : Before StopsWord s ts) :
    Before P ("(" ++ s ++ ")") (.symbol "(" :: ts ++ [.symbol ")"]) := by
  refine append_of (append openParen h) closeParen fun next _ => ?_
  show (!isWordChar ')' && !isQuote ')' && ')' != '(') = true
  decide

end Before

end BracketQuery.Token
