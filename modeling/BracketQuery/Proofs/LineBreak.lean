import BracketQuery.Proofs.LineCut
import BracketQuery.Proofs.LineMarks
import BracketQuery.Proofs.Unparse

/-! Line breaks. Where a blank stands between two tokens of a line, a line feed may stand instead:
the two parts of the line have the tokens of the whole. Only a test for null does not survive it,
since it is looked for within one line. -/
namespace BracketQuery.Token
open Text (isBlank skipBlanks)

/- Places within a line. -/

/-- The line has a front part and a back part. After some tokens, all of them in the front part,
what is left of it has the property. -/
inductive PastTokens (P : List Char → Prop) (back : List Char) : List Char → Prop
  | here {front : List Char} (h : P front) : PastTokens P back front
  | token {front r left : List Char} {c : Char} {ts : List Token}
      (hskip : skipBlanks front = c :: r) (hhead : head c (r ++ back) = .ok (ts, left ++ back))
      (h : PastTokens P back left) : PastTokens P back front

/-- The back part starts between two tokens. -/
def Between (back front : List Char) : Prop :=
  PastTokens (fun left => left.all isBlank = true) back front

/-- The back part starts between the operator of a test for null and the word `null`. -/
def BeforeNull (back front : List Char) : Prop :=
  PastTokens (fun left => ∃ test gap, nullTest? (skipBlanks (left ++ back)) = some test ∧
    gap.all isBlank = true ∧ back = gap ++ (test.null ++ test.rest)) back front

theorem skipBlanks_gap {gap : List Char} (hgap : gap.all isBlank = true) {c : Char}
    (hc : isBlank c = false) (cs : List Char) : skipBlanks (gap ++ c :: cs) = c :: cs := by
  rw [Text.skipBlanks_append (List.all_eq_true.1 hgap)]
  simp [skipBlanks, hc]

theorem lineFrom_skipBlanks (number width : Nat) (cs : List Char) :
    lineFrom number width (skipBlanks cs) = lineFrom number width cs := by
  induction cs with
  | nil => rfl
  | cons c cs ih =>
    by_cases hc : isBlank c = true
    · rw [lineFrom_blank _ _ hc, ← ih]
      simp [skipBlanks, hc]
    · simp [skipBlanks, hc]

theorem PastTokens.lineFrom {P : List Char → Prop} {b : Char} {next front : List Char}
    (hb : isBlank b = true) (h : PastTokens P (b :: next) front) :
    ∃ us left, P left ∧ ∀ number width,
      Token.lineFrom number width (front ++ b :: next) =
        (us ++ ·) <$> Token.lineFrom number width (left ++ b :: next) ∧
      Token.lineFrom number width front = (us ++ ·) <$> Token.lineFrom number width left := by
  induction h with
  | @here front h => exact ⟨[], front, h, fun number width => by simp⟩
  | @token front r rest c ts hskip hhead _ ih =>
    obtain ⟨us, left, hleft, hline⟩ := ih
    refine ⟨ts ++ us, left, hleft, fun number width => ?_⟩
    obtain ⟨hwhole, hfront⟩ := hline number width
    rw [lineFrom_cons _ _ (skipBlanks_first_append hskip _) hhead,
      lineFrom_cons _ _ hskip (head_cut hb hhead), hwhole, hfront]
    simp

theorem Between.cut {b : Char} {next front : List Char} {ts : List Token} (hb : isBlank b = true)
    (h : Between (b :: next) front) (hts : LineGives (front ++ b :: next) ts) :
    ∃ us vs, LineGives front us ∧ LineGives next vs ∧ ts = us ++ vs := by
  obtain ⟨us, left, hleft, hline⟩ := PastTokens.lineFrom hb h
  have hempty : skipBlanks left = [] := by
    have hskip := Text.skipBlanks_append (List.all_eq_true.1 hleft) []
    rwa [List.append_nil] at hskip
  have hnext : ∀ number width, Token.lineFrom number width (left ++ b :: next) =
      Token.lineFrom number width next := by
    intro number width
    rw [← lineFrom_skipBlanks, Text.skipBlanks_append (List.all_eq_true.1 hleft),
      lineFrom_skipBlanks, lineFrom_blank _ _ hb]
  have hwhole := hts 0 0
  rw [(hline 0 0).1, hnext, map_eq_ok] at hwhole
  obtain ⟨vs, hvs, rfl⟩ := hwhole
  refine ⟨us, vs, fun number width => ?_, lineGives_of_lineFrom hvs, rfl⟩
  rw [(hline number width).2, lineFrom_nil number width hempty, map_eq_ok]
  exact ⟨[], rfl, List.append_nil us⟩

theorem firstWord_of_nullTest? {cs : List Char} {test : NullTest} (h : nullTest? cs = some test) :
    folded (Text.firstWord cs) = "is".toList := by
  unfold nullTest? at h
  split at h
  · assumption
  · cases h

/-- A test for null whose `null` stands in the back part has its `is` in the front part, and nothing
is left there that could be a test for null. -/
theorem nullTest?_apart {b : Char} {next left gap : List Char} {test : NullTest}
    (hb : isBlank b = true) (htest : nullTest? (skipBlanks (left ++ b :: next)) = some test)
    (hgap : gap.all isBlank = true) (hback : b :: next = gap ++ (test.null ++ test.rest)) :
    folded (Text.firstWord (skipBlanks left)) = "is".toList ∧
      nullTest? (skipBlanks left) = none := by
  obtain ⟨c, w, hw, hc⟩ := first_of_folded (nullTest?_test htest).2
  have hletter := isWordChar_of_folded (by decide) (nullTest?_test htest).2 c (by simp [hw])
  rcases skipBlanks_cut hb left next with ⟨-, hskip⟩ | ⟨-, hskip⟩
  · -- with only blanks in the front part the test would begin with its own `null`
    have hnext : skipBlanks next = c :: (w ++ test.rest) := by
      have hnull := skipBlanks_gap hgap (isBlank_of_isWordChar hletter) (w ++ test.rest)
      rw [← List.cons_append, ← hw, ← hback] at hnull
      simpa [skipBlanks, hb, hw] using hnull
    rw [hskip, hnext] at htest
    have hi := toLower_of_nullTest? htest
    rw [hc] at hi
    cases hi
  · rw [hskip] at htest
    have his := firstWord_of_nullTest? htest
    rw [firstWord_cut hb] at his
    -- a test within the front part would leave the whole back part, `null` included
    refine ⟨his, Option.eq_none_iff_forall_ne_some.2 fun found hfound => ?_⟩
    have hsame := ((nullTest?_cut hb).2 hfound).symm.trans htest
    have hrest : test.rest = found.rest ++ b :: next := by
      cases hsame
      rfl
    have hlen := congrArg List.length hback
    rw [hrest] at hlen
    simp [hw] at hlen
    omega

theorem BeforeNull.cut {b : Char} {next front : List Char} {ts vs : List Token}
    (hb : isBlank b = true) (h : BeforeNull (b :: next) front)
    (hts : LineGives (front ++ b :: next) ts) (hvs : LineGives front vs) :
    ∃ us operator is ts' vs', IsTest operator ∧ folded is = "is".toList ∧
      ts = us ++ .symbol (String.ofList operator) :: ts' ∧
      vs = us ++ .word (String.ofList is) :: vs' := by
  obtain ⟨us, left, ⟨test, gap, htest, hgap, hback⟩, hline⟩ := PastTokens.lineFrom hb h
  obtain ⟨his, hnone⟩ := nullTest?_apart hb htest hgap hback
  obtain ⟨hwhole, hfront⟩ := hline 0 0
  have hts0 := hts 0 0
  rw [hwhole, ← lineFrom_skipBlanks, lineFrom_test 0 0 htest, map_eq_ok] at hts0
  obtain ⟨ts', hts', rfl⟩ := hts0
  obtain ⟨ts'', -, rfl⟩ := map_eq_ok.1 hts'
  have hword : IsWord (Text.firstWord (skipBlanks left)) := by
    refine isWord_of_letters ?_ (isWordChar_of_folded (by decide) his)
    intro he
    rw [he] at his
    exact absurd his (by decide)
  rw [← Text.firstWord_append (skipBlanks left)] at hnone
  have hleft := lineFrom_word 0 0 hword (endsWord_afterWord _).stops hnone
  rw [Text.firstWord_append, lineFrom_skipBlanks] at hleft
  have hvs0 := hvs 0 0
  rw [hfront, hleft, map_eq_ok] at hvs0
  obtain ⟨vs', hvs', rfl⟩ := hvs0
  obtain ⟨vs'', -, rfl⟩ := (map_eq_ok : ([Token.word _] ++ ·) <$> _ = _ ↔ _).1 hvs'
  exact ⟨us, test.operator, _, _, _, (nullTest?_test htest).1, his, rfl, rfl⟩

/- Places within a text. -/

def lastLine (cs : List Char) : List Char := (cs.reverse.takeWhile (· != '\n')).reverse

theorem lastLine_oneLine (cs : List Char) : '\n' ∉ lastLine cs := by
  rw [lastLine, List.mem_reverse]
  intro hm
  simpa using List.all_eq_true.1 List.all_takeWhile '\n' hm

theorem lastLine_split (cs : List Char) :
    cs = lastLine cs ∨ ∃ front, cs = front ++ '\n' :: lastLine cs := by
  have hsplit : (cs.reverse.dropWhile (· != '\n')).reverse ++ lastLine cs = cs := by
    rw [lastLine, ← List.reverse_append, List.takeWhile_append_dropWhile, List.reverse_reverse]
  cases hd : cs.reverse.dropWhile (· != '\n') with
  | nil =>
    rw [hd] at hsplit
    exact .inl hsplit.symm
  | cons c front =>
    have hc := List.head?_dropWhile_not (· != '\n') cs.reverse
    rw [hd] at hc
    obtain rfl : c = '\n' := by simpa using hc
    rw [hd, List.reverse_cons, List.append_assoc] at hsplit
    exact .inr ⟨_, hsplit.symm⟩

theorem lines_ne_nil (c : Char) (cs : List Char) : Text.lines (c :: cs) ≠ [] := by
  rw [Text.lines.eq_def]
  split
  · simp_all
  · simp
  · simp
  · split <;> simp

theorem lines_return {cs : List Char} (h : cs.head? = some '\n') :
    Text.lines ('\r' :: cs) = Text.lines cs := by
  obtain ⟨ds, rfl⟩ := List.head?_eq_some_iff.1 h
  rw [lines_return_feed, lines_feed]

theorem lines_feed_append (cs next : List Char) :
    Text.lines (cs ++ '\n' :: next) = Text.lines (cs ++ ['\n']) ++ Text.lines next := by
  induction cs with
  | nil => simp [lines_feed, Text.lines]
  | cons c cs ih =>
    simp only [List.cons_append]
    have hhead : (cs ++ '\n' :: next).head? = (cs ++ ['\n']).head? := by cases cs <;> rfl
    by_cases hc : c = '\n'
    · rw [hc, lines_feed, lines_feed, ih]
      rfl
    by_cases hr : c = '\r' ∧ (cs ++ ['\n']).head? = some '\n'
    · rw [hr.1, lines_return (hhead.trans hr.2), lines_return hr.2, ih]
    · rw [lines_cons hc fun he ds hd => hr ⟨he, by rw [← hhead, hd]; rfl⟩,
        lines_cons hc fun he ds hd => hr ⟨he, by rw [hd]; rfl⟩]
      cases hl : Text.lines (cs ++ ['\n']) with
      | nil =>
        obtain ⟨d, ds, hd⟩ := List.exists_cons_of_ne_nil (by simp : cs ++ ['\n'] ≠ [])
        exact absurd (hd ▸ hl) (lines_ne_nil d ds)
      | cons l ls =>
        rw [firstLine, otherLines, firstLine, otherLines, ih, hl]
        rfl

theorem lines_front {l : List Char} (hl : '\n' ∉ l) (next : List Char) :
    otherLines (l ++ next) = otherLines next ∧ (firstLine (l ++ next) = l ++ firstLine next ∨
      firstLine next = [] ∧ firstLine (l ++ next) ++ ['\r'] = l) := by
  induction l with
  | nil => exact ⟨rfl, .inl rfl⟩
  | cons c l ih =>
    rw [List.mem_cons, not_or] at hl
    have hc : c ≠ '\n' := fun he => hl.1 he.symm
    rw [List.cons_append]
    by_cases hr : c = '\r' ∧ (l ++ next).head? = some '\n'
    · obtain ⟨rfl, hhead⟩ := hr
      obtain rfl : l = [] := by
        cases l with
        | nil => rfl
        | cons d l =>
          obtain rfl : d = '\n' := by simpa using hhead
          simp at hl
      obtain ⟨ds, rfl⟩ := List.head?_eq_some_iff.1 hhead
      simp [firstLine, otherLines, lines_feed, lines_return_feed]
    · have hnext : c = '\r' → ∀ ds, l ++ next ≠ '\n' :: ds :=
        fun he ds hd => hr ⟨he, by rw [hd]; rfl⟩
      have hcons := lines_cons hc hnext
      obtain ⟨hother, hfirst⟩ := ih hl.2
      rw [otherLines, firstLine, hcons, List.tail_cons, List.headD_cons, hother]
      refine ⟨rfl, hfirst.imp (fun h => ?_) fun h => ⟨h.1, ?_⟩⟩
      · rw [h, List.cons_append]
      · rw [List.cons_append, h.2]

theorem gives_append {ls ms : List (List Char)} {ts : List Token} : Gives (ls ++ ms) ts ↔
    ∃ us vs, Gives ls us ∧ Gives ms vs ∧ ts = us ++ vs := by
  constructor
  · intro h
    induction ls generalizing ts with
    | nil => exact ⟨[], ts, .nil, h, rfl⟩
    | cons l ls ih =>
      cases h with
      | cons h h' =>
        obtain ⟨us, vs, hus, hvs, rfl⟩ := ih h'
        exact ⟨_, vs, .cons h hus, hvs, by simp⟩
  · rintro ⟨us, vs, hus, hvs, rfl⟩
    induction hus with
    | nil => exact hvs
    | cons h _ ih =>
      rw [List.append_assoc]
      exact .cons h ih

theorem Gives.unique {ls : List (List Char)} {ts us : List Token} (h : Gives ls ts)
    (h' : Gives ls us) : ts = us := by
  induction h generalizing us with
  | nil =>
    cases h'
    rfl
  | cons h _ ih =>
    cases h' with
    | cons hline h' =>
      have hsame := (h 0 0).symm.trans (hline 0 0)
      cases hsame
      rw [ih h']

theorem flows_front {l next : List Char} {ts : List Token} (hl : '\n' ∉ l) : Flows (l ++ next) ts ↔
    ∃ us vs, LineGives (l ++ firstLine next) us ∧ Gives (otherLines next) vs ∧ ts = us ++ vs := by
  obtain ⟨hother, hfirst⟩ := lines_front hl next
  have hline (us : List Token) :
      LineGives (firstLine (l ++ next)) us ↔ LineGives (l ++ firstLine next) us := by
    rcases hfirst with he | ⟨hnil, he⟩
    · rw [he]
    · have hreturn : isBlank '\r' = true := by decide
      have hlast : LineGives (firstLine (l ++ next) ++ ['\r']) us ↔ _ :=
        lineGives_lastBlank hreturn
      rw [he] at hlast
      rw [hnil, List.append_nil]
      exact hlast.symm
  simp only [flows_iff, hother, hline]

/-- The lines before the one with the place stay as they are, whatever comes after the place. -/
theorem lines_place (front : List Char) :
    ∃ ls, ∀ next, Text.lines (front ++ next) = ls ++ Text.lines (lastLine front ++ next) := by
  rcases lastLine_split front with hfront | ⟨pre, hfront⟩
  · exact ⟨[], fun next => congrArg (fun cs => Text.lines (cs ++ next)) hfront⟩
  · refine ⟨Text.lines (pre ++ ['\n']), fun next => ?_⟩
    rw [← lines_feed_append, ← List.cons_append, ← List.append_assoc, ← hfront]

theorem flows_place (front : List Char) : ∃ ls, ∀ (l next : List Char) (ts : List Token),
    '\n' ∉ l → (Flows (front ++ (l ++ next)) ts ↔ ∃ us vs ws, Gives ls us ∧
      LineGives (lastLine front ++ l ++ firstLine next) vs ∧ Gives (otherLines next) ws ∧
      ts = us ++ (vs ++ ws)) := by
  obtain ⟨ls, hls⟩ := lines_place front
  refine ⟨ls, fun l next ts hl => ?_⟩
  have hline : '\n' ∉ lastLine front ++ l := by simpa [lastLine_oneLine] using hl
  rw [Flows, hls, gives_append, ← List.append_assoc]
  constructor
  · rintro ⟨us, vs', hus, hvs', rfl⟩
    obtain ⟨vs, ws, hvs, hws, rfl⟩ := (flows_front hline).1 hvs'
    exact ⟨us, vs, ws, hus, hvs, hws, rfl⟩
  · rintro ⟨us, vs, ws, hus, hvs, hws, rfl⟩
    exact ⟨us, vs ++ ws, hus, (flows_front hline).2 ⟨vs, ws, hvs, hws, rfl⟩, rfl⟩

theorem gives_of_linesFrom {number : Nat} {ls : List (List Char)} {ts : List Token}
    (h : linesFrom number ls = .ok ts) : Gives ls (significant ts) := by
  induction ls generalizing number ts with
  | nil =>
    cases h
    exact .nil
  | cons l ls ih =>
    unfold linesFrom at h
    cases hline : line number l with
    | error e => simp [hline, bind, Except.bind] at h
    | ok first =>
      cases hrest : linesFrom (number + 1) ls with
      | error e => simp [hline, hrest, bind, Except.bind] at h
      | ok rest =>
        rw [hline, hrest] at h
        cases h
        rw [significant_joinLines, significant_of_ne_newline (lineFrom_ne_newline hline)]
        exact .cons (lineGives_of_lineFrom hline) (ih hrest)

section

variable {b : Char} {front back : List Char} {ts : List Token}

theorem Flows.break (hb : isBlank b = true) (hfeed : b ≠ '\n')
    (hplace : Between (b :: firstLine back) (lastLine front))
    (h : Flows (front ++ b :: back) ts) : Flows (front ++ '\n' :: back) ts := by
  obtain ⟨ls, hls⟩ := flows_place front
  obtain ⟨us, vs, ws, hus, hvs, hws, rfl⟩ :=
    (hls [b] back _ (by simpa using hfeed.symm)).1 h
  rw [List.append_assoc] at hvs
  obtain ⟨vs₁, vs₂, hvs₁, hvs₂, rfl⟩ := hplace.cut hb hvs
  refine (hls [] ('\n' :: back) _ (by simp)).2
    ⟨us, vs₁, vs₂ ++ ws, hus, ?_, ?_, by simp⟩
  · rwa [firstLine, lines_feed, List.headD_cons, List.append_nil, List.append_nil]
  · rw [otherLines, lines_feed, List.tail_cons]
    exact flows_iff.2 ⟨vs₂, ws, hvs₂, hws, rfl⟩

theorem Flows.break_test {ts' : List Token} (hb : isBlank b = true) (hfeed : b ≠ '\n')
    (hplace : BeforeNull (b :: firstLine back) (lastLine front))
    (h : Flows (front ++ b :: back) ts) (h' : Flows (front ++ '\n' :: back) ts') :
    ∃ us operator is vs vs', IsTest operator ∧ folded is = "is".toList ∧
      ts = us ++ .symbol (String.ofList operator) :: vs ∧
      ts' = us ++ .word (String.ofList is) :: vs' := by
  obtain ⟨ls, hls⟩ := flows_place front
  obtain ⟨us, vs, ws, hus, hvs, hws, rfl⟩ :=
    (hls [b] back _ (by simpa using hfeed.symm)).1 h
  obtain ⟨us', vs', ws', hus', hvs', hws', rfl⟩ :=
    (hls [] ('\n' :: back) _ (by simp)).1 h'
  rw [List.append_assoc] at hvs
  rw [firstLine, lines_feed, List.headD_cons, List.append_nil, List.append_nil] at hvs'
  obtain ⟨us₁, operator, is, vs₁, vs₂, hop, his, rfl, rfl⟩ := hplace.cut hb hvs hvs'
  obtain rfl := hus.unique hus'
  exact ⟨us ++ us₁, operator, is, vs₁ ++ ws, vs₂ ++ ws', hop, his, by simp, by simp⟩

end

end BracketQuery.Token

namespace BracketQuery

/- A symbol that is no punctuation is taken only as an operator. -/

section

variable {limit : Nat} {text : String} {next : State}

theorem isSymbol_of_free (hfree : isStructural text = false) {symbol : String}
    (hs : isStructural symbol = true) : (Token.symbol text).isSymbol symbol = false := by
  rw [Token.isSymbol, decide_eq_false_iff_not]
  intro he
  cases he
  simp [hfree] at hs

theorem expectSymbol_of_free (hfree : isStructural text = false) {symbol : String}
    (hs : isStructural symbol = true) {expected : Expectation} {reading : Reading} :
    expectSymbol symbol expected (.symbol text) reading ≠ .ok next := by
  simp [expectSymbol, isSymbol_of_free hfree hs]

theorem openBlock_of_free (hfree : isStructural text = false) {table : Table} {home : Home} :
    openBlock limit table home (.symbol text) ≠ .ok next := by
  intro h
  have hopen := deeper_ok h
  rw [isSymbol_of_free hfree (by decide), isSymbol_of_free hfree (by decide)] at hopen
  cases hopen

theorem Block.step_of_free (hfree : isStructural text = false) {block : Block} :
    block.step limit (.symbol text) ≠ .ok next := by
  have hclosing : isStructural block.closing = true := by
    unfold Block.closing closeBracket
    split <;> decide
  have hpunct : [",", "[", "\x7b", "("].all isStructural = true := by decide
  simp only [List.all_cons, Bool.and_eq_true] at hpunct
  obtain ⟨hcomma, hsquare, hcurly, hparen, -⟩ := hpunct
  simp [Block.step, Token.opensBlock, isSymbol_of_free hfree hclosing,
    isSymbol_of_free hfree hcomma, isSymbol_of_free hfree hsquare, isSymbol_of_free hfree hcurly,
    isSymbol_of_free hfree hparen]

theorem Owner.step_of_free (hfree : isStructural text = false) {owner : Owner} :
    owner.step limit (.symbol text) ≠ .ok next := by
  intro h
  simp only [Owner.step, Owner.close] at h
  split at h
  · rename_i head outer hhome
    cases outer with
    | top => cases h
    | field block => exact expectSymbol_of_free hfree (by decide) h
    | among slot subject negated keyword => exact expectSymbol_of_free hfree (by decide) h
  · exact Block.step_of_free hfree h

theorem Slot.close_of_free (hfree : isStructural text = false) {slot : Slot} {last : Expr} :
    slot.close limit last (.symbol text) ≠ .ok next := by
  intro h
  unfold Slot.close at h
  split at h
  · exact Owner.step_of_free hfree h
  · exact expectSymbol_of_free hfree (by decide) h

theorem State.step_of_free (hfree : isStructural text = false) {st : State}
    (h : st.step limit (.symbol text) = .ok next) : ∃ left slot, st = .atOperator left slot := by
  cases st with
  | atOperator left slot => exact ⟨left, slot, rfl⟩
  | atDistinct keyword word outer =>
    have hopen : (Token.symbol text).opensBlock = false := by
      rw [Token.opensBlock, isSymbol_of_free hfree (by decide), isSymbol_of_free hfree (by decide)]
      rfl
    rw [State.step, stepDistinct, hopen] at h
    cases h
  | afterName name home => exact absurd h (openBlock_of_free hfree)
  | atBlock table home => exact absurd h (openBlock_of_free hfree)
  | inBlock block => exact absurd h (Block.step_of_free hfree)
  | afterBlock owner => exact absurd h (Owner.step_of_free hfree)
  | atCondition slot =>
    simp only [State.step, stepCondition] at h
    rw [isSymbol_of_free hfree (by decide)] at h
    cases h
  | atAmong keyword subject negated slot => exact absurd h (expectSymbol_of_free hfree (by decide))
  | afterCondition expr slot => exact absurd h (Slot.close_of_free hfree)
  | atGroupColumn draft =>
    simp only [State.step, stepGroupColumn] at h
    split at h <;> cases h
  | afterGroupColumn draft =>
    rw [State.step, stepAfterGroupColumn, isSymbol_of_free hfree (by decide)] at h
    exact absurd h (Owner.step_of_free hfree)
  | atOrderColumn draft =>
    simp only [State.step, stepOrderColumn] at h
    split at h <;> cases h
  | afterOrderWord stage draft =>
    simp only [State.step, stepAfterOrderWord] at h
    rw [isSymbol_of_free hfree (by decide)] at h
    exact absurd h (Owner.step_of_free hfree)
  | _ => cases h

end

open Text (isBlank)
open Token (Between BeforeNull IsTest firstLine lastLine)

theorem Token.IsTest.free {operator : List Char} (h : IsTest operator) :
    isStructural (String.ofList operator) = false := by
  obtain ⟨c, cs, rfl, hc⟩ := h.first
  rw [← Bool.not_eq_true]
  intro hs
  have hall : (["\x7b", "\x7d", "[", "]", "(", ")", ","].all fun s =>
      s.toList.head?.map Char.toLower != some 'i') = true := by decide
  have hfirst := List.all_eq_true.1 hall _ (List.contains_iff_mem.1 hs)
  simp [hc] at hfirst

theorem stepOperator_is {left is : String} {slot : Slot} (h : folded is.toList = "is".toList)
    {next : State} : stepOperator left slot (.word is) ≠ .ok next := by
  have hspells (keyword : String) : spells is keyword = ("is".toList == folded keyword.toList) := by
    rw [spells, h]
  have hword : spells is "not" = false ∧ WordOperator.ofWord? is = none := by
    simp only [WordOperator.ofWord?, hspells, List.any_cons, List.any_nil]
    decide
  simp [stepOperator, hword.1, hword.2]

theorem run_test_apart {limit : Nat} {operator is : List Char} {ts us vs : List Token}
    {st st' : State} (hop : IsTest operator) (his : folded is = "is".toList)
    (h : State.start.run limit (ts ++ .symbol (String.ofList operator) :: us) = .ok st) :
    State.start.run limit (ts ++ .word (String.ofList is) :: vs) ≠ .ok st' := by
  intro h'
  rw [State.run_append] at h h'
  cases hr : State.start.run limit ts with
  | error e =>
    rw [hr] at h
    cases h
  | ok place =>
    rw [hr] at h h'
    obtain ⟨next, hnext, -⟩ := State.run_cons_ok h
    obtain ⟨next', hnext', -⟩ := State.run_cons_ok h'
    obtain ⟨left, slot, rfl⟩ := State.step_of_free hop.free hnext
    exact stepOperator_is (by rwa [String.toList_ofList]) hnext'

/-- A blank of a line may be a line feed. Between two tokens the query stays the same; only between
the operator of a test for null and its `null` is the text no query any more. -/
theorem compile_lineBreak {limit : Nat} {front back : List Char} {b : Char} {s : Select}
    (hb : isBlank b = true) (hfeed : b ≠ '\n')
    (h : compile limit (String.ofList (front ++ b :: back)) = .ok s) :
    (Between (b :: firstLine back) (lastLine front) →
      compile limit (String.ofList (front ++ '\n' :: back)) = .ok s) ∧
    (BeforeNull (b :: firstLine back) (lastLine front) →
      ∀ s', compile limit (String.ofList (front ++ '\n' :: back)) ≠ .ok s') := by
  obtain ⟨ts, hscan, hread⟩ := compile_eq_ok h
  have hflows : Token.Flows (front ++ b :: back) (Token.significant ts) := by
    have hlines := Token.gives_of_linesFrom hscan
    rwa [String.toList_ofList] at hlines
  constructor
  · intro hplace
    have hbreak := hflows.break hb hfeed hplace
    rw [← String.toList_ofList (l := front ++ '\n' :: back)] at hbreak
    obtain ⟨us, hus, hsame⟩ := hbreak.scan
    rw [compile, hus]
    simp only [← Descent.ofTokens_significant limit us, hsame, Descent.ofTokens_significant, hread]
  · intro hplace s' h'
    obtain ⟨us, hscan', hread'⟩ := compile_eq_ok h'
    have hflows' : Token.Flows (front ++ '\n' :: back) (Token.significant us) := by
      have hlines := Token.gives_of_linesFrom hscan'
      rwa [String.toList_ofList] at hlines
    obtain ⟨vs, operator, is, ws, ws', hop, his, hts, hus⟩ :=
      hflows.break_test hb hfeed hplace hflows'
    obtain ⟨st, hst, -⟩ := ofTokens_eq_ok hread
    obtain ⟨st', hst', -⟩ := ofTokens_eq_ok hread'
    rw [hts] at hst
    rw [hus] at hst'
    exact run_test_apart hop his hst hst'

theorem beforeNull_where :
    BeforeNull (' ' :: firstLine "null".toList) (lastLine "select t[]where a is".toList) := by
  have hfront : lastLine "select t[]where a is".toList = "select t[]where a is".toList := by
    decide +kernel
  have hback : ' ' :: firstLine "null".toList = " null".toList := by decide +kernel
  rw [hfront, hback]
  have h6 : BeforeNull " null".toList " is".toList := .here ⟨_, " ".toList, rfl, rfl, rfl⟩
  have h5 : BeforeNull " null".toList " a is".toList := .token rfl rfl h6
  have h4 : BeforeNull " null".toList "where a is".toList := .token rfl rfl h5
  have h3 : BeforeNull " null".toList "]where a is".toList := .token rfl rfl h4
  have h2 : BeforeNull " null".toList "[]where a is".toList := .token rfl rfl h3
  have h1 : BeforeNull " null".toList " t[]where a is".toList := .token rfl rfl h2
  exact .token rfl rfl h1

theorem compile_where_is :
    let text := String.ofList ("select t[]where a is".toList ++ ' ' :: "null".toList)
    let test := Expr.compare (.value "a") "is" (.value "null")
    compile 3 text = .ok { table := { name := "t", rowFilter := some { expr := test } } } := by
  intro text test
  have hscan : Token.scan text = .ok [.word "select", .word "t", .symbol "[", .symbol "]",
      .word "where", .word "a", .symbol "is", .word "null"] := scan_of_toOption (by decide +kernel)
  rw [compile, hscan]
  rfl

/-- A line break right after a sign of two characters, and one within a test for null. -/
theorem compile_lineBreak_where :
    let sign (b : Char) := String.ofList ("select t[]where a >=".toList ++ b :: "1".toList)
    let test (b : Char) := String.ofList ("select t[]where a is".toList ++ b :: "null".toList)
    let condition (op right : String) := Expr.compare (.value "a") op (.value right)
    let s (op right : String) : Select :=
      { table := { name := "t", rowFilter := some { expr := condition op right } } }
    compile 3 (sign ' ') = .ok (s ">=" "1") ∧ compile 3 (sign '\n') = .ok (s ">=" "1") ∧
      compile 3 (test ' ') = .ok (s "is" "null") ∧ ∀ s', compile 3 (test '\n') ≠ .ok s' := by
  intro sign test condition s
  have hsign : compile 3 (sign ' ') = .ok (s ">=" "1") := by
    have hscan : Token.scan (sign ' ') = .ok [.word "select", .word "t", .symbol "[", .symbol "]",
        .word "where", .word "a", .symbol ">=", .word "1"] := scan_of_toOption (by decide +kernel)
    rw [compile, hscan]
    rfl
  have hbetween :
      Between (' ' :: firstLine "1".toList) (lastLine "select t[]where a >=".toList) := by
    have hfront : lastLine "select t[]where a >=".toList = "select t[]where a >=".toList := by
      decide +kernel
    have hback : ' ' :: firstLine "1".toList = " 1".toList := by decide +kernel
    rw [hfront, hback]
    have h7 : Between " 1".toList [] := .here rfl
    have h6 : Between " 1".toList " >=".toList := .token rfl rfl h7
    have h5 : Between " 1".toList " a >=".toList := .token rfl rfl h6
    have h4 : Between " 1".toList "where a >=".toList := .token rfl rfl h5
    have h3 : Between " 1".toList "]where a >=".toList := .token rfl rfl h4
    have h2 : Between " 1".toList "[]where a >=".toList := .token rfl rfl h3
    have h1 : Between " 1".toList " t[]where a >=".toList := .token rfl rfl h2
    exact .token rfl rfl h1
  exact ⟨hsign, (compile_lineBreak (by decide) (by decide) hsign).1 hbetween, compile_where_is,
    (compile_lineBreak (by decide) (by decide) compile_where_is).2 beforeNull_where⟩

/-- Not every blank between two tokens may be a line feed: `is` and `null` stay on one line. -/
theorem exists_lineBreak_refused : ∃ (front back : List Char) (b : Char) (s : Select),
    isBlank b = true ∧ b ≠ '\n' ∧ compile 3 (String.ofList (front ++ b :: back)) = .ok s ∧
      (Between (b :: firstLine back) (lastLine front) ∨
        BeforeNull (b :: firstLine back) (lastLine front)) ∧
      compile 3 (String.ofList (front ++ '\n' :: back)) ≠ .ok s := by
  refine ⟨"select t[]where a is".toList, "null".toList, ' ', _, by decide, by decide,
    compile_where_is, .inr beforeNull_where, ?_⟩
  have hscan : Token.scan (String.ofList ("select t[]where a is".toList ++ '\n' :: "null".toList)) =
      .ok [.word "select", .word "t", .symbol "[", .symbol "]", .word "where", .word "a",
        .word "is", .newline, .word "null"] := scan_of_toOption (by decide +kernel)
  rw [compile, hscan]
  intro h
  cases h

end BracketQuery
