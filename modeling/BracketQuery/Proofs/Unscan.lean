import BracketQuery.Proofs.Rescan

/-! Tokens as a text again, with one blank between neighbours. Such a text scans to the tokens it
was made of: the blanks make no sign of two characters and no test for null that was not there. -/
namespace BracketQuery.Token

def chars : Token → List Char
  | .word w => w.toList
  | .symbol s => s.toList
  | .newline => ['\n']

/-- The blank between two neighbours; a line feed has none around it. -/
def gap (t u : Token) : List Char := if t = .newline ∨ u = .newline then [] else [' ']

def unscanChars : List Token → List Char
  | [] => []
  | [t] => t.chars
  | t :: u :: ts => t.chars ++ gap t u ++ unscanChars (u :: ts)

/-- The text that has the tokens and nothing but them. -/
def unscan (ts : List Token) : String := String.ofList (unscanChars ts)

/- What starts with a sign. -/

theorem nullTest?_of_first {c : Char} (hc : c.toLower ≠ 'i') (cs : List Char) :
    nullTest? (c :: cs) = none := by
  have his : folded (Text.firstWord (c :: cs)) ≠ "is".toList := by
    unfold Text.firstWord
    intro he
    rw [List.takeWhile_cons] at he
    split at he
    · exact hc (List.cons.inj he).1
    · exact absurd he (by decide)
  rw [nullTest?, if_neg his]

theorem toLower_of_isSymbolChar {c : Char} (h : isSymbolChar c = true) : c.toLower = c := by
  have hall : (['\x7b', '\x7d', '[', ']', '(', ')', '<', '>', '!', '=', ','].all
      fun d => d.toLower == d) = true := by decide
  simpa using List.all_eq_true.1 hall c (by simpa [isSymbolChar] using h)

theorem isSymbolChar_ne {c d : Char} (h : isSymbolChar c = true) (hd : isSymbolChar d = false) :
    c ≠ d := by
  rintro rfl
  simp [h] at hd

theorem isBlank_of_isSymbolChar {c : Char} (h : isSymbolChar c = true) :
    Text.isBlank c = false := by
  have hall : (['\x7b', '\x7d', '[', ']', '(', ')', '<', '>', '!', '=', ','].all
      fun d => !Text.isBlank d) = true := by decide
  simpa using List.all_eq_true.1 hall c (by simpa [isSymbolChar] using h)

theorem lineFrom_single (number width : Nat) {c : Char} (hc : isSymbolChar c = true)
    {next : List Char} (hd : doubleSign? (c :: next) = none) :
    lineFrom number width (c :: next) =
      (Token.symbol (String.ofList [c]) :: ·) <$> lineFrom number width next := by
  have hnull : nullTest? (c :: next) = none := by
    refine nullTest?_of_first ?_ next
    rw [toLower_of_isSymbolChar hc]
    exact isSymbolChar_ne hc (by decide)
  have hskip : Text.skipBlanks (c :: next) = c :: next := by
    simp [Text.skipBlanks, isBlank_of_isSymbolChar hc]
  have hhead : head c next = .ok ([.symbol (String.ofList [c])], next) := by
    simp [head, hd, hnull, hc]
  exact lineFrom_cons number width hskip hhead

theorem isSymbolChar_of_doubleSigns {a b : Char} (h : (a, b) ∈ doubleSigns) :
    isSymbolChar a = true := by
  have hall : ∀ p ∈ doubleSigns, isSymbolChar p.1 = true := by decide
  exact hall (a, b) h

theorem lineFrom_double (number width : Nat) {a b : Char} (h : (a, b) ∈ doubleSigns)
    {next : List Char} (hn : EndsWord next) :
    lineFrom number width (a :: b :: next) =
      (Token.symbol (String.ofList [a, b]) :: ·) <$> lineFrom number width next := by
  have hskip : Text.skipBlanks (a :: b :: next) = a :: b :: next := by
    simp [Text.skipBlanks, isBlank_of_isSymbolChar (isSymbolChar_of_doubleSigns h)]
  have hsign : doubleSign? (a :: b :: next) = some ([a, b], next) := by
    rw [doubleSign?, if_pos]
    rw [Bool.and_eq_true, List.contains_iff_mem]
    exact ⟨h, hn⟩
  have hhead : head a (b :: next) = .ok ([.symbol (String.ofList [a, b])], next) := by
    simp [head, hsign]
  exact lineFrom_cons number width hskip hhead

theorem doubleSign?_of_endsWord (c : Char) {next : List Char} (hn : EndsWord next) :
    doubleSign? (c :: next) = none := by
  cases next with
  | nil => rfl
  | cons b next =>
    have hb : Text.isBlank b = true := by simpa [EndsWord] using hn
    have hd : (c, b) ∉ doubleSigns := by
      intro hm
      have hall : ∀ p ∈ doubleSigns, Text.isBlank p.2 = false := by decide
      simp [hall (c, b) hm] at hb
    simp [doubleSign?, hd]

/- Tests for null. -/

theorem toLower_of_nullTest? {c : Char} {cs : List Char} {test : NullTest}
    (h : nullTest? (c :: cs) = some test) : c.toLower = 'i' := by
  by_cases hc : c.toLower = 'i'
  · exact hc
  · simp [nullTest?_of_first hc] at h

theorem isBlank_of_isWordChar {c : Char} (h : isWordChar c = true) : Text.isBlank c = false := by
  rw [← Bool.not_eq_true]
  intro hb
  simp [isWordChar_of_isBlank hb] at h

theorem lineFrom_test (number width : Nat) {cs : List Char} {test : NullTest}
    (h : nullTest? cs = some test) :
    lineFrom number width cs =
      ([.symbol (String.ofList test.operator), .word (String.ofList test.null)] ++ ·) <$>
        lineFrom number width test.rest := by
  cases cs with
  | nil => simp [nullTest?, Text.firstWord, folded] at h
  | cons c cs =>
    have hi := toLower_of_nullTest? h
    have hword : isWordChar c = true := isWordChar_of_toLower (by rw [hi]; decide)
    have hsign : doubleSign? (c :: cs) = none := by
      refine doubleSign?_none (fun hm => ?_) cs
      have hall : (['<', '!', '>'].all (·.toLower != 'i')) = true := by decide
      simpa [hi] using List.all_eq_true.1 hall c hm
    have hskip : Text.skipBlanks (c :: cs) = c :: cs := by
      simp [Text.skipBlanks, isBlank_of_isWordChar hword]
    have hhead : head c cs =
        .ok ([.symbol (String.ofList test.operator), .word (String.ofList test.null)],
          test.rest) := by
      simp [head, hsign, h]
    exact lineFrom_cons number width hskip hhead

theorem firstWord_letters {w next : List Char} (hw : ∀ c ∈ w, isWordChar c = true)
    (hn : EndsWord next) :
    Text.firstWord (w ++ next) = w ∧ Text.afterWord (w ++ next) = next := by
  have hsolid : ∀ c ∈ w, (!Text.isBlank c) = true := by
    intro c hc
    rw [isBlank_of_isWordChar (hw c hc)]
    rfl
  rw [Text.firstWord, Text.afterWord, List.takeWhile_append_of_pos hsolid,
    List.dropWhile_append_of_pos hsolid]
  cases next with
  | nil => simp
  | cons b next =>
    have hb : Text.isBlank b = true := by simpa [EndsWord] using hn
    simp [hb]

theorem skipBlanks_word {w : List Char} (hne : w ≠ []) (hw : ∀ c ∈ w, isWordChar c = true)
    (next : List Char) : Text.skipBlanks (' ' :: (w ++ next)) = w ++ next := by
  cases w with
  | nil => exact absurd rfl hne
  | cons c w =>
    have hblank : Text.isBlank ' ' = true := by decide
    simp [Text.skipBlanks, hblank, isBlank_of_isWordChar (hw c (by simp))]

theorem nullTail?_isSome_iff {operator cs : List Char} : (nullTail? operator cs).isSome = true ↔
    folded (cs.take 4) = "null".toList ∧ (cs.drop 4).head?.any isWordChar = false := by
  unfold nullTail?
  split <;> simp_all

theorem nullTail?_null (operator : List Char) {null next : List Char}
    (h : folded null = "null".toList) (hn : next.head?.any isWordChar = false) :
    nullTail? operator (null ++ next) = some ⟨operator, null, next⟩ := by
  have hlen : null.length = 4 := by simpa [folded] using congrArg List.length h
  simp [nullTail?, List.take_left' hlen, List.drop_left' hlen, h, hn]

theorem firstWord_of_null {cs : List Char} (h : folded (cs.take 4) = "null".toList) :
    folded (Text.firstWord cs) ≠ "not".toList := by
  intro hn
  have hnu : (folded cs).take 2 = ['n', 'u'] := by
    have htake := congrArg (List.take 2) h
    simpa [folded, List.map_take, List.take_take] using htake
  have hno : (folded cs).take 2 = ['n', 'o'] := by
    rw [← Text.firstWord_append cs]
    simp only [folded, List.map_append] at hn ⊢
    rw [hn]
    rfl
  rw [hnu] at hno
  exact absurd hno (by decide)

theorem nullTest?_is {is null next : List Char} (his : folded is = "is".toList)
    (hnull : folded null = "null".toList) (hn : next.head?.any isWordChar = false) :
    nullTest? (is ++ ' ' :: (null ++ next)) = some ⟨is, null, next⟩ := by
  have hletters := isWordChar_of_folded (by decide) hnull
  have hne : null ≠ [] := by rintro rfl; exact absurd hnull (by decide)
  obtain ⟨hfirst, hafter⟩ :=
    firstWord_letters (isWordChar_of_folded (by decide) his) (endsWord_blank (null ++ next))
  have hlen : null.length = 4 := by simpa [folded] using congrArg List.length hnull
  have hnot : folded (Text.firstWord (null ++ next)) ≠ "not".toList :=
    firstWord_of_null (by rw [List.take_left' hlen, hnull])
  rw [nullTest?, hfirst, hafter, if_pos his, skipBlanks_word hne hletters, afterIs?, if_neg hnot,
    nullTail?_null is hnull hn]

theorem nullTest?_isNot {is not null next : List Char} (his : folded is = "is".toList)
    (hnot : folded not = "not".toList) (hnull : folded null = "null".toList)
    (hn : next.head?.any isWordChar = false) :
    nullTest? (is ++ ' ' :: (not ++ ' ' :: (null ++ next))) =
      some ⟨is ++ ' ' :: not, null, next⟩ := by
  have hneNot : not ≠ [] := by rintro rfl; exact absurd hnot (by decide)
  have hneNull : null ≠ [] := by rintro rfl; exact absurd hnull (by decide)
  have hlettersNot := isWordChar_of_folded (by decide) hnot
  obtain ⟨hfirst, hafter⟩ := firstWord_letters (isWordChar_of_folded (by decide) his)
    (endsWord_blank (not ++ ' ' :: (null ++ next)))
  obtain ⟨hfirst', hafter'⟩ := firstWord_letters hlettersNot (endsWord_blank (null ++ next))
  rw [nullTest?, hfirst, hafter, if_pos his, skipBlanks_word hneNot hlettersNot, afterIs?, hfirst',
    hafter', if_pos hnot, skipBlanks_word hneNull (isWordChar_of_folded (by decide) hnull),
    nullTail?_null _ hnull hn]

/-- The operator of a test for null, as one symbol. -/
inductive IsTest : List Char → Prop
  | is {w : List Char} (h : folded w = "is".toList) : IsTest w
  | isNot {w v : List Char} (h : folded w = "is".toList) (hv : folded v = "not".toList) :
    IsTest (w ++ ' ' :: v)

theorem nullTail?_test {operator cs : List Char} {test : NullTest}
    (h : nullTail? operator cs = some test) :
    test.operator = operator ∧ folded test.null = "null".toList := by
  unfold nullTail? at h
  split at h
  · rename_i hn
    cases h
    simp only [Bool.and_eq_true, decide_eq_true_eq] at hn
    exact ⟨rfl, hn.1⟩
  · simp at h

theorem nullTest?_test {cs : List Char} {test : NullTest} (h : nullTest? cs = some test) :
    IsTest test.operator ∧ folded test.null = "null".toList := by
  unfold nullTest? at h
  split at h
  · rename_i his
    unfold afterIs? at h
    split at h
    · rename_i hnot
      obtain ⟨hop, hnull⟩ := nullTail?_test h
      exact ⟨hop ▸ .isNot his hnot, hnull⟩
    · obtain ⟨hop, hnull⟩ := nullTail?_test h
      exact ⟨hop ▸ .is his, hnull⟩
  · simp at h

theorem first_of_folded {w keyword : List Char} {k : Char} (h : folded w = k :: keyword) :
    ∃ c cs, w = c :: cs ∧ c.toLower = k := by
  cases w with
  | nil => simp [folded] at h
  | cons c cs => exact ⟨c, cs, rfl, (List.cons.inj h).1⟩

theorem IsTest.first {operator : List Char} (h : IsTest operator) :
    ∃ c cs, operator = c :: cs ∧ c.toLower = 'i' := by
  cases h with
  | is his => exact first_of_folded his
  | isNot his hnot =>
    obtain ⟨c, cs, rfl, hc⟩ := first_of_folded his
    exact ⟨c, _, rfl, hc⟩

theorem IsTest.nullTest? {operator null next : List Char} (h : IsTest operator)
    (hnull : folded null = "null".toList) (hn : next.head?.any isWordChar = false) :
    Token.nullTest? (operator ++ ' ' :: (null ++ next)) = some ⟨operator, null, next⟩ := by
  cases h with
  | is his => exact nullTest?_is his hnull hn
  | isNot his hnot => simpa using nullTest?_isNot his hnot hnull hn

/- What a line begins with. -/

/-- The tokens at the front of a line that starts with one, and the rest of the line. -/
inductive Begins (cs : List Char) : List Token → List Char → Prop
  | double {a b : Char} {rest : List Char} (h : (a, b) ∈ doubleSigns) (hcs : cs = a :: b :: rest) :
    Begins cs [.symbol (String.ofList [a, b])] rest
  | test {test : NullTest} (h : nullTest? cs = some test) :
    Begins cs [.symbol (String.ofList test.operator), .word (String.ofList test.null)] test.rest
  | single {c : Char} {rest : List Char} (h : isSymbolChar c = true) (hcs : cs = c :: rest) :
    Begins cs [.symbol (String.ofList [c])] rest
  | word {w rest : List Char} (h : splitWord cs = .ok (w, rest)) (hne : w ≠ [])
      (hnull : nullTest? cs = none) : Begins cs [.word (String.ofList w)] rest

theorem head_begins {c : Char} {cs rest : List Char} {ts : List Token}
    (h : head c cs = .ok (ts, rest)) : Begins (c :: cs) ts rest := by
  unfold head at h
  split at h
  · rename_i sign rest' hs
    simp only [Except.ok.injEq, Prod.mk.injEq] at h
    obtain ⟨rfl, rfl⟩ := h
    unfold doubleSign? at hs
    split at hs
    · rename_i a b rest' heq
      split at hs <;> simp only [Option.some.injEq, Prod.mk.injEq, reduceCtorEq] at hs
      rename_i hd
      obtain ⟨rfl, rfl⟩ := hs
      simp only [Bool.and_eq_true, List.contains_iff_mem] at hd
      exact .double hd.1 heq
    · simp at hs
  · rename_i test hn
    simp only [Except.ok.injEq, Prod.mk.injEq] at h
    obtain ⟨rfl, rfl⟩ := h
    exact .test hn
  · rename_i hn
    split at h
    · rename_i hc
      simp only [Except.ok.injEq, Prod.mk.injEq] at h
      obtain ⟨rfl, rfl⟩ := h
      exact .single hc rfl
    · unfold wordHead at h
      split at h
      · simp at h
      · simp at h
      · rename_i text rest' hne hw
        simp only [Except.ok.injEq, Prod.mk.injEq] at h
        obtain ⟨rfl, rfl⟩ := h
        exact .word hw hne hn

theorem lineFrom_ok {number width : Nat} {cs : List Char} {ts : List Token}
    (h : lineFrom number width cs = .ok ts) : (Text.skipBlanks cs = [] ∧ ts = []) ∨
      ∃ us rest vs, Begins (Text.skipBlanks cs) us rest ∧ ts = us ++ vs ∧
        lineFrom number width rest = .ok vs := by
  cases hskip : Text.skipBlanks cs with
  | nil =>
    rw [lineFrom_nil number width hskip] at h
    cases h
    exact .inl ⟨rfl, rfl⟩
  | cons c r =>
    cases hhead : head c r with
    | error fault => simp [lineFrom_fault number width hskip hhead] at h
    | ok result =>
      obtain ⟨us, rest⟩ := result
      rw [lineFrom_cons number width hskip hhead] at h
      cases hl : lineFrom number width rest with
      | error e =>
        rw [hl] at h
        cases h
      | ok vs =>
        rw [hl] at h
        cases h
        exact .inr ⟨us, rest, vs, head_begins hhead, rfl, hl⟩

theorem wordFrom_rest {taken cs word rest : List Char} {depth : Nat} {quote : Option Char}
    (h : wordFrom taken depth quote cs = .ok (word, rest)) :
    rest.head?.any isWordChar = false := by
  induction cs generalizing taken depth quote with
  | nil => unfold wordFrom at h; split at h <;> simp_all
  | cons c cs ih =>
    unfold wordFrom at h
    split at h
    · exact ih h
    · split at h <;> exact ih h
    · split at h
      · exact ih h
      split at h
      · exact ih h
      split at h
      · exact ih h
      · simp only [Except.ok.injEq, Prod.mk.injEq] at h
        obtain ⟨-, rfl⟩ := h
        simpa using ‹¬isWordChar c = true›

/- The blanks between the tokens of a line bring no new test for null about. -/

def spaced (ts : List Token) : List Char := ts.flatMap fun t => ' ' :: t.chars

theorem spaced_cons (t : Token) (ts : List Token) :
    spaced (t :: ts) = ' ' :: (t.chars ++ spaced ts) := rfl

theorem endsWord_spaced (ts : List Token) : EndsWord (spaced ts) := by
  cases ts with
  | nil => rfl
  | cons t ts => exact endsWord_blank _

theorem nullTail?_of_word {operator v rest next : List Char}
    (hrest : rest.head?.any isWordChar = false) (hn : EndsWord next)
    (h : (nullTail? operator (v ++ next)).isSome = true) :
    (nullTail? operator (v ++ rest)).isSome = true := by
  rw [nullTail?_isSome_iff] at h ⊢
  obtain ⟨hnull, hafter⟩ := h
  have hlen : 4 ≤ v.length := by
    -- A shorter word would have the blank after it among the four letters.
    by_cases hlt : v.length < 4
    · cases next with
      | nil =>
        have hl := congrArg List.length hnull
        simp [folded] at hl
        omega
      | cons b next =>
        have hb : Text.isBlank b = true := by simpa [EndsWord] using hn
        have hm : b ∈ (v ++ b :: next).take 4 := by
          rw [List.take_append]
          obtain ⟨k, hk⟩ : ∃ k, 4 - v.length = k + 1 := ⟨3 - v.length, by omega⟩
          simp [hk]
        have hw := isWordChar_of_folded (by decide) hnull b hm
        simp [isWordChar_of_isBlank hb] at hw
    · omega
  rw [List.take_append_of_le_length hlen] at hnull ⊢
  rw [List.drop_append_of_le_length hlen] at hafter ⊢
  refine ⟨hnull, ?_⟩
  cases hv : v.drop 4 with
  | nil => simpa using hrest
  | cons c cs => simpa [hv] using hafter

theorem IsWord.skipBlanks {w : List Char} (h : IsWord w) (next : List Char) :
    Text.skipBlanks (' ' :: (w ++ next)) = w ++ next := by
  cases w with
  | nil => exact absurd rfl h.ne_nil
  | cons c w =>
    have hblank : Text.isBlank ' ' = true := by decide
    simp [Text.skipBlanks, hblank, h.isBlank_first]

theorem word_of_first {number width : Nat} {cs d : List Char} {ts : List Token} {c : Char}
    (hcs : '\n' ∉ cs) (h : lineFrom number width cs = .ok ts)
    (hs : Text.skipBlanks (spaced ts) = c :: d) (hc : c.toLower = 'n') :
    ∃ v rest vs, IsWord (c :: v) ∧ splitWord (c :: v ++ rest) = .ok (c :: v, rest) ∧
      Text.skipBlanks cs = c :: v ++ rest ∧ lineFrom number width rest = .ok vs ∧
      Text.skipBlanks (spaced ts) = c :: v ++ spaced vs := by
  have hblank : Text.isBlank ' ' = true := by decide
  rcases lineFrom_ok h with ⟨-, rfl⟩ | ⟨us, rest, vs, hb, rfl, hvs⟩
  · cases hs
  cases hb with
  | @double a b _ hab hcs =>
    have ha := isSymbolChar_of_doubleSigns hab
    simp [spaced, chars, Text.skipBlanks, hblank, isBlank_of_isSymbolChar ha] at hs
    rw [← hs.1, toLower_of_isSymbolChar ha] at hc
    exact absurd hc (isSymbolChar_ne ha (by decide))
  | @single a _ ha hcs =>
    simp [spaced, chars, Text.skipBlanks, hblank, isBlank_of_isSymbolChar ha] at hs
    rw [← hs.1, toLower_of_isSymbolChar ha] at hc
    exact absurd hc (isSymbolChar_ne ha (by decide))
  | @test test ht =>
    obtain ⟨hop, -⟩ := nullTest?_test ht
    obtain ⟨a, as, ha, hi⟩ := hop.first
    have hword : isWordChar a = true := isWordChar_of_toLower (by rw [hi]; decide)
    simp [spaced, chars, ha, Text.skipBlanks, hblank, isBlank_of_isWordChar hword] at hs
    rw [← hs.1, hi] at hc
    exact absurd hc (by decide)
  | @word w _ hw hne hnull =>
    have hsplit := splitWord_append hw
    have hsuffix := skipBlanks_suffix cs
    have hone : '\n' ∉ Text.skipBlanks cs := fun hm => hcs (hsuffix.mem hm)
    have hword := isWord_of_splitWord hw hne hone
    have hspaced : Text.skipBlanks (spaced (.word (String.ofList w) :: vs)) = w ++ spaced vs := by
      simpa [spaced, chars] using hword.skipBlanks (spaced vs)
    obtain ⟨a, v, rfl, -⟩ := hword.first
    obtain rfl : a = c := (List.cons.inj (hspaced.symm.trans hs)).1
    refine ⟨v, rest, vs, hword, ?_, hsplit.symm, hvs, hspaced⟩
    rw [hsplit]
    exact hw

theorem first_of_afterIs? {is cs : List Char} (h : (afterIs? is cs).isSome = true) :
    ∃ c d, cs = c :: d ∧ c.toLower = 'n' := by
  cases cs with
  | nil => exact absurd h (by simp [afterIs?, nullTail?, Text.firstWord, folded])
  | cons c d =>
    refine ⟨c, d, rfl, ?_⟩
    by_cases hc : c.toLower = 'n'
    · exact hc
    · simp [afterIs?_none is hc] at h

theorem first_of_nullTail? {operator cs : List Char} (h : (nullTail? operator cs).isSome = true) :
    ∃ c d, cs = c :: d ∧ c.toLower = 'n' := by
  obtain ⟨c, d, hd, hc⟩ := first_of_folded (nullTail?_isSome_iff.1 h).1
  cases cs with
  | nil => cases hd
  | cons a cs =>
    obtain rfl : a = c := (List.cons.inj hd).1
    exact ⟨a, cs, rfl, hc⟩

theorem endsWord_of_skipBlanks {rest v : List Char} (hrest : rest.head?.any isWordChar = false)
    {c : Char} (hc : isWordChar c = true) (hskip : Text.skipBlanks rest = c :: v) :
    EndsWord rest := by
  cases rest with
  | nil => rfl
  | cons a rest =>
    by_cases ha : Text.isBlank a = true
    · simpa [EndsWord] using ha
    · simp [Text.skipBlanks, ha] at hskip
      simp [hskip.1, hc] at hrest

section

variable {number width : Nat} {rest : List Char} {vs : List Token}

theorem afterIs?_of_word {is v : List Char} (hv : IsWord v)
    (hsplit : splitWord (v ++ rest) = .ok (v, rest)) (hone : '\n' ∉ rest)
    (hvs : lineFrom number width rest = .ok vs)
    (h : (afterIs? is (v ++ spaced vs)).isSome = true) :
    (afterIs? is (v ++ rest)).isSome = true := by
  have hrest := wordFrom_rest hsplit
  unfold afterIs? at h
  split at h
  · rename_i hnot
    obtain ⟨hfirst, hafter⟩ := hv.eq_keyword (endsWord_spaced vs).stops (by decide) hnot
    rw [hfirst] at hnot
    rw [hfirst, hafter] at h
    obtain ⟨c, d, hd, hc⟩ := first_of_nullTail? h
    obtain ⟨v', rest', vs', -, hsplit', hskip, -, hspaced⟩ := word_of_first hone hvs hd hc
    rw [hspaced] at h
    have hnull := nullTail?_of_word (wordFrom_rest hsplit') (endsWord_spaced vs') h
    have hends := endsWord_of_skipBlanks hrest (isWordChar_of_toLower (by rw [hc]; decide)) hskip
    obtain ⟨hfirst', hafter'⟩ := firstWord_letters (isWordChar_of_folded (by decide) hnot) hends
    rw [afterIs?, hfirst', hafter', if_pos hnot, hskip]
    exact hnull
  · have hnull := nullTail?_of_word hrest (endsWord_spaced vs) h
    have hnot := firstWord_of_null (nullTail?_isSome_iff.1 hnull).1
    rw [afterIs?, if_neg hnot]
    exact hnull

theorem nullTest?_of_word {w : List Char} (hw : IsWord w)
    (hsplit : splitWord (w ++ rest) = .ok (w, rest)) (hone : '\n' ∉ rest)
    (hvs : lineFrom number width rest = .ok vs) (h : nullTest? (w ++ rest) = none) :
    nullTest? (w ++ spaced vs) = none := by
  unfold nullTest?
  split
  · rename_i his
    obtain ⟨hfirst, hafter⟩ := hw.eq_keyword (endsWord_spaced vs).stops (by decide) his
    rw [hfirst] at his
    rw [hfirst, hafter, ← Option.not_isSome_iff_eq_none]
    intro hsome
    obtain ⟨c, d, hd, hc⟩ := first_of_afterIs? hsome
    obtain ⟨v, rest', vs', hv, hsplit', hskip, hvs', hspaced⟩ := word_of_first hone hvs hd hc
    rw [hspaced] at hsome
    have hone' : '\n' ∉ rest' := by
      intro hm
      refine hone ((skipBlanks_suffix rest).mem ?_)
      rw [hskip]
      exact List.mem_append_right _ hm
    have htest := afterIs?_of_word hv hsplit' hone' hvs' hsome
    have hends := endsWord_of_skipBlanks (wordFrom_rest hsplit)
      (isWordChar_of_toLower (by rw [hc]; decide)) hskip
    obtain ⟨hfirst', hafter'⟩ := firstWord_letters (isWordChar_of_folded (by decide) his) hends
    rw [nullTest?, hfirst', hafter', if_pos his, hskip] at h
    rw [h] at htest
    cases htest
  · rfl

end

/- Lines. -/

theorem EndsWord.noLetter {cs : List Char} (h : EndsWord cs) :
    cs.head?.any isWordChar = false := by
  cases cs with
  | nil => rfl
  | cons c cs => exact isWordChar_of_isBlank (by simpa [EndsWord] using h)

theorem Begins.lineFrom_spaced {number width : Nat} {cs rest : List Char} {us vs : List Token}
    (h : Begins cs us rest) (hcs : '\n' ∉ cs) (hvs : lineFrom number width rest = .ok vs)
    (number' width' : Nat) :
    lineFrom number' width' (spaced (us ++ vs)) =
      (us ++ ·) <$> lineFrom number' width' (spaced vs) := by
  have hblank : Text.isBlank ' ' = true := by decide
  have hends := endsWord_spaced vs
  cases h with
  | @double a b _ hab heq =>
    rw [List.singleton_append, spaced_cons, lineFrom_blank _ _ hblank]
    simpa [chars] using lineFrom_double number' width' hab hends
  | @single a _ ha heq =>
    rw [List.singleton_append, spaced_cons, lineFrom_blank _ _ hblank]
    simpa [chars] using lineFrom_single number' width' ha (doubleSign?_of_endsWord a hends)
  | @test test ht =>
    obtain ⟨hop, hnull⟩ := nullTest?_test ht
    rw [List.cons_append, List.singleton_append, spaced_cons, lineFrom_blank _ _ hblank,
      spaced_cons]
    simpa [chars] using lineFrom_test number' width' (hop.nullTest? hnull hends.noLetter)
  | @word w _ hw hne hnull =>
    have happ := splitWord_append hw
    have hword := isWord_of_splitWord hw hne hcs
    have hrest : '\n' ∉ rest := by
      rw [← happ] at hcs
      exact fun hm => hcs (List.mem_append_right _ hm)
    rw [← happ] at hw hnull
    have hnone := nullTest?_of_word hword hw hrest hvs hnull
    rw [List.singleton_append, spaced_cons, lineFrom_blank _ _ hblank]
    simpa [chars] using lineFrom_word number' width' hword hends.stops hnone

/-- The tokens of a line are read again wherever each stands after a blank. -/
theorem lineFrom_spaced {number width : Nat} {cs : List Char} {ts : List Token}
    (hcs : '\n' ∉ cs) (h : lineFrom number width cs = .ok ts) (number' width' : Nat) :
    lineFrom number' width' (spaced ts) = .ok ts := by
  induction cs using lineFrom.induct generalizing ts with
  | case1 cs hskip =>
    rw [lineFrom_nil number width hskip] at h
    cases h
    exact lineFrom_nil _ _ rfl
  | case2 cs c r hskip fault hhead => simp [lineFrom_fault number width hskip hhead] at h
  | case3 cs c r hskip us rest hhead _ ih =>
    have hr : '\n' ∉ c :: r := fun hm => hcs ((skipBlanks_suffix cs).mem (hskip ▸ hm))
    have hrest : '\n' ∉ rest := fun hm => hr ((head_scanned hr hhead).2.mem hm)
    rw [lineFrom_cons number width hskip hhead] at h
    cases hl : lineFrom number width rest with
    | error e =>
      rw [hl] at h
      cases h
    | ok vs =>
      rw [hl] at h
      cases h
      rw [(head_begins hhead).lineFrom_spaced hr hl, ih hrest hl]
      rfl

theorem Begins.ne_newline {cs rest : List Char} {us : List Token} (h : Begins cs us rest) :
    .newline ∉ us := by
  cases h <;> simp

theorem lineFrom_ne_newline {number width : Nat} {cs : List Char} {ts : List Token}
    (h : lineFrom number width cs = .ok ts) : .newline ∉ ts := by
  induction cs using lineFrom.induct generalizing ts with
  | case1 cs hskip =>
    rw [lineFrom_nil number width hskip] at h
    cases h
    simp
  | case2 cs c r hskip fault hhead => simp [lineFrom_fault number width hskip hhead] at h
  | case3 cs c r hskip us rest hhead _ ih =>
    rw [lineFrom_cons number width hskip hhead] at h
    cases hl : lineFrom number width rest with
    | error e =>
      rw [hl] at h
      cases h
    | ok vs =>
      rw [hl] at h
      cases h
      simpa using ⟨(head_begins hhead).ne_newline, ih hl⟩

/- The last character of a line is no blank, so the line feed after it ends just that line. -/

theorem wordFrom_last {taken cs word : List Char} {depth : Nat} {quote : Option Char}
    (hq : ∀ q ∈ quote, isQuote q = true) (h : wordFrom taken depth quote cs = .ok (word, [])) :
    ∀ c ∈ cs.getLast?, Text.isBlank c = false := by
  induction cs generalizing taken depth quote with
  | nil => simp
  | cons c cs ih =>
    have later {taken' : List Char} {depth' : Nat} {quote' : Option Char}
        (hq' : ∀ q ∈ quote', isQuote q = true)
        (h' : wordFrom taken' depth' quote' cs = .ok (word, []))
        (hlast : depth' = 0 → quote' = none → Text.isBlank c = false) :
        ∀ d ∈ (c :: cs).getLast?, Text.isBlank d = false := by
      cases cs with
      | nil =>
        have hend : depth' = 0 ∧ quote' = none := by
          unfold wordFrom at h'
          split at h' <;> simp_all
        simpa using hlast hend.1 hend.2
      | cons d cs => simpa using ih hq' h'
    have hquote : isQuote c = true → Text.isBlank c = false := by
      intro hc
      rw [← Bool.not_eq_true]
      intro hb
      simp [isQuote_of_isBlank hb] at hc
    cases quote with
    | some q =>
      rw [wordFrom] at h
      refine later ?_ h ?_
      · split <;> simp_all
      · intro _ hnone
        split at hnone
        · rename_i he
          exact hquote (he ▸ hq q rfl)
        · cases hnone
    | none =>
      cases depth with
      | succ depth =>
        rw [wordFrom] at h
        split at h
        · rename_i hc
          exact later (by simpa using hc) h (by simp)
        · refine later (by simp) h fun hzero _ => ?_
          have hclose : c = ')' := by
            unfold depthAfter at hzero
            split at hzero
            · omega
            split at hzero
            · assumption
            · omega
          rw [hclose]
          decide
      | zero =>
        rw [wordFrom] at h
        split at h
        · rename_i hc
          exact later (by simp) h fun _ _ => isBlank_of_isWordChar hc
        split at h
        · rename_i hc
          exact later (by simpa using hc) h (by simp)
        split at h
        · exact later (by simp) h (by simp)
        · simp at h

/-- A part of a line that does not end with a blank. -/
structure Compact (cs : List Char) : Prop where
  ne_nil : cs ≠ []
  oneLine : '\n' ∉ cs
  last : ∀ c ∈ cs.getLast?, Text.isBlank c = false

theorem Compact.append {cs : List Char} (h : Compact cs) {front : List Char} (hf : '\n' ∉ front) :
    Compact (front ++ cs) := by
  refine ⟨by simp [h.ne_nil], by simp [hf, h.oneLine], fun c hc => h.last c ?_⟩
  rw [List.getLast?_append] at hc
  cases hl : cs.getLast? with
  | none => exact absurd (List.getLast?_eq_none_iff.1 hl) h.ne_nil
  | some d => simpa [hl] using hc

theorem compact_of_letters {w : List Char} (hne : w ≠ []) (h : ∀ c ∈ w, isWordChar c = true) :
    Compact w :=
  ⟨hne, (isWord_of_letters hne h).oneLine,
    fun c hc => isBlank_of_isWordChar (h c (List.mem_of_getLast? hc))⟩

theorem IsWord.compact {w : List Char} (h : IsWord w) : Compact w := by
  have hsplit := h.split [] endsWord_nil
  rw [List.append_nil] at hsplit
  exact ⟨h.ne_nil, h.oneLine, wordFrom_last (by simp) hsplit⟩

theorem compact_of_isSymbolChar {c : Char} (h : isSymbolChar c = true) : Compact [c] := by
  refine ⟨by simp, ?_, by simpa using isBlank_of_isSymbolChar h⟩
  rw [List.mem_singleton]
  rintro rfl
  exact absurd h (by decide)

theorem IsSign.compact {s : List Char} (h : IsSign s) : Compact s := by
  have letters {w keyword : List Char} (hk : keyword.all isWordChar = true) (hne : keyword ≠ [])
      (hw : folded w = keyword) : Compact w := by
    refine compact_of_letters ?_ (isWordChar_of_folded hk hw)
    rintro rfl
    exact hne hw.symm
  cases h with
  | single hc => exact compact_of_isSymbolChar hc
  | @double a b h =>
    have hall : ∀ p ∈ doubleSigns, isSymbolChar p.1 = true ∧ isSymbolChar p.2 = true := by decide
    have ha := compact_of_isSymbolChar (hall (a, b) h).1
    exact (compact_of_isSymbolChar (hall (a, b) h).2).append ha.oneLine
  | is his => exact letters (by decide) (by decide) his
  | @isNot w v his hnot =>
    have hw : Compact w := letters (by decide) (by decide) his
    have hv : Compact v := letters (by decide) (by decide) hnot
    have hfront : '\n' ∉ w ++ [' '] := by simp [hw.oneLine]
    simpa using hv.append hfront

theorem Scanned.compact {t : Token} (h : t.Scanned) (hne : t ≠ .newline) : Compact t.chars := by
  cases t with
  | word w => exact IsWord.compact h
  | symbol s => exact IsSign.compact h
  | newline => exact absurd rfl hne

/- Texts. -/

theorem unscanChars_newline (ts us : List Token) :
    unscanChars (ts ++ .newline :: us) = unscanChars ts ++ '\n' :: unscanChars us := by
  induction ts with
  | nil => cases us <;> simp [unscanChars, chars, gap]
  | cons t ts ih =>
    cases ts with
    | nil => simpa [unscanChars, gap] using ih
    | cons u ts => simpa [unscanChars] using ih

theorem spaced_eq {ts : List Token} (hne : ts ≠ []) (hts : .newline ∉ ts) :
    spaced ts = ' ' :: unscanChars ts := by
  induction ts with
  | nil => exact absurd rfl hne
  | cons t ts ih =>
    cases ts with
    | nil => simp [spaced, unscanChars]
    | cons u ts =>
      simp only [List.mem_cons, not_or] at hts
      have hgap : gap t u = [' '] := by simp [gap, Ne.symm hts.1, Ne.symm hts.2.1]
      rw [spaced_cons, ih (by simp) (by simpa using hts.2), unscanChars, hgap]
      simp

theorem unscanChars_compact {ts : List Token} (hne : ts ≠ [])
    (hts : ∀ t ∈ ts, Compact t.chars) : Compact (unscanChars ts) := by
  induction ts with
  | nil => exact absurd rfl hne
  | cons t ts ih =>
    rw [List.forall_mem_cons] at hts
    cases ts with
    | nil => exact hts.1
    | cons u ts =>
      have hgap : '\n' ∉ gap t u := by
        unfold gap
        split <;> simp
      exact (ih (by simp) hts.2).append (by simp [hts.1.oneLine, hgap])

/- The first line of a text and the others. -/

def firstLine (cs : List Char) : List Char := (Text.lines cs).headD []
def otherLines (cs : List Char) : List (List Char) := (Text.lines cs).tail

theorem lines_feed (cs : List Char) : Text.lines ('\n' :: cs) = [] :: Text.lines cs := by
  simp [Text.lines]

theorem lines_return_feed (cs : List Char) :
    Text.lines ('\r' :: '\n' :: cs) = [] :: Text.lines cs := by
  simp [Text.lines]

theorem lines_cons {c : Char} {cs : List Char} (hc : c ≠ '\n')
    (hcs : c = '\r' → ∀ ds, cs ≠ '\n' :: ds) :
    Text.lines (c :: cs) = (c :: firstLine cs) :: otherLines cs := by
  rw [Text.lines]
  · unfold firstLine otherLines
    cases Text.lines cs <;> rfl
  · exact hc
  · exact fun ds hr hd => hcs hr ds hd

theorem lines_compact {w : List Char} (hw : Compact w) (next : List Char) :
    Text.lines (w ++ next) = (w ++ firstLine next) :: otherLines next := by
  obtain ⟨hne, hone, hlast⟩ := hw
  induction w with
  | nil => exact absurd rfl hne
  | cons c w ih =>
    rw [List.mem_cons, not_or] at hone
    have hfeed : c = '\r' → ∀ ds, w ++ next ≠ '\n' :: ds := by
      rintro rfl ds heq
      cases w with
      | nil => exact absurd (hlast '\r' rfl) (by decide)
      | cons d w => exact hone.2 (by simp [(List.cons.inj heq).1])
    rw [List.cons_append, lines_cons (fun h => hone.1 h.symm) hfeed]
    cases w with
    | nil => rfl
    | cons d w =>
      have hrest := ih (by simp) hone.2 (by simpa using hlast)
      rw [firstLine, otherLines, hrest]
      rfl

theorem lines_append {l : List Char} (h : Compact l) (cs : List Char) :
    Text.lines (l ++ '\n' :: cs) = l :: Text.lines cs := by
  rw [lines_compact h, firstLine, otherLines, lines_feed, List.headD_cons, List.append_nil,
    List.tail_cons]

theorem line_unscanChars {number : Nat} {l : List Char} {ts : List Token} (hl : '\n' ∉ l)
    (h : line number l = .ok ts) (hne : ts ≠ []) (number' : Nat) :
    Compact (unscanChars ts) ∧ line number' (unscanChars ts) = .ok ts := by
  have hmarks := lineFrom_ne_newline h
  have hscanned := lineFrom_scanned hl h
  refine ⟨unscanChars_compact hne fun t ht => ?_, ?_⟩
  · exact (hscanned t ht).compact fun he => hmarks (he ▸ ht)
  · have hspaced := lineFrom_spaced hl h number' (unscanChars ts).length
    rwa [spaced_eq hne hmarks, lineFrom_blank _ _ (by decide)] at hspaced

theorem linesFrom_unscanChars {number : Nat} {ls : List (List Char)} {ts : List Token}
    (hls : ∀ l ∈ ls, '\n' ∉ l) (h : linesFrom number ls = .ok ts) (number' : Nat) :
    linesFrom number' (Text.lines (unscanChars ts)) = .ok ts := by
  induction ls generalizing number number' ts with
  | nil =>
    cases h
    rfl
  | cons l ls ih =>
    rw [List.forall_mem_cons] at hls
    unfold linesFrom at h
    cases hline : line number l with
    | error e => simp [hline, bind, Except.bind] at h
    | ok first =>
      cases hrest : linesFrom (number + 1) ls with
      | error e => simp [hline, hrest, bind, Except.bind] at h
      | ok rest =>
        rw [hline, hrest] at h
        cases h
        by_cases hfirst : first = []
        · simpa [joinLines, hfirst] using ih hls.2 hrest number'
        obtain ⟨hcompact, hagain⟩ := line_unscanChars hls.1 hline hfirst number'
        by_cases hempty : rest = []
        · have hjoin : joinLines first rest = first := by simp [joinLines, hfirst, hempty]
          rw [hjoin, lines_of_oneLine hcompact.ne_nil hcompact.oneLine, linesFrom, hagain]
          simp [linesFrom, joinLines, hfirst, bind, Except.bind, pure, Except.pure]
        · have hjoin : joinLines first rest = first ++ .newline :: rest := by
            simp [joinLines, hfirst, hempty]
          rw [hjoin, unscanChars_newline, lines_append hcompact, linesFrom, hagain,
            ih hls.2 hrest, ← hjoin]
          rfl

/-- Scanning undoes the printing of scanned tokens. -/
theorem scan_unscan {text : String} {ts : List Token} (h : scan text = .ok ts) :
    scan (unscan ts) = .ok ts := by
  rw [scan, unscan, String.toList_ofList]
  exact linesFrom_unscanChars (lines_oneLine _) h 1

/-- Signs that stay apart, a test for null right before a literal, an `is` that tests nothing, and
lines without tokens. -/
theorem scan_unscan_signs :
    let text := "x<>y is  Not\tnull'a  b'\r\n\n not(is\n null >="
    let ts : List Token := [.word "x", .symbol "<", .symbol ">", .word "y", .symbol "is Not",
      .word "null", .word "'a  b'", .newline, .word "not", .symbol "(", .word "is", .newline,
      .word "null", .symbol ">="]
    scan text = .ok ts ∧ unscan ts = "x < > y is Not null 'a  b'\nnot ( is\nnull >=" ∧
      scan (unscan ts) = .ok ts := by
  intro text ts
  have hscan : scan text = .ok ts := scan_of_toOption (by decide +kernel)
  exact ⟨hscan, by decide +kernel, scan_unscan hscan⟩

end BracketQuery.Token
