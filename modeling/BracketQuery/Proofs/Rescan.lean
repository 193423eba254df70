import BracketQuery.Token.Scan

/-! What the tokens of a text look like: a word is read again in the same way wherever a blank
follows it, and there are only a few symbols. So words joined by blanks scan to themselves. -/
namespace BracketQuery

/- Classes of characters. -/

theorem Text.Ranges.exists_of_has {n : Nat} : {rs : Ranges} → rs.has n = true →
    ∃ r ∈ rs, r.1 ≤ n ∧ n ≤ r.2
  | [], h => by simp [has] at h
  | (lo, hi) :: rest, h => by
    simp only [has, Bool.and_eq_true, Bool.or_eq_true, decide_eq_true_eq] at h
    rcases h.2 with hn | hn
    · exact ⟨(lo, hi), by simp, h.1, hn⟩
    · obtain ⟨r, hr, hb⟩ := exists_of_has hn
      exact ⟨r, by simp [hr], hb⟩

theorem Text.isAlphanumeric_of_isBlank {c : Char} (h : isBlank c = true) :
    isAlphanumeric c = false := by
  have hall : ∀ r ∈ blankRanges, ∀ k < r.2 + 1 - r.1, alphanumericRanges.has (r.1 + k) = false := by
    decide +kernel
  obtain ⟨r, hr, hlo, hhi⟩ := Ranges.exists_of_has h
  have hc := hall r hr (c.toNat - r.1) (by omega)
  rwa [Nat.add_sub_cancel' hlo] at hc

namespace Token

/-- A text that ends, or goes on with a blank. -/
def EndsWord (cs : List Char) : Prop := cs.head?.all Text.isBlank = true

/-- A text that does not go on with what may belong to a word before it. -/
def StopsWord (cs : List Char) : Prop :=
  cs.head?.all (fun c => !isWordChar c && !isQuote c && c != '(') = true

theorem not_mem_of_all {p : Char → Bool} {cs : List Char} (h : cs.all (!p ·) = true) {c : Char}
    (hc : p c = true) : c ∉ cs := by
  intro hm
  have hn := List.all_eq_true.1 h c hm
  simp [hc] at hn

theorem isWordChar_of_isBlank {c : Char} (h : Text.isBlank c = true) : isWordChar c = false := by
  have hc : c ∉ ['_', ':', '@', '$', '?', '.', '*'] := not_mem_of_all (by decide) h
  simp [isWordChar, Text.isAlphanumeric_of_isBlank h, hc]

theorem isQuote_of_isBlank {c : Char} (h : Text.isBlank c = true) : isQuote c = false := by
  have hc : c ∉ ['\x27', '\x22'] := not_mem_of_all (by decide) h
  simpa [isQuote] using hc

theorem isWordChar_of_isSymbolChar {c : Char} (h : isSymbolChar c = true) :
    isWordChar c = false := by
  rw [← Bool.not_eq_true]
  intro hw
  have hc : c ∉ ['\x7b', '\x7d', '[', ']', '(', ')', '<', '>', '!', '=', ','] :=
    not_mem_of_all (by decide) hw
  exact hc (by simpa [isSymbolChar] using h)

theorem isWordChar_of_toLower {c : Char} (h : isWordChar c.toLower = true) :
    isWordChar c = true := by
  unfold Char.toLower at h
  split at h
  · rename_i hc
    have hall : ∀ k < 26, Text.isAlphanumeric (Char.ofNat (65 + k)) = true := by decide
    have hn : 65 ≤ c.toNat ∧ c.toNat ≤ 90 := hc
    have hk := hall (c.toNat - 65) (by omega)
    rw [Nat.add_sub_cancel' hn.1, Char.ofNat_toNat] at hk
    simp [isWordChar, hk]
  · exact h

theorem isWordChar_of_folded {w keyword : List Char} (hk : keyword.all isWordChar = true)
    (h : folded w = keyword) : ∀ c ∈ w, isWordChar c = true := by
  intro c hc
  refine isWordChar_of_toLower (List.all_eq_true.1 hk _ ?_)
  rw [← h]
  exact List.mem_map_of_mem hc

/- Words. -/

theorem EndsWord.stops {cs : List Char} (h : EndsWord cs) : StopsWord cs := by
  cases cs with
  | nil => rfl
  | cons c cs =>
    have hb : Text.isBlank c = true := by simpa [EndsWord] using h
    have hp : c ≠ '(' := by
      rintro rfl
      exact absurd hb (by decide)
    simp [StopsWord, isWordChar_of_isBlank hb, isQuote_of_isBlank hb, hp]

theorem wordFrom_stop (taken : List Char) {rest : List Char} (h : StopsWord rest) :
    wordFrom taken 0 none rest = .ok (taken.reverse, rest) := by
  cases rest with
  | nil => rfl
  | cons c cs => simp_all [StopsWord, wordFrom]

theorem wordFrom_again {taken cs word rest : List Char} {depth : Nat} {quote : Option Char}
    (h : wordFrom taken depth quote cs = .ok (word, rest)) :
    ∃ w, cs = w ++ rest ∧ ∀ next, StopsWord next →
      wordFrom taken depth quote (w ++ next) = .ok (word, next) := by
  induction cs generalizing taken depth quote with
  | nil =>
    refine ⟨[], ?_⟩
    cases quote with
    | some q => simp [wordFrom] at h
    | none =>
      cases depth with
      | succ depth => simp [wordFrom] at h
      | zero =>
        simp only [wordFrom, Except.ok.injEq, Prod.mk.injEq] at h
        obtain ⟨rfl, rfl⟩ := h
        exact ⟨rfl, fun next hn => wordFrom_stop taken hn⟩
  | cons c cs ih =>
    -- Each character that is taken goes in front of the word that the rest starts with.
    have taking {depth' : Nat} {quote' : Option Char}
        (hstep : ∀ ds,
          wordFrom taken depth quote (c :: ds) = wordFrom (c :: taken) depth' quote' ds) :
        ∃ w, c :: cs = w ++ rest ∧ ∀ next, StopsWord next →
          wordFrom taken depth quote (w ++ next) = .ok (word, next) := by
      rw [hstep] at h
      obtain ⟨w, hw, hnext⟩ := ih h
      refine ⟨c :: w, by simp [hw], fun next hn => ?_⟩
      rw [List.cons_append, hstep]
      exact hnext next hn
    cases quote with
    | some q => exact taking fun ds => by rw [wordFrom]
    | none =>
      cases depth with
      | succ depth =>
        by_cases hq : isQuote c = true
        · exact taking fun ds => by rw [wordFrom, if_pos hq]
        · exact taking fun ds => by rw [wordFrom, if_neg hq]
      | zero =>
        by_cases hw : isWordChar c = true
        · exact taking fun ds => by rw [wordFrom, if_pos hw]
        by_cases hq : isQuote c = true
        · exact taking fun ds => by rw [wordFrom, if_neg hw, if_pos hq]
        by_cases hp : (c = '(' && callable taken) = true
        · exact taking fun ds => by rw [wordFrom, if_neg hw, if_neg hq, if_pos hp]
        · rw [wordFrom, if_neg hw, if_neg hq, if_neg hp, Except.ok.injEq, Prod.mk.injEq] at h
          obtain ⟨rfl, rfl⟩ := h
          exact ⟨[], rfl, fun next hn => wordFrom_stop taken hn⟩

theorem wordFrom_letters {w next : List Char} (hw : ∀ c ∈ w, isWordChar c = true)
    (hn : StopsWord next) (taken : List Char) :
    wordFrom taken 0 none (w ++ next) = .ok (taken.reverse ++ w, next) := by
  induction w generalizing taken with
  | nil => simpa using wordFrom_stop taken hn
  | cons c w ih =>
    have hc : isWordChar c = true := hw c (by simp)
    rw [List.cons_append, wordFrom, if_pos hc, ih (fun d hd => hw d (by simp [hd]))]
    simp

structure IsWord (w : List Char) : Prop where
  ne_nil : w ≠ []
  split : ∀ next, EndsWord next → splitWord (w ++ next) = .ok (w, next)
  oneLine : '\n' ∉ w

theorem isWord_of_splitWord {cs word rest : List Char} (h : splitWord cs = .ok (word, rest))
    (hne : word ≠ []) (hcs : '\n' ∉ cs) : IsWord word := by
  obtain ⟨w, hw, hnext⟩ := wordFrom_again h
  have hword : word = w := List.append_cancel_right ((splitWord_append h).trans hw)
  subst hword
  refine ⟨hne, fun next hn => hnext next hn.stops, fun hm => hcs ?_⟩
  rw [hw]
  exact List.mem_append_left _ hm

theorem isWord_of_letters {w : List Char} (hne : w ≠ []) (hw : ∀ c ∈ w, isWordChar c = true) :
    IsWord w := by
  refine ⟨hne, fun next hn => by simpa [splitWord] using wordFrom_letters hw hn.stops [],
    fun hm => ?_⟩
  exact absurd (hw _ hm) (by decide)

inductive IsSign : List Char → Prop
  | single {c : Char} (h : isSymbolChar c = true) : IsSign [c]
  | double {a b : Char} (h : (a, b) ∈ doubleSigns) : IsSign [a, b]
  | is {w : List Char} (h : folded w = "is".toList) : IsSign w
  | isNot {w v : List Char} (h : folded w = "is".toList) (hv : folded v = "not".toList) :
    IsSign (w ++ ' ' :: v)

def plainSigns : List String :=
  ["\x7b", "\x7d", "[", "]", "(", ")", "<", ">", "!", "=", ",", "<>", "!=", "<=", ">="]

theorem IsSign.text {s : String} (h : IsSign s.toList) : s ∈ plainSigns ∨ spells s "is" = true ∨
    ∃ a b, s = a ++ " " ++ b ∧ spells a "is" = true ∧ spells b "not" = true := by
  generalize hs : s.toList = cs at h
  obtain rfl : s = String.ofList cs := by rw [← hs, String.ofList_toList]
  have fold {w : List Char} {k : String} (hw : folded w = k.toList)
      (hk : folded k.toList = k.toList) :
      spells (String.ofList w) k = true := by
    rw [spells, String.toList_ofList, hw, hk, beq_self_eq_true]
  cases h with
  | @single c h =>
    have hall : (['\x7b', '\x7d', '[', ']', '(', ')', '<', '>', '!', '=', ','].all fun c =>
        plainSigns.contains (String.ofList [c])) = true := by decide
    have hc := List.all_eq_true.1 hall c (by simpa [isSymbolChar] using h)
    exact .inl (List.contains_iff_mem.1 hc)
  | @double a b h =>
    have hall :
        (doubleSigns.all fun p => plainSigns.contains (String.ofList [p.1, p.2])) = true := by
      decide
    exact .inl (List.contains_iff_mem.1 (List.all_eq_true.1 hall (a, b) h))
  | is h => exact .inr (.inl (fold h rfl))
  | @isNot w v h hv =>
    refine .inr (.inr ⟨String.ofList w, String.ofList v, ?_, fold h rfl, fold hv rfl⟩)
    rw [← String.toList_inj]
    simp

/-- What scanning knows of a token. -/
def Scanned : Token → Prop
  | .word w => IsWord w.toList
  | .symbol s => IsSign s.toList
  | .newline => True

theorem doubleSign?_sign {cs sign rest : List Char} (h : doubleSign? cs = some (sign, rest)) :
    IsSign sign ∧ sign ++ rest = cs := by
  unfold doubleSign? at h
  split at h
  · split at h <;> simp only [Option.some.injEq, Prod.mk.injEq, reduceCtorEq] at h
    rename_i hd
    obtain ⟨rfl, rfl⟩ := h
    simp only [Bool.and_eq_true, List.contains_iff_mem] at hd
    exact ⟨.double hd.1, rfl⟩
  · simp at h

theorem nullTail?_word {operator cs : List Char} {test : NullTest}
    (h : nullTail? operator cs = some test) :
    test.operator = operator ∧ IsWord test.null ∧ test.rest <:+ cs := by
  unfold nullTail? at h
  split at h
  · rename_i hn
    simp only [Option.some.injEq] at h
    subst h
    simp only [Bool.and_eq_true, decide_eq_true_eq] at hn
    have hletters := isWordChar_of_folded (by decide) hn.1
    refine ⟨rfl, isWord_of_letters ?_ hletters, List.drop_suffix 4 cs⟩
    intro he
    simp only at he
    simp [he, folded] at hn
  · simp at h

theorem skipBlanks_suffix (cs : List Char) : Text.skipBlanks cs <:+ cs := List.dropWhile_suffix _

theorem afterWord_suffix (cs : List Char) : Text.skipBlanks (Text.afterWord cs) <:+ cs :=
  (skipBlanks_suffix _).trans (List.dropWhile_suffix _)

theorem nullTest?_sign {cs : List Char} {test : NullTest} (h : nullTest? cs = some test) :
    IsSign test.operator ∧ IsWord test.null ∧ test.rest <:+ cs := by
  unfold nullTest? at h
  split at h
  · rename_i his
    unfold afterIs? at h
    split at h
    · rename_i hnot
      obtain ⟨hop, hnull, hrest⟩ := nullTail?_word h
      refine ⟨hop ▸ .isNot his hnot, hnull, hrest.trans ?_⟩
      exact (afterWord_suffix _).trans (afterWord_suffix _)
    · obtain ⟨hop, hnull, hrest⟩ := nullTail?_word h
      exact ⟨hop ▸ .is his, hnull, hrest.trans (afterWord_suffix _)⟩
  · simp at h

theorem head_scanned {c : Char} {cs rest : List Char} {ts : List Token}
    (hcs : '\n' ∉ c :: cs) (h : head c cs = .ok (ts, rest)) :
    (∀ t ∈ ts, t.Scanned) ∧ rest <:+ c :: cs := by
  unfold head at h
  split at h
  · rename_i sign rest' hs
    simp only [Except.ok.injEq, Prod.mk.injEq] at h
    obtain ⟨rfl, rfl⟩ := h
    obtain ⟨hsign, happ⟩ := doubleSign?_sign hs
    exact ⟨by simpa [Scanned] using hsign, ⟨_, happ⟩⟩
  · rename_i test hn
    simp only [Except.ok.injEq, Prod.mk.injEq] at h
    obtain ⟨rfl, rfl⟩ := h
    obtain ⟨hop, hnull, hrest⟩ := nullTest?_sign hn
    exact ⟨by simpa [Scanned] using ⟨hop, hnull⟩, hrest⟩
  · split at h
    · rename_i hc
      simp only [Except.ok.injEq, Prod.mk.injEq] at h
      obtain ⟨rfl, rfl⟩ := h
      refine ⟨?_, List.suffix_cons c _⟩
      simpa [Scanned] using IsSign.single hc
    · unfold wordHead at h
      split at h
      · simp at h
      · simp at h
      · rename_i text rest' hne hw
        simp only [Except.ok.injEq, Prod.mk.injEq] at h
        obtain ⟨rfl, rfl⟩ := h
        refine ⟨?_, ⟨_, splitWord_append hw⟩⟩
        simpa [Scanned] using isWord_of_splitWord hw hne hcs

/- Lines. -/

theorem lineFrom_nil (number width : Nat) {cs : List Char} (h : Text.skipBlanks cs = []) :
    lineFrom number width cs = .ok [] := by
  rw [lineFrom]
  split <;> simp_all

theorem lineFrom_fault (number width : Nat) {cs r : List Char} {c : Char} {fault : Fault}
    (hskip : Text.skipBlanks cs = c :: r) (hhead : head c r = .error fault) :
    lineFrom number width cs = .error (fault.located number width (c :: r).length) := by
  rw [lineFrom]
  split <;> simp_all
  split <;> simp_all

theorem lineFrom_cons (number width : Nat) {cs r rest : List Char} {c : Char} {ts : List Token}
    (hskip : Text.skipBlanks cs = c :: r) (hhead : head c r = .ok (ts, rest)) :
    lineFrom number width cs = (ts ++ ·) <$> lineFrom number width rest := by
  rw [lineFrom]
  split <;> simp_all
  split <;> simp_all

theorem lineFrom_scanned {number width : Nat} {cs : List Char} {ts : List Token}
    (hcs : '\n' ∉ cs) (h : lineFrom number width cs = .ok ts) : ∀ t ∈ ts, t.Scanned := by
  induction cs using lineFrom.induct generalizing ts with
  | case1 cs hskip =>
    rw [lineFrom_nil number width hskip] at h
    cases h
    simp
  | case2 cs c r hskip fault hhead => simp [lineFrom_fault number width hskip hhead] at h
  | case3 cs c r hskip us rest hhead _ ih =>
    have hr : '\n' ∉ c :: r := fun hm => hcs ((skipBlanks_suffix cs).mem (hskip ▸ hm))
    obtain ⟨hus, hrest⟩ := head_scanned hr hhead
    rw [lineFrom_cons number width hskip hhead] at h
    cases hl : lineFrom number width rest with
    | error e =>
      rw [hl] at h
      cases h
    | ok vs =>
      rw [hl] at h
      cases h
      have hvs := ih (fun hm => hr (hrest.mem hm)) hl
      simpa [or_imp, forall_and] using ⟨hus, hvs⟩

theorem lines_oneLine (cs : List Char) : ∀ l ∈ Text.lines cs, '\n' ∉ l := by
  induction cs using Text.lines.induct with
  | case1 => simp [Text.lines]
  | case2 cs ih => simpa [Text.lines] using ih
  | case3 cs ih => simpa [Text.lines] using ih
  | case4 c cs hn hr hl ih =>
    rw [Text.lines, hl]
    · simpa using fun h => hn h.symm
    · exact hn
    · exact hr
  | case5 c cs hn hr line rest hl ih =>
    rw [hl] at ih
    rw [Text.lines, hl]
    · rw [List.forall_mem_cons] at ih ⊢
      refine ⟨?_, ih.2⟩
      rw [List.mem_cons, not_or]
      exact ⟨fun h => hn h.symm, ih.1⟩
    · exact hn
    · exact hr

theorem mem_joinLines {t : Token} {first rest : List Token} (h : t ∈ joinLines first rest) :
    t ∈ first ∨ t = .newline ∨ t ∈ rest := by
  unfold joinLines at h
  split at h
  · exact .inr (.inr h)
  split at h
  · exact .inl h
  · simpa only [List.mem_append, List.mem_cons] using h

theorem linesFrom_scanned {number : Nat} {ls : List (List Char)} {ts : List Token}
    (hls : ∀ l ∈ ls, '\n' ∉ l) (h : linesFrom number ls = .ok ts) : ∀ t ∈ ts, t.Scanned := by
  induction ls generalizing number ts with
  | nil =>
    cases h
    simp
  | cons l ls ih =>
    unfold linesFrom at h
    cases hline : line number l with
    | error e => simp [hline, bind, Except.bind] at h
    | ok first =>
      cases hrest : linesFrom (number + 1) ls with
      | error e => simp [hline, hrest, bind, Except.bind] at h
      | ok rest =>
        rw [hline, hrest] at h
        cases h
        intro t ht
        rcases mem_joinLines ht with ht | rfl | ht
        · exact lineFrom_scanned (hls l (by simp)) hline t ht
        · trivial
        · exact ih (fun l' hl' => hls l' (by simp [hl'])) hrest t ht

theorem scan_scanned {text : String} {ts : List Token} (h : scan text = .ok ts) :
    ∀ t ∈ ts, t.Scanned :=
  linesFrom_scanned (lines_oneLine _) h

/- Words joined by blanks. -/

theorem endsWord_nil : EndsWord [] := rfl

theorem endsWord_blank (cs : List Char) : EndsWord (' ' :: cs) := by
  show Text.isBlank ' ' = true
  decide

theorem lineFrom_blank (number width : Nat) {b : Char} (hb : Text.isBlank b = true)
    (cs : List Char) : lineFrom number width (b :: cs) = lineFrom number width cs := by
  have hskip : Text.skipBlanks (b :: cs) = Text.skipBlanks cs := by simp [Text.skipBlanks, hb]
  cases hs : Text.skipBlanks cs with
  | nil => rw [lineFrom_nil _ _ (hskip.trans hs), lineFrom_nil _ _ hs]
  | cons c r =>
    cases hh : head c r with
    | error fault => rw [lineFrom_fault _ _ (hskip.trans hs) hh, lineFrom_fault _ _ hs hh]
    | ok result => rw [lineFrom_cons _ _ (hskip.trans hs) hh, lineFrom_cons _ _ hs hh]

theorem IsWord.first {w : List Char} (h : IsWord w) :
    ∃ c cs, w = c :: cs ∧ (isWordChar c || isQuote c) = true := by
  cases w with
  | nil => exact absurd rfl h.ne_nil
  | cons c cs =>
    refine ⟨c, cs, rfl, ?_⟩
    rw [← Bool.not_eq_false]
    intro hc
    rw [Bool.or_eq_false_iff] at hc
    have hsplit := h.split [] rfl
    simp [splitWord, wordFrom, hc.1, hc.2, callable] at hsplit

theorem endsWord_afterWord (cs : List Char) : EndsWord (Text.afterWord cs) := by
  induction cs with
  | nil => rfl
  | cons c cs ih =>
    by_cases hc : Text.isBlank c = true
    · simp [EndsWord, Text.afterWord, hc]
    · simpa [EndsWord, Text.afterWord, hc] using ih

theorem IsWord.split_stop {w next : List Char} (h : IsWord w) (hn : StopsWord next) :
    splitWord (w ++ next) = .ok (w, next) := by
  obtain ⟨v, hv, hnext⟩ := wordFrom_again (h.split [] endsWord_nil)
  rw [List.append_nil, List.append_nil] at hv
  subst hv
  exact hnext next hn

theorem IsWord.eq_keyword {w next keyword : List Char} (h : IsWord w) (hn : StopsWord next)
    (hk : keyword.all isWordChar = true) (hw : folded (Text.firstWord (w ++ next)) = keyword) :
    Text.firstWord (w ++ next) = w ∧ Text.afterWord (w ++ next) = next := by
  have happ := Text.firstWord_append (w ++ next)
  have hafter := (endsWord_afterWord (w ++ next)).stops
  have hletters := wordFrom_letters (isWordChar_of_folded hk hw) hafter []
  rw [happ] at hletters
  have hboth := (h.split_stop hn).symm.trans hletters
  simpa using hboth.symm

theorem afterIs?_none (is : List Char) {c : Char} (hc : c.toLower ≠ 'n') (cs : List Char) :
    afterIs? is (c :: cs) = none := by
  have hnot : folded (Text.firstWord (c :: cs)) ≠ "not".toList := by
    unfold Text.firstWord
    intro he
    rw [List.takeWhile_cons] at he
    split at he
    · exact hc (List.cons.inj he).1
    · exact absurd he (by decide)
  have hnull : folded ((c :: cs).take 4) ≠ "null".toList := by
    intro he
    exact hc (List.cons.inj he).1
  rw [afterIs?, if_neg hnot, nullTail?, decide_eq_false hnull]
  rfl

/-- After a word that is not `is`, or before one that does not start as `not` or `null`, there is no
test for null. -/
theorem nullTest?_none {w next : List Char} (h : IsWord w) (hn : StopsWord next)
    (hnext : folded w = "is".toList → ∀ c ∈ (Text.skipBlanks next).head?, c.toLower ≠ 'n') :
    nullTest? (w ++ next) = none := by
  unfold nullTest?
  split
  · rename_i his
    obtain ⟨hw, hafter⟩ := h.eq_keyword hn (by decide) his
    rw [hw] at his
    have hhead := hnext his
    rw [hw, hafter]
    cases hs : Text.skipBlanks next with
    | nil => rfl
    | cons c r => exact afterIs?_none w (hhead c (by simp [hs])) r
  · rfl

theorem doubleSign?_none {c : Char} (hc : c ∉ ['<', '!', '>']) (cs : List Char) :
    doubleSign? (c :: cs) = none := by
  cases cs with
  | nil => rfl
  | cons d cs =>
    have hd : (c, d) ∉ doubleSigns := by
      simp only [doubleSigns, List.mem_cons, Prod.mk.injEq, List.not_mem_nil, or_false] at hc ⊢
      grind
    simp [doubleSign?, hd]

theorem IsWord.isBlank_first {c : Char} {cs : List Char} (h : IsWord (c :: cs)) :
    Text.isBlank c = false := by
  obtain ⟨d, ds, he, hd⟩ := h.first
  obtain ⟨rfl, rfl⟩ := List.cons.inj he
  rw [← Bool.not_eq_true]
  intro hb
  simp [isWordChar_of_isBlank hb, isQuote_of_isBlank hb] at hd

theorem isSymbolChar_of_isQuote {c : Char} (h : isQuote c = true) : isSymbolChar c = false := by
  have hc : c = '\x27' ∨ c = '\x22' := by simpa [isQuote] using h
  rcases hc with rfl | rfl <;> decide

theorem IsWord.isSymbolChar_first {c : Char} {cs : List Char} (h : IsWord (c :: cs)) :
    isSymbolChar c = false := by
  obtain ⟨d, ds, he, hd⟩ := h.first
  obtain ⟨rfl, rfl⟩ := List.cons.inj he
  rcases Bool.or_eq_true_iff.1 hd with hw | hq
  · rw [← Bool.not_eq_true]
    intro hs
    simp [isWordChar_of_isSymbolChar hs] at hw
  · exact isSymbolChar_of_isQuote hq

theorem lineFrom_word (number width : Nat) {w next : List Char} (h : IsWord w)
    (hn : StopsWord next) (hnull : nullTest? (w ++ next) = none) :
    lineFrom number width (w ++ next) =
      (Token.word (String.ofList w) :: ·) <$> lineFrom number width next := by
  obtain ⟨c, cs, rfl, -⟩ := h.first
  have hsymbol := h.isSymbolChar_first
  have hsign : doubleSign? (c :: (cs ++ next)) = none := by
    refine doubleSign?_none ?_ _
    intro hm
    have hall : ['<', '!', '>'].all isSymbolChar = true := by decide
    simp [List.all_eq_true.1 hall c hm] at hsymbol
  have hskip : Text.skipBlanks (c :: cs ++ next) = c :: (cs ++ next) := by
    simp [Text.skipBlanks, h.isBlank_first]
  have hhead : head c (cs ++ next) = .ok ([.word (String.ofList (c :: cs))], next) := by
    have hsplit := h.split_stop hn
    rw [List.cons_append] at hsplit hnull
    simp [head, hsign, hnull, hsymbol, wordHead, hsplit]
  exact lineFrom_cons number width hskip hhead

/-- Words that may stand in a line with one blank between them. -/
def Joinable : List (List Char) → Prop
  | [] => True
  | [w] => IsWord w
  | w :: v :: rest =>
    IsWord w ∧ (folded w = "is".toList → ∀ c ∈ v.head?, c.toLower ≠ 'n') ∧ Joinable (v :: rest)

theorem Joinable.isWord {ws : List (List Char)} (h : Joinable ws) : ∀ w ∈ ws, IsWord w := by
  induction ws with
  | nil => simp
  | cons w ws ih =>
    cases ws with
    | nil => exact List.forall_mem_cons.2 ⟨h, by simp⟩
    | cons v rest => exact List.forall_mem_cons.2 ⟨h.1, ih h.2.2⟩

theorem lineFrom_join (number width : Nat) {ws : List (List Char)} (h : Joinable ws) :
    lineFrom number width ([' '].intercalate ws) =
      .ok (ws.map fun w => .word (String.ofList w)) := by
  induction ws with
  | nil => exact lineFrom_nil _ _ rfl
  | cons w ws ih =>
    cases ws with
    | nil =>
      have hnull := nullTest?_none h endsWord_nil.stops (by simp [Text.skipBlanks])
      have hw := lineFrom_word number width h endsWord_nil.stops hnull
      have hend : lineFrom number width [] = .ok [] := lineFrom_nil _ _ rfl
      rw [List.append_nil, hend] at hw
      rw [List.intercalate_singleton, hw]
      rfl
    | cons v rest =>
      have hv := h.2.2.isWord v (by simp)
      cases v with
      | nil => exact absurd rfl hv.ne_nil
      | cons c cs =>
        have hskip : Text.skipBlanks (' ' :: [' '].intercalate ((c :: cs) :: rest)) =
            [' '].intercalate ((c :: cs) :: rest) := by
          have hblank : Text.isBlank ' ' = true := by decide
          simp [Text.skipBlanks, hblank, hv.isBlank_first]
        have hnull : nullTest? (w ++ ' ' :: [' '].intercalate ((c :: cs) :: rest)) = none := by
          refine nullTest?_none h.1 (endsWord_blank _).stops fun his d hd => h.2.1 his d ?_
          rw [hskip] at hd
          cases rest <;> simpa [List.intercalate_cons_cons] using hd
        rw [List.intercalate_cons_cons, List.append_assoc, List.singleton_append,
          lineFrom_word number width h.1 (endsWord_blank _).stops hnull,
          lineFrom_blank _ _ (by decide), ih h.2.2]
        rfl

theorem lines_of_oneLine {cs : List Char} (hne : cs ≠ []) (hcs : '\n' ∉ cs) :
    Text.lines cs = [cs] := by
  induction cs with
  | nil => exact absurd rfl hne
  | cons c cs ih =>
    rw [List.mem_cons, not_or] at hcs
    rw [Text.lines]
    · cases cs with
      | nil => rfl
      | cons d cs => rw [ih (by simp) hcs.2]
    · exact fun h => hcs.1 h.symm
    · rintro ds rfl rfl
      simp at hcs

theorem join_oneLine {ws : List (List Char)} (h : ∀ w ∈ ws, '\n' ∉ w) :
    '\n' ∉ [' '].intercalate ws := by
  induction ws with
  | nil => simp
  | cons w ws ih =>
    rw [List.forall_mem_cons] at h
    cases ws with
    | nil => simpa using h.1
    | cons v rest =>
      rw [List.intercalate_cons_cons]
      simpa using ⟨h.1, ih h.2⟩

/-- Words that may be joined are what the joined text scans to. -/
theorem scan_join {ws : List String} (h : Joinable (ws.map String.toList)) :
    scan (" ".intercalate ws) = .ok (ws.map .word) := by
  have htext : (" ".intercalate ws).toList = [' '].intercalate (ws.map String.toList) :=
    String.toList_intercalate
  cases ws with
  | nil => rfl
  | cons w ws =>
    have hone := join_oneLine fun v hv => (h.isWord v hv).oneLine
    have hne : [' '].intercalate ((w :: ws).map String.toList) ≠ [] := by
      have hw := (h.isWord w.toList (by simp)).ne_nil
      cases ws <;> simp_all
    have hline := lineFrom_join 1 ([' '].intercalate ((w :: ws).map String.toList)).length h
    simp only [List.map_map, Function.comp_def, String.ofList_toList] at hline
    rw [scan, htext, lines_of_oneLine hne hone, linesFrom, line, hline]
    rfl

end Token

theorem scan_of_toOption {text : String} {ts : List Token}
    (h : (Token.scan text).toOption = some ts) : Token.scan text = .ok ts := by
  cases hs : Token.scan text with
  | error e => simp [hs, Except.toOption] at h
  | ok us => simpa [hs, Except.toOption] using h

end BracketQuery
