import BracketQuery.Proofs.ConditionSigns
import BracketQuery.Proofs.Flow
import Mathlib.Data.List.Forall2
import Mathlib.Data.List.TakeWhile

/-! Plain words, which are letters or one quoted literal, and the pieces of a statement that are
made of words: qualified names, keywords and lists. -/
namespace BracketQuery

namespace Token

/-- The rest of a literal after its first quote. Within it the quote is doubled. -/
def closes (q : Char) : List Char → Bool
  | [] => false
  | [c] => c = q
  | c :: d :: cs => if c = q then d = q && closes q cs else closes q (d :: cs)

def isQuoted : List Char → Bool
  | [] => false
  | q :: cs => isQuote q && closes q cs

/-- Word characters only, or one quoted literal. -/
def isPlain (w : List Char) : Bool := w.all isWordChar || isQuoted w

/-- Whatever was read of a word, the characters are more of it, and after them no literal and no
call is open. -/
def Settled (a : List Char) : Prop :=
  ∀ taken next, wordFrom taken 0 none (a ++ next) = wordFrom (a.reverse ++ taken) 0 none next

theorem Settled.append {a b : List Char} (ha : Settled a) (hb : Settled b) : Settled (a ++ b) := by
  intro taken next
  rw [List.append_assoc, ha, hb, List.reverse_append, List.append_assoc]

theorem settled_letters {w : List Char} (hw : w.all isWordChar = true) : Settled w := by
  induction w with
  | nil => exact fun _ _ => rfl
  | cons c w ih =>
    rw [List.all_cons, Bool.and_eq_true] at hw
    intro taken next
    rw [List.cons_append, wordFrom, if_pos hw.1, ih hw.2, List.reverse_cons, List.append_assoc]
    rfl

theorem isWordChar_of_isQuote {c : Char} (h : isQuote c = true) : isWordChar c = false := by
  have hc : c = '\x27' ∨ c = '\x22' := by simpa [isQuote] using h
  rcases hc with rfl | rfl <;> decide

theorem wordFrom_closes {q : Char} (hq : isQuote q = true) {cs : List Char}
    (h : closes q cs = true) (taken next : List Char) :
    wordFrom taken 0 (some q) (cs ++ next) = wordFrom (cs.reverse ++ taken) 0 none next := by
  have hword := isWordChar_of_isQuote hq
  induction cs using closes.induct q generalizing taken with
  | case1 => simp [closes] at h
  | case2 c =>
    obtain rfl : c = q := by simpa [closes] using h
    simp [wordFrom]
  | case3 d cs ih =>
    simp only [closes, if_true, Bool.and_eq_true, decide_eq_true_eq] at h
    obtain ⟨rfl, h⟩ := h
    simp [wordFrom, hword, hq, ih h]
  | case4 c d cs hc ih =>
    simp only [closes, if_neg hc] at h
    rw [List.cons_append, wordFrom, if_neg hc, ih h]
    simp

theorem settled_of_isPlain {w : List Char} (h : isPlain w = true) : Settled w := by
  rcases Bool.or_eq_true_iff.1 h with hw | hq
  · exact settled_letters hw
  cases w with
  | nil => simp [isQuoted] at hq
  | cons q cs =>
    rw [isQuoted, Bool.and_eq_true] at hq
    have hword := isWordChar_of_isQuote hq.1
    intro taken next
    have hcloses := wordFrom_closes hq.1 hq.2 (q :: taken) next
    simpa [wordFrom, hword, hq.1] using hcloses

theorem Settled.isWord {a : List Char} (h : Settled a) (hne : a ≠ []) (hone : '\n' ∉ a) :
    IsWord a := by
  refine ⟨hne, fun next hn => ?_, hone⟩
  rw [splitWord, h, List.append_nil, wordFrom_stop a.reverse hn.stops, List.reverse_reverse]

end Token

structure PlainWord (w : String) : Prop where
  isWord : Token.IsWord w.toList
  plain : Token.isPlain w.toList = true

theorem PlainWord.settled {w : String} (h : PlainWord w) : Token.Settled w.toList :=
  Token.settled_of_isPlain h.plain

/- Qualified names. -/

theorem PlainWord.call? {w : String} (h : PlainWord w) (hl : Sql.isLiteralText w.toList = false) :
    Sql.call? w.toList = none := by
  have hletters : w.toList.all Token.isWordChar = true := by
    rcases Bool.or_eq_true_iff.1 h.plain with hw | hq
    · exact hw
    · cases hcs : w.toList with
      | nil => rfl
      | cons q cs => simp_all [Sql.isLiteralText, Sql.marksLiteral, Token.isQuoted]
  have hdrop : w.toList.dropWhile (· != '(') = [] := by
    rw [List.dropWhile_eq_nil_iff]
    intro c hc
    rw [bne_iff_ne]
    rintro rfl
    exact absurd (List.all_eq_true.1 hletters _ hc) (by decide)
  rw [Sql.call?, hdrop]

theorem qualify_literal {w : String} (h : Sql.isLiteralText w.toList = true) (scope : String) :
    Sql.qualify w scope = w := by
  rw [Sql.qualify, Sql.qualifiedText, if_pos h, String.ofList_toList]

/-- A plain word gets the scope and a dot in front, unless it is a literal. -/
theorem PlainWord.qualify {w : String} (h : PlainWord w)
    (hl : Sql.isLiteralText w.toList = false) (scope : String) :
    Sql.qualify w scope = scope ++ "." ++ w := by
  have hcall := h.call? hl
  rw [Sql.qualify, Sql.qualifiedText, if_neg (Bool.eq_false_iff.1 hl)]
  refine String.toList_inj.1 ?_
  split <;> simp_all

theorem eq_or_of_toLower {c d : Char} (h : c.toLower = d) :
    c = d ∨ ∃ k < 26, c = Char.ofNat (65 + k) := by
  unfold Char.toLower at h
  split at h
  · rename_i hc
    have hn : 65 ≤ c.toNat ∧ c.toNat ≤ 90 := hc
    refine .inr ⟨c.toNat - 65, by omega, ?_⟩
    rw [Nat.add_sub_cancel' hn.1, Char.ofNat_toNat]
  · exact .inl h

theorem not_is_of_literal {cs : List Char} (h : Sql.isLiteralText cs = true) :
    folded cs ≠ "is".toList := by
  intro his
  have upper {d : Char} (hd : d ∈ ['i', 's']) : ∀ k < 26, (Char.ofNat (65 + k)).toLower = d →
      Char.ofNat (65 + k) = d.toUpper := by
    simp only [List.mem_cons, List.not_mem_nil, or_false] at hd
    rcases hd with rfl | rfl <;> decide
  have either {c d : Char} (hd : d ∈ ['i', 's']) (hc : c.toLower = d) : c = d ∨ c = d.toUpper := by
    rcases eq_or_of_toLower hc with he | ⟨k, hk, rfl⟩
    · exact .inl he
    · exact .inr (upper hd k hk hc)
  have hi : folded cs = 'i' :: ['s'] := his
  obtain ⟨a, cs', rfl, ha⟩ := Token.first_of_folded hi
  have hs : folded cs' = 's' :: [] := (List.cons.inj his).2
  obtain ⟨b, cs'', rfl, hb⟩ := Token.first_of_folded hs
  cases cs'' with
  | cons c cs => simp [folded] at his
  | nil =>
    rcases either (by simp) ha with rfl | rfl <;> rcases either (by simp) hb with rfl | rfl <;>
      exact absurd h (by decide)

open Token

theorem not_is_of_dot {cs : List Char} (h : '.' ∈ cs) : folded cs ≠ "is".toList := by
  intro his
  have hm : '.'.toLower ∈ folded cs := List.mem_map_of_mem h
  rw [his] at hm
  exact absurd hm (by decide)

theorem Token.Before.dotted {w : String} (hs : Settled w.toList) (hone : '\n' ∉ w.toList)
    (hdot : '.' ∈ w.toList) : Before StopsWord w [.word w] :=
  .word (hs.isWord (List.ne_nil_of_mem hdot) hone) (not_is_of_dot hdot)

theorem PlainWord.before_qualify {w scope : String} (h : PlainWord w) (hscope : PlainWord scope) :
    Before StopsWord (Sql.qualify w scope) [.word (Sql.qualify w scope)] := by
  cases hl : Sql.isLiteralText w.toList with
  | true =>
    rw [qualify_literal hl]
    exact .word h.isWord (not_is_of_literal hl)
  | false =>
    rw [h.qualify hl]
    have hdot : Settled ['.'] := settled_letters (by decide)
    refine .dotted ?_ ?_ (by simp)
    · simpa using (hscope.settled.append hdot).append h.settled
    · simp [hscope.isWord.oneLine, h.isWord.oneLine]

/- Keywords. -/

theorem split_of_folded {cs a b : List Char} (h : folded cs = a ++ ' ' :: b) :
    ∃ v w, cs = v ++ ' ' :: w ∧ folded v = a ∧ folded w = b := by
  obtain ⟨v, rest, rfl, hv, hrest⟩ := List.map_eq_append_iff.1 h
  obtain ⟨c, w, rfl, hc, hw⟩ := List.map_eq_cons_iff.1 hrest
  have hblank : c = ' ' := by
    have upper : ∀ k < 26, (Char.ofNat (65 + k)).toLower ≠ ' ' := by decide
    rcases eq_or_of_toLower hc with he | ⟨k, hk, rfl⟩
    · exact he
    · exact absurd hc (upper k hk)
  exact ⟨v, w, by rw [hblank], hv, hw⟩

theorem toList_join (w v : String) (ws : List String) : (" ".intercalate (w :: v :: ws)).toList =
    w.toList ++ ' ' :: (" ".intercalate (v :: ws)).toList := by
  simp [String.intercalate_cons_cons]

theorem exists_words {ks : List String} (hne : ks ≠ []) {w : String}
    (h : spells w (" ".intercalate ks) = true) : ∃ ws : List String, w = " ".intercalate ws ∧
      ws.map (fun v => folded v.toList) = ks.map (fun k => folded k.toList) := by
  induction ks generalizing w with
  | nil => exact absurd rfl hne
  | cons k ks ih =>
    cases ks with
    | nil => exact ⟨[w], by simp, by simpa [spells] using h⟩
    | cons k' ks =>
      rw [spells, beq_iff_eq, toList_join, folded_append] at h
      obtain ⟨v, u, hw, hv, hu⟩ := split_of_folded h
      have hspells : spells (String.ofList u) (" ".intercalate (k' :: ks)) = true := by
        rw [spells, String.toList_ofList, beq_iff_eq]
        exact hu
      obtain ⟨ws, hws, hfold⟩ := ih (by simp) hspells
      have hne : ws ≠ [] := by
        rintro rfl
        simp at hfold
      obtain ⟨x, xs, rfl⟩ := List.exists_cons_of_ne_nil hne
      refine ⟨String.ofList v :: x :: xs, String.toList_inj.1 ?_, ?_⟩
      · rw [toList_join, ← hws, hw, String.toList_ofList, String.toList_ofList]
      · rw [List.map_cons, hfold, String.toList_ofList, hv]
        rfl

theorem Text.words_join {ws : List String} (h : ∀ w ∈ ws, Text.Solid w) :
    Text.words (" ".intercalate ws) = ws := by
  induction ws with
  | nil => simp [Text.words, Text.wordsFrom]
  | cons w ws ih =>
    rw [List.forall_mem_cons] at h
    cases ws with
    | nil => simpa using Text.words_solid h.1
    | cons v ws =>
      have hblank : Text.isBlank ' ' = true := by decide
      have hw := Text.wordsFrom_solid h.1.noBlank []
        (' ' :: (" ".intercalate (v :: ws)).toList)
      rw [List.append_nil, Text.wordsFrom, if_pos hblank, List.isEmpty_reverse] at hw
      have hrest : (Text.wordsFrom [] (" ".intercalate (v :: ws)).toList).map String.ofList =
          v :: ws := ih h.2
      rw [Text.words, toList_join, hw, if_neg (by simpa using h.1.ne_nil), List.map_cons, hrest]
      simp

def wordTokens (text : String) : List Token := (Text.words text).map .word

theorem Token.skipBlanks_firstLine {v : List Char} (hv : IsWord v) (next : List Char) :
    Text.skipBlanks (firstLine (' ' :: (v ++ next))) = v ++ firstLine next := by
  have hfront : '\n' ∉ [' '] := by decide
  have hcompact : Compact (' ' :: v) := hv.compact.append hfront
  have hlines := lines_compact hcompact next
  rw [List.cons_append] at hlines
  rw [firstLine, hlines, List.headD_cons, List.cons_append, hv.skipBlanks]

theorem Token.endsName_word {v : List Char} (hv : IsWord v)
    (hfirst : ∀ c ∈ v.head?, c.toLower ≠ 'n') (next : List Char) :
    EndsName (' ' :: (v ++ next)) := by
  refine ⟨stopsWord_blank (by decide) _, ?_⟩
  rw [skipBlanks_firstLine hv]
  obtain ⟨c, cs, rfl, -⟩ := hv.first
  exact hfirst

theorem Token.Before.join {P : List Char → Prop} {ws : List String}
    (h : Joinable (ws.map String.toList)) (hP : ∀ w ∈ ws, Before P w [.word w]) :
    Before P (" ".intercalate ws) (ws.map .word) := by
  induction ws with
  | nil => exact .empty
  | cons w ws ih =>
    rw [List.forall_mem_cons] at hP
    cases ws with
    | nil => simpa using hP.1
    | cons v ws =>
      obtain ⟨hw, hcalm, hrest⟩ := h
      intro next us hn hf
      have hflow := (ih hrest hP.2 next us hn hf).blank (b := ' ') (by decide)
      have hv : IsWord v.toList := hrest.isWord _ (by simp)
      obtain ⟨rest, hjoin⟩ : ∃ rest, (" ".intercalate (v :: ws)).toList = v.toList ++ rest := by
        cases ws with
        | nil => exact ⟨[], by simp⟩
        | cons x xs => exact ⟨_, toList_join v x xs⟩
      rw [hjoin, List.append_assoc] at hflow
      have hword := hflow.word hw (stopsWord_blank (by decide) _) fun his => by
        rw [skipBlanks_firstLine hv]
        obtain ⟨c, cs, hc, -⟩ := hv.first
        rw [hc] at hcalm ⊢
        exact hcalm his
      rw [toList_join, hjoin]
      simpa using hword

/-- Words, none of which is `is`, with a blank between them. -/
def isPhrase (k : String) : Bool :=
  isAscii k && !(Text.words k).isEmpty && " ".intercalate (Text.words k) == k &&
    (Text.words k).all fun w => isLettered w && !spells w "is"

theorem words_of_spells {w k : String} (hk : isPhrase k = true) (h : spells w k = true) :
    w = " ".intercalate (Text.words w) ∧
      (Text.words w).map (fun v => folded v.toList) =
        (Text.words k).map (fun v => folded v.toList) := by
  simp only [isPhrase, Bool.and_eq_true, Bool.not_eq_true', beq_iff_eq, List.all_eq_true] at hk
  obtain ⟨⟨⟨-, hne⟩, hjoin⟩, hall⟩ := hk
  rw [← hjoin] at h
  obtain ⟨ws, rfl, hfold⟩ := exists_words (by simpa using hne) h
  have hsolid : ∀ v ∈ ws, Text.Solid v := by
    intro v hv
    have hm : folded v.toList ∈ (Text.words k).map fun u => folded u.toList := by
      rw [← hfold]
      exact List.mem_map.2 ⟨v, hv, rfl⟩
    obtain ⟨u, hu, hf⟩ := List.mem_map.1 hm
    exact solid_of_spells (hall u hu).1 (by simp [spells, hf])
  rw [Text.words_join hsolid]
  exact ⟨rfl, hfold⟩

theorem Token.Before.phrase {w k : String} (hk : isPhrase k = true) (h : spells w k = true) :
    Before StopsWord w (wordTokens w) := by
  obtain ⟨hjoin, hfold⟩ := words_of_spells hk h
  have hwords : ∀ v ∈ Text.words w, IsWord v.toList ∧ folded v.toList ≠ "is".toList := by
    intro v hv
    have hm : folded v.toList ∈ (Text.words k).map fun u => folded u.toList := by
      rw [← hfold]
      exact List.mem_map.2 ⟨v, hv, rfl⟩
    obtain ⟨u, hu, hf⟩ := List.mem_map.1 hm
    simp only [isPhrase, Bool.and_eq_true, Bool.not_eq_true', List.all_eq_true] at hk
    obtain ⟨hlettered, his⟩ := hk.2 u hu
    have hspells : spells v u = true := by simp [spells, hf]
    have hsolid := solid_of_spells hlettered hspells
    simp only [isLettered, Bool.and_eq_true] at hlettered
    have hletters := isWordChar_of_folded hlettered.2 hf.symm
    refine ⟨isWord_of_letters hsolid.ne_nil hletters, fun he => ?_⟩
    rw [spells, hf, he] at his
    exact absurd his (by decide)
  have hjoinable : Joinable ((Text.words w).map String.toList) := by
    generalize Text.words w = ws at hwords
    induction ws with
    | nil => trivial
    | cons v ws ih =>
      rw [List.forall_mem_cons] at hwords
      cases ws with
      | nil => exact hwords.1.1
      | cons u ws => exact ⟨hwords.1.1, fun he => absurd he hwords.1.2, ih hwords.2⟩
  have hbefore := Before.join hjoinable fun v hv => .word (hwords v hv).1 (hwords v hv).2
  rwa [← hjoin] at hbefore

/-- Where a keyword is kept as written, it spells the canonical one. -/
def Spelling.Fits (written : Spelling) (canonical : String) : Prop :=
  ∀ w ∈ written, spells w canonical = true

variable (casing : Sql.Casing)

theorem Spelling.Fits.spells {written : Spelling} {canonical : String} (h : written.Fits canonical)
    (hk : isAscii canonical = true) :
    BracketQuery.spells (casing.keyword written canonical) canonical = true := by
  cases written with
  | none =>
    rw [Sql.Casing.keyword, Option.getD_none, casing.spells_apply hk]
    simp [BracketQuery.spells]
  | some w => exact h w rfl

theorem isAscii_of_isPhrase {k : String} (h : isPhrase k = true) : isAscii k = true := by
  simp only [isPhrase, Bool.and_eq_true] at h
  exact h.1.1.1

theorem Spelling.Fits.before {written : Spelling} {canonical : String} (h : written.Fits canonical)
    (hk : isPhrase canonical = true) :
    Before StopsWord (casing.keyword written canonical)
      (wordTokens (casing.keyword written canonical)) :=
  .phrase hk (h.spells casing (isAscii_of_isPhrase hk))

theorem Token.Before.applied {canonical : String} (hk : isPhrase canonical = true) :
    Before StopsWord (casing.apply canonical) (wordTokens (casing.apply canonical)) := by
  refine .phrase hk ?_
  rw [casing.spells_apply (isAscii_of_isPhrase hk)]
  simp [spells]

/- Operators. -/

def wordOperators : List String :=
  ["and", "or", "like", "ilike", "glob", "regexp", "not like", "not ilike", "not glob",
    "not regexp"]

def comparisonSigns : List String := ["<", ">", "!", "=", "<>", "!=", "<=", ">="]

theorem operatorTokens_words {op k : String} (hk : k ∈ wordOperators) (h : spells op k = true) :
    operatorTokens op = wordTokens op := by
  have hphrase : ∀ k ∈ wordOperators, isPhrase k = true := by decide
  obtain ⟨-, hfold⟩ := words_of_spells (hphrase k hk) h
  have hshape : ∀ k ∈ wordOperators,
      (∃ v ∈ Text.words k, Text.words k = [v] ∧
        ((WordOperator.ofWord? v).isSome || (Connective.ofWord? v).isSome) = true) ∨
      (∃ n ∈ Text.words k, ∃ v ∈ Text.words k, Text.words k = [n, v] ∧ spells n "not" = true ∧
        (WordOperator.ofWord? v).isSome = true) := by decide
  have same {v u : String} (he : folded v.toList = folded u.toList) : spells v = spells u := by
    funext k
    simp [spells, he]
  rcases hshape k hk with ⟨v, -, hv, hop⟩ | ⟨n, -, v, -, hv, hn, hop⟩
  · rw [hv] at hfold
    obtain ⟨u, us, hu, huv, hus⟩ := List.map_eq_cons_iff.1 hfold
    obtain rfl := List.map_eq_nil_iff.1 hus
    have hs := same huv
    rw [WordOperator.ofWord?, Connective.ofWord?, ← hs] at hop
    rw [operatorTokens, wordTokens, hu]
    exact if_pos hop
  · rw [hv] at hfold
    obtain ⟨m, us, hm, hmn, hus⟩ := List.map_eq_cons_iff.1 hfold
    obtain ⟨u, us', rfl, huv, hus'⟩ := List.map_eq_cons_iff.1 hus
    obtain rfl := List.map_eq_nil_iff.1 hus'
    rw [← same hmn] at hn
    rw [WordOperator.ofWord?, ← same huv] at hop
    rw [operatorTokens, wordTokens, hm]
    exact if_pos (Bool.and_eq_true_iff.2 ⟨hn, hop⟩)

theorem spells_word_of_spells {op k : String} (h : spells op k = true) (hk : isAscii k = true) :
    spells (casing.word op) k = true := by
  have hfold : ∀ c ∈ k.toList, c.toLower.toNat < 128 := by
    have hall : ∀ n < 128, (Char.ofNat n).toLower.toNat < 128 := by decide
    intro c hc
    have hn : c.toNat < 128 := by simpa using List.all_eq_true.1 hk c hc
    simpa using hall c.toNat hn
  have hascii : isAscii op = true := isAscii_of_spells h (by simpa [isAscii, folded] using hfold)
  rw [casing.spells_word hascii, h]

theorem Token.Before.sign {s : String} (h : s ∈ comparisonSigns) :
    Before Anything (s ++ " ") [.symbol s] := by
  have hsign : IsSign s.toList := by
    simp only [comparisonSigns, List.mem_cons, List.not_mem_nil, or_false] at h
    rcases h with rfl | rfl | rfl | rfl | rfl | rfl | rfl | rfl
    iterate 4 exact .single (by decide)
    iterate 4 exact .double (by decide)
  have htest : ¬ IsTest s.toList := by
    intro ht
    obtain ⟨c, cs, hc, hi⟩ := ht.first
    have hall : ∀ s ∈ comparisonSigns, s.toList.head?.all (·.toLower != 'i') = true := by decide
    simpa [hc, hi] using hall s h
  intro next us _ hf
  have hblank := hf.blank (b := ' ') (by decide)
  have hflow := hblank.sign hsign htest (endsWord_blank next)
  rw [String.ofList_toList] at hflow
  simpa using hflow

theorem casing_word_sign : ∀ s ∈ comparisonSigns, casing.word s = s := by
  cases casing <;> decide

theorem Token.Before.operator {op : String} (h : op ∈ comparisonSigns ∨
    ∃ k ∈ wordOperators, spells op k = true) :
    Before Anything (casing.word op ++ " ") (operatorTokens (casing.word op)) := by
  have hphrase : ∀ k ∈ wordOperators, isPhrase k = true := by decide
  have htokens : ∀ s ∈ comparisonSigns, operatorTokens s = [.symbol s] := by decide
  rcases h with hs | ⟨k, hk, hop⟩
  · rw [casing_word_sign casing op hs, htokens op hs]
    exact .sign hs
  · have hspells := spells_word_of_spells casing hop (isAscii_of_isPhrase (hphrase k hk))
    rw [operatorTokens_words hk hspells]
    exact (Before.phrase (hphrase k hk) hspells).blank

theorem isTest_of_spells {op : String} (h : spells op "is" = true ∨ spells op "is not" = true) :
    IsTest op.toList := by
  rcases h with h | h
  · exact .is (beq_iff_eq.1 h)
  · obtain ⟨v, w, hop, hv, hw⟩ := split_of_folded (a := ['i', 's']) (beq_iff_eq.1 h)
    rw [hop]
    exact .isNot hv hw

theorem Token.Before.test {op null : String}
    (h : spells op "is" = true ∨ spells op "is not" = true) (hnull : spells null "null" = true) :
    Before StopsWord (casing.word op ++ " " ++ null)
      (operatorTokens (casing.word op) ++ [.word null]) := by
  have hword : spells (casing.word op) "is" = true ∨ spells (casing.word op) "is not" = true :=
    h.imp (spells_word_of_spells casing · (by decide)) (spells_word_of_spells casing · (by decide))
  have htest := isTest_of_spells hword
  rw [operatorTokens_sign htest.isSign]
  intro next us hn hf
  have hflow := hf.test htest (beq_iff_eq.1 hnull) hn
  rw [String.ofList_toList, String.ofList_toList] at hflow
  simpa using hflow

/- Lists. -/

theorem Token.endsName_comma (next : List Char) : EndsName (',' :: next) := by
  have hfirst : firstLine (',' :: next) = ',' :: firstLine next := by
    rw [firstLine, lines_cons (by decide) fun he => absurd he (by decide)]
    rfl
  refine ⟨?_, ?_⟩
  · show (!isWordChar ',' && !isQuote ',' && ',' != '(') = true
    decide
  · have hblank : Text.isBlank ',' = false := by decide
    simp [hfirst, Text.skipBlanks, hblank]

theorem Token.Before.intercalate {P : List Char → Prop} {sep : String} {between : List Token}
    (hsep : Before Anything sep between) (hP : ∀ next, P (sep.toList ++ next))
    {texts : List String} {parts : List (List Token)} (h : List.Forall₂ (Before P) texts parts) :
    Before P (sep.intercalate texts) (between.intercalate parts) := by
  induction h with
  | nil => exact .empty
  | @cons s ts texts parts hs hrest ih =>
    cases hrest with
    | nil => simpa using hs
    | cons hs' hrest =>
      rw [String.intercalate_cons_cons, List.intercalate_cons_cons]
      exact (hs.append_of hsep fun next _ => hP next).append ih

end BracketQuery
