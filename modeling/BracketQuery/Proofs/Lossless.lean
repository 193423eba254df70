import BracketQuery.Proofs.CallArguments
import BracketQuery.Proofs.Unscan
import Mathlib.Data.List.Forall2
import Mathlib.Data.List.TakeWhile

/-! Scanning loses nothing: each line of a text is its tokens, as they were written, with blanks
around them, and a line mark stands between the tokens of two lines and nowhere else. -/
namespace BracketQuery.Token

/-- What a token can be read from: its own text, or `is not` with other blanks in it. -/
inductive Origin : Token → List Char → Prop
  | word (w : String) : Origin (.word w) w.toList
  | symbol (s : String) : Origin (.symbol s) s.toList
  | isNot {is not gap : List Char} (his : folded is = "is".toList)
      (hnot : folded not = "not".toList) (hne : gap ≠ [])
      (hgap : ∀ c ∈ gap, Text.isBlank c = true) :
    Origin (.symbol (String.ofList (is ++ ' ' :: not))) (is ++ gap ++ not)

/-- The line is what the tokens are read from, in their order, and blanks. -/
inductive Fills : List Token → List Char → Prop
  | nil {blanks : List Char} (h : ∀ c ∈ blanks, Text.isBlank c = true) : Fills [] blanks
  | cons {t : Token} {ts : List Token} {blanks source rest : List Char}
      (h : ∀ c ∈ blanks, Text.isBlank c = true) (ht : Origin t source) (hts : Fills ts rest) :
    Fills (t :: ts) (blanks ++ source ++ rest)

theorem Fills.before {ts : List Token} {l front : List Char} (h : Fills ts l)
    (hf : ∀ c ∈ front, Text.isBlank c = true) : Fills ts (front ++ l) := by
  cases h with
  | nil hb => exact .nil (List.forall_mem_append.2 ⟨hf, hb⟩)
  | cons hb ht hts =>
    rw [← List.append_assoc, ← List.append_assoc]
    exact .cons (List.forall_mem_append.2 ⟨hf, hb⟩) ht hts

theorem Fills.after {ts : List Token} {l back : List Char} (h : Fills ts l)
    (hb : ∀ c ∈ back, Text.isBlank c = true) : Fills ts (l ++ back) := by
  induction h with
  | nil hl => exact .nil (List.forall_mem_append.2 ⟨hl, hb⟩)
  | cons hl ht _ ih =>
    rw [List.append_assoc]
    exact .cons hl ht ih

theorem Fills.first {t : Token} {ts : List Token} {source rest : List Char} (ht : Origin t source)
    (hts : Fills ts rest) : Fills (t :: ts) (source ++ rest) := by
  have h : Fills (t :: ts) ([] ++ source ++ rest) := .cons (by simp) ht hts
  exact h

theorem Origin.ofWord (w : List Char) : Origin (.word (String.ofList w)) w := by
  simpa using Origin.word (String.ofList w)

theorem Origin.ofSymbol (s : List Char) : Origin (.symbol (String.ofList s)) s := by
  simpa using Origin.symbol (String.ofList s)

theorem nullTail?_split {operator cs : List Char} {test : NullTest}
    (h : nullTail? operator cs = some test) : test.null ++ test.rest = cs := by
  obtain ⟨-, htest⟩ := Option.ite_none_right_eq_some.1 h
  cases htest
  exact List.take_append_drop 4 cs

theorem afterWord_split (cs : List Char) : ∃ gap, (∀ c ∈ gap, Text.isBlank c = true) ∧
    (Text.firstWord (Text.skipBlanks (Text.afterWord cs)) ≠ [] → gap ≠ []) ∧
    cs = Text.firstWord cs ++ (gap ++ Text.skipBlanks (Text.afterWord cs)) := by
  obtain ⟨gap, hgap, hafter⟩ := Text.skipBlanks_split (Text.afterWord cs)
  refine ⟨gap, hgap, ?_, by rw [← hafter, Text.firstWord_append]⟩
  -- without blanks the first word would go on
  rintro hword rfl
  have hends := endsWord_afterWord cs
  rw [← show Text.afterWord cs = Text.skipBlanks (Text.afterWord cs) from hafter] at hword
  cases hcs : Text.afterWord cs with
  | nil => simp [hcs, Text.firstWord] at hword
  | cons c rest =>
    rw [hcs] at hword hends
    simp [Text.firstWord, show Text.isBlank c = true from hends] at hword

/-- A test for null is read from its two words, or three, and the blanks between them. -/
theorem nullTest?_origin {cs : List Char} {test : NullTest} (h : nullTest? cs = some test) :
    ∃ source blanks, Origin (.symbol (String.ofList test.operator)) source ∧
      (∀ c ∈ blanks, Text.isBlank c = true) ∧
      cs = source ++ (blanks ++ test.null ++ test.rest) := by
  obtain ⟨his, hafter⟩ := Option.ite_none_right_eq_some.1 h
  obtain ⟨gap, hgap, hne, hcs⟩ := afterWord_split cs
  unfold afterIs? at hafter
  split at hafter
  · rename_i hnot
    have hword : Text.firstWord (Text.skipBlanks (Text.afterWord cs)) ≠ [] := by
      intro he
      simp [he, folded] at hnot
    obtain ⟨blanks, hblanks, -, hrest⟩ := afterWord_split (Text.skipBlanks (Text.afterWord cs))
    rw [(nullTail?_word hafter).1]
    refine ⟨_, blanks, .isNot his hnot (hne hword) hgap, hblanks, ?_⟩
    rw [List.append_assoc blanks, nullTail?_split hafter, List.append_assoc, List.append_assoc,
      ← hrest, ← hcs]
  · rw [(nullTail?_word hafter).1]
    refine ⟨_, gap, .ofSymbol _, hgap, ?_⟩
    rw [List.append_assoc, nullTail?_split hafter, ← hcs]

theorem Begins.fills {cs rest : List Char} {us vs : List Token} (h : Begins cs us rest)
    (hvs : Fills vs rest) : Fills (us ++ vs) cs := by
  cases h with
  | double h hcs =>
    subst hcs
    exact .first (.ofSymbol _) hvs
  | test h =>
    obtain ⟨source, blanks, hsource, hblanks, rfl⟩ := nullTest?_origin h
    exact .first hsource (.cons hblanks (.ofWord _) hvs)
  | single h hcs =>
    subst hcs
    exact .first (.ofSymbol _) hvs
  | word h hne hnull =>
    rw [← splitWord_append h]
    exact .first (.ofWord _) hvs

theorem Begins.ne_nil {cs rest : List Char} {us : List Token} (h : Begins cs us rest) :
    us ≠ [] := by
  cases h <;> exact List.cons_ne_nil _ _

theorem lineFrom_fills {number width : Nat} {cs : List Char} {ts : List Token}
    (h : lineFrom number width cs = .ok ts) : Fills ts cs := by
  obtain ⟨blanks, hblanks, hcs⟩ := Text.skipBlanks_split cs
  induction cs using lineFrom.induct generalizing ts blanks with
  | case1 cs hskip =>
    rw [lineFrom_nil number width hskip] at h
    cases h
    rw [hcs, hskip, List.append_nil]
    exact .nil hblanks
  | case2 cs c r hskip fault hhead => simp [lineFrom_fault number width hskip hhead] at h
  | case3 cs c r hskip us rest hhead _ ih =>
    rw [lineFrom_cons number width hskip hhead] at h
    cases hl : lineFrom number width rest with
    | error e =>
      rw [hl] at h
      cases h
    | ok vs =>
      rw [hl] at h
      cases h
      obtain ⟨front, hfront, hrest⟩ := Text.skipBlanks_split rest
      rw [hcs, hskip]
      exact ((head_begins hhead).fills (ih hl front hfront hrest)).before hblanks

theorem lineFrom_eq_nil_iff {number width : Nat} {cs : List Char} {ts : List Token}
    (h : lineFrom number width cs = .ok ts) : ts = [] ↔ ∀ c ∈ cs, Text.isBlank c = true := by
  rw [← List.dropWhile_eq_nil_iff]
  constructor
  · rintro rfl
    rcases lineFrom_ok h with ⟨hskip, -⟩ | ⟨us, rest, vs, hbegins, happend, -⟩
    · exact hskip
    · exact absurd (List.append_eq_nil_iff.1 happend.symm).1 hbegins.ne_nil
  · intro hskip
    rw [lineFrom_nil number width hskip] at h
    cases h
    rfl

theorem intercalate_ne_nil {row : List Token} (h : row ≠ []) (rows : List (List Token)) :
    [.newline].intercalate (row :: rows) ≠ [] := by
  cases rows <;> simp [List.intercalate, h]

theorem joinLines_intercalate (first : List Token) (rows : List (List Token)) :
    joinLines first ([.newline].intercalate (rows.filter (· ≠ []))) =
      [.newline].intercalate ((first :: rows).filter (· ≠ [])) := by
  by_cases hfirst : first = []
  · simp [joinLines, hfirst]
  rw [List.filter_cons_of_pos (by simpa using hfirst)]
  cases hrows : rows.filter (· ≠ []) with
  | nil => simp [joinLines, List.intercalate]
  | cons row others =>
    have hrow : row ≠ [] := by
      have hmem : row ∈ rows.filter (· ≠ []) := hrows ▸ List.mem_cons_self
      simpa using (List.mem_filter.1 hmem).2
    rw [List.intercalate_cons_cons]
    simp [joinLines, hfirst, intercalate_ne_nil hrow others]

/-- The tokens of a text are those of its lines, with a line mark between two lines that have
some. -/
theorem linesFrom_rows {number : Nat} {ls : List (List Char)} {ts : List Token}
    (h : linesFrom number ls = .ok ts) :
    ∃ rows : List (List Token), List.Forall₂ (fun row l => ∃ n, line n l = .ok row) rows ls ∧
      ts = [.newline].intercalate (rows.filter (· ≠ [])) := by
  induction ls generalizing number ts with
  | nil =>
    cases h
    exact ⟨[], .nil, rfl⟩
  | cons l ls ih =>
    unfold linesFrom at h
    cases hline : line number l with
    | error e => simp [hline, bind, Except.bind] at h
    | ok first =>
      cases hrest : linesFrom (number + 1) ls with
      | error e => simp [hline, hrest, bind, Except.bind] at h
      | ok rest =>
        rw [hline, hrest] at h
        cases h
        obtain ⟨rows, hrows, rfl⟩ := ih hrest
        exact ⟨first :: rows, .cons ⟨number, hline⟩ hrows, joinLines_intercalate first rows⟩

/-- The line is what its tokens were read from, and only a line of blanks has none. -/
structure LineOf (row : List Token) (l : List Char) : Prop where
  fills : Fills row l
  blank : row = [] ↔ ∀ c ∈ l, Text.isBlank c = true

theorem LineOf.after {row : List Token} {l back : List Char} (h : LineOf row l)
    (hb : ∀ c ∈ back, Text.isBlank c = true) : LineOf row (l ++ back) where
  fills := h.fills.after hb
  blank := by
    rw [h.blank, List.forall_mem_append]
    exact (and_iff_left hb).symm

theorem line_lineOf {number : Nat} {l : List Char} {row : List Token}
    (h : line number l = .ok row) : LineOf row l :=
  ⟨lineFrom_fills h, lineFrom_eq_nil_iff h⟩

/- A text cut at its line feeds and nowhere else. -/

/-- The pieces are the lines, some with a carriage return, and an empty one may follow. -/
inductive SameLines : List (List Char) → List (List Char) → Prop
  | nil : SameLines [] []
  | last : SameLines [] [[]]
  | feed {l : List Char} {ls pieces : List (List Char)} (h : SameLines ls pieces) :
    SameLines (l :: ls) (l :: pieces)
  | returnFeed {l : List Char} {ls pieces : List (List Char)} (h : SameLines ls pieces) :
    SameLines (l :: ls) ((l ++ ['\r']) :: pieces)

theorem sameLines_splitOn (cs : List Char) : SameLines (Text.lines cs) (cs.splitOn '\n') := by
  induction cs using Text.lines.induct with
  | case1 => exact .last
  | case2 cs ih =>
    rw [lines_feed, List.splitOn_cons_eq_if_modifyHead]
    exact .feed ih
  | case3 cs ih =>
    rw [lines_return_feed, List.splitOn_cons_eq_if_modifyHead, List.splitOn_cons_eq_if_modifyHead]
    exact .returnFeed (l := []) ih
  | case4 c cs hn hr hl ih =>
    have hlines : Text.lines (c :: cs) = [[c]] := by
      rw [lines_cons hn (fun hc ds => hr ds hc), firstLine, otherLines, hl]
      rfl
    rw [hlines, List.splitOn_cons_eq_if_modifyHead, if_neg (by simpa using hn)]
    rw [hl] at ih
    generalize hpieces : cs.splitOn '\n' = pieces at ih
    cases ih with
    | nil => exact absurd hpieces (List.splitOn_ne_nil _ _)
    | last => exact .feed .nil
  | case5 c cs hn hr line rest hl ih =>
    have hlines : Text.lines (c :: cs) = (c :: line) :: rest := by
      rw [lines_cons hn (fun hc ds => hr ds hc), firstLine, otherLines, hl]
      rfl
    rw [hlines, List.splitOn_cons_eq_if_modifyHead, if_neg (by simpa using hn)]
    rw [hl] at ih
    generalize cs.splitOn '\n' = pieces at ih
    cases ih with
    | feed h => exact .feed h
    | returnFeed h => exact .returnFeed h

theorem SameLines.rows {ls pieces : List (List Char)} (h : SameLines ls pieces)
    {rows : List (List Token)} (hrows : List.Forall₂ LineOf rows ls) :
    ∃ rows', List.Forall₂ LineOf rows' pieces ∧ rows'.filter (· ≠ []) = rows.filter (· ≠ []) := by
  induction h generalizing rows with
  | nil => exact ⟨rows, hrows, rfl⟩
  | last =>
    cases hrows
    exact ⟨[[]], .cons ⟨.nil (by simp), by simp⟩ .nil, rfl⟩
  | feed h ih =>
    cases hrows with
    | cons hrow hrows =>
      obtain ⟨rows', hrows', hfilter⟩ := ih hrows
      exact ⟨_ :: rows', .cons hrow hrows', by simp only [List.filter_cons, hfilter]⟩
  | returnFeed h ih =>
    cases hrows with
    | cons hrow hrows =>
      obtain ⟨rows', hrows', hfilter⟩ := ih hrows
      have hreturn : ∀ c ∈ ['\r'], Text.isBlank c = true := List.all_eq_true.1 (by decide)
      refine ⟨_ :: rows', .cons (hrow.after hreturn) hrows', ?_⟩
      simp only [List.filter_cons, hfilter]

/-- Each line of a text is what its tokens were read from and blanks around them, and the tokens of
the text are those of its lines, with one line mark between two lines that are not blank. -/
theorem scan_lossless {text : String} {ts : List Token} (h : scan text = .ok ts) :
    ∃ rows : List (List Token), List.Forall₂ LineOf rows (text.toList.splitOn '\n') ∧
      ts = [.newline].intercalate (rows.filter (· ≠ [])) := by
  obtain ⟨rows, hrows, rfl⟩ := linesFrom_rows h
  have hlines : List.Forall₂ LineOf rows (Text.lines text.toList) :=
    hrows.imp fun row l ⟨_, hline⟩ => line_lineOf hline
  obtain ⟨rows', hrows', hfilter⟩ := (sameLines_splitOn text.toList).rows hlines
  exact ⟨rows', hrows', by rw [hfilter]⟩

/-- Other blanks in `is not`, blanks inside words, a carriage return and a line of blanks. -/
theorem scan_lossless_blanks :
    let text := " a IS \t Not null,'x  y' >= f( b )\r\n \n]\n"
    let ts : List Token := [.word "a", .symbol "IS Not", .word "null", .symbol ",", .word "'x  y'",
      .symbol ">=", .word "f( b )", .newline, .symbol "]"]
    scan text = .ok ts ∧
      ∃ rows : List (List Token), List.Forall₂ LineOf rows (text.toList.splitOn '\n') ∧
        ts = [.newline].intercalate (rows.filter (· ≠ [])) := by
  intro text ts
  have hscan : scan text = .ok ts := scan_of_toOption (by decide +kernel)
  exact ⟨hscan, scan_lossless hscan⟩

end BracketQuery.Token
