import BracketQuery.Proofs.Descent

/-! The reader follows the descent. A parser that has read its construct leaves the reader, which
never saw a line mark, in the state after that construct; one that fails has the reader's error. -/
namespace BracketQuery

def State.read (limit : Nat) (st : State) (ts : List Token) : Except ReadError Select := do
  (← st.run limit ts).finish limit

namespace Descent
open Token

/-- A place among the tokens: what the next token does there, and what the end does. -/
structure Place where
  step : Token → Reading
  finish : Except ReadError Select

def Place.read (limit : Nat) (place : Place) (ts : List Token) : Except ReadError Select :=
  match significant ts with
  | [] => place.finish
  | t :: us => place.step t >>= fun st => st.read limit us

end Descent

open Descent Token

def State.place (limit : Nat) (st : State) : Place := ⟨st.step limit, st.finish limit⟩

theorem State.read_significant (limit : Nat) (st : State) (ts : List Token) :
    st.read limit (significant ts) = (st.place limit).read limit ts := by
  unfold Place.read
  cases significant ts with
  | nil => rfl
  | cons t us =>
    show (List.foldlM (State.step limit) st (t :: us) >>= _) = _
    rw [List.foldlM_cons, bind_assoc]
    rfl

namespace Descent

variable {limit depth : Nat} {α β σ : Type} {ts : List Token} {place place' : Place}

/- The next token. -/

theorem Place.read_end (h : lookahead 0 ts = none) : place.read limit ts = place.finish := by
  have hs : significant ts = [] := by simpa [lookahead] using h
  rw [Place.read, hs]

theorem Place.read_next {t : Token} (h : lookahead 0 ts = some t) :
    place.read limit ts =
      place.step t >>= fun st => (st.place limit).read limit (afterNext ts) := by
  rcases skipNewlines_cases ts with ⟨-, hsig⟩ | ⟨u, rest, -, hs, hsig, -⟩
  · simp [lookahead, hsig] at h
  · obtain rfl : u = t := by simpa [lookahead, hsig] using h
    rw [Place.read, hsig]
    simp only [State.read_significant, afterNext, hs, List.tail_cons]

theorem lookahead_afterNext (ts : List Token) (n : Nat) :
    lookahead n (afterNext ts) = lookahead (n + 1) ts := by
  rcases skipNewlines_cases ts with ⟨hs, hsig⟩ | ⟨t, rest, -, hs, hsig, -⟩
  · have hnil : significant ([] : List Token) = [] := rfl
    simp [lookahead, afterNext, hs, hsig, hnil]
  · simp [lookahead, afterNext, hs, hsig]

theorem lookahead_ne_newline {t : Token} {n : Nat} (h : lookahead n ts = some t) :
    t ≠ .newline := by
  have hm : t ∈ significant ts := List.mem_of_getElem? h
  simpa [significant] using (List.mem_filter.1 hm).2

theorem word_ahead {n : Nat} {text : String} (h : (lookahead n ts).bind word? = some text) :
    lookahead n ts = some (.word text) := by
  obtain ⟨t, ht, hw⟩ := Option.bind_eq_some_iff.1 h
  cases t <;> simp_all [word?]

theorem keyword_ahead {keywords : List String} {n : Nat} {text : String}
    (h : (lookahead n ts).bind (keyword? keywords) = some text) :
    lookahead n ts = some (.word text) ∧ keywords.any (spells text) = true := by
  obtain ⟨t, ht, hk⟩ := Option.bind_eq_some_iff.1 h
  cases t <;> simp_all [keyword?, word?, Option.filter]

theorem keyword?_eq_none {keywords : List String} {text : String}
    (h : keyword? keywords (.word text) = none) : ∀ k ∈ keywords, spells text k = false := by
  have hany : keywords.any (spells text) = false := by
    simpa [keyword?, word?, Option.filter] using h
  simpa using hany

theorem Place.read_congr_end (h : lookahead 0 ts = none) (hend : place.finish = place'.finish) :
    place.read limit ts = place'.read limit ts := by
  rw [Place.read_end h, Place.read_end h, hend]

theorem Place.read_congr_next {t : Token} (h : lookahead 0 ts = some t)
    (hstep : place.step t = place'.step t) : place.read limit ts = place'.read limit ts := by
  rw [Place.read_next h, Place.read_next h, hstep]

/-- Places that do the same with what comes next read the same. -/
theorem Place.read_congr (hstep : ∀ t, lookahead 0 ts = some t → place.step t = place'.step t)
    (hend : lookahead 0 ts = none → place.finish = place'.finish) :
    place.read limit ts = place'.read limit ts := by
  cases h : lookahead 0 ts with
  | none => exact Place.read_congr_end h (hend h)
  | some t => exact Place.read_congr_next h (hstep t h)

theorem Place.read_cons {t : Token} (h : t ≠ .newline) (ts : List Token) :
    place.read limit (t :: ts) = place.step t >>= fun st => (st.place limit).read limit ts := by
  have hnext : lookahead 0 (t :: ts) = some t := by simp [lookahead, significant, h]
  rw [Place.read_next hnext]
  simp [afterNext, skipNewlines, h]

/- Outcomes of parsers. -/

/-- What is read from some place on is the parser's error, or what is read after the parser from the
place that its value leads to. -/
def Follows (limit : Nat) (read : Except ReadError Select) (next : α → Place) {n : Nat} :
    Except ReadError (Parsed α n) → Prop
  | .error e => read = .error e
  | .ok r => read = (next r.value).read limit r.rest

namespace Follows

variable {read : Except ReadError Select} {next : α → Place} {next' : β → Place}

theorem mono {m n : Nat} {r : Except ReadError (Parsed α m)} (h : Follows limit read next r)
    (hmn : m ≤ n) : Follows limit read next (r.map (Parsed.mono hmn)) := by
  cases r with
  | error e => exact h
  | ok r => exact h

theorem map {n : Nat} (f : α → β) {r : Except ReadError (Parsed α n)}
    (h : Follows limit read (fun v => next' (f v)) r) :
    Follows limit read next' (r.map (Parsed.map f)) := by
  cases r with
  | error e => exact h
  | ok r => exact h

theorem bind {p : Parser α} {f : α → Parser β} (h : Follows limit read next (p ts))
    (hf : ∀ v us, Follows limit ((next v).read limit us) next' (f v us)) :
    Follows limit read next' ((p >>= f) ts) := by
  rw [bind_apply]
  cases hp : p ts with
  | error e =>
    rw [hp] at h
    exact h
  | ok r =>
    rw [hp] at h
    have hr : read = (next r.value).read limit r.rest := h
    rw [hr]
    exact (hf r.value r.rest).mono _

theorem of_pure {p : Parser α} (h : Follows limit read next ((p >>= pure) ts)) :
    Follows limit read next (p ts) := by
  have heq : (p >>= pure) ts = p ts := by
    rw [bind_apply]
    cases p ts <;> rfl
  rwa [heq] at h

theorem of_look {n : Nat} {f : Option Token → Parser α}
    (h : Follows limit read next (f (lookahead n ts) ts)) :
    Follows limit read next ((look n >>= f) ts) :=
  h.mono _

theorem of_passed {f : Unit → Parser α} (h : Follows limit read next (f () (afterNext ts))) :
    Follows limit read next ((pass >>= f) ts) :=
  h.mono _

theorem of_pass {f : Unit → Parser α} {t : Token} (ht : lookahead 0 ts = some t)
    (h : Follows limit
      (place.step t >>= fun st => (st.place limit).read limit (afterNext ts)) next
      (f () (afterNext ts))) :
    Follows limit (place.read limit ts) next ((pass >>= f) ts) := by
  rw [Place.read_next ht]
  exact h.of_passed

end Follows

theorem follows_take {expected : Expectation} {accept : Token → Option α} {f : α → Parser β}
    {next : β → Place} (reading : α → Reading)
    (hstep : ∀ t, lookahead 0 ts = some t →
      place.step t = (accept t).elim (.error (.unexpected expected t)) reading)
    (hend : lookahead 0 ts = none → place.finish = .error (.missing expected))
    (hf : ∀ v us, Follows limit (reading v >>= fun st => (st.place limit).read limit us) next
      (f v us)) :
    Follows limit (place.read limit ts) next ((take expected accept >>= f) ts) := by
  rw [bind_apply]
  unfold take
  rcases skipNewlines_cases ts with ⟨hs, hsig⟩ | ⟨t, rest, -, hs, hsig, -⟩
  · have hnone : lookahead 0 ts = none := by simp [lookahead, hsig]
    simp only [hs]
    exact (Place.read_end hnone).trans (hend hnone)
  · have hsome : lookahead 0 ts = some t := by simp [lookahead, hsig]
    simp only [hs]
    rw [Place.read_next hsome, hstep t hsome]
    cases ha : accept t with
    | none => rfl
    | some v => exact (hf v (afterNext ts)).mono _

theorem follows_ifKeyword {keywords : List String} {p : String → Parser α} {otherwise : α}
    {next : α → Place} (st : String → State)
    (hstep : ∀ text, keywords.any (spells text) = true → place.step (.word text) = .ok (st text))
    (hp : ∀ text us, Follows limit (((st text).place limit).read limit us) next (p text us))
    (hskip : ∀ t, t ≠ .newline → keyword? keywords t = none →
      place.step t = (next otherwise).step t)
    (hend : lookahead 0 ts = none → place.finish = (next otherwise).finish) :
    Follows limit (place.read limit ts) next (ifKeyword keywords p otherwise ts) := by
  refine .of_look ?_
  cases h : (lookahead 0 ts).bind (keyword? keywords) with
  | none =>
    refine Place.read_congr (fun t ht => hskip t (lookahead_ne_newline ht) ?_) hend
    simpa [ht] using h
  | some text =>
    obtain ⟨ht, hspells⟩ := keyword_ahead h
    refine .of_pass ht ?_
    rw [hstep text hspells]
    exact hp text (afterNext ts)

def FollowsTurn (limit : Nat) (read : Except ReadError Select) (again : σ → Place)
    (next : α → Place) {ts : List Token} : Except ReadError (Turn σ α ts) → Prop
  | .error e => read = .error e
  | .ok (.done r) => read = (next r.value).read limit r.rest
  | .ok (.more r) => read = (again r.value).read limit r.rest

theorem follows_loop {turn : σ → (ts : List Token) → Except ReadError (Turn σ α ts)}
    {again : σ → Place} {next : α → Place}
    (h : ∀ s ts, FollowsTurn limit ((again s).read limit ts) again next (turn s ts)) (s : σ)
    (ts : List Token) : Follows limit ((again s).read limit ts) next (loop turn s ts) := by
  -- along the loop's own recursion: each turn hands on where the reader is
  induction s, ts using loop.induct turn with
  | case1 s ts e he =>
    have hturn := h s ts
    rw [he] at hturn
    rw [loop, he]
    exact hturn
  | case2 s ts r hr =>
    have hturn := h s ts
    rw [hr] at hturn
    rw [loop, hr]
    exact hturn
  | case3 s ts r hr _ ih =>
    have hturn := h s ts
    rw [hr] at hturn
    rw [loop, hr, show (again s).read limit ts = _ from hturn]
    exact ih.mono _

theorem Follows.more {read : Except ReadError Select} {again : σ → Place} {next : α → Place}
    {r : Except ReadError (Parsed σ ts.length)} (h : Follows limit read again r) :
    FollowsTurn limit read again next (r.map .more) := by
  cases r with
  | error e => exact h
  | ok r => exact h

theorem followsTurn_past {t : Token} (ht : lookahead 0 ts = some t) {p : Parser σ}
    {again : σ → Place} {next : α → Place}
    (h : Follows limit (place.step t >>= fun st => (st.place limit).read limit (afterNext ts))
      again (p (afterNext ts))) :
    FollowsTurn limit (place.read limit ts) again next (turnPast ht p) := by
  rw [Place.read_next ht]
  exact (h.mono _).more

/- Tokens that are accepted. -/

theorem expectWord_eq (expected : Expectation) (t : Token) (next : String → State) :
    expectWord expected t next =
      (word? t).elim (.error (.unexpected expected t)) (.ok <| next ·) := by
  cases t <;> rfl

theorem expectKeyword_eq (keywords : List String) (expected : Expectation) (t : Token)
    (next : String → State) : expectKeyword keywords expected t next =
      (keyword? keywords t).elim (.error (.unexpected expected t)) (.ok <| next ·) := by
  cases t with
  | word text =>
    by_cases h : keywords.any (spells text) = true
    · simp [expectKeyword, keyword?, word?, Option.filter, h]
    · simp [expectKeyword, keyword?, word?, Option.filter, h]
  | _ => rfl

theorem expectSymbol_eq (symbol : String) (expected : Expectation) (t : Token) (next : Reading) :
    expectSymbol symbol expected t next =
      (symbol? symbol t).elim (.error (.unexpected expected t)) fun _ => next := by
  unfold expectSymbol symbol?
  split <;> rfl

theorem follows_takeWord {expected : Expectation} {f : String → Parser β} {st : String → State}
    {next : β → Place} (hstep : ∀ t, place.step t = expectWord expected t st)
    (hend : place.finish = .error (.missing expected))
    (hf : ∀ v us, Follows limit (((st v).place limit).read limit us) next (f v us)) :
    Follows limit (place.read limit ts) next ((takeWord expected >>= f) ts) :=
  follows_take _ (fun t _ => (hstep t).trans (expectWord_eq expected t st)) (fun _ => hend) hf

theorem follows_takeKeyword {keywords : List String} {expected : Expectation}
    {f : String → Parser β} {st : String → State} {next : β → Place}
    (hstep : ∀ t, place.step t = expectKeyword keywords expected t st)
    (hend : place.finish = .error (.missing expected))
    (hf : ∀ v us, Follows limit (((st v).place limit).read limit us) next (f v us)) :
    Follows limit (place.read limit ts) next ((take expected (keyword? keywords) >>= f) ts) :=
  follows_take _ (fun t _ => (hstep t).trans (expectKeyword_eq keywords expected t st))
    (fun _ => hend) hf

theorem follows_takeSymbol {symbol : String} {expected : Expectation} {f : Unit → Parser β}
    {reading : Reading} {next : β → Place}
    (hstep : ∀ t, place.step t = expectSymbol symbol expected t reading)
    (hend : place.finish = .error (.missing expected))
    (hf : ∀ us, Follows limit (reading >>= fun st => (st.place limit).read limit us) next
      (f () us)) :
    Follows limit (place.read limit ts) next ((take expected (symbol? symbol) >>= f) ts) :=
  follows_take _ (fun t _ => (hstep t).trans (expectSymbol_eq symbol expected t reading))
    (fun _ => hend) fun _ => hf

/- Lists of columns. -/

/-- A list is followed item by item: `start` comes before an item and `after` comes after one. -/
theorem follows_listOf {clause : Clause} {table : String} {item : Parser α}
    {next : List α → Place} (start : List α → State) (after : List α → Place)
    (hempty : ∀ t, word? t = none → (start []).step limit t = .error (.emptyClause clause table))
    (hend : (start []).finish limit = .error (.emptyClause clause table))
    (hitem : ∀ items ts, (items = [] → ((lookahead 0 ts).bind word?).isSome = true) →
      Follows limit (((start items).place limit).read limit ts) (fun a => after (a :: items))
        (item ts))
    (hcomma : ∀ items, (after items).step (.symbol ",") = .ok (start items))
    (hdone : ∀ items t, t.isSymbol "," = false →
      (after items).step t = (next items.reverse).step t)
    (hfinish : ∀ items, (after items).finish = (next items.reverse).finish) (ts : List Token) :
    Follows limit (((start []).place limit).read limit ts) next (listOf clause table item ts) := by
  have hturn : ∀ (items : α × List α) ts, FollowsTurn limit
      ((after (items.1 :: items.2)).read limit ts) (fun items => after (items.1 :: items.2)) next
      (listTurn item items ts) := by
    rintro ⟨a, items⟩ ts
    unfold listTurn
    split
    · rename_i t ht
      split
      · rename_i hc
        obtain rfl : t = .symbol "," := by simpa [Token.isSymbol] using hc
        refine followsTurn_past ht ?_
        rw [hcomma]
        exact (hitem (a :: items) _ (by simp)).bind fun _ _ => rfl
      · rename_i hc
        exact Place.read_congr_next ht (hdone _ t (Bool.eq_false_iff.2 hc))
    · rename_i hnone
      exact Place.read_congr_end hnone (hfinish _)
  refine .of_look ?_
  cases hw : (lookahead 0 ts).bind word? with
  | some text =>
    refine (hitem [] ts fun _ => by rw [hw]; rfl).bind fun first us => ?_
    exact follows_loop hturn (first, []) us
  | none =>
    show _ = _
    cases ht : lookahead 0 ts with
    | none => exact (Place.read_end ht).trans hend
    | some t =>
      rw [Place.read_next ht]
      show ((start []).step limit t >>= _) = _
      rw [hempty t (by simpa [ht] using hw)]
      rfl

end Descent

end BracketQuery
