import BracketQuery.Proofs.Cursor
import BracketQuery.Proofs.LineMarks

/-! What it means that a run with the cursor agrees with a parser by descent: the two give the same
value or the same error, the run ends at a known depth, between a known place and the end of the
tokens, and none of the checks on its moves fails. The rules here are those of the moves, of loops
and of single tokens. -/
namespace BracketQuery

/- What parsers by descent read, without the proof that it is less than they got. -/

namespace Descent

variable {α β σ : Type}

def outcome {n : Nat} (result : Except ReadError (Parsed α n)) :
    Except ReadError (α × List Token) :=
  result.map fun r => (r.value, r.rest)

def turnOutcome {ts : List Token} (result : Except ReadError (Turn σ α ts)) :
    Except ReadError ((σ ⊕ α) × List Token) :=
  result.map fun turn =>
    match turn with
    | .done r => (.inr r.value, r.rest)
    | .more r => (.inl r.value, r.rest)

theorem outcome_mono {m n : Nat} (h : m ≤ n) (result : Except ReadError (Parsed α m)) :
    outcome (result.map (Parsed.mono h)) = outcome result := by
  cases result <;> rfl

theorem outcome_map {n : Nat} (f : α → β) (result : Except ReadError (Parsed α n)) :
    outcome (result.map (Parsed.map f)) = (outcome result).map fun r => (f r.1, r.2) := by
  cases result <;> rfl

theorem outcome_bind (q : Parser α) (g : α → Parser β) (ts : List Token) :
    outcome ((q >>= g) ts) =
      match outcome (q ts) with
      | .error e => .error e
      | .ok (v, rest) => outcome (g v rest) := by
  rw [bind_apply]
  cases q ts with
  | error e => rfl
  | ok r => exact outcome_mono _ _

theorem bind_assoc {γ : Type} (p : Parser α) (f : α → Parser β) (g : β → Parser γ) :
    (p >>= f) >>= g = p >>= fun v => f v >>= g := by
  funext ts
  simp only [bind_apply]
  cases p ts with
  | error e => rfl
  | ok r =>
    simp only
    cases f r.value r.rest with
    | error e => rfl
    | ok r' => cases hg : g r'.value r'.rest <;> simp [Except.map, Parsed.mono, hg]

theorem outcome_loop (turn : σ → (ts : List Token) → Except ReadError (Turn σ α ts)) (s : σ)
    (ts : List Token) :
    outcome (loop turn s ts) =
      match turnOutcome (turn s ts) with
      | .error e => .error e
      | .ok (.inl s, rest) => outcome (loop turn s rest)
      | .ok (.inr v, rest) => .ok (v, rest) := by
  rw [loop]
  cases turn s ts with
  | error e => rfl
  | ok result =>
    cases result with
    | done r => rfl
    | more r => exact outcome_mono _ _

theorem turnOutcome_more {ts : List Token} (result : Except ReadError (Parsed σ ts.length)) :
    turnOutcome (result.map (.more : _ → Turn σ α ts)) =
      (outcome result).map fun r => (.inl r.1, r.2) := by
  cases result <;> rfl

theorem turnOutcome_past {ts : List Token} {t : Token} (h : lookahead 0 ts = some t)
    (q : Parser σ) : turnOutcome (turnPast h q : Except ReadError (Turn σ α ts)) =
      (outcome ((pass >>= fun _ => q) ts)).map fun r => (.inl r.1, r.2) := by
  rw [turnPast, turnOutcome_more, outcome_mono, outcome_bind]
  rfl

theorem turnOutcome_list_comma {ts : List Token} {t : Token} (h : lookahead 0 ts = some t)
    (ht : t.isSymbol "," = true) (item : Parser α) (items : α × List α) :
    turnOutcome (listTurn item items ts) =
      (outcome ((pass >>= fun _ => do return (← item, items.1 :: items.2)) ts)).map
        fun r => (.inl r.1, r.2) := by
  rw [← turnOutcome_past h, listTurn]
  split
  · rename_i t' ht'
    obtain rfl : t = t' := Option.some.inj (h.symm.trans ht')
    rw [if_pos ht]
  · simp_all

theorem turnOutcome_list_end {ts : List Token} (h : (lookahead 0 ts).any (·.isSymbol ",") = false)
    (item : Parser α) (items : α × List α) :
    turnOutcome (listTurn item items ts) = .ok (.inr (items.1 :: items.2).reverse, ts) := by
  rw [listTurn]
  split
  · rename_i t ht
    rw [ht, Option.any_some] at h
    rw [if_neg (by simp [h])]
    rfl
  · rfl

def chainRest (limit : Nat) (below : Option Level) (site : Site) (links : List (Expr × String))
    (last : Expr) : Parser Expr := do
  match (← look 0).bind (keyword? ["and", "or"]) with
  | some op =>
    let inner ← enter limit below
    pass
    if (← look 0).isNone then fail (.missing (.conditionAfter op site))
    else inner.chain site ((last, op) :: links)
  | none => return linked links last

theorem chain_eq (limit : Nat) (below : Option Level) (site : Site) (links : List (Expr × String)) :
    chain limit below site links = primary limit below site >>= chainRest limit below site links :=
  rfl

theorem turnOutcome_clause (inner : Level) (table : Table) (ts : List Token) :
    turnOutcome (clauseTurn inner table ts) =
      match lookahead 0 ts with
      | some (.word text) =>
        match Clause.ofWord? text with
        | some clause =>
          if hasClause table clause then .error (.repeatedClause clause table.name)
          else
            (outcome ((pass >>= fun _ => addClause inner table text clause) ts)).map
              fun r => (.inl r.1, r.2)
        | none => .ok (.inr table, ts)
      | _ => .ok (.inr table, ts) := by
  rw [clauseTurn]
  split
  · rename_i text h
    simp only [h]
    cases Clause.ofWord? text with
    | none => rfl
    | some clause =>
      simp only
      split
      · rfl
      · exact turnOutcome_past h _
  · split
    · simp_all
    · rfl

/-- A block as a parser like the others, which may leave all that it was given. -/
def Level.fields (level : Level) (table : Table) : Parser Table := fun ts =>
  (level.block table ts).map (Parsed.mono (Nat.le_add_right _ 1))

theorem outcome_fields (level : Level) (table : Table) (ts : List Token) :
    outcome (level.fields table ts) = outcome (level.block table ts) :=
  outcome_mono _ _

theorem lookahead_zero (ts : List Token) : lookahead 0 ts = (skipNewlines ts).head? := by
  rcases skipNewlines_cases ts with ⟨hskip, hsig⟩ | ⟨t, rest, -, hskip, hsig, -⟩
  · simp [lookahead, hskip, hsig]
  · simp [lookahead, hskip, hsig]

theorem outcome_block (limit : Nat) (below : Option Level) (table : Table) (ts : List Token) :
    outcome (block limit below table ts) =
      outcome ((enter limit below >>= fun inner =>
        take (.openBracket table.name) Cursor.bracket? >>= fun single =>
          body inner { table with single }) ts) := by
  cases below with
  | none => rfl
  | some inner =>
    rw [outcome_bind]
    change _ = outcome ((take (.openBracket table.name) Cursor.bracket? >>= fun single =>
      body inner { table with single }) ts)
    rw [outcome_bind, block, take]
    split
    · rename_i hnone
      rw [lookahead_zero, List.head?_eq_none_iff] at hnone
      rw [hnone]
      rfl
    · rename_i t hseen
      rw [lookahead_zero, List.head?_eq_some_iff] at hseen
      obtain ⟨rest, hskip⟩ := hseen
      rw [hskip]
      simp only [Cursor.bracket?]
      split
      · exact outcome_mono _ _
      · rfl

def table (block : Table → Parser Table) : Parser Table := do
  let name ← takeWord .tableName
  let label ← tableLabel name
  block (.bare name label)

theorem select_eq (block : Table → Parser Table) :
    select block =
      take .selectKeyword (keyword? ["select"]) >>= fun keyword =>
        distinctWord >>= fun distinct =>
          table block >>= fun table => pure (Head.select ⟨keyword, distinct⟩ table) := by
  simp only [select, table, bind_assoc]

theorem turnOutcome_lt {ts rest : List Token} {s : σ} {result : Except ReadError (Turn σ α ts)}
    (h : turnOutcome result = .ok (.inl s, rest)) : rest.length < ts.length := by
  cases result with
  | error e => cases h
  | ok turn =>
    cases turn with
    | done r => cases h
    | more r =>
      cases h
      exact r.lt

end Descent

namespace Cursor
open Descent (Parser Parsed Turn Level lookahead outcome turnOutcome)

variable {α β σ : Type} {input : Input} {pos depth : Nat}

/- Runs and parsers side by side. -/

/-- A run and a parser stop with the same error, or with the same value where the same tokens are
left. The run ends at the depth, not before the place `low` and not past the tokens. -/
inductive Meets (input : Input) (low depth : Nat) :
    Except Stop (α × Cursor) → Except ReadError (α × List Token) → Prop
  | refused (e : ReadError) : Meets input low depth (.error (.refused e)) (.error e)
  | read (v : α) (pos : Nat) (hlow : low ≤ pos) (hend : pos ≤ input.tokens.length) :
    Meets input low depth (.ok (v, ⟨pos, depth⟩)) (.ok (v, input.tokens.drop pos))

/-- From the cursor on, the run does what the parser does with the tokens that are left. -/
def Agrees (input : Input) (low depth : Nat) (c : Cursor) (p : Run α) (q : Parser α) : Prop :=
  Meets input low depth (p c) (outcome (q (input.tokens.drop c.pos)))

theorem run_bind (p : Run α) (f : α → Run β) (c : Cursor) :
    (p >>= f) c =
      match p c with
      | .error e => .error e
      | .ok (v, c') => f v c' := rfl

theorem run_bind_assoc {γ : Type} (p : Run α) (f : α → Run β) (g : β → Run γ) :
    (p >>= f) >>= g = p >>= fun v => f v >>= g := by
  funext c
  simp only [run_bind]
  cases p c <;> rfl

section

variable {low low' out out' : Nat} {p : Run α} {q : Parser α}

theorem Meets.mono {x : Except Stop (α × Cursor)} {y : Except ReadError (α × List Token)}
    (h : Meets input low depth x y) (hlow : low' ≤ low) : Meets input low' depth x y := by
  cases h with
  | refused e => exact .refused e
  | read v pos hpos hend => exact .read v pos (Nat.le_trans hlow hpos) hend

theorem Agrees.mono (h : Agrees input low out ⟨pos, depth⟩ p q) (hlow : low' ≤ low) :
    Agrees input low' out ⟨pos, depth⟩ p q :=
  Meets.mono h hlow

theorem Agrees.bind (h : Agrees input low out ⟨pos, depth⟩ p q) {f : α → Run β} {g : α → Parser β}
    (hnext : ∀ v next, low ≤ next → next ≤ input.tokens.length →
      Agrees input low' out' ⟨next, out⟩ (f v) (g v)) :
    Agrees input low' out' ⟨pos, depth⟩ (p >>= f) (q >>= g) := by
  unfold Agrees at h ⊢
  rw [Descent.outcome_bind, run_bind]
  generalize p ⟨pos, depth⟩ = x, outcome (q (input.tokens.drop pos)) = y at h
  cases h with
  | refused e => exact .refused e
  | read v next hlow hend => exact hnext v next hlow hend

theorem agrees_pure (v : α) (hpos : pos ≤ input.tokens.length) :
    Agrees input pos depth ⟨pos, depth⟩ (pure v) (pure v) :=
  .read v pos (Nat.le_refl _) hpos

theorem Agrees.bind_pure (h : Agrees input low out ⟨pos, depth⟩ p q) (f : α → β) :
    Agrees input low out ⟨pos, depth⟩ (p >>= fun v => pure (f v)) (q >>= fun v => pure (f v)) :=
  h.bind fun _ _ hnext hend => (agrees_pure _ hend).mono hnext

theorem agrees_refuse (e : ReadError) :
    Agrees input low out ⟨pos, depth⟩ (refuse e : Run α) (Descent.fail e) :=
  .refused e

theorem look_bind (hpos : pos ≤ input.tokens.length) (n : Nat) (f : Option Token → Run β) :
    (Cursor.look input n >>= f) ⟨pos, depth⟩ =
      f (lookahead n (input.tokens.drop pos)) ⟨pos, depth⟩ := by
  have hlook : Cursor.look input n ⟨pos, depth⟩ =
      .ok (lookahead n (input.tokens.drop pos), ⟨pos, depth⟩) := if_neg (by simpa using hpos)
  rw [run_bind, hlook]

theorem Agrees.look (hpos : pos ≤ input.tokens.length) (n : Nat) {f : Option Token → Run β}
    {g : Option Token → Parser β}
    (h : Agrees input low out ⟨pos, depth⟩ (f (lookahead n (input.tokens.drop pos)))
      (g (lookahead n (input.tokens.drop pos)))) :
    Agrees input low out ⟨pos, depth⟩ (Cursor.look input n >>= f) (Descent.look n >>= g) := by
  unfold Agrees
  rw [Descent.outcome_bind, look_bind hpos]
  exact h

theorem Meets.map {y : Except ReadError (α × List Token)}
    (h : Meets input low out (p ⟨pos, depth⟩) y) (f : α → β) :
    Meets input low out ((p >>= fun v => pure (f v)) ⟨pos, depth⟩)
      (y.map fun r => (f r.1, r.2)) := by
  rw [run_bind]
  generalize p ⟨pos, depth⟩ = x at h
  cases h with
  | refused e => exact .refused e
  | read v next hlow hend => exact .read (f v) next hlow hend

theorem Agrees.assoc {γ : Type} {r : Run γ} {f : α → Parser β} {g : β → Parser γ}
    (h : Agrees input low out ⟨pos, depth⟩ r ((q >>= f) >>= g)) :
    Agrees input low out ⟨pos, depth⟩ r (q >>= fun v => f v >>= g) := by
  rw [← Descent.bind_assoc]
  exact h

/- Levels. -/

def levelAt (limit depth : Nat) : Level := Descent.level limit (limit - depth)

def belowAt (limit depth : Nat) : Option Level :=
  if depth < limit then some (levelAt limit (depth + 1)) else none

theorem levelAt_eq (limit depth : Nat) :
    levelAt limit depth = Descent.above limit (belowAt limit depth) := by
  unfold belowAt
  split
  · have hlevel : limit - depth = limit - (depth + 1) + 1 := by omega
    rw [levelAt, hlevel]
    rfl
  · have hlevel : limit - depth = 0 := by omega
    rw [levelAt, hlevel]
    rfl

theorem levelAt_nested (limit depth : Nat) :
    (levelAt limit depth).nested = Descent.nestedSelect limit (belowAt limit depth) := by
  rw [levelAt_eq]
  rfl

theorem levelAt_select (limit depth : Nat) :
    (levelAt limit depth).select = Descent.select (levelAt limit depth).fields := by
  rw [levelAt_eq]
  rfl

theorem Agrees.enter {q : Level → Parser α}
    (h : Agrees input low out ⟨pos, depth + 1⟩ p (q (levelAt input.limit (depth + 1)))) :
    Agrees input low out ⟨pos, depth⟩ (Cursor.enter input >>= fun _ => p)
      (Descent.enter input.limit (belowAt input.limit depth) >>= q) := by
  unfold Agrees
  rw [Descent.outcome_bind, run_bind]
  by_cases hdepth : depth < input.limit
  · have henter : Cursor.enter input ⟨pos, depth⟩ = .ok ((), ⟨pos, depth + 1⟩) :=
      if_neg (Nat.not_lt.2 hdepth)
    rw [belowAt, if_pos hdepth, henter]
    exact h
  · have henter : Cursor.enter input ⟨pos, depth⟩ = .error (.refused (.tooDeep input.limit)) :=
      if_pos (Nat.lt_succ_of_le (Nat.not_lt.1 hdepth))
    rw [belowAt, if_neg hdepth, henter]
    exact .refused _

theorem Agrees.leave {levels : Nat} (h : Agrees input low out ⟨pos, depth⟩ p q) :
    Agrees input low out ⟨pos, depth + levels⟩ (Cursor.leave levels >>= fun _ => p) q := by
  have hleave : Cursor.leave levels ⟨pos, depth + levels⟩ = .ok ((), ⟨pos, depth⟩) := by
    simp [Cursor.leave]
  unfold Agrees
  rw [run_bind, hleave]
  exact h

theorem Agrees.thenLeave {levels : Nat} (h : Agrees input low (out + levels) ⟨pos, depth⟩ p q) :
    Agrees input low out ⟨pos, depth⟩ (p >>= fun v => Cursor.leave levels >>= fun _ => pure v)
      q := by
  unfold Agrees at h ⊢
  rw [run_bind]
  generalize p ⟨pos, depth⟩ = x, outcome (q (input.tokens.drop pos)) = y at h
  cases h with
  | refused e => exact .refused e
  | read v next hlow hend =>
    have hleave : Cursor.leave levels ⟨next, out + levels⟩ = .ok ((), ⟨next, out⟩) := by
      simp [Cursor.leave]
    simp only [run_bind, hleave]
    exact .read v next hlow hend

/- Loops. -/

/-- A loop agrees with another one if their turns do. It needs no more turns than tokens are left,
and one to end, for each of the others takes a token. -/
theorem agrees_loop {turn : σ → Run (σ ⊕ α)}
    {dturn : σ → (ts : List Token) → Except ReadError (Turn σ α ts)} {n : Nat}
    (hn : input.tokens.length < pos + n) (hpos : pos ≤ input.tokens.length)
    (hturn : ∀ s next, pos ≤ next → next ≤ input.tokens.length →
      Meets input next depth (turn s ⟨next, depth⟩)
        (turnOutcome (dturn s (input.tokens.drop next)))) (s : σ) :
    Agrees input pos depth ⟨pos, depth⟩ (loop turn n s) (Descent.loop dturn s) := by
  induction n generalizing pos s with
  | zero => omega
  | succ n ih =>
    have hone := hturn s pos (Nat.le_refl _) hpos
    -- the types of the turns by descent tell that the loop goes on with fewer tokens
    have hless : ∀ s' rest, turnOutcome (dturn s (input.tokens.drop pos)) = .ok (.inl s', rest) →
        rest.length < (input.tokens.drop pos).length := fun _ _ => Descent.turnOutcome_lt
    unfold Agrees
    rw [Descent.outcome_loop, loop, run_bind]
    generalize turn s ⟨pos, depth⟩ = x, turnOutcome (dturn s (input.tokens.drop pos)) = y
      at hone hless
    cases hone with
    | refused e => exact .refused e
    | read v next hlow hend =>
      cases v with
      | inr v => exact .read v next hlow hend
      | inl s' =>
        have hlt := hless s' _ rfl
        rw [List.length_drop, List.length_drop] at hlt
        have hrest := ih (by omega) hend (fun s place hle => hturn s place (by omega)) s'
        exact Meets.mono hrest hlow

end

/- Tokens. -/

theorem drop_of_getElem? {ts : List Token} {t : Token} (h : ts[pos]? = some t) :
    ts.drop pos = t :: ts.drop (pos + 1) ∧ pos < ts.length := by
  obtain ⟨hlt, rfl⟩ := List.getElem?_eq_some_iff.1 h
  exact ⟨List.drop_eq_getElem_cons hlt, hlt⟩

theorem advance_some {t : Token} (h : input.tokens[pos]? = some t) :
    advance input ⟨pos, depth⟩ = .ok (some t, ⟨pos + 1, depth⟩) := by
  simp only [advance, run_bind, peek, h]
  rfl

theorem advance_none (h : input.tokens[pos]? = none) :
    advance input ⟨pos, depth⟩ = .ok (none, ⟨pos, depth⟩) := by
  simp only [advance, run_bind, peek, h]
  rfl

section

variable (hturns : input.tokens.length < input.turns) (hpos : pos ≤ input.tokens.length)
include hturns hpos

variable (depth) in
theorem skipNewlines_run : ∃ next, skipNewlines input ⟨pos, depth⟩ = .ok ((), ⟨next, depth⟩) ∧
    input.tokens.drop next = Descent.skipNewlines (input.tokens.drop pos) ∧ pos ≤ next ∧
    next ≤ input.tokens.length := by
  have hn : input.tokens.length < pos + input.turns := by omega
  unfold skipNewlines
  generalize input.turns = n at hn
  clear hturns
  induction n generalizing pos with
  | zero => omega
  | succ n ih =>
    by_cases ht : input.tokens[pos]? = some .newline
    · obtain ⟨hdrop, hlt⟩ := drop_of_getElem? ht
      have hone : newlineTurn input () ⟨pos, depth⟩ = .ok (.inl (), ⟨pos + 1, depth⟩) := by
        simp only [newlineTurn, run_bind, peek, ht]
        rfl
      obtain ⟨next, hrun, hskip, hle, hend⟩ := ih hlt (by omega)
      refine ⟨next, ?_, ?_, by omega, hend⟩
      · rw [loop, run_bind, hone]
        exact hrun
      · rw [hskip, hdrop]
        rfl
    · have hone : newlineTurn input () ⟨pos, depth⟩ = .ok (.inr (), ⟨pos, depth⟩) := by
        simp only [newlineTurn, run_bind, peek]
        rfl
      refine ⟨pos, ?_, ?_, Nat.le_refl _, hpos⟩
      · rw [loop, run_bind, hone]
        rfl
      · rw [← List.head?_drop] at ht
        cases hts : input.tokens.drop pos with
        | nil => rfl
        | cons t rest =>
          rw [hts] at ht
          have hne : t ≠ .newline := fun he => ht (by rw [he]; rfl)
          simp [Descent.skipNewlines, hne]

variable (depth) in
theorem nextToken_cases :
    (Descent.skipNewlines (input.tokens.drop pos) = [] ∧
      nextToken input ⟨pos, depth⟩ = .ok (none, ⟨input.tokens.length, depth⟩)) ∨
    ∃ t next, Descent.skipNewlines (input.tokens.drop pos) = t :: input.tokens.drop next ∧
      nextToken input ⟨pos, depth⟩ = .ok (some t, ⟨next, depth⟩) ∧ pos < next ∧
      next ≤ input.tokens.length := by
  obtain ⟨mid, hskip, hdrop, hle, hend⟩ := skipNewlines_run depth hturns hpos
  rw [nextToken, run_bind, hskip, ← hdrop]
  cases ht : input.tokens[mid]? with
  | none =>
    left
    rw [List.getElem?_eq_none_iff] at ht
    obtain rfl : mid = input.tokens.length := by omega
    exact ⟨List.drop_length, advance_none (List.getElem?_eq_none (Nat.le_refl _))⟩
  | some t =>
    right
    obtain ⟨hcons, hlt⟩ := drop_of_getElem? ht
    exact ⟨t, mid + 1, hcons, advance_some ht, by omega, by omega⟩

theorem agrees_take (expected : Expectation) (accept : Token → Option α) :
    Agrees input (pos + 1) depth ⟨pos, depth⟩ (take input expected accept)
      (Descent.take expected accept) := by
  unfold Agrees take
  rw [run_bind]
  rcases nextToken_cases depth hturns hpos with ⟨hskip, hrun⟩ |
    ⟨t, next, hskip, hrun, hlt, hend⟩
  · rw [hrun, Descent.take, hskip]
    exact .refused _
  · have hafter : Descent.afterNext (input.tokens.drop pos) = input.tokens.drop next := by
      rw [Descent.afterNext, hskip, List.tail_cons]
    rw [hrun, Descent.take, hskip]
    simp only
    cases accept t with
    | none => exact .refused _
    | some v =>
      have hread : Meets input (pos + 1) depth (.ok (v, ⟨next, depth⟩))
          (.ok (v, input.tokens.drop next)) := .read v next hlt hend
      rw [← hafter] at hread
      exact hread

theorem agrees_takeWord (expected : Expectation) :
    Agrees input (pos + 1) depth ⟨pos, depth⟩ (takeWord input expected)
      (Descent.takeWord expected) :=
  agrees_take hturns hpos expected _

variable (depth) in
theorem nextToken_seen {t : Token} (h : lookahead 0 (input.tokens.drop pos) = some t) :
    ∃ next, nextToken input ⟨pos, depth⟩ = .ok (some t, ⟨next, depth⟩) ∧
      Descent.afterNext (input.tokens.drop pos) = input.tokens.drop next ∧ pos < next ∧
      next ≤ input.tokens.length := by
  rw [Descent.lookahead_zero] at h
  rcases nextToken_cases depth hturns hpos with ⟨hskip, -⟩ |
    ⟨t', next, hskip, hrun, hlt, hend⟩
  · simp [hskip] at h
  · rw [hskip] at h
    cases h
    exact ⟨next, hrun, by rw [Descent.afterNext, hskip, List.tail_cons], hlt, hend⟩

variable (depth) in
theorem seenWord_run {text : String} (h : lookahead 0 (input.tokens.drop pos) = some (.word text)) :
    ∃ next, seenWord input ⟨pos, depth⟩ = .ok (text, ⟨next, depth⟩) ∧
      Descent.afterNext (input.tokens.drop pos) = input.tokens.drop next ∧ pos < next ∧
      next ≤ input.tokens.length := by
  obtain ⟨next, hrun, hafter, hlt, hend⟩ := nextToken_seen depth hturns hpos h
  refine ⟨next, ?_, hafter, hlt, hend⟩
  rw [seenWord, run_bind, hrun]
  rfl

variable {low out : Nat}

theorem Agrees.pass {t : Token} (h : lookahead 0 (input.tokens.drop pos) = some t) {p : Run α}
    {q : Parser α} (hnext : ∀ next, pos < next → next ≤ input.tokens.length →
      Agrees input low out ⟨next, depth⟩ p q) :
    Agrees input low out ⟨pos, depth⟩ (nextToken input >>= fun _ => p)
      (Descent.pass >>= fun _ => q) := by
  obtain ⟨next, hrun, hafter, hlt, hend⟩ := nextToken_seen depth hturns hpos h
  have hq := hnext next hlt hend
  unfold Agrees at hq ⊢
  rw [Descent.outcome_bind, run_bind, hrun]
  rw [← hafter] at hq
  exact hq

theorem Agrees.seen {text : String} (h : lookahead 0 (input.tokens.drop pos) = some (.word text))
    {f : String → Run α} {q : Parser α} (hnext : ∀ next, pos < next → next ≤ input.tokens.length →
      Agrees input low out ⟨next, depth⟩ (f text) q) :
    Agrees input low out ⟨pos, depth⟩ (seenWord input >>= f) (Descent.pass >>= fun _ => q) := by
  obtain ⟨next, hrun, hafter, hlt, hend⟩ := seenWord_run depth hturns hpos h
  have hq := hnext next hlt hend
  unfold Agrees at hq ⊢
  rw [Descent.outcome_bind, run_bind, hrun]
  rw [← hafter] at hq
  exact hq

theorem agrees_ifKeyword {keywords : List String} {p : String → Run α} {q : String → Parser α}
    (hp : ∀ text next, pos < next → next ≤ input.tokens.length →
      Agrees input pos depth ⟨next, depth⟩ (p text) (q text)) (otherwise : α) :
    Agrees input pos depth ⟨pos, depth⟩ (ifKeyword input keywords p otherwise)
      (Descent.ifKeyword keywords q otherwise) := by
  refine Agrees.look hpos 0 ?_
  cases hk : (lookahead 0 (input.tokens.drop pos)).bind (Descent.keyword? keywords) with
  | none => exact agrees_pure otherwise hpos
  | some text => exact Agrees.seen hturns hpos (Descent.keyword_ahead hk).1 (hp text)

end

end Cursor
end BracketQuery
