import BracketQuery.Select

/-! Conditions as sequences of signs, and the value that precedence gives them: `not` binds tighter
than `and`, and `and` tighter than `or`. -/
namespace BracketQuery

/-- What a condition asks of a row, with names qualified and an operator in lower case. -/
inductive Atom where
  | compare (left op right : String)
  | between (subject : String) (negated : Bool) (low high : String)
  | among (subject : String) (negated : Bool) (select : Select)

inductive Sign where
  | atom (atom : Atom)
  | not
  | link (connective : Connective)
  | opening
  | closing

/-- What a sequence of signs is read as, tightest first. -/
inductive Rank where
  | test
  | conjunction
  | condition

variable {v : Atom → Bool} {rank : Rank} {ss ts : List Sign} {a b : Bool}

/-- The signs are of the rank and have the value, where `v` gives the values of the atoms. -/
inductive Reads (v : Atom → Bool) : Rank → List Sign → Bool → Prop
  | atom (p : Atom) : Reads v .test [.atom p] (v p)
  | not {ss : List Sign} {b : Bool} (h : Reads v .test ss b) : Reads v .test (.not :: ss) !b
  | paren {ss : List Sign} {b : Bool} (h : Reads v .condition ss b) :
    Reads v .test (.opening :: ss ++ [.closing]) b
  | test {ss : List Sign} {b : Bool} (h : Reads v .test ss b) : Reads v .conjunction ss b
  | and {ss ts : List Sign} {a b : Bool} (h : Reads v .test ss a)
      (h' : Reads v .conjunction ts b) : Reads v .conjunction (ss ++ .link .and :: ts) (a && b)
  | conjunction {ss : List Sign} {b : Bool} (h : Reads v .conjunction ss b) :
    Reads v .condition ss b
  | or {ss ts : List Sign} {a b : Bool} (h : Reads v .conjunction ss a)
      (h' : Reads v .condition ts b) : Reads v .condition (ss ++ .link .or :: ts) (a || b)

/- A machine that takes the signs one by one. It has one tally for each open parenthesis and one
   for what is around them. -/

/-- Some conjunction so far was true, the present one was so far, and `not` is pending. -/
structure Tally where
  some : Bool := false
  all : Bool := true
  negated : Bool := false

namespace Tally

def value (t : Tally) : Bool := t.some || t.all

def take (t : Tally) (b : Bool) : Tally :=
  { t with all := t.all && (b != t.negated), negated := false }

end Tally

def Sign.tally (v : Atom → Bool) : List Tally → Sign → List Tally
  | t :: outer, .atom p => t.take (v p) :: outer
  | t :: outer, .not => { t with negated := !t.negated } :: outer
  | t :: outer, .link .or => { some := t.value } :: outer
  | tallies, .opening => {} :: tallies
  | t :: u :: outer, .closing => u.take t.value :: outer
  | tallies, _ => tallies

def tallyAll (v : Atom → Bool) (tallies : List Tally) (ss : List Sign) : List Tally :=
  ss.foldl (Sign.tally v) tallies

/-- How signs of a rank change the innermost tally. -/
def Rank.Tallied (v : Atom → Bool) (ss : List Sign) (b : Bool) : Rank → Prop
  | .test => ∀ t outer, tallyAll v (t :: outer) ss = t.take b :: outer
  | .conjunction => ∀ t outer, t.negated = false → tallyAll v (t :: outer) ss = t.take b :: outer
  | .condition => ∀ t outer, t.negated = false → t.all = true →
    ∃ u, tallyAll v (t :: outer) ss = u :: outer ∧ u.value = (t.some || b)

theorem tallyAll_append (v : Atom → Bool) (tallies : List Tally) (ss ts : List Sign) :
    tallyAll v tallies (ss ++ ts) = tallyAll v (tallyAll v tallies ss) ts := List.foldl_append

theorem tallyAll_cons (v : Atom → Bool) (tallies : List Tally) (s : Sign) (ss : List Sign) :
    tallyAll v tallies (s :: ss) = tallyAll v (s.tally v tallies) ss := rfl

theorem Reads.tallied (h : Reads v rank ss b) : rank.Tallied v ss b := by
  induction h with
  | atom p => exact fun t outer => rfl
  | @not ss b _ ih =>
    intro t outer
    rw [tallyAll_cons, Sign.tally, ih]
    simp [Tally.take]
  | @paren ss b _ ih =>
    intro t outer
    obtain ⟨u, hu, hvalue⟩ := ih {} (t :: outer) rfl rfl
    have hopen : tallyAll v (t :: outer) (.opening :: ss) = u :: t :: outer := hu
    have hclose : tallyAll v (u :: t :: outer) [.closing] = t.take u.value :: outer := rfl
    rw [tallyAll_append, hopen, hclose, hvalue]
    rfl
  | test _ ih => exact fun t outer _ => ih t outer
  | @and ss ts a b _ _ ih ih' =>
    intro t outer ht
    rw [tallyAll_append, ih, tallyAll_cons]
    simp only [Sign.tally]
    rw [ih' _ _ rfl]
    simp [Tally.take, ht, Bool.and_assoc]
  | conjunction _ ih =>
    intro t outer ht hall
    exact ⟨_, ih t outer ht, by simp [Tally.value, Tally.take, ht, hall]⟩
  | @or ss ts a b _ _ ih ih' =>
    intro t outer ht hall
    obtain ⟨u, hu, hvalue⟩ := ih' { some := (t.take a).value } outer rfl rfl
    refine ⟨u, ?_, ?_⟩
    · rw [tallyAll_append, ih t outer ht, tallyAll_cons]
      exact hu
    · rw [hvalue]
      simp [Tally.value, Tally.take, ht, hall, Bool.or_assoc]

def conditionValue (v : Atom → Bool) (ss : List Sign) : Bool :=
  (tallyAll v [{}] ss).head?.any Tally.value

theorem Reads.value_eq (h : Reads v .condition ss b) : conditionValue v ss = b := by
  obtain ⟨u, hu, hvalue⟩ := h.tallied {} [] rfl rfl
  simp [conditionValue, hu, hvalue]

theorem Reads.iff_eq (h : Reads v .condition ss b) (c : Bool) :
    Reads v .condition ss c ↔ c = b := by
  constructor
  · intro hc
    rw [← hc.value_eq, h.value_eq]
  · rintro rfl
    exact h

/- Putting conditions together. -/

theorem Reads.and_conjunction (h : Reads v .conjunction ss a) (h' : Reads v .conjunction ts b) :
    Reads v .conjunction (ss ++ .link .and :: ts) (a && b) := by
  generalize hr : Rank.conjunction = rank at h
  induction h with
  | atom p => cases hr
  | not h ih => cases hr
  | paren h ih => cases hr
  | test h ih => exact .and h h'
  | and h h'' ih ih' =>
    rw [List.append_assoc, List.cons_append, Bool.and_assoc]
    exact .and h (ih' rfl)
  | conjunction h ih => cases hr
  | or h h'' ih ih' => cases hr

/-- A test in front binds to the first conjunction only. -/
theorem Reads.exists_and (h : Reads v .test ss a) (h' : Reads v .condition ts b) :
    ∃ c, Reads v .condition (ss ++ .link .and :: ts) c := by
  cases h' with
  | conjunction h' => exact ⟨_, .conjunction (.and h h')⟩
  | @or us us' b b' h' h'' =>
    refine ⟨(a && b) || b', ?_⟩
    rw [← List.cons_append, ← List.append_assoc]
    exact .or (.and h h') h''

theorem Reads.join {α : Type} {signs : α → List Sign} {val : α → Bool} {as : List α} (hne : as ≠ [])
    (h : ∀ a ∈ as, Reads v .conjunction (signs a) (val a)) :
    Reads v .conjunction ([.link .and].intercalate (as.map signs)) (as.all val) := by
  induction as with
  | nil => exact absurd rfl hne
  | cons a as ih =>
    rw [List.forall_mem_cons] at h
    cases as with
    | nil => simpa using h.1
    | cons b as =>
      have hrest := ih (by simp) h.2
      rw [List.map_cons, List.map_cons, List.intercalate_cons_cons, ← List.map_cons, List.all_cons,
        List.append_assoc]
      exact h.1.and_conjunction hrest

end BracketQuery
