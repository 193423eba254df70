import BracketQuery.Token
import BracketQuery.Text.Alphanumeric

/-! The longest word at the front of a line: word characters, quoted literals, and the arguments
of a call attached to what was read before. -/
namespace BracketQuery.Token

def isWordChar (c : Char) : Bool :=
  Text.isAlphanumeric c || ['_', ':', '@', '$', '?', '.', '*'].contains c

def isQuote (c : Char) : Bool := c = '\x27' || c = '\x22'

/-- Words that stand before a parenthesis without calling anything. -/
def leadsGroup (word : List Char) : Bool :=
  ["not", "in", "and", "or"].any (folded word == folded ·.toList)

/-- A parenthesis right after these characters opens call arguments. -/
def callable (taken : List Char) : Bool := !taken.isEmpty && !leadsGroup taken.reverse

/-- Parentheses open after `c`, when `depth + 1` are open before it. -/
def depthAfter (depth : Nat) (c : Char) : Nat :=
  if c = '(' then depth + 2 else if c = ')' then depth else depth + 1

/- `taken` is what was read, last character first; `depth` counts the open parentheses of call
   arguments; `quote` is the quote that ends the literal being read. A doubled quote ends one
   literal and starts the next, which takes in the same characters as an escape would. -/
def wordFrom (taken : List Char) (depth : Nat) (quote : Option Char) :
    List Char → Except Unfinished (List Char × List Char)
  | [] =>
    match quote, depth with
    | some _, _ => .error .literal
    | none, _ + 1 => .error .call
    | none, 0 => .ok (taken.reverse, [])
  | c :: cs =>
    match quote, depth with
    | some q, _ => wordFrom (c :: taken) depth (if c = q then none else some q) cs
    | none, depth + 1 =>
      if isQuote c then wordFrom (c :: taken) (depth + 1) (some c) cs
      else wordFrom (c :: taken) (depthAfter depth c) none cs
    | none, 0 =>
      if isWordChar c then wordFrom (c :: taken) 0 none cs
      else if isQuote c then wordFrom (c :: taken) 0 (some c) cs
      else if c = '(' && callable taken then wordFrom (c :: taken) 1 none cs
      else .ok (taken.reverse, c :: cs)

/-- The word at the front and what follows it; the word is empty if none starts there. -/
def splitWord (cs : List Char) : Except Unfinished (List Char × List Char) := wordFrom [] 0 none cs

theorem wordFrom_append {taken : List Char} {depth : Nat} {quote : Option Char}
    {cs word rest : List Char} (h : wordFrom taken depth quote cs = .ok (word, rest)) :
    word ++ rest = taken.reverse ++ cs := by
  induction cs generalizing taken depth quote with
  | nil => unfold wordFrom at h; split at h <;> simp_all
  | cons c cs ih =>
    unfold wordFrom at h
    split at h
    · simpa using ih h
    · split at h <;> simpa using ih h
    · split at h
      · simpa using ih h
      split at h
      · simpa using ih h
      split at h
      · simpa using ih h
      · simp only [Except.ok.injEq, Prod.mk.injEq] at h
        simp [← h.1, ← h.2]

theorem splitWord_append {cs word rest : List Char} (h : splitWord cs = .ok (word, rest)) :
    word ++ rest = cs := by simpa using wordFrom_append h

end BracketQuery.Token
