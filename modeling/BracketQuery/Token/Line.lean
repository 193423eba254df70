import BracketQuery.Text.Blank
import BracketQuery.Token.Word

/-! The tokens of one line. -/
namespace BracketQuery.Token

def isSymbolChar (c : Char) : Bool :=
  ['\x7b', '\x7d', '[', ']', '(', ')', '<', '>', '!', '=', ','].contains c

def doubleSigns : List (Char × Char) := [('<', '>'), ('!', '='), ('<', '='), ('>', '=')]

/-- A sign of two characters counts as one token before a blank or the end of the line. -/
def doubleSign? : List Char → Option (List Char × List Char)
  | a :: b :: rest =>
    if doubleSigns.contains (a, b) && rest.head?.all Text.isBlank then some ([a, b], rest) else none
  | _ => none

/-- The operator and the word of a test for null, and what follows them. -/
structure NullTest where
  operator : List Char
  null : List Char
  rest : List Char

/-- Four characters that read `null`, not continued by a word character. -/
def nullTail? (operator cs : List Char) : Option NullTest :=
  if folded (cs.take 4) = "null".toList && !(cs.drop 4).head?.any isWordChar then
    some ⟨operator, cs.take 4, cs.drop 4⟩
  else none

/-- What a test for null goes on with after `is`. -/
def afterIs? (is cs : List Char) : Option NullTest :=
  if folded (Text.firstWord cs) = "not".toList then
    nullTail? (is ++ ' ' :: Text.firstWord cs) (Text.skipBlanks (Text.afterWord cs))
  else nullTail? is cs

/-- Folds `is null` and `is not null`; the blanks between `is` and `not` become one. -/
def nullTest? (cs : List Char) : Option NullTest :=
  if folded (Text.firstWord cs) = "is".toList then
    afterIs? (Text.firstWord cs) (Text.skipBlanks (Text.afterWord cs))
  else none

/-- Why no token starts at a place. -/
inductive Fault where
  | unknown (c : Char)
  | unfinished (what : Unfinished)

def wordHead (c : Char) (cs : List Char) : Except Fault (List Token × List Char) :=
  match splitWord (c :: cs) with
  | .error what => .error (.unfinished what)
  | .ok ([], _) => .error (.unknown c)
  | .ok (text, rest) => .ok ([.word (String.ofList text)], rest)

/-- The tokens that start at `c`, and the rest of the line. -/
def head (c : Char) (cs : List Char) : Except Fault (List Token × List Char) :=
  match doubleSign? (c :: cs), nullTest? (c :: cs) with
  | some (sign, rest), _ => .ok ([.symbol (String.ofList sign)], rest)
  | none, some test =>
    .ok ([.symbol (String.ofList test.operator), .word (String.ofList test.null)], test.rest)
  | none, none => if isSymbolChar c then .ok ([.symbol c.toString], cs) else wordHead c cs

theorem doubleSign?_length {cs sign rest : List Char} (h : doubleSign? cs = some (sign, rest)) :
    rest.length < cs.length := by
  unfold doubleSign? at h
  split at h
  · split at h <;> simp only [Option.some.injEq, Prod.mk.injEq, reduceCtorEq] at h
    simp only [← h.2, List.length_cons]
    omega
  · simp at h

theorem nullTail?_length {operator cs : List Char} {test : NullTest}
    (h : nullTail? operator cs = some test) : test.rest.length < cs.length := by
  unfold nullTail? at h
  split at h
  · rename_i hn
    simp only [Option.some.injEq] at h
    subst h
    simp only [Bool.and_eq_true, decide_eq_true_eq] at hn
    have hlen := congrArg List.length hn.1
    have hnull : "null".toList.length = 4 := rfl
    simp only [folded, List.length_map, List.length_take, hnull] at hlen
    simp only [List.length_drop]
    omega
  · simp at h

theorem afterWord_length (cs : List Char) :
    (Text.skipBlanks (Text.afterWord cs)).length ≤ cs.length :=
  Nat.le_trans (Text.skipBlanks_length _) (List.dropWhile_sublist _).length_le

theorem afterIs?_length {is cs : List Char} {test : NullTest} (h : afterIs? is cs = some test) :
    test.rest.length < cs.length := by
  unfold afterIs? at h
  split at h
  · exact Nat.lt_of_lt_of_le (nullTail?_length h) (afterWord_length cs)
  · exact nullTail?_length h

theorem nullTest?_length {cs : List Char} {test : NullTest} (h : nullTest? cs = some test) :
    test.rest.length < cs.length := by
  unfold nullTest? at h
  split at h
  · exact Nat.lt_of_lt_of_le (afterIs?_length h) (afterWord_length cs)
  · simp at h

theorem wordHead_length {c : Char} {cs rest : List Char} {ts : List Token}
    (h : wordHead c cs = .ok (ts, rest)) : rest.length < (c :: cs).length := by
  unfold wordHead at h
  split at h
  · simp at h
  · simp at h
  · rename_i text rest' hne hw
    simp only [Except.ok.injEq, Prod.mk.injEq] at h
    have hlen := congrArg List.length (splitWord_append hw)
    have : text ≠ [] := hne
    have := List.length_pos_iff.2 this
    simp only [List.length_append, h.2] at hlen
    omega

theorem head_length {c : Char} {cs rest : List Char} {ts : List Token}
    (h : head c cs = .ok (ts, rest)) : rest.length < (c :: cs).length := by
  unfold head at h
  split at h
  · rename_i hs
    simp only [Except.ok.injEq, Prod.mk.injEq] at h
    exact h.2 ▸ doubleSign?_length hs
  · rename_i hn
    simp only [Except.ok.injEq, Prod.mk.injEq] at h
    exact h.2 ▸ nullTest?_length hn
  · split at h
    · simp only [Except.ok.injEq, Prod.mk.injEq] at h
      simp [← h.2]
    · exact wordHead_length h

/-- Line `number`, of `width` characters, with `left` of them from the place on. -/
def Fault.located (number width left : Nat) : Fault → ScanError
  | .unknown c => .unknownCharacter c number (width - left + 1)
  | .unfinished what => .unterminated what number

theorem rest_length {cs r rest : List Char} {c : Char} {ts : List Token}
    (hskip : Text.skipBlanks cs = c :: r) (hhead : head c r = .ok (ts, rest)) :
    rest.length < cs.length :=
  Nat.lt_of_lt_of_le (head_length hhead) (hskip ▸ Text.skipBlanks_length cs)

def lineFrom (number width : Nat) (cs : List Char) : Except ScanError (List Token) :=
  match hskip : Text.skipBlanks cs with
  | [] => .ok []
  | c :: r =>
    match hhead : head c r with
    | .error fault => .error (fault.located number width (c :: r).length)
    | .ok (ts, rest) =>
      have := rest_length hskip hhead
      (ts ++ ·) <$> lineFrom number width rest
termination_by cs.length

def line (number : Nat) (cs : List Char) : Except ScanError (List Token) :=
  lineFrom number cs.length cs

end BracketQuery.Token
