import BracketQuery.Text.Blank
import BracketQuery.Text.Digits
import BracketQuery.Token.Word

/-! Column references. A bare name gets the scope it belongs to in front; literals and names that
have a scope already stay as they are; in a call the arguments are taken one by one. -/
namespace BracketQuery.Sql

def dropSign : List Char → List Char
  | '+' :: cs => cs
  | '-' :: cs => cs
  | cs => cs

/-- The end of a number: nothing, or an exponent. -/
def isExponent : List Char → Bool
  | [] => true
  | c :: cs => (c = 'e' || c = 'E') && Text.allDigits (dropSign cs)

def isFraction : List Char → Bool
  | '.' :: cs => isExponent (cs.dropWhile Char.isDigit)
  | cs => isExponent cs

/-- Digits, with an optional fraction and an optional exponent. -/
def isNumber (cs : List Char) : Bool :=
  cs.head?.any Char.isDigit && isFraction (cs.dropWhile Char.isDigit)

def marksLiteral (c : Char) : Bool := [':', '@', '$', '?'].contains c || Token.isQuote c

/-- Parameters, quoted literals, constants, numbers, and whatever holds a dot or a star. -/
def isLiteralText (cs : List Char) : Bool :=
  cs.head?.any marksLiteral
    || ["null", "true", "false"].any (folded cs == ·.toList)
    || isNumber cs
    || cs.any (fun c => c = '.' || c = '*')

def isLiteral (text : String) : Bool := isLiteralText text.toList

/-- The name and the argument text of a call. -/
def call? (cs : List Char) : Option (List Char × List Char) :=
  match cs.dropWhile (· != '(') with
  | [] => none
  | _ :: rest =>
    if cs.head? != some '(' && rest.getLast? == some ')' then
      some (cs.takeWhile (· != '('), rest.dropLast)
    else none

/-- Cuts at the commas outside parentheses and quotes. `part` is the argument being read, last
character first; an unmatched closing parenthesis changes nothing. -/
def argumentsFrom (part : List Char) (depth : Nat) (quote : Option Char) :
    List Char → List (List Char)
  | [] => [Text.trimBlanks part.reverse]
  | c :: cs =>
    match quote with
    | some q => argumentsFrom (c :: part) depth (if c = q then none else some q) cs
    | none =>
      if Token.isQuote c then argumentsFrom (c :: part) depth (some c) cs
      else if c = '(' then argumentsFrom (c :: part) (depth + 1) none cs
      else if c = ')' then argumentsFrom (c :: part) (depth - 1) none cs
      else if c = ',' && depth == 0 then
        Text.trimBlanks part.reverse :: argumentsFrom [] 0 none cs
      else argumentsFrom (c :: part) depth none cs

def arguments (cs : List Char) : List (List Char) := argumentsFrom [] 0 none cs

theorem argumentsFrom_length {part cs a : List Char} {depth : Nat} {quote : Option Char}
    (h : a ∈ argumentsFrom part depth quote cs) : a.length ≤ part.length + cs.length := by
  induction cs generalizing part depth quote with
  | nil =>
    simp only [argumentsFrom, List.mem_singleton] at h
    simpa [h] using Text.trimBlanks_length part.reverse
  | cons c cs ih =>
    have step {part' : List Char} {d : Nat} {q : Option Char}
        (hm : a ∈ argumentsFrom part' d q cs) (hp : part'.length ≤ part.length + 1) :
        a.length ≤ part.length + (c :: cs).length := by
      have := ih hm
      simp only [List.length_cons]
      omega
    unfold argumentsFrom at h
    split at h
    · exact step h (by simp)
    · split at h
      · exact step h (by simp)
      split at h
      · exact step h (by simp)
      split at h
      · exact step h (by simp)
      split at h
      · simp only [List.mem_cons] at h
        rcases h with rfl | h
        · have := Text.trimBlanks_length part.reverse
          simp only [List.length_reverse] at this
          simp only [List.length_cons]
          omega
        · exact step h (by simp)
      · exact step h (by simp)

theorem call?_length {cs name args : List Char} (h : call? cs = some (name, args)) :
    args.length < cs.length := by
  unfold call? at h
  split at h
  · simp at h
  · rename_i c rest hd
    split at h <;> simp only [Option.some.injEq, Prod.mk.injEq, reduceCtorEq] at h
    have hs : (c :: rest).length ≤ cs.length := hd ▸ (List.dropWhile_sublist _).length_le
    simp only [← h.2, List.length_dropLast, List.length_cons] at hs ⊢
    omega

theorem arguments_length {cs name args a : List Char} (h : call? cs = some (name, args))
    (ha : a ∈ arguments args) : a.length < cs.length := by
  have h1 := call?_length h
  have h2 := argumentsFrom_length ha
  simp only [List.length_nil, Nat.zero_add] at h2
  omega

/-- Arguments that hold a blank, such as `distinct x`, are no plain names and stay. -/
def qualifiedText (scope cs : List Char) : List Char :=
  if isLiteralText cs then cs
  else
    match hcall : call? cs with
    | none => scope ++ '.' :: cs
    | some (name, args) =>
      name ++ '(' :: [',', ' '].intercalate ((arguments args).attach.map fun ⟨a, ha⟩ =>
        have := arguments_length hcall ha
        if a.isEmpty || a.any Text.isBlank then a else qualifiedText scope a) ++ [')']
termination_by cs.length

def qualify (text scope : String) : String :=
  String.ofList (qualifiedText scope.toList text.toList)

end BracketQuery.Sql
