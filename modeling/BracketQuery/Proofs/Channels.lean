import BracketQuery.CommandLine.Run
import BracketQuery.Proofs.ErrorNames

/-! The ways into the command. A query among the arguments, on the standard input or in a file is
answered in the same way; what is reported about it differs in the name of its source only. -/
namespace BracketQuery.CommandLine

/-- The command is given the text from a source of this name. -/
inductive Gives (world : World) (options : Options) (text : String) : String → Prop
  | expr (hexpr : options.expr = some text) : Gives world options text "--expr"
  | stdin (hexpr : options.expr = none) (hpath : options.path = none ∨ options.path = some "-")
      (hbytes : world.stdin = text.toUTF8) : Gives world options text "stdin"
  | file {path : String} (hexpr : options.expr = none) (hpath : options.path = some path)
      (hne : path ≠ "-") (hbytes : world.file path = .ok text.toUTF8) :
      Gives world options text path

variable {world : World} {options : Options} {text label : String}

/-- A text with places for the name of the source. -/
def filled (template : List (Option String)) (label : String) : String :=
  String.join (template.map (·.getD label))

@[simp] theorem filled_nil (label : String) : filled [] label = "" := rfl

@[simp] theorem filled_cons (part : Option String) (template : List (Option String))
    (label : String) :
    filled (part :: template) label = part.getD label ++ filled template label := by
  simp [filled]

/-- The texts around what is reported: around the context of a failure and its cause, and around an
event of the log and its values. -/
structure Frames where
  failure : String
  cause : String
  causeEnd : String
  event : String
  value (name : String) : String
  eventEnd : String

def Frames.plain : Frames where
  failure := "Error: "
  cause := "\n\nCaused by:\n    "
  causeEnd := "\n"
  event := "DEBUG "
  value name := " " ++ name ++ "="
  eventEnd := "\n"

variable {tools : Tools} {frames : Frames}

def Frames.logged (frames : Frames) (verbose : Bool) (message : String)
    (values : List (String × Option String)) : List (Option String) :=
  if verbose then
    some (frames.event ++ message) :: values.flatMap (fun x => [some (frames.value x.1), x.2])
      ++ [some frames.eventEnd]
  else []

def Frames.begun (frames : Frames) (verbose : Bool) (depth : Nat) (text : String) :
    List (Option String) :=
  frames.logged verbose "Compiling query"
    [("source", none), ("bytes", some text.utf8ByteSize.repr), ("max_depth", some depth.repr)]

end BracketQuery.CommandLine
