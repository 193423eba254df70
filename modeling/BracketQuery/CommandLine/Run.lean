import BracketQuery.CommandLine.Arguments
import BracketQuery.Compile
import BracketQuery.Json.Select

/-! What the command answers. Its input is what it is given: arguments, an environment variable,
the standard input and files. -/
namespace BracketQuery.CommandLine

inductive Source where
  | expr (text : String)
  | stdin
  | file (path : String)

def Source.label : Source → String
  | .expr _ => "--expr"
  | .stdin => "stdin"
  | .file path => path

def Options.source (options : Options) : Source :=
  match options.expr, options.path with
  | some text, _ => .expr text
  | none, none => .stdin
  | none, some path => if path = "-" then .stdin else .file path

inductive ReadFault where
  | noSuchFile
  | isDirectory
  | notText
  | other (description : String)

def ReadFault.message : ReadFault → String
  | .noSuchFile => "No such file or directory (os error 2)"
  | .isDirectory => "Is a directory (os error 21)"
  | .notText => "stream did not contain valid UTF-8"
  | .other description => description

def decoded (bytes : ByteArray) : Except ReadFault String :=
  match String.fromUTF8? bytes with
  | some text => .ok text
  | none => .error .notText

structure Outcome where
  exit : Nat
  stdout : String := ""
  stderr : String := ""

/-- What the command leaves to others: how arguments are taken, and how failures and events of the
log are written. An event has a message and named values. -/
structure Tools where
  request : Option String → List String → Except UsageError Request
  failureText (context cause : String) : String
  logText (verbose : Bool) (message : String) (values : List (String × String)) : String

/-- A failure and its cause, the lines of which are set in. -/
def failureText (context cause : String) : String :=
  "Error: " ++ context ++ "\n\nCaused by:\n    "
    ++ String.ofList (cause.toList.flatMap fun c =>
      if c = '\n' then ['\n', ' ', ' ', ' ', ' '] else [c])
    ++ "\n"

def logText (verbose : Bool) (message : String) (values : List (String × String)) : String :=
  if verbose then
    "DEBUG " ++ message ++ String.join (values.map fun (name, value) => " " ++ name ++ "=" ++ value)
      ++ "\n"
  else ""

def plainTools : Tools := ⟨request, failureText, logText⟩

def output (ast : Bool) (select : Select) : String :=
  if ast then (Json.ofSelect select).pretty else Text.trim select.render

def depthOf (options : Options) : Nat := options.maxDepth.getD defaultLimit

def answer (tools : Tools) (options : Options) (label text : String) : Outcome :=
  let begun := tools.logText options.verbose "Compiling query"
    [("source", label), ("bytes", text.utf8ByteSize.repr), ("max_depth", (depthOf options).repr)]
  match compile (depthOf options) text with
  | .ok select =>
    { exit := 0
      stdout := output options.ast select ++ "\n"
      stderr := begun ++ tools.logText options.verbose "Compiled query" [("source", label)] }
  | .error e =>
    { exit := 1
      stderr := begun ++ tools.failureText ("Failed to compile query from " ++ label) e.message }

/-- The outcome for a source that was read, or could not be. -/
def respond (tools : Tools) (options : Options) (read : Except ReadFault String) : Outcome :=
  match read with
  | .ok text => answer tools options options.source.label text
  | .error fault =>
    { exit := 1
      stderr := tools.failureText ("Failed to read " ++ options.source.label) fault.message }

def versionText : String := "better-sql 0.1.0\n"

/-- The help shows what the environment sets the depth to. -/
def helpText (depthVariable : Option String) : String :=
  String.join <| [
    "Command-line transpiler from bracket-nested select expressions to SQL",
    "",
    "Usage: better-sql [OPTIONS] [INPUT]",
    "",
    "Arguments:",
    "  [INPUT]  Query file. Reads stdin when omitted or \"-\"",
    "",
    "Options:",
    "  -e, --expr <EXPR>            Query text given inline",
    "      --ast                    Print the parsed syntax tree as JSON instead of SQL",
    "      --max-depth <MAX_DEPTH>  Maximum nesting of relations, parentheses, sub-selects and " ++
      "and/or chain links [env: BETTER_SQL_MAX_DEPTH=" ++ depthVariable.getD "" ++
      "] [default: " ++ defaultLimit.repr ++ "]",
    "  -v, --verbose                Enable verbose output",
    "  -h, --help                   Print help",
    "  -V, --version                Print version"].map (· ++ "\n")

def usageOutcome (e : UsageError) : Outcome :=
  { exit := 2, stderr := "error: " ++ e.message ++ "\n\nFor more information, try '--help'.\n" }

def outcomeOf (tools : Tools) (depthVariable : Option String)
    (read : Source → Except ReadFault String) : Except UsageError Request → Outcome
  | .error e => usageOutcome e
  | .ok .version => { exit := 0, stdout := versionText }
  | .ok .help => { exit := 0, stdout := helpText depthVariable }
  | .ok (.compile options) => respond tools options (read options.source)

structure World where
  depthVariable : Option String
  stdin : ByteArray
  file : String → Except ReadFault ByteArray

def World.read (world : World) : Source → Except ReadFault String
  | .expr text => .ok text
  | .stdin => decoded world.stdin
  | .file path => world.file path >>= decoded

def runWith (tools : Tools) (world : World) (args : List String) : Outcome :=
  outcomeOf tools world.depthVariable world.read (tools.request world.depthVariable args)

def run (world : World) (args : List String) : Outcome := runWith plainTools world args

end BracketQuery.CommandLine
