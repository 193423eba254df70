import BracketQuery.Text.Digits

/-! The arguments of the command. They are taken from left to right, and the first fault or the
first request for the version or for help decides. -/
namespace BracketQuery.CommandLine

structure Options where
  path : Option String := none
  expr : Option String := none
  ast : Bool := false
  verbose : Bool := false
  maxDepth : Option Nat := none

inductive Request where
  | compile (options : Options)
  | version
  | help

inductive UsageError where
  | unknownOption (arg : String)
  | missingValue (option : String)
  | needlessValue (option : String)
  | repeated (option : String)
  | badDepth (text : String)
  | emptyPath
  | secondPath (path : String)
  | pathWithExpr

def UsageError.message : UsageError → String
  | .unknownOption arg => "unexpected argument " ++ arg
  | .missingValue option => "a value is required for " ++ option
  | .needlessValue option => option ++ " takes no value"
  | .repeated option => option ++ " is given more than once"
  | .badDepth text => "invalid depth " ++ text
  | .emptyPath => "the path is empty"
  | .secondPath path => "unexpected second path " ++ path
  | .pathWithExpr => "a path cannot be used with --expr"

/-- The options that take no value. -/
inductive Flag where
  | ast | verbose | version | help

/-- The options that take one. -/
inductive Setting where
  | expr | maxDepth

def Setting.name : Setting → String
  | .expr => "--expr"
  | .maxDepth => "--max-depth"

inductive Switch where
  | flag (flag : Flag)
  | setting (setting : Setting)

def Switch.ofLong? (name : String) : Option Switch :=
  match name with
  | "ast" => some (.flag .ast)
  | "verbose" => some (.flag .verbose)
  | "version" => some (.flag .version)
  | "help" => some (.flag .help)
  | "expr" => some (.setting .expr)
  | "max-depth" => some (.setting .maxDepth)
  | _ => none

def Switch.ofShort? (c : Char) : Option Switch :=
  match c with
  | 'v' => some (.flag .verbose)
  | 'V' => some (.flag .version)
  | 'h' => some (.flag .help)
  | 'e' => some (.setting .expr)
  | _ => none

inductive Progress where
  | going (options : Options)
  | awaiting (setting : Setting) (options : Options)
  | decided (request : Request)

abbrev Taken := Except UsageError Progress

def Options.raise (options : Options) : Flag → Taken
  | .ast =>
    if options.ast then .error (.repeated "--ast") else .ok (.going { options with ast := true })
  | .verbose =>
    if options.verbose then .error (.repeated "--verbose")
    else .ok (.going { options with verbose := true })
  | .version => .ok (.decided .version)
  | .help => .ok (.decided .help)

def Options.assign (options : Options) (value : String) : Setting → Except UsageError Options
  | .expr =>
    if options.expr.isSome then .error (.repeated "--expr")
    else .ok { options with expr := some value }
  | .maxDepth =>
    if options.maxDepth.isSome then .error (.repeated "--max-depth")
    else
      match Text.word64? value with
      | some n => .ok { options with maxDepth := some n }
      | none => .error (.badDepth value)

def Options.addPath (options : Options) (path : String) : Except UsageError Options :=
  if path.isEmpty then .error .emptyPath
  else if options.path.isSome then .error (.secondPath path)
  else .ok { options with path := some path }

/-- `name` or `name=value`, after two dashes. -/
def takeLong (options : Options) (body : List Char) : Taken :=
  let name := String.ofList (body.takeWhile (· != '='))
  match Switch.ofLong? name, body.dropWhile (· != '=') with
  | none, _ => .error (.unknownOption ("--" ++ name))
  | some (.flag flag), [] => options.raise flag
  | some (.flag _), _ => .error (.needlessValue ("--" ++ name))
  | some (.setting setting), [] => .ok (.awaiting setting options)
  | some (.setting setting), _ :: value => .going <$> options.assign (String.ofList value) setting

/-- Letters after one dash; a setting takes the rest as its value, less an equals sign. -/
def takeShort (options : Options) : List Char → Taken
  | [] => .ok (.going options)
  | c :: cs =>
    match Switch.ofShort? c with
    | none => .error (.unknownOption (String.ofList ['-', c]))
    | some (.flag flag) => do
      match ← options.raise flag with
      | .going options => takeShort options cs
      | other => return other
    | some (.setting setting) =>
      match cs with
      | [] => .ok (.awaiting setting options)
      | '=' :: value => .going <$> options.assign (String.ofList value) setting
      | value => .going <$> options.assign (String.ofList value) setting

/-- A single dash is a path, which names the standard input. -/
def takeArgument (options : Options) (arg : String) : Taken :=
  match arg.toList with
  | '-' :: '-' :: body => takeLong options body
  | '-' :: c :: cs => takeShort options (c :: cs)
  | _ => .going <$> options.addPath arg

def looksLikeOption (arg : String) : Bool := arg.toList.head? == some '-' && arg != "-"

def takePaths (options : Options) : List String → Except UsageError Options
  | [] => .ok options
  | arg :: rest => do takePaths (← options.addPath arg) rest

def takeAll (options : Options) : List String → Except UsageError Request
  | [] => .ok (.compile options)
  | arg :: rest =>
    if arg = "--" then .compile <$> takePaths options rest
    else
      match takeArgument options arg, rest with
      | .error e, _ => .error e
      | .ok (.decided request), _ => .ok request
      | .ok (.going options), rest => takeAll options rest
      | .ok (.awaiting setting _), [] => .error (.missingValue setting.name)
      | .ok (.awaiting setting options), value :: rest =>
        if looksLikeOption value then .error (.missingValue setting.name)
        else
          match options.assign value setting with
          | .error e => .error e
          | .ok options => takeAll options rest

/-- What remains to be checked once all arguments are known: a path excludes a query among the
arguments, and the environment may set the depth that no argument sets. -/
def settle (depthVariable : Option String) (options : Options) : Except UsageError Options :=
  if options.path.isSome && options.expr.isSome then .error .pathWithExpr
  else
    match options.maxDepth, depthVariable with
    | none, some text =>
      match Text.word64? text with
      | some n => .ok { options with maxDepth := some n }
      | none => .error (.badDepth text)
    | _, _ => .ok options

def request (depthVariable : Option String) (args : List String) : Except UsageError Request := do
  match ← takeAll {} args with
  | .compile options => .compile <$> settle depthVariable options
  | other => return other

end BracketQuery.CommandLine
