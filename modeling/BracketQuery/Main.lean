import BracketQuery.CommandLine.Run

/-! The command itself. -/
open BracketQuery.CommandLine

def readFault : IO.Error → ReadFault
  | .noFileOrDirectory .. => .noSuchFile
  | .inappropriateType .. => .isDirectory
  | e => .other e.toString

partial def readAll (input : IO.FS.Stream) (bytes : ByteArray) : IO ByteArray := do
  let chunk ← input.read 65536
  if chunk.isEmpty then return bytes else readAll input (bytes ++ chunk)

def readFrom : Source → IO (Except ReadFault String)
  | .expr text => return .ok text
  | .stdin => do return decoded (← readAll (← IO.getStdin) .empty)
  | .file path => do
    match ← (IO.FS.readBinFile path).toBaseIO with
    | .ok bytes => return decoded bytes
    | .error e => return .error (readFault e)

def printOutcome (outcome : Outcome) : IO UInt32 := do
  IO.print outcome.stdout
  IO.eprint outcome.stderr
  return outcome.exit.toUInt32

/- Only the source that the arguments name is read. -/
def main (args : List String) : IO UInt32 := do
  let depthVariable ← IO.getEnv "BETTER_SQL_MAX_DEPTH"
  let asked := plainTools.request depthVariable args
  let text ← match asked with
    | .ok (.compile options) => readFrom options.source
    | _ => pure (.ok "")
  printOutcome (outcomeOf plainTools depthVariable (fun _ => text) asked)
