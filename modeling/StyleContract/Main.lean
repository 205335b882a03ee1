import Std.Time.DateTime.Timestamp
import StyleContract.CommandLine.Run

/-!
# Main

The program: it takes the working directory as a tree of files, runs the request of its arguments
on it and writes what has changed. Paths lead into the working directory. The program starts no
other program and opens no connection: a verifier's command meets a machine without programs, the
state of a repository is not known, and requests to an oracle are refused.
-/

namespace StyleContract.Main

open CommandLine

/-- The entry at a path. A link to a directory is taken to lead nowhere, so the tree is finite. -/
partial def readEntry (path : String) : IO Entry := do
  let place ← IO.FS.realPath path
  if ← place.isDir then
    let children ← (← place.readDir).toList.mapM fun child => do
      let below := Path.join path child.fileName
      let kind := (← child.path.symlinkMetadata).type
      let entry ← match kind with
        | .dir => readEntry below
        | .symlink =>
          if ← child.path.isDir then pure (.link none)
          else (Entry.link ∘ some) <$> readEntry below <|> pure (.link none)
        | _ => readEntry below <|> pure (.link none)
      pure (child.fileName, entry)
    pure (.folder children)
  else .file <$> IO.FS.readBinFile path

/-- Writes the files and directories of an entry that are not in the entry that was there. -/
partial def writeEntry (path : String) (before : Option Entry) : Entry → IO Unit
  | .file content =>
    match before with
    | some (.file old) => if old == content then pure () else IO.FS.writeBinFile path content
    | _ => IO.FS.writeBinFile path content
  | .folder children => do
    IO.FS.createDirAll path
    for (name, child) in children do
      let old := match before with
        | some (.folder olds) => Entry.child? name olds
        | _ => none
      writeEntry (Path.join path name) old child
  | .link _ => pure ()

/-- The values of the variables that a run looks up. -/
def readVariables : IO (String → Option String) := do
  let names := Settings.variableNames ++ Endpoint.variableNames
  let values ← names.mapM fun name => do pure (name, ← IO.getEnv name)
  pure fun name => (values.find? (·.1 == name)).bind (·.2)

/-- Whether output is coloured: by wish, or on a terminal unless that is not wanted. -/
def readColoured : IO Bool := do
  let forced ← IO.getEnv "CLICOLOR_FORCE"
  let refused ← IO.getEnv "NO_COLOR"
  let allowed ← IO.getEnv "CLICOLOR"
  if forced.any (· != "0") then pure true
  else if refused.isSome then pure false
  else pure (allowed != some "0" && (← (← IO.getStdout).isTty))

def readMoment : IO Moment := do
  let nanos := (← Std.Time.Timestamp.now).toNanosecondsSinceUnixEpoch.val
  pure ⟨nanos / 1000000000, (nanos % 1000000000).toNat⟩

/-- Two hexadecimal digits. -/
def hexByte (b : UInt8) : String :=
  String.ofList [Nat.digitChar (b.toNat / 16), Nat.digitChar (b.toNat % 16)]

/-- The text of a random identifier: sixteen bytes, of which six bits say that it is random. -/
def identifierText (bytes : List UInt8) : String :=
  let marked := bytes.mapIdx fun i b =>
    if i = 6 then b &&& 0x0f ||| 0x40 else if i = 8 then b &&& 0x3f ||| 0x80 else b
  String.join (marked.mapIdx fun i b =>
    (if i ∈ [4, 6, 8, 10] then "-" else "") ++ hexByte b)

def readMachine : IO Machine := do
  pure {
    environment := ← readVariables
    programs := fun _ => none
    versionControl := .absent
    exchange := fun _ _ => .refused "no connection"
    now := ← readMoment
    runId := identifierText (← IO.getRandomBytes 16).toList
    seconds := 0.0
    coloured := ← readColoured }

/-- What is said about a command line that is not run. -/
def refusalText : Refusal → String
  | .invalidValue | .unreadableValue => "error: a value is not allowed\n"
  | .unknownArgument => "error: unexpected argument\n"
  | .unknownCommand => "error: unknown command\n"
  | .repeatedOption => "error: an option is given twice\n"
  | .unexpectedValue => "error: a value for an option without one\n"
  | .missingCommand => "error: a command is missing\n"
  | .help | .helpForNothing => "Usage: repostyle <scan|agents|check|suggest|ci>\n"
  | .version => "repostyle 0.1.0\n"

/-- Runs the program in the working directory; the result is its exit code. -/
def run (arguments : List String) : IO UInt32 := do
  match Request.ofArguments arguments with
  | .error refusal =>
    let text := refusalText refusal
    if refusal.code = 0 then IO.print text else IO.eprint text
    pure (UInt32.ofNat refusal.code)
  | .ok (options, request) =>
    let before ← readEntry "."
    let outcome := Outcome.ofRequest (← readMachine) before options request
    writeEntry "." (some before) outcome.tree
    IO.print outcome.output
    IO.eprint outcome.errors
    pure (UInt32.ofNat outcome.exit.code)

end StyleContract.Main

def main (arguments : List String) : IO UInt32 := StyleContract.Main.run arguments
