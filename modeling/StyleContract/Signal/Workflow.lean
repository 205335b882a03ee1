import StyleContract.Signal.Basic
import StyleContract.Text.Find
import StyleContract.Yaml.Value

/-!
# Signal — Workflow

Signals from the definitions of build servers: the shell commands that they run. A definition that
is no YAML is passed over.
-/

namespace StyleContract

def Signal.runCommandKind : String := "ci.run.command"

namespace Workflow

/-- The keys of a mapping whose values are commands. -/
def commandKeys : List String := ["run", "script", "before_script", "after_script"]

def isDefinition (path : String) : Bool :=
  (path.startsWith ".github/workflows/" && (path.endsWith ".yml" || path.endsWith ".yaml")) ||
    path == ".gitlab-ci.yml" || path == "azure-pipelines.yml"

/-- The commands of a script, one a line, without blank lines and comments. -/
def scriptCommands (script : String) : List String :=
  ((Text.lines script).map Text.trim).filter fun line => line != "" && !line.startsWith "#"

mutual

/-- The commands of a value that stands where commands are expected. -/
def commandsIn : Yaml.Value → List String
  | .scalar (.text s) => scriptCommands s
  | .sequence items => commandsInAll items
  | _ => []

def commandsInAll : List Yaml.Value → List String
  | [] => []
  | v :: vs => commandsIn v ++ commandsInAll vs

end

def isCommandKey (key : Yaml.Value) : Bool := key.text?.any (· ∈ commandKeys)

mutual

/-- The commands anywhere in a definition. -/
def commands : Yaml.Value → List String
  | .mapping entries => commandsOfEntries entries
  | .sequence items => commandsOfItems items
  | _ => []

def commandsOfEntries : List (Yaml.Value × Yaml.Value) → List String
  | [] => []
  | (k, v) :: rest =>
    (if isCommandKey k then commandsIn v else commands v) ++ commandsOfEntries rest

def commandsOfItems : List Yaml.Value → List String
  | [] => []
  | v :: vs => commands v ++ commandsOfItems vs

end

/-- The lines at which commands stand, each searched for after the one before it. -/
def linesOf (line : UInt32) (rest : List Char) : List String → List (String × UInt32)
  | [] => []
  | command :: more =>
    match Text.placeOf? command.toList rest with
    | some n =>
      let here := line + UInt32.ofNat ((rest.take n).count '\n')
      let next := n + command.length
      (command, here) ::
        linesOf (line + UInt32.ofNat ((rest.take next).count '\n')) (rest.drop next) more
    | none => (command, 1) :: linesOf line rest more

def fileSignals (path text : String) : List Signal :=
  match Yaml.Value.ofText? text with
  | none => []
  | some v =>
    (linesOf 1 text.toList (commands v)).map fun (command, line) =>
      ⟨Signal.runCommandKind, .str command, path, ⟨line, line⟩, 0.5⟩

def scanner : Scanner where
  name := "ci"
  scan tree root most := do
    let files ← scannedFiles tree root most isDefinition
    let signals ← files.mapM fun f => f.text.map (fileSignals f.path)
    .ok signals.flatten

end Workflow

end StyleContract
