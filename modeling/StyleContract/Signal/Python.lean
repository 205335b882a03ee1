import StyleContract.Pattern.Search
import StyleContract.Signal.Basic

/-!
# Signal — Python

Signals from Python sources: which files import certain modules, and how many of all function
definitions declare what they return.
-/

namespace StyleContract

open Pattern

namespace Signal

def importLoggingKind : String := "py.import.logging"

def testPytestKind : String := "py.test.pytest"

def typingDensityKind : String := "py.typing.density"

end Signal

namespace Python

def lineStart : Pattern := .seq (.anchor .lineStart) (star (.one (.of [' ', '\t'])))

/-- A line that imports a module or from it. -/
def importPattern (module : String) : Pattern :=
  .seq lineStart (.alt
    (chain [literal "import", someBlanks, literal module, .anchor .wordEdge])
    (chain [literal "from", someBlanks, literal module, someBlanks, literal "import",
      .anchor .wordEdge]))

/-- A function definition up to its opening bracket. -/
def defPattern : Pattern :=
  chain [lineStart, optional (.seq (literal "async") someBlanks), literal "def", someBlanks,
    plus (.one .word), blanks, literal "("]

/-- A function definition up to the arrow before what it returns. -/
def annotatedDefPattern : Pattern :=
  chain [defPattern, star (.one (.compl (.only ')'))), literal ")", blanks, literal "->"]

def isSource (path : String) : Bool := path.endsWith ".py"

/-- A signal at the first place where a file matches. -/
def importSignal (kind module path : String) (cs : List Char) : Option Signal :=
  ((importPattern module).find? cs).map fun m =>
    let line := Text.lineOfPlace cs m.start
    ⟨kind, .bool true, path, ⟨line, line⟩, 0.2⟩

def importSignals (path : String) (cs : List Char) : List Signal :=
  (importSignal Signal.importLoggingKind "logging" path cs).toList ++
    (importSignal Signal.testPytestKind "pytest" path cs).toList

/-- The nearest whole number; a half goes away from zero. -/
def nearest (x : Float) : Nat :=
  match Decimal.Magnitude.of x with
  | .finite _ num den => Decimal.roundDiv .away num den
  | _ => 0

/-- A share with two decimals. -/
def density (part whole : Nat) : Float :=
  Float.ofNat (nearest (Float.ofNat part / Float.ofNat whole * 100.0)) / 100.0

/-- The readable texts of files, with their paths. -/
def readable (files : List FoundFile) : List (String × List Char) :=
  files.filterMap fun f => f.text.toOption.map fun s => (f.path, s.toList)

/-- The signal for all function definitions, at the first file. -/
def densitySignal (files : List FoundFile) (texts : List (String × List Char)) : Option Signal :=
  let count (p : Pattern) : Nat := texts.foldl (fun n t => n + (p.findAll t.2).length) 0
  let defs := count defPattern
  match files with
  | [] => none
  | first :: _ =>
    if defs = 0 then none
    else some ⟨Signal.typingDensityKind, Json.ofFloat (density (count annotatedDefPattern) defs),
      first.path, ⟨1, 1⟩, 0.5⟩

def scanner : Scanner where
  name := "python"
  scan tree root most := do
    let files ← scannedFiles tree root most isSource
    let texts := readable files
    .ok (texts.flatMap (fun t => importSignals t.1 t.2) ++ (densitySignal files texts).toList)

end Python

end StyleContract
