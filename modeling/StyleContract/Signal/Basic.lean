import StyleContract.Contract.Document
import StyleContract.Files.Walk

/-!
# Signal — Basic

Signals: what scanners observe in a repository, each with the place where it was seen. Scanners
run side by side; one that fails is set aside and contributes nothing.
-/

namespace StyleContract

open Document

/-- An observation about a repository. -/
structure Signal where
  /-- A dotted key, such as `config.black.lineLength`. -/
  kind : String
  value : Json
  path : String
  lines : Lines
  weight : Float
  deriving DecidableEq, Repr

namespace Signal

/-- The place of the signal as evidence. -/
def evidence (s : Signal) : Evidence := Evidence.at s.path s.lines

def sourceJson (s : Signal) : Json := .obj [("path", .str s.path), ("lines", s.lines.toJson)]

def toJson (s : Signal) : Json :=
  .obj [("kind", .str s.kind), ("value", s.value), ("source", s.sourceJson),
    ("weight", Json.ofFloat s.weight)]

def readSource {V : Type} (r : Reading V) (v : V) : Fit (String × Lines) := do
  let entries ← r.record "SignalSource"
    [.needed "path" r.text, .needed "lines" (Lines.read r)] v
  .ok (← required entries "path" r.text, ← required entries "lines" (Lines.read r))

def read {V : Type} (r : Reading V) (v : V) : Fit Signal := do
  let entries ← r.record "Signal"
    [.needed "kind" r.text, .needed "value" r.value, .needed "source" (readSource r),
      .needed "weight" r.float] v
  let (path, lines) ← required entries "source" (readSource r)
  .ok {
    kind := ← required entries "kind" r.text
    value := ← required entries "value" r.value
    path := path
    lines := lines
    weight := ← required entries "weight" r.float }

end Signal

/-- Why a scanner fails. -/
inductive ScanError where
  | unreadable (path : String) (e : OsError)
  | walk (root text : String)
  | aborted (scanner : String)
  deriving DecidableEq, Repr

def ScanError.message : ScanError → String
  | .unreadable path e => "Failed to read '" ++ path ++ "': " ++ e.message
  | .walk root text => "Failed to walk '" ++ root ++ "': " ++ text
  | .aborted scanner => "Scanner '" ++ scanner ++ "' panicked or was cancelled"

/-- One source of signals. -/
structure Scanner where
  name : String
  /-- The signals of the tree below a root, of so many files at most. -/
  scan : (tree : Entry) → (root : String) → (most : Option Nat) → Except ScanError (List Signal)

/-- The number of files that a scanner looks at unless told otherwise. -/
def defaultMaxFiles : Nat := 200

/-- The files below a root that a scanner looks at. -/
def scannedFiles (tree : Entry) (root : String) (most : Option Nat) (accept : String → Bool) :
    Except ScanError (List FoundFile) :=
  match collectFiles tree root (most.getD defaultMaxFiles) accept with
  | .ok files => .ok files
  | .error e => .error (.walk root (walkFault root e))

/-- The text of a file that was found. -/
def FoundFile.text (f : FoundFile) : Except ScanError String :=
  match f.entry.textOf with
  | .ok s => .ok s
  | .error e => .error (.unreadable f.path e)

/-- The signals of one repository. -/
structure Bundle where
  signals : List Signal := []
  /-- The number of signals by scanner. -/
  perScanner : Keyed Nat := Keyed.empty
  /-- Scanners that failed. -/
  failed : List String := []

namespace Bundle

/-- Adds what one scanner brought. -/
def add (b : Bundle) (name : String) : Except ScanError (List Signal) → Bundle
  | .ok signals =>
    { b with
      signals := b.signals ++ signals
      perScanner := b.perScanner.insert name signals.length }
  | .error _ =>
    { b with perScanner := b.perScanner.insert name 0, failed := b.failed ++ [name] }

/-- What all scanners bring. -/
def ofScanners (scanners : List Scanner) (tree : Entry) (root : String) (most : Option Nat) :
    Bundle :=
  scanners.foldl (fun b s => b.add s.name (s.scan tree root most)) {}

/-- The files that signals were seen in, each once and in ascending order. -/
def paths (b : Bundle) : List String :=
  sortedDistinct ((b.signals.map (·.path)).filter (· != ""))

theorem ofScanners_append (as bs : List Scanner) (tree : Entry) (root : String)
    (most : Option Nat) :
    ofScanners (as ++ bs) tree root most =
      bs.foldl (fun b s => b.add s.name (s.scan tree root most))
        (ofScanners as tree root most) := by
  simp [ofScanners, List.foldl_append]

end Bundle

end StyleContract
