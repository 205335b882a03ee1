import StyleContract.Error
import StyleContract.Keyed
import StyleContract.Signal.Scanners

/-!
# Synthesis — Projection

Rules that follow from signals alone. A table says for each kind of signal which rule it gives,
if its value meets a condition; each kind and each rule id occurs once in a table. A table is read
row by row into two maps, which tell a row that repeats one.
-/

namespace StyleContract

/-- One row of a projection table. -/
structure Projection where
  kind : String
  ruleId : String
  /-- The rule for a signal of the kind, unless its value is not met. -/
  rule? : Signal → Option Rule

namespace Projection

/-- The version of the built-in table. -/
def tableVersion : Nat := 1

def typeScriptScope : List String := ["**/*.ts", "**/*.tsx"]

/-- A repair by a command. -/
def commandFix (command : String) : Autofix := ⟨"command", command⟩

def isTrue (s : Signal) : Bool := s.value.bool? == some true

/-- A number of the signal that is not negative and not zero. -/
def positive? (s : Signal) : Option Nat := s.value.nat?.filter (0 < ·)

def black (s : Signal) : Option Rule :=
  (positive? s).map fun n => {
    id := "PY-FMT-001"
    title := "Black formatting at line length " ++ toString n
    statement := "Python code MUST be formatted with Black using a line length of " ++
      toString n ++ "."
    rationale := some ("Declared in " ++ s.path ++ ".")
    scope := ["**/*.py"]
    languages := ["python"]
    severity := .error
    confidence := 0.95
    evidence := [s.evidence]
    autofix := some (commandFix ("black --line-length " ++ toString n ++ " .")) }

def strict (s : Signal) : Option Rule :=
  if isTrue s then some {
    id := "TS-TYPE-003"
    title := "TypeScript strict mode"
    statement := "TypeScript code MUST compile with the \x60strict\x60 compiler option enabled."
    rationale := some "tsconfig.json enables strict mode."
    scope := typeScriptScope
    languages := ["typescript"]
    severity := .error
    confidence := 0.85
    evidence := [s.evidence] }
  else none

def exportedAny (s : Signal) : Option Rule :=
  (positive? s).map fun _ => {
    id := "TS-TYPE-004"
    title := "No \x60any\x60 in exported declarations"
    statement := "Exported TypeScript declarations SHOULD NOT use the \x60any\x60 type."
    scope := typeScriptScope
    languages := ["typescript"]
    severity := .warn
    confidence := 0.70
    evidence := [s.evidence]
    relatedRules := ["TS-TYPE-003"] }

def prettier (s : Signal) : Option Rule :=
  if isTrue s then some {
    id := "TS-FMT-001"
    title := "Prettier formatting"
    statement := "TypeScript and JavaScript code MUST be formatted with Prettier."
    rationale := some ("Prettier is configured in " ++ s.path ++ ".")
    scope := ["**/*.ts", "**/*.tsx", "**/*.js", "**/*.jsx"]
    languages := ["typescript", "javascript"]
    severity := .error
    confidence := 0.90
    evidence := [s.evidence]
    autofix := some (commandFix "prettier --write .") }
  else none

/-- The share of annotated functions from which on annotations count as a convention. -/
def typingThreshold : Float := 0.5

def typing (s : Signal) : Option Rule :=
  if s.value.float?.any (typingThreshold ≤ ·) then some {
    id := "PY-TYPE-001"
    title := "Annotate function return types"
    statement := "Python functions SHOULD declare return type annotations."
    scope := ["**/*.py"]
    languages := ["python"]
    severity := .warn
    confidence := 0.60
    evidence := [s.evidence] }
  else none

def pytest (s : Signal) : Option Rule :=
  if isTrue s then some {
    id := "PY-TEST-001"
    title := "pytest test suite"
    statement := "Python tests SHOULD be written as pytest test functions."
    scope := ["tests/**/*.py", "**/test_*.py"]
    languages := ["python"]
    severity := .info
    confidence := 0.70
    evidence := [s.evidence] }
  else none

/-- The built-in table. -/
def table : List Projection :=
  [⟨Signal.blackLineLengthKind, "PY-FMT-001", black⟩,
    ⟨Signal.tsconfigStrictKind, "TS-TYPE-003", strict⟩,
    ⟨Signal.exportAnyKind, "TS-TYPE-004", exportedAny⟩,
    ⟨Signal.prettierPresentKind, "TS-FMT-001", prettier⟩,
    ⟨Signal.typingDensityKind, "PY-TYPE-001", typing⟩,
    ⟨Signal.testPytestKind, "PY-TEST-001", pytest⟩]

/-- A table as far as it was read: the kind that each rule id belongs to, and the row of each
kind. -/
structure Index where
  owners : Keyed String := .empty
  byKind : Keyed Projection := .empty

/-- Enters a row. Its rule id must not belong to another kind, and its kind must be new. -/
def Index.enter (x : Index) (row : Projection) : Except Error Index :=
  match (x.owners.get? row.ruleId).filter (· ≠ row.kind) with
  | some first => .error (.duplicateProjection row.ruleId first row.kind)
  | none =>
    if (x.byKind.get? row.kind).isSome then
      .error (.internal ("projection table lists kind '" ++ row.kind ++ "' twice"))
    else .ok ⟨x.owners.insert row.ruleId row.kind, x.byKind.insert row.kind row⟩

/-- The index of a table, or the fault of the first row that has one. -/
def index (rows : List Projection) : Except Error Index := rows.foldlM Index.enter {}

theorem isOk_index_table : (index table).isOk = true := by decide

end Projection

/-- A table without faults. -/
structure Projector where
  rows : List Projection
  index : Projection.Index
  indexed : Projection.index rows = .ok index

namespace Projector

def ofTable (rows : List Projection) : Except Error Projector :=
  match h : Projection.index rows with
  | .error e => .error e
  | .ok x => .ok ⟨rows, x, h⟩

/-- The projector of the built-in table. -/
def standard : Projector :=
  match h : Projection.index Projection.table with
  | .ok x => ⟨Projection.table, x, h⟩
  | .error _ => absurd Projection.isOk_index_table (by rw [h]; exact Bool.false_ne_true)

/-- The rule of a signal, if its kind is in the table and its value is met. -/
def ruleOf? (p : Projector) (s : Signal) : Option Rule :=
  (p.index.byKind.get? s.kind).bind (·.rule? s)

/-- The rules of signals, in the order of the signals. -/
def project (p : Projector) (signals : List Signal) : List Rule := signals.filterMap p.ruleOf?

/-- The ids of the rules that can come out, in ascending order. -/
def ruleIds (p : Projector) : List String :=
  (p.index.byKind.entries.map (·.2.ruleId)).mergeSort fun a b => decide (a ≤ b)

theorem project_append (p : Projector) (as bs : List Signal) :
    p.project (as ++ bs) = p.project as ++ p.project bs := by
  simp [project]

end Projector

end StyleContract
