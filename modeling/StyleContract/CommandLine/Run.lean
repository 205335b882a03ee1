import StyleContract.CommandLine.Request
import StyleContract.Report.Guide
import StyleContract.Report.Sarif
import StyleContract.Repository
import StyleContract.Signal.Scanners
import StyleContract.Store
import StyleContract.Synthesis.Choice
import StyleContract.Synthesis.Run
import StyleContract.Terminal.CheckTable
import StyleContract.Verification.Runner

/-!
# Command line — Run

Running a request on a machine. A run may change files and print before it fails; what it has
changed by then stays. The exit code says how it went.
-/

namespace StyleContract.CommandLine

/-- What a run finds around it. -/
structure Machine where
  environment : String → Option String
  programs : String → Option Shell.Program
  versionControl : VersionControl
  /-- What comes of the requests that carry some messages. -/
  exchange : List ChatMessage → Nat → Exchange
  now : Moment
  /-- A name for the run. -/
  runId : String
  /-- How long a scan takes. -/
  seconds : Float
  coloured : Bool

/-- What a run changes. -/
structure Session where
  tree : Entry
  output : String := ""

abbrev Action := ExceptT Error (StateM Session)

/-- How a run went. -/
inductive ExitStatus where
  | success
  /-- A check has found violations. -/
  | violations
  | invalidInput
  | fileError
  | schemaError
  | internalError
  deriving DecidableEq, Repr

namespace ExitStatus

def code : ExitStatus → Nat
  | .success => 0
  | .violations => 1
  | .invalidInput => 3
  | .fileError => 4
  | .schemaError => 5
  | .internalError => 10

def ofError : Error → ExitStatus
  | .invalidInput _ | .repository _ => .invalidInput
  | .file _ => .fileError
  | .parse _ | .schema _ | .invalidContract _ => .schemaError
  | .serialization _ | .duplicateProjection .. | .internal _ => .internalError

def ofReport (report : Verification.CheckReport) : ExitStatus :=
  if report.hasViolations then .violations else .success

end ExitStatus

namespace Action

/-- A result that depends on the files only. -/
def reading {α : Type} (f : Entry → Except Error α) : Action α := do
  match f (← get).tree with
  | .ok a => pure a
  | .error e => throw e

/-- A change of the files. -/
def changing (f : Entry → Change Error) : Action Unit := do
  let c := f (← get).tree
  modify fun s => { s with tree := c.tree }
  match c.failure with
  | none => pure ()
  | some e => throw e

def print (text : String) : Action Unit := modify fun s => { s with output := s.output ++ text }

/-- Prints a note, unless notes are not wanted. -/
def note (o : Options) (text : String) : Action Unit := if o.quiet then pure () else print text

end Action

/-- The schema of a run: from a named file, from the settings, or the bundled one. -/
def schemaOf (s : Settings) (explicit : Option String) (tree : Entry) :
    Except Error ContractSchema :=
  match explicit.or s.schemaPath with
  | some path => ContractSchema.load tree path
  | none => ContractSchema.bundled

def contractPath (s : Settings) (explicit : Option String) : String := explicit.getD s.contractPath

/-- The contract of a run, if its schema accepts it. -/
def loadContract (s : Settings) (explicit : Option String) : Action Contract := do
  let schema ← Action.reading (schemaOf s none)
  Action.reading fun tree => (Store.ofPath (contractPath s explicit)).load tree schema

/-! ### Scan -/

/-- The settings with what a scan request replaces. -/
def scanSettings (s : Settings) (r : ScanRequest) : Except Error Settings :=
  if r.maxFiles = some 0 then .error (.invalidInput "--max-files must be at least 1")
  else .ok { s with
    maxFiles := r.maxFiles.getD s.maxFiles
    contractPath := r.out.getD s.contractPath
    oracle.enabled := s.oracle.enabled && !r.withoutOracle }

/-- The contract of a repository as it is at hand. -/
def synthesize (m : Machine) (s : Settings) (r : ScanRequest) (tree : Entry) :
    Except Error SynthesisOutcome := do
  let schema ← schemaOf s r.schema tree
  let checkout ← Checkout.ofText tree m.versionControl r.target r.revision
  let synthesis : Synthesis := {
    schema := schema
    oracle := s.chosenOracle m.environment m.exchange }
  synthesis.ofBundle tree checkout.root checkout.identity
    (Bundle.ofRepository tree checkout.root (some s.maxFiles)) m.now m.seconds

/-- Synthesizes the contract of a repository and writes it, with a report next to it. -/
def scan (m : Machine) (o : Options) (s : Settings) (r : ScanRequest) : Action ExitStatus := do
  let s ← Action.reading fun _ => scanSettings s r
  let outcome ← Action.reading (synthesize m s r)
  Action.changing fun tree => (Store.ofPath s.contractPath).persist tree outcome.contract
  Action.changing fun tree =>
    tree.writeText s.reportPath (outcome.report m.runId s.contractPath).pretty
  let summary := ScanSummary.ofOutcome outcome s.contractPath s.reportPath
  if !o.quiet || r.format ≠ .table then Action.print (summary.text m.coloured r.format)
  pure .success

/-! ### Other commands -/

/-- Writes the guide for coding agents. -/
def agents (m : Machine) (o : Options) (s : Settings) (contract : Option String) (out : String) :
    Action ExitStatus := do
  let c ← loadContract s contract
  Action.changing fun tree => tree.writeText out (Guide.render c (contractPath s contract))
  let enforced := (c.rules.filter Guide.isEnforced).length
  Action.note o (Terminal.written m.coloured out
    (toString enforced ++ " enforced, " ++ toString (c.rules.length - enforced) ++
      " candidate rule(s)"))
  pure .success

/-- The report of a check, printed. -/
def checkText (m : Machine) (o : Options) (c : Contract) (report : Verification.CheckReport) :
    CheckFormat → String
  | .table => if o.quiet then "" else Terminal.checkTable m.coloured report
  | .json => report.toJson.pretty ++ "\n"
  | .sarif => Sarif.text c report ++ "\n"

/-- Runs the verifiers of a contract. -/
def check (m : Machine) (o : Options) (s : Settings) (r : CheckRequest) : Action ExitStatus := do
  let c ← loadContract s r.contract
  let tree := (← get).tree
  if !tree.isFolder r.root then
    throw (.invalidInput ("'" ++ r.root ++ "' is not a directory"))
  let report := Id.run (Verification.check c r.failOn fun command =>
    pure (Verification.runIn tree m.programs r.root command))
  match r.sarifOut with
  | some path => Action.changing fun tree => tree.writeText path (Sarif.text c report)
  | none => pure ()
  Action.print (checkText m o c report r.format)
  pure (.ofReport report)

/-- Brings configuration in line with a contract, or says how. -/
def suggest (m : Machine) (o : Options) (s : Settings) (contract : Option String) (root : String)
    (apply : Bool) : Action ExitStatus := do
  let c ← loadContract s contract
  let suggestions ← Action.reading fun tree => Suggestion.ofContract c tree root
  if apply then Action.changing fun tree => Suggestion.apply tree root suggestions
  Action.note o (Terminal.changes m.coloured suggestions apply)
  pure .success

/-- Where the workflow that checks a contract is kept. -/
def workflowPath : String := ".github/workflows/repostyle.yml"

/-- A workflow that checks a contract. -/
def workflow : String := String.join (List.map (· ++ "\n")
  ["name: repostyle",
    "on:",
    "  pull_request:",
    "  push:",
    "    branches: [main]",
    "",
    "jobs:",
    "  conventions:",
    "    runs-on: ubuntu-latest",
    "    steps:",
    "      - uses: actions/checkout@v4",
    "      - uses: dtolnay/rust-toolchain@stable",
    "      - name: Install repostyle",
    "        run: cargo install repostyle-cli --locked",
    "      - name: Check contract",
    "        run: repostyle check --format sarif --sarif-out results.sarif --fail-on error",
    "      - name: Upload SARIF",
    "        if: always()",
    "        uses: github/codeql-action/upload-sarif@v3",
    "        with:",
    "          sarif_file: results.sarif"])

/-- Writes or prints the workflow. -/
def initialiseWorkflow (m : Machine) (o : Options) (apply : Bool) : Action ExitStatus := do
  if apply then
    Action.changing fun tree => tree.writeText workflowPath workflow
    Action.note o (Terminal.written m.coloured workflowPath "GitHub Actions workflow")
  else Action.print workflow
  pure .success

/-! ### Requests -/

/-- Runs a request under the settings of the machine. -/
def runRequest (m : Machine) (o : Options) (request : Request) : Action ExitStatus := do
  let s ← Action.reading fun tree => Settings.load tree o.settings m.environment
  match request with
  | .scan r => scan m o s r
  | .agents contract out => agents m o s contract out
  | .check r => check m o s r
  | .suggest contract root apply => suggest m o s contract root apply
  | .initialiseWorkflow apply => initialiseWorkflow m o apply

/-- What a run leaves behind. -/
structure Outcome where
  tree : Entry
  exit : ExitStatus
  output : String
  errors : String

/-- Runs a request on a tree. -/
def Outcome.ofRequest (m : Machine) (tree : Entry) (o : Options) (request : Request) : Outcome :=
  match (runRequest m o request).run { tree := tree } with
  | (.ok exit, session) => ⟨session.tree, exit, session.output, ""⟩
  | (.error e, session) =>
    ⟨session.tree, .ofError e, session.output, "Error: " ++ e.message ++ "\n"⟩

/-- The exit code of a program that has not understood its arguments. -/
def usageCode : Nat := 2

/-- The exit code for a command line that is not run. -/
def Refusal.code : Refusal → Nat
  | .help | .version => 0
  | _ => usageCode

end StyleContract.CommandLine
