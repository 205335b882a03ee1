import StyleContract.CommandLine.Grammar
import StyleContract.Contract.Severity
import StyleContract.Power
import StyleContract.Terminal.ScanSummary
import StyleContract.Text.Digits

/-!
# Command line — Request

The commands and their options, and what a command line asks for.
-/

namespace StyleContract.CommandLine

/-- How a check is printed. -/
inductive CheckFormat where
  | table
  | json
  | sarif
  deriving DecidableEq, Repr

structure ScanRequest where
  target : String
  revision : Option String
  maxFiles : Option Nat
  withoutOracle : Bool
  schema : Option String
  out : Option String
  format : SummaryFormat
  deriving DecidableEq, Repr

structure CheckRequest where
  contract : Option String
  root : String
  format : CheckFormat
  sarifOut : Option String
  failOn : FailOn
  deriving DecidableEq, Repr

inductive Request where
  | scan (r : ScanRequest)
  | agents (contract : Option String) (out : String)
  | check (r : CheckRequest)
  | suggest (contract : Option String) (root : String) (apply : Bool)
  | initialiseWorkflow (apply : Bool)
  deriving DecidableEq, Repr

/-- What holds for every command. -/
structure Options where
  quiet : Bool := false
  settings : Option String := none
  deriving DecidableEq, Repr

/-! ### Values -/

def anyText : Use := .value fun _ => none

/-- A path is not empty. -/
def path : Use := .value fun s => if s.isEmpty then some .invalidValue else none

def oneOf (words : List String) : Use :=
  .value fun s => if s ∈ words then none else some .invalidValue

def readable {α : Type} (read : String → Option α) : Use :=
  .value fun s => if (read s).isSome then none else some .unreadableValue

/-- A number that fits a machine word. -/
def word? (s : String) : Option Nat :=
  (Text.signedNatural? s.toList).filter (· < twoTo 64)

def summaryFormat? (s : String) : Option SummaryFormat :=
  if s = "table" then some .table
  else if s = "json" then some .json
  else if s = "yaml" then some .yaml
  else none

def checkFormat? (s : String) : Option CheckFormat :=
  if s = "table" then some .table
  else if s = "json" then some .json
  else if s = "sarif" then some .sarif
  else none

/-! ### The grammar -/

/-- The options of every command. -/
def sharedSwitches : List Switch :=
  [{ name := "verbose", letter := some 'v', use := .counter },
    { name := "quiet", letter := some 'q' },
    { name := "log-json" },
    { name := "config", use := path },
    { name := "help", letter := some 'h', use := .ask .help }]

/-- The grammar of a command with some options of its own. -/
def options (switches : List Switch) : Grammar := { switches := switches ++ sharedSwitches }

def scanGrammar : Grammar :=
  { options
    [{ name := "rev", use := anyText },
      { name := "max-files", use := readable word? },
      { name := "no-llm" },
      { name := "schema", use := path },
      { name := "out", letter := some 'o', use := path },
      { name := "format", use := oneOf ["table", "json", "yaml"] }] with
    operand := some "target" }

def agentsGrammar : Grammar :=
  options
    [{ name := "contract", use := path }, { name := "out", letter := some 'o', use := path }]

def checkGrammar : Grammar :=
  options
    [{ name := "contract", use := path },
      { name := "root", use := path },
      { name := "format", use := oneOf ["table", "json", "sarif"] },
      { name := "sarif-out", use := path },
      { name := "fail-on", use := readable FailOn.ofWord? }]

def suggestGrammar : Grammar :=
  options
    [{ name := "contract", use := path }, { name := "root", use := path }, { name := "apply" },
      { name := "dry-run" }]

def workflowGrammar : Grammar :=
  { options [] with commands := [("init", options [{ name := "apply" }])] }

def grammar : Grammar :=
  { options [{ name := "version", letter := some 'V', use := .ask .version }] with
    commands := [("scan", scanGrammar), ("agents", agentsGrammar), ("check", checkGrammar),
      ("suggest", suggestGrammar), ("ci", workflowGrammar)] }

/-! ### From what is said to a request -/

/-- What the options of every command say; a command's own ones come after those before it. -/
def Options.add (o : Options) (s : Said) : Options where
  quiet := o.quiet || s.has "quiet"
  settings := (s.value? "config").or o.settings

def scanRequest (s : Said) : ScanRequest where
  target := (s.value? "target").getD "."
  revision := s.value? "rev"
  maxFiles := (s.value? "max-files").bind word?
  withoutOracle := s.has "no-llm"
  schema := s.value? "schema"
  out := s.value? "out"
  format := ((s.value? "format").bind summaryFormat?).getD .table

def checkRequest (s : Said) : CheckRequest where
  contract := s.value? "contract"
  root := (s.value? "root").getD "."
  format := ((s.value? "format").bind checkFormat?).getD .table
  sarifOut := s.value? "sarif-out"
  failOn := ((s.value? "fail-on").bind FailOn.ofWord?).getD .error

/-- The request that a command makes with what follows it. -/
def requestOf (o : Options) (command : String) (s : Said) : Except Refusal (Options × Request) :=
  let o := o.add s
  match command with
  | "scan" => .ok (o, .scan (scanRequest s))
  | "agents" => .ok (o, .agents (s.value? "contract") ((s.value? "out").getD "AGENTS.md"))
  | "check" => .ok (o, .check (checkRequest s))
  | "suggest" =>
    .ok (o, .suggest (s.value? "contract") ((s.value? "root").getD ".")
      (s.has "apply" && !s.has "dry-run"))
  | "ci" =>
    match s.command with
    | some (_, inner) => .ok (o.add inner, .initialiseWorkflow (inner.has "apply"))
    | none => .error .missingCommand
  | _ => .error .unknownCommand

/-- What a command line asks for. -/
def Request.ofArguments (args : List String) : Except Refusal (Options × Request) := do
  let said ← grammar.read args
  match said.command with
  | some (command, inner) => requestOf (({} : Options).add said) command inner
  | none => .error .missingCommand

/-- How much is logged, by how often more is asked for. -/
def logLevel (verbosity : Nat) (quiet : Bool) : String :=
  if quiet then "error"
  else if verbosity = 0 then "warn"
  else if verbosity = 1 then "info"
  else if verbosity = 2 then "debug"
  else "trace"

end StyleContract.CommandLine
