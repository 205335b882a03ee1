import StyleContract.Decimal.Layout
import StyleContract.Report.ScanReport
import StyleContract.Terminal.Ink
import StyleContract.Yaml.Printer

/-!
# Terminal — Scan summary

What a scan tells at its end: the rules of the contract, and what was dropped or has failed; as a
table for people, or as JSON or YAML.
-/

namespace StyleContract

/-- How a summary is printed. -/
inductive SummaryFormat where
  | table
  | json
  | yaml
  deriving DecidableEq, Repr

structure ScanSummary where
  repo : String
  sha : String
  contractPath : String
  reportPath : String
  rules : List Rule
  metrics : Metrics
  dropped : List DroppedRule
  failures : List FileFailure
  failedScanners : List String
  oracleUsed : Bool

namespace ScanSummary

open Terminal

def ofOutcome (o : SynthesisOutcome) (contractPath reportPath : String) : ScanSummary where
  repo := o.contract.repo.remote.getD "local"
  sha := o.contract.repo.sha
  contractPath := contractPath
  reportPath := reportPath
  rules := o.contract.rules
  metrics := o.contract.metrics.getD Keyed.empty
  dropped := o.dropped
  failures := o.oracleFailures
  failedScanners := o.bundle.failed
  oracleUsed := o.extraction.isSome

/-- What is told of a rule. -/
def ruleJson (r : Rule) : Json :=
  .obj [("id", .str r.id), ("severity", r.severity.toJson),
    ("confidence", Json.ofFloat r.confidence), ("statement", .str r.statement)]

def toJson (s : ScanSummary) : Json :=
  .obj [("repo", .str s.repo), ("sha", .str s.sha), ("contractPath", .str s.contractPath),
    ("reportPath", .str s.reportPath), ("rules", .arr (s.rules.map ruleJson)),
    ("metrics", s.metrics.toJson),
    ("droppedDuplicates", .arr (s.dropped.map DroppedRule.toJson)),
    ("oracleFailures", .arr (s.failures.map FileFailure.toJson)),
    ("failedScanners", Json.ofStrings s.failedScanners), ("oracleUsed", .bool s.oracleUsed)]

/-! ### The table -/

/-- Where things are. -/
def places (coloured : Bool) (s : ScanSummary) : String :=
  "Repo:     " ++ s.repo ++ " @ " ++ Ink.dim.paint coloured s.sha ++ "\n" ++
    "Contract: " ++ s.contractPath ++ "\n" ++
    "Report:   " ++ s.reportPath ++ "\n" ++
    (if s.oracleUsed then ""
      else "Oracle:   " ++ Ink.yellow.paint coloured "not used (deterministic rules only)" ++ "\n")

def ruleRow (coloured : Bool) (r : Rule) : String :=
  "  " ++ severityLabel coloured r.severity ++ " " ++
    Ink.bold.paint coloured (padded idWidth r.id) ++ " " ++ Decimal.fixed 2 r.confidence ++
    "  " ++ r.statement ++ "\n"

def ruleTable (coloured : Bool) (rules : List Rule) : String :=
  if rules.isEmpty then Ink.yellow.paint coloured "!" ++ " No conventions detected\n"
  else heading coloured "Rules:" ++ underline '-' ++ String.join (rules.map (ruleRow coloured))

def droppedRow (coloured : Bool) (d : DroppedRule) : String :=
  "  " ++ Ink.yellow.paint coloured "!" ++ " duplicate " ++ d.id ++ " dropped (" ++
    d.path.getD "n/a" ++ ")\n"

def failureRow (coloured : Bool) (f : FileFailure) : String :=
  "  " ++ Ink.red.paint coloured "x" ++ " " ++ f.path ++ ": " ++
    Ink.dim.paint coloured f.reason ++ "\n"

def scannerRow (coloured : Bool) (name : String) : String :=
  "  " ++ Ink.red.paint coloured "x" ++ " scanner '" ++ name ++ "' failed\n"

/-- What did not go as it should. -/
def notes (coloured : Bool) (s : ScanSummary) : String :=
  (if s.dropped.isEmpty && s.failures.isEmpty then ""
    else "\n" ++ heading coloured "Notes:" ++ String.join (s.dropped.map (droppedRow coloured)) ++
      String.join (s.failures.map (failureRow coloured))) ++
    String.join (s.failedScanners.map (scannerRow coloured))

def table (coloured : Bool) (s : ScanSummary) : String :=
  "\n" ++ heading coloured "Scan Results" ++ underline '=' ++ places coloured s ++ "\n" ++
    ruleTable coloured s.rules ++ notes coloured s

/-- The summary in a format. -/
def text (coloured : Bool) (s : ScanSummary) : SummaryFormat → String
  | .table => s.table coloured
  | .json => s.toJson.pretty ++ "\n"
  | .yaml => Yaml.print s.toJson

end ScanSummary

end StyleContract
