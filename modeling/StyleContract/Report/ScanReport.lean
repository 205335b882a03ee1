import StyleContract.Accounts.Exposition
import StyleContract.Contract.Document
import StyleContract.Json.Printer
import StyleContract.Synthesis.Run

/-!
# Report — Scan report

The record of a run, written next to the contract: what was found, what was dropped and what
failed.
-/

namespace StyleContract

/-- How many rules a contract has, by severity. -/
structure ContractSummary where
  ruleCount : Nat
  bySeverity : List (Severity × Nat)
  deriving DecidableEq, Repr

namespace ContractSummary

def ofContract (c : Contract) : ContractSummary where
  ruleCount := c.rules.length
  bySeverity := Severity.all.map fun s => (s, (c.rules.filter (·.severity = s)).length)

def toJson (s : ContractSummary) : Json :=
  .obj [("ruleCount", Json.ofNat s.ruleCount),
    ("bySeverity", .obj (s.bySeverity.map fun e => (e.1.name, Json.ofNat e.2)))]

end ContractSummary

def DroppedRule.toJson (d : DroppedRule) : Json :=
  .obj [("id", .str d.id), ("statement", .str d.statement),
    ("path", match d.path with
      | some p => .str p
      | none => .null)]

def FileFailure.toJson (f : FileFailure) : Json :=
  .obj [("path", .str f.path), ("reason", .str f.reason)]

/-- The failures of a run's questions. -/
def SynthesisOutcome.oracleFailures (o : SynthesisOutcome) : List FileFailure :=
  (o.extraction.map (·.failures)).getD []

/-- The record of a run that is known by `runId`. -/
def SynthesisOutcome.report (o : SynthesisOutcome) (runId contractPath : String) : Json :=
  .obj [("runId", .str runId), ("repo", o.contract.repo.toJson),
    ("generatedAt", .str o.contract.generatedAt.toText), ("contractPath", .str contractPath),
    ("contractSummary", (ContractSummary.ofContract o.contract).toJson),
    ("metrics", (o.contract.metrics.getD Keyed.empty).toJson),
    ("droppedDuplicates", .arr (o.dropped.map DroppedRule.toJson)),
    ("oracleFailures", .arr (o.oracleFailures.map FileFailure.toJson)),
    ("failedScanners", Json.ofStrings o.bundle.failed),
    ("prometheus", .str o.accounts.exposition)]

end StyleContract
