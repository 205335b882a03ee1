import StyleContract.Json.Printer
import StyleContract.Verification.Check

/-!
# Report — SARIF

The outcome of a check in the format of static analysis tools. Every rule of the contract is
described; failing rules are results at the level of their severity, and rules that could not be
verified are notes.
-/

namespace StyleContract.Sarif

open Verification

def formatVersion : String := "2.1.0"

def formatSchema : String := "https://json.schemastore.org/sarif-2.1.0.json"

/-- The version of the program that writes the log. -/
def toolVersion : String := "0.1.0"

/-- The level of a severity. -/
def level : Severity → String
  | .error => "error"
  | .warn => "warning"
  | .info => "note"

/-- A result of a check. -/
structure Result where
  ruleId : String
  level : String
  text : String
  evidence : List Evidence
  deriving DecidableEq, Repr

/-- The result of one rule's check, unless there is nothing to tell. -/
def resultOf? (check : RuleCheck) (rule : Option Rule) : Option Result :=
  let evidence := (rule.map (·.evidence)).getD []
  match check.status with
  | .fail =>
    some ⟨check.id, level check.severity,
      (rule.map (·.statement)).getD check.title ++ ": " ++
        check.message.getD "verification failed", evidence⟩
  | .error =>
    some ⟨check.id, "note", "Rule could not be verified: " ++
      check.message.getD "verifier unavailable", evidence⟩
  | .pass | .skipped => none

/-- The last rule with an id. -/
def lastRule? (c : Contract) (id : String) : Option Rule := c.rules.reverse.find? (·.id == id)

/-- The results of a report, in its order. -/
def results (c : Contract) (report : CheckReport) : List Result :=
  report.rules.filterMap fun check => resultOf? check (lastRule? c check.id)

def message (text : String) : Json := .obj [("text", .str text)]

def location (e : Evidence) : Json :=
  .obj [("physicalLocation", .obj [("artifactLocation", .obj [("uri", .str e.path)]),
    ("region", .obj [("startLine", Json.ofNat e.lines.first.toNat),
      ("endLine", Json.ofNat e.lines.last.toNat)])])]

def Result.toJson (r : Result) : Json :=
  .obj [("ruleId", .str r.ruleId), ("level", .str r.level), ("message", message r.text),
    ("locations", .arr (r.evidence.map location))]

def descriptor (r : Rule) : Json :=
  .obj [("id", .str r.id), ("name", .str r.title), ("shortDescription", message r.statement),
    ("defaultConfiguration", .obj [("level", .str (level r.severity))]),
    ("properties", .obj [("confidence", Json.ofFloat r.confidence),
      ("scope", Json.ofStrings r.scope)])]

def log (c : Contract) (report : CheckReport) : Json :=
  .obj [("$schema", .str formatSchema), ("version", .str formatVersion),
    ("runs", .arr [.obj [
      ("tool", .obj [("driver", .obj [("name", .str "repostyle"), ("version", .str toolVersion),
        ("rules", .arr (c.rules.map descriptor))])]),
      ("results", .arr ((results c report).map Result.toJson))]])]

/-- The log as text. -/
def text (c : Contract) (report : CheckReport) : String := (log c report).pretty

end StyleContract.Sarif
