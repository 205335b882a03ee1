import StyleContract.Contract.Document
import StyleContract.Verification.Commands

/-!
# Verification — Check

Checking a repository against a contract: every command that verifies some rule is run once, and
the exit codes decide on the rules. A rule fails only if all of its commands could run; a rule
without commands is skipped.
-/

namespace StyleContract

open Document

namespace Verification

/-- What a check says about one rule. -/
inductive Status where
  | pass
  | fail
  | skipped
  /-- A command could not run. -/
  | error
  deriving DecidableEq, Repr

def Status.all : List Status := [.pass, .fail, .skipped, .error]

def Status.name : Status → String
  | .pass => "pass"
  | .fail => "fail"
  | .skipped => "skipped"
  | .error => "error"

def Status.toJson (s : Status) : Json := .str s.name

def Status.read {V : Type} (r : Reading V) (v : V) : Fit Status := do
  let name ← r.word (Status.all.map Status.name) v
  match Status.all.find? (·.name == name) with
  | some s => .ok s
  | none => .error (.variant name (Status.all.map Status.name))

/-- What came of running a command. -/
structure CommandResult where
  command : String
  /-- Absent if the command could not be started or did not end by itself. -/
  exitCode : Option Int
  milliseconds : Nat
  /-- The end of what the command printed. -/
  output : String
  errors : String
  deriving DecidableEq, Repr

namespace CommandResult

/-- The exit code of a shell that has not found a command. -/
def notFoundCode : Int := 127

def succeeded (r : CommandResult) : Bool := r.exitCode == some 0

/-- Whether the command could not run at all. -/
def isError (r : CommandResult) : Bool := r.exitCode.isNone || r.exitCode == some notFoundCode

def toJson (r : CommandResult) : Json :=
  .obj [("command", .str r.command),
    ("exitCode", match r.exitCode with
      | some n => Json.ofInt n
      | none => .null),
    ("durationMs", Json.ofNat r.milliseconds), ("stdoutTail", .str r.output),
    ("stderrTail", .str r.errors)]

def read {V : Type} (r : Reading V) (v : V) : Fit CommandResult := do
  let entries ← r.record "CommandResult"
    [.needed "command" r.text, .nullable "exitCode" (r.option r.integer32),
      .needed "durationMs" r.natural64, .needed "stdoutTail" r.text,
      .needed "stderrTail" r.text] v
  .ok {
    command := ← required entries "command" r.text
    exitCode := ← defaulted entries "exitCode" none (r.option r.integer32)
    milliseconds := ← required entries "durationMs" r.natural64
    output := ← required entries "stdoutTail" r.text
    errors := ← required entries "stderrTail" r.text }

end CommandResult

/-- What a check says about one rule, and why. -/
structure RuleCheck where
  id : String
  title : String
  severity : Severity
  status : Status
  commands : List String
  message : Option String := none
  deriving DecidableEq, Repr

namespace RuleCheck

def toJson (c : RuleCheck) : Json :=
  .obj ([("id", .str c.id), ("title", .str c.title), ("severity", c.severity.toJson),
    ("status", c.status.toJson), ("commands", Json.ofStrings c.commands)] ++
    optionalMember "message" .str c.message)

def read {V : Type} (r : Reading V) (v : V) : Fit RuleCheck := do
  let entries ← r.record "RuleCheck"
    [.needed "id" r.text, .needed "title" r.text, .needed "severity" (Severity.read r),
      .needed "status" (Status.read r), .needed "commands" r.texts,
      .free "message" (r.option r.text)] v
  .ok {
    id := ← required entries "id" r.text
    title := ← required entries "title" r.text
    severity := ← required entries "severity" (Severity.read r)
    status := ← required entries "status" (Status.read r)
    commands := ← required entries "commands" r.texts
    message := ← defaulted entries "message" none (r.option r.text) }

end RuleCheck

/-- The outcome of a check. -/
structure CheckReport where
  rules : List RuleCheck
  commands : List CommandResult
  failOn : FailOn
  hasViolations : Bool
  deriving DecidableEq, Repr

namespace CheckReport

def toJson (c : CheckReport) : Json :=
  .obj [("rules", .arr (c.rules.map RuleCheck.toJson)),
    ("commands", .arr (c.commands.map CommandResult.toJson)), ("failOn", c.failOn.toJson),
    ("hasViolations", .bool c.hasViolations)]

def read {V : Type} (r : Reading V) (v : V) : Fit CheckReport := do
  let entries ← r.record "CheckReport"
    [.needed "rules" (r.list (RuleCheck.read r)),
      .needed "commands" (r.list (CommandResult.read r)), .needed "failOn" (FailOn.read r),
      .needed "hasViolations" r.bool] v
  .ok {
    rules := ← required entries "rules" (r.list (RuleCheck.read r))
    commands := ← required entries "commands" (r.list (CommandResult.read r))
    failOn := ← required entries "failOn" (FailOn.read r)
    hasViolations := ← required entries "hasViolations" r.bool }

/-- The number of rules with a status. -/
def count (c : CheckReport) (s : Status) : Nat := (c.rules.filter (·.status = s)).length

end CheckReport

/-- Why a rule is skipped. -/
def noVerifier : String := "no local verifier"

/-- The status of a rule with some commands, by what came of them, and the reason for it. -/
def verdict (commands : List String) (outcomes : List CommandResult) : Status × Option String :=
  if commands.isEmpty then (.skipped, some noVerifier)
  else match outcomes.find? (·.isError) with
    | some r => (.error, some ("could not run " ++ Text.ticked r.command))
    | none =>
      match outcomes.find? fun r => !r.succeeded with
      | some r => (.fail, some (Text.ticked r.command ++ " failed"))
      | none => (.pass, none)

/-- What came of some commands; of two results for one command, the later one counts. -/
def outcomesOf (results : List CommandResult) (commands : List String) : List CommandResult :=
  commands.filterMap fun c => results.reverse.find? (·.command == c)

def ruleCheck (results : List CommandResult) (r : Rule) : RuleCheck :=
  let commands := commandsOf r
  let (status, message) := verdict commands (outcomesOf results commands)
  ⟨r.id, r.title, r.severity, status, commands, message⟩

/-- Whether some failing rule counts. -/
def violates (failOn : FailOn) (rules : List RuleCheck) : Bool :=
  rules.any fun r => r.status = .fail && failOn.counts r.severity

/-- The report on a contract, given what came of its commands. -/
def report (c : Contract) (failOn : FailOn) (results : List CommandResult) : CheckReport :=
  let rules := c.rules.map (ruleCheck results)
  ⟨rules, results, failOn, violates failOn rules⟩

/-- Checks a contract with a way to run commands, which may do more than to give a result. -/
def check {m : Type → Type} [Monad m] (c : Contract) (failOn : FailOn)
    (run : String → m CommandResult) : m CheckReport := do
  let results ← (canonical c.rules).mapM run
  pure (report c failOn results)

/-- The number of characters of its output that are kept of a command. -/
def tailLength : Nat := 2000

end Verification

end StyleContract
