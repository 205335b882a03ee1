import StyleContract.Decimal.Layout
import StyleContract.Terminal.Ink
import StyleContract.Verification.Check
import StyleContract.Verification.Suggestion

/-!
# Terminal — Check table

What a check has found and what changes are suggested, as tables for people.
-/

namespace StyleContract.Terminal

open Verification

/-- A duration in minutes and seconds, in seconds or in milliseconds, whichever is large
enough. -/
def durationText (milliseconds : Nat) : String :=
  if 60000 ≤ milliseconds then
    toString (milliseconds / 60000) ++ "m " ++ toString (milliseconds % 60000 / 1000) ++ "s"
  else if 1000 ≤ milliseconds then
    Decimal.fixed 2 (Float.ofNat milliseconds / 1000.0) ++ "s"
  else toString milliseconds ++ "ms"

def statusLabel (coloured : Bool) : Status → String
  | .pass => Ink.green.strong.paint coloured "PASS"
  | .fail => Ink.red.strong.paint coloured "FAIL"
  | .skipped => Ink.dim.paint coloured "SKIP"
  | .error => Ink.yellow.strong.paint coloured "ERR "

/-- The sign of something that went well or did not. -/
def mark (coloured good : Bool) : String :=
  if good then Ink.green.paint coloured "+" else Ink.red.paint coloured "x"

def commandRow (coloured : Bool) (r : CommandResult) : String :=
  "  " ++ mark coloured r.succeeded ++ " " ++ r.command ++ " " ++
    Ink.dim.paint coloured (durationText r.milliseconds) ++ "\n"

def checkRow (coloured : Bool) (c : RuleCheck) : String :=
  "  " ++ statusLabel coloured c.status ++ " " ++ severityLabel coloured c.severity ++ " " ++
    padded idWidth c.id ++ " " ++ c.message.getD "" ++ "\n"

/-- How many rules there are of each status. -/
def tally (report : CheckReport) : String :=
  toString (report.count .pass) ++ " passed, " ++ toString (report.count .fail) ++ " failed, " ++
    toString (report.count .skipped) ++ " skipped, " ++ toString (report.count .error) ++
    " errored"

def checkTable (coloured : Bool) (report : CheckReport) : String :=
  "\n" ++ heading coloured "Check Results" ++ underline '=' ++
    String.join (report.commands.map (commandRow coloured)) ++ "\n" ++
    String.join (report.rules.map (checkRow coloured)) ++ "\n" ++
    mark coloured (!report.hasViolations) ++ " " ++ tally report ++ "\n"

/-- Whether a line starts with a sign, but not with three of it. -/
def startsWithOne (sign : Char) (line : String) : Bool :=
  match line.toList with
  | a :: b :: c :: _ => a == sign && !(b == sign && c == sign)
  | a :: _ => a == sign
  | [] => false

/-- One line of a diff. -/
def diffRow (coloured : Bool) (line : String) : String :=
  let ink :=
    if startsWithOne '+' line then Ink.green
    else if startsWithOne '-' line then Ink.red
    else Ink.dim
  ink.paint coloured line ++ "\n"

def suggestionText (coloured : Bool) (s : Suggestion) : String :=
  "\n" ++ Ink.blue.paint coloured "->" ++ " " ++ Ink.bold.paint coloured s.ruleId ++ ": " ++
    s.description ++ "\n" ++ String.join ((Text.lines s.diff).map (diffRow coloured))

/-- The changes that are suggested or have been made. -/
def changes (coloured : Bool) (suggestions : List Suggestion) (applied : Bool) : String :=
  if suggestions.isEmpty then
    Ink.green.paint coloured "+" ++ " Config already matches the contract\n"
  else
    heading coloured (if applied then "Applied changes" else "Suggested changes (dry run)") ++
      String.join (suggestions.map (suggestionText coloured))

end StyleContract.Terminal
