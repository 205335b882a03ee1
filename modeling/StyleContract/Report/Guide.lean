import StyleContract.Contract.Document
import StyleContract.Json.Printer
import StyleContract.Verification.Commands

/-!
# Report — Guide

The Markdown guide that a coding agent reads before it touches a repository. Rules with enough
confidence are listed as enforced, with everything about them, the others as candidates.
-/

namespace StyleContract.Guide

/-- The confidence from which on a rule is enforced. -/
def enforcedConfidence : Float := 0.55

def isEnforced (r : Rule) : Bool := enforcedConfidence ≤ r.confidence

def inOrder (a b : Rule) : Bool := decide (a.id ≤ b.id)

/-- The rules of a contract in the order of their ids. -/
def ordered (c : Contract) : List Rule := c.rules.mergeSort inOrder

def enforced (c : Contract) : List Rule := (ordered c).filter isEnforced

def candidates (c : Contract) : List Rule := (ordered c).filter fun r => !isEnforced r

/-- How to work in the repository, whatever its rules are. -/
def posture : List String :=
  ["Produce the smallest diff possible. Do not refactor unless a rule mandates it.",
    "Do not alter CI or publishing unless a rule mandates it.",
    "Prefer existing patterns over new libraries."]

def line (s : String) : String := s ++ "\n"

/-- A line with an empty line after it. -/
def paragraph (s : String) : String := s ++ "\n\n"

def bullet (s : String) : String := line ("- " ++ s)

def ticks : String := "\x60\x60\x60"

/-- A block of code. -/
def codeBlock (language body : String) : String :=
  paragraph (ticks ++ language ++ "\n" ++ body ++ "\n" ++ ticks)

def languagesText (c : Contract) : String :=
  if c.languages.isEmpty then "none detected" else String.intercalate ", " c.languages

def contextSection (c : Contract) : String :=
  paragraph "## Repository Context" ++
    bullet ("Repo: " ++ c.repo.remote.getD "local") ++
    bullet ("Commit: " ++ c.repo.sha) ++
    bullet ("Languages: " ++ languagesText c) ++
    paragraph ("- Rules: " ++ toString (enforced c).length ++ " enforced, " ++
      toString (candidates c).length ++ " candidate")

def postureSection : String :=
  paragraph "## Operating Posture" ++ String.join (posture.map bullet) ++ "\n"

def placeText (e : Evidence) : String :=
  e.path ++ "#L" ++ toString e.lines.first.toNat ++ "-L" ++ toString e.lines.last.toNat ++ " (" ++
    e.snippetHash ++ ")"

def rationaleText : Option String → String
  | some r => paragraph ("**Rationale:** " ++ r)
  | none => ""

def verifierText (commands : List String) : String :=
  if commands.isEmpty then paragraph "No local verifier."
  else codeBlock "bash" (String.intercalate " && " commands)

def autofixText : Option Autofix → String
  | some f => Text.ticked f.details
  | none => "n/a"

/-- Everything about a rule. -/
def ruleText (r : Rule) : String :=
  paragraph ("### " ++ r.id ++ ": " ++ r.title) ++
    line ("**Statement:** " ++ r.statement ++ "  ") ++
    line ("**Scope:** " ++ String.intercalate ", " r.scope ++ "  ") ++
    paragraph ("**Severity:** " ++ r.severity.name ++ " | **Confidence:** " ++
      Decimal.fixed 2 r.confidence) ++
    rationaleText r.rationale ++
    paragraph "**Local verification:**" ++
    verifierText (Verification.commandsOf r) ++
    paragraph ("**Autofix:** " ++ autofixText r.autofix) ++
    paragraph ("**Provenance:** " ++ String.intercalate ", " (r.evidence.map placeText))

def enforcedSection (rules : List Rule) : String :=
  paragraph "## Enforced Rules" ++
    (if rules.isEmpty then paragraph "No rules meet the enforcement threshold." else "") ++
    String.join (rules.map ruleText)

def candidateText (r : Rule) : String :=
  bullet (r.id ++ ": " ++ r.statement ++ " (" ++ r.primaryPath?.getD "n/a" ++ ")")

def candidateSection (rules : List Rule) : String :=
  paragraph "## Candidate Rules" ++ (if rules.isEmpty then line "None." else "") ++
    String.join (rules.map candidateText) ++ "\n"

def verificationSection (rules : List Rule) : String :=
  let commands := Verification.canonicalLine rules
  paragraph "## Verification" ++
    (if commands.isEmpty then paragraph "No local verifiers apply." else codeBlock "bash" commands)

/-- The evidence of every rule by its id. -/
def provenance (c : Contract) : Keyed (List Evidence) :=
  Keyed.ofList (c.rules.map fun r => (r.id, r.evidence))

def provenanceJson (c : Contract) : Json :=
  .obj ((provenance c).entries.map fun e => (e.1, .arr (e.2.map Evidence.toJson)))

def provenanceSection (c : Contract) : String :=
  paragraph "## Provenance Map" ++ codeBlock "json" (provenanceJson c).pretty

/-- The guide of a contract, which names the file that the contract is in. -/
def render (c : Contract) (source : String) : String :=
  paragraph "# AGENTS.md" ++ contextSection c ++ postureSection ++ enforcedSection (enforced c) ++
    candidateSection (candidates c) ++ verificationSection (enforced c) ++ provenanceSection c ++
    line ("Last generated: " ++ c.generatedAt.toOffsetText ++ " | Source: " ++ source)

end StyleContract.Guide
