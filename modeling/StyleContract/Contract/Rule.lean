import StyleContract.Contract.Severity
import StyleContract.Decimal.Layout
import StyleContract.Digest.Sha256
import StyleContract.Text.Blank

/-!
# Contract — Rule

A rule of a contract with the places in the repository that support it, and what can be wrong
with one. `Rule.problems_eq_nil_iff` says which rules are sound.
-/

namespace StyleContract

/-- A range of lines, both ends included. -/
structure Lines where
  first : UInt32
  last : UInt32
  deriving DecidableEq, Repr

/-- The text that identifies a place. -/
def placeText (path : String) (lines : Lines) : String :=
  path ++ ":" ++ toString lines.first.toNat ++ "-" ++ toString lines.last.toNat

/-- The first sixteen hexadecimal digits of the digest of a place's text. -/
def placeHash (path : String) (lines : Lines) : String :=
  String.ofList ((Sha256.hexDigest (placeText path lines)).toList.take 16)

/-- A place that supports a rule. -/
structure Evidence where
  path : String
  lines : Lines
  snippetHash : String
  deriving DecidableEq, Repr

/-- The evidence of a place, with the hash that belongs to it. -/
def Evidence.at (path : String) (lines : Lines) : Evidence := ⟨path, lines, placeHash path lines⟩

/-- How to repair violations of a rule. -/
structure Autofix where
  kind : String
  details : String
  deriving DecidableEq, Repr

structure Rule where
  id : String
  title : String
  statement : String
  rationale : Option String := none
  /-- The patterns of the paths that the rule is about. -/
  scope : List String := []
  languages : List String := []
  severity : Severity
  confidence : Float
  evidence : List Evidence := []
  autofix : Option Autofix := none
  relatedRules : List String := []
  deriving DecidableEq, Repr

namespace Rule

/-- An ASCII letter or digit. -/
def isIdStart (c : Char) : Bool := c.isAlphanum

def isIdChar (c : Char) : Bool := c.isAlphanum || c == '_' || c == '-'

/-- Whether a text is a rule's code, such as `PY-LOG-001`. -/
def isId (s : String) : Bool :=
  match s.toList with
  | c :: cs => isIdStart c && cs.all isIdChar
  | [] => false

/-- What can be wrong with a rule. -/
inductive Problem where
  | idEmpty
  | idMalformed
  | titleEmpty
  | statementEmpty
  | confidenceOutside
  | evidenceEmpty
  | evidenceIncomplete
  | scopeEmpty
  | scopePatternEmpty
  | autofixIncomplete
  deriving DecidableEq, Repr

def Problem.message (r : Rule) : Problem → String
  | .idEmpty => "id must not be empty"
  | .idMalformed => r.id ++ ": id must match ^[A-Za-z0-9][A-Za-z0-9_-]*$"
  | .titleEmpty => r.id ++ ": title must not be empty"
  | .statementEmpty => r.id ++ ": statement must not be empty"
  | .confidenceOutside =>
    r.id ++ ": confidence " ++ Decimal.plain.render r.confidence ++ " is outside [0, 1]"
  | .evidenceEmpty => r.id ++ ": evidence must not be empty"
  | .evidenceIncomplete => r.id ++ ": evidence needs a path and a snippet hash"
  | .scopeEmpty => r.id ++ ": scope must not be empty"
  | .scopePatternEmpty => r.id ++ ": scope patterns must not be empty"
  | .autofixIncomplete => r.id ++ ": autofix needs a kind and details"

def isConfidence (x : Float) : Bool := 0.0 ≤ x && x ≤ 1.0

/-- Whether a rule has a problem. -/
def Has (r : Rule) : Problem → Bool
  | .idEmpty => Text.trim r.id == ""
  | .idMalformed => Text.trim r.id != "" && !isId r.id
  | .titleEmpty => Text.trim r.title == ""
  | .statementEmpty => Text.trim r.statement == ""
  | .confidenceOutside => !isConfidence r.confidence
  | .evidenceEmpty => r.evidence.isEmpty
  | .evidenceIncomplete => r.evidence.any fun e => e.path == "" || e.snippetHash == ""
  | .scopeEmpty => r.scope.isEmpty
  | .scopePatternEmpty => r.scope.any (· == "")
  | .autofixIncomplete => r.autofix.any fun f => f.kind == "" || f.details == ""

def Problem.all : List Problem :=
  [.idEmpty, .idMalformed, .titleEmpty, .statementEmpty, .confidenceOutside, .evidenceEmpty,
    .evidenceIncomplete, .scopeEmpty, .scopePatternEmpty, .autofixIncomplete]

/-- Everything that is wrong with a rule. -/
def problems (r : Rule) : List Problem := Problem.all.filter r.Has

theorem Problem.mem_all (p : Problem) : p ∈ Problem.all := by cases p <;> decide

theorem problems_eq_nil_iff {r : Rule} : r.problems = [] ↔ ∀ p : Problem, r.Has p = false := by
  simp [problems, List.filter_eq_nil_iff, Problem.mem_all]

/-- The sentences for everything that is wrong with a rule. -/
def complaints (r : Rule) : List String := r.problems.map (Problem.message r)

/-- The path of the first place that supports the rule. -/
def primaryPath? (r : Rule) : Option String := r.evidence.head?.map (·.path)

/-- The rule in one line. -/
def summary (r : Rule) : String :=
  "[" ++ r.severity.name ++ "] " ++ r.id ++ " (" ++ Decimal.fixed 2 r.confidence ++ "): " ++
    r.statement

end Rule

end StyleContract
