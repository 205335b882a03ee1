import StyleContract.Text.LowerCase

/-!
# Contract — Severity

How binding a rule is, and from which severity on a failing rule fails a check.
-/

namespace StyleContract

inductive Severity where
  | info
  | warn
  | error
  deriving DecidableEq, Repr

namespace Severity

def all : List Severity := [.info, .warn, .error]

def name : Severity → String
  | .info => "info"
  | .warn => "warn"
  | .error => "error"

/-- Severities in ascending order. -/
def rank : Severity → Nat
  | .info => 0
  | .warn => 1
  | .error => 2

theorem rank_injective {a b : Severity} (h : a.rank = b.rank) : a = b := by
  cases a <;> cases b <;> simp [rank] at h <;> rfl

/-- The severity that a word names, in any letter case. -/
def ofWord? (word : String) : Option Severity :=
  let w := Text.lower word
  if w = "info" then some .info
  else if w = "warn" ∨ w = "warning" then some .warn
  else if w = "error" then some .error
  else none

/-- What is said about a word that names no severity. -/
def unknownText (word : String) : String := "Unknown severity: " ++ word

end Severity

/-- The least severity of a failing rule that counts as a violation. -/
inductive FailOn where
  | warn
  | error
  | never
  deriving DecidableEq, Repr

namespace FailOn

def name : FailOn → String
  | .warn => "warn"
  | .error => "error"
  | .never => "none"

/-- The threshold as a severity, if there is one. -/
def threshold? : FailOn → Option Severity
  | .warn => some .warn
  | .error => some .error
  | .never => none

/-- Whether a failing rule of a severity counts. -/
def counts (failOn : FailOn) (severity : Severity) : Bool :=
  match failOn.threshold? with
  | some least => least.rank ≤ severity.rank
  | none => false

def ofWord? (word : String) : Option FailOn :=
  let w := Text.lower word
  if w = "warn" ∨ w = "warning" then some .warn
  else if w = "error" then some .error
  else if w = "none" then some .never
  else none

/-- What is said about a word that names no threshold. -/
def unknownText (word : String) : String := "Unknown fail-on level: " ++ word

end FailOn

end StyleContract
