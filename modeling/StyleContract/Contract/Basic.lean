import StyleContract.Contract.Rule
import StyleContract.Json.Basic
import StyleContract.Keyed
import StyleContract.Moment.Basic

/-!
# Contract — Basic

A contract: the rules that were found for one state of a repository, with the accounts of the
run that found them.
-/

namespace StyleContract

/-- Which state of which repository a contract is about. -/
structure RepoIdentity where
  remote : Option String := none
  sha : String
  deriving DecidableEq, Repr

/-- The accounts of a run: values by name. -/
abbrev Metrics := Keyed Json

structure Contract where
  schemaVersion : String
  repo : RepoIdentity
  generatedAt : Moment
  rules : List Rule
  metrics : Option Metrics := none
  deriving DecidableEq

namespace Contract

/-- The version of the contract's form that this library writes. -/
def currentVersion : String := "1.0"

/-- The first rule with an id. -/
def rule? (c : Contract) (id : String) : Option Rule := c.rules.find? (·.id == id)

end Contract

/-- Distinct texts in ascending order. -/
def sortedDistinct (texts : List String) : List String :=
  (texts.mergeSort (fun a b => decide (a ≤ b))).eraseDups

/-- The languages that rules name, each once and in ascending order. -/
def Contract.languages (c : Contract) : List String :=
  sortedDistinct (c.rules.flatMap (·.languages))

end StyleContract
