import StyleContract.Accounts.Basic
import StyleContract.Contract.Builder
import StyleContract.Synthesis.Dedupe
import StyleContract.Synthesis.Extraction
import StyleContract.Synthesis.Projection

/-!
# Synthesis — Run

From the signals of a repository to its contract: rules that follow from signals come first, rules
from an oracle after them, of each id the first rule stays, and the contract is accepted by its
schema or not built at all. What goes wrong with a scanner or a file never stops a run.
-/

namespace StyleContract

/-- What a run works with. -/
structure Synthesis where
  schema : ContractSchema
  projector : Projector := .standard
  /-- The oracle and how it is asked, if there is one. -/
  oracle : Option (Oracle × ExtractionConfig) := none

/-- Everything that a run has brought. -/
structure SynthesisOutcome where
  contract : Contract
  bundle : Bundle
  /-- The number of rules that follow from signals. -/
  deterministic : Nat
  extraction : Option Extraction
  dropped : List DroppedRule
  accounts : Accounts

namespace Synthesis

/-- Counts the signals, by scanner where that is known. -/
def countSignals (b : Bundle) (a : Accounts) : Accounts :=
  if b.perScanner.entries.isEmpty then a.recordSignals "external" b.signals.length
  else b.perScanner.entries.foldl (fun a e => a.recordSignals e.1 e.2) a

/-- Counts what an oracle has said. -/
def countExtraction (e : Extraction) (a : Accounts) : Accounts :=
  let failed := e.failures.length
  ((a.recordFiles e.filesAnalyzed).recordQuestions (e.filesAnalyzed - failed) failed).recordRules
    Accounts.probabilistic e.rules.length

/-- What the oracle says about the files that signals were seen in. -/
def extract (s : Synthesis) (tree : Entry) (root : String) (b : Bundle) : Option Extraction :=
  s.oracle.map fun (oracle, config) => Extraction.ofPaths tree root config oracle b.paths

/-- The rules of all origins, those that follow from signals first. -/
def merged (deterministic : List Rule) (extraction : Option Extraction) : List Rule :=
  deterministic ++ (extraction.map (·.rules)).getD []

/-- The accounts of a run that took so many seconds. -/
def accountsOf (b : Bundle) (deterministic : List Rule) (extraction : Option Extraction)
    (seconds : Float) : Accounts :=
  let a := (countSignals b {}).recordRules Accounts.deterministic deterministic.length
  let a := match extraction with
    | some e => countExtraction e a
    | none => a
  let dropped := Dedupe.dropped (merged deterministic extraction)
  (a.recordDuplicates dropped.length).recordDuration seconds

/-- The contract that follows from signals that are at hand. -/
def ofBundle (s : Synthesis) (tree : Entry) (root : String) (repo : RepoIdentity) (b : Bundle)
    (now : Moment) (seconds : Float) : Except Error SynthesisOutcome := do
  let deterministic := s.projector.project b.signals
  let extraction := s.extract tree root b
  let rules := merged deterministic extraction
  let accounts := accountsOf b deterministic extraction seconds
  let contract ← s.schema.build repo (Dedupe.kept rules) (some accounts.summary) now
  .ok {
    contract := contract
    bundle := b
    deterministic := deterministic.length
    extraction := extraction
    dropped := Dedupe.dropped rules
    accounts := accounts.opened }

end Synthesis

end StyleContract
