import StyleContract.Oracle.Endpoint
import StyleContract.Settings
import StyleContract.Synthesis.Extraction

/-!
# Synthesis — Choice

Whether a run has an oracle: settings may rule it out, and the environment has to describe it.
Without one a run goes on with the rules that follow from signals.
-/

namespace StyleContract

/-- How an oracle is asked under some settings. -/
def Settings.extraction (s : Settings) : ExtractionConfig where
  concurrency := s.oracle.concurrency
  timeout := s.oracle.timeoutSeconds * 1000
  maxFileBytes := s.oracle.maxFileBytes
  minConfidence := s.oracle.minConfidence
  maxRulesPerFile := s.oracle.maxRulesPerFile

/-- The oracle that environment variables describe, if settings allow one. -/
def Settings.chosenOracle (s : Settings) (lookup : String → Option String)
    (exchange : List ChatMessage → Nat → Exchange) : Option (Oracle × ExtractionConfig) :=
  if s.oracle.enabled then
    match Endpoint.ofVariables lookup with
    | .ok endpoint => some (endpoint.oracle exchange s.extraction.timeout, s.extraction)
    | .error _ => none
  else none

end StyleContract
