import StyleContract.Signal.Configuration
import StyleContract.Signal.Python
import StyleContract.Signal.TypeScript
import StyleContract.Signal.Workflow

/-!
# Signal — Scanners

The scanners that look at a repository unless others are chosen.
-/

namespace StyleContract

def Scanner.all : List Scanner :=
  [Configuration.scanner, Python.scanner, TypeScript.scanner, Workflow.scanner]

/-- The signals of a repository. -/
def Bundle.ofRepository (tree : Entry) (root : String) (most : Option Nat) : Bundle :=
  Bundle.ofScanners Scanner.all tree root most

end StyleContract
