import StyleContract.Files.Basic
import StyleContract.Schema.Basic

/-!
# Error

The ways in which an operation fails, and the sentence for each.
-/

namespace StyleContract

/-- A breach of a contract's form at a place in it. -/
structure Violation where
  /-- A JSON pointer; empty for the whole contract. -/
  path : String
  message : String
  deriving DecidableEq, Repr

namespace Violation

def text (v : Violation) : String := (if v.path.isEmpty then "/" else v.path) ++ ": " ++ v.message

def ofFinding (f : Schema.Finding) : Violation := ⟨Json.pointer f.path, f.message⟩

end Violation

inductive Error where
  | invalidInput (text : String)
  | file (text : String)
  | parse (text : String)
  | serialization (text : String)
  | schema (text : String)
  | invalidContract (violations : List Violation)
  /-- Two kinds of signals of a projection table have one rule id. -/
  | duplicateProjection (id first second : String)
  | repository (text : String)
  | internal (text : String)
  deriving DecidableEq, Repr

namespace Error

def message : Error → String
  | .invalidInput text => "Invalid input: " ++ text
  | .file text => "File error: " ++ text
  | .parse text => "Parse error: " ++ text
  | .serialization text => "Serialization error: " ++ text
  | .schema text => "Schema error: " ++ text
  | .invalidContract violations =>
    "Contract invalid: " ++ toString violations.length ++ " violation(s): " ++
      String.intercalate "; " (violations.map Violation.text)
  | .duplicateProjection id first second =>
    "Projection table maps both '" ++ first ++ "' and '" ++ second ++ "' to rule id '" ++ id ++ "'"
  | .repository text => "Repository error: " ++ text
  | .internal text => "Internal error: " ++ text

/-- Whether the cause lies with what the user gave. -/
def isUserError : Error → Bool
  | .invalidInput _ | .file _ | .parse _ | .repository _ => true
  | _ => false

def violations : Error → List Violation
  | .invalidContract vs => vs
  | _ => []

/-- An operation on a file that failed. -/
def ofFile (action path : String) (e : OsError) : Error :=
  .file (action ++ " '" ++ path ++ "': " ++ e.message)

def ofJson (reason : String) : Error := .parse ("JSON error: " ++ reason)

def ofYaml (reason : String) : Error := .parse ("YAML error: " ++ reason)

def ofToml (reason : String) : Error := .parse ("TOML error: " ++ reason)

end Error

end StyleContract
