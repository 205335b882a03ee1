import StyleContract.Error
import StyleContract.Power
import StyleContract.Text.Blank
import StyleContract.Text.LowerCase
import StyleContract.Toml.Reader

/-!
# Settings

The settings of a run. Lowest come the defaults, then a settings file, then environment variables,
then what a command line says; each layer replaces single values of the one below. Settings are
checked after each layer, so that no run starts from settings out of range.
-/

namespace StyleContract

/-- Settings of the questions to the oracle. -/
structure OracleSettings where
  enabled : Bool := true
  /-- How many questions may be open at a time. -/
  concurrency : Nat := 4
  timeoutSeconds : Nat := 60
  maxFileBytes : Nat := 65536
  minConfidence : Float := 0.55
  maxRulesPerFile : Nat := 10
  deriving DecidableEq, Repr

structure Settings where
  contractPath : String := "repostyle.contract.yaml"
  reportPath : String := "repostyle.report.json"
  /-- How many files a scanner looks at. -/
  maxFiles : Nat := 200
  /-- The file of a schema that takes the place of the bundled one. -/
  schemaPath : Option String := none
  oracle : OracleSettings := {}
  deriving DecidableEq, Repr

namespace Settings

/-- The settings file that is read if no other is named. -/
def defaultFile : String := "repostyle.toml"

def isWithinOne (x : Float) : Bool := 0.0 ≤ x && x ≤ 1.0

/-- Refuses settings out of range. -/
def check (s : Settings) : Except Error Settings :=
  if s.maxFiles = 0 then .error (.invalidInput "max_files must be at least 1")
  else if s.oracle.concurrency = 0 then
    .error (.invalidInput "llm.concurrency must be at least 1")
  else if !isWithinOne s.oracle.minConfidence then
    .error (.invalidInput "llm.min_confidence must be within [0, 1]")
  else .ok s

/-! ### From a settings file -/

/-- The entries of a table that has no other than the named ones. A list gives them by place. -/
def entriesOf (names : List String) : Toml → Option (List (String × Toml))
  | .table entries => if entries.all (·.1 ∈ names) then some entries else none
  | .array items => some (names.zip items)
  | _ => none

/-- The value of an entry, or the default if there is none. -/
def entry {α : Type} (entries : List (String × Toml)) (name : String) (default : α)
    (read : Toml → Option α) : Option α :=
  match entries.find? (·.1 == name) with
  | some (_, v) => read v
  | none => some default

def text? : Toml → Option String
  | .text s => some s
  | _ => none

def bool? : Toml → Option Bool
  | .bool b => some b
  | _ => none

def natural? : Toml → Option Nat
  | .int n => if 0 ≤ n then some n.toNat else none
  | _ => none

def number? : Toml → Option Float
  | .float x => some x
  | .int n => some (Float.ofInt n)
  | _ => none

def oracleOf (v : Toml) : Option OracleSettings := do
  let d : OracleSettings := {}
  let es ← entriesOf ["enabled", "concurrency", "timeout_secs", "max_file_bytes",
    "min_confidence", "max_rules_per_file"] v
  some {
    enabled := ← entry es "enabled" d.enabled bool?
    concurrency := ← entry es "concurrency" d.concurrency natural?
    timeoutSeconds := ← entry es "timeout_secs" d.timeoutSeconds natural?
    maxFileBytes := ← entry es "max_file_bytes" d.maxFileBytes natural?
    minConfidence := ← entry es "min_confidence" d.minConfidence number?
    maxRulesPerFile := ← entry es "max_rules_per_file" d.maxRulesPerFile natural? }

def ofTable (v : Toml) : Option Settings := do
  let d : Settings := {}
  let es ← entriesOf ["contract_path", "report_path", "max_files", "schema_path", "llm"] v
  some {
    contractPath := ← entry es "contract_path" d.contractPath text?
    reportPath := ← entry es "report_path" d.reportPath text?
    maxFiles := ← entry es "max_files" d.maxFiles natural?
    schemaPath := ← entry es "schema_path" d.schemaPath fun v => (text? v).map some
    oracle := ← entry es "llm" d.oracle oracleOf }

/-- The settings that a text gives, checked. -/
def ofText (s : String) : Except Error Settings :=
  match (Toml.ofText? s).bind ofTable with
  | some settings => settings.check
  | none => .error (.ofToml "not a table of settings")

/-- The settings of a file. -/
def ofFile (tree : Entry) (path : String) : Except Error Settings :=
  match tree.readText path with
  | .ok text => ofText text
  | .error e => .error (.ofFile "Failed to read settings" path e)

/-! ### From environment variables -/

def badValue (name value : String) : Error :=
  .invalidInput (name ++ " has invalid value '" ++ value ++ "'")

/-- A natural number that fits a machine word, between blanks. -/
def naturalValue (name value : String) : Except Error Nat :=
  match Text.signedNatural? (Text.trim value).toList with
  | some n => if n < twoTo 64 then .ok n else .error (badValue name value)
  | none => .error (badValue name value)

/-- A truth value in one of four words each. -/
def boolValue (name value : String) : Except Error Bool :=
  let word := Text.lower (Text.trim value)
  if word ∈ ["1", "true", "yes", "on"] then .ok true
  else if word ∈ ["0", "false", "no", "off"] then .ok false
  else .error (badValue name value)

/-- Changes settings by the value of a variable, if it has one. -/
def override {α : Type} (lookup : String → Option String) (name : String)
    (read : String → String → Except Error α) (set : α → Settings → Settings) (s : Settings) :
    Except Error Settings :=
  match lookup name with
  | some value => (read name value).map fun a => set a s
  | none => .ok s

/-- The variables that change settings. -/
def variableNames : List String :=
  ["REPOSTYLE_CONTRACT", "REPOSTYLE_REPORT", "REPOSTYLE_SCHEMA", "REPOSTYLE_MAX_FILES",
    "REPOSTYLE_LLM_ENABLED", "REPOSTYLE_LLM_CONCURRENCY", "REPOSTYLE_LLM_TIMEOUT_SECS",
    "REPOSTYLE_LLM_MAX_FILE_BYTES"]

def pathValue (_ value : String) : Except Error String := .ok value

/-- The settings with the values of environment variables, checked. -/
def withVariables (s : Settings) (lookup : String → Option String) : Except Error Settings := do
  let s ← override lookup "REPOSTYLE_CONTRACT" pathValue
    (fun p s => { s with contractPath := p }) s
  let s ← override lookup "REPOSTYLE_REPORT" pathValue (fun p s => { s with reportPath := p }) s
  let s ← override lookup "REPOSTYLE_SCHEMA" pathValue
    (fun p s => { s with schemaPath := some p }) s
  let s ← override lookup "REPOSTYLE_MAX_FILES" naturalValue (fun n s => { s with maxFiles := n }) s
  let s ← override lookup "REPOSTYLE_LLM_ENABLED" boolValue
    (fun b s => { s with oracle.enabled := b }) s
  let s ← override lookup "REPOSTYLE_LLM_CONCURRENCY" naturalValue
    (fun n s => { s with oracle.concurrency := n }) s
  let s ← override lookup "REPOSTYLE_LLM_TIMEOUT_SECS" naturalValue
    (fun n s => { s with oracle.timeoutSeconds := n }) s
  let s ← override lookup "REPOSTYLE_LLM_MAX_FILE_BYTES" naturalValue
    (fun n s => { s with oracle.maxFileBytes := n }) s
  s.check

/-- The settings of a run: from the named file, else from the default one if there is one, and
then from environment variables. -/
def load (tree : Entry) (path : Option String) (lookup : String → Option String) :
    Except Error Settings := do
  let s ← match path with
    | some path => ofFile tree path
    | none => if tree.isFile defaultFile then ofFile tree defaultFile else .ok {}
  s.withVariables lookup

end Settings

end StyleContract
