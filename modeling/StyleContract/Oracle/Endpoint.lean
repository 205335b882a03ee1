import StyleContract.Oracle.Completion
import StyleContract.Oracle.Retry
import StyleContract.Text.Quoted

/-!
# Oracle — Endpoint

An oracle behind a chat completion service: where the service is, what it is asked with, and when
a question is asked again. The environment may leave the service out; then every variable that is
missing is named.
-/

namespace StyleContract

/-- A deployment of the service and how it is asked. -/
structure Endpoint where
  address : String
  apiKey : String
  deployment : String
  apiVersion : String
  /-- How long a request may take. -/
  requestSeconds : Nat
  retry : RetryPolicy
  deriving DecidableEq, Repr

namespace Endpoint

def addressVariable : String := "AZURE_OPENAI_ENDPOINT"
def keyVariable : String := "AZURE_OPENAI_API_KEY"
def deploymentVariable : String := "AZURE_OPENAI_DEPLOYMENT"
def versionVariable : String := "AZURE_OPENAI_API_VERSION"

/-- The variables that describe an endpoint. -/
def variableNames : List String :=
  [addressVariable, keyVariable, deploymentVariable, versionVariable]

/-- The name of an oracle of this kind. -/
def oracleName : String := "azure-openai"

/-- What is known of an endpoint so far. -/
structure Draft where
  address : Option String := none
  apiKey : Option String := none
  deployment : Option String := none
  apiVersion : String := "2024-06-01"
  requestSeconds : Nat := 60
  retry : RetryPolicy := {}
  deriving DecidableEq, Repr

namespace Draft

/-- The variables that would complete a draft. -/
def missing (d : Draft) : List String :=
  let needed := [(addressVariable, d.address), (keyVariable, d.apiKey),
    (deploymentVariable, d.deployment)]
  needed.filterMap fun (name, value) => if value.isNone then some name else none

/-- The endpoint of a complete draft. -/
def build (d : Draft) : Except OracleError Endpoint :=
  match d.address, d.apiKey, d.deployment with
  | some address, some apiKey, some deployment =>
    .ok ⟨address, apiKey, deployment, d.apiVersion, d.requestSeconds, d.retry⟩
  | _, _, _ => .error (.notConfigured (String.intercalate ", " d.missing))

end Draft

/-- The value of a variable that is not blank. -/
def set? (lookup : String → Option String) (name : String) : Option String :=
  (lookup name).filter fun value => Text.trim value != ""

/-- The endpoint that environment variables describe. -/
def ofVariables (lookup : String → Option String) : Except OracleError Endpoint :=
  let d : Draft := {
    address := set? lookup addressVariable
    apiKey := set? lookup keyVariable
    deployment := set? lookup deploymentVariable }
  match set? lookup versionVariable with
  | some version => { d with apiVersion := version }.build
  | none => d.build

/-- Where questions are sent. -/
def url (e : Endpoint) : String :=
  String.ofList (Text.dropTailWhile (· == '/') e.address.toList) ++ "/openai/deployments/" ++
    e.deployment ++ "/chat/completions?api-version=" ++ e.apiVersion

/-- The endpoint for a log, without its key. -/
def description (e : Endpoint) : String :=
  "OracleConfig \x7b endpoint: " ++ Text.quoted e.address ++
    ", api_key: \"<redacted>\", deployment: " ++ Text.quoted e.deployment ++
    ", api_version: " ++ Text.quoted e.apiVersion ++
    ", request_timeout_secs: " ++ toString e.requestSeconds ++
    ", max_retries: " ++ toString e.retry.maxRetries ++ " \x7d"

/-- The attempts at a question whose `n`-th request would come back with `exchange n`. -/
def attempts (e : Endpoint) (exchange : Nat → Exchange) : Attempts :=
  e.retry.attempts fun n => Completion.ofExchange e.requestSeconds (exchange n)

/-- The oracle behind an endpoint, for an asker who waits at most so many milliseconds. -/
def oracle (e : Endpoint) (exchange : List ChatMessage → Nat → Exchange) (patience : Nat) :
    Oracle where
  name := oracleName
  ask messages :=
    let a := e.attempts (exchange messages)
    if patience ≤ a.waited then .late
    else match a.result with
      | .ok text => .text text
      | .error error => .failed error

end Endpoint

end StyleContract
