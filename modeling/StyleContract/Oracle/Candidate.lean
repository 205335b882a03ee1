import StyleContract.Contract.Document
import StyleContract.Files.Path
import StyleContract.Json.Reader
import StyleContract.Oracle.Basic

/-!
# Oracle — Candidate

Rules as an oracle proposes them. A reply is a JSON list of candidates, bare, in an object under
`rules`, or inside a Markdown code fence; one candidate that does not fit refuses the whole reply.
A candidate becomes a rule once what it leaves open is filled in from the file that it is about.
-/

namespace StyleContract

open Document

structure Candidate where
  id : String
  title : Option String := none
  statement : String
  rationale : Option String := none
  scope : List String := []
  languages : List String := []
  severity : Severity
  confidence : Float
  /-- The places that are said to support the rule. -/
  places : List (String × Lines) := []
  autofix : Option Autofix := none
  relatedRules : List String := []
  deriving DecidableEq, Repr

namespace Candidate

def readPlace {V : Type} (r : Reading V) (v : V) : Fit (String × Lines) := do
  let entries ← r.record "CandidateEvidence"
    [.needed "path" r.text, .needed "lines" (Lines.read r)] v
  .ok (← required entries "path" r.text, ← required entries "lines" (Lines.read r))

def fields {V : Type} (r : Reading V) : List (FieldRule V) :=
  [.needed "id" r.text, .free "title" (r.option r.text), .needed "statement" r.text,
    .free "rationale" (r.option r.text), .free "scope" r.texts, .free "languages" r.texts,
    .needed "severity" (Severity.read r), .needed "confidence" r.float,
    .free "evidence" (r.list (readPlace r)), .free "autofix" (r.option (Autofix.read r)),
    .free "relatedRules" r.texts]

def read {V : Type} (r : Reading V) (v : V) : Fit Candidate := do
  let entries ← r.record "RuleCandidate" (fields r) v
  .ok {
    id := ← required entries "id" r.text
    title := ← defaulted entries "title" none (r.option r.text)
    statement := ← required entries "statement" r.text
    rationale := ← defaulted entries "rationale" none (r.option r.text)
    scope := ← defaulted entries "scope" [] r.texts
    languages := ← defaulted entries "languages" [] r.texts
    severity := ← required entries "severity" (Severity.read r)
    confidence := ← required entries "confidence" r.float
    places := ← defaulted entries "evidence" [] (r.list (readPlace r))
    autofix := ← defaulted entries "autofix" none (r.option (Autofix.read r))
    relatedRules := ← defaulted entries "relatedRules" [] r.texts }

def placeJson (place : String × Lines) : Json :=
  .obj [("path", .str place.1), ("lines", place.2.toJson)]

def orNull {α : Type} (toJson : α → Json) : Option α → Json
  | some a => toJson a
  | none => .null

/-- The candidate as a value, with null for what is left open. -/
def toJson (c : Candidate) : Json :=
  .obj [("id", .str c.id), ("title", orNull .str c.title), ("statement", .str c.statement),
    ("rationale", orNull .str c.rationale), ("scope", Json.ofStrings c.scope),
    ("languages", Json.ofStrings c.languages), ("severity", c.severity.toJson),
    ("confidence", Json.ofFloat c.confidence), ("evidence", .arr (c.places.map placeJson)),
    ("autofix", orNull Autofix.toJson c.autofix), ("relatedRules", Json.ofStrings c.relatedRules)]

/-! ### Replies -/

/-- Refuses a candidate that cannot become a sound rule; `index` is its place in the reply. -/
def check (index : Nat) (c : Candidate) : Except OracleError Candidate :=
  if Text.trim c.id = "" then
    .error (.invalidCandidate ("rule " ++ toString index ++ " has an empty id"))
  else if !Rule.isId c.id then
    .error (.invalidCandidate ("rule id '" ++ c.id ++ "' is not a code like PY-LOG-001"))
  else if Text.trim c.statement = "" then
    .error (.invalidCandidate ("rule '" ++ c.id ++ "' has an empty statement"))
  else if !Rule.isConfidence c.confidence then
    .error (.invalidCandidate ("rule '" ++ c.id ++ "' has confidence " ++
      Decimal.plain.render c.confidence ++ " outside [0, 1]"))
  else .ok c

def fence : List Char := List.replicate 3 '\x60'

/-- A text without its last characters, if they are the given ones. -/
def withoutEnd (tail cs : List Char) : List Char :=
  if tail.isSuffixOf cs then cs.take (cs.length - tail.length) else cs

/-- What a reply says, without a code fence around it. -/
def body (reply : String) : String :=
  let cs := Text.trimChars Text.isBlank reply.toList
  if fence.isPrefixOf cs then
    let inner := ((cs.drop 3).dropWhile (· != '\n')).drop 1
    let inside := withoutEnd fence (Text.dropTailWhile Text.isBlank inner)
    String.ofList (Text.trimChars Text.isBlank inside)
  else String.ofList cs

/-- The candidates of a list, each read and checked in turn. -/
def ofItems (index : Nat) : List Json → Except OracleError (List Candidate)
  | [] => .ok []
  | v :: vs =>
    match read json v with
    | .error misfit =>
      .error (.invalidCandidate ("rule " ++ toString index ++ ": " ++ misfit.message))
    | .ok c => do
      let c ← check index c
      let cs ← ofItems (index + 1) vs
      .ok (c :: cs)

def noList : OracleError := .malformedResponse "expected a JSON array of rules"

/-- The candidates of a document. -/
def ofDocument : Json → Except OracleError (List Candidate)
  | .arr items => ofItems 0 items
  | .obj members =>
    match Json.Members.get? "rules" members with
    | some (.arr items) => ofItems 0 items
    | _ => .error noList
  | _ => .error noList

/-- The candidates of a reply. -/
def ofReply (reply : String) : Except OracleError (List Candidate) :=
  let text := body reply
  if text = "" then .error .emptyResponse
  else
    match Json.read text with
    | .ok document => ofDocument document
    | .error _ => .error (.malformedResponse "not JSON: malformed text")

/-! ### From a candidate to a rule -/

/-- The language that files with an extension are written in. -/
def languageOf? (extension : String) : Option String :=
  if extension ∈ ["py", "pyi"] then some "python"
  else if extension ∈ ["ts", "tsx", "mts", "cts"] then some "typescript"
  else if extension ∈ ["js", "jsx", "mjs", "cjs"] then some "javascript"
  else if extension = "rs" then some "rust"
  else if extension = "go" then some "go"
  else if extension = "toml" then some "toml"
  else if extension = "json" then some "json"
  else if extension ∈ ["yml", "yaml"] then some "yaml"
  else none

def isBlankText (s : String) : Bool := Text.trim s == ""

/-- A list, or one item if the list is empty. -/
def orElse {α : Type} (items : List α) (other : List α) : List α :=
  if items.isEmpty then other else items

/-- The rule of a candidate for a file with so many lines. What the candidate leaves open is
filled in: the whole file as evidence, files of its extension as scope, its language, and the id
as title. -/
def toRule (c : Candidate) (path : String) (lineCount : UInt32) : Rule :=
  let extension := Path.lowerExtension? path
  let places := c.places.filter fun p => !isBlankText p.1
  { id := c.id
    title := (c.title.filter fun t => !isBlankText t).getD c.id
    statement := c.statement
    rationale := c.rationale.filter fun r => !isBlankText r
    scope := orElse (c.scope.filter fun s => !isBlankText s)
      [match extension with
        | some e => "**/*." ++ e
        | none => path]
    languages := orElse c.languages (extension.bind languageOf?).toList
    severity := c.severity
    confidence := c.confidence
    evidence := orElse (places.map fun p => Evidence.at p.1 p.2)
      [Evidence.at path ⟨1, lineCount⟩]
    autofix := c.autofix.filter fun f => !isBlankText f.kind && !isBlankText f.details
    relatedRules := c.relatedRules }

end Candidate

end StyleContract
