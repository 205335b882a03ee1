import StyleContract.Contract.Basic
import StyleContract.Document.JsonReading

/-!
# Contract — Document

Contracts and their parts as JSON values, and how they are read from any kind of document. What
is absent is left out of the value rather than written as null.
-/

namespace StyleContract

open Document

/-- A member that is written only when there is a value. -/
def optionalMember {α : Type} (name : String) (toJson : α → Json) :
    Option α → List (String × Json)
  | some a => [(name, toJson a)]
  | none => []

namespace Severity

def toJson (s : Severity) : Json := .str s.name

def names : List String := ["info", "warn", "error"]

def ofName? (name : String) : Option Severity := all.find? (·.name == name)

def read {V : Type} (r : Reading V) (v : V) : Fit Severity := do
  let name ← r.word names v
  match ofName? name with
  | some s => .ok s
  | none => .error (.variant name names)

end Severity

namespace FailOn

def toJson (f : FailOn) : Json := .str f.name

def names : List String := ["warn", "error", "none"]

def read {V : Type} (r : Reading V) (v : V) : Fit FailOn := do
  let name ← r.word names v
  match [FailOn.warn, .error, .never].find? (·.name == name) with
  | some f => .ok f
  | none => .error (.variant name names)

end FailOn

namespace Lines

def toJson (l : Lines) : Json := .arr [Json.ofNat l.first.toNat, Json.ofNat l.last.toNat]

def read {V : Type} (r : Reading V) (v : V) : Fit Lines := do
  let (first, last) ← r.pair (fun v => (r.natural32 v).map fun _ => ()) v
  .ok ⟨← r.natural32 first, ← r.natural32 last⟩

end Lines

namespace Evidence

def toJson (e : Evidence) : Json :=
  .obj [("path", .str e.path), ("lines", e.lines.toJson), ("snippetHash", .str e.snippetHash)]

def read {V : Type} (r : Reading V) (v : V) : Fit Evidence := do
  let entries ← r.record "Evidence"
    [.needed "path" r.text, .needed "lines" (Lines.read r), .needed "snippetHash" r.text] v
  .ok {
    path := ← required entries "path" r.text
    lines := ← required entries "lines" (Lines.read r)
    snippetHash := ← required entries "snippetHash" r.text }

end Evidence

namespace Autofix

def toJson (f : Autofix) : Json := .obj [("kind", .str f.kind), ("details", .str f.details)]

def read {V : Type} (r : Reading V) (v : V) : Fit Autofix := do
  let entries ← r.record "Autofix" [.needed "kind" r.text, .needed "details" r.text] v
  .ok ⟨← required entries "kind" r.text, ← required entries "details" r.text⟩

end Autofix

namespace Rule

def toJson (r : Rule) : Json :=
  .obj ([("id", .str r.id), ("title", .str r.title), ("statement", .str r.statement)] ++
    optionalMember "rationale" .str r.rationale ++
    [("scope", Json.ofStrings r.scope), ("languages", Json.ofStrings r.languages),
      ("severity", r.severity.toJson), ("confidence", Json.ofFloat r.confidence),
      ("evidence", .arr (r.evidence.map Evidence.toJson))] ++
    optionalMember "autofix" Autofix.toJson r.autofix ++
    (if r.relatedRules.isEmpty then [] else [("relatedRules", Json.ofStrings r.relatedRules)]))

def fields {V : Type} (r : Reading V) : List (FieldRule V) :=
  [.needed "id" r.text, .needed "title" r.text, .needed "statement" r.text,
    .free "rationale" (r.option r.text), .needed "scope" r.texts, .needed "languages" r.texts,
    .needed "severity" (Severity.read r), .needed "confidence" r.float,
    .needed "evidence" (r.list (Evidence.read r)), .free "autofix" (r.option (Autofix.read r)),
    .free "relatedRules" r.texts]

def read {V : Type} (r : Reading V) (v : V) : Fit Rule := do
  let entries ← r.record "Rule" (fields r) v
  .ok {
    id := ← required entries "id" r.text
    title := ← required entries "title" r.text
    statement := ← required entries "statement" r.text
    rationale := ← defaulted entries "rationale" none (r.option r.text)
    scope := ← required entries "scope" r.texts
    languages := ← required entries "languages" r.texts
    severity := ← required entries "severity" (Severity.read r)
    confidence := ← required entries "confidence" r.float
    evidence := ← required entries "evidence" (r.list (Evidence.read r))
    autofix := ← defaulted entries "autofix" none (r.option (Autofix.read r))
    relatedRules := ← defaulted entries "relatedRules" [] r.texts }

end Rule

namespace RepoIdentity

def toJson (i : RepoIdentity) : Json :=
  .obj (optionalMember "remote" .str i.remote ++ [("sha", .str i.sha)])

def read {V : Type} (r : Reading V) (v : V) : Fit RepoIdentity := do
  let entries ← r.record "RepoIdentity"
    [.free "remote" (r.option r.text), .needed "sha" r.text] v
  .ok {
    remote := ← defaulted entries "remote" none (r.option r.text)
    sha := ← required entries "sha" r.text }

end RepoIdentity

namespace Metrics

def toJson (m : Metrics) : Json := .obj m.entries

def read {V : Type} (r : Reading V) (v : V) : Fit Metrics := do
  let entries ← r.entries v
  let members ← entries.mapM fun (name, v) => (r.value v).map fun j => (name, j)
  .ok (Keyed.ofList members)

end Metrics

namespace Contract

def toJson (c : Contract) : Json :=
  .obj ([("schemaVersion", .str c.schemaVersion), ("repo", c.repo.toJson),
      ("generatedAt", .str c.generatedAt.toText), ("rules", .arr (c.rules.map Rule.toJson))] ++
    optionalMember "metrics" Metrics.toJson c.metrics)

def fields {V : Type} (r : Reading V) : List (FieldRule V) :=
  [.needed "schemaVersion" r.text, .needed "repo" (RepoIdentity.read r),
    .needed "generatedAt" r.moment, .needed "rules" (r.list (Rule.read r)),
    .free "metrics" (r.option (Metrics.read r))]

def read {V : Type} (r : Reading V) (v : V) : Fit Contract := do
  let entries ← r.record "Contract" (fields r) v
  .ok {
    schemaVersion := ← required entries "schemaVersion" r.text
    repo := ← required entries "repo" (RepoIdentity.read r)
    generatedAt := ← required entries "generatedAt" r.moment
    rules := ← required entries "rules" (r.list (Rule.read r))
    metrics := ← defaulted entries "metrics" none (r.option (Metrics.read r)) }

end Contract

end StyleContract
