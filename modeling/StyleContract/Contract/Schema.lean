import StyleContract.Contract.Document
import StyleContract.Error
import StyleContract.Json.Reader
import StyleContract.Schema.Reader

/-!
# Contract — Schema

The schema that contracts have to meet. The one that comes with the library is a document here;
another one can be read from a file.
-/

namespace StyleContract

namespace ContractSchema

def nonEmptyText : Json := .obj [("type", .str "string"), ("minLength", Json.ofNat 1)]

def plainText : Json := .obj [("type", .str "string")]

/-- An object with these members and no others. -/
def closedObject (needed : List String) (properties : Json.Members) : Json :=
  .obj [("type", .str "object"), ("additionalProperties", .bool false),
    ("required", Json.ofStrings needed), ("properties", .obj properties)]

def listOf (item : Json) (limits : Json.Members := []) : Json :=
  .obj ([("type", .str "array"), ("items", item)] ++ limits)

def referenceTo (name : String) : Json := .obj [("$ref", .str ("#/definitions/" ++ name))]

def atLeastOne : Json.Members := [("minItems", Json.ofNat 1)]

def evidenceDocument : Json :=
  closedObject ["path", "lines", "snippetHash"]
    [("path", nonEmptyText),
      ("lines", listOf (.obj [("type", .str "integer"), ("minimum", Json.ofNat 0)])
        [("minItems", Json.ofNat 2), ("maxItems", Json.ofNat 2)]),
      ("snippetHash", nonEmptyText)]

def autofixDocument : Json :=
  .obj [("oneOf", .arr [.obj [("type", .str "null")],
    closedObject ["kind", "details"] [("kind", nonEmptyText), ("details", nonEmptyText)]])]

def ruleDocument : Json :=
  closedObject
    ["id", "title", "statement", "scope", "languages", "severity", "confidence", "evidence"]
    [("id", .obj [("type", .str "string"), ("pattern", .str "^[A-Za-z0-9][A-Za-z0-9_-]*$")]),
      ("title", nonEmptyText), ("statement", nonEmptyText), ("rationale", plainText),
      ("scope", listOf nonEmptyText atLeastOne), ("languages", listOf plainText),
      ("severity", .obj [("enum", Json.ofStrings Severity.names)]),
      ("confidence", .obj [("type", .str "number"), ("minimum", Json.ofNat 0),
        ("maximum", Json.ofNat 1)]),
      ("evidence", listOf (referenceTo "evidence") atLeastOne), ("autofix", autofixDocument),
      ("relatedRules", listOf plainText)]

/-- The schema that comes with the library. -/
def document : Json :=
  .obj ([("$schema", .str "http://json-schema.org/draft-07/schema#"),
      ("$id", .str "https://repostyle.dev/schema/contract-1.0.json"),
      ("title", .str "repostyle contract")] ++
    (closedObject ["schemaVersion", "repo", "generatedAt", "rules"]
      [("schemaVersion", .obj [("const", .str Contract.currentVersion)]),
        ("repo", closedObject ["sha"] [("remote", nonEmptyText), ("sha", nonEmptyText)]),
        ("generatedAt", .obj [("type", .str "string"), ("format", .str "date-time"),
          ("minLength", Json.ofNat 1)]),
        ("rules", listOf (referenceTo "rule")),
        ("metrics", .obj [("type", .str "object")])]).members?.getD [] ++
    [("definitions", .obj [("evidence", evidenceDocument), ("rule", ruleDocument)])])

/-- The text of the schema that comes with the library. -/
def documentText : String := document.document ++ "\n"

end ContractSchema

/-- A schema for contracts and where it comes from. -/
structure ContractSchema where
  source : String
  schema : Schema.Document

namespace ContractSchema

/-- Takes a schema from its document. -/
def ofDocument (source : String) (document : Json) : Except Error ContractSchema :=
  match Schema.Document.ofJson? document with
  | some schema => .ok ⟨source, schema⟩
  | none => .error (.schema "Cannot compile schema: not a draft 7 schema")

/-- The schema that comes with the library. -/
def bundled : Except Error ContractSchema := ofDocument "bundled" document

/-- Takes a schema from a text. -/
def ofText (source text : String) : Except Error ContractSchema :=
  match Json.read text with
  | .ok document => ofDocument source document
  | .error _ => .error (.schema "Invalid schema JSON: malformed text")

/-- Takes a schema from a file. -/
def load (tree : Entry) (path : String) : Except Error ContractSchema :=
  match tree.readText path with
  | .ok text => ofText path text
  | .error e => .error (.ofFile "Failed to read schema file" path e)

/-- Every breach of the schema in a value. -/
def check (s : ContractSchema) (v : Json) : List Violation :=
  (s.schema.check v).map Violation.ofFinding

end ContractSchema

end StyleContract
