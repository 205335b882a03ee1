import StyleContract.Contract.Builder
import StyleContract.Document.YamlReading
import StyleContract.Files.Write
import StyleContract.Yaml.Printer

/-!
# Store

Contracts in files, as YAML or JSON by the extension of the file. A file is replaced as a whole:
its new content is complete before it takes the place of the old one. What is read back has to be
accepted by the schema again.
-/

namespace StyleContract

open Document

inductive Codec where
  | yaml
  | json
  deriving DecidableEq, Repr

namespace Codec

def name : Codec → String
  | .yaml => "yaml"
  | .json => "json"

/-- JSON for the extension `json` in any letter case, else YAML. -/
def ofPath (path : String) : Codec :=
  if Path.lowerExtension? path = some "json" then .json else .yaml

def encode (c : Contract) : Codec → String
  | .yaml => Yaml.print c.toJson
  | .json => c.toJson.pretty ++ "\n"

/-- Reads a contract; an object that has a member twice does not fit. -/
def decodeJson (text : String) : Except Error Contract :=
  match Json.readRaw text with
  | .error _ => .error (.ofJson "malformed text")
  | .ok v =>
    match Contract.read Document.json v with
    | .ok c => .ok c
    | .error misfit => .error (.ofJson misfit.message)

/-- Reads a contract; a text without a document is one that is left out. -/
def decodeYaml (text : String) : Except Error Contract :=
  match Yaml.Node.ofText? text with
  | none => .error (.ofYaml "malformed text")
  | some n =>
    match Contract.read Document.yaml (n.getD .empty) with
    | .ok c => .ok c
    | .error misfit => .error (.ofYaml misfit.message)

def decode (text : String) : Codec → Except Error Contract
  | .yaml => decodeYaml text
  | .json => decodeJson text

end Codec

namespace Entry

/-- The directory that a file lies in. -/
def folderOf (path : String) : String :=
  match Path.parent? path with
  | some above => if above.isEmpty then "." else above
  | none => "."

/-- Puts a file with the given text at a path and makes the directories above it, which stay if the
file cannot be put there. -/
def writeText (tree : Entry) (path text : String) : Change Error :=
  let folder := folderOf path
  ((makeFolders tree (Path.steps folder).reverse).mapError
      (.ofFile "Failed to create directory" folder)).andThen fun tree =>
    (Change.step tree (replace tree path text.toUTF8)).mapError (.ofFile "Failed to write" path)

end Entry

/-- A file that a contract is kept in. -/
structure Store where
  path : String
  codec : Codec
  deriving DecidableEq, Repr

namespace Store

def ofPath (path : String) : Store := ⟨path, Codec.ofPath path⟩

/-- Puts a contract in place of what the file holds. -/
def persist (s : Store) (tree : Entry) (c : Contract) : Change Error :=
  tree.writeText s.path (s.codec.encode c)

/-- The contract of the file, if the schema accepts it. -/
def load (s : Store) (tree : Entry) (schema : ContractSchema) : Except Error Contract := do
  let text ← match tree.readText s.path with
    | .ok text => .ok text
    | .error e => .error (.ofFile "Failed to read contract" s.path e)
  let c ← s.codec.decode text
  schema.accept c
  .ok c

end Store

end StyleContract
