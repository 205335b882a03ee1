import StyleContract.Schema.Check
import StyleContract.Pattern.Reader

/-!
# Schema — Reader

From a JSON document to a schema, in the vocabulary of draft 7. A document is refused when a
keyword has a value that the vocabulary does not allow, when a pattern cannot be read, or when
a reference leads nowhere. Keywords that only describe, and those whose demands are not part of
`Schema`, are checked for their form alone.
-/

namespace StyleContract.Schema

def kind? (name : String) : Option Json.Kind :=
  [Json.Kind.null, .boolean, .integer, .number, .string, .array, .object].find? (·.name == name)

/-- A whole number from zero on, written in any way. -/
def natural? : Json → Option Nat
  | .num (.int n) => if 0 ≤ n then some n.toNat else none
  | .num (.float x) =>
    match Decimal.Magnitude.of x with
    | .finite negative n d =>
      if n % d = 0 ∧ (n = 0 ∨ ¬ negative) then some (n / d) else none
    | _ => none
  | _ => none

def distinct (names : List String) : Bool := names.eraseDups.length == names.length

/-- A list of distinct strings. -/
def names? (v : Json) : Option (List String) := do
  let names ← (← v.items?).mapM Json.str?
  if distinct names then some names else none

/-- One kind, or a list of distinct kinds. -/
def kinds? (v : Json) : Option (List Json.Kind) :=
  match v with
  | .str s => (kind? s).map ([·])
  | v => do
    let names ← names? v
    if names.isEmpty then none
    names.mapM kind?

/-- Keywords whose value must be a string. -/
def textKeywords : List String :=
  ["$id", "$schema", "$ref", "$comment", "title", "description", "format", "contentMediaType",
    "contentEncoding"]

/-- Keywords whose value must be a whole number from zero on. -/
def countKeywords : List String :=
  ["maxLength", "minLength", "maxItems", "minItems", "maxProperties", "minProperties"]

/-- Keywords whose value must be a number. -/
def numberKeywords : List String :=
  ["maximum", "exclusiveMaximum", "minimum", "exclusiveMinimum"]

/-- Keywords whose value must be a truth value. -/
def flagKeywords : List String := ["readOnly", "uniqueItems"]

/-- Keywords whose value must be a schema. -/
def schemaKeywords : List String :=
  ["additionalItems", "contains", "additionalProperties", "propertyNames", "if", "then", "else",
    "not"]

/-- Keywords whose value must be a list of schemas. -/
def listKeywords : List String := ["allOf", "anyOf", "oneOf"]

/-- Keywords whose value must be an object of schemas. -/
def tableKeywords : List String := ["definitions", "properties", "patternProperties"]

/-- The demand of a keyword that holds no schema; `every []` for one that demands nothing. -/
def plainDemand? (name : String) (v : Json) : Option Schema :=
  if name ∈ textKeywords then do
    let s ← v.str?
    some (if name = "format" ∧ s = "date-time" then .dateTime else .every [])
  else if name ∈ countKeywords then do
    let n ← natural? v
    some (if name = "minLength" then .minLength n
      else if name = "minItems" then .minItems n
      else if name = "maxItems" then .maxItems n
      else .every [])
  else if name ∈ numberKeywords then
    match v with
    | .num n =>
      some (if name = "minimum" then .minimum n
        else if name = "maximum" then .maximum n
        else .every [])
    | _ => none
  else if name ∈ flagKeywords then v.bool?.map fun _ => .every []
  else if name = "multipleOf" then
    match v with
    | .num n => if (Json.Number.int 0).lt n then some (.every []) else none
    | _ => none
  else if name = "type" then (kinds? v).map .type
  else if name = "enum" then v.items?.map .enum
  else if name = "const" then some (.const v)
  else if name = "required" then (names? v).map .required
  else if name = "pattern" then do
    let s ← v.str?
    (Pattern.ofString? s).map (.pattern s)
  else if name = "examples" then v.items?.map fun _ => .every []
  else some (.every [])

/-- Whether the `additionalProperties` keyword also checks the known members. -/
def coversKnown (members : Json.Members) : Bool :=
  match Json.Members.get? "additionalProperties" members with
  | some (.bool false) | some (.obj _) => true
  | _ => false

mutual

/-- The schema that a value describes. -/
def ofJson? : Json → Option Schema
  | .bool true => some .always
  | .bool false => some .never
  | .obj members => do
    let known ← knownOf? members
    let demands ← demandsOf? (coversKnown members) known members
    match Json.Members.get? "$ref" members with
    | some (.str target) => some (.reference target)
    | _ => some (.every demands)
  | _ => none

/-- The schemas of the members that the `properties` keyword names, if it is there. -/
def knownOf? : List (String × Json) → Option (Option (List (String × Schema)))
  | [] => some none
  | (name, v) :: rest =>
    if name = "properties" then (tableOf? v).map some else knownOf? rest

/-- The demands of the keywords, in order; `covered` says that known members are checked together
with the others. -/
def demandsOf? (covered : Bool) (known : Option (List (String × Schema))) :
    List (String × Json) → Option (List Schema)
  | [] => some []
  | (name, v) :: rest => do
    let demand ←
      if name = "additionalProperties" then do
        let other ← ofJson? v
        some (match other, known with
          | .always, _ => .every []
          | .never, some known => .closed known
          | .never, none => .memberless
          | other, known => .others (known.getD []) other)
      else if name = "properties" then
        some (if covered then .every [] else .properties (known.getD []))
      else if name ∈ tableKeywords then (tableOf? v).map fun _ => .every []
      else if name ∈ schemaKeywords then (ofJson? v).map fun _ => .every []
      else if name ∈ listKeywords then do
        let schemas ← listOf? v
        if schemas.isEmpty then none
        some (if name = "oneOf" then .oneOf schemas else .every [])
      else if name = "items" then
        match v with
        | .arr (w :: ws) => (itemsOf? (w :: ws)).map .tuple
        | v => (ofJson? v).map .items
      else if name = "dependencies" then (dependenciesOf? v).map fun _ => .every []
      else plainDemand? name v
    let demands ← demandsOf? covered known rest
    some (demand :: demands)

/-- A list of schemas. -/
def listOf? : Json → Option (List Schema)
  | .arr vs => itemsOf? vs
  | _ => none

def itemsOf? : List Json → Option (List Schema)
  | [] => some []
  | v :: vs => do
    let s ← ofJson? v
    let ss ← itemsOf? vs
    some (s :: ss)

/-- An object of schemas. -/
def tableOf? : Json → Option (List (String × Schema))
  | .obj members => entriesOf? members
  | _ => none

def entriesOf? : List (String × Json) → Option (List (String × Schema))
  | [] => some []
  | (name, v) :: rest => do
    let s ← ofJson? v
    let ss ← entriesOf? rest
    some ((name, s) :: ss)

/-- An object of schemas and lists of names. -/
def dependenciesOf? : Json → Option Unit
  | .obj members => dependencyEntriesOf? members
  | _ => none

def dependencyEntriesOf? : List (String × Json) → Option Unit
  | [] => some ()
  | (_, v) :: rest => do
    match v with
    | .arr vs => let _ ← names? (.arr vs)
    | v => let _ ← ofJson? v
    dependencyEntriesOf? rest

end

mutual

/-- The references in a schema. -/
def references : Schema → List String
  | .reference target => [target]
  | .every demands => referencesOfAll demands
  | .properties known => referencesOfTable known
  | .closed known => referencesOfTable known
  | .others known other => referencesOfTable known ++ references other
  | .items item => references item
  | .tuple schemas => referencesOfAll schemas
  | .oneOf schemas => referencesOfAll schemas
  | _ => []

def referencesOfAll : List Schema → List String
  | [] => []
  | s :: ss => references s ++ referencesOfAll ss

def referencesOfTable : List (String × Schema) → List String
  | [] => []
  | (_, s) :: rest => references s ++ referencesOfTable rest

end

/-- Splits at a character. -/
def splitAt (c : Char) (cs : List Char) : List (List Char) :=
  cs.foldr (fun d acc =>
    if d = c then [] :: acc
    else match acc with
      | part :: parts => (d :: part) :: parts
      | [] => [[d]]) [[]]

/-- A step of a pointer without its escapes. -/
def unescape : List Char → List Char
  | '~' :: '1' :: cs => '/' :: unescape cs
  | '~' :: '0' :: cs => '~' :: unescape cs
  | c :: cs => c :: unescape cs
  | [] => []

/-- Follows the steps of a pointer. -/
def follow? (v : Json) : List (List Char) → Option Json
  | [] => some v
  | step :: steps =>
    match v with
    | .obj members => do follow? (← Json.Members.get? (String.ofList (unescape step)) members) steps
    | .arr vs => do
      if step.isEmpty ∨ ¬ step.all Char.isDigit then none
      let index := step.foldl (fun n d => n * 10 + (d.toNat - 48)) 0
      follow? (← vs[index]?) steps
    | _ => none

/-- The identifier that a document gives itself, without a fragment. -/
def selfName (document : Json) : List Char :=
  ((document.get "$id").str?.getD "").toList.takeWhile (· != '#')

/-- The part of a document that a reference names. -/
def resolve? (document : Json) (target : String) : Option Json :=
  let cs := target.toList
  let self := selfName document
  let fragment :=
    if !self.isEmpty && self.isPrefixOf cs then cs.drop self.length else cs
  match fragment with
  | [] | ['#'] => some document
  | '#' :: '/' :: path => follow? document (splitAt '/' path)
  | _ => none

/-- Reads the schemas that references name, and those that they refer to in turn. -/
def targetsOf? (document : Json) :
    Nat → List String → List (String × Schema) → Option (List (String × Schema))
  | 0, _, done => some done
  | _ + 1, [], done => some done
  | fuel + 1, name :: names, done =>
    if done.any (·.1 == name) then targetsOf? document fuel names done
    else do
      let s ← ofJson? (← resolve? document name)
      targetsOf? document fuel (references s ++ names) ((name, s) :: done)

/-- The number of references in a document, as a bound for reading them. -/
def Document.ofJson? (document : Json) : Option Document := do
  let root ← Schema.ofJson? document
  let size := document.compact.length + 1
  let bound := size * size
  let targets ← targetsOf? document bound (references root) []
  some ⟨root, targets.reverse⟩

end StyleContract.Schema
