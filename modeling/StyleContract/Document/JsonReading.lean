import StyleContract.Document.Basic

/-!
# Document — JSON

How typed values are taken from JSON: a record may also be a list of its fields, a whole number
also stands for a float, and a word may also be the only name of an object.
-/

namespace StyleContract.Document

def Found.ofNumber : Json.Number → Found
  | .int n => .int n
  | .float x => .float x

def Found.ofJson : Json → Found
  | .null => .null
  | .bool b => .bool b
  | .num n => .ofNumber n
  | .str s => .str s
  | .arr _ => .sequence
  | .obj _ => .map

/-- A value of another type than expected. -/
def unexpected {α : Type} (v : Json) (expected : String) : Fit α :=
  .error (.type (.ofJson v) expected)

/-- A whole number within bounds. -/
def jsonInt (name : String) (least greatest : Int) : Json → Fit Int
  | .num (.int n) =>
    if least ≤ n ∧ n ≤ greatest then .ok n else .error (.value (.int n) name)
  | v => unexpected v name

def jsonPair (check : Json → Fit Unit) (v : Json) : Fit (Json × Json) :=
  match v with
  | .arr items => do
    (items.take 2).forM check
    match items with
    | [] => .error (.length 0 "a tuple of size 2")
    | [_] => .error (.length 1 "a tuple of size 2")
    | [a, b] => .ok (a, b)
    | _ => .error (.length items.length "fewer elements in array")
  | v => unexpected v "a tuple of size 2"

def jsonRecord (struct : String) (fields : List (FieldRule Json)) : Json → Fit (List (String × Json))
  | .obj members => named fields members
  | .arr items => placed struct fields.length 0 fields items
  | v => unexpected v ("struct " ++ struct)

/-- A word out of some. -/
def wordOf (options : List String) (s : String) : Fit String :=
  if options.contains s then .ok s else .error (.variant s options)

def jsonWord (options : List String) : Json → Fit String
  | .str s => wordOf options s
  | .obj [(s, v)] => do
    let s ← wordOf options s
    if v == .null then .ok s else unexpected v "unit"
  | .obj _ => .error (.value .map "map with a single key")
  | v => unexpected v "string or map"

def json : Reading Json where
  isNull v := .ok (v == .null)
  text
    | .str s => .ok s
    | v => unexpected v "a string"
  bool
    | .bool b => .ok b
    | v => unexpected v "a boolean"
  float
    | .num n => .ok n.toFloat
    | v => unexpected v "f64"
  int := jsonInt
  items
    | .arr items => .ok items
    | v => unexpected v "a sequence"
  pair := jsonPair
  entries
    | .obj members => .ok members
    | v => unexpected v "a map"
  record := jsonRecord
  word := jsonWord
  value v := .ok v.merged

end StyleContract.Document
