import StyleContract.Json.Printer
import StyleContract.Moment.Reader
import StyleContract.Power
import StyleContract.Text.Quoted

/-!
# Document — Basic

Reading typed values from documents. A `Reading` says how the leaves, lists and records of one
kind of document are taken; the readers of whole types are written once over any `Reading`.
A record's fields are checked in the order in which the document gives them, and only then are
missing ones reported, in the order of the type.
-/

namespace StyleContract.Document

/-- What a document holds where something else was expected. -/
inductive Found where
  | null
  | bool (b : Bool)
  | int (n : Int)
  | float (x : Float)
  | str (s : String)
  | sequence
  | map
  deriving DecidableEq, Repr

def Found.text : Found → String
  | .null => "null"
  | .bool b => "boolean " ++ Text.ticked (Json.boolText b)
  | .int n => "integer " ++ Text.ticked (toString n)
  | .float x => "floating point " ++ Text.ticked (Json.numberLayout.render x)
  | .str s => "string " ++ Text.quoted s
  | .sequence => "sequence"
  | .map => "map"

/-- Why a document does not fit a type. -/
inductive Misfit where
  | type (found : Found) (expected : String)
  | value (found : Found) (expected : String)
  | length (length : Nat) (expected : String)
  | missing (field : String)
  | duplicate (field : String)
  | unknownField (field : String)
  | variant (name : String) (options : List String)
  | moment (error : Moment.ReadError)
  deriving DecidableEq

/-- The options of an enumeration in a sentence. -/
def optionsText : List String → String
  | [a, b] => "expected " ++ Text.ticked a ++ " or " ++ Text.ticked b
  | options => "expected one of " ++ String.intercalate ", " (options.map Text.ticked)

def Misfit.message : Misfit → String
  | .type found expected => "invalid type: " ++ found.text ++ ", expected " ++ expected
  | .value found expected => "invalid value: " ++ found.text ++ ", expected " ++ expected
  | .length n expected => "invalid length " ++ toString n ++ ", expected " ++ expected
  | .missing field => "missing field " ++ Text.ticked field
  | .duplicate field => "duplicate field " ++ Text.ticked field
  | .unknownField field => "unknown field " ++ Text.ticked field
  | .variant name options => "unknown variant " ++ Text.ticked name ++ ", " ++ optionsText options
  | .moment error => error.message

abbrev Fit (α : Type) := Except Misfit α

/-- One field of a record type. -/
structure FieldRule (V : Type) where
  name : String
  /-- Whether a record without the field fits. -/
  optional : Bool := false
  /-- Whether a list that ends before the field fits. -/
  trailing : Bool := false
  check : V → Fit Unit

/-- How one kind of document is read. -/
structure Reading (V : Type) where
  /-- Whether a value stands for nothing. -/
  isNull : V → Fit Bool
  text : V → Fit String
  bool : V → Fit Bool
  float : V → Fit Float
  /-- A whole number within bounds, for the name of the bounds. -/
  int : (name : String) → (least greatest : Int) → V → Fit Int
  items : V → Fit (List V)
  /-- A list of exactly two, whose items are checked before their number. -/
  pair : (V → Fit Unit) → V → Fit (V × V)
  /-- The entries of a map with free names. -/
  entries : V → Fit (List (String × V))
  /-- The entries of a record: by name, or by place where the kind of document allows it. -/
  record : (struct : String) → List (FieldRule V) → V → Fit (List (String × V))
  /-- A word out of some. -/
  word : List String → V → Fit String
  value : V → Fit Json

section

variable {V : Type}

/-- Checks entries in their order; a field that occurs twice does not fit. -/
def checkEntries (fields : List (FieldRule V)) (seen : List String) :
    List (String × V) → Fit Unit
  | [] => .ok ()
  | (name, v) :: rest =>
    match fields.find? (·.name == name) with
    | none => checkEntries fields seen rest
    | some field =>
      if seen.contains name then .error (.duplicate name)
      else do
        field.check v
        checkEntries fields (name :: seen) rest

/-- Reports the first field that is needed and not there. -/
def checkPresent (fields : List (FieldRule V)) (entries : List (String × V)) : Fit Unit :=
  match fields.find? fun f => !f.optional && !(entries.any (·.1 == f.name)) with
  | some f => .error (.missing f.name)
  | none => .ok ()

/-- The entries of a record given by name. -/
def named (fields : List (FieldRule V)) (entries : List (String × V)) : Fit (List (String × V)) := do
  checkEntries fields [] entries
  checkPresent fields entries
  .ok entries

/-- The entries of a record given by place; `total` fields are expected, `index` are taken. -/
def placed (struct : String) (total : Nat) (index : Nat) :
    List (FieldRule V) → List V → Fit (List (String × V))
  | [], [] => .ok []
  | [], extra => .error (.length (index + extra.length) "fewer elements in array")
  | f :: fs, [] =>
    if f.trailing then placed struct total index fs []
    else .error (.length index
      ("struct " ++ struct ++ " with " ++ toString total ++
        (if total = 1 then " element" else " elements")))
  | f :: fs, v :: vs => do
    f.check v
    let rest ← placed struct total (index + 1) fs vs
    .ok ((f.name, v) :: rest)

/-- The value of a field. -/
def lookup? (name : String) (entries : List (String × V)) : Option V :=
  (entries.find? (·.1 == name)).map (·.2)

/-- A field that has to be there. -/
def required {α : Type} (entries : List (String × V)) (name : String) (read : V → Fit α) :
    Fit α :=
  match lookup? name entries with
  | some v => read v
  | none => .error (.missing name)

/-- A field with a default. -/
def defaulted {α : Type} (entries : List (String × V)) (name : String) (default : α)
    (read : V → Fit α) : Fit α :=
  match lookup? name entries with
  | some v => read v
  | none => .ok default

namespace Reading

variable (r : Reading V)

/-- Null for nothing, or a value. -/
def option {α : Type} (read : V → Fit α) (v : V) : Fit (Option α) :=
  match r.isNull v with
  | .ok true => .ok none
  | .ok false => (read v).map some
  | .error e => .error e

def list {α : Type} (read : V → Fit α) (v : V) : Fit (List α) := do
  (← r.items v).mapM read

def texts : V → Fit (List String) := r.list r.text

def natural32 (v : V) : Fit UInt32 :=
  (r.int "u32" 0 (twoTo 32 - 1) v).map fun n => UInt32.ofNat n.toNat

def natural64 (v : V) : Fit Nat := (r.int "u64" 0 (twoTo 64 - 1) v).map Int.toNat

def integer32 (v : V) : Fit Int := r.int "i32" (-twoTo 31) (twoTo 31 - 1) v

def moment (v : V) : Fit Moment := do
  match Moment.ofText (← r.text v) with
  | .ok m => .ok m
  | .error e => .error (.moment e)

end Reading

/-- A field that has to be there, as part of a record's description. -/
def FieldRule.needed {α : Type} (name : String) (read : V → Fit α) : FieldRule V where
  name := name
  check v := (read v).map fun _ => ()

/-- A field that may be left out. -/
def FieldRule.free {α : Type} (name : String) (read : V → Fit α) : FieldRule V where
  name := name
  optional := true
  trailing := true
  check v := (read v).map fun _ => ()

/-- A field that a record may leave out, but a list may not. -/
def FieldRule.nullable {α : Type} (name : String) (read : V → Fit α) : FieldRule V where
  name := name
  optional := true
  check v := (read v).map fun _ => ()

end

end StyleContract.Document
