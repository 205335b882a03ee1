import StyleContract.Json.Printer
import StyleContract.Pattern.Search

/-!
# Schema — Basic

Schemas for JSON values, and what is found wrong with a value. A schema lists its demands in the
order of its document, so that findings come in that order too.
-/

namespace StyleContract

/-- One step from a value to a part of it. -/
inductive Json.Step where
  | member (name : String)
  | item (index : Nat)
  deriving DecidableEq, Repr

/-- The steps as a JSON pointer. -/
def Json.pointer (steps : List Json.Step) : String :=
  let escape (c : Char) : List Char :=
    if c = '~' then ['~', '0'] else if c = '/' then ['~', '1'] else [c]
  String.join (steps.map fun
    | .member name => "/" ++ String.ofList (name.toList.flatMap escape)
    | .item index => "/" ++ toString index)

/-- The kinds of values that a schema can tell apart. -/
inductive Json.Kind where
  | null
  | boolean
  | integer
  | number
  | string
  | array
  | object
  deriving DecidableEq, Repr

def Json.Kind.name : Json.Kind → String
  | .null => "null"
  | .boolean => "boolean"
  | .integer => "integer"
  | .number => "number"
  | .string => "string"
  | .array => "array"
  | .object => "object"

/-- A float that stands for a whole number is an integer too. -/
def Json.Number.isWhole : Json.Number → Bool
  | .int _ => true
  | .float x =>
    match Decimal.Magnitude.of x with
    | .finite _ n d => n % d == 0
    | _ => false

def Json.hasKind : Json → Json.Kind → Bool
  | .null, .null => true
  | .bool _, .boolean => true
  | .num n, .integer => n.isWhole
  | .num _, .number => true
  | .str _, .string => true
  | .arr _, .array => true
  | .obj _, .object => true
  | _, _ => false

/-- Order of numbers by value: whole numbers exactly, others as floats. -/
def Json.Number.lt : Json.Number → Json.Number → Bool
  | .int a, .int b => a < b
  | a, b => a.toFloat < b.toFloat

mutual

/-- Equality of values as schemas see it: numbers by value, members in any order. -/
def Json.same : Json → Json → Bool
  | .null, .null => true
  | .bool a, .bool b => a == b
  | .num a, .num b => !a.lt b && !b.lt a
  | .str a, .str b => a == b
  | .arr a, .arr b => Json.sameItems a b
  | .obj a, .obj b => a.length == b.length && Json.sameMembers a b
  | _, _ => false

def Json.sameItems : List Json → List Json → Bool
  | [], [] => true
  | a :: as, b :: bs => a.same b && Json.sameItems as bs
  | _, _ => false

def Json.sameMembers : List (String × Json) → List (String × Json) → Bool
  | [], _ => true
  | (k, a) :: as, bs => (Json.Members.get? k bs).any (a.same ·) && Json.sameMembers as bs

end

/-- What a schema demands of a value. -/
inductive Schema where
  | always
  | never
  | reference (target : String)
  | every (demands : List Schema)
  | type (kinds : List Json.Kind)
  | enum (options : List Json)
  | const (value : Json)
  | required (names : List String)
  | properties (known : List (String × Schema))
  /-- Known members are checked, and there are no others. -/
  | closed (known : List (String × Schema))
  /-- There are no members at all. -/
  | memberless
  /-- Known members are checked, and all others by one schema. -/
  | others (known : List (String × Schema)) (other : Schema)
  | items (item : Schema)
  | tuple (schemas : List Schema)
  | minLength (least : Nat)
  | pattern (source : String) (p : Pattern)
  | minItems (least : Nat)
  | maxItems (most : Nat)
  | minimum (limit : Json.Number)
  | maximum (limit : Json.Number)
  | dateTime
  | oneOf (schemas : List Schema)
  deriving Inhabited

namespace Schema

/-- Why a value fails a demand. -/
inductive Cause where
  | type (kinds : List Json.Kind)
  | enum (options : List Json)
  | const (value : Json)
  | required (name : String)
  | additional (names : List String)
  | minLength (least : Nat)
  | pattern (source : String)
  | minItems (least : Nat)
  | maxItems (most : Nat)
  | minimum (limit : Json.Number)
  | maximum (limit : Json.Number)
  | dateTime
  | noneOf
  | manyOf
  | forbidden
  deriving DecidableEq

/-- One fault of a value: where it is, the part that is at fault, and why. -/
structure Finding where
  path : List Json.Step
  value : Json
  cause : Cause
  deriving DecidableEq

def counted (n : Nat) (one many : String) : String :=
  toString n ++ " " ++ (if n = 1 then one else many)

/-- Options in a sentence: all of them up to three, else two and the number of the rest. -/
def optionsText (options : List Json) : String :=
  let texts := options.map Json.compact
  if 3 < texts.length then
    String.intercalate ", " (texts.take 2) ++ " or " ++ toString (texts.length - 2) ++
      " other candidates"
  else
    match texts.reverse with
    | [] => ""
    | [t] => t
    | last :: before => String.intercalate ", " before.reverse ++ " or " ++ last

/-- The sentence for a value `v` that fails. -/
def Cause.message (v : Json) : Cause → String
  | .type [kind] => v.compact ++ " is not of type " ++ Json.quote kind.name
  | .type kinds =>
    v.compact ++ " is not of types " ++
      String.intercalate ", " (kinds.map fun k => Json.quote k.name)
  | .enum options => v.compact ++ " is not one of " ++ optionsText options
  | .const value => value.compact ++ " was expected"
  | .required name => Json.quote name ++ " is a required property"
  | .additional names =>
    "Additional properties are not allowed (" ++
      String.intercalate ", " (names.map fun n => "'" ++ n ++ "'") ++
      (if names.length = 1 then " was unexpected)" else " were unexpected)")
  | .minLength least =>
    v.compact ++ " is shorter than " ++ counted least "character" "characters"
  | .pattern source => v.compact ++ " does not match " ++ Json.quote source
  | .minItems least => v.compact ++ " has less than " ++ counted least "item" "items"
  | .maxItems most => v.compact ++ " has more than " ++ counted most "item" "items"
  | .minimum limit => v.compact ++ " is less than the minimum of " ++ limit.render
  | .maximum limit => v.compact ++ " is greater than the maximum of " ++ limit.render
  | .dateTime => v.compact ++ " is not a \"date-time\""
  | .noneOf => v.compact ++ " is not valid under any of the schemas listed in the 'oneOf' keyword"
  | .manyOf =>
    v.compact ++ " is valid under more than one of the schemas listed in the 'oneOf' keyword"
  | .forbidden => "False schema does not allow " ++ v.compact

def Finding.message (f : Finding) : String := f.cause.message f.value

end Schema

end StyleContract
