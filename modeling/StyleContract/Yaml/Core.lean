import StyleContract.Decimal.Reader
import StyleContract.Power
import StyleContract.Yaml.Node

/-!
# Yaml — Core

What the text of a plain scalar stands for: nothing, a truth value, a whole number in one of four
bases, a number with a point or exponent, or itself. Digits after a leading zero are no number.
-/

namespace StyleContract.Yaml

inductive Core where
  | null
  | bool (b : Bool)
  | int (n : Int)
  | float (x : Float)
  | text (s : String)
  deriving DecidableEq, Repr

namespace Core

def isNullWord (s : String) : Bool := s = "null" ∨ s = "Null" ∨ s = "NULL" ∨ s = "~"

def bool? (s : String) : Option Bool :=
  if s = "true" ∨ s = "True" ∨ s = "TRUE" then some true
  else if s = "false" ∨ s = "False" ∨ s = "FALSE" then some false
  else none

def isSign (c : Char) : Bool := c == '+' || c == '-'

def dropPlus : List Char → List Char
  | '+' :: cs => cs
  | cs => cs

def startsSigned (cs : List Char) : Bool := cs.head?.any isSign

/-- Digits of which the first of several is a zero, after a sign or none. -/
def isZeroLed (cs : List Char) : Bool :=
  match (if startsSigned cs then cs.drop 1 else cs) with
  | '0' :: d :: ds => (d :: ds).all Char.isDigit
  | _ => false

/-- A number after the mark of its base. -/
def marked? (limit : Nat) : List Char → Option Nat
  | '0' :: 'x' :: cs => bounded 16 cs
  | '0' :: 'o' :: cs => bounded 8 cs
  | '0' :: 'b' :: cs => bounded 2 cs
  | _ => none
where
  bounded (base : Nat) (cs : List Char) : Option Nat := (Text.digitsIn? base cs).filter (· ≤ limit)

/-- A whole number up to a limit, after a plus sign or no sign. -/
def natural? (limit : Nat) (cs : List Char) : Option Nat :=
  let body := dropPlus cs
  match marked? limit body with
  | some n => some n
  | none => if isZeroLed cs then none else (Text.digitsIn? 10 body).filter (· ≤ limit)

/-- The size of a whole number up to a limit, after a minus sign. -/
def negated? (limit : Nat) : List Char → Option Nat
  | '-' :: cs =>
    match marked? limit cs with
    | some n => some n
    | none => if isZeroLed cs then none else (Text.digitsIn? 10 cs).filter (· ≤ limit)
  | _ => none

/-- The whole number that a text writes, if 128 bits hold it. -/
def int? (cs : List Char) : Option Int :=
  match natural? (twoTo 128 - 1) cs with
  | some n => some n
  | none => (negated? (twoTo 127) cs).map fun n => -(n : Int)

/-- The number that a text writes; one out of range has to be written as infinite. -/
def float? (cs : List Char) : Option Float :=
  let s := String.ofList cs
  let body := dropPlus cs
  if cs.head? = some '+' ∧ startsSigned body then none
  else if String.ofList body ∈ [".inf", ".Inf", ".INF"] then some (1.0 / 0.0)
  else if s ∈ ["-.inf", "-.Inf", "-.INF"] then some (-1.0 / 0.0)
  else if s ∈ [".nan", ".NaN", ".NAN"] then some (0.0 / 0.0)
  else (Decimal.ofChars? body).filter Float.isFinite

/-- What a plain scalar stands for. -/
def of (s : String) : Core :=
  if s.isEmpty ∨ isNullWord s then .null
  else match bool? s with
    | some b => .bool b
    | none =>
      match int? s.toList with
      | some n => .int n
      | none =>
        if isZeroLed s.toList then .text s
        else match float? s.toList with
          | some x => .float x
          | none => .text s

end Core

/-- The tags that name a kind of scalar. -/
def coreTag (name : String) : String := "tag:yaml.org,2002:" ++ name

/-- A tag of the document's own. -/
def ownTag? (tag : Option String) : Option String :=
  match tag with
  | some t => if t.toList.head? = some '!' then some (String.ofList (t.toList.drop 1)) else none
  | none => none

/-- What a scalar without a tag stands for. -/
def Core.ofStyle (style : Style) (s : String) : Core := if style = .plain then .of s else .text s

/-- What a scalar stands for by its tag and style; a text that its tag does not allow stands for
nothing. A tag of the document's own is not looked at. -/
def Core.ofScalar? (tag : Option String) (style : Style) (s : String) : Option Core :=
  match tag with
  | some t =>
    if t = coreTag "bool" then (bool? s).map .bool
    else if t = coreTag "int" then (int? s.toList).map .int
    else if t = coreTag "float" then (float? s.toList).map .float
    else if t = coreTag "null" then (if isNullWord s then some .null else none)
    else if (ownTag? tag).isSome then some (.ofStyle style s)
    else some (.text s)
  | none => some (.ofStyle style s)

end StyleContract.Yaml
