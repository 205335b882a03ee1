import StyleContract.Document.JsonReading
import StyleContract.Power
import StyleContract.Yaml.Core

/-!
# Document — YAML

How typed values are taken from YAML nodes: any scalar is a text, a number has to be a plain
scalar, what is left out is an empty list, and a record has to be a mapping.
-/

namespace StyleContract.Document

open Yaml (Node Core Style)

def Found.ofNode : Node → Found
  | .scalar _ _ text => .str text
  | .sequence .. => .sequence
  | .mapping .. => .map

/-- A node of another type than expected. -/
def unexpectedNode {α : Type} (n : Node) (expected : String) : Fit α :=
  .error (.type (.ofNode n) expected)

def nodeText : Node → Fit String
  | .scalar _ _ text => .ok text
  | n => unexpectedNode n "a string"

/-- The text of a scalar that may stand for a number: a plain one, or a literal one whose tag
says so. -/
def numeralText? (kind : String) : Node → Option (List Char)
  | .scalar tag style text =>
    if style = .plain ∨ (style = .literal ∧ tag = some (Yaml.coreTag kind)) then some text.toList
    else none
  | _ => none

def nodeInt (name : String) (least greatest : Int) (n : Node) : Fit Int :=
  match (numeralText? "int" n).bind Core.int? with
  | some i => if least ≤ i ∧ i ≤ greatest then .ok i else .error (.value (.int i) name)
  | none => unexpectedNode n name

def nodeFloat (n : Node) : Fit Float :=
  match (numeralText? "float" n).bind Core.float? with
  | some x => .ok x
  | none => unexpectedNode n "f64"

def nodeBool (n : Node) : Fit Bool :=
  match (numeralText? "bool" n).bind fun cs => Core.bool? (String.ofList cs) with
  | some b => .ok b
  | none => unexpectedNode n "a boolean"

/-- Whether a node stands for nothing. A tag that says so has to be right. -/
def nodeIsNull : Node → Fit Bool
  | .scalar tag .plain text =>
    match tag with
    | none => .ok (text.isEmpty || Core.isNullWord text)
    | some t =>
      if t = Yaml.coreTag "null" then
        if Core.isNullWord text then .ok true else .error (.value (.str text) "null")
      else .ok false
  | _ => .ok false

/-- Whether a node is left out. -/
def isLeftOut : Node → Bool
  | .scalar _ .plain text => text.isEmpty
  | _ => false

def nodeItems (n : Node) : Fit (List Node) :=
  match n with
  | .sequence _ items => .ok items
  | n => if isLeftOut n then .ok [] else unexpectedNode n "a sequence"

def nodeEntries (expected : String) (n : Node) : Fit (List (String × Node)) :=
  match n with
  | .mapping _ entries => entries.mapM fun (k, v) => (nodeText k).map (·, v)
  | n => if isLeftOut n then .ok [] else unexpectedNode n expected

def nodePair (check : Node → Fit Unit) (n : Node) : Fit (Node × Node) := do
  match ← nodeItems n with
  | [a, b] =>
    check a
    check b
    .ok (a, b)
  | items => .error (.length items.length "a tuple of size 2")

/-- A word is a scalar's text, or the tag of the document's own on a scalar that says nothing. -/
def nodeWord (options : List String) : Node → Fit String
  | .scalar tag style text =>
    match Yaml.ownTag? tag with
    | none => wordOf options text
    | some name =>
      if style = .plain ∧ (text.isEmpty ∨ Core.isNullWord text) then wordOf options name
      else unexpectedNode (.scalar tag style text) "a word"
  | n => unexpectedNode n "a word"

/-- What a scalar is among JSON values; it has no tag of the document's own. -/
def scalarValue (tag : Option String) (style : Style) (text : String) : Fit Json :=
  let misfit : Fit Json := unexpectedNode (.scalar tag style text) "any valid JSON value"
  match Core.ofScalar? tag style text with
  | some .null => .ok .null
  | some (.bool b) => .ok (.bool b)
  | some (.int n) => if -(twoTo 63 : Int) ≤ n ∧ n < twoTo 64 then .ok (.num (.int n)) else misfit
  | some (.float x) => .ok (Json.ofFloat x)
  | some (.text s) => .ok (.str s)
  | none => misfit

mutual

def nodeValue : Node → Fit Json
  | .scalar tag style text =>
    if (Yaml.ownTag? tag).isSome then unexpectedNode (.scalar tag style text) "any valid JSON value"
    else scalarValue tag style text
  | .sequence tag items =>
    if (Yaml.ownTag? tag).isSome then .error (.type .sequence "any valid JSON value")
    else (nodeValues items).map .arr
  | .mapping tag entries =>
    if (Yaml.ownTag? tag).isSome then .error (.type .map "any valid JSON value")
    else (nodeMembers entries).map fun ms => .obj (Json.Members.merged ms)

def nodeValues : List Node → Fit (List Json)
  | [] => .ok []
  | n :: ns => do .ok ((← nodeValue n) :: (← nodeValues ns))

def nodeMembers : List (Node × Node) → Fit Json.Members
  | [] => .ok []
  | (k, v) :: rest => do .ok ((← nodeText k, ← nodeValue v) :: (← nodeMembers rest))

end

def yaml : Reading Node where
  isNull := nodeIsNull
  text := nodeText
  bool := nodeBool
  float := nodeFloat
  int := nodeInt
  items := nodeItems
  pair := nodePair
  entries := nodeEntries "a map"
  record struct fields n := do named fields (← nodeEntries ("struct " ++ struct) n)
  word := nodeWord
  value := nodeValue

end StyleContract.Document
