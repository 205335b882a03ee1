import StyleContract.Schema.Basic
import StyleContract.Moment.Reader

/-!
# Schema — Check

Checking a value against a schema: all findings, in the order of the schema's document and of
the value's items. A schema document may refer to schemas inside itself; `Schema.Document`
holds them by the text of the reference.
-/

namespace StyleContract.Schema

/-- A demand that concerns strings only. -/
def onString (v : Json) (path : List Json.Step) (ok : String → Bool) (cause : Cause) :
    List Finding :=
  match v with
  | .str s => if ok s then [] else [⟨path, v, cause⟩]
  | _ => []

/-- A demand that concerns lists only. -/
def onItems (v : Json) (path : List Json.Step) (ok : List Json → Bool) (cause : Cause) :
    List Finding :=
  match v with
  | .arr vs => if ok vs then [] else [⟨path, v, cause⟩]
  | _ => []

/-- A demand that concerns numbers only. -/
def onNumber (v : Json) (path : List Json.Step) (ok : Json.Number → Bool) (cause : Cause) :
    List Finding :=
  match v with
  | .num n => if ok n then [] else [⟨path, v, cause⟩]
  | _ => []

/-- The members of a value; none unless it is an object. -/
def membersOf : Json → Json.Members
  | .obj members => members
  | _ => []

/-- The items of a value; none unless it is a list. -/
def itemsOf : Json → List Json
  | .arr vs => vs
  | _ => []

/-- The items of a list with their places, each checked in turn. -/
def eachItem (check : List Json.Step → Json → List Finding) (path : List Json.Step) :
    Nat → List Json → List Finding
  | _, [] => []
  | i, v :: vs => check (path ++ [.item i]) v ++ eachItem check path (i + 1) vs

section

variable (follow : String → List Json.Step → Json → List Finding)

mutual

/-- What is wrong with a value at `path`; `follow` checks against a schema that is referred to. -/
def findings : Schema → List Json.Step → Json → List Finding
  | .always, _, _ => []
  | .never, path, v => [⟨path, v, .forbidden⟩]
  | .reference target, path, v => follow target path v
  | .every demands, path, v => findingsOfAll demands path v
  | .type kinds, path, v => if kinds.any v.hasKind then [] else [⟨path, v, .type kinds⟩]
  | .enum options, path, v => if options.any v.same then [] else [⟨path, v, .enum options⟩]
  | .const value, path, v => if value.same v then [] else [⟨path, v, .const value⟩]
  | .required names, path, v =>
    match v with
    | .obj members =>
      (names.filter fun n => (Json.Members.get? n members).isNone).map
        fun n => ⟨path, v, .required n⟩
    | _ => []
  | .properties known, path, v => findingsOfKnown known path (membersOf v)
  | .closed known, path, v =>
    let unknown := (membersOf v).filter fun m => !(known.any (·.1 == m.1))
    ((membersOf v).flatMap fun m => findingsOfMember known m.1 (path ++ [.member m.1]) m.2) ++
      if unknown.isEmpty then [] else [⟨path, v, .additional (unknown.map (·.1))⟩]
  | .memberless, path, v =>
    match membersOf v with
    | [] => []
    | m :: _ => [⟨path, m.2, .forbidden⟩]
  | .others known other, path, v =>
    (membersOf v).flatMap fun m =>
      if known.any (·.1 == m.1) then findingsOfMember known m.1 (path ++ [.member m.1]) m.2
      else findings other (path ++ [.member m.1]) m.2
  | .items item, path, v => eachItem (findings item) path 0 (itemsOf v)
  | .tuple schemas, path, v => findingsOfTuple schemas path 0 (itemsOf v)
  | .minLength least, path, v => onString v path (least ≤ ·.length) (.minLength least)
  | .pattern source p, path, v => onString v path p.occursIn (.pattern source)
  | .minItems least, path, v => onItems v path (least ≤ ·.length) (.minItems least)
  | .maxItems most, path, v => onItems v path (·.length ≤ most) (.maxItems most)
  | .minimum limit, path, v => onNumber v path (!·.lt limit) (.minimum limit)
  | .maximum limit, path, v => onNumber v path (!limit.lt ·) (.maximum limit)
  | .dateTime, path, v => onString v path Moment.isStrictText .dateTime
  | .oneOf schemas, path, v =>
    match countValid schemas path v with
    | 0 => [⟨path, v, .noneOf⟩]
    | 1 => []
    | _ => [⟨path, v, .manyOf⟩]

def findingsOfAll : List Schema → List Json.Step → Json → List Finding
  | [], _, _ => []
  | s :: ss, path, v => findings s path v ++ findingsOfAll ss path v

/-- The findings of the members that are known, in the order of the schema. -/
def findingsOfKnown : List (String × Schema) → List Json.Step → Json.Members → List Finding
  | [], _, _ => []
  | (name, s) :: rest, path, members =>
    (match Json.Members.get? name members with
      | some v => findings s (path ++ [.member name]) v
      | none => []) ++ findingsOfKnown rest path members

/-- The findings of one member, by the schema of its name. -/
def findingsOfMember : List (String × Schema) → String → List Json.Step → Json → List Finding
  | [], _, _, _ => []
  | (name, s) :: rest, key, path, v =>
    if name = key then findings s path v else findingsOfMember rest key path v

def findingsOfTuple : List Schema → List Json.Step → Nat → List Json → List Finding
  | s :: ss, path, i, v :: vs =>
    findings s (path ++ [.item i]) v ++ findingsOfTuple ss path (i + 1) vs
  | _, _, _, _ => []

def countValid : List Schema → List Json.Step → Json → Nat
  | [], _, _ => 0
  | s :: ss, path, v =>
    (if (findings s path v).isEmpty then 1 else 0) + countValid ss path v

end

end

/-- A schema with the schemas that its references name. -/
structure Document where
  root : Schema
  targets : List (String × Schema)

def Document.target? (doc : Document) (name : String) : Option Schema :=
  (doc.targets.find? (·.1 == name)).map (·.2)

/-- What is wrong with a value, for at most `hops` references in a row. -/
def Document.findingsWithin (doc : Document) :
    Nat → Schema → List Json.Step → Json → List Finding
  | 0 => findings fun _ _ _ => []
  | hops + 1 => findings fun name path v =>
    match doc.target? name with
    | some s => doc.findingsWithin hops s path v
    | none => []

mutual

/-- The number of containers around the innermost value. -/
def depth : Json → Nat
  | .arr vs => 1 + depthOfItems vs
  | .obj members => 1 + depthOfMembers members
  | _ => 0

def depthOfItems : List Json → Nat
  | [] => 0
  | v :: vs => max (depth v) (depthOfItems vs)

def depthOfMembers : List (String × Json) → Nat
  | [] => 0
  | (_, v) :: rest => max (depth v) (depthOfMembers rest)

end

/-- What is wrong with a value. Between two steps into the value each reference is followed once
at most, unless references go in a circle. -/
def Document.check (doc : Document) (v : Json) : List Finding :=
  doc.findingsWithin ((depth v + 1) * (doc.targets.length + 1)) doc.root [] v

/-- Whether a value meets the schema. -/
def Document.accepts (doc : Document) (v : Json) : Bool := (doc.check v).isEmpty

end StyleContract.Schema
