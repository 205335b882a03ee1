import StyleContract.Power
import StyleContract.Yaml.Core

/-!
# Yaml — Value

The value of a node that nothing is known about. A scalar is what its text stands for; a tag of the
document's own sets a value apart from all plain kinds; no two keys of a mapping are equal.
-/

namespace StyleContract.Yaml

inductive Value where
  | scalar (c : Core)
  | sequence (items : List Value)
  | mapping (entries : List (Value × Value))
  | tagged (tag : String) (value : Value)
  deriving Inhabited

namespace Value

mutual

/-- Equality of values. -/
def same : Value → Value → Bool
  | .scalar a, .scalar b => a == b
  | .sequence a, .sequence b => sameItems a b
  | .mapping a, .mapping b => sameEntries a b
  | .tagged s a, .tagged t b => s == t && same a b
  | _, _ => false

def sameItems : List Value → List Value → Bool
  | [], [] => true
  | a :: as, b :: bs => same a b && sameItems as bs
  | _, _ => false

def sameEntries : List (Value × Value) → List (Value × Value) → Bool
  | [], [] => true
  | (k, a) :: as, (l, b) :: bs => same k l && same a b && sameEntries as bs
  | _, _ => false

end

/-- Whether no two keys are equal. -/
def distinctKeys : List (Value × Value) → Bool
  | [] => true
  | (k, _) :: rest => !rest.any (k.same ·.1) && distinctKeys rest

/-- The value of a scalar, if its whole number fits a machine word. -/
def ofCore : Core → Option Value
  | .int n => if -(twoTo 63 : Int) ≤ n ∧ n < twoTo 64 then some (.scalar (.int n)) else none
  | c => some (.scalar c)

/-- Puts the document's own tag around a value. -/
def under (tag : Option String) (v : Value) : Value :=
  match ownTag? tag with
  | some t => .tagged t v
  | none => v

mutual

def ofNode : Node → Option Value
  | .scalar tag style text => do some (under tag (← ofCore (← Core.ofScalar? tag style text)))
  | .sequence tag items => do some (under tag (.sequence (← ofNodes items)))
  | .mapping tag entries => do
    let entries ← ofEntries entries
    if distinctKeys entries then some (under tag (.mapping entries)) else none

def ofNodes : List Node → Option (List Value)
  | [] => some []
  | n :: ns => do some ((← ofNode n) :: (← ofNodes ns))

def ofEntries : List (Node × Node) → Option (List (Value × Value))
  | [] => some []
  | (k, v) :: rest => do some ((← ofNode k, ← ofNode v) :: (← ofEntries rest))

end

/-- The value of the only document in a text, or nothing for a text without one. -/
def ofText? (s : String) : Option Value := do
  match ← Node.ofText? s with
  | some n => ofNode n
  | none => some (.scalar .null)

/-- The text behind all tags. -/
def text? : Value → Option String
  | .scalar (.text s) => some s
  | .tagged _ v => v.text?
  | _ => none

end Value

end StyleContract.Yaml
