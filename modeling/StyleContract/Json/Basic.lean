/-!
# Json — Basic

JSON values. An object keeps its members in order; `Members.merged` is how a list of members
becomes an object when a name occurs twice: the last value wins, at the first place.
-/

namespace StyleContract

/-- A JSON number: whole when it is written so and fits a machine word, else a float. -/
inductive Json.Number where
  | int (n : Int)
  | float (x : Float)
  deriving DecidableEq, Repr

/-- The float nearest to a number. -/
def Json.Number.toFloat : Json.Number → Float
  | .int n => Float.ofInt n
  | .float x => x

inductive Json where
  | null
  | bool (b : Bool)
  | num (n : Json.Number)
  | str (s : String)
  | arr (items : List Json)
  | obj (members : List (String × Json))
  deriving Repr, Inhabited

namespace Json

mutual

/-- Equality of values, decided. -/
def decEq : (a b : Json) → Decidable (a = b)
  | .null, .null => isTrue rfl
  | .bool a, .bool b => if h : a = b then isTrue (h ▸ rfl) else isFalse (by simpa using h)
  | .num a, .num b => if h : a = b then isTrue (h ▸ rfl) else isFalse (by simpa using h)
  | .str a, .str b => if h : a = b then isTrue (h ▸ rfl) else isFalse (by simpa using h)
  | .arr a, .arr b =>
    match decEqItems a b with
    | isTrue h => isTrue (h ▸ rfl)
    | isFalse h => isFalse (by simpa using h)
  | .obj a, .obj b =>
    match decEqMembers a b with
    | isTrue h => isTrue (h ▸ rfl)
    | isFalse h => isFalse (by simpa using h)
  | .null, .bool _ | .null, .num _ | .null, .str _ | .null, .arr _ | .null, .obj _
  | .bool _, .null | .bool _, .num _ | .bool _, .str _ | .bool _, .arr _ | .bool _, .obj _
  | .num _, .null | .num _, .bool _ | .num _, .str _ | .num _, .arr _ | .num _, .obj _
  | .str _, .null | .str _, .bool _ | .str _, .num _ | .str _, .arr _ | .str _, .obj _
  | .arr _, .null | .arr _, .bool _ | .arr _, .num _ | .arr _, .str _ | .arr _, .obj _
  | .obj _, .null | .obj _, .bool _ | .obj _, .num _ | .obj _, .str _ | .obj _, .arr _ =>
    isFalse nofun

def decEqItems : (a b : List Json) → Decidable (a = b)
  | [], [] => isTrue rfl
  | [], _ :: _ | _ :: _, [] => isFalse nofun
  | a :: as, b :: bs =>
    match decEq a b, decEqItems as bs with
    | isTrue h, isTrue h' => isTrue (h ▸ h' ▸ rfl)
    | isFalse h, _ => isFalse (by simp [h])
    | _, isFalse h => isFalse (by simp [h])

def decEqMembers : (a b : List (String × Json)) → Decidable (a = b)
  | [], [] => isTrue rfl
  | [], _ :: _ | _ :: _, [] => isFalse nofun
  | (k, a) :: as, (l, b) :: bs =>
    if hk : k = l then
      match decEq a b, decEqMembers as bs with
      | isTrue h, isTrue h' => isTrue (hk ▸ h ▸ h' ▸ rfl)
      | isFalse h, _ => isFalse (by simp [h])
      | _, isFalse h => isFalse (by simp [h])
    else isFalse (by simp [hk])

end

instance : DecidableEq Json := decEq

/-- Members of an object. -/
abbrev Members := List (String × Json)

/-- Sets a member: in place when the name is there, else at the end. -/
def Members.put (name : String) (value : Json) : Members → Members
  | [] => [(name, value)]
  | (k, v) :: rest =>
    if k = name then (k, value) :: rest else (k, v) :: Members.put name value rest

/-- The first member of a name. -/
def Members.get? (name : String) (members : Members) : Option Json :=
  (members.find? (·.1 == name)).map (·.2)

/-- Members where each name occurs once, at its first place and with its last value. -/
def Members.merged (members : Members) : Members :=
  members.foldl (fun acc m => acc.put m.1 m.2) []

mutual

/-- The value with every object's members merged. -/
def merged : Json → Json
  | .arr items => .arr (mergedItems items)
  | .obj members => .obj (Members.merged (mergedMembers members))
  | v => v

def mergedItems : List Json → List Json
  | [] => []
  | v :: vs => v.merged :: mergedItems vs

def mergedMembers : List (String × Json) → List (String × Json)
  | [] => []
  | (k, v) :: rest => (k, v.merged) :: mergedMembers rest

end

/-- The member of a name, for an object that has it. -/
def get? (v : Json) (name : String) : Option Json :=
  match v with
  | .obj members => Members.get? name members
  | _ => none

/-- The member of a name, or null. -/
def get (v : Json) (name : String) : Json := (v.get? name).getD .null

def str? : Json → Option String
  | .str s => some s
  | _ => none

def bool? : Json → Option Bool
  | .bool b => some b
  | _ => none

def items? : Json → Option (List Json)
  | .arr items => some items
  | _ => none

def members? : Json → Option Members
  | .obj members => some members
  | _ => none

/-- A whole number that is not negative and was written as one. -/
def nat? : Json → Option Nat
  | .num (.int n) => if 0 ≤ n then some n.toNat else none
  | _ => none

/-- The float nearest to a number. -/
def float? : Json → Option Float
  | .num n => some n.toFloat
  | _ => none

def ofNat (n : Nat) : Json := .num (.int n)

def ofInt (n : Int) : Json := .num (.int n)

/-- A float as a value; JSON has no other word than null for what is not finite. -/
def ofFloat (x : Float) : Json :=
  if x.isFinite then .num (.float x) else .null

def ofStrings (items : List String) : Json := .arr (items.map .str)

theorem Members.get?_put_self (name : String) (value : Json) (members : Members) :
    Members.get? name (members.put name value) = some value := by
  induction members with
  | nil => simp [Members.put, Members.get?]
  | cons m rest ih =>
    by_cases h : m.1 = name
    · simp [Members.put, Members.get?, h]
    · simp only [Members.put, h, if_false]
      simpa [Members.get?, h] using ih

theorem Members.get?_put_of_ne {name other : String} (h : other ≠ name) (value : Json)
    (members : Members) :
    Members.get? other (members.put name value) = Members.get? other members := by
  induction members with
  | nil => simp [Members.put, Members.get?, Ne.symm h]
  | cons m rest ih =>
    by_cases hm : m.1 = name
    · have : ¬ m.1 = other := fun e => h (e ▸ hm)
      simp [Members.put, Members.get?, hm, Ne.symm h]
    · simp only [Members.put, hm, if_false]
      by_cases ho : m.1 = other
      · simp [Members.get?, ho]
      · simpa [Members.get?, ho] using ih

end Json

end StyleContract
