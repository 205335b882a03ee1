import StyleContract.Json.Basic
import StyleContract.Decimal.Layout

/-!
# Json — Printer

Three layouts of a value as text: on one line; indented by two spaces, one member or item a
line; and the layout of hand-kept documents, where a list or object that holds no object stays
on one line as long as the line has room.
-/

namespace StyleContract.Json

/-- Positional from 0.00001 to below 10^16, whole numbers with `.0`, exponents with a sign. -/
def numberLayout : Decimal.Layout where
  positional := some (-5, 15)
  pointZero := true
  plus := true
  nan := "null"
  infinite := "null"

def Number.render : Number → String
  | .int n => toString n
  | .float x => numberLayout.render x

/-- The four hexadecimal digits of a code unit. -/
def hex4 (n : Nat) : List Char :=
  let ds := Nat.toDigits 16 n
  List.replicate (4 - ds.length) '0' ++ ds

/-- One character of a string literal. -/
def escapeChar (c : Char) : List Char :=
  if c = '"' then ['\\', '"']
  else if c = '\\' then ['\\', '\\']
  else if c = '\n' then ['\\', 'n']
  else if c = '\r' then ['\\', 'r']
  else if c = '\t' then ['\\', 't']
  else if c = '\x08' then ['\\', 'b']
  else if c = '\x0c' then ['\\', 'f']
  else if c.toNat < 0x20 then '\\' :: 'u' :: hex4 c.toNat
  else [c]

/-- A string literal. -/
def quote (s : String) : String := String.ofList ('"' :: s.toList.flatMap escapeChar ++ ['"'])

def boolText (b : Bool) : String := if b then "true" else "false"

mutual

/-- The value on one line without blanks. -/
def compact : Json → String
  | .null => "null"
  | .bool b => boolText b
  | .num n => n.render
  | .str s => quote s
  | .arr items => "[" ++ String.intercalate "," (compactItems items) ++ "]"
  | .obj members => "\x7b" ++ String.intercalate "," (compactMembers members) ++ "\x7d"

def compactItems : List Json → List String
  | [] => []
  | v :: vs => v.compact :: compactItems vs

def compactMembers : List (String × Json) → List String
  | [] => []
  | (k, v) :: rest => (quote k ++ ":" ++ v.compact) :: compactMembers rest

end

def indentation (depth : Nat) : String := String.ofList (List.replicate (2 * depth) ' ')

/-- A list or object with one entry a line, or its two brackets when it is empty. -/
def block (depth : Nat) (opening closing : String) (entries : List String) : String :=
  if entries.isEmpty then opening ++ closing
  else
    let inner := "\n" ++ indentation (depth + 1)
    opening ++ inner ++ String.intercalate ("," ++ inner) entries ++ "\n" ++
      indentation depth ++ closing

mutual

/-- The value over several lines, `depth` levels in. -/
def prettyAt (depth : Nat) : Json → String
  | .null => "null"
  | .bool b => boolText b
  | .num n => n.render
  | .str s => quote s
  | .arr items => block depth "[" "]" (prettyItems (depth + 1) items)
  | .obj members => block depth "\x7b" "\x7d" (prettyMembers (depth + 1) members)

def prettyItems (depth : Nat) : List Json → List String
  | [] => []
  | v :: vs => v.prettyAt depth :: prettyItems depth vs

def prettyMembers (depth : Nat) : List (String × Json) → List String
  | [] => []
  | (k, v) :: rest => (quote k ++ ": " ++ v.prettyAt depth) :: prettyMembers depth rest

end

/-- The value over several lines. -/
def pretty (v : Json) : String := v.prettyAt 0

mutual

/-- Whether the value is an object or holds one. -/
def holdsObject : Json → Bool
  | .obj _ => true
  | .arr items => anyHoldsObject items
  | _ => false

def anyHoldsObject : List Json → Bool
  | [] => false
  | v :: vs => v.holdsObject || anyHoldsObject vs

end

mutual

/-- The value on one line with blanks between its parts. -/
def airy : Json → String
  | .null => "null"
  | .bool b => boolText b
  | .num n => n.render
  | .str s => quote s
  | .arr items => "[" ++ String.intercalate ", " (airyItems items) ++ "]"
  | .obj members => "\x7b " ++ String.intercalate ", " (airyMembers members) ++ " \x7d"

def airyItems : List Json → List String
  | [] => []
  | v :: vs => v.airy :: airyItems vs

def airyMembers : List (String × Json) → List String
  | [] => []
  | (k, v) :: rest => (quote k ++ ": " ++ v.airy) :: airyMembers rest

end

/-- The width of a line in a hand-kept document. -/
def documentWidth : Nat := 80

/-- Keeps a one-line form if it fits after `used` columns, with room for a comma. -/
def oneLineOr (used : Nat) (oneLine : String) (flat : Bool) (tall : String) : String :=
  if flat && used + oneLine.length + 1 ≤ documentWidth then oneLine else tall

mutual

/-- The value in a hand-kept document, `depth` levels in and after `used` columns. -/
def documentAt (depth used : Nat) : Json → String
  | .null => "null"
  | .bool b => boolText b
  | .num n => n.render
  | .str s => quote s
  | .arr items =>
    oneLineOr used ("[" ++ String.intercalate ", " (airyItems items) ++ "]")
      (!anyHoldsObject items) (block depth "[" "]" (documentItems (depth + 1) items))
  | .obj members =>
    oneLineOr used ("\x7b " ++ String.intercalate ", " (airyMembers members) ++ " \x7d")
      (!(members.any fun m => m.2.holdsObject))
      (block depth "\x7b" "\x7d" (documentMembers (depth + 1) members))

def documentItems (depth : Nat) : List Json → List String
  | [] => []
  | v :: vs => v.documentAt depth (2 * depth) :: documentItems depth vs

def documentMembers (depth : Nat) : List (String × Json) → List String
  | [] => []
  | (k, v) :: rest =>
    let key := quote k ++ ": "
    (key ++ v.documentAt depth (2 * depth + key.length)) :: documentMembers depth rest

end

/-- The value as a hand-kept document. -/
def document (v : Json) : String := v.documentAt 0 0

end StyleContract.Json
