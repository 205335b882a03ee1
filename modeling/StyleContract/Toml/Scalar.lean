import StyleContract.Decimal.Reader
import StyleContract.Moment.Basic
import StyleContract.Power

/-!
# Toml — Scalar

The parts of a TOML text that hold no other parts: strings in their four forms, keys, numbers,
and dates with times.
-/

namespace StyleContract.Toml

/-- A reader takes a part off the front of the text. -/
abbrev Reader (α : Type) := List Char → Option (α × List Char)

def isSpace (c : Char) : Bool := c == ' ' || c == '\t'

def skipSpace (cs : List Char) : List Char := cs.dropWhile isSpace

/-- Characters that may stand in comments and literal strings. -/
def isPlain (c : Char) : Bool := c == '\t' || (0x20 ≤ c.toNat && c.toNat != 0x7F)

/-- The text after a line end. -/
def afterNewline? : List Char → Option (List Char)
  | '\n' :: cs | '\r' :: '\n' :: cs => some cs
  | _ => none

/-- The text after a line end, if there is one. -/
def skipNewline (cs : List Char) : List Char := (afterNewline? cs).getD cs

def skipComment (cs : List Char) : List Char :=
  if cs.head? = some '#' then cs.dropWhile isPlain else cs

/-- Skips blanks, comments and line ends; `fuel` bounds their number. -/
def skipLines : Nat → List Char → List Char
  | 0, cs => cs
  | fuel + 1, cs =>
    let cs := skipComment (skipSpace cs)
    match afterNewline? cs with
    | some cs => skipLines fuel cs
    | none => cs

/-! ### Strings -/

/-- A character by its code point. -/
def charOf? (n : Nat) : Option Char :=
  if n < 0xD800 ∨ (0xDFFF < n ∧ n < 0x110000) then some (Char.ofNat n) else none

/-- Reads an escape after its backslash. -/
def escape : Reader Char
  | 'b' :: cs => some ('\x08', cs)
  | 'f' :: cs => some ('\x0c', cs)
  | 'n' :: cs => some ('\n', cs)
  | 'r' :: cs => some ('\r', cs)
  | 't' :: cs => some ('\t', cs)
  | '\\' :: cs => some ('\\', cs)
  | '"' :: cs => some ('"', cs)
  | 'u' :: cs => coded 4 cs
  | 'U' :: cs => coded 8 cs
  | _ => none
where
  coded (width : Nat) : Reader Char := fun cs => do
    if cs.length < width then none
    let c ← charOf? (← Text.digitsIn? 16 (cs.take width))
    some (c, cs.drop width)

/-- Reads a string on one line up to its closing quote. -/
def basicString : Nat → Reader (List Char)
  | 0, _ | _, [] => none
  | fuel + 1, c :: cs =>
    if c = '"' then some ([], cs)
    else if c = '\\' then do
      let (c, cs) ← escape cs
      let (s, cs) ← basicString fuel cs
      some (c :: s, cs)
    else if isPlain c then (basicString fuel cs).map fun (s, cs) => (c :: s, cs)
    else none

/-- Reads a string without escapes on one line up to its closing quote. -/
def literalString : Reader (List Char) := fun cs =>
  let body := cs.takeWhile fun c => isPlain c && c != '\''
  match cs.drop body.length with
  | '\'' :: cs => some (body, cs)
  | _ => none

/-- Blanks and line ends after a backslash that ends a line. -/
def afterJoin? (fuel : Nat) (cs : List Char) : Option (List Char) :=
  (afterNewline? (skipSpace cs)).map (skipBlankLines fuel)
where
  skipBlankLines : Nat → List Char → List Char
    | 0, cs => cs
    | fuel + 1, cs =>
      match afterNewline? (skipSpace cs) with
      | some cs => skipBlankLines fuel cs
      | none => skipSpace cs

/-- Reads a string over several lines up to its three closing quotes, before which two more may
stand. -/
def longString (quote : Char) (escapes : Bool) : Nat → Reader (List Char)
  | 0, _ | _, [] => none
  | fuel + 1, c :: cs =>
    if c = quote then
      let run := (c :: cs).takeWhile (· == quote)
      if run.length < 3 then
        (longString quote escapes fuel cs).map fun (s, cs) => (c :: s, cs)
      else if run.length ≤ 5 then
        some (List.replicate (run.length - 3) quote, (c :: cs).drop run.length)
      else none
    else if c = '\\' ∧ escapes then
      match afterJoin? (cs.length + 1) cs with
      | some cs => longString quote escapes fuel cs
      | none => do
        let (c, cs) ← escape cs
        let (s, cs) ← longString quote escapes fuel cs
        some (c :: s, cs)
    else
      match afterNewline? (c :: cs) with
      | some cs => (longString quote escapes fuel cs).map fun (s, cs) => ('\n' :: s, cs)
      | none =>
        if isPlain c then (longString quote escapes fuel cs).map fun (s, cs) => (c :: s, cs)
        else none

/-- Reads a string in any form. -/
def string : Reader (List Char)
  | '"' :: '"' :: '"' :: cs => longString '"' true (cs.length + 1) (skipNewline cs)
  | '\'' :: '\'' :: '\'' :: cs => longString '\'' false (cs.length + 1) (skipNewline cs)
  | '"' :: cs => basicString (cs.length + 1) cs
  | '\'' :: cs => literalString cs
  | _ => none

/-! ### Keys -/

def isKeyChar (c : Char) : Bool := c.isAlphanum || c == '_' || c == '-'

/-- Reads one part of a key. -/
def simpleKey : Reader String := fun cs =>
  match cs with
  | '"' :: rest => (basicString (rest.length + 1) rest).map fun (s, cs) => (String.ofList s, cs)
  | '\'' :: rest => (literalString rest).map fun (s, cs) => (String.ofList s, cs)
  | cs =>
    let name := cs.takeWhile isKeyChar
    if name.isEmpty then none else some (String.ofList name, cs.drop name.length)

/-- Reads a key with dots between its parts, and the blanks around them. -/
def dottedKey : Nat → Reader (List String)
  | 0, _ => none
  | fuel + 1, cs => do
    let (part, cs) ← simpleKey (skipSpace cs)
    match skipSpace cs with
    | '.' :: cs => (dottedKey fuel cs).map fun (parts, cs) => (part :: parts, cs)
    | cs => some ([part], cs)

/-- A key may have fewer parts than this. -/
def keyLimit : Nat := 80

def key : Reader (List String) := fun cs => do
  let (parts, cs) ← dottedKey (cs.length + 1) cs
  if parts.length < keyLimit then some (parts, cs) else none

/-! ### Numbers -/

/-- The digits of a group whose underscores stand between digits. -/
def ungrouped? (isDigit : Char → Bool) : List Char → Option (List Char)
  | [] => none
  | [c] => if isDigit c then some [c] else none
  | c :: '_' :: cs => if isDigit c then (ungrouped? isDigit cs).map (c :: ·) else none
  | c :: cs => if isDigit c then (ungrouped? isDigit cs).map (c :: ·) else none

/-- The sign and the rest. -/
def splitSign : List Char → Bool × List Char
  | '-' :: cs => (true, cs)
  | '+' :: cs => (false, cs)
  | cs => (false, cs)

/-- The digits of a whole number, which start with a zero only if it is the only one. -/
def wholeDigits? (cs : List Char) : Option (List Char) := do
  let ds ← ungrouped? Char.isDigit cs
  if ds.head? = some '0' ∧ 1 < ds.length then none else some ds

def isBaseDigit (base : Nat) (c : Char) : Bool := (Text.hexValue? c).any (· < base)

/-- A whole number in one of four bases, which fits a signed machine word. -/
def intOf? (cs : List Char) : Option Int := do
  let inBase (base : Nat) (cs : List Char) : Option Int := do
    some (← Text.digitsIn? base (← ungrouped? (isBaseDigit base) cs))
  let n ← match cs with
    | '0' :: 'x' :: cs => inBase 16 cs
    | '0' :: 'o' :: cs => inBase 8 cs
    | '0' :: 'b' :: cs => inBase 2 cs
    | cs =>
      let (negative, cs) := splitSign cs
      do
        let n ← Text.natural? (← wholeDigits? cs)
        some (if negative then -(n : Int) else n)
  if -(twoTo 63 : Int) ≤ n ∧ n < twoTo 63 then some n else none

/-- The exponent of a number after its letter. -/
def exponent? (cs : List Char) : Option (List Char) := do
  let (negative, ds) := splitSign cs
  some ('e' :: (if negative then ['-'] else []) ++ (← ungrouped? Char.isDigit ds))

/-- The fraction of a number after its point, and its exponent. -/
def fraction? (cs : List Char) : Option (List Char) := do
  let isMark (c : Char) : Bool := c == 'e' || c == 'E'
  let ds ← ungrouped? Char.isDigit (cs.takeWhile (!isMark ·))
  match cs.dropWhile (!isMark ·) with
  | [] => some ('.' :: ds)
  | _ :: cs => some ('.' :: ds ++ (← exponent? cs))

/-- A number with a fraction or an exponent, or one of the words for what is not finite. A
positive number out of range is refused. -/
def floatOf? (cs : List Char) : Option Float := do
  let (negative, body) := splitSign cs
  let signed (x : Float) : Float := if negative then -x else x
  if body = "inf".toList then some (signed (1.0 / 0.0))
  else if body = "nan".toList then some (signed (0.0 / 0.0))
  else
    let whole := body.takeWhile fun c => c.isDigit || c == '_'
    let ds ← wholeDigits? whole
    let tail ← match body.drop whole.length with
      | '.' :: cs => fraction? cs
      | 'e' :: cs | 'E' :: cs => exponent? cs
      | _ => none
    let x := signed (← Decimal.ofChars? (ds ++ tail))
    if x.isInf ∧ ¬ negative then none else some x

/-! ### Dates -/

/-- A number of a fixed count of digits within bounds. -/
def fixedNumber? (count least greatest : Nat) : Reader Nat := fun cs => do
  let ds := cs.take count
  if ds.length < count then none
  let n ← Text.natural? ds
  if least ≤ n ∧ n ≤ greatest then some (n, cs.drop count) else none

/-- Takes a character off. -/
def expect? (cs : List Char) (c : Char) : Option (List Char) :=
  if cs.head? = some c then some (cs.drop 1) else none

/-- Reads a calendar day. -/
def day? : Reader Unit := fun cs => do
  let (year, cs) ← fixedNumber? 4 0 9999 cs
  let (month, cs) ← fixedNumber? 2 1 12 (← expect? cs '-')
  let (_, cs) ← fixedNumber? 2 1 (Calendar.daysIn year month) (← expect? cs '-')
  some ((), cs)

/-- Reads a time of day. -/
def time? : Reader Unit := fun cs => do
  let (_, cs) ← fixedNumber? 2 0 23 cs
  let (_, cs) ← fixedNumber? 2 0 59 (← expect? cs ':')
  let (_, cs) ← fixedNumber? 2 0 60 (← expect? cs ':')
  match cs with
  | '.' :: cs => if cs.head?.any Char.isDigit then some ((), cs.dropWhile Char.isDigit) else none
  | cs => some ((), cs)

/-- Reads an offset from UTC, if there is one. -/
def offset? : Reader Unit
  | 'Z' :: cs | 'z' :: cs => some ((), cs)
  | sign :: cs =>
    if sign = '+' ∨ sign = '-' then do
      let (_, cs) ← fixedNumber? 2 0 23 cs
      let (_, cs) ← fixedNumber? 2 0 59 (← expect? cs ':')
      some ((), cs)
    else some ((), sign :: cs)
  | [] => some ((), [])

/-- Whether a text is a day, a time of day, or both with or without an offset. -/
def isMoment (cs : List Char) : Bool :=
  match day? cs with
  | some (_, []) => true
  | some (_, mark :: rest) =>
    (mark == 'T' || mark == 't' || mark == ' ') &&
      (((time? rest).bind fun (_, cs) => offset? cs).any fun (_, cs) => cs.isEmpty)
  | none => (time? cs).any fun (_, cs) => cs.isEmpty

end StyleContract.Toml
