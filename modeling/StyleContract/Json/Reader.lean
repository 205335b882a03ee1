import StyleContract.Json.Basic
import StyleContract.Power
import StyleContract.Text.Digits
import StyleContract.Text.Utf8

/-!
# Json — Reader

Reading JSON text. The text is refused with one of two causes: it ends too early, or it holds
something that no JSON text has at that place. Containers may nest 127 deep. A number that is
not whole, or does not fit a machine word, becomes a float: as many leading digits as a 64-bit
word holds, scaled by a power of ten.
-/

namespace StyleContract.Json

inductive ReadError where
  | unfinished
  | malformed
  deriving DecidableEq, Repr

/-- A reader takes a value off the front of the text. -/
abbrev Reader (α : Type) := List Char → Except ReadError (α × List Char)

/-- The four characters that may stand between tokens. -/
def isSpace (c : Char) : Bool := c == ' ' || c == '\n' || c == '\t' || c == '\r'

def skipSpace (cs : List Char) : List Char := cs.dropWhile isSpace

/-- Reads the rest of a literal word. -/
def word {α : Type} (rest : List Char) (value : α) : Reader α := fun cs =>
  match rest, cs with
  | [], cs => .ok (value, cs)
  | _ :: _, [] => .error .unfinished
  | c :: rest, d :: cs => if c = d then word rest value cs else .error .malformed

/-- The number that four hexadecimal digits give. -/
def hexUnit? (a b c d : Char) : Option Nat := do
  let a ← Text.hexValue? a
  let b ← Text.hexValue? b
  let c ← Text.hexValue? c
  let d ← Text.hexValue? d
  some (((a * 16 + b) * 16 + c) * 16 + d)

def isHighSurrogate (n : Nat) : Bool := 0xD800 ≤ n && n ≤ 0xDBFF

def isLowSurrogate (n : Nat) : Bool := 0xDC00 ≤ n && n ≤ 0xDFFF

/-- The character that a pair of surrogates stands for. -/
def pairChar (high low : Nat) : Char :=
  Char.ofNat (0x10000 + (high - 0xD800) * 0x400 + (low - 0xDC00))

/-- The character that a one-letter escape stands for. -/
def escapedChar? (c : Char) : Option Char :=
  if c = '"' ∨ c = '\\' ∨ c = '/' then some c
  else if c = 'b' then some '\x08'
  else if c = 'f' then some '\x0c'
  else if c = 'n' then some '\n'
  else if c = 'r' then some '\r'
  else if c = 't' then some '\t'
  else none

/-- Why a numeric escape with fewer than four digits left fails. -/
def shortEscape (cs : List Char) : ReadError :=
  if Text.size cs < 4 then .unfinished else .malformed

/-- Reads a string up to its closing quote. -/
def stringBody : Reader (List Char)
  | [] => .error .unfinished
  | c :: cs =>
    if c = '"' then .ok ([], cs)
    else if c = '\\' then
      match cs with
      | [] => .error .unfinished
      | e :: cs =>
        if e = 'u' then
          match cs with
          | a :: b :: c :: d :: cs =>
            match hexUnit? a b c d with
            | none => .error .malformed
            | some n =>
              if isLowSurrogate n then .error .malformed
              else if isHighSurrogate n then
                match cs with
                | [] => .error .unfinished
                | [x] => .error (if x = '\\' then .unfinished else .malformed)
                | x :: y :: cs =>
                  if x = '\\' ∧ y = 'u' then
                    match cs with
                    | a :: b :: c :: d :: cs =>
                      match hexUnit? a b c d with
                      | none => .error .malformed
                      | some m =>
                        if isLowSurrogate m then do
                          let (s, cs) ← stringBody cs
                          .ok (pairChar n m :: s, cs)
                        else .error .malformed
                    | cs => .error (shortEscape cs)
                  else .error .malformed
              else do
                let (s, cs) ← stringBody cs
                .ok (Char.ofNat n :: s, cs)
          | cs => .error (shortEscape cs)
        else
          match escapedChar? e with
          | none => .error .malformed
          | some x => do
            let (s, cs) ← stringBody cs
            .ok (x :: s, cs)
    else if c.toNat < 0x20 then .error .malformed
    else do
      let (s, cs) ← stringBody cs
      .ok (c :: s, cs)

/-! ### Numbers -/

/-- Adds digits to a number while it stays within `limit`; how many digits are left over. -/
def accumulate (limit : Nat) : Nat → List Char → Nat × Nat
  | n, [] => (n, 0)
  | n, d :: ds =>
    let n' := n * 10 + Text.decimalValue d
    if n' ≤ limit then accumulate limit n' ds else (n, ds.length + 1)

def wordLimit : Nat := twoTo 64 - 1

def exponentLimit : Nat := twoTo 31 - 1

/-- The powers of ten that a float holds, with their rounding. -/
def powerOfTen (n : Nat) : Float := Float.ofScientific 1 false n

/-- Scales by a power of ten: at once if a float holds the power, else in steps of `10 ^ 308`
downwards; a positive power beyond the range is refused. -/
def scale : Nat → Float → Int → Except ReadError Float
  | 0, f, _ => .ok f
  | steps + 1, f, e =>
    if e.natAbs ≤ 308 then
      if 0 ≤ e then
        let g := f * powerOfTen e.natAbs
        if g.isInf then .error .malformed else .ok g
      else .ok (f / powerOfTen e.natAbs)
    else if f == 0 then .ok f
    else if 0 ≤ e then .error .malformed
    else scale steps (f / powerOfTen 308) (e + 308)

/-- The float with some leading digits and an exponent. -/
def floatOf (negative : Bool) (significand : Nat) (exponent : Int) : Except ReadError Float := do
  let f ← scale 4 (Float.ofNat significand) exponent
  .ok (if negative then -f else f)

/-- Reads an exponent after its `e`, for digits that already have the exponent `base`. -/
def exponentPart (negative : Bool) (significand : Nat) (base : Int) : Reader Float := fun cs =>
  let (down, cs) : Bool × List Char := match cs with
    | '+' :: cs => (false, cs)
    | '-' :: cs => (true, cs)
    | cs => (false, cs)
  let digits := cs.takeWhile Char.isDigit
  let rest := cs.dropWhile Char.isDigit
  if digits.isEmpty then .error (if cs.isEmpty then .unfinished else .malformed)
  else
    match accumulate exponentLimit 0 digits with
    | (e, 0) =>
      let bound : Int := twoTo 31
      let e : Int := if down then max (-bound) (base - e) else min (bound - 1) (base + e)
      (floatOf negative significand e).map (·, rest)
    | (_, _ + 1) =>
      if significand ≠ 0 ∧ ¬ down then .error .malformed
      else .ok (if negative then -0.0 else 0.0, rest)

/-- Reads what may follow the fraction of a number. -/
def afterFraction (negative : Bool) (significand : Nat) (exponent : Int) : Reader Float
  | 'e' :: cs | 'E' :: cs => exponentPart negative significand exponent cs
  | cs => (floatOf negative significand exponent).map (·, cs)

/-- Reads a fraction after its point. -/
def fractionPart (negative : Bool) (significand : Nat) (base : Int) : Reader Float := fun cs =>
  let digits := cs.takeWhile Char.isDigit
  let rest := cs.dropWhile Char.isDigit
  if digits.isEmpty then .error (if cs.isEmpty then .unfinished else .malformed)
  else
    let (significand, left) := accumulate wordLimit significand digits
    afterFraction negative significand (base - (digits.length - left : Nat)) rest

/-- The value of a number without fraction and exponent. -/
def wholeNumber (negative : Bool) (significand : Nat) : Number :=
  if negative then
    if significand = 0 ∨ twoTo 63 < significand then .float (-Float.ofNat significand)
    else .int (-significand)
  else .int significand

/-- Reads a number after its sign. -/
def numberBody (negative : Bool) : Reader Number := fun cs =>
  let digits := cs.takeWhile Char.isDigit
  let rest := cs.dropWhile Char.isDigit
  match digits with
  | [] => .error (if cs.isEmpty then .unfinished else .malformed)
  | '0' :: _ :: _ => .error .malformed
  | _ =>
    let (significand, left) := accumulate wordLimit 0 digits
    match rest with
    | '.' :: rest =>
      (fractionPart negative significand left rest).map fun r => (.float r.1, r.2)
    | 'e' :: rest | 'E' :: rest =>
      (exponentPart negative significand left rest).map fun r => (.float r.1, r.2)
    | rest =>
      if left = 0 then .ok (wholeNumber negative significand, rest)
      else (floatOf negative significand left).map fun f => (.float f, rest)

/-! ### Containers -/

/-- Reads the items of a list from the first one on; `fuel` bounds their number. -/
def itemsBody (item : Reader Json) : Nat → Reader (List Json)
  | 0, _ => .error .malformed
  | fuel + 1, cs => do
    let (v, cs) ← item cs
    match skipSpace cs with
    | [] => .error .unfinished
    | ']' :: cs => .ok ([v], cs)
    | ',' :: cs =>
      match skipSpace cs with
      | [] => .error .unfinished
      | ']' :: _ => .error .malformed
      | c :: cs => do
        let (vs, cs) ← itemsBody item fuel (c :: cs)
        .ok (v :: vs, cs)
    | _ :: _ => .error .malformed

/-- Reads a list after its opening bracket. -/
def listBody (item : Reader Json) : Reader Json := fun cs =>
  match skipSpace cs with
  | [] => .error .unfinished
  | ']' :: cs => .ok (.arr [], cs)
  | c :: rest => (itemsBody item cs.length (c :: rest)).map fun r => (.arr r.1, r.2)

/-- Reads one member of an object from its name on. -/
def memberBody (item : Reader Json) : Reader (String × Json)
  | '"' :: cs => do
    let (name, cs) ← stringBody cs
    match skipSpace cs with
    | [] => .error .unfinished
    | ':' :: cs =>
      let (v, cs) ← item cs
      .ok ((String.ofList name, v), cs)
    | _ :: _ => .error .malformed
  | [] => .error .unfinished
  | _ :: _ => .error .malformed

/-- Reads the members of an object from the first one on; `fuel` bounds their number. -/
def membersBody (item : Reader Json) : Nat → Reader Members
  | 0, _ => .error .malformed
  | fuel + 1, cs => do
    let (m, cs) ← memberBody item cs
    match skipSpace cs with
    | [] => .error .unfinished
    | '}' :: cs => .ok ([m], cs)
    | ',' :: cs =>
      let (ms, cs) ← membersBody item fuel (skipSpace cs)
      .ok (m :: ms, cs)
    | _ :: _ => .error .malformed

/-- Reads an object after its opening brace. -/
def objectBody (item : Reader Json) : Reader Json := fun cs =>
  match skipSpace cs with
  | [] => .error .unfinished
  | '}' :: cs => .ok (.obj [], cs)
  | c :: rest => (membersBody item cs.length (c :: rest)).map fun r => (.obj r.1, r.2)

/-- Reads a value whose parts are read by `inner`; without it, containers are refused. -/
def valueWith (inner : Option (Reader Json)) : Reader Json := fun cs =>
  match skipSpace cs with
  | [] => .error .unfinished
  | c :: cs =>
    if c = '"' then (stringBody cs).map fun r => (.str (String.ofList r.1), r.2)
    else if c = '[' then
      match inner with
      | some item => listBody item cs
      | none => .error .malformed
    else if c = '\x7b' then
      match inner with
      | some item => objectBody item cs
      | none => .error .malformed
    else if c = 'n' then word ['u', 'l', 'l'] .null cs
    else if c = 't' then word ['r', 'u', 'e'] (.bool true) cs
    else if c = 'f' then word ['a', 'l', 's', 'e'] (.bool false) cs
    else if c = '-' then (numberBody true cs).map fun r => (.num r.1, r.2)
    else if c.isDigit then (numberBody false (c :: cs)).map fun r => (.num r.1, r.2)
    else .error .malformed

/-- Reads a value with at most `depth` containers around any part. -/
def value : Nat → Reader Json
  | 0 => valueWith none
  | depth + 1 => valueWith (some (value depth))

def maxDepth : Nat := 127

/-- Reads a whole text as one value, with members as often as they are written. -/
def readRaw (s : String) : Except ReadError Json := do
  let (v, rest) ← value maxDepth s.toList
  if (skipSpace rest).isEmpty then .ok v else .error .malformed

/-- Reads a whole text as one value. -/
def read (s : String) : Except ReadError Json := (readRaw s).map Json.merged

end StyleContract.Json
