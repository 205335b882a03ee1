import StyleContract.Power
import StyleContract.Text.Digits

/-!
# Shell — Format

Printing by a format: escapes stand for bytes, and each conversion takes the next argument, padded
to a width. A format is used again until no argument is left.
-/

namespace StyleContract.Shell.Format

abbrev Bytes := List UInt8

def bytesOf (cs : List Char) : Bytes := (String.ofList cs).toUTF8.toList

/-- What is wrong with a format or an argument. -/
inductive Complaint where
  | noNumber (arg : String)
  | noWholeNumber (arg : String)
  | noConversion (text : String)
  | unfinished
  deriving DecidableEq, Repr

namespace Complaint

def message : Complaint → String
  | .noNumber arg => arg ++ ": expected numeric value"
  | .noWholeNumber arg => arg ++ ": not completely converted"
  | .noConversion text => "%" ++ text ++ ": invalid directive"
  | .unfinished => "missing format character"

/-- The status of a command that complains; a bad format is no format at all. -/
def status : Complaint → Nat
  | .noConversion _ | .unfinished => 2
  | .noNumber _ | .noWholeNumber _ => 1

end Complaint

/-- What one use of a format prints, the arguments left, what was wrong with some, and whether
printing ends for good. -/
structure Printed where
  bytes : Bytes
  rest : List String
  complaints : List Complaint
  ends : Bool
  deriving DecidableEq, Repr

def Printed.before (bytes : Bytes) (p : Printed) : Printed := { p with bytes := bytes ++ p.bytes }

/-- The byte of an escape of one letter. -/
def escapeByte? (c : Char) : Option UInt8 :=
  match c with
  | '\\' => some 92
  | 'a' => some 7
  | 'b' => some 8
  | 'f' => some 12
  | 'n' => some 10
  | 'r' => some 13
  | 't' => some 9
  | 'v' => some 11
  | 'e' => some 27
  | _ => none

def isOctal (c : Char) : Bool := '0' ≤ c && c ≤ '7'

/-- The value of digits to a base. -/
def valueIn (base : Nat) (cs : List Char) : Nat :=
  cs.foldl (fun n c => n * base + (Text.hexValue? c).getD 0) 0

/-- How a conversion is laid out. -/
structure Layout where
  flags : List Char
  width : Nat
  precision : Option Nat
  deriving DecidableEq, Repr

/-- Pads bytes to the width, with zeros after a sign if asked for. -/
def Layout.pad (l : Layout) (numeric : Bool) (sign : Bytes) (body : Bytes) : Bytes :=
  let missing := l.width - (sign.length + body.length)
  if l.flags.contains '-' then sign ++ body ++ List.replicate missing 32
  else if numeric && l.flags.contains '0' && l.precision.isNone then
    sign ++ List.replicate missing 48 ++ body
  else List.replicate missing 32 ++ sign ++ body

/-- A natural number in decimal, octal after a zero, or hexadecimal. -/
def magnitude? (cs : List Char) : Option Nat :=
  match cs with
  | '0' :: x :: rest =>
    if x == 'x' || x == 'X' then
      if !rest.isEmpty && rest.all fun c => (Text.hexValue? c).isSome then some (valueIn 16 rest)
      else none
    else if (x :: rest).all isOctal then some (valueIn 8 (x :: rest)) else none
  | [] => none
  | _ => if cs.all Char.isDigit then some (valueIn 10 cs) else none

/-- The number that an argument is. -/
def integer? (s : String) : Option Int :=
  match s.toList with
  | [] => some 0
  | '-' :: cs => (magnitude? cs).map fun n => -Int.ofNat n
  | '+' :: cs => (magnitude? cs).map Int.ofNat
  | '\'' :: c :: _ => some c.toNat
  | '"' :: c :: _ => some c.toNat
  | cs => (magnitude? cs).map Int.ofNat

/-- What is wrong with an argument that is to be a number, and the decimal number at its start. -/
def complaint? (s : String) : Option (Complaint × Nat) :=
  if (integer? s).isSome then none
  else
    let digits := s.toList.takeWhile Char.isDigit
    some (if digits.isEmpty then .noNumber s else .noWholeNumber s, valueIn 10 digits)

/-- What an escaped text stands for, and whether it asks for printing to end. -/
def unescaped : Nat → List Char → Bytes × Bool
  | 0, _ | _, [] => ([], false)
  | fuel + 1, '\\' :: c :: cs =>
    if c = 'c' then ([], true)
    else if c = '0' then
      let digits := (cs.takeWhile isOctal).take 3
      let (bytes, ends) := unescaped fuel (cs.drop digits.length)
      (UInt8.ofNat (valueIn 8 digits) :: bytes, ends)
    else
      let (bytes, ends) := unescaped fuel cs
      match escapeByte? c with
      | some b => (b :: bytes, ends)
      | none => (bytesOf ['\\', c] ++ bytes, ends)
  | fuel + 1, c :: cs =>
    let (bytes, ends) := unescaped fuel cs
    (bytesOf [c] ++ bytes, ends)

def signOf (l : Layout) (n : Int) : Bytes :=
  if n < 0 then [45] else if l.flags.contains '+' then [43]
  else if l.flags.contains ' ' then [32] else []

/-- The digits of a number, at least as many as the precision says. -/
def digitsOf (l : Layout) (base : Nat) (n : Nat) : Bytes :=
  let ds := bytesOf (Nat.toDigits base n)
  List.replicate (l.precision.getD 0 - ds.length) 48 ++ ds

/-- What marks a base, if that is asked for and there is something to mark. -/
def markOf (l : Layout) (mark : String) (n : Nat) : Bytes :=
  if l.flags.contains '#' && n != 0 then bytesOf mark.toList else []

/-- Bytes, or so many of them as the precision says. -/
def cutOf (l : Layout) (body : Bytes) : Bytes :=
  match l.precision with
  | some p => body.take p
  | none => body

/-- The text of one conversion of an argument, if there is such a conversion. -/
def convert? (l : Layout) (kind : Char) (arg : String) : Option Bytes :=
  let n := (integer? arg).getD (Int.ofNat (((complaint? arg).map (·.2)).getD 0))
  let word := (n % twoTo 64).toNat
  match kind with
  | 's' => some (l.pad false [] (cutOf l (bytesOf arg.toList)))
  | 'b' => some (l.pad false [] (cutOf l (unescaped (arg.length + 1) arg.toList).1))
  | 'c' => some (l.pad false [] (bytesOf arg.toList |>.take 1))
  | 'd' | 'i' => some (l.pad true (signOf l n) (digitsOf l 10 n.natAbs))
  | 'u' => some (l.pad true [] (digitsOf l 10 word))
  | 'o' => some (l.pad true (markOf l "0" word) (digitsOf l 8 word))
  | 'x' => some (l.pad true (markOf l "0x" word) (digitsOf l 16 word))
  | 'X' =>
    let upper (b : UInt8) : UInt8 := if 97 ≤ b then b - 32 else b
    some (l.pad true (markOf l "0X" word) ((digitsOf l 16 word).map upper))
  | _ => none

def isNumeric (kind : Char) : Bool := kind ∈ ['d', 'i', 'u', 'o', 'x', 'X']

/-- Whether the argument of a conversion asks for printing to end. -/
def endsAfter (kind : Char) (arg : String) : Bool :=
  kind == 'b' && (unescaped (arg.length + 1) arg.toList).2

/-- The layout and kind of a conversion, without the sign that starts it. -/
def conversion? (cs : List Char) : Option (Layout × Char × List Char) :=
  let flags := cs.takeWhile (· ∈ ['-', '+', ' ', '#', '0'])
  let cs := cs.drop flags.length
  let width := cs.takeWhile Char.isDigit
  let cs := cs.drop width.length
  let (precision, cs) := match cs with
    | '.' :: rest =>
      (some (valueIn 10 (rest.takeWhile Char.isDigit)), rest.dropWhile Char.isDigit)
    | cs => (none, cs)
  match cs with
  | kind :: rest => some (⟨flags, valueIn 10 width, precision⟩, kind, rest)
  | [] => none

/-- One use of a format; the fuel bounds its length. -/
def once : Nat → List Char → List String → Printed
  | 0, _, args | _, [], args => ⟨[], args, [], false⟩
  | fuel + 1, '\\' :: c :: cs, args =>
    if isOctal c then
      let digits := (c :: cs.takeWhile isOctal).take 3
      (once fuel ((c :: cs).drop digits.length) args).before [UInt8.ofNat (valueIn 8 digits)]
    else
      match escapeByte? c with
      | some b => (once fuel cs args).before [b]
      | none => (once fuel (c :: cs) args).before [92]
  | fuel + 1, '%' :: '%' :: cs, args => (once fuel cs args).before [37]
  | fuel + 1, '%' :: cs, args =>
    match conversion? cs with
    | none => ⟨[], args, [.unfinished], true⟩
    | some (layout, kind, rest) =>
      let arg := args.headD ""
      match convert? layout kind arg with
      | none =>
        let text := cs.take (cs.length - rest.length)
        ⟨[], args, [.noConversion (String.ofList text)], true⟩
      | some bytes =>
        if endsAfter kind arg then ⟨bytes, args.tail, [], true⟩
        else
          let p := (once fuel rest args.tail).before bytes
          match if isNumeric kind then complaint? arg else none with
          | some (complaint, _) => { p with complaints := complaint :: p.complaints }
          | none => p
  | fuel + 1, c :: cs, args => (once fuel cs args).before (bytesOf [c])

/-- A format used until no argument is left; the fuel bounds how often. -/
def repeated (format : List Char) : Nat → List String → Bytes × List Complaint
  | 0, _ => ([], [])
  | fuel + 1, args =>
    let p := once (format.length + 1) format args
    if p.ends || p.rest.isEmpty || p.rest.length = args.length then (p.bytes, p.complaints)
    else
      let (bytes, complaints) := repeated format fuel p.rest
      (p.bytes ++ bytes, p.complaints ++ complaints)

/-- What a format and its arguments print, and what was wrong with some. -/
def print (format : String) (args : List String) : Bytes × List Complaint :=
  repeated format.toList (args.length + 1) args

end StyleContract.Shell.Format
