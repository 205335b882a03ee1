import StyleContract.Moment.Basic
import StyleContract.Power
import StyleContract.Text.Blank
import StyleContract.Text.Digits

/-!
# Moment — Reader

Two readings of date and time. `Moment.ofText` is lenient: blanks between the parts, single
digits, signed years, any offset. `isStrictText` accepts exactly the internet format.
-/

namespace StyleContract.Moment

/-- Why a text is no point in time. -/
inductive ReadError where
  | outOfRange
  | impossible
  | invalid
  | tooShort
  | tooLong
  deriving DecidableEq, Repr

def ReadError.message : ReadError → String
  | .outOfRange => "input is out of range"
  | .impossible => "no possible date and time matching input"
  | .invalid => "input contains invalid characters"
  | .tooShort => "premature end of input"
  | .tooLong => "trailing input"

abbrev Parse (α : Type) := List Char → Except ReadError (α × List Char)

def skipBlank (cs : List Char) : List Char := cs.dropWhile Text.isBlank

/-- Reads a number with one digit at least and `most` digits at most. -/
def number (most : Option Nat) : Parse Nat := fun cs =>
  let ds := match most with
    | some n => (cs.take n).takeWhile Char.isDigit
    | none => cs.takeWhile Char.isDigit
  if cs.isEmpty then .error .tooShort
  else if ds.isEmpty then .error .invalid
  else if twoTo 63 ≤ Text.digitsFrom 0 ds then .error .outOfRange
  else .ok (Text.digitsFrom 0 ds, cs.drop ds.length)

/-- Reads a year: up to four digits, or any number of them after a sign. -/
def year : Parse Int := fun cs => do
  let (y, cs) : Int × List Char ← match skipBlank cs with
    | '-' :: cs => (number none cs).map fun r => (-(r.1 : Int), r.2)
    | '+' :: cs => (number none cs).map fun r => ((r.1 : Int), r.2)
    | cs => (number (some 4) cs).map fun r => ((r.1 : Int), r.2)
  if -(twoTo 31 : Int) ≤ y ∧ y < twoTo 31 then .ok (y, cs) else .error .outOfRange

/-- Reads a number of up to two digits within bounds. -/
def field (least greatest : Nat) : Parse Nat := fun cs => do
  let (n, cs) ← number (some 2) (skipBlank cs)
  if least ≤ n ∧ n ≤ greatest then .ok (n, cs) else .error .outOfRange

/-- Reads one given character after blanks. -/
def mark (c : Char) : Parse Unit := fun cs =>
  match skipBlank cs with
  | [] => .error .tooShort
  | d :: cs => if d = c then .ok ((), cs) else .error .invalid

/-- Reads a fraction of a second in nanoseconds; digits after the ninth are dropped. -/
def fraction : Parse Nat
  | '.' :: cs => do
    let (n, rest) ← number (some 9) cs
    let count := cs.length - rest.length
    .ok (n * tenTo (9 - count), rest.dropWhile Char.isDigit)
  | cs => .ok (0, cs)

def startsWithUtc (cs : List Char) : Bool :=
  (cs.take 3).map Char.toUpper == ['U', 'T', 'C']

/-- Reads the two digits of an offset's part. -/
def twoDigits : List Char → Except ReadError (Nat × Nat × List Char)
  | a :: b :: cs =>
    if a.isDigit && b.isDigit then .ok (a.toNat - 48, b.toNat - 48, cs) else .error .invalid
  | _ => .error .tooShort

/-- Reads an offset from UTC in seconds. -/
def offset : Parse Int := fun cs =>
  if startsWithUtc cs then .ok (0, cs.drop 3)
  else
    match cs with
    | [] => .error .tooShort
    | c :: cs =>
      if c = 'Z' ∨ c = 'z' then .ok (0, cs)
      else if c = '+' ∨ c = '-' ∨ c = '\u2212' then do
        let (a, b, cs) ← twoDigits cs
        let (c', d, cs) ← twoDigits (cs.dropWhile fun x => x == ':' || Text.isBlank x)
        if 6 ≤ c' then .error .outOfRange
        let seconds : Int := (a * 10 + b) * 3600 + (c' * 10 + d) * 60
        .ok (if c = '+' then seconds else -seconds, cs)
      else .error .invalid

/-- The greatest year on either side that a calendar date may have. -/
def greatestYear : Int := 262142

/-- Reads a point in time leniently. -/
def ofText (s : String) : Except ReadError Moment := do
  let (y, cs) ← year s.toList
  let (_, cs) ← mark '-' cs
  let (mo, cs) ← field 1 12 cs
  let (_, cs) ← mark '-' cs
  let (d, cs) ← field 1 31 cs
  let cs ← match cs with
    | c :: cs => if c = 'T' ∨ c = 't' ∨ c = ' ' then .ok cs else .error .invalid
    | [] => .error .tooShort
  let (h, cs) ← field 0 23 cs
  let (_, cs) ← mark ':' cs
  let (mi, cs) ← field 0 59 cs
  let (_, cs) ← mark ':' cs
  let (sec, cs) ← field 0 60 cs
  let (nanos, cs) ← fraction cs
  let (off, cs) ← offset (skipBlank cs)
  if ¬ cs.isEmpty then .error .tooLong
  if greatestYear < y ∨ y < -greatestYear - 1 ∨ Calendar.daysIn y mo < d then .error .outOfRange
  if 86400 ≤ off.natAbs then .error .outOfRange
  let leap := sec / 60
  let local_ := Calendar.dayNumber y mo d * 86400 + ((h * 60 + mi) * 60 + (sec - leap) : Nat)
  .ok ⟨local_ - off, nanos + leap * 1000000000⟩

/-! ### The internet format -/

/-- The number that exactly `count` digits give. -/
def exactDigits? (count : Nat) (cs : List Char) : Option (Nat × List Char) :=
  let ds := (cs.take count).takeWhile Char.isDigit
  if ds.length = count then some (Text.digitsFrom 0 ds, cs.drop count) else none

def exactMark? (c : Char) : List Char → Option (List Char)
  | d :: cs => if d = c then some cs else none
  | [] => none

/-- Reads `Z` or a numeric offset that ends the text, in minutes. -/
def strictOffset? : List Char → Option Int
  | ['Z'] | ['z'] => some 0
  | sign :: cs =>
    if sign = '+' ∨ sign = '-' then do
      let (h, cs) ← exactDigits? 2 cs
      let cs ← exactMark? ':' cs
      let (m, cs) ← exactDigits? 2 cs
      if h ≤ 23 ∧ m ≤ 59 ∧ cs.isEmpty then
        let minutes : Int := h * 60 + m
        some (if sign = '+' then minutes else -minutes)
      else none
    else none
  | [] => none

/-- Reads a fraction, if there is one, after the seconds. -/
def strictFraction? : List Char → Option (List Char)
  | '.' :: cs => if (cs.head?.any Char.isDigit) then some (cs.dropWhile Char.isDigit) else none
  | cs => some cs

/-- Whether a text is a date and time in the internet format. A second 60 is one only in the last
minute of a day in UTC. -/
def isStrictText (s : String) : Bool :=
  (do
    let (y, cs) ← exactDigits? 4 s.toList
    let cs ← exactMark? '-' cs
    let (mo, cs) ← exactDigits? 2 cs
    let cs ← exactMark? '-' cs
    let (d, cs) ← exactDigits? 2 cs
    let cs ← match cs with
      | c :: cs => if c = 'T' ∨ c = 't' then some cs else none
      | [] => none
    let (h, cs) ← exactDigits? 2 cs
    let cs ← exactMark? ':' cs
    let (mi, cs) ← exactDigits? 2 cs
    let cs ← exactMark? ':' cs
    let (sec, cs) ← exactDigits? 2 cs
    let cs ← strictFraction? cs
    let off ← strictOffset? cs
    let minuteOfDay := ((h * 60 + mi : Nat) - off) % 1440
    some (1 ≤ mo && mo ≤ 12 && 1 ≤ d && d ≤ Calendar.daysIn y mo && h ≤ 23 && mi ≤ 59 &&
      (sec ≤ 59 || (sec == 60 && minuteOfDay == 1439)))).getD false

end StyleContract.Moment
