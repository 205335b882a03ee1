import StyleContract.Decimal.Shortest

/-!
# Decimal — Layout

How the shortest digits of a number are set: where positional notation ends, how an exponent is
marked, and what stands for the values that are no number. A fixed number of places is rounded
from the exact value.
-/

namespace StyleContract.Decimal

/-- The decisions of one way to write numbers. -/
structure Layout where
  /-- Least and greatest power of ten of the first digit that is written positionally. -/
  positional : Option (Int × Int)
  /-- Whether a whole number ends in `.0`. -/
  pointZero : Bool
  /-- Whether a positive exponent has a sign. -/
  plus : Bool
  nan : String
  infinite : String

/-- The digits of a decimal with a point, without an exponent. -/
def positionalText (pointZero : Bool) (d : Scaled) : String :=
  let ds := Nat.toDigits 10 d.digits
  let whole := (ds.length : Int) + d.exponent
  let cs :=
    if 0 ≤ d.exponent then
      ds ++ List.replicate d.exponent.toNat '0' ++ (if pointZero then ['.', '0'] else [])
    else if 0 < whole then ds.take whole.toNat ++ '.' :: ds.drop whole.toNat
    else '0' :: '.' :: List.replicate (-whole).toNat '0' ++ ds
  String.ofList cs

/-- The digits of a decimal with the point after the first one, and an exponent. -/
def scientificText (plus : Bool) (d : Scaled) : String :=
  let ds := Nat.toDigits 10 d.digits
  let e := (ds.length : Int) + d.exponent - 1
  let mark := if e < 0 then ['e', '-'] else if plus then ['e', '+'] else ['e']
  let fraction := if ds.length ≤ 1 then [] else '.' :: ds.drop 1
  String.ofList (ds.take 1 ++ fraction ++ mark ++ Nat.toDigits 10 e.natAbs)

def signText (negative : Bool) : String := if negative then "-" else ""

/-- A number in a given layout. -/
def Layout.render (layout : Layout) (x : Float) : String :=
  match Magnitude.of x with
  | .nan => layout.nan
  | .infinite negative => signText negative ++ layout.infinite
  | .finite negative num den =>
    let d := if num = 0 then ⟨0, 0⟩ else shortest x.abs num den
    let first := ((Nat.toDigits 10 d.digits).length : Int) + d.exponent - 1
    let isPositional := match layout.positional with
      | some (least, greatest) => decide (least ≤ first ∧ first ≤ greatest)
      | none => true
    signText negative ++
      if isPositional then positionalText layout.pointZero d else scientificText layout.plus d

/-- Numbers in sentences: no exponent, and no point in a whole number. -/
def plain : Layout where
  positional := none
  pointZero := false
  plus := false
  nan := "NaN"
  infinite := "inf"

/-- A number with exactly `places` decimals; a value half way goes to the even neighbour. -/
def fixed (places : Nat) (x : Float) : String :=
  match Magnitude.of x with
  | .nan => plain.nan
  | .infinite negative => signText negative ++ plain.infinite
  | .finite negative num den =>
    let scaled := roundDiv .toEven (num * tenTo places) den
    let ds := Nat.toDigits 10 scaled
    let padded := List.replicate (places + 1 - ds.length) '0' ++ ds
    let whole := padded.length - places
    signText negative ++
      String.ofList (padded.take whole ++
        if places = 0 then [] else '.' :: padded.drop whole)

end StyleContract.Decimal
