import StyleContract.Text.Digits

/-!
# Decimal — Reader

Numbers as people write them: a sign, digits with a point somewhere among or beside them, and an
exponent. The number nearest to what is written is taken; `Float.ofScientific` rounds correctly,
so all that is left to do here is to keep exponents within the range where they matter.
-/

namespace StyleContract.Decimal

/-- The number nearest to `digits × 10 ^ exponent`. Beyond the powers of ten that a number can
have, it is zero or infinite, and no power is computed. -/
def scaled (digits : Nat) (exponent : Int) : Float :=
  let first := ((Nat.toDigits 10 digits).length : Int) + exponent
  if digits = 0 ∨ first < -400 then 0.0
  else if 400 < first then 1.0 / 0.0
  else Float.ofScientific digits (exponent < 0) exponent.natAbs

/-- The number after its sign, without the words for what is not finite. -/
def unsigned? (cs : List Char) : Option Float := do
  let whole := cs.takeWhile Char.isDigit
  let rest := cs.dropWhile Char.isDigit
  let (fraction, rest) := match rest with
    | '.' :: rest => (rest.takeWhile Char.isDigit, rest.dropWhile Char.isDigit)
    | rest => ([], rest)
  if whole.isEmpty ∧ fraction.isEmpty then none
  let digits := Text.digitsFrom 0 (whole ++ fraction)
  let base : Int := -fraction.length
  match rest with
  | [] => some (scaled digits base)
  | e :: rest =>
    if e ≠ 'e' ∧ e ≠ 'E' then none
    let (down, ds) := match rest with
      | '-' :: ds => (true, ds)
      | '+' :: ds => (false, ds)
      | ds => (false, ds)
    let n ← Text.natural? ds
    some (scaled digits (if down then base - n else base + n))

/-- The words for what is not a finite number, in any letter case. -/
def word? (cs : List Char) : Option Float :=
  let w := cs.map Char.toLower
  if w = "inf".toList ∨ w = "infinity".toList then some (1.0 / 0.0)
  else if w = "nan".toList then some (0.0 / 0.0)
  else none

/-- The number that a text writes, from its first character to its last. -/
def ofChars? (cs : List Char) : Option Float :=
  let number? (cs : List Char) := (unsigned? cs).or (word? cs)
  match cs with
  | '-' :: cs => (number? cs).map (-·)
  | '+' :: cs => number? cs
  | cs => number? cs

end StyleContract.Decimal
