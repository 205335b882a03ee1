import StyleContract.Decimal.Magnitude

/-!
# Decimal — Shortest

The fewest decimal digits that read back as a given number, and of several such decimals the
nearest. `readsBack_shortest` is what the search promises.
-/

namespace StyleContract.Decimal

/-- The decimal `digits × 10 ^ exponent`. -/
structure Scaled where
  digits : Nat
  exponent : Int
  deriving DecidableEq, Repr

/-- The number that a decimal denotes, correctly rounded. -/
def Scaled.toFloat (d : Scaled) : Float :=
  Float.ofScientific d.digits (d.exponent < 0) d.exponent.natAbs

/-- The place of the point: `10 ^ (p - 1) ≤ num / den < 10 ^ p` for a positive fraction. -/
def pointOf (num den : Nat) : Int :=
  let k : Int := (Nat.toDigits 10 num).length - (Nat.toDigits 10 den).length
  let reached := if 0 ≤ k then den * tenTo k.toNat ≤ num else den ≤ num * tenTo (-k).toNat
  if reached then k + 1 else k

/-- The two decimals with `count` digits that enclose a fraction, the nearer one first. -/
def neighbours (num den : Nat) (point : Int) (count : Nat) : List Scaled :=
  let e := point - count
  let n := if 0 ≤ e then num else num * tenTo (-e).toNat
  let d := if 0 ≤ e then den * tenTo e.toNat else den
  let below : Scaled := ⟨n / d, e⟩
  let above : Scaled := ⟨n / d + 1, e⟩
  if 2 * (n % d) ≤ d then [below, above] else [above, below]

/-- The decimals to try for a fraction: one digit, two digits, and so on to seventeen. -/
def candidates (num den : Nat) : List Scaled :=
  (List.range 17).flatMap fun n => neighbours num den (pointOf num den) (n + 1)

/-- Whether a decimal is read as the number `x`, bit for bit. -/
def Scaled.readsAs (x : Float) (d : Scaled) : Bool := d.toFloat.toBits == x.toBits

/-- Moves the zeros at the end of the digits into the exponent; `fuel` bounds their number. -/
def Scaled.strip (d : Scaled) : Nat → Scaled
  | 0 => d
  | fuel + 1 =>
    if d.digits ≠ 0 ∧ d.digits % 10 = 0 then strip ⟨d.digits / 10, d.exponent + 1⟩ fuel else d

/-- The shortest decimal for the positive number `x`, whose exact value is `num / den`. -/
def shortest (x : Float) (num den : Nat) : Scaled :=
  match (candidates num den).find? (Scaled.readsAs x) with
  | some d => d.strip 20
  | none => ⟨num / den, 0⟩

/-- A decimal that the search finds reads back as the number. -/
theorem readsBack_shortest {x : Float} {num den : Nat} {d : Scaled}
    (h : (candidates num den).find? (Scaled.readsAs x) = some d) :
    d.toFloat.toBits = x.toBits := by
  simpa [Scaled.readsAs] using List.find?_some h

end StyleContract.Decimal
