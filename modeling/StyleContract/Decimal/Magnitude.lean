import StyleContract.Power

/-!
# Decimal — Magnitude

What a 64-bit floating-point number is as a fraction: a sign, and a numerator over a
denominator. Printing and rounding work on this exact value.
-/

namespace StyleContract.Decimal

/-- A floating-point number taken apart; `num / den` is the exact size of a finite one. -/
inductive Magnitude where
  | nan
  | infinite (negative : Bool)
  | finite (negative : Bool) (num den : Nat)
  deriving DecidableEq, Repr

def isNegative : Float.Model.UnpackedFloat.Sign → Bool
  | .negative => true
  | .positive => false

/-- The exact value of a number. -/
def Magnitude.of (x : Float) : Magnitude :=
  match x.toModel.unpack with
  | .notANumber => .nan
  | .infinity s => .infinite (isNegative s)
  | .zero s => .finite (isNegative s) 0 1
  | .finite s m e _ =>
    if 0 ≤ e then .finite (isNegative s) (m * twoTo e.toNat) 1
    else .finite (isNegative s) m (twoTo (-e).toNat)

/-- Neither infinite nor a NaN. -/
def Magnitude.IsFinite : Magnitude → Bool
  | .finite .. => true
  | _ => false

/-- What a rounding does with a value half way between two neighbours. -/
inductive Tie where
  | toEven
  | away
  deriving DecidableEq, Repr

/-- The whole number nearest to `num / den`. -/
def roundDiv (tie : Tie) (num den : Nat) : Nat :=
  let q := num / den
  let r := num % den
  if 2 * r < den then q
  else if den < 2 * r then q + 1
  else match tie with
    | .away => q + 1
    | .toEven => q + q % 2

/-- A rounded quotient is off by half a unit at most. -/
theorem roundDiv_near {tie : Tie} {num den : Nat} (h : 0 < den) :
    2 * (roundDiv tie num den * den) ≤ 2 * num + den ∧
      2 * num ≤ 2 * (roundDiv tie num den * den) + den := by
  have hdiv : num / den * den + num % den = num := Nat.div_add_mod' num den
  have hlt : num % den < den := Nat.mod_lt num h
  have hsucc : (num / den + 1) * den = num / den * den + den := Nat.succ_mul ..
  have htwo : num / den % 2 = 0 ∨ num / den % 2 = 1 := Nat.mod_two_eq_zero_or_one _
  simp only [roundDiv]
  split
  · omega
  · split
    · omega
    · cases tie with
      | away => simp only; omega
      | toEven => rcases htwo with h0 | h0 <;> simp only [h0, Nat.add_zero] <;> omega

end StyleContract.Decimal
