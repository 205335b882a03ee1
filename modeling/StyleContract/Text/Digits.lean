/-!
# Text — Digits

The values of ASCII digits and of runs of them, in the bases up to sixteen.
-/

namespace StyleContract.Text

/-- The value of a decimal digit. -/
def decimalValue (c : Char) : Nat := c.toNat - 48

/-- The value of a hexadecimal digit in either letter case. -/
def hexValue? (c : Char) : Option Nat :=
  if c.isDigit then some (c.toNat - 48)
  else if 'a' ≤ c ∧ c ≤ 'f' then some (c.toNat - 87)
  else if 'A' ≤ c ∧ c ≤ 'F' then some (c.toNat - 55)
  else none

/-- The number that decimal digits write, after the digits of `n`. -/
def digitsFrom (n : Nat) (ds : List Char) : Nat := ds.foldl (fun n d => n * 10 + decimalValue d) n

theorem digitsFrom_append (n : Nat) (as bs : List Char) :
    digitsFrom n (as ++ bs) = digitsFrom (digitsFrom n as) bs := by
  simp [digitsFrom, List.foldl_append]

/-- The number of decimal digits alone, and of at least one. -/
def natural? (cs : List Char) : Option Nat :=
  if cs.isEmpty || !cs.all Char.isDigit then none else some (digitsFrom 0 cs)

/-- A natural number after a plus sign or no sign. -/
def signedNatural? : List Char → Option Nat
  | '+' :: cs => natural? cs
  | cs => natural? cs

/-- The number that some digits of a base write. -/
def digitsIn? (base : Nat) (cs : List Char) : Option Nat :=
  if cs.isEmpty then none
  else cs.foldlM (fun n c => do
    let d ← hexValue? c
    if d < base then some (n * base + d) else none) 0

end StyleContract.Text
