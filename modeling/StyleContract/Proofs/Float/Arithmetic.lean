import Mathlib
import StyleContract.Proofs.Contract.Confidence

/-!
# Proofs — Float — Arithmetic

Floats count and divide like fractions, with a rounding after each step. `Rounds x r` says that `r` is the number
nearest to `x` among those with 53 binary digits, as far as the least exponent admits them, and with an even last
digit in case of a tie. **Rounding keeps order** (`Rounds.mono`): on a grid of one width a nearest number moves with
what it is near to, and where the width changes, a power of two lies between.

`Holds u x` says that a float that was taken apart is the number `x`, or infinite because `x` is `2 ^ 1024` at
least. **A whole number, a quotient and a product are held after rounding** (`holds_ofNat`, `holds_div`, `holds_mul`).
What rounds is a mantissa with two more bits. They tell on which side of a neighbour, or of the middle,
the exact number lies (`Stands`), and shifting keeps this.
-/

namespace StyleContract.Rounding

section

variable {x y r s : ℚ} {m n : ℕ} {t u : ℤ}

/-! ### Whole numbers -/

/-- A whole number is nearest to a fraction; of two it is the even one. -/
structure IsNearest (n : ℕ) (x : ℚ) : Prop where
  near : |x - n| ≤ 1 / 2
  even : |x - n| = 1 / 2 → Even n

theorem isNearest_self (n : ℕ) : IsNearest n n := by
  constructor <;> simp

theorem IsNearest.mono (hm : IsNearest m x) (hn : IsNearest n y) (h : x ≤ y) : m ≤ n := by
  have hx := abs_le.1 hm.near
  have hy := abs_le.1 hn.near
  by_contra hlt
  have hsucc : (n : ℚ) + 1 ≤ m := by exact_mod_cast Nat.lt_of_not_le hlt
  -- both are off by half a unit, from one fraction between two neighbours
  have hxm : |x - m| = 1 / 2 := by rw [abs_of_neg] <;> linarith
  have hyn : |y - n| = 1 / 2 := by rw [abs_of_pos] <;> linarith
  have hmn : m = n + 1 := by
    have : (m : ℚ) ≤ n + 1 := by linarith
    exact_mod_cast le_antisymm this hsucc
  obtain ⟨i, hi⟩ := hm.even hxm
  obtain ⟨j, hj⟩ := hn.even hyn
  omega

/-! ### Numbers with 53 digits -/

/-- The least exponent such that a number has no more than 53 digits before the point; an exponent is not
below that of the smallest float. -/
structure Grid (x : ℚ) (t : ℤ) : Prop where
  least : -1074 ≤ t
  lt : x < 2 ^ (t + 53)
  le : t = -1074 ∨ 2 ^ (t + 52) ≤ x

/-- A number as it is after rounding. -/
def Rounds (x r : ℚ) : Prop := ∃ (t : ℤ) (n : ℕ), Grid x t ∧ IsNearest n (x / 2 ^ t) ∧ r = n * 2 ^ t

theorem two_zpow_pos (t : ℤ) : (0 : ℚ) < 2 ^ t := zpow_pos two_pos t

theorem two_zpow_le (h : t ≤ u) : (2 : ℚ) ^ t ≤ 2 ^ u := zpow_le_zpow_right₀ one_le_two h

theorem two_pow_mul (k : ℕ) (t : ℤ) : ((2 ^ k : ℕ) : ℚ) * 2 ^ t = 2 ^ (t + k) := by
  rw [zpow_add₀ two_ne_zero, zpow_natCast, mul_comm]
  norm_cast

theorem Grid.le_two_pow (h : Grid x t) (hn : IsNearest n (x / 2 ^ t)) : n ≤ 2 ^ 53 := by
  refine hn.mono (isNearest_self _) ?_
  rw [div_le_iff₀ (two_zpow_pos t), two_pow_mul]
  exact h.lt.le

theorem Grid.two_pow_le (h : Grid x t) (ht : t ≠ -1074) (hn : IsNearest n (x / 2 ^ t)) :
    2 ^ 52 ≤ n := by
  refine (isNearest_self _).mono hn ?_
  rw [le_div_iff₀ (two_zpow_pos t), two_pow_mul]
  exact h.le.resolve_left ht

/-- **Rounding keeps order.** -/
theorem Rounds.mono (hr : Rounds x r) (hs : Rounds y s) (h : x ≤ y) : r ≤ s := by
  obtain ⟨t, m, hx, hm, rfl⟩ := hr
  obtain ⟨u, n, hy, hn, rfl⟩ := hs
  rcases lt_trichotomy t u with hlt | rfl | hlt
  · -- a power of two lies between
    have hleast := hx.least
    have hfew : (m : ℚ) * 2 ^ t ≤ 2 ^ (t + 53) := by
      have hle : (m : ℚ) ≤ (2 ^ 53 : ℕ) := by exact_mod_cast hx.le_two_pow hm
      exact (mul_le_mul_of_nonneg_right hle (two_zpow_pos t).le).trans_eq (two_pow_mul 53 t)
    have hmany : (2 : ℚ) ^ (u + 52) ≤ n * 2 ^ u := by
      have hle : ((2 ^ 52 : ℕ) : ℚ) ≤ n := by exact_mod_cast hy.two_pow_le (by omega) hn
      exact (two_pow_mul 52 u).symm.trans_le (mul_le_mul_of_nonneg_right hle (two_zpow_pos u).le)
    exact hfew.trans ((two_zpow_le (by omega)).trans hmany)
  · have hmn : m ≤ n := hm.mono hn (div_le_div_of_nonneg_right h (two_zpow_pos t).le)
    exact mul_le_mul_of_nonneg_right (by exact_mod_cast hmn) (two_zpow_pos t).le
  · -- the smaller number would need the wider grid
    have hleast := hy.least
    have hwide : (2 : ℚ) ^ (t + 52) ≤ x := hx.le.resolve_left (by omega)
    have hnarrow : (2 : ℚ) ^ (u + 53) ≤ 2 ^ (t + 52) := two_zpow_le (by omega)
    exact absurd (hnarrow.trans (hwide.trans h)) (not_le.2 hy.lt)

theorem Rounds.unique (hr : Rounds x r) (hs : Rounds x s) : r = s :=
  le_antisymm (hr.mono hs le_rfl) (hs.mono hr le_rfl)

/-- A number of 53 digits is left as it is. -/
theorem rounds_self (hn : 2 ^ 52 ≤ n) (hn' : n < 2 ^ 53) (ht : -1074 ≤ t) :
    Rounds (n * 2 ^ t) (n * 2 ^ t) := by
  have hlow : ((2 ^ 52 : ℕ) : ℚ) ≤ n := by exact_mod_cast hn
  have hhigh : (n : ℚ) < (2 ^ 53 : ℕ) := by exact_mod_cast hn'
  refine ⟨t, n, ⟨ht, ?_, .inr ?_⟩, ?_, rfl⟩
  · exact (mul_lt_mul_of_pos_right hhigh (two_zpow_pos t)).trans_eq (two_pow_mul 53 t)
  · exact (two_pow_mul 52 t).symm.trans_le (mul_le_mul_of_nonneg_right hlow (two_zpow_pos t).le)
  · rw [mul_div_cancel_right₀ _ (two_zpow_pos t).ne']
    exact isNearest_self n

theorem rounds_zero : Rounds 0 0 :=
  ⟨-1074, 0, ⟨le_rfl, two_zpow_pos _, .inl rfl⟩, by simpa using isNearest_self 0, by simp⟩

/-- Whole numbers of 53 digits at most are left as they are. -/
theorem rounds_natCast (hn : n < 2 ^ 53) : Rounds n n := by
  rcases Nat.eq_zero_or_pos n with rfl | hpos
  · simpa using rounds_zero
  · have hlog : n.log2 < 53 := (Nat.log2_lt hpos.ne').2 hn
    have hlow := Nat.log2_self_le hpos.ne'
    have hhigh := Nat.lt_log2_self (n := n)
    have hself : Rounds ((n * 2 ^ (52 - n.log2) : ℕ) * 2 ^ (-(52 - n.log2 : ℕ) : ℤ))
        ((n * 2 ^ (52 - n.log2) : ℕ) * 2 ^ (-(52 - n.log2 : ℕ) : ℤ)) := by
      refine rounds_self ?_ ?_ (by omega)
      · calc 2 ^ 52 = 2 ^ n.log2 * 2 ^ (52 - n.log2) := by rw [← pow_add]; congr 1; omega
          _ ≤ n * 2 ^ (52 - n.log2) := Nat.mul_le_mul_right _ hlow
      · calc n * 2 ^ (52 - n.log2) < 2 ^ (n.log2 + 1) * 2 ^ (52 - n.log2) :=
              Nat.mul_lt_mul_of_pos_right hhigh (Nat.two_pow_pos _)
          _ = 2 ^ 53 := by rw [← pow_add]; congr 1; omega
    have hscale : ((n * 2 ^ (52 - n.log2) : ℕ) : ℚ) * 2 ^ (-(52 - n.log2 : ℕ) : ℤ) = n := by
      push_cast
      rw [mul_assoc, ← zpow_natCast, ← zpow_add₀ two_ne_zero, add_neg_cancel, zpow_zero, mul_one]
    rwa [hscale] at hself

end

open Float.Model Float.Model.UnpackedFloat

variable {x y r z : ℚ} {m n k : ℕ} {e t : ℤ} {u : UnpackedFloat} {f g : Float}

/-! ### Mantissas -/

/-- A mantissa stands for a fraction: the two bits tell how the fraction lies between it and the next
whole number. -/
def Stands (em : ExtendedMantissa) (x : ℚ) : Prop :=
  match em.roundBit, em.stickyBit with
  | false, false => x = em.mantissa
  | false, true => em.mantissa < x ∧ x < em.mantissa + 1 / 2
  | true, false => x = em.mantissa + 1 / 2
  | true, true => em.mantissa + 1 / 2 < x ∧ x < em.mantissa + 1

theorem Stands.bounds {em : ExtendedMantissa} (h : Stands em x) :
    (em.mantissa : ℚ) ≤ x ∧ x < em.mantissa + 1 := by
  obtain ⟨m, r, s⟩ := em
  cases r <;> cases s <;> simp only [Stands] at h ⊢ <;> constructor <;> linarith

theorem Stands.shiftRightOne {em : ExtendedMantissa} (h : Stands em x) :
    Stands em.shiftRightOne (x / 2) := by
  obtain ⟨m, r, s⟩ := em
  have hdiv : (m : ℚ) = 2 * (m / 2 : ℕ) + (m % 2 : ℕ) := by exact_mod_cast (Nat.div_add_mod m 2).symm
  rcases Nat.mod_two_eq_zero_or_one m with hm | hm <;> rw [hm] at hdiv <;> cases r <;> cases s <;>
    simp only [Stands, ExtendedMantissa.shiftRightOne, hm] at h ⊢ <;> push_cast at hdiv <;>
    simp <;> (try constructor) <;> linarith

theorem Stands.shiftRight {em : ExtendedMantissa} (h : Stands em x) (k : ℕ) :
    Stands (em >>> k) (x / 2 ^ k) := by
  induction k with
  | zero =>
      rw [pow_zero, div_one]
      exact h
  | succ k ih =>
      rw [pow_succ, ← div_div]
      exact ih.shiftRightOne

theorem isNearest_of_lt (h : |x - n| < 1 / 2) : IsNearest n x :=
  ⟨h.le, fun he => absurd he h.ne⟩

theorem Stands.isNearest {em : ExtendedMantissa} (h : Stands em x) :
    IsNearest em.roundedMantissa x := by
  obtain ⟨m, r, s⟩ := em
  cases r <;> cases s <;> simp only [Stands] at h
  · rw [h]
    exact isNearest_self m
  · show IsNearest m x
    exact isNearest_of_lt (abs_lt.2 ⟨by linarith, by linarith⟩)
  · -- half way the mantissa that is even is taken
    show IsNearest (m + m % 2) x
    rcases Nat.mod_two_eq_zero_or_one m with hm | hm <;> rw [h, hm]
    · refine ⟨by norm_num, fun _ => Nat.even_iff.2 hm⟩
    · refine ⟨?_, fun _ => (Nat.odd_iff.2 hm).add_one⟩
      push_cast
      norm_num
  · show IsNearest (m + 1) x
    refine isNearest_of_lt (abs_lt.2 ?_)
    push_cast
    constructor <;> linarith

/-- The remainder of a division tells how the fraction lies. -/
theorem stands_accuracyOfFraction (hn : 0 < n) :
    Stands (.ofMantissaAndAccuracy (m / n) (accuracyOfFraction (m % n) n)) (m / n) := by
  have hpos : (0 : ℚ) < n := by exact_mod_cast hn
  have hrest : (m % n : ℕ) / (n : ℚ) < 1 := by
    rw [div_lt_one hpos]
    exact_mod_cast Nat.mod_lt m hn
  have hdiv : (m : ℚ) / n = (m / n : ℕ) + (m % n : ℕ) / n := by
    have hsum : (m : ℚ) = (m / n : ℕ) * n + (m % n : ℕ) := by exact_mod_cast (Nat.div_add_mod' m n).symm
    rw [div_eq_iff hpos.ne', add_mul, div_mul_cancel₀ _ hpos.ne', ← hsum]
  rw [hdiv]
  rcases Nat.eq_zero_or_pos (m % n) with hzero | hne
  · simp [hzero, accuracyOfFraction, ExtendedMantissa.ofMantissaAndAccuracy, Stands]
  · have hmore : (0 : ℚ) < (m % n : ℕ) / n := div_pos (by exact_mod_cast hne) hpos
    rw [accuracyOfFraction, if_neg hne.ne']
    rcases lt_trichotomy (2 * (m % n)) n with hlt | heq | hgt
    · have hhalf : (m % n : ℕ) / (n : ℚ) < 1 / 2 := by
        rw [div_lt_div_iff₀ hpos two_pos]
        exact_mod_cast (by omega : m % n * 2 < 1 * n)
      rw [Nat.compare_eq_lt.2 hlt]
      exact ⟨lt_add_of_pos_right _ hmore, (add_lt_add_iff_left _).2 hhalf⟩
    · have hhalf : (m % n : ℕ) / (n : ℚ) = 1 / 2 := by
        rw [div_eq_div_iff hpos.ne' two_ne_zero]
        exact_mod_cast (by omega : m % n * 2 = 1 * n)
      rw [Nat.compare_eq_eq.2 heq, hhalf]
      rfl
    · have hhalf : 1 / 2 < (m % n : ℕ) / (n : ℚ) := by
        rw [div_lt_div_iff₀ two_pos hpos]
        exact_mod_cast (by omega : 1 * n < m % n * 2)
      rw [Nat.compare_eq_gt.2 hgt]
      exact ⟨(add_lt_add_iff_left _).2 hhalf, (add_lt_add_iff_left _).2 hrest⟩

theorem stands_exact (m : ℕ) : Stands (.ofMantissaAndAccuracy m .exact) m := rfl

/-! ### Floats -/

/-- What a float is that holds a number: nothing but its digits, or infinite where these do not suffice. -/
inductive Holds : UnpackedFloat → ℚ → Prop
  | zero : Holds (.zero .positive) 0
  | finite (m : ℕ) (e : ℤ) (hm : 0 < m) (few : m < 2 ^ 53) (low : -1074 ≤ e) (high : e ≤ 971)
      (full : e = -1074 ∨ 2 ^ 52 ≤ m) : Holds (.finite .positive m e hm) (m * 2 ^ e)
  | infinite (x : ℚ) (h : 2 ^ 1024 ≤ x) : Holds (.infinity .positive) x

/-- The exponent that a number is rounded to. -/
theorem targetExponent_eq (m : ℕ) (e : ℤ) :
    Format.binary64.targetExponent (totalExponent m e) = max (m.log2 + 1 + e - 53) (-1074) := rfl

theorem grid_target (hz : (m : ℚ) ≤ z) (hz' : z < m + 1)
    (he : e ≤ Format.binary64.targetExponent (totalExponent m e)) :
    Grid (z * 2 ^ e) (Format.binary64.targetExponent (totalExponent m e)) := by
  rw [targetExponent_eq] at he ⊢
  set t := max (m.log2 + 1 + e - 53 : ℤ) (-1074) with ht
  refine ⟨by omega, ?_, ?_⟩
  · have hlt : z < (2 ^ (m.log2 + 1) : ℕ) := by
      refine hz'.trans_le ?_
      exact_mod_cast Nat.lt_log2_self
    calc z * 2 ^ e < (2 ^ (m.log2 + 1) : ℕ) * 2 ^ e := mul_lt_mul_of_pos_right hlt (two_zpow_pos e)
      _ = 2 ^ (e + (m.log2 + 1 : ℕ)) := two_pow_mul _ e
      _ ≤ 2 ^ (t + 53) := two_zpow_le (by omega)
  · by_cases hlow : t = -1074
    · exact .inl hlow
    · -- without digits the target would be below the exponent
      have hne : m ≠ 0 := by
        rintro rfl
        have : Nat.log2 0 = 0 := rfl
        omega
      have hle : ((2 ^ m.log2 : ℕ) : ℚ) ≤ z := le_trans (by exact_mod_cast Nat.log2_self_le hne) hz
      refine .inr ?_
      calc (2 : ℚ) ^ (t + 52) = 2 ^ (e + (m.log2 : ℕ)) := by congr 1; omega
        _ = (2 ^ m.log2 : ℕ) * 2 ^ e := (two_pow_mul _ e).symm
        _ ≤ z * 2 ^ e := mul_le_mul_of_nonneg_right hle (two_zpow_pos e).le

/-- A float whose exponent is not bounded above. -/
inductive Proper : UnpackedFloat → ℚ → Prop
  | zero : Proper (.zero .positive) 0
  | finite (m : ℕ) (e : ℤ) (hm : 0 < m) (few : m < 2 ^ 53) (low : -1074 ≤ e)
      (full : e = -1074 ∨ 2 ^ 52 ≤ m) : Proper (.finite .positive m e hm) (m * 2 ^ e)

/-- A mantissa that is rounded may get one more digit, which the second shift takes away. -/
theorem proper_shift (hn : n ≤ 2 ^ 53) (ht : -1074 ≤ t) (hfull : t = -1074 ∨ 2 ^ 52 ≤ n) :
    ∃ em t', shiftToTargetExponent Format.binary64 n t .exact = (em, t') ∧ em.mantissa < 2 ^ 53 ∧
      -1074 ≤ t' ∧ (t' = -1074 ∨ 2 ^ 52 ≤ em.mantissa) ∧ (em.mantissa : ℚ) * 2 ^ t' = n * 2 ^ t := by
  refine ⟨_, _, rfl, ?_⟩
  rw [Rule.shiftRight_mantissa, targetExponent_eq]
  rcases Nat.lt_or_eq_of_le hn with hlt | rfl
  · have hlog : n.log2 ≤ 52 := by
      rcases Nat.eq_zero_or_pos n with rfl | hpos
      · decide
      · exact Nat.le_of_lt_succ ((Nat.log2_lt hpos.ne').2 hlt)
    have hnone : (max (n.log2 + 1 + t - 53 : ℤ) (-1074) - t).toNat = 0 := by omega
    rw [hnone]
    simpa [ExtendedMantissa.ofMantissaAndAccuracy] using ⟨hlt, ht, hfull⟩
  · have hone : (max ((2 ^ 53 : ℕ).log2 + 1 + t - 53 : ℤ) (-1074) - t).toNat = 1 := by
      rw [Nat.log2_two_pow]
      omega
    rw [hone]
    refine ⟨by decide, by omega, .inr (by decide), ?_⟩
    rw [zpow_add₀ two_ne_zero]
    simp [ExtendedMantissa.ofMantissaAndAccuracy]
    ring

/-- **A mantissa that stands for a fraction is rounded to what is nearest.** -/
theorem proper_roundWithAccuracy {a : Accuracy} (hz : Stands (.ofMantissaAndAccuracy m a) z)
    (he : e ≤ Format.binary64.targetExponent (totalExponent m e)) :
    ∃ r, Rounds (z * 2 ^ e) r ∧ Proper (roundWithAccuracy Format.binary64 .positive m e a) r := by
  have hm : (ExtendedMantissa.ofMantissaAndAccuracy m a).mantissa = m := by
    rcases a with _ | (_ | _ | _) <;> rfl
  obtain ⟨hlow, hhigh⟩ := hz.bounds
  rw [hm] at hlow hhigh
  have hgrid := grid_target hlow hhigh he
  set t := Format.binary64.targetExponent (totalExponent m e) with ht
  have hscale : z * 2 ^ e / 2 ^ t = z / 2 ^ (t - e).toNat := by
    rw [mul_div_assoc, ← zpow_sub₀ two_ne_zero, ← zpow_natCast, div_eq_mul_inv, ← zpow_neg]
    congr 2
    omega
  have hfirst := (hz.shiftRight (t - e).toNat).isNearest
  rw [← hscale] at hfirst
  have hexponent : e + ((t - e).toNat : ℤ) = t := by omega
  obtain ⟨em, t', hshift, hfew, hleast, hfull, hsame⟩ :=
    proper_shift (hgrid.le_two_pow hfirst) hgrid.least
      (or_iff_not_imp_left.2 fun hne => hgrid.two_pow_le hne hfirst)
  refine ⟨_, ⟨t, _, hgrid, hfirst, rfl⟩, ?_⟩
  rw [← hsame]
  have hround : roundWithAccuracy Format.binary64 .positive m e a =
      if h : em.mantissa = 0 then .zero .positive
      else .finite .positive em.mantissa t' (Nat.pos_of_ne_zero h) := by
    have hfirstShift : shiftToTargetExponent Format.binary64 m e a =
        (ExtendedMantissa.ofMantissaAndAccuracy m a >>> (t - e).toNat, t) := by
      rw [shiftToTargetExponent, shiftToExponent, ← ht, hexponent]
    simp only [roundWithAccuracy, hfirstShift, hshift]
  rw [hround]
  split
  · next hzero =>
      rw [hzero, Nat.cast_zero, zero_mul]
      exact .zero
  · exact .finite _ _ _ hfew hleast hfull

/-! ### Packing -/

theorem nat_implicit {m : ℕ} (hm : 2 ^ 52 ≤ m) (few : m < 2 ^ 53) :
    (1#1 ++ BitVec.ofNat 52 m).toNat = m := by
  have hlow : (BitVec.ofNat 52 m).toNat = m - 2 ^ 52 := by
    rw [BitVec.toNat_ofNat]
    omega
  rw [BitVec.toNat_append, ← Nat.shiftLeft_add_eq_or_of_lt (by omega), hlow]
  exact Nat.add_sub_cancel' hm

/-- A number with all its digits, and a biased exponent in the middle. -/
theorem unpack_full {b : ℕ} (hm : 2 ^ 52 ≤ m) (few : m < 2 ^ 53) (hb : 0 < b) (hb' : b < 2047) :
    UnpackedFloat.unpack Format.binary64
        (packComponents Format.binary64 .positive (BitVec.ofNat 11 b) (BitVec.ofNat 52 m)) =
      .finite .positive m (b - 1075) (by omega) := by
  have hexponent : (BitVec.ofNat 11 b).toNat = b := Nat.mod_eq_of_lt (by omega)
  have hones : ¬ BitVec.ofNat 11 b = -1#11 := fun h => by
    rw [h] at hexponent
    exact absurd hexponent.symm hb'.ne
  have hzero : ¬ BitVec.ofNat 11 b = 0#11 := fun h => by
    rw [h] at hexponent
    exact absurd hexponent hb.ne
  have hpositive : Sign.ofBitVec Sign.positive.toBitVec = .positive := rfl
  have hbias : Format.binary64.exponentBias + Format.binary64.mantissaBitsWithoutImplicit = 1075 := rfl
  simp only [UnpackedFloat.unpack, unpackMantissa_packComponents, unpackExponent_packComponents,
    Rule.unpackSign_packComponents, hones, hzero, if_false, hpositive, nat_implicit hm few, hexponent]
  rfl

/-- A number with fewer digits has the least exponent. -/
theorem unpack_short (hm : 0 < m) (few : m < 2 ^ 52) :
    UnpackedFloat.unpack Format.binary64
        (packComponents Format.binary64 .positive 0#11 (BitVec.ofNat 52 m)) =
      .finite .positive m (-1074) hm := by
  have hmantissa : (BitVec.ofNat 52 m).toNat = m := Nat.mod_eq_of_lt few
  have hne : ¬ BitVec.ofNat 52 m = 0#52 := fun h => by
    rw [h] at hmantissa
    exact absurd hmantissa hm.ne
  have hones : ¬ (0#11 = -1#11) := by decide
  have hpositive : Sign.ofBitVec Sign.positive.toBitVec = .positive := rfl
  simp only [UnpackedFloat.unpack, unpackMantissa_packComponents, unpackExponent_packComponents,
    Rule.unpackSign_packComponents, hones, if_false, if_true, hne, dite_false, hpositive, hmantissa]
  rfl

/-- **A packed number is taken apart as it was**, or it is infinite. -/
theorem holds_unpack_pack (h : Proper u x) : Holds (pack u).unpack x := by
  cases h with
  | zero => exact .zero
  | finite m e hm few low full =>
      show Holds (UnpackedFloat.unpack Format.binary64 (UnpackedFloat.pack Format.binary64 _)) _
      have hbiased : (e + Format.binary64.exponentBias + Format.binary64.mantissaBitsWithoutImplicit).toNat =
          (e + 1075).toNat := by
        show (e + (1023 : ℕ) + (52 : ℕ)).toNat = _
        omega
      simp only [UnpackedFloat.pack, hbiased]
      split
      · next hlarge =>
          have hlarge : 2 ^ 11 ≤ (e + 1075).toNat + 1 := hlarge
          have hfull : ((2 ^ 52 : ℕ) : ℚ) ≤ m := by exact_mod_cast full.resolve_left (by omega)
          refine .infinite _ ?_
          calc (2 : ℚ) ^ 1024 = 2 ^ ((1024 : ℕ) : ℤ) := (zpow_natCast 2 1024).symm
            _ ≤ 2 ^ (e + (52 : ℕ)) := two_zpow_le (by omega)
            _ = (2 ^ 52 : ℕ) * 2 ^ e := (two_pow_mul 52 e).symm
            _ ≤ m * 2 ^ e := mul_le_mul_of_nonneg_right hfull (two_zpow_pos e).le
      · next hsmall =>
          have hsmall : ¬ 2 ^ 11 ≤ (e + 1075).toNat + 1 := hsmall
          have hholds : Holds (.finite .positive m e hm) (m * 2 ^ e) :=
            .finite m e hm few low (by omega) full
          split
          · next hlog =>
              have hlog : m.log2 + 1 = 53 := hlog
              have hmany : 2 ^ 52 ≤ m := (Nat.le_log2 hm.ne').1 (by omega)
              have hunpack := unpack_full (b := (e + 1075).toNat) hmany few (by omega) (by omega)
              have hsame : ((e + 1075).toNat : ℤ) - 1075 = e := by omega
              simp only [hsame] at hunpack
              exact hunpack ▸ hholds
          · next hlog =>
              have hlog : ¬ m.log2 + 1 = 53 := hlog
              have hfew : m < 2 ^ 52 := by
                have hless : m.log2 < 53 := (Nat.log2_lt hm.ne').2 few
                exact (Nat.log2_lt hm.ne').1 (by omega)
              obtain rfl : e = -1074 := full.resolve_right (by omega)
              exact (unpack_short hm hfew) ▸ hholds

/-! ### Operations -/

theorem Holds.eq_of_lt (h : Holds u x) (hx : x < 2 ^ 1024) :
    (u = .zero .positive ∧ x = 0) ∨ ∃ m e hm, u = .finite .positive m e hm ∧ x = m * 2 ^ e := by
  cases h with
  | zero => exact .inl ⟨rfl, rfl⟩
  | finite m e hm => exact .inr ⟨m, e, hm, rfl, rfl⟩
  | infinite x h => exact absurd hx (not_lt.2 h)

theorem Holds.eq_infinity (h : Holds u x) (hx : 2 ^ 1024 ≤ x) : u = .infinity .positive := by
  cases h with
  | zero => exact absurd (hx.trans_lt' (by positivity)) (lt_irrefl _)
  | finite m e hm few low high =>
      have hfew : (m : ℚ) < (2 ^ 53 : ℕ) := by exact_mod_cast few
      have hlt : (m * 2 ^ e : ℚ) < 2 ^ 1024 := by
        calc (m * 2 ^ e : ℚ) < (2 ^ 53 : ℕ) * 2 ^ e := mul_lt_mul_of_pos_right hfew (two_zpow_pos e)
          _ = 2 ^ (e + (53 : ℕ)) := two_pow_mul 53 e
          _ ≤ 2 ^ ((1024 : ℕ) : ℤ) := two_zpow_le (by omega)
          _ = 2 ^ 1024 := zpow_natCast 2 1024
      exact absurd hx (not_le.2 hlt)
  | infinite => rfl

/-- Digits that are more than enough are rounded. -/
theorem proper_exact (hm : 2 ^ 52 ≤ m) (e : ℤ) :
    ∃ r, Rounds (m * 2 ^ e) r ∧ Proper (roundWithAccuracy Format.binary64 .positive m e .exact) r := by
  refine proper_roundWithAccuracy (stands_exact m) ?_
  have hlog : 52 ≤ m.log2 := (Nat.le_log2 (by omega)).2 hm
  rw [targetExponent_eq]
  omega

/-- **A product with a full mantissa is rounded.** -/
theorem holds_mul (hf : Holds f.toModel.unpack x) (hx : x < 2 ^ 1024) {hm : 0 < m}
    (hg : g.toModel.unpack = .finite .positive m e hm) (hmany : 2 ^ 52 ≤ m) :
    ∃ r, Rounds (x * (m * 2 ^ e)) r ∧ Holds (f * g).toModel.unpack r := by
  suffices h : ∃ r, Rounds (x * (m * 2 ^ e)) r ∧
      Proper (UnpackedFloat.mul Format.binary64 f.toModel.unpack g.toModel.unpack) r by
    obtain ⟨r, hr, hproper⟩ := h
    exact ⟨r, hr, holds_unpack_pack hproper⟩
  rw [hg]
  rcases hf.eq_of_lt hx with ⟨hu, rfl⟩ | ⟨m₁, e₁, hm₁, hu, rfl⟩ <;> rw [hu]
  · rw [zero_mul]
    exact ⟨0, rounds_zero, .zero⟩
  · have hproduct : (m₁ * 2 ^ e₁ * (m * 2 ^ e) : ℚ) = (m₁ * m : ℕ) * 2 ^ (e₁ + e) := by
      rw [zpow_add₀ two_ne_zero, Nat.cast_mul, mul_mul_mul_comm]
    rw [hproduct]
    exact proper_exact (hmany.trans (Nat.le_mul_of_pos_left m hm₁)) (e₁ + e)

/-- The digits of a quotient suffice. -/
theorem quotient_le_target {m₁ m₂ : ℕ} {e₁ e₂ t : ℤ} (hm₁ : 0 < m₁) (hm₂ : 0 < m₂) (ht : t ≤ e₁ - e₂)
    (ht' : t ≤ Format.binary64.targetExponent (totalExponent m₁ e₁ - totalExponent m₂ e₂)) :
    t ≤ Format.binary64.targetExponent (totalExponent (m₁ <<< (e₁ - e₂ - t).toNat / m₂) t) := by
  have htarget : Format.binary64.targetExponent (totalExponent m₁ e₁ - totalExponent m₂ e₂) =
      max ((m₁.log2 + 1 + e₁) - (m₂.log2 + 1 + e₂) - 53) (-1074) := rfl
  rw [htarget] at ht'
  rw [targetExponent_eq]
  by_cases hlow : t ≤ -1074
  · omega
  · have hexponents : 52 + (m₂.log2 + 1) ≤ m₁.log2 + (e₁ - e₂ - t).toNat := by omega
    have hmany : 2 ^ 52 ≤ m₁ <<< (e₁ - e₂ - t).toNat / m₂ := by
      rw [Nat.le_div_iff_mul_le hm₂, Nat.shiftLeft_eq]
      calc 2 ^ 52 * m₂ ≤ 2 ^ 52 * 2 ^ (m₂.log2 + 1) := Nat.mul_le_mul_left _ Nat.lt_log2_self.le
        _ ≤ 2 ^ (m₁.log2 + (e₁ - e₂ - t).toNat) := by
            rw [← pow_add]
            exact Nat.pow_le_pow_right two_pos hexponents
        _ ≤ m₁ * 2 ^ (e₁ - e₂ - t).toNat := by
            rw [pow_add]
            exact Nat.mul_le_mul_right _ (Nat.log2_self_le hm₁.ne')
    have hlog := (Nat.le_log2 (by omega)).2 hmany
    omega

/-- **A quotient is rounded.** -/
theorem holds_div (hf : Holds f.toModel.unpack x) (hx : x < 2 ^ 1024) (hg : Holds g.toModel.unpack y)
    (hy : 0 < y) (hy' : y < 2 ^ 1024) :
    ∃ r, Rounds (x / y) r ∧ Holds (f / g).toModel.unpack r := by
  suffices h : ∃ r, Rounds (x / y) r ∧
      Proper (UnpackedFloat.div Format.binary64 f.toModel.unpack g.toModel.unpack) r by
    obtain ⟨r, hr, hproper⟩ := h
    exact ⟨r, hr, holds_unpack_pack hproper⟩
  obtain ⟨m₂, e₂, hm₂, hv, rfl⟩ := (hg.eq_of_lt hy').resolve_left fun h => hy.ne' h.2
  rw [hv]
  rcases hf.eq_of_lt hx with ⟨hu, rfl⟩ | ⟨m₁, e₁, hm₁, hu, rfl⟩ <;> rw [hu]
  · rw [zero_div]
    exact ⟨0, rounds_zero, .zero⟩
  · set t := min (e₁ - e₂) (Format.binary64.targetExponent (totalExponent m₁ e₁ - totalExponent m₂ e₂))
      with ht
    have hquotient : (m₁ * 2 ^ e₁ / (m₂ * 2 ^ e₂) : ℚ) =
        (m₁ <<< (e₁ - e₂ - t).toNat : ℕ) / m₂ * 2 ^ t := by
      have hexponents : ((e₁ - e₂ - t).toNat : ℤ) + t = e₁ - e₂ := by omega
      generalize (e₁ - e₂ - t).toNat = k at hexponents ⊢
      rw [mul_div_mul_comm, ← zpow_sub₀ two_ne_zero, ← hexponents, zpow_add₀ two_ne_zero, zpow_natCast,
        Nat.shiftLeft_eq, Nat.cast_mul, Nat.cast_pow, Nat.cast_two]
      ring
    rw [hquotient]
    exact proper_roundWithAccuracy (stands_accuracyOfFraction hm₂)
      (quotient_le_target hm₁ hm₂ (by omega) (by omega))

/-- Digits that are too few are preceded by zeros and rounded. -/
theorem proper_round (hn : 0 < n) (hn' : n < 2 ^ 53) :
    ∃ r, Rounds n r ∧ Proper (UnpackedFloat.round Format.binary64 .positive n 0) r := by
  have hlog : n.log2 < 53 := (Nat.log2_lt hn.ne').2 hn'
  have htarget : Format.binary64.targetExponent (totalExponent n 0) = (n.log2 : ℤ) - 52 := by
    rw [targetExponent_eq]
    omega
  have hshift : (0 - ((n.log2 : ℤ) - 52)).toNat = 52 - n.log2 := by omega
  have hmany : 2 ^ 52 ≤ n <<< (52 - n.log2) := by
    rw [Nat.shiftLeft_eq]
    calc 2 ^ 52 = 2 ^ n.log2 * 2 ^ (52 - n.log2) := by rw [← pow_add]; congr 1; omega
      _ ≤ n * 2 ^ (52 - n.log2) := Nat.mul_le_mul_right _ (Nat.log2_self_le hn.ne')
  have hsame : (n : ℚ) = (n <<< (52 - n.log2) : ℕ) * 2 ^ (0 - (52 - n.log2 : ℕ) : ℤ) := by
    rw [Nat.shiftLeft_eq, Nat.cast_mul, mul_assoc, two_pow_mul, sub_add_cancel, zpow_zero, mul_one]
  simp only [UnpackedFloat.round, htarget, decreaseExponent, hshift]
  rw [hsame]
  exact proper_exact hmany _

/-- **A whole number is rounded.** -/
theorem holds_ofNat (n : ℕ) : ∃ r, Rounds n r ∧ Holds (Float.ofNat n).toModel.unpack r := by
  rcases Nat.eq_zero_or_pos n with rfl | hpos
  · exact ⟨0, by simpa using rounds_zero, .zero⟩
  · by_cases hn : n < 2 ^ 53
    · -- the number is held as it is, and so is its product with one
      obtain ⟨r, hr, hproper⟩ := proper_round hpos hn
      obtain rfl := hr.unique (rounds_natCast hn)
      have hword : Holds n.toUInt64.toFloat.toModel.unpack n := by
        show Holds (pack (UnpackedFloat.ofUInt64 Format.binary64 n.toUInt64)).unpack n
        rw [Rule.ofUInt64_eq_round hpos hn]
        exact holds_unpack_pack hproper
      have hbound : (n : ℚ) < 2 ^ 1024 := by
        calc (n : ℚ) < (2 ^ 53 : ℕ) := by exact_mod_cast hn
          _ = 2 ^ 53 := by norm_num
          _ ≤ 2 ^ 1024 := pow_le_pow_right₀ one_le_two (by norm_num)
      rw [Rule.ofNat_of_lt hn]
      have hone : ((4503599627370496 : ℕ) * 2 ^ (-52 : ℤ) : ℚ) = 1 := by norm_num
      simpa only [hone, mul_one] using holds_mul hword hbound Rule.unpack_one (by norm_num)
    · rw [Rule.ofNat_of_le (by omega)]
      have hmany : 2 ^ 52 ≤ n <<< 53 * 1 := by
        rw [Nat.mul_one, Nat.shiftLeft_eq]
        omega
      obtain ⟨r, hr, hproper⟩ := proper_exact hmany (-53 + 0)
      have hsame : ((n <<< 53 * 1 : ℕ) * 2 ^ (-53 + 0 : ℤ) : ℚ) = n := by
        rw [Nat.mul_one, Nat.shiftLeft_eq, Nat.cast_mul, mul_assoc, two_pow_mul,
          show (-53 + 0 + (53 : ℕ) : ℤ) = 0 from rfl, zpow_zero, mul_one]
      refine ⟨r, hsame ▸ hr, ?_⟩
      show Holds (pack (UnpackedFloat.ofScientific Format.binary64 n 0)).unpack r
      rw [Rule.ofScientific_eq_round hpos]
      exact holds_unpack_pack hproper

end StyleContract.Rounding
