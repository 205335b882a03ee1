import Mathlib
import StyleContract.Contract.Rule
import StyleContract.Json.Basic

/-!
# Proofs — Contract — Confidence

The confidence of a rule is a float from zero to one. The test of a rule asks for it to be between
the two; a schema asks for a number that is neither below zero nor above one. `isConfidence_iff`
says that the two agree, a NaN and the infinities included.

A whole number may stand for a confidence too. It is taken as the nearest float, and rounding
brings no number from outside into the range: `isConfidence_ofInt` leaves zero and one.
-/

namespace StyleContract.Rule
open Float.Model Float.Model.UnpackedFloat

/-! ### Bounds on both sides -/

theorem ofInt_zero : Float.ofInt 0 = 0.0 := by rfl

theorem ofInt_one : Float.ofInt 1 = 1.0 := by decide

theorem unpack_zero : (0.0 : Float).toModel.unpack = .zero .positive := by rfl

theorem unpack_one :
    (1.0 : Float).toModel.unpack = .finite .positive 4503599627370496 (-52) (by decide) := by rfl

theorem le_iff {x y : Float} :
    x ≤ y ↔ (x.toModel.unpack.compare y.toModel.unpack).any (·.isLE) = true := by
  show decide _ = true ↔ _
  rw [decide_eq_true_iff]
  rfl

theorem lt_iff {x y : Float} :
    x < y ↔ x.toModel.unpack.compare y.toModel.unpack = some .lt := by
  show decide _ = true ↔ _
  rw [decide_eq_true_iff]
  show (x.toModel.unpack.compare y.toModel.unpack == some .lt) = true ↔ _
  rw [beq_iff_eq]

/-- **A confidence is a finite number that is neither below zero nor above one.** -/
theorem isConfidence_iff {x : Float} :
    isConfidence x = true ↔ x.isFinite = true ∧ ¬ x < Float.ofInt 0 ∧ ¬ Float.ofInt 1 < x := by
  have hfinite : x.isFinite = x.toModel.unpack.isFinite := rfl
  rw [isConfidence, Bool.and_eq_true, decide_eq_true_iff, decide_eq_true_iff, hfinite, ofInt_zero,
    ofInt_one, le_iff, le_iff, lt_iff, lt_iff, unpack_zero, unpack_one]
  cases x.toModel.unpack with
  | notANumber => simp [UnpackedFloat.compare, UnpackedFloat.isFinite]
  | infinity s => cases s <;> simp [UnpackedFloat.compare, UnpackedFloat.isFinite]
  | zero s => simp [UnpackedFloat.compare, UnpackedFloat.isFinite]
  | finite s m e h =>
      -- the bound of one is compared with from both sides
      have hswap : ((compare e (-52)).then (compare m 4503599627370496)).swap =
          (compare (-52) e).then (compare 4503599627370496 m) := by
        rw [Ordering.swap_then, Int.compare_swap, Nat.compare_swap]
      cases s with
      | negative => simp [UnpackedFloat.compare]
      | positive =>
          simp only [UnpackedFloat.compare, UnpackedFloat.isFinite, ← hswap]
          cases (compare e (-52)).then (compare m 4503599627370496) <;> simp

/-! ### Whole numbers -/

/-- At least two in size: infinite, or with a full mantissa and an exponent that goes with it. -/
def AtLeastTwo (s : Sign) (u : UnpackedFloat) : Prop :=
  u = .infinity s ∨
    ∃ m e h, u = .finite s m e h ∧ m.log2 = 52 ∧ -51 ≤ e

theorem shiftRight_mantissa (em : ExtendedMantissa) (k : Nat) :
    (em >>> k).mantissa = em.mantissa / 2 ^ k := by
  induction k with
  | zero => show em.mantissa = _; simp
  | succ k ih =>
      show (em >>> k).mantissa / 2 = _
      rw [ih, Nat.div_div_eq_div_mul, Nat.pow_succ]

theorem roundedMantissa_bounds (em : ExtendedMantissa) :
    em.mantissa ≤ em.roundedMantissa ∧ em.roundedMantissa ≤ em.mantissa + 1 := by
  obtain ⟨m, r, s⟩ := em
  cases r <;> cases s <;>
    simp [ExtendedMantissa.roundedMantissa, ExtendedMantissa.accuracy,
      Accuracy.roundToNearestEven]
  omega

/-- A number with enough digits is cut down to a full mantissa. -/
theorem shiftToTargetExponent_eq {m : Nat} {e : Int} (hm : 52 ≤ m.log2)
    (he : -51 ≤ (m.log2 : Int) - 52 + e) :
    ∃ em, shiftToTargetExponent Format.binary64 m e .exact = (em, e + (m.log2 - 52 : Nat)) ∧
      em.mantissa = m / 2 ^ (m.log2 - 52) := by
  -- the number is too large for the least exponent to be its target
  have hshift : (Format.binary64.targetExponent (totalExponent m e) - e).toNat = m.log2 - 52 := by
    have hmin : Format.binary64.minExponent = -1074 := by decide
    have hbits : Format.binary64.mantissaBits = 53 := rfl
    simp only [Format.targetExponent, totalExponent, hmin, hbits]
    omega
  refine ⟨_, by rw [shiftToTargetExponent, shiftToExponent, hshift], ?_⟩
  rw [shiftRight_mantissa]
  rfl

theorem log2_div_pow {m : Nat} (hm : 52 ≤ m.log2) : (m / 2 ^ (m.log2 - 52)).log2 = 52 := by
  have hne : m ≠ 0 := by rintro rfl; simp at hm
  have hpos : 0 < 2 ^ (m.log2 - 52) := Nat.two_pow_pos _
  have hlow : 2 ^ 52 ≤ m / 2 ^ (m.log2 - 52) := by
    rw [Nat.le_div_iff_mul_le hpos, ← Nat.pow_add, Nat.add_sub_cancel' hm]
    exact Nat.log2_self_le hne
  have hhigh : m / 2 ^ (m.log2 - 52) < 2 ^ (52 + 1) := by
    rw [Nat.div_lt_iff_lt_mul hpos, ← Nat.pow_add, Nat.add_right_comm, Nat.add_sub_cancel' hm]
    exact Nat.lt_log2_self
  exact (Nat.log2_eq_iff (Nat.ne_of_gt (Nat.lt_of_lt_of_le (Nat.two_pow_pos _) hlow))).2
    ⟨hlow, hhigh⟩

/-- Rounding does not bring a number below two. -/
theorem atLeastTwo_roundWithAccuracy {s : Sign} {m : Nat} {e : Int} (hm : 52 ≤ m.log2)
    (he : -51 ≤ (m.log2 : Int) - 52 + e) :
    AtLeastTwo s (roundWithAccuracy Format.binary64 s m e .exact) := by
  obtain ⟨em, hshift, hem⟩ := shiftToTargetExponent_eq hm he
  have hlog : em.mantissa.log2 = 52 := hem ▸ log2_div_pow hm
  have hne : em.mantissa ≠ 0 := by intro h; simp [h] at hlog
  have hle := (roundedMantissa_bounds em).1
  have hr : 52 ≤ em.roundedMantissa.log2 :=
    (Nat.le_log2 (by omega)).2 (Nat.le_trans ((Nat.le_log2 hne).1 (by omega)) hle)
  -- rounding may carry into one more digit, which the second shift cuts off again
  obtain ⟨em', hshift', hem'⟩ :=
    shiftToTargetExponent_eq (e := e + (m.log2 - 52 : Nat)) hr (by omega)
  have hlog' : em'.mantissa.log2 = 52 := hem' ▸ log2_div_pow hr
  have hne' : em'.mantissa ≠ 0 := by intro h; simp [h] at hlog'
  have hround : roundWithAccuracy Format.binary64 s m e .exact =
      .finite s em'.mantissa (e + (m.log2 - 52 : Nat) + (em.roundedMantissa.log2 - 52 : Nat))
        (Nat.pos_of_ne_zero hne') := by
    simp only [roundWithAccuracy, hshift, hshift', hne', dite_false]
  exact .inr ⟨_, _, _, hround, hlog', by omega⟩

theorem unpackSign_packComponents {s : Sign} {e : BitVec 11} {m : BitVec 52} :
    unpackSign (packComponents Format.binary64 s e m) = s.toBitVec := by
  show (s.toBitVec ++ e ++ m).extractLsb' 63 1 = s.toBitVec
  rw [BitVec.extractLsb'_append_eq_of_le (by decide),
    BitVec.extractLsb'_append_eq_of_le (by decide)]
  cases s <;> rfl

/-- A mantissa with its implicit bit is full. -/
theorem log2_implicit (v : BitVec 52) : (1#1 ++ v).toNat.log2 = 52 := by
  have hv := v.isLt
  have hadd : (1#1 ++ v).toNat = 2 ^ 52 + v.toNat := by
    rw [BitVec.toNat_append, ← Nat.shiftLeft_add_eq_or_of_lt hv]
    rfl
  rw [hadd, Nat.log2_eq_iff (by omega)]
  omega

/-- The fields of a packed number that is not small, taken apart again. -/
theorem atLeastTwo_unpack_packComponents {s : Sign} {e : BitVec 11} {m : BitVec 52}
    (he : 1024 ≤ e.toNat) (he' : e.toNat < 2047) :
    AtLeastTwo s (UnpackedFloat.unpack Format.binary64 (packComponents Format.binary64 s e m)) := by
  have hsign : Sign.ofBitVec s.toBitVec = s := by cases s <;> rfl
  have hones : ¬ e = -1#11 := by rintro rfl; exact absurd he' (by decide)
  have hzero : ¬ e = 0#11 := by rintro rfl; exact absurd he (by decide)
  have hpos : 0 < (1#1 ++ m).toNat := Nat.pos_of_ne_zero fun h => by
    have hlog := log2_implicit m
    rw [h] at hlog
    exact absurd hlog (by decide)
  have hunpack : UnpackedFloat.unpack Format.binary64 (packComponents Format.binary64 s e m) =
      .finite s (1#1 ++ m).toNat (e.toNat - (1023 + 52)) hpos := by
    simp only [UnpackedFloat.unpack, unpackMantissa_packComponents,
      unpackExponent_packComponents, unpackSign_packComponents, hones, hzero, if_false, hsign]
    rfl
  exact .inr ⟨_, _, _, hunpack, log2_implicit m, by omega⟩

/-- The packed form of a number keeps it at two at least. -/
theorem atLeastTwo_unpack_pack {s : Sign} {u : UnpackedFloat} (h : AtLeastTwo s u) :
    AtLeastTwo s (pack u).unpack := by
  have hinfinity : unpack Format.binary64 (packedInfinity Format.binary64 s) = .infinity s := by
    cases s <;> rfl
  obtain rfl | ⟨m, e, hm, rfl, hlog, he⟩ := h
  · exact .inl hinfinity
  · show AtLeastTwo s (UnpackedFloat.unpack Format.binary64 (UnpackedFloat.pack Format.binary64 _))
    have hbits : m.log2 + 1 = Format.binary64.mantissaBits := by rw [hlog]; rfl
    simp only [UnpackedFloat.pack, hbits, if_true]
    -- an exponent beyond the last one packs as an infinity
    split
    · exact .inl hinfinity
    · next hbiased =>
      have hbiased : e + 1023 + 52 < 2047 := by simpa [Format.exponentBias] using hbiased
      have hexponent : (BitVec.ofNat 11 (e + 1023 + 52).toNat).toNat = (e + 1023 + 52).toNat :=
        Nat.mod_eq_of_lt (by omega)
      have hleast : 1024 ≤ (BitVec.ofNat 11 (e + 1023 + 52).toNat).toNat := by omega
      have hmost : (BitVec.ofNat 11 (e + 1023 + 52).toNat).toNat < 2047 := by omega
      exact atLeastTwo_unpack_packComponents hleast hmost

/-- A full mantissa with more binary places after it. -/
theorem log2_mul_two_pow {m : Nat} (h : m ≠ 0) (k : Nat) : (m * 2 ^ k).log2 = m.log2 + k := by
  induction k with
  | zero => simp
  | succ k ih =>
      have hne : m * 2 ^ k ≠ 0 := Nat.mul_ne_zero h (Nat.ne_of_gt (Nat.two_pow_pos k))
      rw [Nat.pow_succ, ← Nat.mul_assoc, Nat.mul_comm _ 2, Nat.log2_two_mul hne, ih, Nat.add_assoc]

theorem atLeastTwo_mul_one {s : Sign} {u : UnpackedFloat} (h : AtLeastTwo s u) :
    AtLeastTwo s (UnpackedFloat.mul Format.binary64 u (1.0 : Float).toModel.unpack) := by
  rw [unpack_one]
  obtain rfl | ⟨m, e, hm, rfl, hlog, he⟩ := h
  · cases s <;> exact .inl rfl
  · have hs : s * .positive = s := by cases s <;> rfl
    have hlog' : (m * 4503599627370496).log2 = 104 := by
      rw [show 4503599627370496 = 2 ^ 52 from rfl, log2_mul_two_pow (Nat.ne_of_gt hm), hlog]
    rw [UnpackedFloat.mul, hs]
    exact atLeastTwo_roundWithAccuracy (by omega) (by omega)

/-- Small whole numbers are taken apart exactly. -/
theorem atLeastTwo_round {n : Nat} (h : 2 ≤ n) (hn : n < 2 ^ 53) :
    AtLeastTwo .positive (UnpackedFloat.round Format.binary64 .positive n 0) := by
  have hne : n ≠ 0 := by omega
  have hlow : 1 ≤ n.log2 := (Nat.le_log2 hne).2 h
  have hhigh : n.log2 < 53 := (Nat.log2_lt hne).2 hn
  have htarget : Format.binary64.targetExponent (totalExponent n 0) = (n.log2 : Int) - 52 := by
    have hmin : Format.binary64.minExponent = -1074 := by decide
    have hbits : Format.binary64.mantissaBits = 53 := rfl
    simp only [Format.targetExponent, totalExponent, hmin, hbits]
    omega
  have hshift : (0 - ((n.log2 : Int) - 52)).toNat = 52 - n.log2 := by omega
  have hlog : (n <<< (52 - n.log2)).log2 = 52 := by
    rw [Nat.shiftLeft_eq, log2_mul_two_pow hne]
    omega
  simp only [UnpackedFloat.round, htarget, decreaseExponent, hshift]
  exact atLeastTwo_roundWithAccuracy (by omega) (by omega)

theorem ofNat_of_lt {n : Nat} (hn : n < 2 ^ 53) : Float.ofNat n = n.toUInt64.toFloat * 1.0 := by
  have hone : Float.exactlyRepresentablePowersOfTen[0] = (1.0 : Float) := by decide
  show Float.ofScientific n false 0 = _
  rw [Float.ofScientific, dif_pos ⟨hn, by decide⟩]
  simp only [hone]
  rfl

theorem ofNat_of_le {n : Nat} (hn : 2 ^ 53 ≤ n) :
    Float.ofNat n = .ofModel (Float.Model.ofScientific n 0) := by
  show Float.ofScientific n false 0 = _
  rw [Float.ofScientific, dif_neg (by omega)]
  rfl

/-- A word is rounded like any mantissa. -/
theorem ofUInt64_eq_round {n : Nat} (h : 0 < n) (hn : n < 2 ^ 53) :
    UnpackedFloat.ofUInt64 Format.binary64 n.toUInt64 =
      UnpackedFloat.round Format.binary64 .positive n 0 := by
  have hword : n.toUInt64.toNat = n := by
    simp
    omega
  have hgt : compare (n : Int) 0 = .gt := Int.compare_eq_gt.2 (by omega)
  show UnpackedFloat.normalize Format.binary64 (n.toUInt64.toNat : Int) 0 .positive = _
  rw [hword, UnpackedFloat.normalize, hgt]
  rfl

/-- Digits without a power of ten, with room for the rounding after them. -/
theorem ofScientific_eq_round {n : Nat} (h : 0 < n) :
    UnpackedFloat.ofScientific Format.binary64 n 0 =
      roundWithAccuracy Format.binary64 .positive (n <<< 53 * 1) (-53 + 0) .exact := by
  have hrange : ¬ (0 : Int) < -((2 : Int) ^ Format.binary64.exponentBits + n.log2) := by
    have hbits : (2 : Int) ^ Format.binary64.exponentBits = 2048 := by decide
    omega
  rw [UnpackedFloat.ofScientific, dif_neg (Nat.ne_of_gt h), if_neg (by decide), if_neg hrange,
    if_pos (by decide)]
  rfl

theorem atLeastTwo_ofNat {n : Nat} (h : 2 ≤ n) :
    AtLeastTwo .positive (Float.ofNat n).toModel.unpack := by
  by_cases hn : n < 2 ^ 53
  · -- up to here a word holds the number, and a power of ten that is one scales it
    have hfloat : AtLeastTwo .positive n.toUInt64.toFloat.toModel.unpack := by
      show AtLeastTwo .positive (pack (UnpackedFloat.ofUInt64 Format.binary64 n.toUInt64)).unpack
      rw [ofUInt64_eq_round (by omega) hn]
      exact atLeastTwo_unpack_pack (atLeastTwo_round h hn)
    rw [ofNat_of_lt hn]
    exact atLeastTwo_unpack_pack (atLeastTwo_mul_one hfloat)
  · -- beyond, digits and power of ten are rounded together
    rw [ofNat_of_le (by omega)]
    have hne : n ≠ 0 := by omega
    have hlog : 52 ≤ n.log2 := (Nat.le_log2 hne).2 (by omega)
    have hlog' : (n <<< 53 * 1).log2 = n.log2 + 53 := by
      rw [Nat.mul_one, Nat.shiftLeft_eq, log2_mul_two_pow hne]
    show AtLeastTwo .positive (pack (UnpackedFloat.ofScientific Format.binary64 n 0)).unpack
    rw [ofScientific_eq_round (by omega)]
    exact atLeastTwo_unpack_pack (atLeastTwo_roundWithAccuracy (by omega) (by omega))

theorem atLeastTwo_neg {x : Float} (h : AtLeastTwo .positive x.toModel.unpack) :
    AtLeastTwo .negative (Float.neg x).toModel.unpack := by
  have hneg : AtLeastTwo .negative x.toModel.unpack.neg := by
    obtain hu | ⟨m, e, hm, hu, h⟩ := h
    · rw [hu]
      exact .inl rfl
    · rw [hu]
      exact .inr ⟨m, e, hm, rfl, h⟩
  exact atLeastTwo_unpack_pack hneg

/-- What is at least two in size lies outside, on either side. -/
theorem not_isConfidence_of_atLeastTwo {s : Sign} {x : Float}
    (h : AtLeastTwo s x.toModel.unpack) : isConfidence x = false := by
  rw [isConfidence, Bool.and_eq_false_iff, decide_eq_false_iff_not, decide_eq_false_iff_not,
    le_iff, le_iff, unpack_zero, unpack_one]
  obtain hu | ⟨m, e, hm, hu, -, he⟩ := h
  · rw [hu]
    cases s <;> simp [UnpackedFloat.compare]
  · rw [hu]
    have hgt : compare e (-52) = .gt := Int.compare_eq_gt.2 (by omega)
    cases s <;> simp [UnpackedFloat.compare, hgt]

/-- **Of the whole numbers, zero and one alone are confidences.** -/
theorem isConfidence_ofInt {n : Int} (h : isConfidence (Float.ofInt n) = true) :
    n = 0 ∨ n = 1 := by
  cases n with
  | ofNat n =>
      by_cases hn : 2 ≤ n
      · have hout : isConfidence (Float.ofInt (Int.ofNat n)) = false :=
          not_isConfidence_of_atLeastTwo (atLeastTwo_ofNat hn)
        rw [hout] at h
        exact absurd h (by decide)
      · simp only [Int.ofNat_eq_natCast]
        omega
  | negSucc n =>
      have hout : isConfidence (Float.ofInt (Int.negSucc n)) = false := by
        cases n with
        | zero => decide
        | succ n =>
            have htwo : 2 ≤ n + 1 + 1 := by omega
            exact not_isConfidence_of_atLeastTwo (atLeastTwo_neg (atLeastTwo_ofNat htwo))
      rw [hout] at h
      exact absurd h (by decide)

end StyleContract.Rule
