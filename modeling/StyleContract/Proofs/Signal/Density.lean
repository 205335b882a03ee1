import StyleContract.Proofs.Float.Arithmetic
import StyleContract.Signal.Python
import StyleContract.Synthesis.Projection

/-!
# Proofs — Signal — Density

The share of annotated functions is a float with two decimals. **A part of a whole has a share from zero
to one** (`density_mem_unit`), for all counts, those included that no float holds.

The threshold is one half, but what is compared with it is the share after rounding. So a share counts as
one half from 99 of 200 on. That is what exact fractions give (`half_le_exactDensity_iff`), and **floats, which
round four times on the way, decide likewise** (`typingThreshold_le_density_iff`).
-/

namespace StyleContract.Python

open Decimal Rounding Float.Model Float.Model.UnpackedFloat

variable {part whole num den k : ℕ} {f g : Float} {x y q : ℚ}

/-! ### The nearest whole number -/

theorem roundDiv_away (h : 0 < den) : roundDiv .away num den = (2 * num + den) / (2 * den) := by
  have hdiv := Nat.div_add_mod' num den
  have hrest := Nat.mod_lt num h
  have hdouble : ∀ q, q * (2 * den) = 2 * (q * den) := fun q => Nat.mul_left_comm q 2 den
  have hone := Nat.add_one_mul (num / den) den
  have htwo := Nat.add_one_mul (num / den + 1) den
  simp only [roundDiv]
  split
  · refine (Nat.div_eq_of_lt_le ?_ ?_).symm
    · rw [hdouble]
      omega
    · rw [hdouble]
      omega
  · rw [ite_self]
    refine (Nat.div_eq_of_lt_le ?_ ?_).symm
    · rw [hdouble]
      omega
    · rw [hdouble]
      omega

/-- A whole number is reached from the half below it on. -/
theorem le_roundDiv_away_iff (h : 0 < den) :
    k ≤ roundDiv .away num den ↔ (k : ℚ) - 1 / 2 ≤ num / den := by
  have hpos : (0 : ℚ) < den := by exact_mod_cast h
  rw [roundDiv_away h, Nat.le_div_iff_mul_le (by omega), le_div_iff₀ hpos]
  have hcast : (k * (2 * den) ≤ 2 * num + den) ↔ ((k * (2 * den) : ℚ) ≤ 2 * num + den) := by
    exact_mod_cast Iff.rfl
  rw [hcast]
  constructor <;> intro hle <;> linarith

theorem le_nearest_iff (hf : Holds f.toModel.unpack x) (hx : x < 2 ^ 1024) :
    k ≤ nearest f ↔ (k : ℚ) - 1 / 2 ≤ x := by
  rw [nearest, Magnitude.of]
  rcases hf.eq_of_lt hx with ⟨hu, rfl⟩ | ⟨m, e, hm, hu, rfl⟩ <;> rw [hu]
  · have hzero : k ≤ roundDiv .away 0 1 ↔ (k : ℚ) - 1 / 2 ≤ (0 : ℕ) / (1 : ℕ) := le_roundDiv_away_iff one_pos
    simpa using hzero
  · by_cases he : 0 ≤ e
    · obtain ⟨n, rfl⟩ := Int.eq_ofNat_of_zero_le he
      have hsame : (m * 2 ^ (n : ℤ) : ℚ) = (m * twoTo n : ℕ) / (1 : ℕ) := by
        rw [twoTo]
        push_cast
        simp
      simp only [he, if_true, hsame]
      exact le_roundDiv_away_iff one_pos
    · obtain ⟨n, rfl⟩ : ∃ n : ℕ, e = -n := ⟨(-e).toNat, by omega⟩
      have hsame : (m * 2 ^ (-n : ℤ) : ℚ) = m / (twoTo n : ℕ) := by
        rw [twoTo, zpow_neg, zpow_natCast, div_eq_mul_inv]
        simp
      simp only [he, if_false, hsame, neg_neg, Int.toNat_natCast]
      exact le_roundDiv_away_iff (twoTo_pos n)

/-! ### Shares -/

/-- A share with two decimals, in any arithmetic that counts and divides. -/
def share {α : Type} [Mul α] [Div α] (ofNat : ℕ → α) (nearest : α → ℕ) (part whole : ℕ) : α :=
  ofNat (nearest (ofNat part / ofNat whole * ofNat 100)) / ofNat 100

theorem density_eq_share (part whole : ℕ) : density part whole = share Float.ofNat nearest part whole := rfl

/-- The share as an exact fraction; a half goes away from zero. -/
def exactDensity (part whole : ℕ) : ℚ :=
  share Nat.cast (fun x => roundDiv .away x.num.toNat x.den) part whole

/-- **Among fractions, 99 of 200 count as one half.** -/
theorem half_le_exactDensity_iff (h : 0 < whole) :
    1 / 2 ≤ exactDensity part whole ↔ 99 * whole ≤ 200 * part := by
  have hpos : (0 : ℚ) < whole := by exact_mod_cast h
  have hround : ∀ x : ℚ, 0 ≤ x → (50 ≤ roundDiv .away x.num.toNat x.den ↔ 49.5 ≤ x) := fun x hx => by
    have hnum : ((x.num.toNat : ℤ) : ℚ) = x.num := by
      rw [Int.toNat_of_nonneg (Rat.num_nonneg.2 hx)]
    have hvalue : (x.num.toNat : ℚ) / x.den = x := by
      rw [← Int.cast_natCast, hnum, Rat.num_div_den]
    rw [le_roundDiv_away_iff x.den_pos, hvalue]
    norm_num
  have hshare : (0 : ℚ) ≤ part / whole * (100 : ℕ) := by positivity
  have hhalf : ∀ n : ℕ, (1 / 2 : ℚ) ≤ n / (100 : ℕ) ↔ 50 ≤ n := fun n => by
    rw [le_div_iff₀ (by norm_num)]
    norm_num
  rw [exactDensity, share, hhalf, hround _ hshare, div_mul_eq_mul_div, le_div_iff₀ hpos]
  have hcast : 99 * whole ≤ 200 * part ↔ (99 * whole : ℚ) ≤ 200 * part := by exact_mod_cast Iff.rfl
  rw [hcast]
  push_cast
  constructor <;> intro hle <;> linarith

/-! ### Shares among floats -/

theorem unpack_hundred : (100.0 : Float).toModel.unpack =
    .finite .positive 7036874417766400 (-46) (by decide) := by rfl

/-- A quotient and its hundredfold, with the rounding after each step. -/
theorem exists_rounds (hf : Holds f.toModel.unpack x) (hg : Holds g.toModel.unpack y) (hy : 0 < y)
    (hle : x ≤ y) (hy' : y < 2 ^ 1024) :
    ∃ q p, Rounds (x / y) q ∧ Rounds (q * 100) p ∧ p ≤ 100 ∧
      ∀ k : ℕ, k ≤ nearest (f / g * 100.0) ↔ (k : ℚ) - 1 / 2 ≤ p := by
  have hlarge : (100 : ℚ) < 2 ^ 1024 := by
    calc (100 : ℚ) < 2 ^ 7 := by norm_num
      _ ≤ 2 ^ 1024 := pow_le_pow_right₀ one_le_two (by norm_num)
  obtain ⟨q, hq, hquotient⟩ := holds_div hf (hle.trans_lt hy') hg hy hy'
  have hone : q ≤ 1 := by
    have hself : Rounds 1 1 := by simpa using rounds_natCast (n := 1) (by norm_num)
    exact hq.mono hself ((div_le_one hy).2 hle)
  have hsmall : (1 : ℚ) < 2 ^ 1024 := lt_trans (by norm_num) hlarge
  obtain ⟨p, hp, hproduct⟩ :=
    holds_mul hquotient (hone.trans_lt hsmall) unpack_hundred (by norm_num)
  have hhundred : ((7036874417766400 : ℕ) * 2 ^ (-46 : ℤ) : ℚ) = 100 := by norm_num
  rw [hhundred] at hp
  have hmost : p ≤ 100 := by
    have hself : Rounds 100 100 := by simpa using rounds_natCast (n := 100) (by norm_num)
    exact hp.mono hself (by linarith)
  exact ⟨q, p, hq, hp, hmost, fun k => le_nearest_iff hproduct (hmost.trans_lt hlarge)⟩

theorem one_le_of_pos {r : ℚ} (hpos : 0 < whole) (hr : Rounds whole r) : 1 ≤ r := by
  have hself : Rounds 1 1 := by simpa using rounds_natCast (n := 1) (by norm_num)
  exact hself.mono hr (by exact_mod_cast hpos)

/-- What is divided by an infinity has no hundredth. -/
theorem nearest_of_infinity (hf : Holds f.toModel.unpack x) (hg : g.toModel.unpack = .infinity .positive) :
    nearest (f / g * 100.0) = 0 := by
  have hsteps : (f / g * 100.0).toModel.unpack =
      (pack (UnpackedFloat.mul Format.binary64
        (pack (UnpackedFloat.div Format.binary64 f.toModel.unpack g.toModel.unpack)).unpack
        (100.0 : Float).toModel.unpack)).unpack := rfl
  have hnone : (f / g * 100.0).toModel.unpack = .zero .positive ∨
      (f / g * 100.0).toModel.unpack = .notANumber := by
    rw [hsteps, hg, unpack_hundred]
    generalize f.toModel.unpack = u at hf
    cases hf with
    | zero => exact .inl rfl
    | finite m e hm =>
        have hquotient : UnpackedFloat.div Format.binary64 (.finite .positive m e hm)
            (.infinity .positive) = .zero .positive := rfl
        rw [hquotient]
        exact .inl rfl
    | infinite => exact .inr rfl
  rw [nearest, Magnitude.of]
  rcases hnone with hu | hu <;> rw [hu]
  rfl

/-- **No share is above one hundred percent.** -/
theorem nearest_le_hundred (h : part ≤ whole) :
    nearest (Float.ofNat part / Float.ofNat whole * 100.0) ≤ 100 := by
  obtain ⟨x, hx, hf⟩ := holds_ofNat part
  obtain ⟨y, hy, hg⟩ := holds_ofNat whole
  rcases Nat.eq_zero_or_pos whole with rfl | hpos
  · obtain rfl := Nat.le_zero.1 h
    decide
  · by_cases hlarge : y < 2 ^ 1024
    · have hle : x ≤ y := hx.mono hy (by exact_mod_cast h)
      have hone := one_le_of_pos hpos hy
      obtain ⟨q, p, -, -, hp, hnearest⟩ := exists_rounds hf hg (by linarith) hle hlarge
      by_contra hmore
      have hmore := (hnearest 101).1 (by omega)
      norm_num at hmore
      linarith
    · rw [nearest_of_infinity hf (hg.eq_infinity (not_lt.1 hlarge))]
      exact Nat.zero_le _

/-! ### The threshold -/

/-- The float that 99 of 200 are, and the one below it. -/
theorem rounds_threshold : Rounds (99 / 200) (8917127262193582 * 2 ^ (-54 : ℤ)) := by
  refine ⟨-54, 8917127262193582, ⟨by norm_num, by norm_num, .inr (by norm_num)⟩,
    isNearest_of_lt ?_, by norm_num⟩
  rw [abs_lt]
  norm_num

theorem rounds_below : Rounds (8917127262193581 * 2 ^ (-54 : ℤ)) (8917127262193581 * 2 ^ (-54 : ℤ)) := by
  simpa using rounds_self (n := 8917127262193581) (t := -54) (by norm_num) (by norm_num) (by norm_num)

/-- Their hundredfolds are on two sides of the half. -/
theorem rounds_hundred_threshold : Rounds (8917127262193582 * 2 ^ (-54 : ℤ) * 100) 49.5 := by
  refine ⟨-47, 6966505673588736, ⟨by norm_num, by norm_num, .inr (by norm_num)⟩,
    isNearest_of_lt ?_, by norm_num⟩
  rw [abs_lt]
  norm_num

theorem rounds_hundred_below :
    Rounds (8917127262193581 * 2 ^ (-54 : ℤ) * 100) (6966505673588735 * 2 ^ (-47 : ℤ)) := by
  refine ⟨-47, 6966505673588735, ⟨by norm_num, by norm_num, .inr (by norm_num)⟩,
    isNearest_of_lt ?_, by norm_num⟩
  rw [abs_lt]
  norm_num

/-- **Floats decide like fractions** from which share on fifty percent are reached. -/
theorem fifty_le_nearest_iff (hpos : 0 < whole) (h : part ≤ whole) (hwhole : whole < 2 ^ 46) :
    50 ≤ nearest (Float.ofNat part / Float.ofNat whole * 100.0) ↔ 99 * whole ≤ 200 * part := by
  obtain ⟨x, hx, hf⟩ := holds_ofNat part
  obtain ⟨y, hy, hg⟩ := holds_ofNat whole
  obtain rfl := hx.unique (rounds_natCast (by omega))
  obtain rfl := hy.unique (rounds_natCast (by omega))
  have hpos' : (0 : ℚ) < whole := by exact_mod_cast hpos
  have hwhole' : (whole : ℚ) < 2 ^ 46 := by exact_mod_cast hwhole
  have hmost : (whole : ℚ) ≤ 70368744177664 := by exact_mod_cast hwhole.le
  have hlarge : (whole : ℚ) < 2 ^ 1024 :=
    hwhole'.trans_le (pow_le_pow_right₀ one_le_two (by norm_num))
  obtain ⟨q, p, hq, hp, -, hnearest⟩ := exists_rounds hf hg hpos' (by exact_mod_cast h) hlarge
  rw [hnearest 50]
  constructor
  · -- a share below the threshold is below it by more than what lies between two floats
    intro hhalf
    by_contra hless
    have hgap : (200 * part + 1 : ℚ) ≤ 99 * whole := by exact_mod_cast Nat.lt_of_not_le hless
    have hbelow : (part / whole : ℚ) ≤ 8917127262193581 * 2 ^ (-54 : ℤ) := by
      rw [div_le_iff₀ hpos']
      norm_num
      linarith
    have hqle := hq.mono rounds_below hbelow
    have hple := hp.mono rounds_hundred_below (mul_le_mul_of_nonneg_right hqle (by norm_num))
    norm_num at hhalf hple
    linarith
  · intro hmany
    have hmany : (99 * whole : ℚ) ≤ 200 * part := by exact_mod_cast hmany
    have habove : (99 / 200 : ℚ) ≤ part / whole := by
      rw [div_le_div_iff₀ (by norm_num) hpos']
      linarith
    have hqge := rounds_threshold.mono hq habove
    have hpge := rounds_hundred_threshold.mono hp (mul_le_mul_of_nonneg_right hqge (by norm_num))
    norm_num at hpge ⊢
    linarith

/-! ### Densities -/

theorem percent_mem_unit : ∀ k : Fin 101, (Float.ofNat k / 100.0).isFinite = true ∧
    0.0 ≤ Float.ofNat k / 100.0 ∧ Float.ofNat k / 100.0 ≤ 1.0 := by decide +kernel

theorem threshold_le_percent_iff :
    ∀ k : Fin 101, (Projection.typingThreshold ≤ Float.ofNat k / 100.0) ↔ 50 ≤ k.val := by decide +kernel

/-- **A part of a whole has a share from zero to one.** -/
theorem density_mem_unit (h : part ≤ whole) :
    (density part whole).isFinite = true ∧ 0.0 ≤ density part whole ∧ density part whole ≤ 1.0 :=
  percent_mem_unit ⟨_, Nat.lt_succ_of_le (nearest_le_hundred h)⟩

/-- **The threshold is reached from 99 of 200 on.** -/
theorem typingThreshold_le_density_iff (hpos : 0 < whole) (h : part ≤ whole) (hwhole : whole < 2 ^ 46) :
    Projection.typingThreshold ≤ density part whole ↔ 99 * whole ≤ 200 * part :=
  (threshold_le_percent_iff ⟨_, Nat.lt_succ_of_le (nearest_le_hundred h)⟩).trans
    (fifty_le_nearest_iff hpos h hwhole)

end StyleContract.Python
