import Mathlib
import StyleContract.Text.Blank
import StyleContract.Text.Digits

/-!
# Proofs — Text — Digits

A number is read from the digits that it is written with (`digitsFrom_toDigits`,
`digitsIn?_toDigits`), of which no zero leads others (`toDigits_eq_zero_cons`), and from nothing but
digits (`isDigit_of_digitsIn?_ten`).
-/

namespace StyleContract.Text

variable {n : Nat}

/-! ### One digit -/

theorem isDigit_iff {c : Char} : c.isDigit = true ↔ 48 ≤ c.toNat ∧ c.toNat ≤ 57 := by
  simp [Char.isDigit, UInt32.le_iff_toNat_le]

theorem ne_of_isDigit {c d : Char} (hc : c.isDigit = true) (hd : d.isDigit = false) : c ≠ d := by
  rintro rfl
  rw [hd] at hc
  cases hc

theorem isBlank_of_isDigit {c : Char} (h : c.isDigit = true) : isBlank c = false := by
  rw [isDigit_iff] at h
  simp only [isBlank, Bool.or_eq_false_iff, Bool.and_eq_false_iff, decide_eq_false_iff_not,
    beq_eq_false_iff_ne]
  omega

/-! ### Numbers -/

theorem digitsFrom_eq_ofDigitChars (n : Nat) (ds : List Char) :
    digitsFrom n ds = Nat.ofDigitChars 10 ds n := by
  rw [digitsFrom, Nat.ofDigitChars_eq_foldl]
  congr 1
  funext m c
  rw [Nat.mul_comm]
  rfl

theorem digitsFrom_toDigits : digitsFrom 0 (Nat.toDigits 10 n) = n := by
  rw [digitsFrom_eq_ofDigitChars, Nat.ofDigitChars_ten_toDigits]

theorem toDigits_injective {m n : Nat} (h : Nat.toDigits 10 m = Nat.toDigits 10 n) : m = n := by
  rw [← @digitsFrom_toDigits m, h, digitsFrom_toDigits]

theorem le_digitsFrom (ds : List Char) : n ≤ digitsFrom n ds := by
  induction ds generalizing n with
  | nil => exact Nat.le_refl n
  | cons d ds ih =>
      have hstep : n ≤ n * 10 + decimalValue d := by omega
      exact Nat.le_trans hstep ih

theorem isDigit_of_mem_toDigits {c : Char} (h : c ∈ Nat.toDigits 10 n) : c.isDigit = true :=
  Nat.isDigit_of_mem_toDigits (by decide) (by decide) h

theorem natural?_toDigits (n : Nat) : natural? (Nat.toDigits 10 n) = some n := by
  have hdigits : (Nat.toDigits 10 n).all Char.isDigit = true :=
    List.all_eq_true.2 fun c => isDigit_of_mem_toDigits
  rw [natural?, hdigits, digitsFrom_toDigits]
  simp [Nat.toDigits_ne_nil]

theorem toDigits_head?_ne_zero (h : 0 < n) : (Nat.toDigits 10 n).head? ≠ some '0' := by
  induction n using Nat.strong_induction_on with
  | _ n ih =>
      rw [Nat.toDigits_eq_if (by decide)]
      split
      · next hlt =>
        have hdigit : ∀ d : Fin 10, 0 < d.val → d.val.digitChar ≠ '0' := by decide
        simpa using hdigit ⟨n, hlt⟩ h
      · next hle =>
        have hquotient : 0 < n / 10 := Nat.div_pos (Nat.le_of_not_lt hle) (by decide)
        have hhead := ih (n / 10) (Nat.div_lt_self h (by decide)) hquotient
        rwa [List.head?_append_of_ne_nil _ Nat.toDigits_ne_nil]

/-- Only the number zero is written with a zero first. -/
theorem toDigits_eq_zero_cons {ds : List Char} (h : Nat.toDigits 10 n = '0' :: ds) : ds = [] := by
  rcases Nat.eq_zero_or_pos n with rfl | hpos
  · cases h
    rfl
  · exact absurd (by rw [h]; rfl) (toDigits_head?_ne_zero hpos)

/-! ### Digits of a base -/

theorem hexValue?_of_isDigit {c : Char} (h : c.isDigit = true) :
    hexValue? c = some (decimalValue c) := if_pos h

theorem decimalValue_lt {c : Char} (h : c.isDigit = true) : decimalValue c < 10 := by
  rw [isDigit_iff] at h
  rw [decimalValue]
  omega

theorem digitsIn?_ten {ds : List Char} (hne : ds ≠ []) (h : ∀ d ∈ ds, d.isDigit = true) :
    digitsIn? 10 ds = some (digitsFrom 0 ds) := by
  have hfold : ∀ m, ds.foldlM (fun n c => do
      let d ← hexValue? c
      if d < 10 then some (n * 10 + d) else none) m = some (digitsFrom m ds) := by
    clear hne
    induction ds with
    | nil => exact fun m => rfl
    | cons d ds ih =>
        intro m
        have hd : d.isDigit = true := h d List.mem_cons_self
        rw [List.foldlM_cons, hexValue?_of_isDigit hd]
        dsimp only [Option.bind_eq_bind, Option.bind_some]
        rw [if_pos (decimalValue_lt hd)]
        exact ih (fun c hc => h c (List.mem_cons_of_mem _ hc)) _
  rw [digitsIn?, if_neg (by simpa using hne), hfold]

theorem digitsIn?_toDigits : digitsIn? 10 (Nat.toDigits 10 n) = some n := by
  rw [digitsIn?_ten Nat.toDigits_ne_nil fun _ => isDigit_of_mem_toDigits, digitsFrom_toDigits]

theorem isDigit_of_hexValue? {c : Char} {d : Nat} (h : hexValue? c = some d) (hd : d < 10) :
    c.isDigit = true := by
  by_contra hc
  rw [hexValue?, if_neg hc] at h
  split_ifs at h with hlower hupper
  · cases h
    have hle : ('a' : Char).toNat ≤ c.toNat := hlower.1
    have hcode : ('a' : Char).toNat = 97 := rfl
    omega
  · cases h
    have hle : ('A' : Char).toNat ≤ c.toNat := hupper.1
    have hcode : ('A' : Char).toNat = 65 := rfl
    omega

/-- What is read as a number in base ten has digits only. -/
theorem isDigit_of_digitsIn?_ten {ds : List Char} (h : digitsIn? 10 ds = some n) :
    ∀ d ∈ ds, d.isDigit = true := by
  have hfold : ∀ m, ds.foldlM (fun n c => do
      let d ← hexValue? c
      if d < 10 then some (n * 10 + d) else none) m = some n → ∀ d ∈ ds, d.isDigit = true := by
    clear h
    induction ds with
    | nil => exact fun _ _ => List.forall_mem_nil _
    | cons c cs ih =>
        intro m h
        rw [List.foldlM_cons] at h
        obtain ⟨k, hk, hcs⟩ := Option.bind_eq_some_iff.1 h
        obtain ⟨d, hd, hstep⟩ := Option.bind_eq_some_iff.1 hk
        split at hstep
        · next hlt => exact List.forall_mem_cons.2 ⟨isDigit_of_hexValue? hd hlt, ih k hcs⟩
        · cases hstep
  rw [digitsIn?] at h
  split at h
  · cases h
  · exact hfold 0 h

end StyleContract.Text
