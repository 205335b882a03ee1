import StyleContract.Decimal.Layout
import StyleContract.Proofs.Text.Digits

/-!
# Proofs — Decimal — Layout

The characters of a number that is set in some layout: digits, a point, and an exponent with its
sign, unless it is one of the words of the layout (`of_mem_render`).
-/

namespace StyleContract.Decimal

/-- The characters that numbers are written with. -/
def isNumeric (c : Char) : Bool := c.isDigit || c == '.' || c == 'e' || c == '+' || c == '-'

theorem isNumeric_of_isDigit {c : Char} (h : c.isDigit = true) : isNumeric c = true := by
  simp [isNumeric, h]

theorem isNumeric_of_mem_toDigits {c : Char} {n : Nat} (h : c ∈ Nat.toDigits 10 n) :
    isNumeric c = true :=
  isNumeric_of_isDigit (Text.isDigit_of_mem_toDigits h)

theorem of_mem_positionalText {c : Char} {pointZero : Bool} {d : Scaled}
    (h : c ∈ (positionalText pointZero d).toList) : isNumeric c = true := by
  rw [positionalText, String.toList_ofList] at h
  split at h
  · simp only [List.mem_append, List.mem_replicate] at h
    rcases h with (h | ⟨-, rfl⟩) | h
    · exact isNumeric_of_mem_toDigits h
    · decide
    · split at h
      · exact (by simp [isNumeric] : ∀ c ∈ ['.', '0'], isNumeric c = true) c h
      · cases h
  · split at h
    · rcases List.mem_append.1 h with h | h
      · exact isNumeric_of_mem_toDigits (List.mem_of_mem_take h)
      · rcases List.mem_cons.1 h with rfl | h
        · decide
        · exact isNumeric_of_mem_toDigits (List.mem_of_mem_drop h)
    · rw [List.mem_append] at h
      rcases h with h | h
      · rcases List.mem_cons.1 h with rfl | h
        · decide
        · rcases List.mem_cons.1 h with rfl | h
          · decide
          · rw [List.eq_of_mem_replicate h]
            decide
      · exact isNumeric_of_mem_toDigits h

theorem of_mem_scientificText {c : Char} {plus : Bool} {d : Scaled}
    (h : c ∈ (scientificText plus d).toList) : isNumeric c = true := by
  rw [scientificText, String.toList_ofList] at h
  simp only [List.mem_append] at h
  rcases h with ((h | h) | h) | h
  · exact isNumeric_of_mem_toDigits (List.mem_of_mem_take h)
  · split at h
    · cases h
    · rcases List.mem_cons.1 h with rfl | h
      · decide
      · exact isNumeric_of_mem_toDigits (List.mem_of_mem_drop h)
  · split at h
    · exact (by simp [isNumeric] : ∀ c ∈ ['e', '-'], isNumeric c = true) c h
    · split at h
      · exact (by simp [isNumeric] : ∀ c ∈ ['e', '+'], isNumeric c = true) c h
      · exact (by simp [isNumeric] : ∀ c ∈ ['e'], isNumeric c = true) c h
  · exact isNumeric_of_mem_toDigits h

theorem of_mem_signText {c : Char} {negative : Bool} (h : c ∈ (signText negative).toList) :
    isNumeric c = true := by
  cases negative with
  | true => exact (by simp [isNumeric] : ∀ c ∈ ['-'], isNumeric c = true) c h
  | false => cases h

/-- A number is written with digits and their signs, or with a word of the layout. -/
theorem of_mem_render {layout : Layout} {x : Float} {c : Char}
    (h : c ∈ (layout.render x).toList) :
    isNumeric c = true ∨ c ∈ layout.nan.toList ∨ c ∈ layout.infinite.toList := by
  unfold Layout.render at h
  split at h
  · exact .inr (.inl h)
  · rw [String.toList_append, List.mem_append] at h
    rcases h with h | h
    · exact .inl (of_mem_signText h)
    · exact .inr (.inr h)
  · have hfinite : ∀ (isPositional : Bool) (d : Scaled), c ∈ (if isPositional then
        positionalText layout.pointZero d else scientificText layout.plus d).toList →
        isNumeric c = true := by
      intro isPositional d h
      cases isPositional with
      | true => exact of_mem_positionalText h
      | false => exact of_mem_scientificText h
    rw [String.toList_append, List.mem_append] at h
    rcases h with h | h
    · exact .inl (of_mem_signText h)
    · exact .inl (hfinite _ _ h)

/-- The same of a number with a fixed number of decimals. -/
theorem of_mem_fixed {places : Nat} {x : Float} {c : Char} (h : c ∈ (fixed places x).toList) :
    isNumeric c = true ∨ c ∈ plain.nan.toList ∨ c ∈ plain.infinite.toList := by
  unfold fixed at h
  split at h
  · exact .inr (.inl h)
  · rw [String.toList_append, List.mem_append] at h
    exact h.imp of_mem_signText .inr
  · rw [String.toList_append, List.mem_append, String.toList_ofList, List.mem_append] at h
    have hpadded {width m : Nat} (h : c ∈ List.replicate width '0' ++ Nat.toDigits 10 m) :
        isNumeric c = true := by
      rcases List.mem_append.1 h with h | h
      · rw [List.eq_of_mem_replicate h]
        decide
      · exact isNumeric_of_mem_toDigits h
    rcases h with h | h | h
    · exact .inl (of_mem_signText h)
    · exact .inl (hpadded (List.mem_of_mem_take h))
    · split at h
      · cases h
      · rcases List.mem_cons.1 h with rfl | h
        · exact .inl (by decide)
        · exact .inl (hpadded (List.mem_of_mem_drop h))

/-! ### Numerals -/

/-- The text of a number after its sign, with a point or an exponent if it has to have one. -/
structure IsUnsigned (pointed : Bool) (text : String) : Prop where
  starts : ∃ d ds, text.toList = d :: ds ∧ d.isDigit = true
  numeric : ∀ c ∈ text.toList, isNumeric c = true
  fractional : pointed = true → ∃ c ∈ text.toList, c = '.' ∨ c = 'e'

theorem exists_toDigits (n : Nat) : ∃ d ds, Nat.toDigits 10 n = d :: ds ∧ d.isDigit = true := by
  obtain ⟨d, ds, hdigits⟩ := List.exists_cons_of_ne_nil (Nat.toDigits_ne_nil (b := 10) (n := n))
  exact ⟨d, ds, hdigits, Text.isDigit_of_mem_toDigits (hdigits ▸ List.mem_cons_self)⟩

theorem isUnsigned_repr (n : Nat) : IsUnsigned false n.repr where
  starts := by
    rw [Nat.repr, String.toList_ofList]
    exact exists_toDigits n
  numeric c hc := by
    rw [Nat.repr, String.toList_ofList] at hc
    exact isNumeric_of_mem_toDigits hc
  fractional := nofun

theorem isUnsigned_positionalText (pointZero : Bool) (d : Scaled) :
    IsUnsigned pointZero (positionalText pointZero d) where
  starts := by
    obtain ⟨x, xs, hdigits, hx⟩ := exists_toDigits d.digits
    rw [positionalText, String.toList_ofList]
    split
    · exact ⟨x, _, by rw [hdigits, List.append_assoc, List.cons_append], hx⟩
    · split
      · next hwhole =>
        obtain ⟨n, hn⟩ : ∃ n, ((Nat.toDigits 10 d.digits).length + d.exponent).toNat = n + 1 :=
          Nat.exists_eq_add_of_le' (by omega)
        exact ⟨x, _, by rw [hn, hdigits, List.take_succ_cons, List.cons_append], hx⟩
      · exact ⟨'0', _, rfl, rfl⟩
  numeric _ := of_mem_positionalText
  fractional hzero := by
    refine ⟨'.', ?_, .inl rfl⟩
    rw [positionalText, String.toList_ofList, hzero]
    split
    · simp
    · split <;> simp

theorem isUnsigned_scientificText (pointed plus : Bool) (d : Scaled) :
    IsUnsigned pointed (scientificText plus d) where
  starts := by
    obtain ⟨x, xs, hdigits, hx⟩ := exists_toDigits d.digits
    rw [scientificText, String.toList_ofList, hdigits]
    exact ⟨x, _, rfl, hx⟩
  numeric _ := of_mem_scientificText
  fractional _ := by
    refine ⟨'e', ?_, .inr rfl⟩
    rw [scientificText, String.toList_ofList]
    refine List.mem_append_left _ (List.mem_append_right _ ?_)
    split_ifs <;> exact List.mem_cons_self

/-- The text of a finite number is a sign, and digits with a point or an exponent. -/
theorem exists_render {layout : Layout} {x : Float} (h : x.isFinite = true) :
    ∃ negative text, layout.render x = signText negative ++ text ∧
      IsUnsigned layout.pointZero text := by
  have hfinite : ∃ negative num den, Magnitude.of x = .finite negative num den := by
    have hfinite : x.toModel.unpack.isFinite = true := h
    rw [Magnitude.of]
    cases hx : x.toModel.unpack with
    | notANumber => rw [hx] at hfinite; cases hfinite
    | infinity s => rw [hx] at hfinite; cases hfinite
    | zero s => exact ⟨_, _, _, rfl⟩
    | finite s m e hm =>
        dsimp only
        split <;> exact ⟨_, _, _, rfl⟩
  obtain ⟨negative, num, den, hmagnitude⟩ := hfinite
  have htext : ∀ (isPositional : Bool) (d : Scaled), IsUnsigned layout.pointZero
      (if isPositional then positionalText layout.pointZero d else scientificText layout.plus d) := by
    intro isPositional d
    cases isPositional with
    | true => exact isUnsigned_positionalText _ d
    | false => exact isUnsigned_scientificText _ _ d
  rw [Layout.render, hmagnitude]
  exact ⟨_, _, rfl, htext _ _⟩

end StyleContract.Decimal
