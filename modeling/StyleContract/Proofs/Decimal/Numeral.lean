import StyleContract.Proofs.Decimal.Layout

/-!
# Proofs — Decimal — Numeral

The grammar of numbers that are written: digits, then a fraction and an exponent if there are any. **What
a layout makes of a finite number is a sign and a numeral** (`render_cases`).
-/

namespace StyleContract.Decimal

variable {cs ds : List Char}

/-- Nothing but digits. -/
def IsDigits (ds : List Char) : Prop := ∀ d ∈ ds, d.isDigit = true

/-- An exponent, or nothing. -/
inductive IsExponent : List Char → Prop
  | none : IsExponent []
  | some {sign ds : List Char} (hsign : sign = [] ∨ sign = ['+'] ∨ sign = ['-']) (hds : IsDigits ds)
      (hne : ds ≠ []) : IsExponent ('e' :: (sign ++ ds))

/-- What may follow the digits of a whole number. -/
inductive IsFraction : List Char → Prop
  | none {cs : List Char} (h : IsExponent cs) : IsFraction cs
  | some {ds cs : List Char} (hds : IsDigits ds) (h : IsExponent cs) : IsFraction ('.' :: (ds ++ cs))

inductive IsNumeral : List Char → Prop
  | intro {ds cs : List Char} (hds : IsDigits ds) (hne : ds ≠ []) (h : IsFraction cs) :
      IsNumeral (ds ++ cs)

theorem isDigits_toDigits (n : Nat) : IsDigits (Nat.toDigits 10 n) := fun _ =>
  Text.isDigit_of_mem_toDigits

theorem isDigits_replicate_zero (n : Nat) : IsDigits (List.replicate n '0') := fun _ h =>
  List.eq_of_mem_replicate h ▸ rfl

theorem IsDigits.append {es : List Char} (hds : IsDigits ds) (hes : IsDigits es) :
    IsDigits (ds ++ es) := List.forall_mem_append.2 ⟨hds, hes⟩

theorem IsDigits.take (h : IsDigits ds) (n : Nat) : IsDigits (ds.take n) := fun d hd =>
  h d (List.mem_of_mem_take hd)

theorem IsDigits.drop (h : IsDigits ds) (n : Nat) : IsDigits (ds.drop n) := fun d hd =>
  h d (List.mem_of_mem_drop hd)

theorem IsNumeral.of_digits (hds : IsDigits ds) (hne : ds ≠ []) : IsNumeral ds := by
  have h := IsNumeral.intro hds hne (.none .none)
  rwa [List.append_nil] at h

theorem IsNumeral.of_fraction {es : List Char} (hds : IsDigits ds) (hne : ds ≠ []) (hes : IsDigits es) :
    IsNumeral (ds ++ '.' :: es) := by
  have h := IsNumeral.intro hds hne (.some hes .none)
  rwa [List.append_nil] at h

theorem isNumeral_toDigits (n : Nat) : IsNumeral (Nat.toDigits 10 n) :=
  .of_digits (isDigits_toDigits n) Nat.toDigits_ne_nil

theorem isNumeral_positionalText (pointZero : Bool) (d : Scaled) :
    IsNumeral (positionalText pointZero d).toList := by
  have hdigits := isDigits_toDigits d.digits
  have hne : Nat.toDigits 10 d.digits ≠ [] := Nat.toDigits_ne_nil
  rw [positionalText, String.toList_ofList]
  split
  · have hwhole := hdigits.append (isDigits_replicate_zero d.exponent.toNat)
    have hwhole_ne : Nat.toDigits 10 d.digits ++ List.replicate d.exponent.toNat '0' ≠ [] :=
      List.append_ne_nil_of_left_ne_nil hne _
    cases pointZero with
    | true => exact .of_fraction hwhole hwhole_ne (isDigits_replicate_zero 1)
    | false =>
        rw [if_neg Bool.false_ne_true, List.append_nil]
        exact .of_digits hwhole hwhole_ne
  · split
    · next hpoint =>
      refine .of_fraction (hdigits.take _) (fun hnil => ?_) (hdigits.drop _)
      rcases List.take_eq_nil_iff.1 hnil with hzero | hnil
      · omega
      · exact hne hnil
    · exact .of_fraction (isDigits_replicate_zero 1) (List.cons_ne_nil _ _)
        ((isDigits_replicate_zero _).append hdigits)

theorem isNumeral_scientificText (plus : Bool) (d : Scaled) :
    IsNumeral (scientificText plus d).toList := by
  have hdigits := isDigits_toDigits d.digits
  have hfirst_ne : (Nat.toDigits 10 d.digits).take 1 ≠ [] := fun hnil => by
    rcases List.take_eq_nil_iff.1 hnil with hzero | hnil
    · cases hzero
    · exact Nat.toDigits_ne_nil hnil
  rw [scientificText, String.toList_ofList]
  generalize hexponent : ((Nat.toDigits 10 d.digits).length : Int) + d.exponent - 1 = e
  have hmark : IsExponent ((if e < 0 then ['e', '-'] else if plus then ['e', '+'] else ['e']) ++
      Nat.toDigits 10 e.natAbs) := by
    have hpower := isDigits_toDigits e.natAbs
    split_ifs
    · exact .some (.inr (.inr rfl)) hpower Nat.toDigits_ne_nil
    · exact .some (.inr (.inl rfl)) hpower Nat.toDigits_ne_nil
    · exact .some (.inl rfl) hpower Nat.toDigits_ne_nil
  simp only [List.append_assoc]
  refine .intro (hdigits.take 1) hfirst_ne ?_
  split
  · exact .none hmark
  · exact .some (hdigits.drop 1) hmark

/-- **What a layout makes of a number**: a word, or a sign and a numeral. -/
theorem render_cases (layout : Layout) (x : Float) :
    layout.render x = layout.nan ∨
      (∃ negative, layout.render x = signText negative ++ layout.infinite) ∨
      ∃ negative text, layout.render x = signText negative ++ text ∧ IsNumeral text.toList := by
  have hfinite (isPositional : Bool) (d : Scaled) :
      IsNumeral (if isPositional then positionalText layout.pointZero d
        else scientificText layout.plus d).toList := by
    cases isPositional with
    | true => exact isNumeral_positionalText _ d
    | false => exact isNumeral_scientificText _ d
  rw [Layout.render]
  split
  · exact .inl rfl
  · exact .inr (.inl ⟨_, rfl⟩)
  · exact .inr (.inr ⟨_, _, rfl, hfinite _ _⟩)

end StyleContract.Decimal
