import StyleContract.Proofs.Moment.Text

/-!
# Proofs — Moment — Round trip

A point in time is read back from its text: part by part, as each of them was written
(`number_digits`, `fraction_fractionText`), and the date tells its day. A leap second is written as
second 60 and read as one again.

**What is written in the internet format is read back** (`ofText_toText`).
-/

namespace StyleContract.Moment

/-- A fraction of a second, or a leap second at the end of a minute. -/
def Proper (m : Moment) : Prop :=
  m.nanos < 1000000000 ∨ m.nanos < 2000000000 ∧ m.seconds % 60 = 59

theorem bind_of_ok {ε α β : Type} {x : Except ε α} {a : α} {f : α → Except ε β} (h : x = .ok a) :
    (x >>= f) = f a := by
  rw [h]
  rfl

/-! ### The year -/

theorem exactDigits?_of_not_isDigit {count : Nat} {c : Char} {cs : List Char} (hcount : 0 < count)
    (h : c.isDigit = false) : exactDigits? count (c :: cs) = none := by
  obtain ⟨n, rfl⟩ := Nat.exists_eq_succ_of_ne_zero (Nat.ne_of_gt hcount)
  simp [exactDigits?, h]

theorem isStrictText_eq_false {s : String} {c : Char} {cs : List Char} (hs : s.toList = c :: cs)
    (h : c.isDigit = false) : isStrictText s = false := by
  rw [isStrictText, hs, exactDigits?_of_not_isDigit (by decide) h]
  rfl

/-- Four digits hold the year of what is written in the internet format. -/
theorem year_of_isStrictText {m : Moment} (h : isStrictText m.toText = true) :
    0 ≤ (Calendar.ofDayNumber (m.seconds / 86400)).1 ∧
      (Calendar.ofDayNumber (m.seconds / 86400)).1 ≤ 9999 := by
  by_contra hyear
  rcases hdate : Calendar.ofDayNumber (m.seconds / 86400) with ⟨y, mo, d⟩
  rw [hdate] at hyear
  have hsign : ∃ c cs, m.toText.toList = c :: cs ∧ c.isDigit = false := by
    by_cases hneg : y < 0
    · exact ⟨'-', _, by simp [toText, render, hdate, yearText, if_neg hyear, hneg]; rfl, rfl⟩
    · exact ⟨'+', _, by simp [toText, render, hdate, yearText, if_neg hyear, hneg]; rfl, rfl⟩
  obtain ⟨c, cs, hs, hc⟩ := hsign
  rw [isStrictText_eq_false hs hc] at h
  cases h

/-! ### Parts -/

theorem skipBlank_of_not_isBlank {c : Char} {cs : List Char} (h : Text.isBlank c = false) :
    skipBlank (c :: cs) = c :: cs := by
  rw [skipBlank, List.dropWhile_cons, h]
  rfl

theorem exists_cons_of_digits {width n : Nat} (hwidth : 0 < width) (h : n < 10 ^ width) :
    ∃ c cs, (digits width n).toList = c :: cs ∧ c.isDigit = true := by
  obtain ⟨hlength, hdigit, -⟩ := digits_spec hwidth h
  cases hlist : (digits width n).toList with
  | nil =>
      rw [hlist] at hlength
      exact absurd hlength (Nat.ne_of_lt hwidth)
  | cons c cs => exact ⟨c, cs, rfl, hdigit c (hlist ▸ List.mem_cons_self)⟩

theorem skipBlank_digits {width n : Nat} (hwidth : 0 < width) (h : n < 10 ^ width)
    (rest : List Char) :
    skipBlank ((digits width n).toList ++ rest) = (digits width n).toList ++ rest := by
  obtain ⟨c, cs, hlist, hc⟩ := exists_cons_of_digits hwidth h
  rw [hlist, List.cons_append, skipBlank_of_not_isBlank (Text.isBlank_of_isDigit hc)]

/-- Digits that were written are read as the number that they write, if nothing that follows could
be a further digit. -/
theorem number_digits {width most n : Nat} (hwidth : 0 < width) (hmost : width ≤ most)
    (h : n < 10 ^ width) (hsmall : n < twoTo 63) {rest : List Char}
    (hrest : width = most ∨ rest.head?.all (!·.isDigit)) :
    number (some most) ((digits width n).toList ++ rest) = .ok (n, rest) := by
  obtain ⟨hlength, hdigit, hvalue⟩ := digits_spec hwidth h
  obtain ⟨c, cs, hlist, -⟩ := exists_cons_of_digits hwidth h
  have hstop : (rest.take (most - width)).takeWhile Char.isDigit = [] := by
    rcases hrest with rfl | hrest
    · rw [Nat.sub_self, List.take_zero, List.takeWhile_nil]
    · cases rest with
      | nil => rw [List.take_nil, List.takeWhile_nil]
      | cons d ds =>
          have hd : d.isDigit = false := by simpa using hrest
          cases most - width <;> simp [hd]
  have htaken : (((digits width n).toList ++ rest).take most).takeWhile Char.isDigit =
      (digits width n).toList := by
    rw [List.take_append, hlength, List.take_of_length_le (Nat.le_trans (Nat.le_of_eq hlength) hmost),
      List.takeWhile_append_of_pos hdigit, hstop, List.append_nil]
  have hempty : ((digits width n).toList ++ rest).isEmpty = false := by rw [hlist]; rfl
  have hsome : (digits width n).toList.isEmpty = false := by rw [hlist]; rfl
  simp only [number]
  rw [htaken, hempty, hsome, hvalue, List.drop_left' rfl]
  simp only [Bool.false_eq_true, if_false]
  rw [if_neg (Nat.not_le.2 hsmall)]

theorem field_digits {n least greatest : Nat} (h : n < 100) (hleast : least ≤ n)
    (hgreatest : n ≤ greatest) (rest : List Char) :
    field least greatest ((digits 2 n).toList ++ rest) = .ok (n, rest) := by
  have hnumber : number (some 2) ((digits 2 n).toList ++ rest) = .ok (n, rest) :=
    number_digits (by decide) (Nat.le_refl 2) h (Nat.lt_trans h (by decide)) (.inl rfl)
  rw [field, skipBlank_digits (by decide) h]
  refine (bind_of_ok hnumber).trans ?_
  exact if_pos ⟨hleast, hgreatest⟩

theorem year_digits {n : Nat} (h : n < 10000) (rest : List Char) :
    year ((digits 4 n).toList ++ rest) = .ok ((n : Int), rest) := by
  have hnumber : number (some 4) ((digits 4 n).toList ++ rest) = .ok (n, rest) :=
    number_digits (by decide) (Nat.le_refl 4) h (Nat.lt_trans h (by decide)) (.inl rfl)
  obtain ⟨c, cs, hlist, hc⟩ := exists_cons_of_digits (by decide) (show n < 10 ^ 4 from h)
  have hminus : c ≠ '-' := by rintro rfl; cases hc
  have hplus : c ≠ '+' := by rintro rfl; cases hc
  rw [year, skipBlank_digits (by decide) h]
  rw [hlist] at hnumber ⊢
  split
  · next heq => exact absurd (List.cons.inj heq).1 hminus
  · next heq => exact absurd (List.cons.inj heq).1 hplus
  · rw [hnumber]
    refine (bind_of_ok rfl).trans (if_pos ⟨?_, ?_⟩)
    · exact Int.le_trans (by decide) (Int.natCast_nonneg n)
    · exact Int.lt_trans (Int.ofNat_lt.2 h) (by decide)

theorem mark_self {c : Char} (h : Text.isBlank c = false) (rest : List Char) :
    mark c (c :: rest) = .ok ((), rest) := by
  simp [mark, skipBlank_of_not_isBlank h]

theorem fraction_point {width n : Nat} (hwidth : 0 < width) (hmost : width ≤ 9)
    (h : n < 10 ^ width) :
    fraction ('.' :: ((digits width n).toList ++ ['Z'])) = .ok (n * tenTo (9 - width), ['Z']) := by
  obtain ⟨hlength, hdigit, -⟩ := digits_spec hwidth h
  have hsmall : n < twoTo 63 :=
    Nat.lt_of_lt_of_le h (Nat.le_trans (Nat.pow_le_pow_right (by decide) hmost) (by decide))
  have hnumber : number (some 9) ((digits width n).toList ++ ['Z']) = .ok (n, ['Z']) :=
    number_digits hwidth hmost h hsmall (.inr rfl)
  have hcount : ((digits width n).toList ++ ['Z']).length - ['Z'].length = width := by
    rw [List.length_append, Nat.add_sub_cancel, hlength]
  rw [fraction]
  refine (bind_of_ok hnumber).trans ?_
  dsimp only
  rw [hcount]
  rfl

/-- A fraction that was written, with the offset after it. -/
theorem fraction_fractionText {nanos : Nat} (h : nanos < 1000000000) :
    fraction ((fractionText nanos).toList ++ ['Z']) = .ok (nanos, ['Z']) := by
  have hpoint (s : String) : ("." ++ s).toList ++ ['Z'] = '.' :: (s.toList ++ ['Z']) := by simp
  rw [fractionText]
  split
  · next hzero => rw [hzero]; rfl
  · split
    · rw [hpoint, fraction_point (by decide) (by decide) (by omega)]
      have hvalue : nanos / 1000000 * tenTo (9 - 3) = nanos := Nat.div_mul_cancel (by omega)
      rw [hvalue]
    · split
      · rw [hpoint, fraction_point (by decide) (by decide) (by omega)]
        have hvalue : nanos / 1000 * tenTo (9 - 6) = nanos := Nat.div_mul_cancel (by omega)
        rw [hvalue]
      · rw [hpoint, fraction_point (by decide) (by decide) h]
        exact congrArg (fun n => Except.ok (n, ['Z'])) (Nat.mul_one nanos)

/-! ### Date and time -/

/-- The parts of a date and time are read one after the other. -/
theorem ofText_of_parts {s : String} {y mo d h mi sec nanos : Nat}
    (hs : s.toList = partsText y mo d h mi sec (fractionText nanos).toList) (hy : y < 10000)
    (hmo : 1 ≤ mo) (hmo' : mo ≤ 12) (hd : 1 ≤ d) (hd' : d ≤ Calendar.daysIn y mo) (hh : h ≤ 23)
    (hmi : mi ≤ 59) (hsec : sec ≤ 60) (hnanos : nanos < 1000000000) :
    ofText s = .ok ⟨Calendar.dayNumber y mo d * 86400 +
      ((h * 60 + mi) * 60 + (sec - sec / 60) : Nat), nanos + sec / 60 * 1000000000⟩ := by
  have hmonth := Calendar.daysIn_le y mo
  have hzone : offset (skipBlank ['Z']) = .ok (0, []) := rfl
  have hdash (rest : List Char) : mark '-' ('-' :: rest) = .ok ((), rest) := mark_self rfl rest
  have hcolon (rest : List Char) : mark ':' (':' :: rest) = .ok ((), rest) := mark_self rfl rest
  -- the parts are taken off one after the other; what is still to come is never looked at
  rw [ofText, hs, partsText]
  refine (bind_of_ok (year_digits hy _)).trans ?_
  refine (bind_of_ok (hdash _)).trans ?_
  refine (bind_of_ok (field_digits (by omega) hmo hmo' _)).trans ?_
  refine (bind_of_ok (hdash _)).trans ?_
  refine (bind_of_ok (field_digits (by omega) hd (by omega) _)).trans ?_
  refine (if_pos (Or.inl rfl)).trans ?_
  refine (bind_of_ok rfl).trans ?_
  refine (bind_of_ok (field_digits (by omega) (Nat.zero_le _) hh _)).trans ?_
  refine (bind_of_ok (hcolon _)).trans ?_
  refine (bind_of_ok (field_digits (by omega) (Nat.zero_le _) hmi _)).trans ?_
  refine (bind_of_ok (hcolon _)).trans ?_
  refine (bind_of_ok (field_digits (by omega) (Nat.zero_le _) hsec _)).trans ?_
  refine (bind_of_ok (fraction_fractionText hnanos)).trans ?_
  refine (bind_of_ok hzone).trans ?_
  refine (if_neg (not_not_intro rfl)).trans ?_
  refine (if_neg ?_).trans ?_
  · have hgreatest : greatestYear = 262142 := rfl
    omega
  refine (if_neg (by decide)).trans ?_
  simp only [Int.sub_zero]

/-- **What is written in the internet format is read back.** -/
theorem ofText_toText {m : Moment} (hproper : m.Proper) (h : isStrictText m.toText = true) :
    ofText m.toText = .ok m := by
  obtain ⟨hyear, hyear'⟩ := year_of_isStrictText h
  have hcalendar := Calendar.ofDayNumber_spec (m.seconds / 86400)
  have hday := Calendar.dayNumber_ofDayNumber (m.seconds / 86400)
  rcases hdate : Calendar.ofDayNumber (m.seconds / 86400) with ⟨y, mo, d⟩
  simp only [hdate] at hyear hyear' hcalendar hday
  obtain ⟨hmo, hmo', hd, hd'⟩ := hcalendar
  have hcast : (y.toNat : Int) = y := Int.toNat_of_nonneg hyear
  obtain ⟨second, hsecond⟩ : ∃ second, second = (m.seconds % 86400).toNat := ⟨_, rfl⟩
  obtain ⟨leap, hleap⟩ : ∃ leap, leap = m.nanos / 1000000000 := ⟨_, rfl⟩
  have hlast : leap = 0 ∨ leap = 1 ∧ second % 60 = 59 := by
    rcases hproper with hsmall | ⟨hlarge, hlast⟩ <;> omega
  -- second 60 is read as the leap second that it was written for
  have hsame : (second % 60 + leap) / 60 = leap := by omega
  have htime : (second / 3600 * 60 + second / 60 % 60) * 60 + (second % 60 + leap - leap) =
      second := by omega
  have hnanos : m.nanos % 1000000000 + leap * 1000000000 = m.nanos := by omega
  have hseconds : m.seconds / 86400 * 86400 + (second : Int) = m.seconds := by omega
  rw [ofText_of_parts (toList_toText hdate ⟨hyear, hyear'⟩) (by omega) hmo hmo' hd
    (by rw [hcast]; exact hd') (by omega) (by omega) (by omega) (by omega), hcast, hday, ← hsecond,
    ← hleap, hsame, htime, hnanos, hseconds]

end StyleContract.Moment
