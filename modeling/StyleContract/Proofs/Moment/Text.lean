import Mathlib
import StyleContract.Proofs.Moment.Calendar
import StyleContract.Proofs.Text.Digits

/-!
# Proofs — Moment — Text

What is written of a point in time can be read as the internet format wants it:
`isStrictText_toText`. A clock's time is enough for that: four digits hold its year, and its
fraction is less than a second.
-/

namespace StyleContract.Moment

/-- A point in time that a clock shows. -/
structure OnClock (m : Moment) : Prop where
  year_nonneg : 0 ≤ (Calendar.ofDayNumber (m.seconds / 86400)).1
  year_le : (Calendar.ofDayNumber (m.seconds / 86400)).1 ≤ 9999
  nanos_lt : m.nanos < 1000000000

/-! ### Digits -/

theorem digits_spec {width n : Nat} (hwidth : 0 < width) (h : n < 10 ^ width) :
    (digits width n).toList.length = width ∧ (∀ c ∈ (digits width n).toList, c.isDigit = true) ∧
      Text.digitsFrom 0 (digits width n).toList = n := by
  have hle : (Nat.toDigits 10 n).length ≤ width :=
    (Nat.length_toDigits_le_iff (by decide) hwidth).2 h
  have hlist : (digits width n).toList =
      List.replicate (width - (Nat.toDigits 10 n).length) '0' ++ Nat.toDigits 10 n := by
    rw [digits, String.toList_ofList]
  rw [hlist]
  refine ⟨?_, fun c hc => ?_, ?_⟩
  · simp
    omega
  · rcases List.mem_append.1 hc with hc | hc
    · rw [List.eq_of_mem_replicate hc]
      decide
    · exact Nat.isDigit_of_mem_toDigits (by decide) (by decide) hc
  · rw [Text.digitsFrom_eq_ofDigitChars, Nat.ofDigitChars_append, Nat.ofDigitChars_replicate_zero,
      Nat.mul_zero, Nat.ofDigitChars_ten_toDigits]

/-- Digits that were written are read as the number that they write. -/
theorem exactDigits?_digits {width n : Nat} (hwidth : 0 < width) (h : n < 10 ^ width)
    (rest : List Char) :
    exactDigits? width ((digits width n).toList ++ rest) = some (n, rest) := by
  obtain ⟨hlength, hdigit, hvalue⟩ := digits_spec hwidth h
  have htake : (digits width n).toList.takeWhile Char.isDigit = (digits width n).toList := by
    have happend : ((digits width n).toList ++ []).takeWhile Char.isDigit =
        (digits width n).toList ++ [] := List.takeWhile_append_of_pos hdigit
    simpa using happend
  rw [exactDigits?, List.take_left' hlength, List.drop_left' hlength, htake]
  simp only [hlength, hvalue, if_true]

theorem exactMark?_self (c : Char) (rest : List Char) : exactMark? c (c :: rest) = some rest := by
  simp [exactMark?]

/-- Digits after a point are a fraction. -/
theorem strictFraction?_digits {width n : Nat} (hwidth : 0 < width) (h : n < 10 ^ width) :
    strictFraction? ('.' :: (digits width n).toList ++ ['Z']) = some ['Z'] := by
  obtain ⟨hlength, hdigit, -⟩ := digits_spec hwidth h
  have hdrop : ((digits width n).toList ++ ['Z']).dropWhile Char.isDigit = ['Z'] := by
    rw [List.dropWhile_append_of_pos hdigit]
    rfl
  have hhead : ((digits width n).toList ++ ['Z']).head?.any Char.isDigit = true := by
    cases hlist : (digits width n).toList with
    | nil => simp [hlist] at hlength; omega
    | cons c cs => simpa using hdigit c (by simp [hlist])
  rw [List.cons_append, strictFraction?, if_pos hhead, hdrop]

/-- A fraction that was written, with the offset after it. -/
theorem strictFraction?_fractionText {nanos : Nat} (h : nanos < 1000000000) :
    strictFraction? ((fractionText nanos).toList ++ ['Z']) = some ['Z'] := by
  have hpoint (s : String) : ("." ++ s).toList = '.' :: s.toList := by simp
  rw [fractionText]
  split
  · rfl
  · split
    · rw [hpoint]
      exact strictFraction?_digits (by decide) (by omega)
    · split
      · rw [hpoint]
        exact strictFraction?_digits (by decide) (by omega)
      · rw [hpoint]
        exact strictFraction?_digits (by decide) h

/-! ### Date and time -/

/-- The parts of a date and time in UTC, written one after the other. -/
def partsText (y mo d h mi sec : Nat) (fraction : List Char) : List Char :=
  (digits 4 y).toList ++ '-' :: ((digits 2 mo).toList ++ '-' :: ((digits 2 d).toList ++
    'T' :: ((digits 2 h).toList ++ ':' :: ((digits 2 mi).toList ++
      ':' :: ((digits 2 sec).toList ++ (fraction ++ ['Z']))))))

/-- One step of a reader whose answer counts as false if there is none. -/
theorem getD_bind {α : Type} {x : Option α} {a : α} {f : α → Option Bool} (h : x = some a) :
    (x >>= f).getD false = (f a).getD false := by
  rw [h]
  rfl

theorem isStrictText_of_parts {s : String} {y mo d h mi sec : Nat} {fraction : List Char}
    (hs : s.toList = partsText y mo d h mi sec fraction) (hy : y < 10000) (hmo : 1 ≤ mo)
    (hmo' : mo ≤ 12) (hd : 1 ≤ d) (hd' : d ≤ Calendar.daysIn y mo) (hh : h ≤ 23) (hmi : mi ≤ 59)
    (hsec : sec ≤ 59) (hfraction : strictFraction? (fraction ++ ['Z']) = some ['Z']) :
    isStrictText s = true := by
  have hmonth := Calendar.daysIn_le y mo
  have hyear (rest : List Char) : exactDigits? 4 ((digits 4 y).toList ++ rest) = some (y, rest) :=
    exactDigits?_digits (by decide) hy rest
  have hpart {n : Nat} (hn : n < 100) (rest : List Char) :
      exactDigits? 2 ((digits 2 n).toList ++ rest) = some (n, rest) :=
    exactDigits?_digits (by decide) hn rest
  have hzone : strictOffset? ['Z'] = some 0 := rfl
  -- the parts are taken off one after the other; what is still to come is never looked at
  rw [isStrictText, hs, partsText]
  refine (getD_bind (hyear _)).trans ?_
  refine (getD_bind (exactMark?_self _ _)).trans ?_
  refine (getD_bind (hpart (show mo < 100 by omega) _)).trans ?_
  refine (getD_bind (exactMark?_self _ _)).trans ?_
  refine (getD_bind (hpart (show d < 100 by omega) _)).trans ?_
  refine (congrArg (Option.getD · false) (if_pos (.inl rfl))).trans ?_
  refine (getD_bind rfl).trans ?_
  refine (getD_bind (hpart (show h < 100 by omega) _)).trans ?_
  refine (getD_bind (exactMark?_self _ _)).trans ?_
  refine (getD_bind (hpart (show mi < 100 by omega) _)).trans ?_
  refine (getD_bind (exactMark?_self _ _)).trans ?_
  refine (getD_bind (hpart (show sec < 100 by omega) _)).trans ?_
  refine (getD_bind hfraction).trans ?_
  refine (getD_bind hzone).trans ?_
  simp [hmo, hmo', hd, hd', hh, hmi, hsec]

theorem toList_toText {m : Moment} {y : Int} {mo d : Nat}
    (hdate : Calendar.ofDayNumber (m.seconds / 86400) = (y, mo, d)) (hy : 0 ≤ y ∧ y ≤ 9999) :
    m.toText.toList =
      partsText y.toNat mo d ((m.seconds % 86400).toNat / 3600)
        ((m.seconds % 86400).toNat / 60 % 60)
        ((m.seconds % 86400).toNat % 60 + m.nanos / 1000000000)
        (fractionText (m.nanos % 1000000000)).toList := by
  have hyear : yearText y = digits 4 y.toNat := if_pos hy
  simp [toText, render, hdate, hyear, partsText]

/-- **What a clock shows is written in the internet format.** -/
theorem isStrictText_toText {m : Moment} (h : m.OnClock) : isStrictText m.toText = true := by
  obtain ⟨hyear, hyear', hnanos⟩ := h
  have hcalendar := Calendar.ofDayNumber_spec (m.seconds / 86400)
  rcases hdate : Calendar.ofDayNumber (m.seconds / 86400) with ⟨y, mo, d⟩
  simp only [hdate] at hyear hyear' hcalendar
  obtain ⟨hmonth, hmonth', hday, hday'⟩ := hcalendar
  have hcast : (y.toNat : Int) = y := Int.toNat_of_nonneg hyear
  exact isStrictText_of_parts (toList_toText hdate ⟨hyear, hyear'⟩) (by omega) hmonth hmonth' hday
    (by rw [hcast]; exact hday') (by omega) (by omega) (by omega)
    (strictFraction?_fractionText (by omega))

end StyleContract.Moment
