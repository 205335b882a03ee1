import StyleContract.Json.Printer
import StyleContract.Json.Reader
import StyleContract.Proofs.Decimal.Layout
import StyleContract.Proofs.Document.JsonReading
import StyleContract.Proofs.Text.Spans
import StyleContract.Text.Blank

/-!
# Proofs — Json — Leaves

Texts and numbers are read as they were written, whatever follows. A character of a text is read
from its escape (`stringBody_escapeChar`). What a reader of numbers takes off a text, it takes off in front
of all that may replace what is left (`Local`), so a number that is read from its own text alone is read
in front of anything that cannot belong to it (`value_number`). A whole number up to a machine word
is read from its digits (`readsBack_natural`).
-/

namespace StyleContract.Json
open Document (bind_eq_ok_iff)

/-! ### Texts -/

section

variable {cs : List Char}

/-- A character in front of what is read. -/
def front (c : Char) (r : List Char × List Char) : List Char × List Char := (c :: r.1, r.2)

theorem stringBody_letter {e x : Char} (hu : e ≠ 'u') (h : escapedChar? e = some x) :
    stringBody ('\\' :: e :: cs) = (stringBody cs).map (front x) := by
  rw [stringBody.eq_def]
  simp only [Char.reduceEq, if_false, if_true, if_neg hu, h]
  cases stringBody cs <;> rfl

theorem stringBody_unit {a b c d : Char} {n : Nat} (h : hexUnit? a b c d = some n)
    (hlow : isLowSurrogate n = false) (hhigh : isHighSurrogate n = false) :
    stringBody ('\\' :: 'u' :: a :: b :: c :: d :: cs) =
      (stringBody cs).map (front (Char.ofNat n)) := by
  rw [stringBody.eq_def]
  simp only [Char.reduceEq, if_false, if_true, h, hlow, hhigh, Bool.false_eq_true]
  cases stringBody cs <;> rfl

theorem stringBody_self {c : Char} (hquote : c ≠ '"') (hslash : c ≠ '\\') (h : ¬ c.toNat < 0x20) :
    stringBody (c :: cs) = (stringBody cs).map (front c) := by
  rw [stringBody.eq_def]
  simp only [if_neg hquote, if_neg hslash, if_neg h]
  cases stringBody cs <;> rfl

theorem stringBody_pair {a b c d a' b' c' d' : Char} {n m : Nat} (h : hexUnit? a b c d = some n)
    (hn : isLowSurrogate n = false) (hhigh : isHighSurrogate n = true)
    (h' : hexUnit? a' b' c' d' = some m) (hlow : isLowSurrogate m = true) :
    stringBody ('\\' :: 'u' :: a :: b :: c :: d :: '\\' :: 'u' :: a' :: b' :: c' :: d' :: cs) =
      (stringBody cs).map (front (pairChar n m)) := by
  rw [stringBody.eq_def]
  simp only [Char.reduceEq, if_false, if_true, h, hn, hhigh, Bool.false_eq_true, and_self, h', hlow]
  cases stringBody cs <;> rfl

theorem hex4_spec : ∀ n : Fin 32,
    hex4 n = ['0', '0', (hex4 n)[2]!, (hex4 n)[3]!] ∧
      hexUnit? '0' '0' (hex4 n)[2]! (hex4 n)[3]! = some n.val ∧
        isLowSurrogate n = false ∧ isHighSurrogate n = false := by decide

/-- A character is read from its escape. -/
theorem stringBody_escapeChar (c : Char) :
    stringBody (escapeChar c ++ cs) = (stringBody cs).map (front c) := by
  unfold escapeChar
  split
  · next h => subst h; exact stringBody_letter (by decide) rfl
  · next hquote =>
    split
    · next h => subst h; exact stringBody_letter (by decide) rfl
    · next hslash =>
      split
      · next h => subst h; exact stringBody_letter (by decide) rfl
      · split
        · next h => subst h; exact stringBody_letter (by decide) rfl
        · split
          · next h => subst h; exact stringBody_letter (by decide) rfl
          · split
            · next h => subst h; exact stringBody_letter (by decide) rfl
            · split
              · next h => subst h; exact stringBody_letter (by decide) rfl
              · split
                · next h =>
                  obtain ⟨hhex, hunit, hlow, hhigh⟩ := hex4_spec ⟨c.toNat, h⟩
                  rw [hhex]
                  refine (stringBody_unit hunit hlow hhigh).trans ?_
                  rw [Char.ofNat_toNat]
                  rfl
                · next h => exact stringBody_self hquote hslash h

theorem stringBody_escaped (text : List Char) :
    stringBody (text.flatMap escapeChar ++ '"' :: cs) = .ok (text, cs) := by
  induction text with
  | nil =>
      rw [stringBody.eq_def]
      rfl
  | cons c text ih =>
      rw [List.flatMap_cons, List.append_assoc, stringBody_escapeChar, ih]
      rfl

end

/-! ### Numbers -/

/-- What a number cannot go on with. -/
def Closes (rest : List Char) : Prop :=
  rest.head?.all fun c => !(c.isDigit || c == '.' || c == 'e' || c == 'E')

/-- What may stand behind a number in place of what stands there: something that no number goes on with,
or something that begins as before. -/
def Replaces (rest r : List Char) : Prop := Closes rest ∨ rest.head? = r.head?

/-- The front of a text is read as a value, in front of all that may replace what is left behind it. -/
def Taken {α : Type} (f : Reader α) (cs : List Char) (x : α) (r : List Char) : Prop :=
  ∃ front, cs = front ++ r ∧ ∀ rest, Replaces rest r → f (front ++ rest) = .ok (x, rest)

/-- A reader takes the front of a text off, and would in front of all that may replace what is left. -/
def Local {α : Type} (f : Reader α) : Prop := ∀ cs x r, f cs = .ok (x, r) → Taken f cs x r

theorem all_not_iff {bad : Char → Bool} {c? : Option Char} :
    (c?.all fun c => !bad c) = true ↔ c?.any bad = false := by
  cases c? <;> simp

/-- What a number cannot go on with does not begin as a number goes on. -/
theorem Closes.head {bad : Char → Bool} {rest : List Char} (h : Closes rest)
    (hbad : ∀ c, bad c = true → (c.isDigit || c == '.' || c == 'e' || c == 'E') = true) :
    rest.head?.any bad = false := by
  cases rest with
  | nil => rfl
  | cons c rest =>
      cases hc : bad c with
      | false => exact hc
      | true =>
          rw [Closes, List.head?_cons, Option.all_some, hbad c hc] at h
          cases h

/-- What replaces an end does not make the text go on. -/
theorem Replaces.head {bad : Char → Bool} {front rest r : List Char} (h : Replaces rest r)
    (hbad : ∀ c, bad c = true → (c.isDigit || c == '.' || c == 'e' || c == 'E') = true)
    (hhead : (front ++ r).head?.any bad = false) : (front ++ rest).head?.any bad = false := by
  cases front with
  | cons c front => exact hhead
  | nil =>
      rcases h with hcloses | hsame
      · exact hcloses.head hbad
      · rw [List.nil_append, hsame]
        exact hhead

/-- An end may be made longer, if what follows could be no part of a number. -/
theorem Local.append {α : Type} {f : Reader α} (hf : Local f) {cs r rest : List Char} {x : α}
    (h : f cs = .ok (x, r)) (hrest : Closes rest) : r <:+ cs ∧ f (cs ++ rest) = .ok (x, r ++ rest) := by
  obtain ⟨front, rfl, hmore⟩ := hf cs x r h
  refine ⟨List.suffix_append front r, ?_⟩
  rw [List.append_assoc]
  refine hmore _ ?_
  cases r with
  | nil => exact .inl hrest
  | cons c r => exact .inr rfl

/-- Whoever takes digits first leaves it to what follows them. -/
theorem local_of_digits {α : Type} {f : Reader α} (next : List Char → Reader α)
    (hnext : ∀ ds, Local (next ds))
    (hf : ∀ cs, cs.takeWhile Char.isDigit ≠ [] →
      f cs = next (cs.takeWhile Char.isDigit) (cs.dropWhile Char.isDigit))
    (hnone : ∀ cs, cs.takeWhile Char.isDigit = [] → ∀ r, f cs ≠ .ok r) : Local f := by
  intro cs x r h
  by_cases hdigits : cs.takeWhile Char.isDigit = []
  · exact absurd h (hnone cs hdigits (x, r))
  · rw [hf cs hdigits] at h
    obtain ⟨front, hfront, hmore⟩ := hnext _ _ _ _ h
    refine ⟨cs.takeWhile Char.isDigit ++ front, ?_, fun rest hrest => ?_⟩
    · rw [List.append_assoc, ← hfront, List.takeWhile_append_dropWhile]
    · have hends : (front ++ rest).head?.any Char.isDigit = false := by
        refine hrest.head (fun c hc => by simp [hc]) ?_
        have hdropped := Text.all_head?_dropWhile Char.isDigit cs
        rw [hfront] at hdropped
        exact all_not_iff.1 hdropped
      have hrun : ∀ c ∈ cs.takeWhile Char.isDigit, c.isDigit = true := fun c =>
        List.mem_takeWhile_imp
      have hhead : (front ++ rest).head?.all fun c => !c.isDigit := all_not_iff.2 hends
      rw [List.append_assoc, hf _ (by rwa [Text.takeWhile_append_of_head hrun hhead]),
        Text.takeWhile_append_of_head hrun hhead, Text.dropWhile_append_of_head hrun hhead]
      exact hmore rest hrest

theorem local_map {α β : Type} (x : Except ReadError α) (f : α → β) :
    Local fun cs => x.map fun a => (f a, cs) := by
  intro cs b r h
  cases x with
  | error e => cases h
  | ok a =>
      cases h
      exact ⟨[], rfl, fun _ _ => rfl⟩

theorem Local.map {α β : Type} {f : Reader α} (hf : Local f) (g : α → β) :
    Local fun cs => (f cs).map fun r => (g r.1, r.2) := by
  intro cs x r h
  cases hr : f cs with
  | error e =>
      simp only [hr] at h
      cases h
  | ok y =>
      simp only [hr] at h
      cases h
      obtain ⟨front, hfront, hmore⟩ := hf _ _ _ hr
      refine ⟨front, hfront, fun rest hrest => ?_⟩
      dsimp only
      rw [hmore rest hrest]
      rfl

/-- A character that is passed is taken off with what is taken off behind it. -/
theorem Taken.cons {α : Type} {f g : Reader α} {cs r : List Char} {x : α} (h : Taken g cs x r) {c : Char}
    (hf : ∀ more, f (c :: more) = g more) : Taken f (c :: cs) x r := by
  obtain ⟨front, hfront, hmore⟩ := h
  refine ⟨c :: front, by rw [hfront, List.cons_append], fun rest hrest => ?_⟩
  rw [List.cons_append, hf]
  exact hmore rest hrest

variable {negative : Bool} {significand : Nat} {base : Int}

/-- Takes a sign, if there is one; whether it is a minus sign. -/
def splitSign : List Char → Bool × List Char
  | '+' :: cs => (false, cs)
  | '-' :: cs => (true, cs)
  | cs => (false, cs)

/-- The number with the digits of an exponent, after its sign. -/
def exponentValue (negative : Bool) (significand : Nat) (base : Int) (down : Bool)
    (digits : List Char) : Except ReadError Float :=
  match accumulate exponentLimit 0 digits with
  | (e, 0) =>
    let bound : Int := twoTo 31
    let e : Int := if down then max (-bound) (base - e) else min (bound - 1) (base + e)
    floatOf negative significand e
  | (_, _ + 1) =>
    if significand ≠ 0 ∧ ¬ down then .error .malformed else .ok (if negative then -0.0 else 0.0)

/-- Reads an exponent after its sign. -/
def exponentDigits (negative : Bool) (significand : Nat) (base : Int) (down : Bool) :
    Reader Float := fun cs =>
  if (cs.takeWhile Char.isDigit).isEmpty then
    .error (if cs.isEmpty then .unfinished else .malformed)
  else
    (exponentValue negative significand base down (cs.takeWhile Char.isDigit)).map
      (·, cs.dropWhile Char.isDigit)

theorem exponentPart_eq (cs : List Char) :
    exponentPart negative significand base cs =
      exponentDigits negative significand base (splitSign cs).1 (splitSign cs).2 := by
  have hdef : exponentPart negative significand base cs =
      if ((splitSign cs).2.takeWhile Char.isDigit).isEmpty then
        .error (if (splitSign cs).2.isEmpty then .unfinished else .malformed)
      else
        match accumulate exponentLimit 0 ((splitSign cs).2.takeWhile Char.isDigit) with
        | (e, 0) =>
          let bound : Int := twoTo 31
          let e : Int := if (splitSign cs).1 then max (-bound) (base - e)
            else min (bound - 1) (base + e)
          (floatOf negative significand e).map (·, (splitSign cs).2.dropWhile Char.isDigit)
        | (_, _ + 1) =>
          if significand ≠ 0 ∧ ¬ (splitSign cs).1 then .error .malformed
          else .ok (if negative then -0.0 else 0.0, (splitSign cs).2.dropWhile Char.isDigit) := rfl
  rw [hdef]
  unfold exponentDigits exponentValue
  split
  · rfl
  · split
    · rfl
    · split <;> rfl

/-- A sign is taken in front of all that begins as what is behind it. -/
theorem exists_sign (cs : List Char) : ∃ sign, cs = sign ++ (splitSign cs).2 ∧
    ∀ more, more.head? = (splitSign cs).2.head? → splitSign (sign ++ more) = ((splitSign cs).1, more) := by
  unfold splitSign
  split
  · exact ⟨['+'], rfl, fun _ _ => rfl⟩
  · exact ⟨['-'], rfl, fun _ _ => rfl⟩
  · next hplus hminus =>
    refine ⟨[], rfl, fun more hmore => ?_⟩
    rw [List.nil_append]
    split
    · next tail =>
      obtain ⟨rest, rfl⟩ := List.head?_eq_some_iff.1 hmore.symm
      exact absurd rfl (hplus rest)
    · next tail =>
      obtain ⟨rest, rfl⟩ := List.head?_eq_some_iff.1 hmore.symm
      exact absurd rfl (hminus rest)
    · rfl

theorem local_exponentDigits {down : Bool} :
    Local (exponentDigits negative significand base down) := by
  refine local_of_digits (fun ds cs =>
    (exponentValue negative significand base down ds).map (·, cs))
    (fun ds => local_map _ id) ?_ ?_
  · intro cs h
    exact if_neg (by simpa using h)
  · intro cs h r hr
    rw [exponentDigits, h] at hr
    cases hr

theorem local_exponentPart : Local (exponentPart negative significand base) := by
  intro cs x r h
  rw [exponentPart_eq] at h
  obtain ⟨front, hfront, hmore⟩ := local_exponentDigits _ _ _ h
  obtain ⟨sign, hsign, hsplit⟩ := exists_sign cs
  -- an exponent has digits, and they stay when what is behind them is replaced
  have hne : front ≠ [] := by
    rintro rfl
    cases hmore [] (.inl rfl)
  refine ⟨sign ++ front, by rw [List.append_assoc, ← hfront, ← hsign], fun rest hrest => ?_⟩
  have hhead : (front ++ rest).head? = (splitSign cs).2.head? := by
    rw [hfront, List.head?_append_of_ne_nil _ hne, List.head?_append_of_ne_nil _ hne]
  rw [List.append_assoc, exponentPart_eq, hsplit _ hhead]
  exact hmore rest hrest

/-- Whether an exponent begins here. -/
def startsExponent (cs : List Char) : Bool := cs.head?.any fun c => c == 'e' || c == 'E'

theorem startsExponent_replaced {front rest r : List Char} (hrest : Replaces rest r)
    (h : startsExponent (front ++ r) = false) : startsExponent (front ++ rest) = false :=
  hrest.head (fun c hc => by rcases Bool.or_eq_true_iff.1 hc with hc | hc <;> simp [hc]) h

theorem Closes.startsExponent {rest : List Char} (h : Closes rest) :
    startsExponent ([] ++ rest) = false := startsExponent_replaced (.inl h) (r := []) rfl

theorem exists_of_startsExponent {cs : List Char} (h : startsExponent cs = true) :
    ∃ c more, cs = c :: more ∧ (c = 'e' ∨ c = 'E') := by
  cases cs with
  | nil => cases h
  | cons c more => exact ⟨c, more, rfl, by simpa [startsExponent] using h⟩

theorem afterFraction_of_not {cs : List Char} (h : startsExponent cs = false) :
    afterFraction negative significand base cs =
      (floatOf negative significand base).map (·, cs) := by
  unfold afterFraction
  split
  · cases h
  · cases h
  · rfl

theorem local_afterFraction : Local (afterFraction negative significand base) := by
  intro cs x r h
  cases hstart : startsExponent cs with
  | true =>
      obtain ⟨c, more, rfl, rfl | rfl⟩ := exists_of_startsExponent hstart
      · exact (local_exponentPart _ _ _ h).cons fun _ => rfl
      · exact (local_exponentPart _ _ _ h).cons fun _ => rfl
  | false =>
      rw [afterFraction_of_not hstart] at h
      obtain ⟨front, rfl, hmore⟩ := local_map (floatOf negative significand base) id _ _ _ h
      refine ⟨front, rfl, fun rest hrest => ?_⟩
      rw [afterFraction_of_not (startsExponent_replaced hrest hstart)]
      exact hmore rest hrest

theorem local_fractionPart : Local (fractionPart negative significand base) := by
  refine local_of_digits (fun ds => afterFraction negative
    (accumulate wordLimit significand ds).1
    (base - (ds.length - (accumulate wordLimit significand ds).2 : Nat)))
    (fun ds => local_afterFraction) ?_ ?_
  · intro cs h
    exact if_neg (by simpa using h)
  · intro cs h r hr
    rw [fractionPart, h] at hr
    cases hr

/-- Reads what follows the digits before a point. -/
def afterWhole (negative : Bool) (significand left : Nat) : Reader Number
  | '.' :: rest => (fractionPart negative significand left rest).map fun r => (.float r.1, r.2)
  | 'e' :: rest | 'E' :: rest =>
    (exponentPart negative significand left rest).map fun r => (.float r.1, r.2)
  | rest =>
    if left = 0 then .ok (wholeNumber negative significand, rest)
    else (floatOf negative significand left).map fun f => (.float f, rest)

/-- Reads what follows some digits, of which no zero leads others. -/
def afterDigits (negative : Bool) (digits : List Char) : Reader Number := fun rest =>
  match digits with
  | '0' :: _ :: _ => .error .malformed
  | _ => afterWhole negative (accumulate wordLimit 0 digits).1 (accumulate wordLimit 0 digits).2 rest

theorem afterDigits_of_forall_ne {digits rest : List Char}
    (h : ∀ d ds, digits = '0' :: d :: ds → False) :
    afterDigits negative digits rest = afterWhole negative (accumulate wordLimit 0 digits).1
      (accumulate wordLimit 0 digits).2 rest := by
  unfold afterDigits
  split
  · next heq => exact (h _ _ rfl).elim
  · rfl

theorem numberBody_eq {cs : List Char} (h : cs.takeWhile Char.isDigit ≠ []) :
    numberBody negative cs =
      afterDigits negative (cs.takeWhile Char.isDigit) (cs.dropWhile Char.isDigit) := by
  cases hdigits : cs.takeWhile Char.isDigit with
  | nil => exact absurd hdigits h
  | cons d ds =>
      simp only [numberBody, hdigits]
      split
      · next heq => cases heq
      · next heq =>
        cases heq
        rfl
      · next hzero =>
        rw [afterDigits_of_forall_ne hzero]
        rfl

/-- The value of a number without a fraction and an exponent. -/
def wholeValue (negative : Bool) (significand left : Nat) : Except ReadError Number :=
  if left = 0 then .ok (wholeNumber negative significand)
  else (floatOf negative significand left).map .float

theorem afterWhole_of_not {left : Nat} {cs : List Char} (hpoint : cs.head? ≠ some '.')
    (hstart : startsExponent cs = false) :
    afterWhole negative significand left cs =
      (wholeValue negative significand left).map (·, cs) := by
  unfold afterWhole wholeValue
  split
  · exact absurd rfl hpoint
  · cases hstart
  · cases hstart
  · split
    · rfl
    · cases floatOf negative significand left <;> rfl

theorem Replaces.head_ne_point {front rest r : List Char} (hrest : Replaces rest r)
    (h : (front ++ r).head? ≠ some '.') : (front ++ rest).head? ≠ some '.' := by
  have hnot : (front ++ r).head?.any (· == '.') = false := by
    simpa [Option.any_eq_false] using fun c hc (heq : c = '.') => h (heq ▸ hc)
  intro hpoint
  have hany := hrest.head (fun c hc => by simp [hc]) hnot
  rw [hpoint] at hany
  cases hany

theorem Closes.head_ne_point {rest : List Char} (h : Closes rest) : ([] ++ rest).head? ≠ some '.' :=
  Replaces.head_ne_point (.inl h) (r := []) (by simp)

theorem local_afterWhole {left : Nat} : Local (afterWhole negative significand left) := by
  intro cs x r h
  by_cases hpoint : cs.head? = some '.'
  · obtain ⟨more, rfl⟩ := List.head?_eq_some_iff.1 hpoint
    exact (local_fractionPart.map Number.float _ _ _ h).cons fun _ => rfl
  · cases hstart : startsExponent cs with
    | true =>
        obtain ⟨c, more, rfl, rfl | rfl⟩ := exists_of_startsExponent hstart
        · exact (local_exponentPart.map Number.float _ _ _ h).cons fun _ => rfl
        · exact (local_exponentPart.map Number.float _ _ _ h).cons fun _ => rfl
    | false =>
        rw [afterWhole_of_not hpoint hstart] at h
        obtain ⟨front, rfl, hmore⟩ := local_map (wholeValue negative significand left) id _ _ _ h
        refine ⟨front, rfl, fun rest hrest => ?_⟩
        rw [afterWhole_of_not (hrest.head_ne_point hpoint) (startsExponent_replaced hrest hstart)]
        exact hmore rest hrest

theorem local_afterDigits (digits : List Char) : Local (afterDigits negative digits) := by
  unfold afterDigits
  split
  · intro cs x r h
    cases h
  · exact local_afterWhole

/-- A number that is read is read in front of anything that a number cannot go on with. -/
theorem local_numberBody : Local (numberBody negative) := by
  refine local_of_digits (afterDigits negative) local_afterDigits ?_ ?_
  · intro cs h
    exact numberBody_eq h
  · intro cs h r hr
    rw [numberBody, h] at hr
    cases hr

/-! ### Numbers as values -/

section

variable {inner inner' : Option (Reader Json)} {c : Char} {cs rest : List Char}

theorem skipSpace_of_not_isSpace (h : isSpace c = false) : skipSpace (c :: cs) = c :: cs := by
  rw [skipSpace, List.dropWhile_cons, h]
  rfl

theorem not_isSpace_of_isDigit (h : c.isDigit = true) : isSpace c = false := by
  cases hspace : isSpace c with
  | false => rfl
  | true =>
      have hsigns : c = ' ' ∨ c = '\n' ∨ c = '\t' ∨ c = '\r' := by
        simpa [isSpace, or_assoc] using hspace
      rcases hsigns with rfl | rfl | rfl | rfl <;> cases h

theorem valueWith_digit (h : c.isDigit = true) :
    valueWith inner (c :: cs) = (numberBody false (c :: cs)).map fun r => (.num r.1, r.2) := by
  have hne : ∀ d : Char, d.isDigit = false → c ≠ d := by
    rintro d hd rfl
    exact absurd h (by rw [hd]; exact Bool.false_ne_true)
  rw [valueWith, skipSpace_of_not_isSpace (not_isSpace_of_isDigit h)]
  simp only [hne '"' rfl, hne '[' rfl, hne '\x7b' rfl, hne 'n' rfl, hne 't' rfl, hne 'f' rfl,
    hne '-' rfl, h, if_false, if_true]

theorem word_eq_ok {α : Type} {letters : List Char} {a b : α} {r : List Char}
    (h : word letters a cs = .ok (b, r)) : b = a := by
  induction letters generalizing cs with
  | nil =>
      cases h
      rfl
  | cons letter letters ih =>
      cases cs with
      | nil => cases h
      | cons d cs =>
          rw [word] at h
          split at h
          · exact ih h
          · cases h

/-- The characters of a number that is written, or of the word that stands for none. -/
def isNumberChar (c : Char) : Bool := Decimal.isNumeric c || c == 'n' || c == 'u' || c == 'l'

/-- What is read as a number alone is read as that number in front of what closes it. -/
theorem valueWith_append {n : Number} {r : List Char} (hcs : ∀ c ∈ cs, isNumberChar c = true)
    (h : valueWith inner cs = .ok (.num n, r)) (hrest : Closes rest) :
    r <:+ cs ∧ valueWith inner' (cs ++ rest) = .ok (.num n, r ++ rest) := by
  cases cs with
  | nil => cases h
  | cons c cs =>
      by_cases hdigit : c.isDigit = true
      · rw [valueWith_digit hdigit] at h
        rw [List.cons_append, valueWith_digit hdigit]
        exact (local_numberBody.map Json.num).append h hrest
      · have hsigns : c = '.' ∨ c = 'e' ∨ c = '+' ∨ c = '-' ∨ c = 'n' ∨ c = 'u' ∨ c = 'l' := by
          simpa [isNumberChar, Decimal.isNumeric, hdigit, or_assoc] using hcs c List.mem_cons_self
        rcases hsigns with rfl | rfl | rfl | rfl | rfl | rfl | rfl
        · cases h
        · cases h
        · cases h
        · obtain ⟨hsuffix, hmore⟩ := (local_numberBody.map Json.num).append h hrest
          exact ⟨hsuffix.trans (List.suffix_cons _ _), hmore⟩
        · cases word_eq_ok h
        · cases h
        · cases h

end

/-- A text is read as a value if nothing but blanks is left behind it. -/
theorem readRaw_eq_ok_iff {s : String} {v : Json} :
    readRaw s = .ok v ↔
      ∃ space, (∀ c ∈ space, isSpace c = true) ∧ value maxDepth s.toList = .ok (v, space) := by
  rw [readRaw, bind_eq_ok_iff]
  constructor
  · rintro ⟨⟨w, space⟩, hvalue, hend⟩
    dsimp only at hend
    split at hend
    · next hspace =>
      cases hend
      exact ⟨space, Text.dropWhile_eq_nil_iff.1 (List.isEmpty_iff.1 hspace), hvalue⟩
    · cases hend
  · rintro ⟨space, hspace, hvalue⟩
    refine ⟨(v, space), hvalue, if_pos ?_⟩
    exact List.isEmpty_iff.2 (Text.dropWhile_eq_nil_iff.2 hspace)

/-- A number is read as itself from its text. -/
def Number.ReadsBack (n : Number) : Prop := readRaw n.render = .ok (.num n)

section

variable {n : Number} {depth m : Nat} {c : Char} {cs rest : List Char}

theorem toList_render_natural : (Number.render (.int m)).toList = Nat.toDigits 10 m :=
  String.toList_ofList

theorem isNumberChar_of_isNumeric (h : Decimal.isNumeric c = true) : isNumberChar c = true := by
  simp [isNumberChar, h]

theorem isNumberChar_of_mem_render (h : c ∈ n.render.toList) : isNumberChar c = true := by
  cases n with
  | float x =>
      have hword : ∀ c ∈ ['n', 'u', 'l', 'l'], isNumberChar c = true := by simp [isNumberChar]
      rcases Decimal.of_mem_render h with h | h | h
      · exact isNumberChar_of_isNumeric h
      · exact hword c h
      · exact hword c h
  | int i =>
      cases i with
      | ofNat m =>
          have hdigits : c ∈ Nat.toDigits 10 m := toList_render_natural ▸ h
          exact isNumberChar_of_isNumeric (Decimal.isNumeric_of_mem_toDigits hdigits)
      | negSucc m =>
          have hdigits : c ∈ ("-" ++ Nat.repr (m + 1)).toList := h
          rw [String.toList_append, List.mem_append] at hdigits
          rcases hdigits with hsign | hdigits
          · rw [List.mem_singleton.1 hsign]
            decide
          · rw [Nat.repr, String.toList_ofList] at hdigits
            exact isNumberChar_of_isNumeric (Decimal.isNumeric_of_mem_toDigits hdigits)

theorem not_isSpace_of_isNumberChar (h : isNumberChar c = true) : isSpace c = false := by
  by_cases hdigit : c.isDigit = true
  · exact not_isSpace_of_isDigit hdigit
  · have hsigns : c = '.' ∨ c = 'e' ∨ c = '+' ∨ c = '-' ∨ c = 'n' ∨ c = 'u' ∨ c = 'l' := by
      simpa [isNumberChar, Decimal.isNumeric, hdigit, or_assoc] using h
    rcases hsigns with rfl | rfl | rfl | rfl | rfl | rfl | rfl <;> rfl

theorem value_eq (depth : Nat) : ∃ inner, value depth = valueWith inner := by
  cases depth with
  | zero => exact ⟨none, rfl⟩
  | succ depth => exact ⟨some (value depth), rfl⟩

/-- A number that reads back does so in front of anything that closes it. -/
theorem value_number (h : n.ReadsBack) (hrest : Closes rest) :
    value depth (n.render.toList ++ rest) = .ok (.num n, rest) := by
  obtain ⟨inner, hinner⟩ := value_eq maxDepth
  obtain ⟨inner', hinner'⟩ := value_eq depth
  have hchars : ∀ c ∈ n.render.toList, isNumberChar c = true := fun c =>
    isNumberChar_of_mem_render
  obtain ⟨space, hspace, hvalue⟩ := readRaw_eq_ok_iff.1 h
  rw [hinner] at hvalue
  obtain ⟨hsuffix, hmore⟩ : space <:+ n.render.toList ∧
      valueWith inner' (n.render.toList ++ rest) = .ok (.num n, space ++ rest) :=
    valueWith_append hchars hvalue hrest
  have hnone : space = [] := by
    cases space with
    | nil => rfl
    | cons c space =>
        have hc : isSpace c = false :=
          not_isSpace_of_isNumberChar (hchars c (hsuffix.subset List.mem_cons_self))
        exact absurd (hspace c List.mem_cons_self) (by simp [hc])
  rw [hinner', hmore, hnone, List.nil_append]

/-! ### Whole numbers -/

theorem accumulate_eq {limit k : Nat} (h : Text.digitsFrom k cs ≤ limit) :
    accumulate limit k cs = (Text.digitsFrom k cs, 0) := by
  induction cs generalizing k with
  | nil => rfl
  | cons d ds ih =>
      -- no part of the number is above the whole of it, so the limit is not met on the way
      have hstep : k * 10 + Text.decimalValue d ≤ limit := Nat.le_trans (Text.le_digitsFrom ds) h
      rw [accumulate]
      exact (if_pos hstep).trans (ih h)

theorem numberBody_toDigits (h : m < twoTo 64) :
    numberBody false (Nat.toDigits 10 m) = .ok (.int m, []) := by
  have hall : ∀ d ∈ Nat.toDigits 10 m, d.isDigit = true := fun d => Text.isDigit_of_mem_toDigits
  have htake : (Nat.toDigits 10 m).takeWhile Char.isDigit = Nat.toDigits 10 m :=
    List.takeWhile_eq_self_iff.2 hall
  have hdrop : (Nat.toDigits 10 m).dropWhile Char.isDigit = [] :=
    List.dropWhile_eq_nil_iff.2 hall
  have hvalue : accumulate wordLimit 0 (Nat.toDigits 10 m) = (m, 0) := by
    have hle : Text.digitsFrom 0 (Nat.toDigits 10 m) ≤ wordLimit := by
      rw [Text.digitsFrom_toDigits]
      exact Nat.le_sub_one_of_lt h
    rw [accumulate_eq hle, Text.digitsFrom_toDigits]
  rw [numberBody_eq (htake.symm ▸ Nat.toDigits_ne_nil), htake, hdrop,
    afterDigits_of_forall_ne fun d ds hzero => List.cons_ne_nil d ds (Text.toDigits_eq_zero_cons hzero),
    hvalue]
  rfl

theorem readsBack_natural (h : m < twoTo 64) : Number.ReadsBack (.int m) := by
  obtain ⟨inner, hinner⟩ := value_eq maxDepth
  have hvalue : valueWith inner (Nat.toDigits 10 m) = .ok (.num (.int m), []) := by
    cases hdigits : Nat.toDigits 10 m with
    | nil => exact absurd hdigits Nat.toDigits_ne_nil
    | cons d ds =>
        have hd : d.isDigit = true := Text.isDigit_of_mem_toDigits (hdigits ▸ List.mem_cons_self)
        rw [valueWith_digit hd, ← hdigits, numberBody_toDigits h]
        rfl
  rw [Number.ReadsBack, readRaw, toList_render_natural, hinner, hvalue]
  rfl

end

end StyleContract.Json
