import StyleContract.Proofs.Decimal.Layout
import StyleContract.Proofs.Yaml.Scalars

/-!
# Proofs — Yaml — Numbers

A number is written without quotes, and its text stands for it again. Its text is a sign or none and
then digits, a point and an exponent (`Decimal.IsUnsigned`), so it is none of the words that YAML knows;
whether it stands for a whole number is a matter of its having a point or an exponent
(`Core.int?_signed`).
-/

namespace StyleContract.Yaml
open Decimal (IsUnsigned isNumeric signText)
open Text (isDigit_iff ne_of_isDigit)

variable {cs : List Char} {c : Char} {text : String} {pointed negative : Bool}

/-! ### Without quotes -/

theorem of_isNumeric (h : isNumeric c = true) :
    c ≠ ' ' ∧ c ≠ ':' ∧ c ≠ '#' ∧ isBreak c = false ∧ Printer.isPrintable c = true := by
  by_cases hdigit : c.isDigit = true
  · have hbounds := isDigit_iff.1 hdigit
    have hne : ∀ d : Char, d.isDigit = false → c ≠ d := fun _ => ne_of_isDigit hdigit
    refine ⟨hne _ rfl, hne _ rfl, hne _ rfl, ?_, ?_⟩
    · simp [isBreak, hne '\n' rfl, hne '\r' rfl, hne '\u0085' rfl, hne '\u2028' rfl,
        hne '\u2029' rfl]
    · simp only [Printer.isPrintable, Bool.or_eq_true, Bool.and_eq_true, decide_eq_true_eq]
      omega
  · have hsigns : c = '.' ∨ c = 'e' ∨ c = '+' ∨ c = '-' := by
      simpa [isNumeric, hdigit, or_assoc] using h
    rcases hsigns with rfl | rfl | rfl | rfl <;> decide

theorem hasPair_eq_false {p q : Char → Bool} (h : ∀ c ∈ cs, p c = false) :
    Printer.hasPair p q cs = false := by
  induction cs with
  | nil => rfl
  | cons c cs ih =>
      cases cs with
      | nil => rfl
      | cons d cs =>
          rw [Printer.hasPair, h c List.mem_cons_self, Bool.false_and, Bool.false_or]
          exact ih fun e he => h e (List.mem_cons_of_mem c he)

theorem holdsMark_eq_false {afterBlank : Bool} (h : ∀ c ∈ cs, c ≠ ':' ∧ c ≠ '#') :
    Printer.holdsMark afterBlank cs = false := by
  induction cs generalizing afterBlank with
  | nil => rfl
  | cons c cs ih =>
      obtain ⟨hcolon, hnumber⟩ := h c List.mem_cons_self
      rw [Printer.holdsMark, ih fun d hd => h d (List.mem_cons_of_mem c hd)]
      simp [hcolon, hnumber]

/-- Numeric characters can stand without quotes, unless their first ones mean something else. -/
theorem allowsPlain_of_isNumeric (h : ∀ c ∈ cs, isNumeric c = true)
    (hmarked : Printer.startsMarked cs = false) : Printer.allowsPlain cs = true := by
  have hspace : ∀ c ∈ cs, Printer.isSpace c = false := fun c hc => by
    simpa [Printer.isSpace] using (of_isNumeric (h c hc)).1
  have hescape : Printer.needsEscape cs = false := by
    rw [Printer.needsEscape, hasPair_eq_false hspace, Bool.or_false, List.any_eq_false]
    exact fun c hc => by simp [(of_isNumeric (h c hc)).2.2.2.2]
  have hlines : Printer.hasLines cs = false := List.any_eq_false.2 fun c hc => by
    simp [(of_isNumeric (h c hc)).2.2.2.1]
  have hends : ∀ o : Option Char, (∀ c ∈ o, c ∈ cs) → o.any Printer.isSpace = false := by
    intro o ho
    cases o with
    | none => rfl
    | some c => exact hspace c (ho c rfl)
  have hhead : cs.head?.any Printer.isSpace = false := hends _ fun _ => List.mem_of_mem_head?
  have hlast : cs.getLast?.any Printer.isSpace = false := hends _ fun _ => List.mem_of_mem_getLast?
  have hmark : Printer.holdsMark true cs = false := holdsMark_eq_false fun c hc =>
    ⟨(of_isNumeric (h c hc)).2.1, (of_isNumeric (h c hc)).2.2.1⟩
  rw [Printer.allowsPlain, hhead, hlast, hlines, hescape, hmarked, hmark]
  rfl

theorem startsMarked_signed (h : IsUnsigned pointed text) :
    Printer.startsMarked (signText negative ++ text).toList = false := by
  obtain ⟨d, ds, htext, hd⟩ := h.starts
  have hne : ∀ e : Char, e.isDigit = false → d ≠ e := fun _ => ne_of_isDigit hd
  rw [String.toList_append, htext]
  have hblank : isBlank d = false ∧ isBreak d = false ∧ d ≠ '\x00' :=
    ⟨by simp [isBlank, hne], (of_isNumeric (Decimal.isNumeric_of_isDigit hd)).2.2.2.1, hne _ rfl⟩
  cases negative with
  | true =>
      show Printer.startsMarked ('-' :: d :: ds) = false
      simp [Printer.startsMarked, Printer.blankAhead, hblank, hne]
  | false =>
      show Printer.startsMarked (d :: ds) = false
      simp [Printer.startsMarked, Printer.blankAhead, hne]

/-- The text of a number can stand without quotes. -/
theorem suits_signed (h : IsUnsigned pointed text) :
    Suits .plain (signText negative ++ text).toList := by
  have hnumeric : ∀ c ∈ (signText negative ++ text).toList, isNumeric c = true := by
    intro c hc
    rw [String.toList_append, List.mem_append] at hc
    exact hc.elim Decimal.of_mem_signText (h.numeric c)
  refine ⟨allowsPlain_of_isNumeric hnumeric (startsMarked_signed h), ?_⟩
  obtain ⟨d, ds, htext, -⟩ := h.starts
  rw [String.toList_append, htext]
  exact List.append_ne_nil_of_right_ne_nil _ (List.cons_ne_nil d ds)

/-! ### What a number stands for -/

namespace Core

variable {limit : Nat}

theorem marked?_eq_none (h : ∀ c ∈ cs, isNumeric c = true) : marked? limit cs = none := by
  have hmark : ∀ c, c = 'x' ∨ c = 'o' ∨ c = 'b' → c ∉ cs := by
    rintro c (rfl | rfl | rfl) hc
    all_goals
      have hnumeric := h _ hc
      revert hnumeric
      decide
  unfold marked?
  split
  · exact absurd (by simp) (hmark 'x' (.inl rfl))
  · exact absurd (by simp) (hmark 'o' (.inr (.inl rfl)))
  · exact absurd (by simp) (hmark 'b' (.inr (.inr rfl)))
  · rfl

/-- The whole number of a text without a sign. -/
def whole? (cs : List Char) : Option Nat := if isZeroLed cs then none else Text.digitsIn? 10 cs

theorem dropPlus_of_ne {d : Char} {ds : List Char} (h : d ≠ '+') : dropPlus (d :: ds) = d :: ds := by
  unfold dropPlus
  split
  · next heq => exact absurd (List.cons.inj heq).1 h
  · rfl

theorem natural?_eq {d : Char} {ds : List Char} (hd : d ≠ '+')
    (h : ∀ c ∈ d :: ds, isNumeric c = true) :
    natural? limit (d :: ds) = (whole? (d :: ds)).filter (· ≤ limit) := by
  rw [natural?, dropPlus_of_ne hd, marked?_eq_none h, whole?]
  dsimp only
  split <;> rfl

theorem negated?_of_ne {d : Char} {ds : List Char} (h : d ≠ '-') : negated? limit (d :: ds) = none := by
  unfold negated?
  split
  · next heq => exact absurd (List.cons.inj heq).1 h
  · rfl

theorem negated?_minus (h : ∀ c ∈ cs, isNumeric c = true) :
    negated? limit ('-' :: cs) = (whole? cs).filter (· ≤ limit) := by
  rw [negated?, marked?_eq_none h, whole?]
  dsimp only
  split <;> rfl

theorem whole?_eq_none (hc : c ∈ cs) (hdigit : c.isDigit = false) : whole? cs = none := by
  rw [whole?]
  split
  · rfl
  · refine Option.eq_none_iff_forall_ne_some.2 fun n hn => ?_
    rw [Text.isDigit_of_digitsIn?_ten hn c hc] at hdigit
    cases hdigit

/-- A number is whole if it has digits only after its sign, of which no zero leads others. -/
theorem int?_signed (h : IsUnsigned pointed text) :
    int? (signText negative ++ text).toList =
      ((whole? text.toList).filter (· ≤ if negative then twoTo 127 else twoTo 128 - 1)).map
        fun n : Nat => if negative then -(n : Int) else (n : Int) := by
  obtain ⟨d, ds, htext, hd⟩ := h.starts
  have hnumeric := h.numeric
  rw [htext] at hnumeric
  rw [String.toList_append, htext]
  cases negative with
  | false =>
      show int? (d :: ds) = _
      rw [int?, natural?_eq (ne_of_isDigit hd rfl) hnumeric, negated?_of_ne (ne_of_isDigit hd rfl)]
      simp only [Bool.false_eq_true, if_false]
      cases (whole? (d :: ds)).filter (· ≤ twoTo 128 - 1) <;> rfl
  | true =>
      have hsigned : ∀ c ∈ '-' :: d :: ds, isNumeric c = true :=
        List.forall_mem_cons.2 ⟨by decide, hnumeric⟩
      have hnone : whole? ('-' :: d :: ds) = none := whole?_eq_none List.mem_cons_self rfl
      show int? ('-' :: d :: ds) = _
      rw [int?, natural?_eq (by decide) hsigned, hnone, negated?_minus hnumeric, Option.filter_none]
      simp only [if_true]
      cases (whole? (d :: ds)).filter (· ≤ twoTo 127) <;> rfl

theorem startsSigned_unsigned (h : IsUnsigned pointed text) : startsSigned text.toList = false := by
  obtain ⟨d, ds, htext, hd⟩ := h.starts
  have hsign : ∀ e : Char, e.isDigit = false → (d == e) = false := fun _ he =>
    beq_false_of_ne (ne_of_isDigit hd he)
  rw [htext]
  exact Bool.or_eq_false_iff.2 ⟨hsign '+' rfl, hsign '-' rfl⟩

theorem isZeroLed_signed (h : IsUnsigned pointed text) :
    isZeroLed (signText negative ++ text).toList = isZeroLed text.toList := by
  obtain ⟨d, ds, htext, hd⟩ := h.starts
  have hunsigned : startsSigned (d :: ds) = false := htext ▸ startsSigned_unsigned h
  rw [String.toList_append, htext]
  cases negative with
  | false => rfl
  | true =>
      show isZeroLed ('-' :: d :: ds) = isZeroLed (d :: ds)
      rw [isZeroLed, isZeroLed, hunsigned]
      rfl

theorem isZeroLed_eq_false (hc : c ∈ cs) (hdigit : c.isDigit = false)
    (hunsigned : startsSigned cs = false) : isZeroLed cs = false := by
  rw [isZeroLed, hunsigned, if_neg Bool.false_ne_true]
  split
  · refine List.all_eq_false.2 ⟨c, ?_, by rw [hdigit]; exact Bool.false_ne_true⟩
    exact (List.mem_cons.1 hc).resolve_left (ne_of_isDigit rfl hdigit).symm
  · rfl

/-- The text of a number is none of the words that stand for something else. -/
theorem not_word_signed (h : IsUnsigned pointed text) :
    ¬ ((signText negative ++ text).isEmpty = true ∨ isNullWord (signText negative ++ text) = true) ∧
      bool? (signText negative ++ text) = none := by
  obtain ⟨d, ds, htext, hd⟩ := h.starts
  have hfirst : (signText negative ++ text).toList.head?.any
      (fun c => c.isDigit || c == '-') = true := by
    rw [String.toList_append, htext]
    cases negative with
    | true => rfl
    | false =>
        show (d.isDigit || d == '-') = true
        rw [hd, Bool.true_or]
  generalize signText negative ++ text = s at hfirst ⊢
  have hword : ∀ words : List String, (words.any fun w =>
      w.toList.head?.any fun c => c.isDigit || c == '-') = false → s ∉ words := fun words hwords hs =>
    absurd hfirst (List.any_eq_false.1 hwords s hs)
  constructor
  · have hwords := hword ["", "null", "Null", "NULL", "~"] (by decide)
    simpa [isNullWord, String.isEmpty_iff] using hwords
  · have hwords := hword ["true", "True", "TRUE", "false", "False", "FALSE"] (by decide)
    simp only [List.mem_cons, not_or, List.not_mem_nil, not_false_eq_true, and_true] at hwords
    simp [bool?, hwords]

theorem whole?_repr (n : Nat) : whole? n.repr.toList = some n := by
  have hzero : isZeroLed n.repr.toList = false := by
    rw [isZeroLed, startsSigned_unsigned (Decimal.isUnsigned_repr n), if_neg Bool.false_ne_true,
      Nat.repr, String.toList_ofList]
    split
    · next heq => exact absurd (Text.toDigits_eq_zero_cons heq) (List.cons_ne_nil _ _)
    · rfl
  rw [whole?, hzero, if_neg Bool.false_ne_true, Nat.repr, String.toList_ofList,
    Text.digitsIn?_toDigits]

theorem toString_int (i : Int) : toString i = signText (decide (i < 0)) ++ i.natAbs.repr := by
  cases i with
  | ofNat n => exact (String.empty_append).symm
  | negSucc n =>
      rw [decide_eq_true (Int.negSucc_lt_zero n)]
      rfl

/-- The text of a whole number stands for it. -/
theorem of_toString {i : Int} (hleast : -(twoTo 127 : Int) ≤ i) (hgreatest : i < twoTo 128) :
    of (toString i) = .int i := by
  have hint : int? (toString i).toList = some i := by
    rw [toString_int, int?_signed (Decimal.isUnsigned_repr _), whole?_repr]
    by_cases hneg : i < 0
    · have hle : i.natAbs ≤ twoTo 127 := by omega
      simp only [hneg, hle, decide_true, if_true, Option.filter_some, Option.map_some,
        Option.some.injEq]
      omega
    · have hle : i.natAbs ≤ twoTo 128 - 1 := by omega
      simp only [hneg, hle, decide_true, decide_false, Bool.false_eq_true, if_true, if_false,
        Option.filter_some, Option.map_some, Option.some.injEq]
      omega
  rw [toString_int] at hint ⊢
  obtain ⟨hnull, hbool⟩ := @not_word_signed _ _ (decide (i < 0)) (Decimal.isUnsigned_repr i.natAbs)
  simp only [of, if_neg hnull, hbool, hint]

/-- A text with a point or an exponent stands for the number that it is read as. -/
theorem of_render {x : Float} (hfinite : x.isFinite = true)
    (hback : float? (Printer.numberLayout.render x).toList = some x) :
    of (Printer.numberLayout.render x) = .float x := by
  obtain ⟨negative, text, hrender, h⟩ := @Decimal.exists_render Printer.numberLayout x hfinite
  obtain ⟨c, hc, hfractional⟩ := h.fractional rfl
  have hdigit : c.isDigit = false := by rcases hfractional with rfl | rfl <;> rfl
  rw [hrender] at hback ⊢
  have hint : int? (signText negative ++ text).toList = none := by
    rw [int?_signed h, whole?_eq_none hc hdigit]
    rfl
  have hzero : isZeroLed (signText negative ++ text).toList = false := by
    rw [isZeroLed_signed h, isZeroLed_eq_false hc hdigit (startsSigned_unsigned h)]
  obtain ⟨hnull, hbool⟩ := @not_word_signed _ _ negative h
  simp only [of, if_neg hnull, hbool, hint, hzero, hback, Bool.false_eq_true, if_false]

end Core

/-! ### Numbers of a value -/

/-- A number that is read from its text as itself: a whole one within 128 bits, or one that is finite
and that its digits are enough for. -/
def ReadsBack : Json.Number → Prop
  | .int i => -(twoTo 127 : Int) ≤ i ∧ i < twoTo 128
  | .float x =>
    x.isFinite = true ∧ Core.float? (Printer.numberLayout.render x).toList = some x

/-- What the text of a number stands for. -/
def Core.ofNumber : Json.Number → Core
  | .int i => .int i
  | .float x => .float x

variable {n : Json.Number}

/-- The text of a number can stand without quotes. -/
theorem suits_numberText (h : ReadsBack n) : Suits .plain (Printer.numberText n).toList := by
  cases n with
  | int i =>
      rw [Printer.numberText, Core.toString_int]
      exact suits_signed (Decimal.isUnsigned_repr _)
  | float x =>
      obtain ⟨negative, text, hrender, hunsigned⟩ := @Decimal.exists_render Printer.numberLayout x h.1
      rw [Printer.numberText, hrender]
      exact suits_signed hunsigned

/-- **The text of a number stands for it.** -/
theorem of_numberText (h : ReadsBack n) : Core.of (Printer.numberText n) = .ofNumber n := by
  cases n with
  | int i => exact Core.of_toString h.1 h.2
  | float x => exact Core.of_render h.1 h.2

end StyleContract.Yaml
