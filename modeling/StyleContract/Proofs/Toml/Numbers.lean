import StyleContract.Proofs.Text.Digits
import StyleContract.Proofs.Toml.Values

/-!
# Proofs — Toml — Numbers

What a text that begins with digits stands for, told by the character behind its digits. A day goes on with
a dash, a time of day with a colon, and a number that is not whole with a point or an exponent; what goes on
in no such way is whole (`scalarOf?_eq_int`). So the digits of a number stand for that number
(`scalarOf?_toDigits`), and **with anything behind them they never do**, but for a zero that is the mark of
another base (`eq_zero_of_scalarOf?`).
-/

namespace StyleContract.Toml

variable {cs more rest ds es : List Char} {c d : Char} {n : Nat}

/-! ### Days, times and fractions -/

theorem exists_of_fixedNumber? {count least greatest : Nat}
    (h : fixedNumber? count least greatest cs = some (n, rest)) :
    (∀ c ∈ cs.take count, c.isDigit = true) ∧ rest = cs.drop count := by
  rw [fixedNumber?] at h
  split at h
  · cases h
  · obtain ⟨m, hm, h⟩ := Option.bind_eq_some_iff.1 h
    obtain ⟨-, heq⟩ := Option.ite_none_right_eq_some.1 h
    cases heq
    obtain ⟨hdigits, -⟩ := Option.ite_none_left_eq_some.1 hm
    refine ⟨fun c hc => ?_, rfl⟩
    simp only [Bool.or_eq_true, Bool.not_eq_true', not_or, Bool.not_eq_false] at hdigits
    exact List.all_eq_true.1 hdigits.2 c hc

/-- The character behind a number of a fixed count of digits is the first that is no digit. -/
theorem head?_dropWhile_of_fixedNumber? {count least greatest : Nat} (hc : c.isDigit = false)
    (h : fixedNumber? count least greatest cs = some (n, rest)) (hrest : expect? rest c = some more) :
    (cs.dropWhile Char.isDigit).head? = some c := by
  obtain ⟨hdigits, hdrop⟩ := exists_of_fixedNumber? h
  have hcs : cs = cs.take count ++ c :: more := by
    rw [← expect?_eq_some hrest, hdrop, List.take_append_drop]
  rw [hcs, Text.dropWhile_append_of_head hdigits (by simp [hc])]
  rfl

theorem head?_dropWhile_of_day? (h : day? cs ≠ none) :
    (cs.dropWhile Char.isDigit).head? = some '-' := by
  obtain ⟨_, h⟩ := Option.ne_none_iff_exists'.1 h
  obtain ⟨⟨year, rest⟩, hyear, h⟩ := Option.bind_eq_some_iff.1 h
  obtain ⟨more, hmore, -⟩ := Option.bind_eq_some_iff.1 h
  exact head?_dropWhile_of_fixedNumber? rfl hyear hmore

theorem head?_dropWhile_of_time? (h : time? cs ≠ none) :
    (cs.dropWhile Char.isDigit).head? = some ':' := by
  obtain ⟨_, h⟩ := Option.ne_none_iff_exists'.1 h
  obtain ⟨⟨hour, rest⟩, hhour, h⟩ := Option.bind_eq_some_iff.1 h
  obtain ⟨more, hmore, -⟩ := Option.bind_eq_some_iff.1 h
  exact head?_dropWhile_of_fixedNumber? rfl hhour hmore

theorem head?_dropWhile_of_isMoment (h : isMoment cs = true) :
    (cs.dropWhile Char.isDigit).head? = some '-' ∨ (cs.dropWhile Char.isDigit).head? = some ':' := by
  cases hday : day? cs with
  | some r => exact .inl (head?_dropWhile_of_day? (hday ▸ Option.some_ne_none r))
  | none =>
      refine .inr (head?_dropWhile_of_time? fun htime => ?_)
      rw [isMoment, hday, htime] at h
      cases h

def isGroupChar (c : Char) : Bool := c.isDigit || c == '_'

theorem splitSign_of_isDigit (h : cs.head?.any Char.isDigit = true) : splitSign cs = (false, cs) := by
  unfold splitSign
  split
  · cases h
  · cases h
  · rfl

theorem head?_dropWhile_of_floatOf? {x : Float} (hcs : cs.head?.any Char.isDigit = true)
    (h : floatOf? cs = some x) : (cs.dropWhile isGroupChar).head? ∈ ['.', 'e', 'E'].map some := by
  have hinf : cs ≠ "inf".toList := by
    rintro rfl
    cases hcs
  have hnan : cs ≠ "nan".toList := by
    rintro rfl
    cases hcs
  rw [floatOf?, splitSign_of_isDigit hcs] at h
  simp only [if_neg hinf, if_neg hnan, Text.drop_length_takeWhile] at h
  obtain ⟨_, -, h⟩ := Option.bind_eq_some_iff.1 h
  show (cs.dropWhile fun c => c.isDigit || c == '_').head? ∈ _
  split at h
  · next heq => simp [heq]
  · next heq => simp [heq]
  · next heq => simp [heq]
  · cases h

/-- What begins with digits and goes on as no day, time of day or fraction is a whole number. -/
theorem scalarOf?_eq_int (hcs : cs.head?.any Char.isDigit = true)
    (hmoment : (cs.dropWhile Char.isDigit).head? ∉ ['-', ':'].map some)
    (hfloat : (cs.dropWhile isGroupChar).head? ∉ ['.', 'e', 'E'].map some) :
    scalarOf? cs = (intOf? cs).map .int := by
  have htrue : cs ≠ "true".toList := by
    rintro rfl
    cases hcs
  have hfalse : cs ≠ "false".toList := by
    rintro rfl
    cases hcs
  have hno : isMoment cs ≠ true := fun h => by
    rcases head?_dropWhile_of_isMoment h with h | h <;> exact hmoment (by simp [h])
  rw [scalarOf?, if_neg htrue, if_neg hfalse, if_neg hno]
  split
  · next heq => exact absurd (head?_dropWhile_of_floatOf? hcs heq) hfloat
  · rfl

/-! ### Whole numbers -/

theorem ungrouped?_cons {f : Char → Bool} (hne : cs ≠ []) (hc : cs.head? ≠ some '_') :
    ungrouped? f (d :: cs) = if f d then (ungrouped? f cs).map (d :: ·) else none := by
  obtain ⟨c, cs, rfl⟩ := List.exists_cons_of_ne_nil hne
  have hc : c ≠ '_' := fun heq => hc (congrArg some heq)
  rw [ungrouped?]
  · exact fun h => hne h
  · exact fun _ h => hc (List.cons.inj h).1

theorem ungrouped?_ne_nil {f : Char → Bool} (h : ungrouped? f cs = some es) : es ≠ [] := by
  rintro rfl
  unfold ungrouped? at h
  split at h
  · cases h
  · obtain ⟨-, h⟩ := Option.ite_none_right_eq_some.1 h
    cases h
  all_goals
    obtain ⟨-, h⟩ := Option.ite_none_right_eq_some.1 h
    obtain ⟨_, -, h⟩ := Option.map_eq_some_iff.1 h
    cases h

theorem head?_ne_underscore (h : ∀ d ∈ ds, d.isDigit = true) : ds.head? ≠ some '_' := by
  intro hhead
  have hdigit := h '_' (List.mem_of_mem_head? hhead)
  cases hdigit

theorem ungrouped?_digits (hne : ds ≠ []) (h : ∀ d ∈ ds, d.isDigit = true) :
    ungrouped? Char.isDigit ds = some ds := by
  induction ds with
  | nil => exact absurd rfl hne
  | cons d ds ih =>
      rw [List.forall_mem_cons] at h
      cases ds with
      | nil => exact if_pos h.1
      | cons e ds =>
          rw [ungrouped?_cons (List.cons_ne_nil e ds) (head?_ne_underscore h.2), if_pos h.1,
            ih (List.cons_ne_nil e ds) h.2]
          rfl

theorem ungrouped?_eq_none {f : Char → Bool} (hd : f d = false) : ungrouped? f (d :: cs) = none := by
  unfold ungrouped?
  split <;> simp_all

/-- Behind digits an underscore and more digits may stand, and no other character. -/
theorem exists_more_of_ungrouped? (hne : ds ≠ []) (h : ∀ d ∈ ds, d.isDigit = true)
    (hc : c.isDigit = false) (hes : ungrouped? Char.isDigit (ds ++ c :: cs) = some es) :
    c = '_' ∧ ∃ more, more ≠ [] ∧ es = ds ++ more := by
  induction ds generalizing es with
  | nil => exact absurd rfl hne
  | cons d ds ih =>
      rw [List.forall_mem_cons] at h
      cases ds with
      | nil =>
          rw [List.singleton_append] at hes
          by_cases hunderscore : c = '_'
          · subst hunderscore
            rw [ungrouped?, if_pos h.1] at hes
            obtain ⟨more, hmore, rfl⟩ := Option.map_eq_some_iff.1 hes
            exact ⟨rfl, more, ungrouped?_ne_nil hmore, rfl⟩
          · rw [ungrouped?_cons (List.cons_ne_nil c cs) (by simpa using hunderscore), if_pos h.1,
              ungrouped?_eq_none hc] at hes
            cases hes
      | cons e ds =>
          have hfirst : (e :: ds).head? ≠ some '_' := head?_ne_underscore h.2
          have hhead : (e :: ds ++ c :: cs).head? ≠ some '_' := hfirst
          rw [List.cons_append, ungrouped?_cons (by simp) hhead, if_pos h.1] at hes
          obtain ⟨es, hrest, rfl⟩ := Option.map_eq_some_iff.1 hes
          obtain ⟨hunderscore, more, hmore, rfl⟩ := ih (List.cons_ne_nil e ds) h.2 hrest
          exact ⟨hunderscore, more, hmore, rfl⟩

/-- A whole number without the mark of another base. -/
theorem intOf?_of_no_base (hcs : cs.head?.any Char.isDigit = true)
    (hbase : ∀ c ∈ ['x', 'o', 'b'], ∀ more, cs ≠ '0' :: c :: more) :
    intOf? cs = (wholeDigits? cs).bind fun ds => (Text.natural? ds).bind fun n =>
      if (n : Int) < twoTo 63 then some (n : Int) else none := by
  unfold intOf?
  -- the bound is not to be computed
  obtain ⟨bound, hbound⟩ : ∃ bound, bound = twoTo 63 := ⟨_, rfl⟩
  rw [← hbound]
  split
  · exact absurd rfl (hbase 'x' (by simp) _)
  · exact absurd rfl (hbase 'o' (by simp) _)
  · exact absurd rfl (hbase 'b' (by simp) _)
  · rw [splitSign_of_isDigit hcs]
    refine Option.bind_congr fun ds _ => Option.bind_congr fun n _ => ?_
    have hleast : -(bound : Int) ≤ (n : Int) := Int.neg_natCast_le_natCast ..
    exact if_congr (and_iff_right hleast) rfl rfl

theorem eq_of_base (hc : c ∈ ['x', 'o', 'b']) : c = 'x' ∨ c = 'o' ∨ c = 'b' := by simpa using hc

theorem not_isDigit_of_base (hc : c ∈ ['x', 'o', 'b']) : c.isDigit = false := by
  rcases eq_of_base hc with rfl | rfl | rfl <;> rfl

theorem toDigits_ne_base (hc : c.isDigit = false) : Nat.toDigits 10 n ≠ '0' :: c :: more := by
  intro heq
  have hdigit := Text.isDigit_of_mem_toDigits (heq ▸ List.mem_cons_of_mem '0' List.mem_cons_self)
  rw [hc] at hdigit
  cases hdigit

theorem intOf?_toDigits (hn : n < twoTo 63) : intOf? (Nat.toDigits 10 n) = some (n : Int) := by
  have hwhole : wholeDigits? (Nat.toDigits 10 n) = some (Nat.toDigits 10 n) := by
    rw [wholeDigits?, ungrouped?_digits Nat.toDigits_ne_nil fun _ => Text.isDigit_of_mem_toDigits]
    refine if_neg fun h => ?_
    obtain ⟨ds, hds⟩ := List.head?_eq_some_iff.1 h.1
    have hnil := Text.toDigits_eq_zero_cons hds
    rw [hds, hnil] at h
    exact absurd h.2 (by decide)
  have hcs := Text.head?_any_append (Nat.toDigits_ne_nil (b := 10) (n := n))
    (fun _ => Text.isDigit_of_mem_toDigits) []
  rw [List.append_nil] at hcs
  rw [intOf?_of_no_base hcs fun c hc more => toDigits_ne_base (not_isDigit_of_base hc), hwhole,
    Option.bind_some, Text.natural?_toDigits, Option.bind_some, if_pos (Int.ofNat_lt.2 hn)]

/-- With more digits behind them, the digits of a number are those of a greater one. -/
theorem lt_digitsFrom (hn : 0 < n) (hmore : more ≠ []) :
    n < Text.digitsFrom 0 (Nat.toDigits 10 n ++ more) := by
  obtain ⟨d, more, rfl⟩ := List.exists_cons_of_ne_nil hmore
  rw [Text.digitsFrom_append, Text.digitsFrom_toDigits]
  have hle : n * 10 + Text.decimalValue d ≤ Text.digitsFrom n (d :: more) :=
    Text.le_digitsFrom (n := n * 10 + Text.decimalValue d) more
  omega

/-- The digits of a number with an other character behind them are those of no such number, but for a zero
that marks another base. -/
theorem eq_zero_of_intOf? (hc : c.isDigit = false)
    (h : intOf? (Nat.toDigits 10 n ++ c :: cs) = some (n : Int)) : n = 0 ∧ c ∈ ['x', 'o', 'b'] := by
  by_cases hbase : ∀ b ∈ ['x', 'o', 'b'], ∀ more, Nat.toDigits 10 n ++ c :: cs ≠ '0' :: b :: more
  · have hhead := Text.head?_any_append (Nat.toDigits_ne_nil (b := 10) (n := n))
      (fun _ => Text.isDigit_of_mem_toDigits) (c :: cs)
    rw [intOf?_of_no_base hhead hbase] at h
    obtain ⟨ds, hds, h⟩ := Option.bind_eq_some_iff.1 h
    obtain ⟨m, hm, h⟩ := Option.bind_eq_some_iff.1 h
    obtain ⟨-, h⟩ := Option.ite_none_right_eq_some.1 h
    cases Int.ofNat_inj.1 (Option.some.inj h)
    obtain ⟨es, hes, hds⟩ := Option.bind_eq_some_iff.1 hds
    obtain ⟨hzero, heq⟩ := Option.ite_none_left_eq_some.1 hds
    cases heq
    obtain ⟨-, more, hmore, rfl⟩ := exists_more_of_ungrouped? Nat.toDigits_ne_nil
      (fun _ => Text.isDigit_of_mem_toDigits) hc hes
    obtain ⟨-, hvalue⟩ := Option.ite_none_left_eq_some.1 hm
    rcases Nat.eq_zero_or_pos n with rfl | hn
    · -- a zero does not begin a number of several digits
      refine absurd ⟨rfl, ?_⟩ hzero
      have hlength := List.length_pos_of_ne_nil hmore
      simpa using hlength
    · exact absurd (Option.some.inj hvalue) (Nat.ne_of_gt (lt_digitsFrom hn hmore))
  · push Not at hbase
    obtain ⟨b, hb, more, heq⟩ := hbase
    obtain ⟨d, ds, hds⟩ := List.exists_cons_of_ne_nil (Nat.toDigits_ne_nil (b := 10) (n := n))
    rw [hds, List.cons_append] at heq
    cases (List.cons.inj heq).1
    cases Text.toDigits_eq_zero_cons hds
    cases (List.cons.inj (List.cons.inj heq).2).1
    refine ⟨?_, hb⟩
    rw [← Text.digitsFrom_toDigits (n := n), hds]
    rfl

/-- The mark of another base stands behind a zero alone. -/
theorem eq_zero_of_base (hne : ds ≠ []) (hds : ∀ d ∈ ds, d.isDigit = true)
    (hc : c ∈ ['x', 'o', 'b']) (h : intOf? (ds ++ c :: cs) ≠ none) : ds = ['0'] := by
  obtain ⟨d, ds, rfl⟩ := List.exists_cons_of_ne_nil hne
  by_cases hbase : ∀ b ∈ ['x', 'o', 'b'], ∀ more, d :: ds ++ c :: cs ≠ '0' :: b :: more
  · have hcs : (d :: ds ++ c :: cs).head?.any Char.isDigit = true := hds d List.mem_cons_self
    rw [intOf?_of_no_base hcs hbase] at h
    obtain ⟨_, h⟩ := Option.ne_none_iff_exists'.1 h
    obtain ⟨_, hwhole, -⟩ := Option.bind_eq_some_iff.1 h
    obtain ⟨_, hes, -⟩ := Option.bind_eq_some_iff.1 hwhole
    have hunderscore := (exists_more_of_ungrouped? hne hds (not_isDigit_of_base hc) hes).1
    subst hunderscore
    simp at hc
  · push Not at hbase
    obtain ⟨b, hb, more, heq⟩ := hbase
    cases ds with
    | nil => rw [(List.cons.inj heq).1]
    | cons e ds =>
        have he := hds e (by simp)
        rw [(List.cons.inj (List.cons.inj heq).2).1, not_isDigit_of_base hb] at he
        cases he

/-! ### Runs of digits -/

theorem isScalarChar_of_isDigit (h : c.isDigit = true) : isScalarChar c = true := by
  simp [isScalarChar, Char.isAlphanum, h]

theorem dropWhile_digits (hds : ∀ d ∈ ds, d.isDigit = true) : ds.dropWhile Char.isDigit = [] :=
  List.dropWhile_eq_nil_iff.2 hds

theorem dropWhile_group (hds : ∀ d ∈ ds, d.isDigit = true) : ds.dropWhile isGroupChar = [] :=
  List.dropWhile_eq_nil_iff.2 fun d hd => by simp [isGroupChar, hds d hd]

theorem scalarOf?_digits (hne : ds ≠ []) (hds : ∀ d ∈ ds, d.isDigit = true) :
    scalarOf? ds = (intOf? ds).map .int := by
  have hhead := Text.head?_any_append hne hds []
  rw [List.append_nil] at hhead
  exact scalarOf?_eq_int hhead (by simp [dropWhile_digits hds]) (by simp [dropWhile_group hds])

theorem scalarOf?_toDigits (hn : n < twoTo 63) :
    scalarOf? (Nat.toDigits 10 n) = some (.int n) := by
  rw [scalarOf?_digits Nat.toDigits_ne_nil fun _ => Text.isDigit_of_mem_toDigits, intOf?_toDigits hn]
  rfl

/-- **With anything behind them, the digits of a number do not stand for it**, but for a zero that is the
mark of another base. -/
theorem eq_zero_of_scalarOf? (hc : c.isDigit = false)
    (h : scalarOf? (Nat.toDigits 10 n ++ c :: cs) = some (.int n)) : n = 0 ∧ c ∈ ['x', 'o', 'b'] := by
  rw [scalarOf?] at h
  split at h
  · cases h
  split at h
  · cases h
  split at h
  · cases h
  split at h
  · cases h
  obtain ⟨m, hm, heq⟩ := Option.map_eq_some_iff.1 h
  cases heq
  exact eq_zero_of_intOf? hc hm

theorem eq_zero_of_scalarOf?_base (hne : ds ≠ []) (hds : ∀ d ∈ ds, d.isDigit = true)
    (hc : c ∈ ['x', 'o', 'b']) (h : scalarOf? (ds ++ c :: cs) ≠ none) : ds = ['0'] := by
  have hgroup : isGroupChar c = false := by rcases eq_of_base hc with rfl | rfl | rfl <;> rfl
  have hmoment : ((ds ++ c :: cs).dropWhile Char.isDigit).head? ∉ ['-', ':'].map some := by
    rw [Text.dropWhile_append_of_head hds (by simp [not_isDigit_of_base hc])]
    rcases eq_of_base hc with rfl | rfl | rfl <;> simp
  have hfloat : ((ds ++ c :: cs).dropWhile isGroupChar).head? ∉ ['.', 'e', 'E'].map some := by
    rw [Text.dropWhile_append_of_head (fun d hd => by simp [isGroupChar, hds d hd]) (by simp [hgroup])]
    rcases eq_of_base hc with rfl | rfl | rfl <;> simp
  rw [scalarOf?_eq_int (Text.head?_any_append hne hds _) hmoment hfloat, Ne, Option.map_eq_none_iff] at h
  exact eq_zero_of_base hne hds hc h

theorem scalar_eq_none (h : cs.head?.all fun c => !isScalarChar c) : scalar cs = none := by
  have hfirst : cs.takeWhile isScalarChar = [] := by
    cases cs with
    | nil => rfl
    | cons c cs => exact List.takeWhile_cons_of_neg (by simpa using h)
  rw [scalar_eq, hfirst]
  rfl

theorem takeWhile_scalar_digits (hds : ∀ d ∈ ds, d.isDigit = true) (cs : List Char) :
    (ds ++ cs).takeWhile isScalarChar = ds ++ cs.takeWhile isScalarChar :=
  List.takeWhile_append_of_pos fun d hd => isScalarChar_of_isDigit (hds d hd)

theorem dropWhile_scalar_digits (hds : ∀ d ∈ ds, d.isDigit = true) (cs : List Char) :
    (ds ++ cs).dropWhile isScalarChar = cs.dropWhile isScalarChar :=
  List.dropWhile_append_of_pos fun d hd => isScalarChar_of_isDigit (hds d hd)

theorem timePart_digits (hds : ∀ d ∈ ds, d.isDigit = true) (cs : List Char) : timePart ds cs = [] := by
  have hday : day? ds = none := by
    by_contra hday
    have hhead := head?_dropWhile_of_day? hday
    rw [dropWhile_digits hds] at hhead
    cases hhead
  rw [timePart, hday]

/-- Digits that no scalar goes on behind. -/
theorem scalar_digits (hds : ∀ d ∈ ds, d.isDigit = true)
    (hcs : cs.head?.all fun c => !isScalarChar c) :
    scalar (ds ++ cs) = (scalarOf? ds).map (·, cs) := by
  have hrun : ∀ d ∈ ds, isScalarChar d = true := fun d hd => isScalarChar_of_isDigit (hds d hd)
  rw [scalar_eq, Text.takeWhile_append_of_head hrun hcs, Text.dropWhile_append_of_head hrun hcs,
    timePart_digits hds, List.append_nil]
  rfl

end StyleContract.Toml
