import StyleContract.Proofs.Toml.Numbers
import StyleContract.Proofs.Toml.Statements
import StyleContract.Proofs.Verification.LineLength

/-!
# Proofs — Verification — Setting

What a line that sets the line length says in a document. The pattern of such a line lets more through than
a document does: blanks of any script, digits of any script, and anything behind the digits. But where the
line can be read as a statement, its lead has the blanks of a document (`assignment_of_statement`) and its
digits are those of a number (`isDigit_of_reading`). What the line says is what begins with the digits
(`statement_of_assignment`), and where it ends does not hang on them (`exists_of_reading`). With other digits
**it says their number if and only if nothing of a scalar goes on behind them** (`reading_toDigits_iff`).
-/

namespace StyleContract.Toml

variable {cs bs more rest : List Char} {c : Char}

/-! ### Ends of lines -/

theorem afterLine?_eq_none (h : c ∉ [' ', '\t', '#', '\n', '\r']) : afterLine? (c :: cs) = none := by
  simp only [List.mem_cons, List.not_mem_nil, or_false, not_or] at h
  obtain ⟨hspace, htab, hcomment, hnewline, hreturn⟩ := h
  have hskip : skipComment (skipSpace (c :: cs)) = c :: cs := by
    simp [skipComment, skipSpace, isSpace, hspace, htab, hcomment]
  rw [afterLine?, hskip]
  simp [afterNewline?, hnewline, hreturn]

theorem afterLine?_of_isDigit (h : c.isDigit = true) : afterLine? (c :: cs) = none := by
  refine afterLine?_eq_none fun hc => ?_
  simp only [List.mem_cons, List.not_mem_nil, or_false] at hc
  rcases hc with rfl | rfl | rfl | rfl | rfl <;> cases h

/-- A line does not end in front of a time of day. -/
theorem afterLine?_of_blankTime (h : blankTime cs ≠ []) : afterLine? cs = none := by
  unfold blankTime at h
  split at h
  · next more =>
    split at h
    · next hdigit =>
      cases more with
      | nil => cases hdigit
      | cons c more =>
          have hblank : afterLine? (' ' :: c :: more) = afterLine? (c :: more) := rfl
          exact hblank.trans (afterLine?_of_isDigit hdigit)
    · exact absurd rfl h
  · exact absurd rfl h

/-- In front of the end of a line, a time of day goes with what stands before it. -/
theorem timePart_of_afterLine? {day : List Char}
    (h : afterLine? (cs.drop (timePart day cs).length) = some rest) : timePart day cs = blankTime cs := by
  by_cases hblank : blankTime cs = []
  · unfold timePart
    split
    · rfl
    · exact hblank.symm
  · unfold timePart at h ⊢
    split at h
    · rfl
    · rw [List.length_nil, List.drop_zero, afterLine?_of_blankTime hblank] at h
      cases h

/-! ### Leads -/

theorem skipSpace_append (hbs : ∀ b ∈ bs, isSpace b = true) (hcs : cs.head?.all fun c => !isSpace c) :
    skipSpace (bs ++ cs) = cs := Text.dropWhile_append_of_head hbs hcs

/-- Blanks that are none of a document are not skipped. -/
theorem exists_not_skipped (h : ¬ ∀ b ∈ bs, isSpace b = true) :
    ∃ b ∈ bs, ∃ more, ∀ cs, skipSpace (bs ++ cs) = b :: (more ++ cs) ∧ isSpace b = false := by
  have hne : bs.dropWhile isSpace ≠ [] := fun hnil => h (List.dropWhile_eq_nil_iff.1 hnil)
  obtain ⟨b, more, hmore⟩ := List.exists_cons_of_ne_nil hne
  have hb : b ∈ bs := List.dropWhile_subset isSpace (hmore ▸ List.mem_cons_self)
  have hend := Text.all_head?_dropWhile isSpace bs
  rw [hmore] at hend
  refine ⟨b, hb, more, fun cs => ⟨?_, by simpa using hend⟩⟩
  rw [skipSpace, List.dropWhile_append, hmore]
  rfl

/-- Letters and digits lie between the blanks. -/
theorem bounds_of_isAlphanum (h : c.isAlphanum = true) : 48 ≤ c.toNat ∧ c.toNat ≤ 122 := by
  simp [Char.isAlphanum, Char.isAlpha, Char.isUpper, Char.isLower, Char.isDigit,
    UInt32.le_iff_toNat_le] at h
  omega

theorem not_isAlphanum_of_isBlank (h : Text.isBlank c = true) : c.isAlphanum = false := by
  by_contra hc
  have hbounds := bounds_of_isAlphanum (Bool.eq_true_of_not_eq_false hc)
  simp only [Text.isBlank, Bool.or_eq_true, Bool.and_eq_true, decide_eq_true_iff, beq_iff_eq] at h
  omega

theorem ne_of_isBlank {d : Char} (h : Text.isBlank c = true) (hd : Text.isBlank d = false) : c ≠ d := by
  rintro rfl
  rw [h] at hd
  cases hd

theorem not_isScalarChar_of_isBlank (h : Text.isBlank c = true) : isScalarChar c = false := by
  have hmarks : ∀ d ∈ "+-._:".toList, Text.isBlank d = false := by simp [Text.isBlank]
  have hc : c ∉ "+-._:".toList := fun hc => ne_of_isBlank h (hmarks c hc) rfl
  rw [isScalarChar, not_isAlphanum_of_isBlank h, Bool.false_or]
  simpa using hc

/-- The digits of other scripts are no characters of a scalar. -/
theorem not_isScalarChar_of_isDecimal (hc : Text.isDecimal c = true) (hdigit : c.isDigit = false) :
    isScalarChar c = false := by
  have hcode : ¬ c.toNat < 0x80 := fun hcode => by
    rw [Text.isDecimal, if_pos hcode, hdigit] at hc
    cases hc
  rw [isScalarChar, Bool.or_eq_false_iff]
  refine ⟨Bool.eq_false_iff.2 fun h => ?_, Bool.eq_false_iff.2 fun h => ?_⟩
  · have hbounds := bounds_of_isAlphanum h
    omega
  · have hmarks : ∀ d ∈ "+-._:".toList, d.toNat < 0x80 := by simp
    exact hcode (hmarks c (by simpa using h))

theorem not_isKeyChar_of_isBlank (h : Text.isBlank c = true) : isKeyChar c = false := by
  rw [isKeyChar, not_isAlphanum_of_isBlank h, beq_false_of_ne (ne_of_isBlank h rfl),
    beq_false_of_ne (ne_of_isBlank h rfl)]
  rfl

theorem key_of_name (hcs : cs.head?.all fun c => !isKeyChar c)
    (hdot : (skipSpace cs).head? ≠ some '.') :
    key ("line-length".toList ++ cs) = some (["line-length"], skipSpace cs) := by
  have hname : ∀ c ∈ "line-length".toList, isKeyChar c = true := List.all_eq_true.1 rfl
  have hbare : bareKey ("line-length".toList ++ cs) = some ("line-length", cs) := by
    rw [bareKey, Text.takeWhile_append_of_head hname hcs, Text.dropWhile_append_of_head hname hcs]
    rfl
  have hpart : keyPart ("line-length".toList ++ cs) = some ("line-length", skipSpace cs) := by
    have hskip : skipSpace ("line-length".toList ++ cs) = "line-length".toList ++ cs := rfl
    rw [keyPart, hskip, simpleKey_eq_bareKey (by simp) (by simp), hbare]
    rfl
  rw [key, dottedKey_succ, hpart]
  dsimp only [Option.bind_eq_bind, Option.bind_some]
  split
  · next more heq => exact absurd (congrArg List.head? heq) hdot
  · rfl

/-- The name of a setting, blanks, an equals sign and what comes behind its blanks. -/
theorem keyEquals_of_name (hbs : ∀ b ∈ bs, isSpace b = true) :
    keyEquals ("line-length".toList ++ (bs ++ '=' :: cs)) = some (["line-length"], skipSpace cs) := by
  have hhead : (bs ++ '=' :: cs).head?.all fun c => !isKeyChar c := by
    cases bs with
    | nil => rfl
    | cons b bs =>
        have hb : b = ' ' ∨ b = '\t' := by simpa [isSpace] using hbs b List.mem_cons_self
        rcases hb with rfl | rfl <;> rfl
  have hskip : skipSpace (bs ++ '=' :: cs) = '=' :: cs := skipSpace_append hbs rfl
  rw [keyEquals, key_of_name hhead (by rw [hskip]; simp), hskip]
  rfl

/-- A key is not read over blanks that are none of a document. -/
theorem isSpace_of_keyEquals (hbs : ∀ b ∈ bs, Text.isBlank b = true)
    (h : keyEquals ("line-length".toList ++ (bs ++ '=' :: cs)) ≠ none) :
    ∀ b ∈ bs, isSpace b = true := by
  by_contra hno
  obtain ⟨b, hb, more, hskip⟩ := exists_not_skipped hno
  have hhead : (bs ++ '=' :: cs).head?.all fun c => !isKeyChar c := by
    cases bs with
    | nil => cases hb
    | cons b bs => simpa using not_isKeyChar_of_isBlank (hbs b List.mem_cons_self)
  have hdot := ne_of_isBlank (d := '.') (hbs b hb) rfl
  have hequals := ne_of_isBlank (d := '=') (hbs b hb) rfl
  rw [keyEquals, key_of_name hhead (by simp [(hskip _).1, hdot]), (hskip _).1, Option.bind_some,
    expect?, if_neg (by simp [hequals])] at h
  exact h rfl

theorem skipAll_append (hbs : ∀ b ∈ bs, isSpace b = true) :
    skipAll (bs ++ ("line-length".toList ++ cs)) = "line-length".toList ++ cs := by
  have hskip : skipSpace (bs ++ ("line-length".toList ++ cs)) = "line-length".toList ++ cs :=
    skipSpace_append hbs rfl
  rw [skipAll, skipLines, hskip]
  rfl

end StyleContract.Toml

namespace StyleContract.Suggestion

open Pattern Toml

variable {lead as ds tail cs rest : List Char} {st : Statement}

/-! ### Statements -/

/-- What a document may have before the number of a setting. -/
def assignments : Language Char :=
  run (.of [' ', '\t']) *
    ({"line-length".toList} * (run (.of [' ', '\t']) * ({"=".toList} * run (.of [' ', '\t']))))

theorem isSpace_of_mem_run (h : cs ∈ run (.of [' ', '\t'])) : ∀ c ∈ cs, isSpace c = true := fun c hc => by
  simpa [CharSet.of, CharSet.has, isSpace] using h c hc

theorem mem_run_of_isSpace (h : ∀ c ∈ cs, isSpace c = true) : cs ∈ run (.of [' ', '\t']) := fun c hc => by
  simpa [CharSet.of, CharSet.has, isSpace] using h c hc

/-- What a setting says with what stands behind its equals sign, and where its line ends. -/
def reading (cs : List Char) : Option (Statement × List Char) :=
  (scalar cs).bind fun r => (afterLine? r.2).map fun rest => (.keyed ["line-length"] r.1, rest)

theorem statement_of_key (has : ∀ c ∈ as, isSpace c = true)
    (hkey : keyEquals ("line-length".toList ++ cs) = some (["line-length"], rest))
    (hrest : ∀ c ∈ ['"', '\'', '[', '\x7b'], rest.head? ≠ some c) :
    statement (skipAll (as ++ ("line-length".toList ++ cs))) = reading rest := by
  have hkeyed : keyedPart ("line-length".toList ++ cs) =
      (scalar rest).map fun r => ((["line-length"], r.1), r.2) := by
    rw [keyedPart, hkey, Option.bind_some, value_of_scalar hrest]
  rw [skipAll_append has, statement, content_of_ne (by simp), hkeyed]
  simp only [Option.bind_map, Function.comp_def, reading]

/-- A lead with what stands behind it, part by part. -/
theorem append_lead (as bs es cs : List Char) :
    as ++ ("line-length".toList ++ (bs ++ ("=".toList ++ es))) ++ cs =
      as ++ ("line-length".toList ++ (bs ++ '=' :: (es ++ cs))) := by
  simp

theorem head?_ne_of_isDecimal (hcs : cs.head?.any Text.isDecimal = true) :
    ∀ c ∈ ['"', '\'', '[', '\x7b'], cs.head? ≠ some c := by
  intro c hc hhead
  rw [hhead] at hcs
  simp only [List.mem_cons, List.not_mem_nil, or_false] at hc
  rcases hc with rfl | rfl | rfl | rfl <;> cases hcs

theorem statement_of_assignment (hlead : lead ∈ assignments)
    (hcs : cs.head?.any Text.isDecimal = true) :
    statement (skipAll (lead ++ cs)) = reading cs := by
  obtain ⟨as, has, _, h₁, rfl⟩ := Language.mem_mul.1 hlead
  obtain ⟨_, rfl, _, h₂, rfl⟩ := Language.mem_mul.1 h₁
  obtain ⟨bs, hbs, _, h₃, rfl⟩ := Language.mem_mul.1 h₂
  obtain ⟨_, rfl, es, hes, rfl⟩ := Language.mem_mul.1 h₃
  have hhead : cs.head?.all fun c => !isSpace c := by
    cases hc : cs.head? with
    | none => rfl
    | some c =>
        have hdigit : Text.isDecimal c = true := by simpa [hc] using hcs
        rw [Option.all_some, Bool.not_eq_true', Bool.eq_false_iff]
        intro hspace
        have hspace : c = ' ' ∨ c = '\t' := by simpa [isSpace] using hspace
        rcases hspace with rfl | rfl <;> cases hdigit
  have hkey : keyEquals ("line-length".toList ++ (bs ++ '=' :: (es ++ cs))) = some (["line-length"], cs) := by
    rw [keyEquals_of_name (isSpace_of_mem_run hbs), skipSpace_append (isSpace_of_mem_run hes) hhead]
  show statement (skipAll (as ++ ("line-length".toList ++ (bs ++ ("=".toList ++ es))) ++ cs)) = _
  rw [append_lead, statement_of_key (isSpace_of_mem_run has) hkey (head?_ne_of_isDecimal hcs)]

/-- **In a document the lead of a setting has the blanks of a document.** -/
theorem assignment_of_statement (hlead : lead ∈ leads)
    (h : statement (skipAll (lead ++ cs)) ≠ none) : lead ∈ assignments := by
  obtain ⟨as, has, _, h₁, rfl⟩ := Language.mem_mul.1 hlead
  obtain ⟨_, rfl, _, h₂, rfl⟩ := Language.mem_mul.1 h₁
  obtain ⟨bs, hbs, _, h₃, rfl⟩ := Language.mem_mul.1 h₂
  obtain ⟨_, rfl, es, hes, rfl⟩ := Language.mem_mul.1 h₃
  change statement (skipAll (as ++ ("line-length".toList ++ (bs ++ ("=".toList ++ es))) ++ cs)) ≠ none at h
  rw [append_lead] at h
  have hkey : keyEquals ("line-length".toList ++ (bs ++ '=' :: (es ++ cs))) ≠ none := by
    refine fun hnone => h ?_
    rw [skipAll_append (isSpace_of_mem_run has), statement, content_of_ne (by simp), keyedPart, hnone]
    rfl
  have hbs := isSpace_of_keyEquals hbs hkey
  have hes : ∀ b ∈ es, isSpace b = true := by
    by_contra hno
    obtain ⟨b, hb, more, hskip⟩ := exists_not_skipped hno
    have hblank : Text.isBlank b = true := hes b hb
    have hhead : ∀ c ∈ ['"', '\'', '[', '\x7b'], (b :: (more ++ cs)).head? ≠ some c := by
      intro c hc heq
      cases Option.some.inj heq
      simp only [List.mem_cons, List.not_mem_nil, or_false] at hc
      rcases hc with rfl | rfl | rfl | rfl <;> cases hblank
    refine h ((statement_of_key (isSpace_of_mem_run has)
      ((keyEquals_of_name hbs).trans (by rw [(hskip cs).1])) hhead).trans ?_)
    rw [reading, scalar_eq_none (by simpa using not_isScalarChar_of_isBlank hblank)]
    rfl
  exact Language.mem_mul.2 ⟨as, has, _, Language.mem_mul.2 ⟨_, rfl, _,
    Language.mem_mul.2 ⟨bs, mem_run_of_isSpace hbs, _,
      Language.mem_mul.2 ⟨_, rfl, es, mem_run_of_isSpace hes, rfl⟩, rfl⟩, rfl⟩, rfl⟩

/-! ### Numbers -/

/-- **In a document the digits of a setting are those of a number.** -/
theorem isDigit_of_reading (hds : ∀ d ∈ ds, Text.isDecimal d = true)
    (h : reading (ds ++ tail) ≠ none) : ∀ d ∈ ds, d.isDigit = true := by
  by_contra hno
  -- the first other character ends the number, but not the line
  obtain ⟨c, more, hmore⟩ := List.exists_cons_of_ne_nil fun hnil => hno (List.dropWhile_eq_nil_iff.1 hnil)
  have hc := hds c (List.dropWhile_subset _ (hmore ▸ List.mem_cons_self))
  have hend := Text.all_head?_dropWhile Char.isDigit ds
  rw [hmore] at hend
  have hscalar := not_isScalarChar_of_isDecimal hc (by simpa using hend)
  have hline : afterLine? (c :: (more ++ tail)) = none := by
    refine afterLine?_eq_none fun hmem => ?_
    simp only [List.mem_cons, List.not_mem_nil, or_false] at hmem
    rcases hmem with rfl | rfl | rfl | rfl | rfl <;> cases hc
  have hsplit : ds ++ tail = ds.takeWhile Char.isDigit ++ c :: (more ++ tail) := by
    rw [← List.cons_append, ← List.append_assoc, ← hmore, List.takeWhile_append_dropWhile]
  rw [hsplit, reading, scalar_digits (fun d => List.mem_takeWhile_imp) (by simpa using hscalar),
    Option.bind_map] at h
  refine h (Option.bind_eq_none_iff.2 fun v _ => ?_)
  show (afterLine? (c :: (more ++ tail))).map _ = none
  rw [hline]
  rfl

theorem reading_digits (hds : ∀ d ∈ ds, d.isDigit = true)
    (htail : tail.head?.all fun c => !isScalarChar c) :
    reading (ds ++ tail) = (scalarOf? ds).bind fun v =>
      (afterLine? tail).map fun rest => (.keyed ["line-length"] v, rest) := by
  rw [reading, scalar_digits hds htail, Option.bind_map]
  rfl

theorem exists_keyed_of_reading (h : reading cs = some (st, rest)) :
    ∃ v, st = .keyed ["line-length"] v := by
  obtain ⟨⟨v, r⟩, -, h⟩ := Option.bind_eq_some_iff.1 h
  obtain ⟨_, -, heq⟩ := Option.map_eq_some_iff.1 h
  cases heq
  exact ⟨v, rfl⟩

theorem head?_toDigits (n : Nat) (cs : List Char) :
    (Nat.toDigits 10 n ++ cs).head?.any Text.isDecimal = true :=
  Text.head?_any_append Nat.toDigits_ne_nil
    (fun _ hd => Text.isDecimal_of_isDigit (Text.isDigit_of_mem_toDigits hd)) cs

/-- The text behind the line of a setting, by what stands behind the digits. -/
def restOf? (tail : List Char) : Option (List Char) :=
  afterLine? ((tail.dropWhile isScalarChar).drop (blankTime (tail.dropWhile isScalarChar)).length)

/-- What a setting says is what its digits stand for with all that goes on behind them; **where its line
ends does not hang on the digits.** -/
theorem exists_of_reading (hds : ∀ d ∈ ds, d.isDigit = true) (h : reading (ds ++ tail) = some (st, rest)) :
    restOf? tail = some rest ∧ ∃ v day, st = .keyed ["line-length"] v ∧
      scalarOf? (ds ++ (tail.takeWhile isScalarChar ++ day)) = some v := by
  obtain ⟨⟨v, r⟩, hscalar, h⟩ := Option.bind_eq_some_iff.1 h
  obtain ⟨_, hrest, heq⟩ := Option.map_eq_some_iff.1 h
  cases heq
  rw [scalar_eq, takeWhile_scalar_digits hds, dropWhile_scalar_digits hds] at hscalar
  obtain ⟨_, hv, heq⟩ := Option.map_eq_some_iff.1 hscalar
  cases heq
  refine ⟨?_, v, _, rfl, List.append_assoc .. ▸ hv⟩
  rw [restOf?, ← timePart_of_afterLine? hrest]
  exact hrest

/-- Behind other digits the line of a setting ends at the same place. -/
theorem rest_eq_of_reading {es rest' : List Char} {st' : Statement} (hds : ∀ d ∈ ds, d.isDigit = true)
    (hes : ∀ d ∈ es, d.isDigit = true) (h : reading (ds ++ tail) = some (st, rest))
    (h' : reading (es ++ tail) = some (st', rest')) : rest = rest' :=
  Option.some.inj ((exists_of_reading hds h).1.symm.trans (exists_of_reading hes h').1)

theorem natural32?_zero : natural32? ['0'] = some 0 := rfl

/-- **A number stands alone behind a setting if and only if no scalar goes on behind it**, where another
number that is not the same one has stood before it. -/
theorem reading_toDigits_iff {n : Nat} (hn : n < twoTo 63)
    (hne : ds ≠ []) (hds : ∀ d ∈ ds, d.isDigit = true)
    (htail : tail.head?.all fun c => !Text.isDecimal c) (hold : reading (ds ++ tail) = some (st, rest))
    (hdiffer : natural32? ds ≠ some n) :
    reading (Nat.toDigits 10 n ++ tail) = some (.keyed ["line-length"] (.int n), rest) ↔
      tail.head?.all fun c => !isScalarChar c := by
  constructor
  · intro h
    cases tail with
    | nil => rfl
    | cons c tail =>
        by_contra hscalar
        have hscalar : isScalarChar c = true := by simpa using hscalar
        have hc : c.isDigit = false := by
          rw [Bool.eq_false_iff]
          intro hdigit
          have hdecimal : Text.isDecimal c = false := by simpa using htail
          rw [Text.isDecimal_of_isDigit hdigit] at hdecimal
          cases hdecimal
        obtain ⟨-, v, day, heq, hv⟩ := exists_of_reading (fun _ => Text.isDigit_of_mem_toDigits) h
        obtain ⟨-, v', day', -, hv'⟩ := exists_of_reading hds hold
        cases heq
        rw [List.takeWhile_cons_of_pos hscalar, List.cons_append] at hv hv'
        obtain ⟨rfl, hbase⟩ := eq_zero_of_scalarOf? hc hv
        cases eq_zero_of_scalarOf?_base hne hds hbase (hv' ▸ Option.some_ne_none v')
        exact hdiffer natural32?_zero
  · intro hscalar
    have hrest : afterLine? tail = some rest := by
      rw [reading_digits hds hscalar] at hold
      obtain ⟨v, -, hold⟩ := Option.bind_eq_some_iff.1 hold
      obtain ⟨_, hline, heq⟩ := Option.map_eq_some_iff.1 hold
      cases heq
      exact hline
    rw [reading_digits (fun _ => Text.isDigit_of_mem_toDigits) hscalar, scalarOf?_toDigits hn,
      Option.bind_some, hrest]
    rfl

end StyleContract.Suggestion
