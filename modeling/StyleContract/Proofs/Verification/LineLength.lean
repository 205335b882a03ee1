import StyleContract.Proofs.Pattern.Language
import StyleContract.Proofs.Text.Digits
import StyleContract.Proofs.Text.Spans
import StyleContract.Verification.Suggestion

/-!
# Proofs — Verification — Line length

The line length that a configuration sets is the one of the first line that has the form of a setting.
Such a line is a lead without digits, the digits, and what follows them (`Sets`); where a lead ends and
the number begins is told by the first digit alone. So whether a line has the form does not hang on which
digits stand in it, nor on what comes after them (`isSome_matchAt_congr`), and **other digits in the first
setting leave it the first one** (`First.replace`).

Hence **a configuration that was brought to a line length has it**: `withLineLength?_settled`.
-/

namespace StyleContract

theorem Text.not_isDecimal_of_isBlank {c : Char} (h : isBlank c = true) : isDecimal c = false := by
  simp only [isBlank, Bool.or_eq_true, Bool.and_eq_true, decide_eq_true_iff, beq_iff_eq] at h
  rw [isDecimal]
  split
  · rw [Bool.eq_false_iff, Ne, isDigit_iff]
    omega
  · next hascii =>
    -- the blanks beyond ASCII lie in three gaps between the digits of scripts
    have hgaps : ∀ r ∈ digitRanges, 0xA0 < r.1 ∧ r.2 < 0x1680 ∨ 0x1680 < r.1 ∧ r.2 < 0x2000 ∨
        0x3000 < r.1 := by decide
    rw [Bool.eq_false_iff, Ne, inRanges_iff]
    rintro ⟨r, hr, hfirst, hlast⟩
    have hgap := hgaps r hr
    omega

theorem Text.isDecimal_of_isDigit {c : Char} (h : c.isDigit = true) : isDecimal c = true := by
  have hascii : c.toNat < 0x80 := by
    have hbounds := isDigit_iff.1 h
    omega
  rw [isDecimal, if_pos hascii, h]

namespace Suggestion

open Pattern

variable {before rest cs skipped lead digits tail new more more' : List Char} {d : Cursor} {m : Match}
  {x y : Char} {n : Nat} {s : String}

/-! ### Settings -/

/-- What may stand before the number of a setting. -/
def leads : Language Char :=
  run (.of [' ', '\t']) * ({"line-length".toList} * (run .blank * ({"=".toList} * run .blank)))

/-- What a setting has before its number. -/
def leadPattern : Pattern :=
  chain [star (.one (.of [' ', '\t'])), literal "line-length", blanks, literal "=", blanks]

theorem settingPattern_eq :
    settingPattern = .seq (.anchor .lineStart)
      (.seq (.group 1 leadPattern) (.group 2 (plus (.one .decimal)))) := rfl

theorem takes_leadPattern : leadPattern.Takes leads :=
  takes_star_one.seq ((takes_literal _).seq (takes_star_one.seq ((takes_literal _).seq takes_star_one)))

theorem not_isDecimal_of_mem_leads (h : lead ∈ leads) : ∀ c ∈ lead, Text.isDecimal c = false := by
  have hblanks : ∀ cs ∈ run .blank, ∀ c ∈ cs, Text.isDecimal c = false := fun cs hcs c hc =>
    Text.not_isDecimal_of_isBlank (hcs c hc)
  obtain ⟨as, has, _, h₁, rfl⟩ := Language.mem_mul.1 h
  obtain ⟨_, rfl, _, h₂, rfl⟩ := Language.mem_mul.1 h₁
  obtain ⟨bs, hbs, _, h₃, rfl⟩ := Language.mem_mul.1 h₂
  obtain ⟨_, rfl, es, hes, rfl⟩ := Language.mem_mul.1 h₃
  simp only [List.forall_mem_append]
  refine ⟨fun c hc => ?_, by simp [Text.isDecimal], hblanks bs hbs, by simp [Text.isDecimal],
    hblanks es hes⟩
  have hc : c = ' ' ∨ c = '\t' := by simpa [CharSet.of, CharSet.has] using has c hc
  rcases hc with rfl | rfl <;> decide

/-- A text that begins with a setting: its lead, all digits of its number, and what follows them. -/
structure Sets (rest lead digits tail : List Char) : Prop where
  eq_append : rest = lead ++ (digits ++ tail)
  lead_mem : lead ∈ leads
  digits_ne_nil : digits ≠ []
  isDecimal : ∀ c ∈ digits, Text.isDecimal c = true
  tail_head : tail.head?.all fun c => !Text.isDecimal c

theorem takeWhile_of_first_decimal (hx : Text.isDecimal x = true) (cs more : List Char) :
    (cs ++ x :: more).takeWhile (fun c => !Text.isDecimal c) =
      cs.takeWhile fun c => !Text.isDecimal c := by
  induction cs with
  | nil => simp [hx]
  | cons c cs ih => by_cases hc : Text.isDecimal c = true <;> simp [hc, ih]

/-- A text begins with a setting if all before its first digit is a lead. -/
theorem exists_sets_iff :
    (∃ lead digits tail, Sets rest lead digits tail) ↔
      rest.takeWhile (fun c => !Text.isDecimal c) ∈ leads ∧ ∃ c ∈ rest, Text.isDecimal c = true := by
  constructor
  · rintro ⟨lead, digits, tail, h⟩
    obtain ⟨x, ds, rfl⟩ := List.exists_cons_of_ne_nil h.digits_ne_nil
    have hx : Text.isDecimal x = true := h.isDecimal x List.mem_cons_self
    have hlead : lead.takeWhile (fun c => !Text.isDecimal c) = lead :=
      List.takeWhile_eq_self_iff.2 fun c hc => by simp [not_isDecimal_of_mem_leads h.lead_mem c hc]
    rw [h.eq_append, List.cons_append, takeWhile_of_first_decimal hx, hlead]
    exact ⟨h.lead_mem, x, by simp, hx⟩
  · rintro ⟨hlead, c, hc, hdecimal⟩
    refine ⟨_, (rest.dropWhile fun c => !Text.isDecimal c).takeWhile Text.isDecimal,
      (rest.dropWhile fun c => !Text.isDecimal c).dropWhile Text.isDecimal,
      by rw [List.takeWhile_append_dropWhile, List.takeWhile_append_dropWhile], hlead, ?_,
      fun c hc => List.mem_takeWhile_imp hc, Text.all_head?_dropWhile _ _⟩
    -- what is left from the first digit on begins with it
    cases hdrop : rest.dropWhile fun c => !Text.isDecimal c with
    | nil =>
        have hnone := List.dropWhile_eq_nil_iff.1 hdrop c hc
        simp [hdecimal] at hnone
    | cons x xs =>
        have hx := Text.all_head?_dropWhile (fun c => !Text.isDecimal c) rest
        rw [hdrop] at hx
        have hx : Text.isDecimal x = true := by simpa using hx
        simp [hx]

/-- A text begins with one setting at most. -/
theorem Sets.unique {lead' digits' tail' : List Char} (h : Sets rest lead digits tail)
    (h' : Sets rest lead' digits' tail') : lead = lead' ∧ digits = digits' ∧ tail = tail' := by
  have hsplit : ∀ {lead digits tail}, Sets rest lead digits tail →
      lead = rest.takeWhile (fun c => !Text.isDecimal c) ∧
      digits = (rest.dropWhile fun c => !Text.isDecimal c).takeWhile Text.isDecimal ∧
      tail = (rest.dropWhile fun c => !Text.isDecimal c).dropWhile Text.isDecimal := by
    intro lead digits tail h
    have hlead : ∀ c ∈ lead, (!Text.isDecimal c) = true := fun c hc => by
      simp [not_isDecimal_of_mem_leads h.lead_mem c hc]
    have hnumber : (digits ++ tail).head?.all fun c => !(!Text.isDecimal c) := by
      obtain ⟨x, ds, rfl⟩ := List.exists_cons_of_ne_nil h.digits_ne_nil
      simp [h.isDecimal x List.mem_cons_self]
    rw [h.eq_append, Text.takeWhile_append_of_head hlead hnumber,
      Text.dropWhile_append_of_head hlead hnumber,
      Text.takeWhile_append_of_head h.isDecimal h.tail_head,
      Text.dropWhile_append_of_head h.isDecimal h.tail_head]
    exact ⟨rfl, rfl, rfl⟩
  obtain ⟨hlead, hdigits, htail⟩ := hsplit h
  obtain ⟨hlead', hdigits', htail'⟩ := hsplit h'
  exact ⟨hlead.trans hlead'.symm, hdigits.trans hdigits'.symm, htail.trans htail'.symm⟩

/-! ### Matches -/

/-- Where a match of a setting ends, and its two groups. -/
def settingEnd (before lead digits tail : List Char) : Cursor :=
  ⟨(lead ++ digits).reverse ++ before, tail,
    [(2, before.length + lead.length, before.length + lead.length + digits.length),
      (1, before.length, before.length + lead.length)]⟩

/-- A match from a place at the start of a line: a lead, and the longest number behind it. -/
theorem matchAt_setting :
    settingPattern.matchAt ⟨before, rest, []⟩ =
      if before.head?.all (· == '\n') then
        (leadPattern.outcomes ⟨before, rest, []⟩).findSome? fun e =>
          if e.rest.head?.any Text.isDecimal then
            some ⟨(e.rest.takeWhile Text.isDecimal).reverse ++ e.before,
              e.rest.dropWhile Text.isDecimal,
              (2, e.pos, (e.rest.takeWhile Text.isDecimal).length + e.pos) ::
                (1, before.length, e.pos) :: e.groups⟩
          else none
      else none := by
  rw [matchAt, settingPattern_eq, outcomes, outcomes, Cursor.satisfies]
  split
  · rw [List.flatMap_singleton, outcomes, outcomes, List.head?_flatMap, List.findSome?_map]
    exact congrArg (List.findSome? · _) (funext fun e => head?_outcomes_group_plus)
  · rfl

theorem sets_of_matchAt (h : settingPattern.matchAt ⟨before, rest, []⟩ = some d) :
    before.head?.all (· == '\n') = true ∧
      ∃ lead digits tail, Sets rest lead digits tail ∧ d = settingEnd before lead digits tail := by
  rw [matchAt_setting] at h
  split at h
  · next hstart =>
    obtain ⟨e, he, hd⟩ := List.exists_of_findSome?_eq_some h
    obtain ⟨lead, hmem, more, hrest, rfl⟩ := (takes_leadPattern _ _).1 he
    obtain ⟨hhead, hd⟩ := Option.ite_none_right_eq_some.1 hd
    cases hd
    cases more with
    | nil => cases hhead
    | cons x xs =>
        have hx : Text.isDecimal x = true := hhead
        refine ⟨hstart, lead, (x :: xs).takeWhile Text.isDecimal,
          (x :: xs).dropWhile Text.isDecimal,
          ⟨?_, hmem, by simp [hx], fun c hc => List.mem_takeWhile_imp hc,
            Text.all_head?_dropWhile _ _⟩, ?_⟩
        · rw [List.takeWhile_append_dropWhile]
          exact hrest
        · simp [settingEnd, Cursor.after, Cursor.pos, Nat.add_comm]
  · cases h

theorem isSome_matchAt_iff :
    (settingPattern.matchAt ⟨before, rest, []⟩).isSome = true ↔
      before.head?.all (· == '\n') = true ∧ ∃ lead digits tail, Sets rest lead digits tail := by
  constructor
  · intro h
    obtain ⟨d, hd⟩ := Option.isSome_iff_exists.1 h
    obtain ⟨hstart, lead, digits, tail, hsets, -⟩ := sets_of_matchAt hd
    exact ⟨hstart, lead, digits, tail, hsets⟩
  · rintro ⟨hstart, lead, digits, tail, h⟩
    have hlead : Cursor.after ⟨before, rest, []⟩ lead (digits ++ tail) ∈
        leadPattern.outcomes ⟨before, rest, []⟩ :=
      (takes_leadPattern _ _).2 ⟨lead, h.lead_mem, _, h.eq_append, rfl⟩
    have hhead : ((digits ++ tail).head?.any Text.isDecimal) = true := by
      obtain ⟨x, ds, rfl⟩ := List.exists_cons_of_ne_nil h.digits_ne_nil
      exact h.isDecimal x List.mem_cons_self
    rw [matchAt_setting, if_pos hstart, List.findSome?_isSome_iff]
    exact ⟨_, hlead, by rw [Cursor.after, hhead]; rfl⟩

/-- **The match of a setting** at a place, which is where a line starts. -/
theorem matchAt_eq_some_iff :
    settingPattern.matchAt ⟨before, rest, []⟩ = some d ↔
      before.head?.all (· == '\n') = true ∧
        ∃ lead digits tail, Sets rest lead digits tail ∧ d = settingEnd before lead digits tail := by
  refine ⟨sets_of_matchAt, ?_⟩
  rintro ⟨hstart, lead, digits, tail, hsets, rfl⟩
  obtain ⟨d, hd⟩ := Option.isSome_iff_exists.1
    (isSome_matchAt_iff.2 ⟨hstart, lead, digits, tail, hsets⟩)
  obtain ⟨-, lead', digits', tail', hsets', rfl⟩ := sets_of_matchAt hd
  obtain ⟨rfl, rfl, rfl⟩ := hsets.unique hsets'
  exact hd

/-- Which digit comes first and what follows it does not matter to whether there is a match. -/
theorem isSome_matchAt_congr (hx : Text.isDecimal x = true) (hy : Text.isDecimal y = true) :
    (settingPattern.matchAt ⟨before, cs ++ x :: more, []⟩).isSome =
      (settingPattern.matchAt ⟨before, cs ++ y :: more', []⟩).isSome := by
  have hdigit {z : Char} (hz : Text.isDecimal z = true) (more : List Char) :
      ∃ c ∈ cs ++ z :: more, Text.isDecimal c = true := ⟨z, by simp, hz⟩
  rw [Bool.eq_iff_iff, isSome_matchAt_iff, isSome_matchAt_iff, exists_sets_iff, exists_sets_iff,
    takeWhile_of_first_decimal hx, takeWhile_of_first_decimal hy]
  simp only [hdigit hx, hdigit hy]

/-! ### The first setting -/

/-- The parts of a text at its first setting. -/
structure First (cs skipped lead digits tail : List Char) : Prop where
  eq_append : cs = skipped ++ (lead ++ (digits ++ tail))
  lineStart : skipped.reverse.head?.all (· == '\n') = true
  sets : Sets (lead ++ (digits ++ tail)) lead digits tail
  none_before : ∀ u v, skipped = u ++ v → v ≠ [] →
    settingPattern.matchAt ⟨u.reverse, v ++ (lead ++ (digits ++ tail)), []⟩ = none

/-- The match of a setting, with its number as second group and what comes before it as first one. -/
def settingMatch (skipped lead digits : List Char) : Match :=
  ⟨skipped.length, skipped.length + lead.length + digits.length,
    [(2, skipped.length + lead.length, skipped.length + lead.length + digits.length),
      (1, skipped.length, skipped.length + lead.length)]⟩

theorem find?_setting_iff :
    settingPattern.find? cs = some m ↔ ∃ skipped lead digits tail, First cs skipped lead digits tail ∧
      m = settingMatch skipped lead digits := by
  rw [find?, Option.map_eq_some_iff]
  constructor
  · rintro ⟨⟨c, d⟩, hsearch, rfl⟩
    obtain ⟨skipped, hcs, hc, hmatch, hnone⟩ := searchFrom_eq_some_iff.1 hsearch
    simp only [List.append_nil] at hc hnone
    rw [hc] at hmatch
    obtain ⟨hstart, lead, digits, tail, hsets, rfl⟩ := matchAt_eq_some_iff.1 hmatch
    have hrest := hsets.eq_append
    refine ⟨skipped, lead, digits, tail, ⟨by rw [hcs, hrest], hstart, hrest ▸ hsets, hrest ▸ hnone⟩, ?_⟩
    rw [hc]
    simp [settingMatch, Match.between, settingEnd, Cursor.pos]
    omega
  · rintro ⟨skipped, lead, digits, tail, h, rfl⟩
    refine ⟨(⟨skipped.reverse, lead ++ (digits ++ tail), []⟩,
      settingEnd skipped.reverse lead digits tail),
      searchFrom_eq_some_iff.2 ⟨skipped, h.eq_append, ?_, ?_, ?_⟩, ?_⟩
    · rw [List.append_nil]
    · exact matchAt_eq_some_iff.2 ⟨h.lineStart, lead, digits, tail, h.sets, rfl⟩
    · simpa using h.none_before
    · simp [settingMatch, Match.between, settingEnd, Cursor.pos]
      omega

/-- **With other digits the first setting is still the first one.** -/
theorem First.replace (h : First cs skipped lead digits tail) (hne : new ≠ [])
    (hnew : ∀ c ∈ new, Text.isDecimal c = true) :
    First (skipped ++ (lead ++ (new ++ tail))) skipped lead new tail where
  eq_append := rfl
  lineStart := h.lineStart
  sets := ⟨rfl, h.sets.lead_mem, hne, hnew, h.sets.tail_head⟩
  none_before u v huv hv := by
    obtain ⟨x, xs, rfl⟩ := List.exists_cons_of_ne_nil h.sets.digits_ne_nil
    obtain ⟨y, ys, rfl⟩ := List.exists_cons_of_ne_nil hne
    have hcongr := @isSome_matchAt_congr u.reverse (v ++ lead) (xs ++ tail) (ys ++ tail) x y
      (h.sets.isDecimal x List.mem_cons_self) (hnew y List.mem_cons_self)
    have hold := h.none_before u v huv hv
    simp only [List.append_assoc, List.cons_append] at hcongr hold ⊢
    rw [hold] at hcongr
    exact Option.isSome_eq_false_iff.1 hcongr.symm |> Option.isNone_iff_eq_none.1

/-- A setting in the first line is the first one. -/
theorem First.of_lead (hsets : Sets (lead ++ (digits ++ tail)) lead digits tail) :
    First (lead ++ (digits ++ tail)) [] lead digits tail where
  eq_append := rfl
  lineStart := rfl
  sets := hsets
  none_before _ _ huv hv := absurd (List.append_eq_nil_iff.1 huv.symm).2 hv

/-! ### The line length -/

theorem slice_append (as bs cs : List Char) :
    slice (as ++ (bs ++ cs)) as.length (as.length + bs.length) = bs := by
  simp [slice]

theorem First.group?_lead (h : First cs skipped lead digits tail) :
    (settingMatch skipped lead digits).group? 1 cs = some lead := by
  have hslice : slice cs skipped.length (skipped.length + lead.length) = lead := by
    rw [h.eq_append, slice_append]
  exact congrArg some hslice

theorem First.group?_digits (h : First cs skipped lead digits tail) :
    (settingMatch skipped lead digits).group? 2 cs = some digits := by
  have hslice : slice cs (skipped.length + lead.length)
      (skipped.length + lead.length + digits.length) = digits := by
    rw [h.eq_append, ← List.append_assoc, ← List.length_append, slice_append]
  exact congrArg some hslice

theorem First.take_start (h : First cs skipped lead digits tail) :
    cs.take (settingMatch skipped lead digits).start = skipped := by
  rw [h.eq_append]
  exact List.take_left

theorem First.drop_stop (h : First cs skipped lead digits tail) :
    cs.drop (settingMatch skipped lead digits).stop = tail := by
  rw [h.eq_append, ← List.append_assoc, ← List.append_assoc, settingMatch, ← List.length_append,
    ← List.length_append, List.drop_left]

theorem toList_toString (n : Nat) : (toString n).toList = Nat.toDigits 10 n := by
  rw [Nat.toString_eq_repr, Nat.repr, String.toList_ofList]

/-- What a configuration with a setting becomes. -/
theorem withLineLength?_of_first (h : First s.toList skipped lead digits tail) :
    withLineLength? n (some s) = if natural32? digits = some n then none
      else some (String.ofList (skipped ++ (lead ++ (Nat.toDigits 10 n ++ tail)))) := by
  have hfind := find?_setting_iff.2 ⟨skipped, lead, digits, tail, h, rfl⟩
  simp only [withLineLength?, hfind, h.group?_lead, h.group?_digits, h.take_start, h.drop_stop,
    Option.bind_some, Option.getD_some, List.append_assoc, toList_toString]

theorem withLineLength?_of_none (h : settingPattern.find? s.toList = none) :
    withLineLength? n (some s) = some ("line-length = " ++ toString n ++ "\n" ++ s) := by
  rw [withLineLength?, h]

/-- The setting that is written in front of a configuration without one. -/
theorem first_of_new (n : Nat) (text : String) :
    First ("line-length = " ++ toString n ++ "\n" ++ text).toList [] "line-length = ".toList
      (Nat.toDigits 10 n) ('\n' :: text.toList) := by
  have htext : ("line-length = " ++ toString n ++ "\n" ++ text).toList =
      "line-length = ".toList ++ (Nat.toDigits 10 n ++ '\n' :: text.toList) := by
    simp
  have hlead : "line-length = ".toList ∈ leads :=
    Language.mem_mul.2 ⟨[], List.forall_mem_nil _, _, Language.mem_mul.2 ⟨_, rfl, _,
      Language.mem_mul.2 ⟨[' '], by simp [mem_run_iff, CharSet.has, Text.isBlank], _,
        Language.mem_mul.2 ⟨_, rfl, [' '], by simp [mem_run_iff, CharSet.has, Text.isBlank], rfl⟩, rfl⟩,
      rfl⟩, rfl⟩
  rw [htext]
  exact .of_lead ⟨rfl, hlead, Nat.toDigits_ne_nil,
    fun c hc => Text.isDecimal_of_isDigit (Text.isDigit_of_mem_toDigits hc), rfl⟩

/-- A configuration has a line length if its first setting has it. -/
theorem withLineLength?_eq_none (hn : n < twoTo 32)
    (h : First s.toList skipped lead (Nat.toDigits 10 n) tail) :
    withLineLength? n (some s) = none := by
  have hnumber : natural32? (Nat.toDigits 10 n) = some n := by
    rw [natural32?, Text.natural?_toDigits, Option.filter_some, if_pos (by simpa using hn)]
  rw [withLineLength?_of_first h, if_pos hnumber]

/-- **A configuration that was brought to a line length has it.** -/
theorem withLineLength?_settled {before : Option String} {after : String} (hn : n < twoTo 32)
    (h : withLineLength? n before = some after) : withLineLength? n (some after) = none := by
  cases before with
  | none =>
      cases h
      have hfirst := first_of_new n ""
      rw [String.append_empty] at hfirst
      exact withLineLength?_eq_none hn hfirst
  | some s =>
      cases hfind : settingPattern.find? s.toList with
      | none =>
          rw [withLineLength?_of_none hfind] at h
          cases h
          exact withLineLength?_eq_none hn (first_of_new n s)
      | some m =>
          obtain ⟨skipped, lead, digits, tail, hfirst, -⟩ := find?_setting_iff.1 hfind
          rw [withLineLength?_of_first hfirst] at h
          split at h
          · cases h
          · cases h
            have hnew : First _ skipped lead (Nat.toDigits 10 n) tail :=
              hfirst.replace Nat.toDigits_ne_nil fun c hc =>
                Text.isDecimal_of_isDigit (Text.isDigit_of_mem_toDigits hc)
            refine withLineLength?_eq_none hn (?_ : First _ skipped lead _ tail)
            rw [String.toList_ofList]
            exact hnew

theorem lineLength?_lt {r : Rule} (h : lineLength? r = some n) : n < twoTo 32 := by
  obtain ⟨cs, -, hnumber⟩ := Option.bind_eq_some_iff.1 h
  exact decide_eq_true_iff.1 (Option.filter_eq_some_iff.1 hnumber).2

end Suggestion

end StyleContract
