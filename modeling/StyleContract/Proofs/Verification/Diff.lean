import StyleContract.Proofs.Pattern.All
import StyleContract.Proofs.Text.Headings
import StyleContract.Proofs.Verification.Aligned

/-!
# Proofs — Verification — Diff

What a printed diff tells of the lines of a file. Below its two headings stands each line that goes, after
a minus, and each line that comes, after a plus (`diffBody_eq`). A line goes if it is nowhere in the new
content, and comes if it was nowhere in the old one. So a line on one side alone is accounted for as often
as it stands there, but **a line on both sides is not accounted for at all** (`net_eq`), also where it
stands on one side more often than on the other (`repeated_line_untold`).

Hence a diff is faithful if and only if each line that both sides have stands on both as often
(`faithful_iff`). A new file, and a file that is given its first setting, only gain lines that they did not
have. Where a setting is changed, one line gives way to another (`exists_lines_around`), and the diff
tells so unless one of the two stands on another line, too. `diff_faithful_iff` says this of all
suggestions.
-/

namespace StyleContract

namespace Text

variable {c : Char} {cs part u v ds : List Char} {l s : String} {texts : List String}

theorem not_mem_of_mem_splitOn (h : part ∈ splitOn c cs) : c ∉ part := by
  induction cs generalizing part with
  | nil =>
      rw [splitOn, List.mem_singleton] at h
      rw [h]
      exact List.not_mem_nil
  | cons x xs ih =>
      rw [splitOn] at h
      split at h
      · rcases List.mem_cons.1 h with rfl | h
        · exact List.not_mem_nil
        · exact ih h
      · next hx =>
        cases hparts : splitOn c xs with
        | nil => exact absurd hparts (splitOn_ne_nil c xs)
        | cons first parts =>
            rw [hparts] at h ih
            rcases List.mem_cons.1 h with rfl | h
            · exact List.not_mem_cons_of_ne_of_not_mem (Ne.symm hx) (ih List.mem_cons_self)
            · exact ih (List.mem_cons_of_mem _ h)

theorem mem_of_mem_dropReturn (h : c ∈ dropReturn cs) : c ∈ cs := by
  rw [dropReturn] at h
  split at h
  · exact List.mem_of_mem_dropLast h
  · exact h

theorem exists_of_mem_linesOfParts {parts : List (List Char)} (h : part ∈ linesOfParts parts) :
    ∃ whole ∈ parts, ∀ c ∈ part, c ∈ whole := by
  fun_induction linesOfParts parts with
  | case1 => cases h
  | case2 => cases h
  | case3 last =>
      rw [List.mem_singleton] at h
      exact ⟨last, List.mem_cons_self, fun c hc => h ▸ hc⟩
  | case4 first rest _ ih =>
      rcases List.mem_cons.1 h with rfl | h
      · exact ⟨first, List.mem_cons_self, fun _ => mem_of_mem_dropReturn⟩
      · obtain ⟨whole, hwhole, hmem⟩ := ih h
        exact ⟨whole, List.mem_cons_of_mem _ hwhole, hmem⟩

/-- A line has no line break. -/
theorem flat_of_mem_lines (h : l ∈ lines s) : Flat l := by
  obtain ⟨part, hpart, rfl⟩ := List.mem_map.1 h
  obtain ⟨whole, hwhole, hmem⟩ := exists_of_mem_linesOfParts hpart
  intro hfeed
  rw [String.toList_ofList] at hfeed
  exact not_mem_of_mem_splitOn hwhole (hmem _ hfeed)

/-- Texts without line breaks, each printed as a line, are the parts between the line feeds. -/
theorem splitOn_printed (h : ∀ t ∈ texts, Flat t) :
    splitOn '\n' (printed texts).toList = texts.map String.toList ++ [[]] := by
  induction texts with
  | nil => rfl
  | cons t texts ih =>
      obtain ⟨ht, htexts⟩ := List.forall_mem_cons.1 h
      rw [printed_cons, splitOn_append_feed, splitOn_of_not_mem ht, ih htexts]
      rfl

/-- A text has no line break, or it has a last one. -/
theorem eq_append_last_feed (cs : List Char) :
    '\n' ∉ cs ∨ ∃ front last, cs = front ++ '\n' :: last ∧ '\n' ∉ last := by
  induction cs with
  | nil => exact .inl List.not_mem_nil
  | cons x xs ih =>
      rcases ih with h | ⟨front, last, rfl, hlast⟩
      · by_cases hx : x = '\n'
        · exact .inr ⟨[], xs, by rw [hx]; rfl, h⟩
        · exact .inl (List.not_mem_cons_of_ne_of_not_mem (Ne.symm hx) h)
      · exact .inr ⟨x :: front, last, rfl, hlast⟩

theorem dropReturn_append (h : '\r' ∉ ds) (hne : ds ≠ []) (u v : List Char) :
    dropReturn (u ++ (ds ++ v)) = u ++ (ds ++ dropReturn v) := by
  by_cases hv : v = []
  · have hlast : (u ++ ds).getLast? ≠ some '\r' := by
      rw [List.getLast?_append_of_ne_nil _ hne]
      exact fun hlast => h (List.mem_of_getLast? hlast)
    subst hv
    rw [List.append_nil, dropReturn, if_neg hlast]
    simp [dropReturn]
  · have hlast : (u ++ (ds ++ v)).getLast? = v.getLast? := by
      rw [List.getLast?_append_of_ne_nil _ (List.append_ne_nil_of_right_ne_nil ds hv),
        List.getLast?_append_of_ne_nil _ hv]
    rw [dropReturn, hlast, dropReturn]
    split
    · rw [List.dropLast_append_of_ne_nil (List.append_ne_nil_of_right_ne_nil ds hv),
        List.dropLast_append_of_ne_nil hv]
    · rfl

/-- A line stands in its text behind nothing or a line feed, and in front of nothing or the end of a line. -/
theorem exists_place_of_mem_linesOfParts (h : part ∈ linesOfParts (splitOn '\n' cs)) :
    ∃ u v, cs = u ++ (part ++ v) ∧ (u.getLast?.all (· == '\n')) = true ∧
      (v.head?.all fun c => c == '\n' || c == '\r') = true := by
  induction hn : cs.length using Nat.strong_induction_on generalizing cs with | _ n ih => ?_
  by_cases hcs : '\n' ∈ cs
  · obtain ⟨line, rest, rfl, hline⟩ := List.eq_append_cons_of_mem hcs
    have hsplit := splitOn_append_cons '\n' line rest
    rw [splitOn_of_not_mem hline] at hsplit
    rw [hsplit, linesOfParts_append _ (splitOn_ne_nil _ _), List.map_singleton] at h
    rcases List.mem_cons.1 h with rfl | h
    · rw [dropReturn]
      split
      · next hlast =>
        obtain ⟨front, rfl⟩ := List.getLast?_eq_some_iff.1 hlast
        exact ⟨[], '\r' :: '\n' :: rest, by simp, rfl, rfl⟩
      · exact ⟨[], '\n' :: rest, rfl, rfl, rfl⟩
    · obtain ⟨u, v, rfl, hu, hv⟩ := ih _ (by rw [← hn]; simp; omega) h rfl
      refine ⟨line ++ '\n' :: u, v, by simp, ?_, hv⟩
      cases u with
      | nil => simp
      | cons x u =>
          rw [List.append_cons, List.getLast?_append_of_ne_nil _ (List.cons_ne_nil x u)]
          exact hu
  · rw [splitOn_of_not_mem hcs, linesOfParts] at h
    split at h
    · cases h
    · rw [List.mem_singleton] at h
      exact ⟨[], [], by simp [h], rfl, rfl⟩

/-- A line goes on behind some of its characters in one way, whatever these are, and other lines follow. -/
theorem exists_rest_of_line (v : List Char) : ∃ tail back, ∀ u ds, '\n' ∉ u ++ ds → '\r' ∉ ds →
    ds ≠ [] → linesOfParts (splitOn '\n' (u ++ (ds ++ v))) = (u ++ (ds ++ tail)) :: back := by
  by_cases hv : '\n' ∈ v
  · obtain ⟨tail, rest, rfl, htail⟩ := List.eq_append_cons_of_mem hv
    refine ⟨dropReturn tail, linesOfParts (splitOn '\n' rest), fun u ds hfeed hreturn hne => ?_⟩
    have hline : '\n' ∉ u ++ (ds ++ tail) := by
      rw [← List.append_assoc, List.mem_append, not_or]
      exact ⟨hfeed, htail⟩
    have hsplit := splitOn_append_cons '\n' (u ++ (ds ++ tail)) rest
    rw [splitOn_of_not_mem hline] at hsplit
    rw [← List.append_assoc ds, ← List.append_assoc u, hsplit, linesOfParts_append _ (splitOn_ne_nil _ _),
      List.map_singleton, dropReturn_append hreturn hne]
    rfl
  · refine ⟨v, [], fun u ds hfeed _ hne => ?_⟩
    have hline : '\n' ∉ u ++ (ds ++ v) := by
      rw [← List.append_assoc, List.mem_append, not_or]
      exact ⟨hfeed, hv⟩
    rw [splitOn_of_not_mem hline, linesOfParts, if_neg (by simp [hne])]

/-- **One line holds a stretch of characters without line breaks**, and the others do not depend on it. -/
theorem exists_lines_around (u v : List Char) : ∃ front head tail back, ∀ ds, ds ≠ [] →
    '\n' ∉ ds → '\r' ∉ ds → lines (String.ofList (u ++ (ds ++ v))) =
      front ++ String.ofList (head ++ (ds ++ tail)) :: back := by
  obtain ⟨tail, back, hback⟩ := exists_rest_of_line v
  rcases eq_append_last_feed u with hu | ⟨front, head, rfl, hhead⟩
  · refine ⟨[], u, tail, back.map String.ofList, fun ds hne hfeed hreturn => ?_⟩
    rw [lines, String.toList_ofList, hback u ds (by simp [hu, hfeed]) hreturn hne]
    rfl
  · refine ⟨(splitOn '\n' front).map fun part => String.ofList (dropReturn part), head, tail,
      back.map String.ofList, fun ds hne hfeed hreturn => ?_⟩
    have hsplit := splitOn_append_cons '\n' front (head ++ (ds ++ v))
    rw [lines, String.toList_ofList, List.append_assoc, List.cons_append, hsplit,
      linesOfParts_append _ (splitOn_ne_nil _ _), hback head ds (by simp [hhead, hfeed]) hreturn hne,
      List.map_append, List.map_map]
    rfl

end Text

namespace Suggestion

open Pattern

variable {c : Contract} {tree : Entry} {root text : String} {ss : List Suggestion} {s : Suggestion}
  {front back : List String} {l old new : String} {n : Nat}

/-! ### The lines of a diff -/

/-- The lines of a file as it is; a file that is new has none. -/
def oldLines (s : Suggestion) : List String := Text.lines (s.before.getD "")

def newLines (s : Suggestion) : List String := Text.lines s.after

/-- The lines of the diff below its two headings. -/
def diffBody (s : Suggestion) : List (List Char) := (Text.splitOn '\n' s.diff.toList).drop 2

/-- How often a line comes according to the diff, less how often it goes. -/
def net (s : Suggestion) (l : String) : Int :=
  s.diffBody.count ('+' :: l.toList) - s.diffBody.count ('-' :: l.toList)

/-- Each line comes as often as it stands in the new content more often than in the old one. -/
def Faithful (s : Suggestion) : Prop :=
  ∀ l : String, s.net l = s.newLines.count l - s.oldLines.count l

theorem missingLines_eq (sign : String) (lines others : List String) :
    missingLines sign lines others =
      Text.printed ((lines.filter (· ∉ others)).map (sign ++ ·)) := by
  rw [missingLines, Text.printed, List.map_map]
  rfl

theorem diff_eq (s : Suggestion) : ∃ old, old ∈ ["/dev/null", "a/" ++ s.path] ∧
    s.diff = Text.printed (["--- " ++ old, "+++ b/" ++ s.path] ++
      ((s.oldLines.filter (· ∉ s.newLines)).map ("-" ++ ·) ++
        (s.newLines.filter (· ∉ s.oldLines)).map ("+" ++ ·))) := by
  refine ⟨if s.before.isSome then "a/" ++ s.path else "/dev/null", by split <;> simp, ?_⟩
  rw [Text.printed_append, Text.printed_append, Text.printed_cons, Text.printed_cons, ← missingLines_eq,
    ← missingLines_eq]
  simp only [diff, oldLines, newLines, Text.printed, List.map_nil, String.append_assoc]
  rfl

theorem diffBody_eq (h : Text.Flat s.path) :
    s.diffBody = (s.oldLines.filter (· ∉ s.newLines)).map ('-' :: ·.toList) ++
      ((s.newLines.filter (· ∉ s.oldLines)).map ('+' :: ·.toList) ++ [[]]) := by
  obtain ⟨old, hold, hdiff⟩ := s.diff_eq
  have hsigned : ∀ sign l : String, Text.Flat sign → Text.Flat l → Text.Flat (sign ++ l) :=
    fun sign l hsign hl => Text.flat_append_iff.2 ⟨hsign, hl⟩
  have hflat : ∀ t ∈ ["--- " ++ old, "+++ b/" ++ s.path] ++
      ((s.oldLines.filter (· ∉ s.newLines)).map ("-" ++ ·) ++
        (s.newLines.filter (· ∉ s.oldLines)).map ("+" ++ ·)), Text.Flat t := by
    have hpath : Text.Flat old := by
      simp only [List.mem_cons, List.not_mem_nil, or_false] at hold
      rcases hold with rfl | rfl
      · decide
      · exact hsigned _ _ (by decide) h
    simp only [List.forall_mem_append, List.forall_mem_cons, List.forall_mem_map, List.mem_filter]
    exact ⟨⟨hsigned _ _ (by decide) hpath, hsigned _ _ (by decide) h, List.forall_mem_nil _⟩,
      fun l hl => hsigned _ _ (by decide) (Text.flat_of_mem_lines hl.1),
      fun l hl => hsigned _ _ (by decide) (Text.flat_of_mem_lines hl.1)⟩
  rw [diffBody, hdiff, Text.splitOn_printed hflat, List.map_append, List.map_append, List.map_map,
    List.map_map, List.append_assoc]
  have hminus : (fun l : String => ("-" ++ l).toList) = ('-' :: ·.toList) :=
    funext fun l => String.toList_append
  have hplus : (fun l : String => ("+" ++ l).toList) = ('+' :: ·.toList) :=
    funext fun l => String.toList_append
  simp only [Function.comp_def, hminus, hplus, List.append_assoc]
  rfl

theorem count_map_cons (x : Char) (ls : List String) (l : String) :
    (ls.map (x :: ·.toList)).count (x :: l.toList) = ls.count l :=
  List.count_map_of_injective ls _ (fun _ _ h => String.toList_inj.1 (List.cons.inj h).2) l

theorem count_map_cons_of_ne {x y : Char} (h : x ≠ y) (ls : List String) (cs : List Char) :
    (ls.map (y :: ·.toList)).count (x :: cs) = 0 := by
  rw [List.count_eq_zero, List.mem_map]
  rintro ⟨l, -, heq⟩
  exact h (List.cons.inj heq).1.symm

theorem count_filter_not_mem (ls others : List String) (l : String) :
    (ls.filter (· ∉ others)).count l = if l ∈ others then 0 else ls.count l := by
  split
  · next hl => exact List.count_eq_zero.2 fun hmem => by simp [hl] at hmem
  · next hl => exact List.count_filter (by simpa using hl)

/-- **What a diff tells of a line**: nothing if it stands on both sides. -/
theorem net_eq (h : Text.Flat s.path) (l : String) : s.net l =
    if l ∈ s.oldLines ∧ l ∈ s.newLines then 0
    else (s.newLines.count l : Int) - s.oldLines.count l := by
  have hempty : ∀ x cs, ([[]] : List (List Char)).count (x :: cs) = 0 := fun _ _ => rfl
  rw [net, diffBody_eq h]
  simp only [List.count_append, count_map_cons, count_map_cons_of_ne (by decide : '+' ≠ '-'),
    count_map_cons_of_ne (by decide : '-' ≠ '+'), hempty, count_filter_not_mem]
  by_cases hold : l ∈ s.oldLines
  · by_cases hnew : l ∈ s.newLines
    · simp [hold, hnew]
    · simp [hold, hnew, List.count_eq_zero.2 hnew]
  · by_cases hnew : l ∈ s.newLines
    · simp [hold, hnew, List.count_eq_zero.2 hold]
    · simp [hold, hnew]

/-- **A diff is faithful** if and only if the lines on both sides stand there as often. -/
theorem faithful_iff (h : Text.Flat s.path) :
    s.Faithful ↔ ∀ l ∈ s.oldLines, l ∈ s.newLines → s.oldLines.count l = s.newLines.count l := by
  constructor
  · intro hfaithful l hold hnew
    have hl := hfaithful l
    rw [net_eq h, if_pos ⟨hold, hnew⟩] at hl
    omega
  · intro hcount l
    rw [net_eq h]
    split
    · next hboth => rw [hcount l hboth.1 hboth.2, Int.sub_self]
    · rfl

/-! ### One line for another -/

/-- Where one line gives way to another, all others stand on both sides as often. -/
theorem forall_count_eq_iff (h : old ≠ new) :
    (∀ l ∈ front ++ old :: back, l ∈ front ++ new :: back →
        (front ++ old :: back).count l = (front ++ new :: back).count l) ↔
      old ∉ front ++ back ∧ new ∉ front ++ back := by
  have hcount : ∀ l line : String, (front ++ line :: back).count l =
      (front ++ back).count l + if line = l then 1 else 0 := fun l line => by
    simp only [List.count_append, List.count_cons, beq_iff_eq]
    omega
  have hmem : ∀ l line : String, l ∈ front ++ line :: back ↔ l ∈ front ++ back ∨ l = line := fun l line => by
    simp only [List.mem_append, List.mem_cons]
    tauto
  constructor
  · intro hall
    constructor
    · intro hold
      have := hall old ((hmem _ _).2 (.inr rfl)) ((hmem _ _).2 (.inl hold))
      simp [hcount, Ne.symm h] at this
    · intro hnew
      have := hall new ((hmem _ _).2 (.inl hnew)) ((hmem _ _).2 (.inr rfl))
      simp [hcount, h] at this
  · rintro ⟨hold, hnew⟩ l hl hl'
    have hother : old ≠ l ∧ new ≠ l := by
      constructor
      · rintro rfl
        exact ((hmem _ _).1 hl').elim hold h
      · rintro rfl
        exact ((hmem _ _).1 hl).elim hnew (Ne.symm h)
    rw [hcount, hcount, if_neg hother.1, if_neg hother.2]

/-! ### Suggestions -/

theorem line_break_not_decimal : Text.isDecimal '\n' = false ∧ Text.isDecimal '\r' = false := by decide

/-- A text without a setting has no line that sets a line length. -/
theorem not_mem_lines_of_none (h : settingPattern.find? text.toList = none) (n : Nat) :
    "line-length = " ++ toString n ∉ Text.lines text := by
  intro hmem
  obtain ⟨part, hpart, heq⟩ := List.mem_map.1 hmem
  obtain ⟨u, v, htext, hu, hv⟩ := Text.exists_place_of_mem_linesOfParts hpart
  have hline : part = "line-length = ".toList ++ Nat.toDigits 10 n := by
    have hchars := congrArg String.toList heq
    rwa [String.toList_ofList, String.toList_append, toList_toString] at hchars
  have htail : v.head?.all fun c => !Text.isDecimal c := by
    cases v with
    | nil => rfl
    | cons c v =>
        have hc : c = '\n' ∨ c = '\r' := by simpa using hv
        rcases hc with rfl | rfl
        · simp [line_break_not_decimal.1]
        · simp [line_break_not_decimal.2]
  have hsets : Sets (part ++ v) "line-length = ".toList (Nat.toDigits 10 n) v := by
    have hnew := (first_of_new n "").sets
    exact ⟨by rw [hline, List.append_assoc], hnew.lead_mem, hnew.digits_ne_nil, hnew.isDecimal, htail⟩
  have hsome : (settingPattern.matchAt (place [] u (part ++ v))).isSome = true := by
    refine isSome_matchAt_iff.2 ⟨?_, _, _, _, hsets⟩
    simpa using hu
  obtain ⟨d, hd⟩ := Option.isSome_iff_exists.1 hsome
  obtain ⟨_, _, _, -, hsearch, -⟩ := exists_searchFrom hd
  rw [find?, htext, hsearch] at h
  cases h

/-- A setting in front of a text without one is a line that the text does not have. -/
theorem newLines_in_front (hafter : s.after = "line-length = " ++ toString n ++ "\n" ++ text) :
    s.newLines = ("line-length = " ++ toString n) :: Text.lines text := by
  have hline : ("line-length = " ++ toString n).toList =
      "line-length = ".toList ++ (Nat.toDigits 10 n ++ []) := by
    rw [String.toList_append, toList_toString, List.append_nil]
  have hdigits : '\r' ∉ Nat.toDigits 10 n := fun h => by
    have hdigit := Text.isDigit_of_mem_toDigits h
    cases hdigit
  have hrow : Text.rows ("line-length = " ++ toString n) = ["line-length = " ++ toString n] := by
    rw [Text.rows_eq, Text.splitOn_of_not_mem (Text.flat_append_iff.2 ⟨by decide, Text.flat_toString n⟩),
      List.map_singleton, hline, Text.dropReturn_append hdigits Nat.toDigits_ne_nil]
    rw [show Text.dropReturn [] = [] from rfl, ← hline, String.ofList_toList]
  rw [newLines, hafter, Text.lines_append_feed, hrow]
  rfl

/-- What a suggestion for the line length tells of its lines. A file that is new or had no setting gains
lines alone; else one line gives way to another. -/
structure RuffDiff (s : Suggestion) : Prop where
  gains : (s.before.bind fun text => settingPattern.find? text.toList) = none → s.Faithful
  changes : ∀ text m, s.before = some text → settingPattern.find? text.toList = some m →
    ∃ front old new back, s.oldLines = front ++ old :: back ∧ s.newLines = front ++ new :: back ∧
      old ≠ new ∧ (s.Faithful ↔ old ∉ front ++ back ∧ new ∉ front ++ back)

theorem ruffDiff (hpath : Text.Flat s.path) (hn : n < twoTo 32)
    (h : withLineLength? n s.before = some s.after) : s.RuffDiff where
  gains hnone := by
    rw [faithful_iff hpath]
    intro l hold hnew
    cases hbefore : s.before with
    | none =>
        rw [oldLines, hbefore] at hold
        cases hold
    | some text =>
        rw [hbefore] at h hnone
        have hnone : settingPattern.find? text.toList = none := hnone
        rw [withLineLength?_of_none hnone, Option.some.injEq] at h
        have hlines : s.oldLines = Text.lines text := by rw [oldLines, hbefore, Option.getD_some]
        rw [newLines_in_front h.symm, hlines, List.count_cons_of_ne]
        rintro rfl
        exact not_mem_lines_of_none hnone n (hlines ▸ hold)
  changes text m hbefore hm := by
    obtain ⟨skipped, lead, digits, tail, hfirst, -⟩ := find?_setting_iff.1 hm
    rw [hbefore, withLineLength?_of_first hfirst] at h
    obtain ⟨hdiffer, hafter⟩ := Option.ite_none_left_eq_some.1 h
    obtain ⟨front, head, rest, back, haround⟩ := Text.exists_lines_around (skipped ++ lead) tail
    have hline : ∀ ds, ds ≠ [] → (∀ c ∈ ds, Text.isDecimal c = true) →
        Text.lines (String.ofList (skipped ++ (lead ++ (ds ++ tail)))) =
          front ++ String.ofList (head ++ (ds ++ rest)) :: back := fun ds hne hds => by
      rw [← List.append_assoc]
      refine haround ds hne (fun hmem => ?_) fun hmem => ?_
      · exact absurd (hds _ hmem) (by simp [line_break_not_decimal.1])
      · exact absurd (hds _ hmem) (by simp [line_break_not_decimal.2])
    have hold : s.oldLines = front ++ String.ofList (head ++ (digits ++ rest)) :: back := by
      rw [oldLines, hbefore, Option.getD_some, ← hline digits hfirst.sets.digits_ne_nil
        hfirst.sets.isDecimal, ← hfirst.eq_append, String.ofList_toList]
    have hnew : s.newLines = front ++ String.ofList (head ++ (Nat.toDigits 10 n ++ rest)) :: back := by
      rw [newLines, ← Option.some.inj hafter]
      exact hline _ Nat.toDigits_ne_nil fun c hc =>
        Text.isDecimal_of_isDigit (Text.isDigit_of_mem_toDigits hc)
    -- the number is another one, so it is written with other digits
    have hne : String.ofList (head ++ (digits ++ rest)) ≠
        String.ofList (head ++ (Nat.toDigits 10 n ++ rest)) := fun heq => by
      have hchars := congrArg String.toList heq
      rw [String.toList_ofList, String.toList_ofList] at hchars
      have hdigits := List.append_cancel_right (List.append_cancel_left hchars)
      refine hdiffer ?_
      rw [hdigits, natural32?, Text.natural?_toDigits, Option.filter_some, if_pos (by simpa using hn)]
    refine ⟨front, _, _, back, hold, hnew, hne, ?_⟩
    rw [faithful_iff hpath, hold, hnew, forall_count_eq_iff hne]

/-- **What the diff of a suggestion tells.** -/
theorem diff_faithful_iff (h : ofContract c tree root = .ok ss) (hs : s ∈ ss) :
    (∀ l, s.net l = if l ∈ s.oldLines ∧ l ∈ s.newLines then 0
      else (s.newLines.count l : Int) - s.oldLines.count l) ∧
    (s.Faithful ↔ ∀ l ∈ s.oldLines, l ∈ s.newLines → s.oldLines.count l = s.newLines.count l) ∧
    (s.path = ruffFile → s.RuffDiff) := by
  obtain ⟨os, hos, rfl⟩ := exists_of_ofContract h
  obtain ⟨r, -, hr⟩ := Document.exists_read_of_mem_mapM hos (mem_suggested_iff.1 hs)
  obtain ⟨-, htarget, -, hrevised⟩ := of_forRule hr
  have hpath : Text.Flat s.path := by
    rcases target?_eq_some htarget with ⟨-, hfile⟩ | ⟨-, hfile⟩ <;> rw [hfile] <;> decide
  refine ⟨net_eq hpath, faithful_iff hpath, fun hruff => ?_⟩
  rcases target?_eq_some htarget with ⟨hid, -⟩ | ⟨-, hfile⟩
  · rw [revised?, if_pos hid] at hrevised
    obtain ⟨n, hn, hafter⟩ := Option.bind_eq_some_iff.1 hrevised
    exact ruffDiff hpath (lineLength?_lt hn) hafter
  · exact absurd (hruff.symm.trans hfile) (by decide)

/-- A contract of the rule about lines of 88 characters. -/
def blackContract : Contract := { configuredContract with rules := [blackRule] }

/-- What is suggested for a configuration that starts with another number. -/
def widened (rest : String) : Suggestion :=
  ⟨"PY-FMT-001", ruffFile, "Align ruff line-length with Black (88)",
    some ("line-length = 79\n" ++ rest), "line-length = 88\n" ++ rest⟩

theorem diff_faithful_iff_widened :
    ofContract blackContract (configuredTree "line-length = 79\nindent-width = 4\n") "." =
        .ok [widened "indent-width = 4\n"] ∧
      (widened "indent-width = 4\n").Faithful := by
  have hss : ofContract blackContract (configuredTree "line-length = 79\nindent-width = 4\n") "." =
      .ok [widened "indent-width = 4\n"] := Store.eq_ok_of_toOption (by decide +kernel)
  exact ⟨hss, (diff_faithful_iff hss List.mem_cons_self).2.1.2 (by decide)⟩

/-- Another table sets the same number already, so the diff does not show the line that comes. -/
theorem repeated_line_untold :
    ofContract blackContract (configuredTree "line-length = 79\n[format]\nline-length = 88\n") "." =
        .ok [widened "[format]\nline-length = 88\n"] ∧
      (widened "[format]\nline-length = 88\n").net "line-length = 88" = 0 ∧
      (widened "[format]\nline-length = 88\n").newLines.count "line-length = 88" = 2 ∧
      (widened "[format]\nline-length = 88\n").oldLines.count "line-length = 88" = 1 :=
  ⟨Store.eq_ok_of_toOption (by decide +kernel), by decide +kernel, by decide, by decide⟩

end Suggestion

end StyleContract
