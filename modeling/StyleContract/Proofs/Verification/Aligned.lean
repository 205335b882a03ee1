import StyleContract.Proofs.Toml.Root
import StyleContract.Proofs.Verification.Setting
import StyleContract.Proofs.Verification.Suggestion

/-!
# Proofs — Verification — Aligned

What a suggestion for the line length makes of a configuration that is a document. The suggestion edits the
text at the first line that has the form of a setting, and writes a new first line if there is none; it does
not read the document. So it aligns a configuration that is new. If there is no such line, it aligns a document
that has no line length in any other writing (`aligned_put_in_front_iff`). If the line is a statement of the
root table, it aligns the document **if and only if nothing of a scalar goes on behind the digits**
(`aligned_at_root_iff`): of `0x4F`, `1_00` or `1e2` only the first digits are exchanged. Under a header it sets
a key of another table (`of_aligned_below`), and what has the number there is left as it is.

All cases together are `line_length_alignment`. A line inside a string is no statement, and lies in none of
the last two.
-/

namespace StyleContract.Toml

variable {cs more : List Char} {c : Char}

/-- A text without the mark of its byte order. -/
def unmarked : List Char → List Char
  | '\ufeff' :: cs => cs
  | cs => cs

theorem ofText?_eq (s : String) :
    ofText? s = (Place.read ⟨[], [], unmarked s.toList⟩).map fun root => .table (closedEntries root) :=
  rfl

theorem exists_read_of_ofText? {s : String} {document : Toml} (h : ofText? s = some document) :
    ∃ root, Place.read ⟨[], [], unmarked s.toList⟩ = some root ∧
      document = .table (closedEntries root) := by
  rw [ofText?_eq] at h
  obtain ⟨root, hroot, heq⟩ := Option.map_eq_some_iff.1 h
  exact ⟨root, hroot, heq.symm⟩

theorem unmarked_of_head? (h : cs.head? ≠ some '\ufeff') : unmarked cs = cs := by
  unfold unmarked
  split
  · exact absurd rfl h
  · rfl

theorem unmarked_append (h : more.head? ≠ some '\ufeff') (cs : List Char) :
    unmarked (cs ++ more) = unmarked cs ++ more := by
  cases cs with
  | nil => exact unmarked_of_head? h
  | cons c cs =>
      by_cases hc : c = '\ufeff'
      · subst hc
        rfl
      · rw [List.cons_append, unmarked_of_head? (by simpa using hc), unmarked_of_head? (by simpa using hc)]
        rfl

/-- The mark of a byte order begins no statement. -/
theorem read_mark (header : List String) (root : Entries) :
    Place.read ⟨header, root, '\ufeff' :: cs⟩ = none := by
  have hskip : skipAll ('\ufeff' :: cs) = '\ufeff' :: cs := by
    simp [skipAll, skipLines, skipSpace, skipComment, isSpace, afterNewline?]
  have hbare : bareKey ('\ufeff' :: cs) = none := by
    have hname : ('\ufeff' :: cs).takeWhile isKeyChar = [] := List.takeWhile_cons_of_neg (by decide)
    rw [bareKey, hname]
    rfl
  have hpart : keyPart ('\ufeff' :: cs) = none := by
    have hspace : skipSpace ('\ufeff' :: cs) = '\ufeff' :: cs := List.dropWhile_cons_of_neg (by decide)
    rw [keyPart, hspace, simpleKey_eq_bareKey (by simp) (by simp), hbare]
    rfl
  have hkey : keyedPart ('\ufeff' :: cs) = none := by
    rw [keyedPart, keyEquals, key, dottedKey_succ, hpart]
    rfl
  rw [Place.read_eq]
  dsimp only
  rw [hskip, if_neg (List.cons_ne_nil _ _), statement, content_of_ne (by simp), hkey]
  rfl

end StyleContract.Toml

namespace StyleContract.Suggestion

open Pattern Toml

variable {n : Nat} {s : String} {document : Toml} {skipped lead digits tail cs rest : List Char}
  {header : List String} {root old final : Entries}

/-- A text reads as a document with the given line length, and with all other keys as in a document. -/
def Aligned (n : Nat) (before : Toml) (text : String) : Prop :=
  ∃ after, Toml.ofText? text = some after ∧ after.get? "line-length" = some (.int n) ∧
    ∀ name, name ≠ "line-length" → after.get? name = before.get? name

theorem aligned_iff {text : String} : Aligned n document text ↔
    ∃ final, Place.read ⟨[], [], unmarked text.toList⟩ = some final ∧
      Entries.get? "line-length" final = some (.value (.int n)) ∧
      ∀ name, name ≠ "line-length" → (Entries.get? name final).map Item.closed = document.get? name := by
  have hget {final : Entries} : (Toml.table (closedEntries final)).get? "line-length" = some (.int n) ↔
      Entries.get? "line-length" final = some (.value (.int n)) := by
    rw [get?_table_closedEntries, Option.map_eq_some_iff]
    simp [closed_eq_int_iff]
  constructor
  · rintro ⟨after, htext, hlength, hothers⟩
    obtain ⟨final, hfinal, rfl⟩ := exists_read_of_ofText? htext
    exact ⟨final, hfinal, hget.1 hlength, fun name hname => by
      rw [← hothers name hname, get?_table_closedEntries]⟩
  · rintro ⟨final, hfinal, hlength, hothers⟩
    refine ⟨_, by rw [ofText?_eq, hfinal]; rfl, hget.2 hlength, fun name hname => ?_⟩
    rw [← hothers name hname, get?_table_closedEntries]

/-! ### A setting in front -/

theorem lead_mem_assignments : "line-length = ".toList ∈ assignments :=
  Language.mem_mul.2 ⟨[], List.forall_mem_nil _, _, Language.mem_mul.2 ⟨_, rfl, _,
    Language.mem_mul.2 ⟨[' '], mem_run_of_isSpace (by simp [isSpace]), _,
      Language.mem_mul.2 ⟨_, rfl, [' '], mem_run_of_isSpace (by simp [isSpace]), rfl⟩, rfl⟩,
    rfl⟩, rfl⟩

theorem toList_in_front (n : Nat) (s : String) :
    ("line-length = " ++ toString n ++ "\n" ++ s).toList =
      "line-length = ".toList ++ (Nat.toDigits 10 n ++ '\n' :: s.toList) := by
  simp

theorem statement_in_front (hn : n < twoTo 63) (cs : List Char) :
    statement (skipAll ("line-length = ".toList ++ (Nat.toDigits 10 n ++ '\n' :: cs))) =
      some (.keyed ["line-length"] (.int n), cs) := by
  rw [statement_of_assignment lead_mem_assignments (head?_toDigits n _),
    reading_digits (fun _ => Text.isDigit_of_mem_toDigits) rfl, scalarOf?_toDigits hn]
  rfl

/-- The document behind a new first line starts with its line length. -/
theorem read_in_front (hn : n < twoTo 63) (cs : List Char) :
    Place.read ⟨[], [], "line-length = ".toList ++ (Nat.toDigits 10 n ++ '\n' :: cs)⟩ =
      Place.read ⟨[], [("line-length", .value (.int n))], cs⟩ :=
  (Step.statement (statement_in_front hn cs) (apply_keyed_root ..)).read_eq

/-- **A new first line aligns a document that has no line length yet**, and no mark in front. -/
theorem aligned_put_in_front_iff (hn : n < twoTo 63) (hdocument : Toml.ofText? s = some document) :
    Aligned n document ("line-length = " ++ toString n ++ "\n" ++ s) ↔
      s.toList.head? ≠ some '\ufeff' ∧ document.get? "line-length" = none := by
  obtain ⟨old, hold, rfl⟩ := exists_read_of_ofText? hdocument
  rw [aligned_iff, toList_in_front, unmarked_of_head? (by simp), read_in_front hn,
    get?_table_closedEntries, Option.map_eq_none_iff]
  by_cases hmark : s.toList.head? = some '\ufeff'
  · obtain ⟨cs, hcs⟩ := List.head?_eq_some_iff.1 hmark
    refine iff_of_false ?_ fun h => h.1 hmark
    rintro ⟨final, hfinal, -⟩
    rw [hcs, read_mark] at hfinal
    cases hfinal
  · rw [unmarked_of_head? hmark] at hold
    obtain ⟨sts, hsts⟩ := exists_run hold
    rw [hsts] at hold ⊢
    rw [run_cons_value rfl, hold]
    constructor
    · rintro ⟨final, hfinal, -⟩
      obtain ⟨_, hnone, -⟩ := Option.map_eq_some_iff.1 hfinal
      obtain ⟨heq, hnone⟩ := Option.filter_eq_some_iff.1 hnone
      cases heq
      exact ⟨hmark, Option.isNone_iff_eq_none.1 hnone⟩
    · rintro ⟨-, hnone⟩
      refine ⟨("line-length", .value (.int n)) :: old, by simp [Option.filter, hnone],
        (Entries.get?_cons _).trans (if_pos rfl), fun name hname => ?_⟩
      rw [Entries.get?_cons, if_neg (Ne.symm hname), get?_table_closedEntries]

theorem ofText?_new (hn : n < twoTo 63) :
    Toml.ofText? ("line-length = " ++ toString n ++ "\n") = some (.table [("line-length", .int n)]) := by
  have hend (root : Entries) : Place.read ⟨[], root, []⟩ = some root :=
    (Lists.nil (rfl : skipAll [] = [])).read_eq
  rw [ofText?_eq, ← String.append_empty (s := "line-length = " ++ toString n ++ "\n"), toList_in_front,
    unmarked_of_head? (by simp), read_in_front hn]
  exact congrArg (Option.map _) (hend _)

/-- A new configuration is aligned. -/
theorem aligned_new (hn : n < twoTo 63) :
    Aligned n (.table []) ("line-length = " ++ toString n ++ "\n") := by
  refine ⟨_, ofText?_new hn, rfl, fun name hname => ?_⟩
  simp [Toml.get?, Ne.symm hname]

/-! ### Another number in a setting -/

theorem head?_lead (hlead : lead ∈ leads) (cs : List Char) : (lead ++ cs).head? ≠ some '\ufeff' := by
  obtain ⟨as, has, _, h, rfl⟩ := Language.mem_mul.1 hlead
  obtain ⟨_, rfl, _, -, rfl⟩ := Language.mem_mul.1 h
  cases as with
  | nil => simp
  | cons a as =>
      have ha : a = ' ' ∨ a = '\t' := by simpa [CharSet.of, CharSet.has] using has a List.mem_cons_self
      rcases ha with rfl | rfl <;> simp

theorem skipAll_lead_ne_nil (hlead : lead ∈ leads) (cs : List Char) : skipAll (lead ++ cs) ≠ [] := by
  obtain ⟨as, has, _, h, rfl⟩ := Language.mem_mul.1 hlead
  obtain ⟨_, rfl, more, -, rfl⟩ := Language.mem_mul.1 h
  show skipAll (as ++ ("line-length".toList ++ more) ++ cs) ≠ []
  rw [List.append_assoc, List.append_assoc, skipAll_append (isSpace_of_mem_run has)]
  simp

/-- The first setting of a text is a statement of its document. -/
structure Reached (s : String) (skipped lead digits tail : List Char) (header : List String)
    (root : Entries) : Prop where
  first : First s.toList skipped lead digits tail
  steps : Steps ⟨[], [], unmarked s.toList⟩ ⟨header, root, lead ++ (digits ++ tail)⟩

theorem exists_reading_of_statement (hlead : lead ∈ assignments)
    (hcs : cs.head?.any Text.isDecimal = true) (hne : skipAll (lead ++ cs) ≠ [])
    (h : Place.read ⟨header, root, lead ++ cs⟩ = some final) :
    ∃ v rest root', reading cs = some (.keyed ["line-length"] v, rest) ∧
      (Statement.keyed ["line-length"] v).apply header root = some root' ∧
      Place.read ⟨header, root', rest⟩ = some final := by
  obtain ⟨st, rest, root', hst, happly, hread⟩ := exists_statement_of_read h hne
  rw [statement_of_assignment hlead hcs] at hst
  obtain ⟨v, rfl⟩ := exists_keyed_of_reading hst
  exact ⟨v, rest, root', hst, happly, hread⟩

namespace Reached

/-- **With another text behind its lead the setting is reached in the same way.** -/
theorem read_eq (h : Reached s skipped lead digits tail header root) (cs : List Char) :
    Place.read ⟨[], [], unmarked (skipped ++ (lead ++ cs))⟩ = Place.read ⟨header, root, lead ++ cs⟩ := by
  have hlead := h.first.sets.lead_mem
  have hne : lead ++ (digits ++ tail) ≠ [] :=
    List.append_ne_nil_of_right_ne_nil _ (List.append_ne_nil_of_left_ne_nil h.first.sets.digits_ne_nil _)
  obtain ⟨front, hfront, hpassed⟩ := h.steps.exists_passed hne
  have hsame : front = unmarked skipped := by
    have htext := hfront
    dsimp only at htext
    rw [h.first.eq_append, unmarked_append (head?_lead hlead _)] at htext
    exact (List.append_cancel_right htext).symm
  rw [unmarked_append (head?_lead hlead cs), ← hsame]
  exact (hpassed (lead ++ cs)).read_eq

/-- What a setting says in a document. -/
theorem exists_reading (h : Reached s skipped lead digits tail header root)
    (hold : Place.read ⟨[], [], unmarked s.toList⟩ = some old) :
    lead ∈ assignments ∧ (∀ d ∈ digits, d.isDigit = true) ∧
      ∃ v rest root', reading (digits ++ tail) = some (.keyed ["line-length"] v, rest) ∧
        (Statement.keyed ["line-length"] v).apply header root = some root' ∧
        Place.read ⟨header, root', rest⟩ = some old := by
  have hsets := h.first.sets
  have hne := skipAll_lead_ne_nil hsets.lead_mem (digits ++ tail)
  rw [h.first.eq_append, h.read_eq] at hold
  obtain ⟨st, rest, -, hst, -, -⟩ := exists_statement_of_read hold hne
  have hlead := assignment_of_statement hsets.lead_mem (hst ▸ Option.some_ne_none _)
  obtain ⟨v, rest, root', hv, happly, hread⟩ := exists_reading_of_statement hlead
    (Text.head?_any_append hsets.digits_ne_nil hsets.isDecimal tail) hne hold
  exact ⟨hlead, isDigit_of_reading hsets.isDecimal (hv ▸ Option.some_ne_none _), v, rest, root', hv,
    happly, hread⟩

theorem exists_reading_toDigits (h : Reached s skipped lead digits tail header root)
    (hlead : lead ∈ assignments)
    (hfinal : Place.read ⟨[], [], unmarked (skipped ++ (lead ++ (Nat.toDigits 10 n ++ tail)))⟩ =
      some final) :
    ∃ v rest root', reading (Nat.toDigits 10 n ++ tail) = some (.keyed ["line-length"] v, rest) ∧
      (Statement.keyed ["line-length"] v).apply header root = some root' ∧
      Place.read ⟨header, root', rest⟩ = some final := by
  rw [h.read_eq] at hfinal
  exact exists_reading_of_statement hlead (head?_toDigits n tail)
    (skipAll_lead_ne_nil h.first.sets.lead_mem _) hfinal

/-- In the root table the number is exchanged, and nothing else. -/
theorem read_exchanged {v : Toml} (h : Reached s skipped lead digits tail [] root)
    (hlead : lead ∈ assignments) (hnone : Entries.get? "line-length" root = none)
    (hread : Place.read ⟨[], Entries.put "line-length" (.value v) root, rest⟩ = some old)
    (hint : reading (Nat.toDigits 10 n ++ tail) = some (.keyed ["line-length"] (.int n), rest)) :
    Place.read ⟨[], [], unmarked (skipped ++ (lead ++ (Nat.toDigits 10 n ++ tail)))⟩ =
      some (Entries.put "line-length" (.value (.int n)) old) := by
  have hstatement : statement (skipAll (lead ++ (Nat.toDigits 10 n ++ tail))) =
      some (.keyed ["line-length"] (.int n), rest) := by
    rw [statement_of_assignment hlead (head?_toDigits n tail), hint]
  have happly : (Statement.keyed ["line-length"] (.int n)).apply [] root =
      some (Entries.put "line-length" (.value (.int n)) root) := by
    rw [apply_keyed_root, if_pos hnone]
  obtain ⟨sts, hsts⟩ := exists_run hread
  rw [hsts] at hread
  rw [h.read_eq, (Step.statement hstatement happly).read_eq]
  show Place.read ⟨[], _, rest⟩ = _
  rw [hsts, ← Entries.put_put "line-length" (.value v), run_put_value Entries.get?_put_self, hread]
  rfl

end Reached

/-- **Another number in a setting of the root table aligns a document** if nothing of a scalar goes on
behind the digits, and never else. -/
theorem aligned_at_root_iff (hn : n < twoTo 63) (hdocument : Toml.ofText? s = some document)
    (h : Reached s skipped lead digits tail [] root) (hdiffer : natural32? digits ≠ some n) :
    Aligned n document (String.ofList (skipped ++ (lead ++ (Nat.toDigits 10 n ++ tail)))) ↔
      tail.head?.all fun c => !isScalarChar c := by
  obtain ⟨old, hold, rfl⟩ := exists_read_of_ofText? hdocument
  obtain ⟨hlead, hdigits, v, rest, root', hv, happly, hread⟩ := h.exists_reading hold
  rw [← reading_toDigits_iff hn h.first.sets.digits_ne_nil hdigits h.first.sets.tail_head hv hdiffer,
    aligned_iff, String.toList_ofList]
  rw [apply_keyed_root] at happly
  obtain ⟨hnone, heq⟩ := Option.ite_none_right_eq_some.1 happly
  cases heq
  constructor
  · rintro ⟨final, hfinal, hlength, -⟩
    obtain ⟨w, rest', root'', hw, happly', hread'⟩ := h.exists_reading_toDigits hlead hfinal
    rw [apply_keyed_root, if_pos hnone] at happly'
    cases happly'
    obtain ⟨sts', hsts'⟩ := exists_run hread'
    rw [hsts'] at hread'
    rw [get?_run_of_value hread' Entries.get?_put_self] at hlength
    cases hlength
    cases rest_eq_of_reading hdigits (fun _ => Text.isDigit_of_mem_toDigits) hv hw
    exact hw
  · intro hint
    refine ⟨_, h.read_exchanged hlead hnone hread hint, Entries.get?_put_self, fun name hname => ?_⟩
    rw [Entries.get?_put_of_ne hname, get?_table_closedEntries]

/-- **Below a header no setting aligns a document** that does not have the line length already. -/
theorem of_aligned_below (hdocument : Toml.ofText? s = some document)
    (h : Reached s skipped lead digits tail header root) (hheader : header ≠ [])
    (haligned : Aligned n document (String.ofList (skipped ++ (lead ++ (Nat.toDigits 10 n ++ tail))))) :
    document.get? "line-length" = some (.int n) := by
  obtain ⟨old, hold, rfl⟩ := exists_read_of_ofText? hdocument
  obtain ⟨hlead, hdigits, v, rest, root', hv, happly, hread⟩ := h.exists_reading hold
  rw [aligned_iff, String.toList_ofList] at haligned
  obtain ⟨final, hfinal, hlength, -⟩ := haligned
  obtain ⟨w, rest', root'', hw, happly', hread'⟩ := h.exists_reading_toDigits hlead hfinal
  cases rest_eq_of_reading hdigits (fun _ => Text.isDigit_of_mem_toDigits) hv hw
  obtain ⟨sts, hsts⟩ := exists_run hread
  rw [hsts] at hread hread'
  have halike := (Alike.of_keyed hheader happly happly').run hread hread'
  rw [get?_table_closedEntries, halike.get?_eq_value_iff.2 hlength]
  rfl

/-! ### The suggestion -/

/-- When a text is aligned with which a configuration ends that held a document. -/
structure AlignedWhen (n : Nat) (s : String) (document : Toml) (text : String) : Prop where
  no_setting : settingPattern.find? s.toList = none → (Aligned n document text ↔
    s.toList.head? ≠ some '\ufeff' ∧ document.get? "line-length" = none)
  same_number : ∀ skipped lead digits tail, First s.toList skipped lead digits tail →
    natural32? digits = some n →
    (Aligned n document text ↔ document.get? "line-length" = some (.int n))
  at_root : ∀ skipped lead digits tail root, Reached s skipped lead digits tail [] root →
    natural32? digits ≠ some n →
    (Aligned n document text ↔ tail.head?.all fun c => !isScalarChar c)
  below : ∀ skipped lead digits tail header root, Reached s skipped lead digits tail header root →
    header ≠ [] → natural32? digits ≠ some n → Aligned n document text →
    document.get? "line-length" = some (.int n)

theorem aligned_same_iff (hdocument : Toml.ofText? s = some document) :
    Aligned n document s ↔ document.get? "line-length" = some (.int n) := by
  constructor
  · rintro ⟨after, htext, hlength, -⟩
    rw [hdocument] at htext
    cases htext
    exact hlength
  · exact fun hlength => ⟨document, hdocument, hlength, fun _ _ => rfl⟩

theorem alignedWhen_getD (hn : n < twoTo 63) (hdocument : Toml.ofText? s = some document) :
    AlignedWhen n s document ((withLineLength? n (some s)).getD s) where
  no_setting hnone := by
    rw [withLineLength?_of_none hnone]
    exact aligned_put_in_front_iff hn hdocument
  same_number skipped lead digits tail hfirst hsame := by
    rw [withLineLength?_of_first hfirst, if_pos hsame]
    exact aligned_same_iff hdocument
  at_root skipped lead digits tail root h hdiffer := by
    rw [withLineLength?_of_first h.first, if_neg hdiffer]
    exact aligned_at_root_iff hn hdocument h hdiffer
  below skipped lead digits tail header root h hheader hdiffer := by
    rw [withLineLength?_of_first h.first, if_neg hdiffer]
    exact of_aligned_below hdocument h hheader

theorem optionalText_eq_some {tree : Entry} {path : String}
    (h : optionalText tree path = .ok (some s)) : tree.readText path = .ok s := by
  rw [optionalText] at h
  split at h
  · next heq =>
    cases h
    exact heq
  · cases h
  · cases h

/-- One suggestion that was written for a file that could be read or is new. -/
theorem readText_apply_one {tree : Entry} {root : String} {before : Option String} {new : Suggestion}
    (hname : Path.IsName new.path)
    (hroot : ".." ∈ Path.steps root → tree.isFolderAt (Path.steps root) = true)
    (hbefore : optionalText tree (Path.join root new.path) = .ok before)
    (hwritten : (apply tree root [new]).failure = none) :
    (apply tree root [new]).tree.readText (Path.join root new.path) = .ok new.after := by
  have hread : ∀ s ∈ [new], ∀ error, tree.readText (Path.join root s.path) = .error error →
      error = .notFound :=
    List.forall_mem_singleton.2 fun error => optionalText_eq_ok hbefore
  have happlied := applied_apply hroot (List.forall_mem_singleton.2 hname) (List.nodup_singleton _) hread
    hwritten
  exact happlied.written new List.mem_cons_self

/-- The text that a configuration ends with. -/
theorem exists_readText {tree : Entry} {root : String} {r : Rule} {before : Option String}
    (hid : r.id = "PY-FMT-001") (hlength : lineLength? r = some n)
    (hroot : ".." ∈ Path.steps root → tree.isFolderAt (Path.steps root) = true)
    (hbefore : optionalText tree (Path.join root ruffFile) = .ok before) :
    ∃ o, forRule tree root r = .ok o ∧ ((apply tree root o.toList).failure = none →
      ∃ text, (withLineLength? n before).or before = some text ∧
        (apply tree root o.toList).tree.readText (Path.join root ruffFile) = .ok text) := by
  have htarget : target? r = some ruffFile := by rw [target?, if_pos hid, hlength, Option.map_some]
  have hrevised : revised? r before = withLineLength? n before := by
    rw [revised?, if_pos hid, hlength, Option.bind_some]
  obtain ⟨description, hrule⟩ := @forRule_of_target? root ruffFile r htarget
  refine ⟨(withLineLength? n before).map fun text => ⟨r.id, ruffFile, description, before, text⟩, ?_, ?_⟩
  · rw [hrule, hbefore, ← hrevised]
    rfl
  intro hwritten
  cases htext : withLineLength? n before with
  | none =>
      cases before with
      | none => cases htext
      | some s => exact ⟨s, rfl, optionalText_eq_some hbefore⟩
  | some text =>
      rw [htext] at hwritten
      exact ⟨text, rfl, readText_apply_one isName_ruffFile hroot hbefore hwritten⟩

/-- **What a suggestion makes of the configuration of the line length.** A new configuration is aligned
with the line length of its rule; one that is a document is so in the cases of `AlignedWhen`. -/
theorem line_length_alignment {tree : Entry} {root : String} {r : Rule} {before : Option String}
    (hid : r.id = "PY-FMT-001") (hlength : lineLength? r = some n)
    (hroot : ".." ∈ Path.steps root → tree.isFolderAt (Path.steps root) = true)
    (hbefore : optionalText tree (Path.join root ruffFile) = .ok before) :
    ∃ o, forRule tree root r = .ok o ∧ ((apply tree root o.toList).failure = none →
      ∃ text, (apply tree root o.toList).tree.readText (Path.join root ruffFile) = .ok text ∧
        (before = none → Aligned n (.table []) text) ∧
        ∀ s document, before = some s → Toml.ofText? s = some document →
          AlignedWhen n s document text) := by
  have hn : n < twoTo 63 := Nat.lt_of_lt_of_le (lineLength?_lt hlength) (by decide)
  obtain ⟨o, hrule, hwritten⟩ := exists_readText hid hlength hroot hbefore
  refine ⟨o, hrule, fun h => ?_⟩
  obtain ⟨text, htext, hread⟩ := hwritten h
  refine ⟨text, hread, ?_, ?_⟩
  · rintro rfl
    cases htext
    exact aligned_new hn
  · rintro s document rfl hdocument
    have heq : text = (withLineLength? n (some s)).getD s := by
      cases hnew : withLineLength? n (some s) <;> rw [hnew] at htext <;> cases htext <;> rfl
    rw [heq]
    exact alignedWhen_getD hn hdocument

/-! ### Configurations with a number -/

/-- Python code is formatted with lines of 88 characters. -/
def blackRule : Rule :=
  { formatRule with statement := "Python code MUST be formatted by Black with line length 88." }

/-- A tree with a configuration of the line length. -/
def configuredTree (text : String) : Entry := .folder [("ruff.toml", .file text.toUTF8)]

theorem ofText?_narrow :
    Toml.ofText? "line-length = 79\n" = some (.table [("line-length", .int 79)]) := by
  have htext : "line-length = 79\n" = "line-length = " ++ toString 79 ++ "\n" := by decide
  rw [htext]
  exact ofText?_new (by decide)

theorem reached_narrow : Reached "line-length = 79\n" [] "line-length = ".toList "79".toList "\n".toList
    [] [] := by
  have htext : "line-length = 79\n" = "line-length = " ++ toString 79 ++ "\n" ++ "" := by decide
  have hdigits : "79".toList = Nat.toDigits 10 79 := by decide
  refine ⟨?_, .refl _⟩
  rw [htext, hdigits]
  exact first_of_new 79 ""

theorem line_length_alignment_narrow :
    lineLength? blackRule = some 88 ∧
      optionalText (configuredTree "line-length = 79\n") (Path.join "." ruffFile) =
        .ok (some "line-length = 79\n") ∧
      ∃ s, forRule (configuredTree "line-length = 79\n") "." blackRule = .ok (some s) ∧
        (apply (configuredTree "line-length = 79\n") "." [s]).failure = none ∧
        ∃ text, (apply (configuredTree "line-length = 79\n") "." [s]).tree.readText
            (Path.join "." ruffFile) = .ok text ∧
          Aligned 88 (.table [("line-length", .int 79)]) text := by
  have hlength : lineLength? blackRule = some 88 := by decide
  have hbefore : optionalText (configuredTree "line-length = 79\n") (Path.join "." ruffFile) =
      .ok (some "line-length = 79\n") := Store.eq_ok_of_toOption (by decide)
  have hrule : forRule (configuredTree "line-length = 79\n") "." blackRule =
      .ok (some ⟨"PY-FMT-001", ruffFile, "Align ruff line-length with Black (88)",
        some "line-length = 79\n", "line-length = 88\n"⟩) := Store.eq_ok_of_toOption (by decide)
  have hwritten : (apply (configuredTree "line-length = 79\n") "." [⟨"PY-FMT-001", ruffFile,
      "Align ruff line-length with Black (88)", some "line-length = 79\n",
      "line-length = 88\n"⟩]).failure = none := by decide +kernel
  obtain ⟨o, ho, halign⟩ := line_length_alignment (r := blackRule) rfl hlength
    (fun _ => by decide) hbefore
  rw [hrule] at ho
  cases ho
  obtain ⟨text, hread, -, hwhen⟩ := halign hwritten
  refine ⟨hlength, hbefore, _, hrule, hwritten, text, hread, ?_⟩
  exact ((hwhen _ _ rfl ofText?_narrow).at_root _ _ _ _ _ reached_narrow (by decide)).2 rfl

/-- Of a number in another base only the first digit is exchanged, and the configuration is no document
any more. -/
theorem line_length_base_breaks :
    lineLength? blackRule = some 88 ∧ (Toml.ofText? "line-length = 0x4F\n").isSome = true ∧
      ∃ s, forRule (configuredTree "line-length = 0x4F\n") "." blackRule = .ok (some s) ∧
        (apply (configuredTree "line-length = 0x4F\n") "." [s]).failure = none ∧
        (apply (configuredTree "line-length = 0x4F\n") "." [s]).tree.readText (Path.join "." ruffFile) =
          .ok "line-length = 88x4F\n" ∧
        Toml.ofText? "line-length = 88x4F\n" = none := by
  refine ⟨by decide +kernel, by decide +kernel, ⟨"PY-FMT-001", ruffFile,
    "Align ruff line-length with Black (88)", some "line-length = 0x4F\n", "line-length = 88x4F\n"⟩,
    Store.eq_ok_of_toOption (by decide +kernel), by decide +kernel,
    Store.eq_ok_of_toOption (by decide +kernel), Option.isNone_iff_eq_none.1 (by decide +kernel)⟩

end StyleContract.Suggestion
