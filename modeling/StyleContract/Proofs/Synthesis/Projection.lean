import StyleContract.Proofs.Contract.Conformity
import StyleContract.Proofs.Contract.Place
import StyleContract.Proofs.Synthesis.Table

/-!
# Proofs — Synthesis — Projection

**Rules from signals are sound** (`sound_of_mem_project`), for the built-in table and signals with a
path. Each row of the table gives one rule with texts of its own, and all of them rest on the place
of the signal; `Rule.sound_of_signal` is what they have in common.

**Rules of one id come from signals of one kind** (`Projector.kind_eq_of_ruleOf?`).
-/

namespace StyleContract

theorem trim_append_ne_empty {s t : String} (h : Text.trim s ≠ "") : Text.trim (s ++ t) ≠ "" := by
  rw [trim_ne_empty_iff] at h ⊢
  obtain ⟨c, hc, hblank⟩ := h
  exact ⟨c, by simp [hc], hblank⟩

theorem trim_ne_empty_of_first {c : Char} {cs : List Char} (h : Text.isBlank c = false) :
    Text.trim (String.ofList (c :: cs)) ≠ "" :=
  trim_ne_empty_iff.2 ⟨c, by simp, by simp [h]⟩

section

variable {s : Signal} {r : Rule}

/-- A rule that rests on the place of one signal. -/
theorem Rule.sound_of_signal {id title statement : String} {rationale : Option String}
    {scope languages relatedRules : List String} {severity : Severity} {confidence : Float}
    {autofix : Option Autofix} (hpath : s.path ≠ "") (hid : isId id = true)
    (htitle : Text.trim title ≠ "") (hstatement : Text.trim statement ≠ "")
    (hscope : scope ≠ [] ∧ ∀ p ∈ scope, p ≠ "") (hconfidence : isConfidence confidence = true)
    (hautofix : ∀ f, autofix = some f → f.kind ≠ "" ∧ f.details ≠ "") :
    Sound ⟨id, title, statement, rationale, scope, languages, severity, confidence, [s.evidence],
      autofix, relatedRules⟩ where
  problems_eq_nil :=
    problems_eq_nil_iff_fields.2 ⟨hid, htitle, hstatement, hscope, hconfidence,
      ⟨List.cons_ne_nil _ _, List.forall_mem_singleton.2
        ⟨hpath, placeHash_ne_empty s.path s.lines⟩⟩, hautofix⟩
  anchored := List.forall_mem_singleton.2 (Evidence.anchored_at s.path s.lines)

theorem sound_of_black (hpath : s.path ≠ "") (h : Projection.black s = some r) : r.Sound := by
  obtain ⟨n, -, rfl⟩ := Option.map_eq_some_iff.1 h
  have htitle : Text.trim ("Black formatting at line length " ++ toString n) ≠ "" :=
    trim_append_ne_empty (trim_ne_empty_of_first (by decide))
  have hstatement : Text.trim ("Python code MUST be formatted with Black using a line length of " ++
      toString n ++ ".") ≠ "" :=
    trim_append_ne_empty (trim_append_ne_empty (trim_ne_empty_of_first (by decide)))
  refine Rule.sound_of_signal hpath (by decide) htitle hstatement (by decide) (by decide) ?_
  rintro f ⟨⟩
  simp [Projection.commandFix]

theorem sound_of_strict (hpath : s.path ≠ "") (h : Projection.strict s = some r) : r.Sound := by
  rw [Projection.strict, Option.ite_none_right_eq_some] at h
  obtain ⟨-, ⟨⟩⟩ := h
  exact Rule.sound_of_signal hpath (by decide) (trim_ne_empty_of_first (by decide))
    (trim_ne_empty_of_first (by decide)) (by decide) (by decide) (by simp)

theorem sound_of_exportedAny (hpath : s.path ≠ "") (h : Projection.exportedAny s = some r) :
    r.Sound := by
  obtain ⟨n, -, rfl⟩ := Option.map_eq_some_iff.1 h
  exact Rule.sound_of_signal hpath (by decide) (trim_ne_empty_of_first (by decide))
    (trim_ne_empty_of_first (by decide)) (by decide) (by decide) (by simp)

theorem sound_of_prettier (hpath : s.path ≠ "") (h : Projection.prettier s = some r) :
    r.Sound := by
  rw [Projection.prettier, Option.ite_none_right_eq_some] at h
  obtain ⟨-, ⟨⟩⟩ := h
  refine Rule.sound_of_signal hpath (by decide) (trim_ne_empty_of_first (by decide))
    (trim_ne_empty_of_first (by decide)) (by decide) (by decide) ?_
  rintro f ⟨⟩
  exact ⟨by decide, by decide⟩

theorem sound_of_typing (hpath : s.path ≠ "") (h : Projection.typing s = some r) : r.Sound := by
  rw [Projection.typing, Option.ite_none_right_eq_some] at h
  obtain ⟨-, ⟨⟩⟩ := h
  exact Rule.sound_of_signal hpath (by decide) (trim_ne_empty_of_first (by decide))
    (trim_ne_empty_of_first (by decide)) (by decide) (by decide) (by simp)

theorem sound_of_pytest (hpath : s.path ≠ "") (h : Projection.pytest s = some r) : r.Sound := by
  rw [Projection.pytest, Option.ite_none_right_eq_some] at h
  obtain ⟨-, ⟨⟩⟩ := h
  exact Rule.sound_of_signal hpath (by decide) (trim_ne_empty_of_first (by decide))
    (trim_ne_empty_of_first (by decide)) (by decide) (by decide) (by simp)

/-- Every row of the built-in table gives sound rules. -/
theorem sound_of_mem_table {row : Projection} (hrow : row ∈ Projection.table)
    (hpath : s.path ≠ "") (h : row.rule? s = some r) : r.Sound := by
  simp only [Projection.table, List.mem_cons, List.not_mem_nil, or_false] at hrow
  rcases hrow with rfl | rfl | rfl | rfl | rfl | rfl
  · exact sound_of_black hpath h
  · exact sound_of_strict hpath h
  · exact sound_of_exportedAny hpath h
  · exact sound_of_prettier hpath h
  · exact sound_of_typing hpath h
  · exact sound_of_pytest hpath h

/-- A rule has the id of its row, and rests on the signal that it follows from. -/
theorem rule_of_mem_table {row : Projection} (hrow : row ∈ Projection.table)
    (h : row.rule? s = some r) : r.id = row.ruleId ∧ r.evidence = [s.evidence] := by
  simp only [Projection.table, List.mem_cons, List.not_mem_nil, or_false] at hrow
  rcases hrow with rfl | rfl | rfl | rfl | rfl | rfl
  · obtain ⟨_, -, rfl⟩ := Option.map_eq_some_iff.1 h
    exact ⟨rfl, rfl⟩
  · obtain ⟨-, ⟨⟩⟩ := Option.ite_none_right_eq_some.1 h
    exact ⟨rfl, rfl⟩
  · obtain ⟨_, -, rfl⟩ := Option.map_eq_some_iff.1 h
    exact ⟨rfl, rfl⟩
  · obtain ⟨-, ⟨⟩⟩ := Option.ite_none_right_eq_some.1 h
    exact ⟨rfl, rfl⟩
  · obtain ⟨-, ⟨⟩⟩ := Option.ite_none_right_eq_some.1 h
    exact ⟨rfl, rfl⟩
  · obtain ⟨-, ⟨⟩⟩ := Option.ite_none_right_eq_some.1 h
    exact ⟨rfl, rfl⟩

end

namespace Projector

variable {s t : Signal} {r q : Rule}

theorem exists_row_of_ruleOf? (h : standard.ruleOf? s = some r) :
    ∃ row ∈ Projection.table, row.kind = s.kind ∧ row.rule? s = some r := by
  rw [ruleOf?_eq, rows_standard] at h
  obtain ⟨row, hfind, hrule⟩ := Option.bind_eq_some_iff.1 h
  exact ⟨row, List.mem_of_find?_eq_some hfind, by simpa using List.find?_some hfind, hrule⟩

/-- **Rules of one id come from signals of one kind.** -/
theorem kind_eq_of_ruleOf? (hs : standard.ruleOf? s = some r) (ht : standard.ruleOf? t = some q)
    (hid : r.id = q.id) : s.kind = t.kind := by
  obtain ⟨row, hrow, hkind, hrule⟩ := exists_row_of_ruleOf? hs
  obtain ⟨row', hrow', hkind', hrule'⟩ := exists_row_of_ruleOf? ht
  have htable : ∀ a ∈ Projection.table, ∀ b ∈ Projection.table,
      a.ruleId = b.ruleId → a.kind = b.kind := by decide
  rw [(rule_of_mem_table hrow hrule).1, (rule_of_mem_table hrow' hrule').1] at hid
  rw [← hkind, ← hkind', htable row hrow row' hrow' hid]

/-- **A rule from a signal** has the id of the row of its kind, and rests on the place of the signal. -/
theorem exists_signal_of_mem_project {signals : List Signal} (h : r ∈ standard.project signals) :
    ∃ s ∈ signals, ∃ row ∈ Projection.table, row.kind = s.kind ∧ r.id = row.ruleId ∧
      r.evidence = [s.evidence] := by
  obtain ⟨s, hs, hr⟩ := List.mem_filterMap.1 h
  obtain ⟨row, hrow, hkind, hrule⟩ := exists_row_of_ruleOf? hr
  exact ⟨s, hs, row, hrow, hkind, rule_of_mem_table hrow hrule⟩

/-- The rules of an id are those of the signals that give the id. -/
theorem filter_project (p : Projector) (signals : List Signal) (id : String) :
    (p.project signals).filter (·.id == id) =
      p.project (signals.filter fun s => (p.ruleOf? s).any (·.id == id)) := by
  rw [project, project, List.filter_filterMap, List.filterMap_filter]
  refine List.filterMap_congr fun s _ => ?_
  cases p.ruleOf? s with
  | none => rfl
  | some r => simp [Option.filter]

end Projector

/-- The kinds of signals that a projector has a row for. -/
def Projector.kinds (p : Projector) : List String := p.rows.map (·.kind)

/-- **Rules from signals are sound**, if the signals that a rule may rest on have a path. -/
theorem sound_of_mem_project {signals : List Signal} {r : Rule}
    (hpath : ∀ s ∈ signals, s.kind ∈ Projector.standard.kinds → s.path ≠ "")
    (h : r ∈ Projector.standard.project signals) : r.Sound := by
  obtain ⟨s, hs, hr⟩ := List.mem_filterMap.1 h
  obtain ⟨row, hrow, hkind, hrule⟩ := Projector.exists_row_of_ruleOf? hr
  exact sound_of_mem_table hrow (hpath s hs (hkind ▸ List.mem_map_of_mem hrow)) hrule

end StyleContract
