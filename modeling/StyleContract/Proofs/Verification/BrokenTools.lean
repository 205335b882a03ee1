import StyleContract.Proofs.Verification.Verdicts

/-!
# Proofs — Verification — Broken tools

What becomes of a check if some commands that succeeded cannot run at all any more, and all others end as
they did (`Breaks`). A rule of several commands is decided by the worst of them, and that a command could
not run is taken for worse than that one failed. So **a failing rule keeps failing only if it needs none
of the commands that broke** (`statusBy_eq_fail_of_breaks_iff`); else it counts as one that could not be
verified (`statusBy_of_breaks`), never as one that passes. Violations are kept with the rules that keep
failing, and lost with the last of them: `violations_of_breaks`.
-/

namespace StyleContract.Verification

variable {σ τ : Type} {run : Runner σ} {run' : Runner τ} {code code' : String → Option Int}
  {commands : List String}

/-- Some commands that succeeded cannot run at all any more. All others end as before. -/
def Breaks (code code' : String → Option Int) : Prop :=
  ∀ x, code' x = code x ∨ code x = some 0 ∧ CannotRun (code' x)

/-- The commands end with these exit codes, whenever they are run. -/
def Runner.Ends (run : Runner σ) (code : String → Option Int) : Prop :=
  ∀ command s, ((run command).run s).1.exitCode = code command

theorem Runner.Ends.exits (h : run.Ends code) (commands : List String) (s : σ) :
    Exits code (run.calls commands s) := by
  induction commands generalizing s with
  | nil => exact fun k hk => (List.not_mem_nil hk).elim
  | cons command commands ih =>
      exact List.forall_mem_cons.2 ⟨h command s, ih ((run command).run s).2⟩

/-! ### One rule -/

theorem statusBy_congr (h : ∀ x ∈ commands, code' x = code x) :
    statusBy code' commands = statusBy code commands := by
  have hexists (P : Option Int → Prop) : (∃ x ∈ commands, P (code' x)) ↔ ∃ x ∈ commands, P (code x) :=
    exists_congr fun x => and_congr_right fun hx => by rw [h x hx]
  rw [statusBy, statusBy, if_congr (hexists CannotRun) rfl rfl, if_congr (hexists (· ≠ some 0)) rfl rfl]

/-- **A rule fails after some commands broke** if it failed before and needs none of them. -/
theorem statusBy_eq_fail_of_breaks_iff (h : Breaks code code') :
    statusBy code' commands = .fail ↔
      statusBy code commands = .fail ∧ ∀ x ∈ commands, code' x = code x := by
  constructor
  · intro hfail
    have hsame : ∀ x ∈ commands, code' x = code x := fun x hx =>
      (h x).resolve_right fun hbroken => (statusBy_eq_fail_iff.1 hfail).1 x hx hbroken.2
    exact ⟨statusBy_congr hsame ▸ hfail, hsame⟩
  · rintro ⟨hfail, hsame⟩
    exact (statusBy_congr hsame).trans hfail

/-- **A failing rule is not taken for one that passes**: if a command broke, it counts as one that could
not be verified. -/
theorem statusBy_of_breaks (h : Breaks code code') (hfail : statusBy code commands = .fail) :
    statusBy code' commands = if ∀ x ∈ commands, code' x = code x then .fail else .error := by
  split
  · next hsame => exact (statusBy_eq_fail_of_breaks_iff h).2 ⟨hfail, hsame⟩
  · next hnot =>
    obtain ⟨x, hx, hne⟩ : ∃ x ∈ commands, code' x ≠ code x := by simpa using hnot
    exact statusBy_eq_error_iff.2 ⟨x, hx, ((h x).resolve_left hne).2⟩

/-! ### All rules -/

theorem status_check (hnamed : run.Named) (hends : run.Ends code) {c : Contract} {r : Rule}
    (hr : r ∈ c.rules) (s : σ) :
    (ruleCheck ((callsOf run c s).map Call.result) r).status = statusBy code (commandsOf r) :=
  (complete_callsOf hnamed c s).status_ruleCheck (hends.exits _ s) hr

/-- **What breaking some commands does to a check.** The rules that failed still fail, but for those that
need one of the commands, which could not be verified now; there are violations if one of the former
counts. -/
theorem violations_of_breaks (hnamed : run.Named) (hnamed' : run'.Named) (hends : run.Ends code)
    (hends' : run'.Ends code') (hbreaks : Breaks code code') (c : Contract) (failOn : FailOn) (s : σ)
    (t : τ) :
    let before := ((check c failOn run).run s).1
    let after := ((check c failOn run').run t).1
    List.Forall₂ (fun entry entry' => entry'.id = entry.id ∧ (entry.status = .fail →
        entry'.status = if ∀ x ∈ entry.commands, code' x = code x then .fail else .error))
      before.rules after.rules ∧
    (after.hasViolations = true ↔ ∃ entry ∈ before.rules, entry.status = .fail ∧
      failOn.counts entry.severity = true ∧ ∀ x ∈ entry.commands, code' x = code x) := by
  simp only [check_eq]
  constructor
  · simp only [report, List.forall₂_map_left_iff, List.forall₂_map_right_iff, List.forall₂_same]
    refine fun r hr => ⟨rfl, fun hfail => ?_⟩
    rw [status_check hnamed hends hr] at hfail
    rw [status_check hnamed' hends' hr]
    exact statusBy_of_breaks hbreaks hfail
  · simp only [report, violates, List.any_map, List.any_eq_true, List.mem_map, exists_exists_and_eq_and,
      Function.comp_apply, Bool.and_eq_true, decide_eq_true_eq]
    refine exists_congr fun r => and_congr_right fun hr => ?_
    rw [status_check hnamed hends hr, status_check hnamed' hends' hr,
      statusBy_eq_fail_of_breaks_iff hbreaks, and_assoc]
    exact and_congr_right fun _ => and_comm

/-! ### A missing compiler -/

/-- Gives each command the exit code that it has in a table. -/
def answering (code : String → Option Int) : Runner Unit := fun command =>
  pure ⟨command, code command, 0, "", ""⟩

theorem named_answering (code : String → Option Int) : (answering code).Named := fun _ _ => rfl

theorem ends_answering (code : String → Option Int) : (answering code).Ends code := fun _ _ => rfl

/-- The linter and the formatter complain. -/
def complaints (command : String) : Option Int :=
  if command = "eslint . --max-warnings 0" ∨ command = "black --check ." then some 1 else some 0

/-- The same, without the compiler. -/
def complaintsAlone (command : String) : Option Int :=
  if command = "tsc -p tsconfig.json --noEmit" then some 127 else complaints command

theorem breaks_complaints : Breaks complaints complaintsAlone := by
  intro command
  rw [complaintsAlone]
  split
  · next h =>
    subst h
    exact .inr ⟨rfl, .inr rfl⟩
  · exact .inl rfl

/-- A contract of one rule that the compiler and the linter verify. -/
def typesContract : Contract where
  schemaVersion := "1.0"
  repo := ⟨none, "0"⟩
  generatedAt := ⟨1483228799, 0⟩
  rules := [ruleOf "TS-TYPE-003" .error]

/-- The same, with a rule that the formatter verifies. -/
def formattedContract : Contract :=
  { typesContract with rules := [ruleOf "TS-TYPE-003" .error, ruleOf "PY-FMT-001" .error] }

theorem violations_of_breaks_formatted :
    Breaks complaints complaintsAlone ∧
      (((check formattedContract .error (answering complaints)).run ()).1.rules.map (·.status)) =
        [.fail, .fail] ∧
      (((check formattedContract .error (answering complaintsAlone)).run ()).1.rules.map (·.status)) =
        [.error, .fail] ∧
      ((check formattedContract .error (answering complaintsAlone)).run ()).1.hasViolations = true := by
  have hboth := violations_of_breaks (named_answering complaints) (named_answering complaintsAlone)
    (ends_answering complaints) (ends_answering complaintsAlone) breaks_complaints formattedContract
    .error () ()
  refine ⟨breaks_complaints, by decide, by decide, hboth.2.2 ?_⟩
  exact ⟨_, List.mem_cons_of_mem _ List.mem_cons_self, by decide, by decide,
    by decide⟩

/-- The linter complains, and the rule fails. Without the compiler, which had nothing to complain about,
the linter still complains and there are no violations. -/
theorem missing_compiler_hides_complaint :
    Breaks complaints complaintsAlone ∧
      ((check typesContract .error (answering complaints)).run ()).1.hasViolations = true ∧
      ((check typesContract .error (answering complaintsAlone)).run ()).1.hasViolations = false :=
  ⟨breaks_complaints, by decide, by decide⟩

end StyleContract.Verification
