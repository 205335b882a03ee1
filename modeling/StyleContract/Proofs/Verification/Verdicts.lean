import Mathlib.Data.List.Forall2
import StyleContract.Proofs.Keyed
import StyleContract.Verification.Check

/-!
# Proofs — Verification — Verdicts

What a check says about a contract, whatever comes of running commands. A runner may answer each call as
it likes, also in view of those before; it only has to name in its result the command that it was given
(`Runner.Named`). Every command that some rule needs is then run once, in the order in which rules first
need them (`pairwise_canonical`), and `check_eq` is all that the check does with the results.

Commands are shared between rules and looked up by their text, where a command without a result would be
passed over in silence. None is: the list of what is run covers all commands of all rules
(`mem_outcomesOf_iff`), so that what is said about a rule is what the exit codes of its own commands say
(`Complete.judged`). **The exit codes decide**: `exit_codes_decide`.
-/

namespace StyleContract

namespace Verification

variable {σ τ : Type} {c : Contract} {failOn : FailOn} {r : Rule} {rules : List Rule}
  {commands : List String} {outcomes : List CommandResult}

/-! ### The order of the commands -/

/-- One command is among those that are needed up to some point, another one is not. -/
def Before (needed : List String) (x y : String) : Prop :=
  ∃ pre post, needed = pre ++ post ∧ x ∈ pre ∧ y ∉ pre

theorem pairwise_foldl_addNew {done todo acc : List String} (hmem : ∀ x, x ∈ acc ↔ x ∈ done)
    (h : acc.Pairwise (Before (done ++ todo))) :
    (todo.foldl addNew acc).Pairwise (Before (done ++ todo)) := by
  -- what is listed so far is what was needed so far, in this order
  induction todo generalizing done acc with
  | nil => exact h
  | cons x todo ih =>
      have hdone : done ++ x :: todo = (done ++ [x]) ++ todo := by simp
      rw [List.foldl_cons, hdone]
      refine ih (fun y => by simp [mem_addNew, hmem]) (hdone ▸ ?_)
      unfold addNew
      split
      · exact h
      · next hx =>
        refine List.pairwise_append.2 ⟨h, List.pairwise_singleton _ _, fun y hy z hz => ?_⟩
        rw [List.mem_singleton.1 hz]
        exact ⟨done, x :: todo, rfl, (hmem y).1 hy, fun hdone => hx ((hmem x).2 hdone)⟩

/-- **Commands are listed in the order in which rules first need them.** -/
theorem pairwise_canonical (rules : List Rule) :
    (canonical rules).Pairwise (Before (rules.flatMap commandsOf)) :=
  @pairwise_foldl_addNew [] (rules.flatMap commandsOf) [] (fun _ => Iff.rfl) .nil

/-! ### Runs -/

/-- A way to run commands. What comes of a command may depend on all that was done before. -/
abbrev Runner (σ : Type) := String → StateM σ CommandResult

namespace Runner

/-- Each result names the command that was run. -/
def Named (run : Runner σ) : Prop := ∀ command s, ((run command).run s).1.command = command

end Runner

/-- A command that was run, and what came of it. -/
structure Call where
  command : String
  result : CommandResult

/-- The runner, with a list of its calls. -/
def Runner.recorded (run : Runner σ) : Runner (σ × List Call) := fun command => do
  let (s, calls) ← get
  let (result, s') := (run command).run s
  set (s', calls ++ [⟨command, result⟩])
  pure result

/-- The calls of a run that takes some commands one after the other. -/
def Runner.calls (run : Runner σ) : List String → σ → List Call
  | [], _ => []
  | command :: commands, s =>
    ⟨command, ((run command).run s).1⟩ :: run.calls commands ((run command).run s).2

theorem commands_calls (run : Runner σ) (commands : List String) (s : σ) :
    (run.calls commands s).map Call.command = commands := by
  induction commands generalizing s with
  | nil => rfl
  | cons command commands ih => rw [Runner.calls, List.map_cons, ih]

theorem Runner.Named.of_mem_calls {run : Runner σ} (h : run.Named) {k : Call} {s : σ}
    (hk : k ∈ run.calls commands s) : k.result.command = k.command := by
  induction commands generalizing s with
  | nil => cases hk
  | cons command commands ih =>
      rcases List.mem_cons.1 hk with rfl | hk
      · exact h command s
      · exact ih hk

theorem run_mapM (run : Runner σ) (commands : List String) (s : σ) :
    ((commands.mapM run).run s).1 = (run.calls commands s).map Call.result := by
  induction commands generalizing s with
  | nil => rfl
  | cons command commands ih =>
      rw [List.mapM_cons]
      exact congrArg (((run command).run s).1 :: ·) (ih ((run command).run s).2)

/-- **Whatever comes of them, all commands are run**, and nothing else is. -/
theorem run_mapM_recorded (run : Runner σ) (commands : List String) (s : σ) (before : List Call) :
    (commands.mapM run.recorded).run (s, before) =
      (((commands.mapM run).run s).1, ((commands.mapM run).run s).2,
        before ++ run.calls commands s) := by
  induction commands generalizing s before with
  | nil => exact congrArg (fun calls => (([] : List CommandResult), s, calls)) (List.append_nil before).symm
  | cons command commands ih =>
      have hrest := ih ((run command).run s).2 (before ++ [⟨command, ((run command).run s).1⟩])
      rw [List.append_assoc, List.singleton_append] at hrest
      rw [List.mapM_cons, List.mapM_cons]
      exact congrArg (fun after => (((run command).run s).1 :: after.1, after.2)) hrest

variable {calls : List Call}

/-- The calls of a run that has left out none of the commands that rules need. -/
structure Complete (rules : List Rule) (calls : List Call) : Prop where
  commands : calls.map Call.command = canonical rules
  named : ∀ k ∈ calls, k.result.command = k.command

theorem Complete.mem_commands (h : Complete rules calls) {x : String} :
    x ∈ calls.map Call.command ↔ ∃ r ∈ rules, x ∈ commandsOf r := by
  rw [h.commands, mem_canonical]

/-- The calls of the check of a contract. -/
def callsOf (run : Runner σ) (c : Contract) (s : σ) : List Call := run.calls (canonical c.rules) s

theorem complete_callsOf {run : Runner σ} (h : run.Named) (c : Contract) (s : σ) :
    Complete c.rules (callsOf run c s) :=
  ⟨commands_calls run _ s, fun _ hk => h.of_mem_calls hk⟩

/-- **What a check does**: it runs the commands and reports what came of them. -/
theorem check_eq (run : Runner σ) (c : Contract) (failOn : FailOn) (s : σ) :
    ((check c failOn run).run s).1 = report c failOn ((callsOf run c s).map Call.result) :=
  congrArg (report c failOn) (run_mapM run (canonical c.rules) s)

/-- A list of the calls is all that keeping one adds. -/
theorem check_recorded (run : Runner σ) (c : Contract) (failOn : FailOn) (s : σ) :
    (check c failOn run.recorded).run (s, []) =
      (((check c failOn run).run s).1, ((check c failOn run).run s).2, callsOf run c s) :=
  congrArg (fun after : List CommandResult × σ × List Call => (report c failOn after.1, after.2))
    (run_mapM_recorded run (canonical c.rules) s [])

/-! ### One rule -/

/-- The exit code of a command that could not run at all. -/
def CannotRun (code : Option Int) : Prop := code = none ∨ code = some CommandResult.notFoundCode

instance (code : Option Int) : Decidable (CannotRun code) := inferInstanceAs (Decidable (_ ∨ _))

/-- The status of a rule by the exit codes of its commands. -/
def statusBy (code : String → Option Int) (commands : List String) : Status :=
  if commands = [] then .skipped
  else if ∃ x ∈ commands, CannotRun (code x) then .error
  else if ∃ x ∈ commands, code x ≠ some 0 then .fail
  else .pass

theorem isError_iff {o : CommandResult} : o.isError = true ↔ CannotRun o.exitCode := by
  simp [CommandResult.isError, CannotRun]

theorem succeeded_iff {o : CommandResult} : o.succeeded = true ↔ o.exitCode = some 0 := by
  simp [CommandResult.succeeded]

theorem status_verdict : (verdict commands outcomes).1 =
    if commands = [] then .skipped
    else if ∃ o ∈ outcomes, CannotRun o.exitCode then .error
    else if ∃ o ∈ outcomes, o.exitCode ≠ some 0 then .fail
    else .pass := by
  have herror : (outcomes.find? (·.isError)).isSome ↔ ∃ o ∈ outcomes, CannotRun o.exitCode := by
    simp only [List.find?_isSome, isError_iff]
  have hfail : (outcomes.find? fun o => !o.succeeded).isSome ↔
      ∃ o ∈ outcomes, o.exitCode ≠ some 0 := by
    simp only [List.find?_isSome, Bool.not_eq_true', ← succeeded_iff, ne_eq, Bool.not_eq_true]
  rw [verdict, ← if_congr herror rfl rfl, ← if_congr hfail rfl rfl]
  cases commands with
  | nil => rfl
  | cons command more =>
      rw [if_neg (List.cons_ne_nil command more)]
      cases outcomes.find? (·.isError) with
      | some o => rfl
      | none => cases outcomes.find? fun o => !o.succeeded <;> rfl

/-- What comes of the commands of a rule is what came of their calls: none of them is passed over. -/
theorem Complete.mem_outcomesOf_iff (h : Complete rules calls) {o : CommandResult} :
    o ∈ outcomesOf (calls.map Call.result) commands ↔
      ∃ k ∈ calls, k.command ∈ commands ∧ k.result = o := by
  have hkeys : ((calls.map Call.result).map (·.command)).Nodup := by
    have hcommand : ∀ k ∈ calls, ((·.command) ∘ Call.result) k = k.command := h.named
    rw [List.map_map, List.map_congr_left hcommand, h.commands]
    exact nodup_canonical rules
  rw [outcomesOf, List.mem_filterMap]
  constructor
  · rintro ⟨x, hx, hfind⟩
    obtain ⟨k, hk, rfl⟩ := List.mem_map.1 (List.mem_reverse.1 (List.mem_of_find?_eq_some hfind))
    have hcommand : k.result.command = x := by simpa using List.find?_some hfind
    exact ⟨k, hk, by rwa [← h.named k hk, hcommand], rfl⟩
  · rintro ⟨k, hk, hx, rfl⟩
    refine ⟨k.command, hx, ?_⟩
    rw [← h.named k hk]
    exact find?_reverse_of_nodup_keys hkeys (List.mem_map_of_mem hk)

/-- Each call ended with the exit code of its command. -/
def Exits (code : String → Option Int) (calls : List Call) : Prop :=
  ∀ k ∈ calls, k.result.exitCode = code k.command

/-- **The status of a rule is that by the exit codes of its own commands.** -/
theorem Complete.status_ruleCheck (h : Complete rules calls) {code : String → Option Int}
    (hcode : Exits code calls) (hr : r ∈ rules) :
    (ruleCheck (calls.map Call.result) r).status = statusBy code (commandsOf r) := by
  have hexists (P : Option Int → Prop) :
      (∃ o ∈ outcomesOf (calls.map Call.result) (commandsOf r), P o.exitCode) ↔
        ∃ x ∈ commandsOf r, P (code x) := by
    simp only [h.mem_outcomesOf_iff]
    constructor
    · rintro ⟨_, ⟨k, hk, hx, rfl⟩, hP⟩
      exact ⟨k.command, hx, hcode k hk ▸ hP⟩
    · rintro ⟨x, hx, hP⟩
      obtain ⟨k, hk, rfl⟩ := List.mem_map.1 (h.mem_commands.2 ⟨r, hr, hx⟩)
      exact ⟨k.result, ⟨k, hk, hx, rfl⟩, (hcode k hk).symm ▸ hP⟩
  show (verdict (commandsOf r) _).1 = _
  rw [status_verdict, statusBy, if_congr (hexists CannotRun) rfl rfl,
    if_congr (hexists (· ≠ some 0)) rfl rfl]

variable {code : String → Option Int}

theorem not_cannotRun_zero : ¬ CannotRun (some 0) := by decide

theorem statusBy_eq_skipped_iff : statusBy code commands = .skipped ↔ commands = [] := by
  unfold statusBy
  split
  · next h => simp [h]
  · next hne => split <;> [skip; split] <;> simp [hne]

theorem statusBy_eq_error_iff :
    statusBy code commands = .error ↔ ∃ x ∈ commands, CannotRun (code x) := by
  unfold statusBy
  split
  · next h => simp [h]
  · split
    · next h => simpa only [true_iff] using h
    · next h => split <;> simpa only [reduceCtorEq, false_iff] using h

theorem statusBy_eq_fail_iff :
    statusBy code commands = .fail ↔
      (∀ x ∈ commands, ¬ CannotRun (code x)) ∧ ∃ x ∈ commands, code x ≠ some 0 := by
  unfold statusBy
  split
  · next h => simp [h]
  · split
    · next h =>
      obtain ⟨x, hx, hcannot⟩ := h
      simp only [reduceCtorEq, false_iff]
      exact fun hboth => hboth.1 x hx hcannot
    · next h =>
      have hall : ∀ x ∈ commands, ¬ CannotRun (code x) := fun x hx hcannot => h ⟨x, hx, hcannot⟩
      split
      · next hfail => exact iff_of_true rfl ⟨hall, hfail⟩
      · next hfail => exact iff_of_false (by simp) fun hboth => hfail hboth.2

theorem statusBy_eq_pass_iff :
    statusBy code commands = .pass ↔ commands ≠ [] ∧ ∀ x ∈ commands, code x = some 0 := by
  unfold statusBy
  split
  · next h => simp [h]
  · next hne =>
    split
    · next h =>
      obtain ⟨x, hx, hcannot⟩ := h
      exact iff_of_false (by simp) fun hboth => not_cannotRun_zero (hboth.2 x hx ▸ hcannot)
    · split
      · next hfail =>
        obtain ⟨x, hx, hcode⟩ := hfail
        exact iff_of_false (by simp) fun hboth => hcode (hboth.2 x hx)
      · next hfail =>
        exact iff_of_true rfl ⟨hne, fun x hx => by_contra fun hcode => hfail ⟨x, hx, hcode⟩⟩

/-- What a report says about a rule, by the exit codes of its commands. -/
structure Judged (code : String → Option Int) (r : Rule) (entry : RuleCheck) : Prop where
  id : entry.id = r.id
  title : entry.title = r.title
  severity : entry.severity = r.severity
  commands : entry.commands = commandsOf r
  skipped_iff : entry.status = .skipped ↔ commandsOf r = []
  pass_iff : entry.status = .pass ↔ commandsOf r ≠ [] ∧ ∀ x ∈ commandsOf r, code x = some 0
  fail_iff : entry.status = .fail ↔
    (∀ x ∈ commandsOf r, ¬ CannotRun (code x)) ∧ ∃ x ∈ commandsOf r, ∃ n, code x = some n ∧ n ≠ 0
  error_iff : entry.status = .error ↔ ∃ x ∈ commandsOf r, CannotRun (code x)

theorem Complete.judged (h : Complete rules calls) (hcode : Exits code calls) (hr : r ∈ rules) :
    Judged code r (ruleCheck (calls.map Call.result) r) := by
  have hstatus := h.status_ruleCheck hcode hr
  refine ⟨rfl, rfl, rfl, rfl, ?_, ?_, ?_, ?_⟩ <;> rw [hstatus]
  · exact statusBy_eq_skipped_iff
  · exact statusBy_eq_pass_iff
  · rw [statusBy_eq_fail_iff]
    refine and_congr_right fun hall => exists_congr fun x => and_congr_right fun hx => ?_
    cases hcodex : code x with
    | none => exact absurd (.inl hcodex) (hall x hx)
    | some n => simp
  · exact statusBy_eq_error_iff

/-! ### All rules -/

/-- The exit code of a command in some calls. -/
def exitCode (calls : List Call) (x : String) : Option Int :=
  (calls.find? (·.command == x)).bind (·.result.exitCode)

theorem Complete.exits_exitCode (h : Complete rules calls) : Exits (exitCode calls) calls := by
  intro k hk
  have hkeys : (calls.map Call.command).Nodup := h.commands ▸ nodup_canonical rules
  rw [exitCode, find?_of_nodup_keys hkeys hk, Option.bind_some]

theorem violates_iff {entries : List RuleCheck} :
    violates failOn entries = true ↔ ∃ least, failOn.threshold? = some least ∧
      ∃ entry ∈ entries, entry.status = .fail ∧ least.rank ≤ entry.severity.rank := by
  cases hleast : failOn.threshold? <;> simp [violates, FailOn.counts, hleast]

/-- Calls of the same commands that ended alike end with the same exit codes. -/
theorem Complete.exits_of_codes_eq {others : List Call} (h : Complete rules calls)
    (hothers : Complete rules others)
    (hcodes : others.map (·.result.exitCode) = calls.map (·.result.exitCode)) :
    Exits (exitCode calls) others := by
  intro k hk
  have hpairs : others.map (fun k => (k.command, k.result.exitCode)) =
      calls.map fun k => (k.command, k.result.exitCode) := by
    rw [← List.zip_map', ← List.zip_map', hcodes, h.commands, hothers.commands]
  obtain ⟨k', hk', heq⟩ := List.mem_map.1 (hpairs ▸ List.mem_map_of_mem hk)
  obtain ⟨hcommand, hcode⟩ := Prod.mk.inj heq
  rw [← hcode, ← hcommand]
  exact h.exits_exitCode k' hk'

/-- **The exit codes decide.** A check runs each command that some rule needs once, in the order in which
rules first need them, whatever comes of those before. It says something about each rule, in the order of
the contract and by the exit codes of the rule's commands. It has violations if a threshold is set and
some rule that fails reaches it, so that what violates the threshold of errors also violates that of
warnings. -/
theorem exit_codes_decide {run : Runner σ} (hrun : run.Named) (c : Contract) (failOn : FailOn) (s : σ) :
    ∃ calls, (check c failOn run.recorded).run (s, []) =
        (((check c failOn run).run s).1, ((check c failOn run).run s).2, calls) ∧
      (calls.map Call.command).Pairwise (Before (c.rules.flatMap commandsOf)) ∧
      (calls.map Call.command).Nodup ∧
      (∀ x, x ∈ calls.map Call.command ↔ ∃ r ∈ c.rules, x ∈ commandsOf r) ∧
      ((check c failOn run).run s).1.commands = calls.map Call.result ∧
      List.Forall₂ (Judged (exitCode calls)) c.rules ((check c failOn run).run s).1.rules ∧
      (((check c failOn run).run s).1.hasViolations = true ↔
        ∃ least, failOn.threshold? = some least ∧
          ∃ entry ∈ ((check c failOn run).run s).1.rules,
            entry.status = .fail ∧ least.rank ≤ entry.severity.rank) ∧
      ∀ (τ : Type) (other : Runner τ) (t : τ), other.Named →
        ((check c failOn other).run t).1.commands.map (·.exitCode) =
          ((check c failOn run).run s).1.commands.map (·.exitCode) →
        ((check c .error run).run s).1.hasViolations = true →
          ((check c .warn other).run t).1.hasViolations = true := by
  have h := complete_callsOf hrun c s
  refine ⟨callsOf run c s, check_recorded run c failOn s, ?_⟩
  simp only [check_eq]
  refine ⟨h.commands ▸ pairwise_canonical c.rules, h.commands ▸ nodup_canonical c.rules,
    fun _ => h.mem_commands, rfl, ?_, violates_iff, fun τ other t hother hcodes hviolates => ?_⟩
  · rw [report, List.forall₂_map_right_iff, List.forall₂_same]
    exact fun r hr => h.judged h.exits_exitCode hr
  · have h' := complete_callsOf hother c t
    simp only [report, List.map_map] at hcodes
    have hexits := h.exits_of_codes_eq h' hcodes
    obtain ⟨_, hleast, _, hcheck, hfail, hrank⟩ := violates_iff.1 hviolates
    cases hleast
    obtain ⟨r, hr, rfl⟩ := List.mem_map.1 hcheck
    refine violates_iff.2 ⟨.warn, rfl, _, List.mem_map_of_mem hr, ?_, Nat.le_of_succ_le hrank⟩
    rw [h'.status_ruleCheck hexits hr, ← h.status_ruleCheck h.exits_exitCode hr]
    exact hfail

/-- The rule of an id, as binding as it is said to be. -/
def ruleOf (id : String) (severity : Severity) : Rule where
  id := id
  title := id
  statement := "Code MUST pass."
  scope := ["**/*"]
  severity := severity
  confidence := 1.0
  evidence := [⟨"a.ts", ⟨1, 2⟩, "1e3"⟩]

/-- A contract of rules that share a command, and of one that has none. -/
def sharingContract : Contract where
  schemaVersion := "1.0"
  repo := ⟨none, "0"⟩
  generatedAt := ⟨1483228799, 0⟩
  rules := [ruleOf "TS-FMT-001" .error, ruleOf "PY-TEST-001" .info, ruleOf "TS-TYPE-003" .warn]

/-- Counts the commands that were run; the first one that it runs fails. -/
def countingRunner : Runner Nat := fun command => do
  let n ← get
  set (n + 1)
  pure ⟨command, some (if n = 0 then 1 else 0), n, "", ""⟩

theorem named_countingRunner : countingRunner.Named := fun _ _ => rfl

theorem exit_codes_decide_sharing :
    countingRunner.Named ∧ ∃ calls,
      ((check sharingContract .error countingRunner.recorded).run (0, [])).2.2 = calls ∧
        calls.map Call.command =
          ["prettier -c .", "tsc -p tsconfig.json --noEmit", "eslint . --max-warnings 0"] ∧
        List.Forall₂ (Judged (exitCode calls)) sharingContract.rules
          ((check sharingContract .error countingRunner).run 0).1.rules ∧
        ((check sharingContract .warn countingRunner).run 0).1.hasViolations = true := by
  obtain ⟨calls, hrun, -, -, -, -, hjudged, -, hwarn⟩ :=
    exit_codes_decide named_countingRunner sharingContract .error 0
  obtain rfl : _ = calls := congrArg (·.2.2) hrun
  exact ⟨named_countingRunner, _, rfl, by decide, hjudged,
    hwarn Nat countingRunner 0 named_countingRunner rfl (by decide)⟩

end Verification

end StyleContract
