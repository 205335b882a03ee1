import StyleContract.Proofs.CommandLine.Scan
import StyleContract.Proofs.Report.Sarif
import StyleContract.Proofs.Store

/-!
# Proofs — Command line — Check

Three views of one check: what the report says about each rule, how the command exits, and the log that
other tools read. Each is computed by a case distinction of its own, over statuses and severities.
**They agree** (`views_agree`), for whatever came of the commands and however the check was asked for: the
log has a result for each rule that failed or could not be verified, and its levels are above a
threshold if and only if the exit status says so.
-/

namespace StyleContract.CommandLine

open Sarif (About IsTold loggedResults)
open Verification (CheckReport CommandResult Runner report canonical runIn violates_iff)

variable {σ : Type} {m : Machine} {o : Options} {s : Settings} {r : CheckRequest}
  {before after : Session} {status : ExitStatus}

/-- A report, an exit status and a log tell the same of a check. -/
structure Agree (c : Contract) (failOn : FailOn) (report : CheckReport) (status : ExitStatus)
    (log : Json) : Prop where
  entries : report.rules.map (·.id) = c.rules.map Rule.id
  results : List.Forall₂ (fun e result => About log e.1 result)
    ((c.rules.zip report.rules).filter fun e => IsTold e.2) (loggedResults log)
  error_iff : failOn = .error →
    (status = .violations ↔ ∃ result ∈ loggedResults log, result.get "level" = .str "error")
  warn_iff : failOn = .warn →
    (status = .violations ↔ ∃ result ∈ loggedResults log,
      result.get "level" = .str "error" ∨ result.get "level" = .str "warning")

/-! ### The report -/

theorem ofReport_eq_violations_iff {report : CheckReport} :
    ExitStatus.ofReport report = .violations ↔ report.hasViolations = true := by
  rw [ExitStatus.ofReport]
  split <;> simp_all

theorem level_eq_error_iff {severity : Severity} :
    Json.str (Sarif.level severity) = .str "error" ↔ Severity.error.rank ≤ severity.rank := by
  cases severity <;> decide

theorem level_above_note_iff {severity : Severity} :
    Json.str (Sarif.level severity) = .str "error" ∨ Json.str (Sarif.level severity) = .str "warning" ↔
      Severity.warn.rank ≤ severity.rank := by
  cases severity <;> decide

theorem ofReport_report_iff {c : Contract} {failOn : FailOn} {least : Severity}
    (h : failOn.threshold? = some least) (outcomes : List CommandResult) :
    ExitStatus.ofReport (report c failOn outcomes) = .violations ↔
      ∃ entry ∈ (report c failOn outcomes).rules,
        entry.status = .fail ∧ least.rank ≤ entry.severity.rank := by
  refine ofReport_eq_violations_iff.trans (violates_iff.trans ?_)
  simp only [h, Option.some.injEq, exists_eq_left']
  rfl

theorem agree_report {c : Contract} (hids : (c.rules.map Rule.id).Nodup) (failOn : FailOn)
    (outcomes : List CommandResult) :
    Agree c failOn (report c failOn outcomes) (.ofReport (report c failOn outcomes))
      (Sarif.log c (report c failOn outcomes)) where
  entries := List.map_map
  results := by
    have hzip : c.rules.zip (report c failOn outcomes).rules =
        c.rules.map fun r => (r, Verification.ruleCheck outcomes r) := by
      show c.rules.zip (c.rules.map (Verification.ruleCheck outcomes)) = _
      simpa only [List.map_id, id_eq] using List.zip_map' (f := id) (g := Verification.ruleCheck outcomes)
        (l := c.rules)
    rw [hzip, List.filter_map, List.forall₂_map_left_iff]
    exact Sarif.forall₂_results hids failOn outcomes
  error_iff := by
    rintro rfl
    rw [ofReport_report_iff rfl, Sarif.exists_result_iff (P := (· = Json.str "error")) (by decide)]
    simp only [level_eq_error_iff]
  warn_iff := by
    rintro rfl
    rw [ofReport_report_iff rfl, Sarif.exists_result_iff
      (P := fun level => level = Json.str "error" ∨ level = Json.str "warning") (by decide)]
    simp only [level_above_note_iff]

/-! ### The command -/

/-- The contract that a run finds. -/
def contractAt (s : Settings) (explicit : Option String) (tree : Entry) : Except Error Contract := do
  let schema ← schemaOf s none tree
  (Store.ofPath (contractPath s explicit)).load tree schema

theorem run_loadContract (s : Settings) (explicit : Option String) (before : Session) :
    (loadContract s explicit).run before = (contractAt s explicit before.tree, before) := by
  rw [loadContract, Action.run_reading_bind, contractAt]
  cases schemaOf s none before.tree with
  | error e => rfl
  | ok schema => exact Action.run_reading _ _

theorem contractAt_eq_ok_iff {explicit : Option String} {tree : Entry} {c : Contract} :
    contractAt s explicit tree = .ok c ↔ ∃ schema, schemaOf s none tree = .ok schema ∧
      (Store.ofPath (contractPath s explicit)).load tree schema = .ok c :=
  Document.bind_eq_ok_iff

theorem nodup_ids_of_contractAt {explicit : Option String} {tree : Entry} {c : Contract}
    (h : contractAt s explicit tree = .ok c) : (c.rules.map Rule.id).Nodup := by
  obtain ⟨schema, -, hload⟩ := contractAt_eq_ok_iff.1 h
  obtain ⟨-, -, -, hviolations⟩ := Store.load_eq_ok_iff.1 hload
  exact (violations_eq_nil_iff.1 hviolations).2

/-- The report of a check on a machine. -/
def reportOn (m : Machine) (r : CheckRequest) (tree : Entry) (c : Contract) : CheckReport :=
  Id.run (Verification.check c r.failOn fun command => pure (runIn tree m.programs r.root command))

theorem reportOn_eq (m : Machine) (r : CheckRequest) (tree : Entry) (c : Contract) :
    reportOn m r tree c =
      report c r.failOn ((canonical c.rules).map (runIn tree m.programs r.root)) := by
  rw [reportOn, Verification.check, List.mapM_pure]
  rfl

/-- What is left of a check after its report. -/
def publish (m : Machine) (o : Options) (r : CheckRequest) (c : Contract) (report : CheckReport) :
    Action ExitStatus := do
  match r.sarifOut with
  | some path => Action.changing fun tree => tree.writeText path (Sarif.text c report)
  | none => pure ()
  Action.print (checkText m o c report r.format)
  pure (.ofReport report)

theorem run_check {c : Contract} (hc : contractAt s r.contract before.tree = .ok c) :
    (check m o s r).run before =
      if before.tree.isFolder r.root then
        (publish m o r c (reportOn m r before.tree c)).run before
      else (.error (.invalidInput ("'" ++ r.root ++ "' is not a directory")), before) := by
  rw [check, Action.run_bind, run_loadContract, hc]
  show (if !before.tree.isFolder r.root then throw _ >>= _ else
    publish m o r c (reportOn m r before.tree c) : Action ExitStatus).run before = _
  cases before.tree.isFolder r.root <;> rfl

theorem run_publish {c : Contract} {report : CheckReport} (h : r.sarifOut = none) :
    (publish m o r c report).run before = (.ok (.ofReport report),
      { before with output := before.output ++ checkText m o c report r.format }) := by
  rw [publish, h]
  rfl

/-- A check that has ended with a status has printed its report in the form that was asked for, and has
written the log where one was asked for. -/
theorem of_run_publish {c : Contract} {report : CheckReport}
    (h : (publish m o r c report).run before = (.ok status, after)) :
    status = .ofReport report ∧
      after.output = before.output ++ checkText m o c report r.format ∧
      ∀ path, r.sarifOut = some path → ∃ place, Path.place? path = some place ∧
        after.tree.fileAt? place = some (Sarif.log c report).pretty.toUTF8 := by
  cases hpath : r.sarifOut with
  | none =>
      rw [run_publish hpath] at h
      cases h
      exact ⟨rfl, rfl, fun _ hsome => nomatch hsome⟩
  | some path =>
      rw [publish, hpath, Action.run_changing_bind] at h
      split at h
      · next hwritten =>
        cases h
        refine ⟨rfl, rfl, fun _ hsome => ?_⟩
        cases hsome
        obtain ⟨place, hplace, hfile, -⟩ := Entry.fileAt?_of_writeText hwritten
        exact ⟨place, hplace, hfile⟩
      · cases h

theorem exists_of_run_check (h : (check m o s r).run before = (.ok status, after)) :
    ∃ c, contractAt s r.contract before.tree = .ok c ∧
      (publish m o r c (reportOn m r before.tree c)).run before = (.ok status, after) := by
  cases hc : contractAt s r.contract before.tree with
  | error e =>
      rw [check, Action.run_bind, run_loadContract, hc] at h
      cases h
  | ok c =>
      rw [run_check hc] at h
      split at h
      · exact ⟨c, rfl, h⟩
      · cases h

/-- **The views of a check agree.** If the rules of a contract have different ids, then a report on it, the
exit status and the log tell the same, whatever came of the commands. A check that is run to its end has
found such a contract: it exits with the status of its report, and the log that it prints or writes is
that of the report. -/
theorem views_agree {c : Contract} (hids : (c.rules.map Rule.id).Nodup) (failOn : FailOn)
    (run : Runner σ) (t : σ) :
    let report := ((Verification.check c failOn run).run t).1
    Agree c failOn report (.ofReport report) (Sarif.log c report) ∧
    ∀ m o s r before status after, (check m o s r).run before = (.ok status, after) →
      ∃ found report, contractAt s r.contract before.tree = .ok found ∧
        report = reportOn m r before.tree found ∧
        Agree found r.failOn report status (Sarif.log found report) ∧
        after.output = before.output ++ checkText m o found report r.format ∧
        ∀ path, r.sarifOut = some path → ∃ place, Path.place? path = some place ∧
          after.tree.fileAt? place = some (Sarif.log found report).pretty.toUTF8 := by
  refine ⟨?_, fun m o s r before status after h => ?_⟩
  · rw [Verification.check_eq]
    exact agree_report hids failOn _
  · obtain ⟨found, hfound, hpublish⟩ := exists_of_run_check h
    obtain ⟨rfl, houtput, hfile⟩ := of_run_publish hpublish
    refine ⟨found, _, hfound, rfl, ?_, houtput, hfile⟩
    rw [reportOn_eq]
    exact agree_report (nodup_ids_of_contractAt hfound) r.failOn _

/-- A check of the contract without rules. -/
def branchCheck : CheckRequest := ⟨some "c.json", ".", .sarif, none, .error⟩

theorem contractAt_branchTree :
    contractAt {} branchCheck.contract Store.branchTree = .ok Store.branchContract := by
  have hschema : schemaOf {} none Store.branchTree = .ok ContractSchema.standard :=
    ContractSchema.bundled_eq
  have hstore : Store.ofPath (contractPath {} branchCheck.contract) = ⟨"c.json", .json⟩ := by
    decide
  refine contractAt_eq_ok_iff.2 ⟨_, hschema, ?_⟩
  rw [hstore]
  exact Store.load_branchTree

theorem exists_run_check_branchTree :
    ∃ after, (check bareMachine {} {} branchCheck).run ⟨Store.branchTree, ""⟩ =
      (.ok .success, after) := by
  have hfolder : Store.branchTree.isFolder branchCheck.root = true := by decide
  have hstatus : ExitStatus.ofReport (reportOn bareMachine branchCheck Store.branchTree
      Store.branchContract) = .success := by decide
  have hrun : (check bareMachine {} {} branchCheck).run ⟨Store.branchTree, ""⟩ = _ :=
    run_check contractAt_branchTree
  rw [if_pos hfolder, run_publish rfl, hstatus] at hrun
  exact ⟨_, hrun⟩

theorem views_agree_sharing :
    (Verification.sharingContract.rules.map Rule.id).Nodup ∧
      (let report := ((Verification.check Verification.sharingContract .warn
          Verification.countingRunner).run 0).1
      report.rules.map (·.status) = [.fail, .skipped, .fail] ∧
        ExitStatus.ofReport report = .violations ∧
        ∃ result ∈ loggedResults (Sarif.log Verification.sharingContract report),
          result.get "level" = .str "error" ∨ result.get "level" = .str "warning") ∧
      ∃ report, Agree Store.branchContract .error report .success
        (Sarif.log Store.branchContract report) := by
  have hids : (Verification.sharingContract.rules.map Rule.id).Nodup := by decide
  obtain ⟨hagree, hcommand⟩ := views_agree hids .warn Verification.countingRunner 0
  refine ⟨hids, ⟨by decide, by decide, (hagree.warn_iff rfl).1 (by decide)⟩, ?_⟩
  obtain ⟨after, hrun⟩ := exists_run_check_branchTree
  obtain ⟨found, report, hfound, -, h, -⟩ := hcommand _ _ _ _ _ _ after hrun
  cases contractAt_branchTree.symm.trans hfound
  exact ⟨report, h⟩

end StyleContract.CommandLine
