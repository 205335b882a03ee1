import Mathlib.Data.List.Forall2
import StyleContract.Proofs.Verification.Verdicts
import StyleContract.Report.Sarif

/-!
# Proofs — Report — Sarif

What a log tells of a check, read back from the log's value: the rules that it describes and its results.
A rule is looked up by its id, where the last rule of an id would win; in a contract of distinct ids each
rule finds itself (`lastRule?_of_mem`). So **there is a result for each rule that failed or could not be
verified**, in the order of the contract, under the id and with the places of that rule
(`forall₂_results`). A level above that of a note is the level of a rule that failed
(`exists_result_iff`).
-/

namespace StyleContract.Sarif

open Verification

variable {c : Contract} {failOn : FailOn} {r : Rule} {outcomes : List CommandResult}

/-! ### Reading a log -/

/-- The run that a log is about. -/
def loggedRun (log : Json) : Json := ((log.get "runs").items?.getD []).headD .null

/-- The rules that a log describes. -/
def loggedRules (log : Json) : List Json :=
  ((((loggedRun log).get "tool").get "driver").get "rules").items?.getD []

/-- The results in a log. -/
def loggedResults (log : Json) : List Json := ((loggedRun log).get "results").items?.getD []

theorem loggedRules_log (c : Contract) (report : CheckReport) :
    loggedRules (log c report) = c.rules.map descriptor := rfl

theorem loggedResults_log (c : Contract) (report : CheckReport) :
    loggedResults (log c report) = (results c report).map Result.toJson := rfl

theorem get_level (result : Result) : result.toJson.get "level" = .str result.level := rfl

/-! ### Results and rules -/

theorem lastRule?_of_mem (hids : (c.rules.map Rule.id).Nodup) (hr : r ∈ c.rules) :
    lastRule? c r.id = some r :=
  find?_reverse_of_nodup_keys hids hr

/-- Whether there is something to tell about a rule. -/
def IsTold (entry : RuleCheck) : Prop := entry.status = .fail ∨ entry.status = .error

instance (entry : RuleCheck) : Decidable (IsTold entry) := inferInstanceAs (Decidable (_ ∨ _))

theorem exists_resultOf? {entry : RuleCheck} (h : IsTold entry) (r : Rule) :
    ∃ result, resultOf? entry (some r) = some result ∧ result.ruleId = entry.id ∧
      result.evidence = r.evidence := by
  rcases h with h | h <;> rw [resultOf?, h]
  · exact ⟨_, rfl, rfl, rfl⟩
  · exact ⟨_, rfl, rfl, rfl⟩

theorem resultOf?_of_not_isTold {entry : RuleCheck} (h : ¬ IsTold entry) (rule : Option Rule) :
    resultOf? entry rule = none := by
  unfold resultOf?
  split
  · next hfail => exact absurd (.inl hfail) h
  · next herror => exact absurd (.inr herror) h
  · rfl
  · rfl

/-- A result is about a rule: it has the rule's id, and the rule's places in order. -/
structure About (log : Json) (r : Rule) (result : Json) : Prop where
  ruleId : result.get "ruleId" = .str r.id
  described : ∃ rule ∈ loggedRules log, rule.get "id" = .str r.id
  locations : result.get "locations" = .arr (r.evidence.map location)

theorem forall₂_filterMap {rules : List Rule} {log : Json} {tell : RuleCheck → Option Result}
    (htell : ∀ r ∈ rules, tell (ruleCheck outcomes r) = resultOf? (ruleCheck outcomes r) (some r))
    (hrules : ∀ r ∈ rules, ∃ rule ∈ loggedRules log, rule.get "id" = .str r.id) :
    List.Forall₂ (fun r result => About log r (Result.toJson result))
      (rules.filter fun r => IsTold (ruleCheck outcomes r))
      ((rules.map (ruleCheck outcomes)).filterMap tell) := by
  induction rules with
  | nil => exact .nil
  | cons r rules ih =>
      obtain ⟨hr, hmore⟩ := List.forall_mem_cons.1 htell
      obtain ⟨hrule, hrest⟩ := List.forall_mem_cons.1 hrules
      rw [List.map_cons, List.filter_cons]
      by_cases htold : IsTold (ruleCheck outcomes r)
      · obtain ⟨result, hresult, hid, hevidence⟩ := exists_resultOf? htold r
        rw [if_pos (decide_eq_true htold), List.filterMap_cons_some (hr.trans hresult)]
        refine .cons ⟨congrArg Json.str hid, hrule, ?_⟩ (ih hmore hrest)
        exact congrArg (fun items => Json.arr (items.map location)) hevidence
      · rw [if_neg (by simpa using htold),
          List.filterMap_cons_none (hr.trans (resultOf?_of_not_isTold htold _))]
        exact ih hmore hrest

/-- **There is a result for each rule that failed or could not be verified.** -/
theorem forall₂_results (hids : (c.rules.map Rule.id).Nodup) (failOn : FailOn)
    (outcomes : List CommandResult) :
    List.Forall₂ (About (log c (report c failOn outcomes)))
      (c.rules.filter fun r => IsTold (ruleCheck outcomes r))
      (loggedResults (log c (report c failOn outcomes))) := by
  rw [loggedResults_log, List.forall₂_map_right_iff]
  refine forall₂_filterMap (fun r hr => ?_) fun r hr => ?_
  · exact congrArg (resultOf? (ruleCheck outcomes r)) (lastRule?_of_mem hids hr)
  · exact ⟨descriptor r, loggedRules_log c _ ▸ List.mem_map_of_mem hr, rfl⟩

/-! ### Levels -/

theorem exists_resultOf?_of_fail {entry : RuleCheck} (h : entry.status = .fail) (rule : Option Rule) :
    ∃ result, resultOf? entry rule = some result ∧ result.level = level entry.severity := by
  rw [resultOf?, h]
  exact ⟨_, rfl, rfl⟩

theorem level_of_resultOf? {entry : RuleCheck} {rule : Option Rule} {result : Result}
    (h : resultOf? entry rule = some result) :
    entry.status = .fail ∧ result.level = level entry.severity ∨ result.level = "note" := by
  unfold resultOf? at h
  split at h
  · next hfail =>
    cases h
    exact .inl ⟨hfail, rfl⟩
  · cases h
    exact .inr rfl
  · cases h
  · cases h

/-- **A level above a note's is that of a rule that failed.** -/
theorem exists_result_iff {report : CheckReport} {P : Json → Prop} (hnote : ¬ P (.str "note")) :
    (∃ result ∈ loggedResults (log c report), P (result.get "level")) ↔
      ∃ entry ∈ report.rules, entry.status = .fail ∧ P (.str (level entry.severity)) := by
  rw [loggedResults_log]
  constructor
  · rintro ⟨_, hmem, hlevel⟩
    obtain ⟨result, hresult, rfl⟩ := List.mem_map.1 hmem
    rw [results, List.mem_filterMap] at hresult
    obtain ⟨entry, hentry, htold⟩ := hresult
    rw [get_level] at hlevel
    rcases level_of_resultOf? htold with ⟨hfail, hsame⟩ | hsame
    · exact ⟨entry, hentry, hfail, hsame ▸ hlevel⟩
    · exact absurd (hsame ▸ hlevel) hnote
  · rintro ⟨entry, hentry, hfail, hlevel⟩
    obtain ⟨result, htold, hsame⟩ := exists_resultOf?_of_fail hfail (lastRule? c entry.id)
    refine ⟨result.toJson, List.mem_map_of_mem (List.mem_filterMap.2 ⟨entry, hentry, htold⟩), ?_⟩
    rw [get_level, hsame]
    exact hlevel

end StyleContract.Sarif
