import StyleContract.Contract.Builder
import StyleContract.Proofs.Contract.Confidence
import StyleContract.Proofs.Schema.Bundled

/-!
# Proofs — Contract — Conformity

Two descriptions of a sound rule: the problems that `Rule.problems` lists, and the schema that the
library ships. They are written apart from each other, over different things, one over the fields
of a rule and one over the members of a value.

**They agree** (`problems_eq_nil_iff_form`) but for blank text: the schema asks for titles and
statements with a character in them, the test for one that is not white space.
-/

namespace StyleContract
open ContractSchema Schema

section

variable {target : String → Json → Prop}

/-! ### The parts of a rule -/

theorem meets_id_str_iff {s : String} :
    Meets target Demand.id (.str s) ↔ Rule.isId s = true := by
  simp [meets_id_iff]

theorem meets_text_str (s : String) : Meets target Demand.text (.str s) := meets_text_iff.2 ⟨s, rfl⟩

theorem meets_filledText_str_iff {s : String} :
    Meets target Demand.filledText (.str s) ↔ s ≠ "" := by
  simp [meets_filledText_iff]

theorem meets_texts_toJson (items : List String) :
    Meets target (Demand.list Demand.text) (Json.ofStrings items) := by
  rw [meets_list_iff]
  refine ⟨_, rfl, fun w hw => ?_⟩
  obtain ⟨s, -, rfl⟩ := List.mem_map.1 hw
  exact meets_text_str s

theorem meets_filledTexts_toJson_iff {items : List String} :
    Meets target (Demand.filledList Demand.filledText) (Json.ofStrings items) ↔
      items ≠ [] ∧ ∀ s ∈ items, s ≠ "" := by
  simp [meets_filledList_iff, Json.ofStrings, meets_filledText_str_iff]

theorem isLine_ofNat (n : Nat) : IsLine (.int n) := by
  refine ⟨rfl, ?_⟩
  simp [Json.Number.lt]

theorem meets_lines_toJson (l : Lines) : Meets target Demand.lines l.toJson :=
  meets_lines_iff.2 ⟨_, _, rfl, isLine_ofNat _, isLine_ofNat _⟩

theorem evidenceForm_toJson_iff {e : Evidence} :
    EvidenceForm e.toJson ↔ e.path ≠ "" ∧ e.snippetHash ≠ "" := by
  simp only [EvidenceForm, Demand.evidence, meets_record_iff, Evidence.toJson, Json.obj.injEq,
    exists_eq_left', List.forall_mem_cons]
  simp [MeetsMember, Json.Members.get?, meets_filledText_str_iff, meets_lines_toJson]

theorem meets_evidenceList_toJson_iff {items : List Evidence} :
    Meets (fun _ => EvidenceForm) (Demand.filledList (.reference Demand.evidenceName))
        (.arr (items.map Evidence.toJson)) ↔
      items ≠ [] ∧ ∀ e ∈ items, e.path ≠ "" ∧ e.snippetHash ≠ "" := by
  simp [meets_filledList_iff, Meets, evidenceForm_toJson_iff]

theorem meets_autofix_toJson_iff {f : Autofix} :
    Meets target Demand.autofix f.toJson ↔ f.kind ≠ "" ∧ f.details ≠ "" := by
  simp only [meets_autofix_iff, Demand.autofixRecord, meets_record_iff, Autofix.toJson,
    Json.obj.injEq, exists_eq_left', List.forall_mem_cons]
  simp [MeetsMember, Json.Members.get?, meets_filledText_str_iff]

theorem meets_severity_toJson (s : Severity) : Meets target Demand.severity s.toJson :=
  meets_severity_iff.2 ⟨s, rfl⟩

theorem meets_confidence_float_iff {x : Float} :
    Meets target Demand.confidence (.num (.float x)) ↔
      ¬ x < Float.ofInt 0 ∧ ¬ Float.ofInt 1 < x := by
  have hzero : (Json.Number.float x).lt (.int 0) = false ↔ ¬ x < Float.ofInt 0 :=
    decide_eq_false_iff_not
  have hone : (Json.Number.int 1).lt (.float x) = false ↔ ¬ Float.ofInt 1 < x :=
    decide_eq_false_iff_not
  simp only [meets_confidence_iff, Json.num.injEq, exists_eq_left', hzero, hone]

theorem meets_confidence_toJson_iff {x : Float} :
    Meets target Demand.confidence (Json.ofFloat x) ↔ Rule.isConfidence x = true := by
  rw [Rule.isConfidence_iff, Json.ofFloat]
  by_cases h : x.isFinite = true
  · simp only [h, if_true, meets_confidence_float_iff, true_and]
  · simp [h, meets_confidence_iff]

end

/-! ### Rules -/

theorem forall_mem_optionalMember {α : Type} {name : String} {f : α → Json} {o : Option α}
    {P : String × Json → Prop} :
    (∀ m ∈ optionalMember name f o, P m) ↔ ∀ a, o = some a → P (name, f a) := by
  cases o <;> simp [optionalMember]

theorem isSome_get?_iff {name : String} {members : Json.Members} :
    (Json.Members.get? name members).isSome ↔ name ∈ members.map (·.1) := by
  simp [Json.Members.get?]

/-- **What the schema says of a rule**, field by field. -/
theorem ruleForm_toJson_iff {r : Rule} :
    RuleForm r.toJson ↔
      Rule.isId r.id = true ∧ r.title ≠ "" ∧ r.statement ≠ "" ∧
        (r.scope ≠ [] ∧ ∀ s ∈ r.scope, s ≠ "") ∧ Rule.isConfidence r.confidence = true ∧
        (r.evidence ≠ [] ∧ ∀ e ∈ r.evidence, e.path ≠ "" ∧ e.snippetHash ≠ "") ∧
        ∀ f, r.autofix = some f → f.kind ≠ "" ∧ f.details ≠ "" := by
  have hid : RuleMember "id" (.str r.id) ↔ Rule.isId r.id = true := meets_id_str_iff
  have htitle : RuleMember "title" (.str r.title) ↔ r.title ≠ "" := meets_filledText_str_iff
  have hstatement : RuleMember "statement" (.str r.statement) ↔ r.statement ≠ "" :=
    meets_filledText_str_iff
  have hrationale : ∀ s, RuleMember "rationale" (.str s) := meets_text_str
  have hscope : RuleMember "scope" (Json.ofStrings r.scope) ↔
      r.scope ≠ [] ∧ ∀ s ∈ r.scope, s ≠ "" := meets_filledTexts_toJson_iff
  have hlanguages : RuleMember "languages" (Json.ofStrings r.languages) := meets_texts_toJson _
  have hseverity : RuleMember "severity" r.severity.toJson := meets_severity_toJson _
  have hconfidence : RuleMember "confidence" (Json.ofFloat r.confidence) ↔
      Rule.isConfidence r.confidence = true := meets_confidence_toJson_iff
  have hevidence : RuleMember "evidence" (.arr (r.evidence.map Evidence.toJson)) ↔
      r.evidence ≠ [] ∧ ∀ e ∈ r.evidence, e.path ≠ "" ∧ e.snippetHash ≠ "" :=
    meets_evidenceList_toJson_iff
  have hautofix : ∀ f : Autofix, RuleMember "autofix" f.toJson ↔ f.kind ≠ "" ∧ f.details ≠ "" :=
    fun _ => meets_autofix_toJson_iff
  have hrelated : ∀ items, RuleMember "relatedRules" (Json.ofStrings items) := meets_texts_toJson
  rw [Rule.toJson, ruleForm_obj_iff, and_iff_left (by simp [isSome_get?_iff, Demand.ruleNeeded])]
  simp only [List.forall_mem_append, List.forall_mem_cons, forall_mem_optionalMember, hid, htitle,
    hstatement, hrationale, hscope, hlanguages, hseverity, hconfidence, hevidence, hautofix]
  cases r.relatedRules <;> simp [hrelated, and_assoc]

/-- Letters and digits are not white space. -/
theorem Rule.not_isBlank_of_isIdStart {c : Char} (h : isIdStart c = true) :
    Text.isBlank c = false := by
  have hrange : 48 ≤ c.toNat ∧ c.toNat ≤ 122 := by
    simp only [isIdStart, Char.isAlphanum, Char.isAlpha, Char.isUpper, Char.isLower, Char.isDigit,
      Bool.or_eq_true, Bool.and_eq_true, decide_eq_true_eq, ge_iff_le, UInt32.le_iff_toNat_le] at h
    have htoNat : c.val.toNat = c.toNat := rfl
    simp at h
    omega
  simp [Text.isBlank]
  omega

/-- An id is not blank. -/
theorem Rule.trim_ne_empty_of_isId {s : String} (h : isId s = true) : Text.trim s ≠ "" := by
  rw [isId] at h
  rw [Ne, Text.trim_eq_empty_iff]
  cases hs : s.toList with
  | nil => simp [hs] at h
  | cons c cs =>
      simp only [hs, Bool.and_eq_true] at h
      simp [not_isBlank_of_isIdStart h.1]

theorem trim_ne_empty_iff {s : String} :
    Text.trim s ≠ "" ↔ ∃ c ∈ s.toList, ¬ Text.isBlank c := by
  rw [Ne, Text.trim_eq_empty_iff]
  simp

theorem ne_empty_of_trim_ne_empty {s : String} (h : Text.trim s ≠ "") : s ≠ "" := by
  rintro rfl
  exact h rfl

theorem Rule.has_autofixIncomplete_eq_false_iff {r : Rule} :
    r.Has .autofixIncomplete = false ↔
      ∀ f, r.autofix = some f → f.kind ≠ "" ∧ f.details ≠ "" := by
  rw [Has]
  cases r.autofix <;> simp

/-- **What the test says of a rule**, field by field. -/
theorem problems_eq_nil_iff_fields {r : Rule} :
    r.problems = [] ↔
      Rule.isId r.id = true ∧ Text.trim r.title ≠ "" ∧ Text.trim r.statement ≠ "" ∧
        (r.scope ≠ [] ∧ ∀ s ∈ r.scope, s ≠ "") ∧ Rule.isConfidence r.confidence = true ∧
        (r.evidence ≠ [] ∧ ∀ e ∈ r.evidence, e.path ≠ "" ∧ e.snippetHash ≠ "") ∧
        ∀ f, r.autofix = some f → f.kind ≠ "" ∧ f.details ≠ "" := by
  rw [Rule.problems_eq_nil_iff]
  constructor
  · intro h
    -- a malformed id is only looked for in an id that is not empty
    have hidEmpty := h .idEmpty
    have hidMalformed := h .idMalformed
    have htitle := h .titleEmpty
    have hstatement := h .statementEmpty
    have hconfidence := h .confidenceOutside
    have hnoEvidence := h .evidenceEmpty
    have hevidence := h .evidenceIncomplete
    have hnoScope := h .scopeEmpty
    have hscope := h .scopePatternEmpty
    have hautofix := Rule.has_autofixIncomplete_eq_false_iff.1 (h .autofixIncomplete)
    simp only [Rule.Has, beq_eq_false_iff_ne] at hidEmpty htitle hstatement
    simp [Rule.Has, hidEmpty] at hidMalformed hconfidence hnoEvidence hevidence hnoScope hscope
    exact ⟨hidMalformed, htitle, hstatement, ⟨hnoScope, hscope⟩, hconfidence,
      ⟨hnoEvidence, hevidence⟩, hautofix⟩
  · rintro ⟨hid, htitle, hstatement, hscope, hconfidence, hevidence, hautofix⟩ p
    cases p with
    | idEmpty => simpa [Rule.Has] using Rule.trim_ne_empty_of_isId hid
    | idMalformed => simp [Rule.Has, hid]
    | titleEmpty => simpa [Rule.Has] using htitle
    | statementEmpty => simpa [Rule.Has] using hstatement
    | confidenceOutside => simp [Rule.Has, hconfidence]
    | evidenceEmpty => simpa [Rule.Has] using hevidence.1
    | evidenceIncomplete => simpa [Rule.Has] using hevidence.2
    | scopeEmpty => simpa [Rule.Has] using hscope.1
    | scopePatternEmpty => simpa [Rule.Has] using hscope.2
    | autofixIncomplete => exact Rule.has_autofixIncomplete_eq_false_iff.2 hautofix

/-- **Both descriptions agree** but for blank text. -/
theorem problems_eq_nil_iff_form {r : Rule} :
    r.problems = [] ↔
      RuleForm r.toJson ∧ Text.trim r.title ≠ "" ∧ Text.trim r.statement ≠ "" := by
  rw [problems_eq_nil_iff_fields, ruleForm_toJson_iff]
  constructor
  · rintro ⟨hid, htitle, hstatement, hrest⟩
    exact ⟨⟨hid, ne_empty_of_trim_ne_empty htitle, ne_empty_of_trim_ne_empty hstatement, hrest⟩,
      htitle, hstatement⟩
  · rintro ⟨⟨hid, -, -, hrest⟩, htitle, hstatement⟩
    exact ⟨hid, htitle, hstatement, hrest⟩

/-- **The test of a rule mirrors the schema of a rule.** A rule has no problem if and only if its
value meets the schema that the bundled document holds for rules and neither its title nor its
statement is blank. -/
theorem rule_sound_iff_accepted :
    ∃ s t, bundled = .ok s ∧ s.schema.target? "#/definitions/rule" = some t ∧
      Schema.ofJson? ruleDocument = some t ∧
      ∀ r : Rule, r.problems = [] ↔
        Document.accepts { s.schema with root := t } r.toJson = true ∧
          (∃ c ∈ r.title.toList, ¬ Text.isBlank c) ∧
          ∃ c ∈ r.statement.toList, ¬ Text.isBlank c := by
  refine ⟨standard, Demand.rule, bundled_eq, target?_ruleName, ofJson?_ruleDocument, fun r => ?_⟩
  rw [accepts_rule_iff, ← trim_ne_empty_iff, ← trim_ne_empty_iff]
  exact problems_eq_nil_iff_form

/-! ### Contracts -/

theorem meets_repo_toJson_iff {target : String → Json → Prop} {i : RepoIdentity} :
    Meets target Demand.repo i.toJson ↔ i.sha ≠ "" ∧ i.remote ≠ some "" := by
  simp only [Demand.repo, meets_record_iff, RepoIdentity.toJson, Json.obj.injEq, exists_eq_left',
    List.forall_mem_append, List.forall_mem_cons, forall_mem_optionalMember]
  cases i.remote <;>
    simp [MeetsMember, isSome_get?_iff, optionalMember, meets_filledText_str_iff, and_comm]

/-- **What the schema says of a contract**, field by field. -/
theorem contractForm_toJson_iff {c : Contract} :
    ContractForm c.toJson ↔
      c.schemaVersion = Contract.currentVersion ∧ (c.repo.sha ≠ "" ∧ c.repo.remote ≠ some "") ∧
        Moment.isStrictText c.generatedAt.toText = true ∧ ∀ r ∈ c.rules, RuleForm r.toJson := by
  have hversion : ContractMember "schemaVersion" (.str c.schemaVersion) ↔
      c.schemaVersion = Contract.currentVersion :=
    meets_version_iff.trans (by simp)
  have hrepo : ContractMember "repo" c.repo.toJson ↔ c.repo.sha ≠ "" ∧ c.repo.remote ≠ some "" :=
    meets_repo_toJson_iff
  have hmoment : ContractMember "generatedAt" (.str c.generatedAt.toText) ↔
      Moment.isStrictText c.generatedAt.toText = true :=
    meets_generatedAt_iff.trans (by simp)
  have hrules : ContractMember "rules" (.arr (c.rules.map Rule.toJson)) ↔
      ∀ r ∈ c.rules, RuleForm r.toJson :=
    meets_list_iff.trans (by simp [Meets])
  have hmetrics : ∀ m : Metrics, ContractMember "metrics" m.toJson :=
    fun m => meets_metrics_iff.2 ⟨m.entries, rfl⟩
  rw [Contract.toJson, contractForm_obj_iff,
    and_iff_left (by simp [isSome_get?_iff, Demand.contractNeeded])]
  simp only [List.forall_mem_append, List.forall_mem_cons, forall_mem_optionalMember, hversion,
    hrepo, hmoment, hrules, hmetrics]
  simp

theorem repeatedIds_eq_nil_iff {seen : List String} {index : Nat} {rules : List Rule} :
    Contract.repeatedIds seen index rules = [] ↔
      (∀ r ∈ rules, r.id ∉ seen) ∧ (rules.map Rule.id).Nodup := by
  induction rules generalizing seen index with
  | nil => simp [Contract.repeatedIds]
  | cons r rs ih =>
      rw [Contract.repeatedIds]
      split
      · next h => simp [h]
      · next h =>
        rw [ih, List.forall_mem_cons, List.map_cons, List.nodup_cons]
        -- an id that is new to all of these is new to those before and not the id of this rule
        have hsplit : (∀ q ∈ rs, q.id ∉ r.id :: seen) ↔
            r.id ∉ rs.map Rule.id ∧ ∀ q ∈ rs, q.id ∉ seen := by
          simp [not_or, forall_and]
        rw [hsplit]
        exact ⟨fun ⟨⟨hne, hseen⟩, hnodup⟩ => ⟨⟨h, hseen⟩, hne, hnodup⟩,
          fun ⟨⟨_, hseen⟩, hne, hnodup⟩ => ⟨⟨hne, hseen⟩, hnodup⟩⟩

/-- **What is accepted**: a contract that meets the schema and whose rules have distinct ids. -/
theorem violations_eq_nil_iff {s : ContractSchema} {c : Contract} :
    s.violations c = [] ↔ s.check c.toJson = [] ∧ (c.rules.map Rule.id).Nodup := by
  rw [violations, List.append_eq_nil_iff, Contract.repeatedIdViolations, List.map_eq_nil_iff,
    repeatedIds_eq_nil_iff]
  simp

/-- **When a contract is built**, and which one. -/
theorem build_eq_ok_iff {s : ContractSchema} {repo : RepoIdentity} {rules : List Rule}
    {metrics : Option Metrics} {generatedAt : Moment} {c : Contract} :
    s.build repo rules metrics generatedAt = .ok c ↔
      c = ⟨Contract.currentVersion, repo, generatedAt, rules, metrics⟩ ∧ s.violations c = [] := by
  obtain ⟨d, hd⟩ : ∃ d : Contract,
      d = ⟨Contract.currentVersion, repo, generatedAt, rules, metrics⟩ := ⟨_, rfl⟩
  have hbuild : s.build repo rules metrics generatedAt = (s.accept d).bind fun _ => .ok d := by
    rw [hd]
    rfl
  rw [hbuild, ← hd, ← accept_eq_ok_iff]
  cases h : s.accept d with
  | ok =>
      constructor
      · rintro ⟨⟩
        exact ⟨rfl, h⟩
      · rintro ⟨rfl, -⟩
        rfl
  | error e =>
      constructor
      · rintro ⟨⟩
      · rintro ⟨rfl, hc⟩
        rw [h] at hc
        cases hc

/-- The bundled schema accepts sound rules with distinct ids. -/
theorem violations_standard_eq_nil {c : Contract}
    (hversion : c.schemaVersion = Contract.currentVersion)
    (hrepo : c.repo.sha ≠ "" ∧ c.repo.remote ≠ some "")
    (hmoment : Moment.isStrictText c.generatedAt.toText = true)
    (hrules : ∀ r ∈ c.rules, r.problems = []) (hids : (c.rules.map Rule.id).Nodup) :
    standard.violations c = [] := by
  rw [violations_eq_nil_iff, check_standard_eq_nil_iff, contractForm_toJson_iff]
  exact ⟨⟨hversion, hrepo, hmoment, fun r hr => (problems_eq_nil_iff_form.1 (hrules r hr)).1⟩, hids⟩

end StyleContract
