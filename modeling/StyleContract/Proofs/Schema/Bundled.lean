import Mathlib
import StyleContract.Contract.Schema
import StyleContract.Proofs.Pattern.Search
import StyleContract.Proofs.Schema.Meaning

/-!
# Proofs — Schema — Bundled

The schema that comes with the library, read from its document. `bundled_eq` says that reading
succeeds and what it gives: `standard`, whose two references name the schema of a rule and the
schema of a piece of evidence.

`EvidenceForm`, `RuleForm` and `ContractForm` are what these schemas say of a value, with every
reference replaced by its meaning; `check_standard_eq_nil_iff` and `accepts_rule_iff` tie them
to the check.
-/

namespace StyleContract

theorem Schema.Document.ofJson?_eq {d : Json} {root : Schema} {bound : Nat}
    {targets : List (String × Schema)} (hroot : Schema.ofJson? d = some root)
    (hbound : (d.compact.length + 1) * (d.compact.length + 1) = bound)
    (htargets : targetsOf? d bound (references root) [] = some targets) :
    Document.ofJson? d = some ⟨root, targets.reverse⟩ := by
  simp [Document.ofJson?, hroot, hbound, htargets]

namespace ContractSchema
open Schema

/-! ### What the document's parts demand -/

namespace Demand

def filledText : Schema := .every [.type [.string], .minLength 1]

def text : Schema := .every [.type [.string]]

def list (item : Schema) : Schema := .every [.type [.array], .items item]

def filledList (item : Schema) : Schema := .every [.type [.array], .items item, .minItems 1]

/-- An object with these members and no others. -/
def record (needed : List String) (known : List (String × Schema)) : Schema :=
  .every [.type [.object], .closed known, .required needed, .every []]

def idSource : String := "^[A-Za-z0-9][A-Za-z0-9_-]*$"

def idFirst : CharSet :=
  .union (.union (.union .none (.range 'A' 'Z')) (.range 'a' 'z')) (.range '0' '9')

def idMore : CharSet := .union (.union idFirst (.only '_')) (.only '-')

def id : Schema := .every [.type [.string], .pattern idSource (.anchoredRun idFirst idMore)]

def severity : Schema := .every [.enum (Severity.names.map .str)]

def confidence : Schema := .every [.type [.number], .minimum (.int 0), .maximum (.int 1)]

def line : Schema := .every [.type [.integer], .minimum (.int 0)]

def lines : Schema := .every [.type [.array], .items line, .minItems 2, .maxItems 2]

def evidence : Schema :=
  record ["path", "lines", "snippetHash"]
    [("path", filledText), ("lines", lines), ("snippetHash", filledText)]

def autofixRecord : Schema :=
  record ["kind", "details"] [("kind", filledText), ("details", filledText)]

def nothing : Schema := .every [.type [.null]]

def autofix : Schema := .every [.oneOf [nothing, autofixRecord]]

def ruleName : String := "#/definitions/rule"

def evidenceName : String := "#/definitions/evidence"

def ruleMembers : List (String × Schema) :=
  [("id", id), ("title", filledText), ("statement", filledText), ("rationale", text),
    ("scope", filledList filledText), ("languages", list text), ("severity", severity),
    ("confidence", confidence), ("evidence", filledList (.reference evidenceName)),
    ("autofix", autofix), ("relatedRules", list text)]

def ruleNeeded : List String :=
  ["id", "title", "statement", "scope", "languages", "severity", "confidence", "evidence"]

def rule : Schema := record ruleNeeded ruleMembers

def repo : Schema := record ["sha"] [("remote", filledText), ("sha", filledText)]

def generatedAt : Schema := .every [.type [.string], .dateTime, .minLength 1]

def version : Schema := .every [.const (.str Contract.currentVersion)]

def metrics : Schema := .every [.type [.object]]

def contractMembers : List (String × Schema) :=
  [("schemaVersion", version), ("repo", repo), ("generatedAt", generatedAt),
    ("rules", list (.reference ruleName)), ("metrics", metrics)]

def contractNeeded : List String := ["schemaVersion", "repo", "generatedAt", "rules"]

/-- The descriptions at the head of the document and the definitions at its end demand nothing. -/
def contract : Schema :=
  .every [.every [], .every [], .every [], .type [.object], .closed contractMembers,
    .required contractNeeded, .every [], .every []]

end Demand

/-- The schema that comes with the library, as its document is read. -/
def standard : ContractSchema :=
  ⟨"bundled", Demand.contract,
    [(Demand.ruleName, Demand.rule), (Demand.evidenceName, Demand.evidence)]⟩

theorem ofJson?_evidenceDocument : Schema.ofJson? evidenceDocument = some Demand.evidence := by
  rfl

theorem ofJson?_ruleDocument : Schema.ofJson? ruleDocument = some Demand.rule := by rfl

theorem ofJson?_document : Schema.ofJson? document = some Demand.contract := by rfl

theorem resolve?_ruleName : resolve? document Demand.ruleName = some ruleDocument := by rfl

theorem resolve?_evidenceName : resolve? document Demand.evidenceName = some evidenceDocument := by
  rfl

/-- Three names are enough to follow all references of the document. -/
theorem targetsOf?_document (n : Nat) :
    targetsOf? document (n + 3) (references Demand.contract) [] =
      some [(Demand.evidenceName, Demand.evidence), (Demand.ruleName, Demand.rule)] := by
  have hrefs : references Demand.contract = [Demand.ruleName] := rfl
  have hrule : references Demand.rule = [Demand.evidenceName] := rfl
  have hevidence : references Demand.evidence = [] := rfl
  have hne : Demand.ruleName ≠ Demand.evidenceName := by decide
  simp [hrefs, targetsOf?, resolve?_ruleName, ofJson?_ruleDocument, hrule, hne,
    resolve?_evidenceName, ofJson?_evidenceDocument, hevidence]

/-- The text of an object has its two braces at least. -/
theorem two_le_length_compact_document : 2 ≤ document.compact.length := by
  obtain ⟨members, h⟩ : ∃ members, document = .obj members := ⟨_, rfl⟩
  rw [h, Json.compact, String.length_append, String.length_append]
  have ho : "\x7b".length = 1 := rfl
  have hc : "\x7d".length = 1 := rfl
  omega

theorem exists_bound_eq {k : Nat} (h : 2 ≤ k) : ∃ n, (k + 1) * (k + 1) = n + 3 := by
  have hk := Nat.succ_le_succ h
  have hbound := Nat.le_trans (by decide : 3 ≤ 3 * 3) (Nat.mul_le_mul hk hk)
  exact ⟨_, (Nat.sub_add_cancel hbound).symm⟩

/-- **The bundled schema can be read**, and this is what it is. -/
theorem bundled_eq : bundled = .ok standard := by
  obtain ⟨n, hn⟩ := exists_bound_eq two_le_length_compact_document
  have hdoc := Document.ofJson?_eq ofJson?_document hn (targetsOf?_document n)
  rw [bundled, ofDocument, hdoc]
  rfl

/-! ### What the demands say -/

section

variable {target : String → Json → Prop} {v : Json}

theorem meets_text_iff : Meets target Demand.text v ↔ ∃ s, v = .str s := by
  simp [Demand.text, Meets, MeetsAll, hasKind_string_iff]

theorem meets_filledText_iff : Meets target Demand.filledText v ↔ ∃ s, v = .str s ∧ s ≠ "" := by
  cases v <;> simp [Demand.filledText, Meets, MeetsAll, hasKind_string_iff, Nat.one_le_iff_ne_zero]

theorem meets_list_iff {item : Schema} :
    Meets target (Demand.list item) v ↔ ∃ vs, v = .arr vs ∧ ∀ w ∈ vs, Meets target item w := by
  cases v <;> simp [Demand.list, Meets, MeetsAll, hasKind_array_iff, itemsOf]

theorem meets_filledList_iff {item : Schema} :
    Meets target (Demand.filledList item) v ↔
      ∃ vs, v = .arr vs ∧ vs ≠ [] ∧ ∀ w ∈ vs, Meets target item w := by
  cases v <;>
    simp [Demand.filledList, Meets, MeetsAll, hasKind_array_iff, itemsOf, Nat.one_le_iff_ne_zero,
      and_comm]

theorem meets_record_iff {needed : List String} {known : List (String × Schema)} :
    Meets target (Demand.record needed known) v ↔
      ∃ members, v = .obj members ∧ (∀ m ∈ members, MeetsMember target known m.1 m.2) ∧
        ∀ n ∈ needed, (Json.Members.get? n members).isSome := by
  cases v <;> simp [Demand.record, Meets, MeetsAll, hasKind_object_iff, membersOf]

theorem has_idFirst (c : Char) : Demand.idFirst.has c = Rule.isIdStart c := by
  simp only [Demand.idFirst, CharSet.has, Rule.isIdStart, Char.isAlphanum, Char.isAlpha,
    Char.isUpper, Char.isLower, Char.isDigit, Bool.false_or, Bool.decide_and]
  rfl

theorem has_idMore (c : Char) : Demand.idMore.has c = Rule.isIdChar c := by
  show (Demand.idFirst.has c || c == '_' || c == '-') = Rule.isIdChar c
  rw [has_idFirst]
  rfl

/-- The pattern of the schema and the test of a rule's id agree. -/
theorem meets_id_iff : Meets target Demand.id v ↔ ∃ s, v = .str s ∧ Rule.isId s := by
  have hrun (s : String) :
      (Pattern.anchoredRun Demand.idFirst Demand.idMore).occursIn s = Rule.isId s := by
    rw [Bool.eq_iff_iff, Pattern.occursIn_anchoredRun, Rule.isId]
    cases s.toList with
    | nil => simp
    | cons x xs => simp [has_idFirst, has_idMore, and_assoc]
  cases v <;> simp [Demand.id, Meets, MeetsAll, hasKind_string_iff, hrun]

theorem same_str_iff {w : Json} {s : String} : w.same (.str s) = true ↔ w = .str s := by
  cases w <;> simp [Json.same]

theorem str_same_iff {w : Json} {s : String} : (Json.str s).same w = true ↔ w = .str s := by
  cases w with
  | str t => simp [Json.same, @eq_comm _ t]
  | _ => simp [Json.same]

theorem meets_version_iff : Meets target Demand.version v ↔ v = .str Contract.currentVersion := by
  simp [Demand.version, Meets, MeetsAll, str_same_iff]

theorem meets_metrics_iff : Meets target Demand.metrics v ↔ ∃ members, v = .obj members := by
  simp [Demand.metrics, Meets, MeetsAll, hasKind_object_iff]

theorem meets_severity_iff : Meets target Demand.severity v ↔ ∃ s : Severity, v = s.toJson := by
  have hnames : Severity.names = Severity.all.map Severity.name := rfl
  simp only [Demand.severity, Meets, MeetsAll, and_true, hnames, List.mem_map]
  constructor
  · rintro ⟨_, ⟨_, ⟨s, -, rfl⟩, rfl⟩, h⟩
    exact ⟨s, same_str_iff.1 h⟩
  · rintro ⟨s, rfl⟩
    exact ⟨s.toJson, ⟨s.name, ⟨s, by cases s <;> decide, rfl⟩, rfl⟩, same_str_iff.2 rfl⟩

theorem meets_confidence_iff :
    Meets target Demand.confidence v ↔
      ∃ n : Json.Number,
        v = .num n ∧ n.lt (.int 0) = false ∧ Json.Number.lt (.int 1) n = false := by
  cases v <;> simp [Demand.confidence, Meets, MeetsAll, hasKind_number_iff]

/-- A number of a line: whole and not negative. -/
def IsLine (n : Json.Number) : Prop := n.isWhole = true ∧ n.lt (.int 0) = false

theorem meets_line_iff : Meets target Demand.line v ↔ ∃ n, v = .num n ∧ IsLine n := by
  cases v <;> simp [Demand.line, Meets, MeetsAll, hasKind_integer_iff, IsLine]

theorem meets_lines_iff :
    Meets target Demand.lines v ↔
      ∃ m n : Json.Number, v = .arr [.num m, .num n] ∧ IsLine m ∧ IsLine n := by
  cases v with
  | arr vs =>
      simp only [Demand.lines, Meets, MeetsAll, itemsOf, meets_line_iff]
      rcases vs with _ | ⟨a, _ | ⟨b, _ | ⟨c, vs⟩⟩⟩
      · simp
      · simp
      · constructor
        · rintro ⟨-, h, -⟩
          obtain ⟨m, rfl, hm⟩ := h a (by simp)
          obtain ⟨n, rfl, hn⟩ := h b (by simp)
          exact ⟨m, n, rfl, hm, hn⟩
        · rintro ⟨m, n, h, hm, hn⟩
          cases h
          simp [hasKind_array_iff, hm, hn]
      · simp
  | _ => simp [Demand.lines, Meets, MeetsAll, hasKind_array_iff]

theorem meets_nothing_iff : Meets target Demand.nothing v ↔ v = .null := by
  simp [Demand.nothing, Meets, MeetsAll, hasKind_null_iff]

theorem meets_autofix_iff :
    Meets target Demand.autofix v ↔ v = .null ∨ Meets target Demand.autofixRecord v := by
  have hrecord : ¬ Meets target Demand.autofixRecord .null := by
    simp [Demand.autofixRecord, meets_record_iff]
  simp only [Demand.autofix, Meets, MeetsAll, MeetsOne, MeetsNone, meets_nothing_iff, and_true,
    and_false, or_false]
  by_cases hv : v = .null
  · subst hv
    simp [hrecord]
  · simp [hv]

theorem meets_generatedAt_iff :
    Meets target Demand.generatedAt v ↔ ∃ s, v = .str s ∧ Moment.isStrictText s := by
  cases v with
  | str s =>
      have hempty : Moment.isStrictText s → 1 ≤ s.length := fun h =>
        Nat.one_le_iff_ne_zero.2 fun h0 => by
          rw [String.length_eq_zero_iff.1 h0] at h
          exact absurd h (by decide)
      simpa [Demand.generatedAt, Meets, MeetsAll, hasKind_string_iff] using hempty
  | _ => simp [Demand.generatedAt, Meets, MeetsAll, hasKind_string_iff]

end

/-! ### The forms of a contract's parts -/

/-- What the schema of a piece of evidence says of a value. -/
def EvidenceForm : Json → Prop := Meets (fun _ _ => True) Demand.evidence

/-- What the schema of a rule says of a value. -/
def RuleForm : Json → Prop := Meets (fun _ => EvidenceForm) Demand.rule

/-- What the bundled schema says of a value. -/
def ContractForm : Json → Prop := Meets (fun _ => RuleForm) Demand.contract

section

variable {target : String → Json → Prop} {v : Json}

theorem meets_evidence_iff : Meets target Demand.evidence v ↔ EvidenceForm v := by
  simp only [EvidenceForm, Demand.evidence, Demand.record, Demand.filledText, Demand.lines,
    Demand.line, Meets, MeetsAll, MeetsMember]

theorem meets_rule_iff (h : ∀ v, target Demand.evidenceName v ↔ EvidenceForm v) :
    Meets target Demand.rule v ↔ RuleForm v := by
  simp only [RuleForm, Demand.rule, Demand.ruleMembers, Demand.record, Demand.id,
    Demand.filledText, Demand.text, Demand.filledList, Demand.list, Demand.severity,
    Demand.confidence, Demand.autofix, Demand.nothing, Demand.autofixRecord, Meets, MeetsAll,
    MeetsMember, MeetsOne, MeetsNone, h]

theorem meets_contract_iff (h : ∀ v, target Demand.ruleName v ↔ RuleForm v) :
    Meets target Demand.contract v ↔ ContractForm v := by
  simp only [ContractForm, Demand.contract, Demand.contractMembers, Demand.record, Demand.repo,
    Demand.filledText, Demand.generatedAt, Demand.version, Demand.metrics, Demand.list, Meets,
    MeetsAll, MeetsMember, h]

end

/-- What the schema of a rule says of one of its members. -/
def RuleMember (name : String) (v : Json) : Prop :=
  MeetsMember (fun _ => EvidenceForm) Demand.ruleMembers name v

theorem ruleForm_iff {v : Json} :
    RuleForm v ↔
      ∃ members, v = .obj members ∧ (∀ m ∈ members, RuleMember m.1 m.2) ∧
        ∀ n ∈ Demand.ruleNeeded, (Json.Members.get? n members).isSome := by
  rw [RuleForm, Demand.rule, meets_record_iff]
  rfl

theorem ruleForm_obj_iff {members : Json.Members} :
    RuleForm (.obj members) ↔
      (∀ m ∈ members, RuleMember m.1 m.2) ∧
        ∀ n ∈ Demand.ruleNeeded, (Json.Members.get? n members).isSome := by
  simp [ruleForm_iff]

/-- What the schema of a contract says of one of its members. -/
def ContractMember (name : String) (v : Json) : Prop :=
  MeetsMember (fun _ => RuleForm) Demand.contractMembers name v

theorem contractForm_iff {v : Json} :
    ContractForm v ↔
      ∃ members, v = .obj members ∧ (∀ m ∈ members, ContractMember m.1 m.2) ∧
        ∀ n ∈ Demand.contractNeeded, (Json.Members.get? n members).isSome := by
  cases v <;>
    simp [ContractForm, Demand.contract, Meets, MeetsAll, hasKind_object_iff, membersOf, ContractMember]

theorem contractForm_obj_iff {members : Json.Members} :
    ContractForm (.obj members) ↔
      (∀ m ∈ members, ContractMember m.1 m.2) ∧
        ∀ n ∈ Demand.contractNeeded, (Json.Members.get? n members).isSome := by
  simp [contractForm_iff]

theorem target?_evidenceName :
    standard.schema.target? Demand.evidenceName = some Demand.evidence := by rfl

theorem target?_ruleName : standard.schema.target? Demand.ruleName = some Demand.rule := by rfl

theorem meetsWithin_evidence_iff {hops : Nat} {v : Json} :
    standard.schema.MeetsWithin hops Demand.evidence v ↔ EvidenceForm v := by
  cases hops <;> exact meets_evidence_iff

theorem meetsWithin_rule_iff {hops : Nat} {v : Json} :
    standard.schema.MeetsWithin (hops + 1) Demand.rule v ↔ RuleForm v :=
  meets_rule_iff fun v => by simp [target?_evidenceName, meetsWithin_evidence_iff]

theorem meetsWithin_contract_iff {hops : Nat} {v : Json} :
    standard.schema.MeetsWithin (hops + 2) Demand.contract v ↔ ContractForm v :=
  meets_contract_iff fun v => by simp [target?_ruleName, meetsWithin_rule_iff]

/-- Every value may be checked with three references in a row. -/
theorem exists_hops_eq (v : Json) :
    ∃ hops, (depth v + 1) * (standard.schema.targets.length + 1) = hops + 3 := by
  have h : standard.schema.targets.length + 1 = 3 := rfl
  exact ⟨depth v * 3, by rw [h]; omega⟩

/-- **The check against the bundled schema**, as a statement about the value. -/
theorem check_standard_eq_nil_iff {v : Json} : standard.check v = [] ↔ ContractForm v := by
  obtain ⟨hops, h⟩ := exists_hops_eq v
  rw [check, List.map_eq_nil_iff, Document.check_eq_nil_iff, h]
  exact meetsWithin_contract_iff

/-- **The check against the schema of a rule**, which the document holds under its name. -/
theorem accepts_rule_iff {v : Json} :
    Document.accepts { standard.schema with root := Demand.rule } v = true ↔ RuleForm v := by
  obtain ⟨hops, h⟩ := exists_hops_eq v
  rw [Document.accepts_withRoot_iff, h]
  exact meetsWithin_rule_iff

end ContractSchema

end StyleContract
