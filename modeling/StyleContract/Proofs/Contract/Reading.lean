import StyleContract.Proofs.Contract.Conformity
import StyleContract.Proofs.Document.JsonReading

/-!
# Proofs — Contract — Reading

A contract that was read from a value, and the schema's word on that value. Reading is more lenient
than the schema: it passes over unknown members, takes null for what may be left out, lists for
objects and moments in many notations. A value without these liberties is *plain*.

**A value meets the schema if it is plain and the contract that was read from it meets the schema**
(`contractForm_iff_plain`); plainness is all that the contract does not tell of the value.
-/

namespace StyleContract
open ContractSchema Schema Document

/-! ### Plain values -/

def Evidence.names : List String := ["path", "lines", "snippetHash"]

def Autofix.names : List String := ["kind", "details"]

def Rule.names : List String :=
  ["id", "title", "statement", "rationale", "scope", "languages", "severity", "confidence",
    "evidence", "autofix", "relatedRules"]

def RepoIdentity.names : List String := ["remote", "sha"]

def Contract.names : List String := ["schemaVersion", "repo", "generatedAt", "rules", "metrics"]

/-- An object whose members have certain names only. -/
def HasOnly (names : List String) (v : Json) : Prop :=
  ∃ members, v = .obj members ∧ ∀ m ∈ members, m.1 ∈ names

/-- A rule without liberties. -/
structure Rule.Plain (v : Json) : Prop where
  names : HasOnly Rule.names v
  rationale : ("rationale", .null) ∉ membersOf v
  severity : ∀ w, ("severity", w) ∈ membersOf v → ∃ s, w = .str s
  evidence : ∀ ws, ("evidence", .arr ws) ∈ membersOf v → ∀ w ∈ ws, HasOnly Evidence.names w
  autofix : ∀ w, ("autofix", w) ∈ membersOf v → w = .null ∨ HasOnly Autofix.names w

/-- A contract without liberties. -/
structure Contract.Plain (v : Json) : Prop where
  names : HasOnly Contract.names v
  repo : ∀ w, ("repo", w) ∈ membersOf v →
    HasOnly RepoIdentity.names w ∧ ("remote", .null) ∉ membersOf w
  generatedAt : ∀ s, ("generatedAt", .str s) ∈ membersOf v → Moment.isStrictText s = true
  rules : ∀ ws, ("rules", .arr ws) ∈ membersOf v → ∀ w ∈ ws, Rule.Plain w
  metrics : ("metrics", .null) ∉ membersOf v

theorem mem_names_of_meetsMember {target : String → Json → Prop} {known : List (String × Schema)}
    {name : String} {v : Json} (h : MeetsMember target known name v) :
    name ∈ known.map (·.1) := by
  obtain ⟨e, he, heq⟩ := List.any_eq_true.1 (meetsMember_of_known h)
  exact List.mem_map.2 ⟨e, he, beq_iff_eq.1 heq⟩

theorem hasOnly_of_meets_record {target : String → Json → Prop} {needed : List String}
    {known : List (String × Schema)} {v : Json} (h : Meets target (Demand.record needed known) v) :
    HasOnly (known.map (·.1)) v := by
  obtain ⟨members, rfl, hmembers, -⟩ := meets_record_iff.1 h
  exact ⟨members, rfl, fun m hm => mem_names_of_meetsMember (hmembers m hm)⟩

/-! ### Lines and numbers -/

theorem Lines.read_eq_ok {v : Json} {l : Lines} (h : Lines.read json v = .ok l) :
    ∃ m n : Nat, v = .arr [.num (.int m), .num (.int n)] := by
  obtain ⟨⟨a, b⟩, hpair, h⟩ := bind_eq_ok_iff.1 h
  obtain ⟨first, hfirst, h⟩ := bind_eq_ok_iff.1 h
  obtain ⟨last, hlast, -⟩ := bind_eq_ok_iff.1 h
  obtain ⟨m, rfl⟩ := natural32_eq_ok hfirst
  obtain ⟨n, rfl⟩ := natural32_eq_ok hlast
  refine ⟨m, n, ?_⟩
  cases v with
  | arr items =>
      obtain ⟨⟨⟩, -, hitems⟩ := bind_eq_ok_iff.1 hpair
      rcases items with _ | ⟨a, _ | ⟨b, _ | ⟨c, items⟩⟩⟩
      · cases hitems
      · cases hitems
      · cases hitems
        rfl
      · cases hitems
  | _ => cases hpair

theorem meets_lines_of_read {target : String → Json → Prop} {v : Json} {l : Lines}
    (h : Lines.read json v = .ok l) : Meets target Demand.lines v := by
  obtain ⟨m, n, rfl⟩ := Lines.read_eq_ok h
  exact meets_lines_iff.2 ⟨_, _, rfl, isLine_ofNat m, isLine_ofNat n⟩

/-- A number that was read as a confidence is within the bounds of the schema itself. -/
theorem meets_confidence_of_read {target : String → Json → Prop} {v : Json} {x : Float}
    (h : json.float v = .ok x) (hx : Rule.isConfidence x = true) :
    Meets target Demand.confidence v := by
  obtain ⟨n, rfl, rfl⟩ := float_eq_ok h
  cases n with
  | int k =>
      -- the bounds are on the number as it is written, not on the float that it was rounded to
      rcases Rule.isConfidence_ofInt hx with rfl | rfl
      · exact meets_confidence_iff.2 ⟨_, rfl, by decide, by decide⟩
      · exact meets_confidence_iff.2 ⟨_, rfl, by decide, by decide⟩
  | float x => exact meets_confidence_float_iff.2 (Rule.isConfidence_iff.1 hx).2

theorem Severity.read_str_eq_ok {name : String} {s : Severity}
    (h : Severity.read json (.str name) = .ok s) : Json.str name = s.toJson := by
  obtain ⟨word, hword, hs⟩ := bind_eq_ok_iff.1 h
  have hname : word = name := by
    have hof : wordOf Severity.names name = .ok word := hword
    rw [wordOf] at hof
    split at hof <;> cases hof
    rfl
  cases hfind : Severity.ofName? word with
  | none =>
      rw [hfind] at hs
      cases hs
  | some t =>
      rw [hfind] at hs
      cases hs
      have hfound : Severity.all.find? (·.name == word) = some s := hfind
      have heq := List.find?_some hfound
      rw [Severity.toJson, beq_iff_eq.1 heq, hname]

/-! ### Evidence and repairs -/

/-- Evidence that was read from an object: each member holds what was read. -/
theorem Evidence.read_obj_eq_ok {members : Json.Members} {e : Evidence}
    (h : Evidence.read json (.obj members) = .ok e) :
    (∀ w, ("path", w) ∈ members → w = .str e.path) ∧
      (∀ w, ("lines", w) ∈ members → Lines.read json w = .ok e.lines) ∧
      (∀ w, ("snippetHash", w) ∈ members → w = .str e.snippetHash) ∧
      ∀ n ∈ Evidence.names, (Json.Members.get? n members).isSome := by
  obtain ⟨entries, hrecord, hfields⟩ := bind_eq_ok_iff.1 h
  obtain ⟨rfl, hcheck⟩ := named_eq_ok hrecord
  obtain ⟨path, hpath, hfields⟩ := bind_eq_ok_iff.1 hfields
  obtain ⟨lines, hlines, hfields⟩ := bind_eq_ok_iff.1 hfields
  obtain ⟨hash, hhash, hfields⟩ := bind_eq_ok_iff.1 hfields
  cases hfields
  refine ⟨fun w hw => text_eq_ok_iff.1 (read_of_required hcheck hpath (by decide) hw),
    fun w hw => read_of_required hcheck hlines (by decide) hw,
    fun w hw => text_eq_ok_iff.1 (read_of_required hcheck hhash (by decide) hw), ?_⟩
  simp only [Evidence.names, List.forall_mem_cons]
  exact ⟨isSome_of_required hpath, isSome_of_required hlines, isSome_of_required hhash, by simp⟩

theorem evidenceForm_iff_hasOnly {v : Json} {e : Evidence} (h : Evidence.read json v = .ok e)
    (hform : EvidenceForm e.toJson) : EvidenceForm v ↔ HasOnly Evidence.names v := by
  refine ⟨hasOnly_of_meets_record, ?_⟩
  rintro ⟨members, rfl, hnames⟩
  obtain ⟨hpath, hlines, hhash, hneeded⟩ := Evidence.read_obj_eq_ok h
  obtain ⟨hpathFilled, hhashFilled⟩ := evidenceForm_toJson_iff.1 hform
  refine meets_record_iff.2 ⟨members, rfl, ?_, hneeded⟩
  rintro ⟨name, w⟩ hw
  have hname := hnames _ hw
  simp only [Evidence.names, List.mem_cons, List.not_mem_nil, or_false] at hname
  rcases hname with rfl | rfl | rfl
  · exact meets_filledText_iff.2 ⟨_, hpath w hw, hpathFilled⟩
  · exact meets_lines_of_read (hlines w hw)
  · exact meets_filledText_iff.2 ⟨_, hhash w hw, hhashFilled⟩

theorem Autofix.read_obj_eq_ok {members : Json.Members} {f : Autofix}
    (h : Autofix.read json (.obj members) = .ok f) :
    (∀ w, ("kind", w) ∈ members → w = .str f.kind) ∧
      (∀ w, ("details", w) ∈ members → w = .str f.details) ∧
      ∀ n ∈ Autofix.names, (Json.Members.get? n members).isSome := by
  obtain ⟨entries, hrecord, hfields⟩ := bind_eq_ok_iff.1 h
  obtain ⟨rfl, hcheck⟩ := named_eq_ok hrecord
  obtain ⟨kind, hkind, hfields⟩ := bind_eq_ok_iff.1 hfields
  obtain ⟨details, hdetails, hfields⟩ := bind_eq_ok_iff.1 hfields
  cases hfields
  refine ⟨fun w hw => text_eq_ok_iff.1 (read_of_required hcheck hkind (by decide) hw),
    fun w hw => text_eq_ok_iff.1 (read_of_required hcheck hdetails (by decide) hw), ?_⟩
  simp only [Autofix.names, List.forall_mem_cons]
  exact ⟨isSome_of_required hkind, isSome_of_required hdetails, by simp⟩

theorem meets_autofixRecord_of_read {target : String → Json → Prop} {v : Json} {f : Autofix}
    (h : Autofix.read json v = .ok f) (hf : f.kind ≠ "" ∧ f.details ≠ "")
    (hv : HasOnly Autofix.names v) : Meets target Demand.autofixRecord v := by
  obtain ⟨members, rfl, hnames⟩ := hv
  obtain ⟨hkind, hdetails, hneeded⟩ := Autofix.read_obj_eq_ok h
  refine meets_record_iff.2 ⟨members, rfl, ?_, hneeded⟩
  rintro ⟨name, w⟩ hw
  have hname := hnames _ hw
  simp only [Autofix.names, List.mem_cons, List.not_mem_nil, or_false] at hname
  rcases hname with rfl | rfl
  · exact meets_filledText_iff.2 ⟨_, hkind w hw, hf.1⟩
  · exact meets_filledText_iff.2 ⟨_, hdetails w hw, hf.2⟩

/-! ### Rules -/

/-- What is read for the fields of a rule. -/
theorem Rule.read_eq_ok {v : Json} {r : Rule} (h : Rule.read json v = .ok r) :
    ∃ entries, json.record "Rule" (Rule.fields json) v = .ok entries ∧
      required entries "id" json.text = .ok r.id ∧
      required entries "title" json.text = .ok r.title ∧
      required entries "statement" json.text = .ok r.statement ∧
      defaulted entries "rationale" none (json.option json.text) = .ok r.rationale ∧
      required entries "scope" json.texts = .ok r.scope ∧
      required entries "languages" json.texts = .ok r.languages ∧
      required entries "severity" (Severity.read json) = .ok r.severity ∧
      required entries "confidence" json.float = .ok r.confidence ∧
      required entries "evidence" (json.list (Evidence.read json)) = .ok r.evidence ∧
      defaulted entries "autofix" none (json.option (Autofix.read json)) = .ok r.autofix ∧
      defaulted entries "relatedRules" [] json.texts = .ok r.relatedRules := by
  obtain ⟨entries, hrecord, hfields⟩ := bind_eq_ok_iff.1 h
  obtain ⟨id, hid, hfields⟩ := bind_eq_ok_iff.1 hfields
  obtain ⟨title, htitle, hfields⟩ := bind_eq_ok_iff.1 hfields
  obtain ⟨statement, hstatement, hfields⟩ := bind_eq_ok_iff.1 hfields
  obtain ⟨rationale, hrationale, hfields⟩ := bind_eq_ok_iff.1 hfields
  obtain ⟨scope, hscope, hfields⟩ := bind_eq_ok_iff.1 hfields
  obtain ⟨languages, hlanguages, hfields⟩ := bind_eq_ok_iff.1 hfields
  obtain ⟨severity, hseverity, hfields⟩ := bind_eq_ok_iff.1 hfields
  obtain ⟨confidence, hconfidence, hfields⟩ := bind_eq_ok_iff.1 hfields
  obtain ⟨evidence, hevidence, hfields⟩ := bind_eq_ok_iff.1 hfields
  obtain ⟨autofix, hautofix, hfields⟩ := bind_eq_ok_iff.1 hfields
  obtain ⟨relatedRules, hrelatedRules, hfields⟩ := bind_eq_ok_iff.1 hfields
  cases hfields
  exact ⟨entries, hrecord, hid, htitle, hstatement, hrationale, hscope, hlanguages, hseverity,
    hconfidence, hevidence, hautofix, hrelatedRules⟩

/-- A rule that was read from an object: each member holds what was read. -/
structure Rule.ReadFrom (members : Json.Members) (r : Rule) : Prop where
  id : ∀ w, ("id", w) ∈ members → w = .str r.id
  title : ∀ w, ("title", w) ∈ members → w = .str r.title
  statement : ∀ w, ("statement", w) ∈ members → w = .str r.statement
  rationale : ∀ w, ("rationale", w) ∈ members → json.option json.text w = .ok r.rationale
  scope : ∀ w, ("scope", w) ∈ members → w = Json.ofStrings r.scope
  languages : ∀ w, ("languages", w) ∈ members → w = Json.ofStrings r.languages
  severity : ∀ w, ("severity", w) ∈ members → Severity.read json w = .ok r.severity
  confidence : ∀ w, ("confidence", w) ∈ members → json.float w = .ok r.confidence
  evidence : ∀ w, ("evidence", w) ∈ members → json.list (Evidence.read json) w = .ok r.evidence
  autofix : ∀ w, ("autofix", w) ∈ members → json.option (Autofix.read json) w = .ok r.autofix
  relatedRules : ∀ w, ("relatedRules", w) ∈ members → w = Json.ofStrings r.relatedRules
  needed : ∀ n ∈ Demand.ruleNeeded, (Json.Members.get? n members).isSome

theorem Rule.readFrom_of_read_obj {members : Json.Members} {r : Rule}
    (h : Rule.read json (.obj members) = .ok r) : ReadFrom members r := by
  obtain ⟨entries, hrecord, hid, htitle, hstatement, hrationale, hscope, hlanguages, hseverity,
    hconfidence, hevidence, hautofix, hrelatedRules⟩ := read_eq_ok h
  obtain ⟨rfl, hcheck⟩ := named_eq_ok hrecord
  refine
    { id := fun w hw => text_eq_ok_iff.1 (read_of_required hcheck hid (by decide) hw)
      title := fun w hw => text_eq_ok_iff.1 (read_of_required hcheck htitle (by decide) hw)
      statement := fun w hw => text_eq_ok_iff.1 (read_of_required hcheck hstatement (by decide) hw)
      rationale := fun w hw => read_of_defaulted hcheck hrationale (by decide) hw
      scope := fun w hw => texts_eq_ok (read_of_required hcheck hscope (by decide) hw)
      languages := fun w hw => texts_eq_ok (read_of_required hcheck hlanguages (by decide) hw)
      severity := fun w hw => read_of_required hcheck hseverity (by decide) hw
      confidence := fun w hw => read_of_required hcheck hconfidence (by decide) hw
      evidence := fun w hw => read_of_required hcheck hevidence (by decide) hw
      autofix := fun w hw => read_of_defaulted hcheck hautofix (by decide) hw
      relatedRules := fun w hw =>
        texts_eq_ok (read_of_defaulted hcheck hrelatedRules (by decide) hw)
      needed := ?_ }
  simp only [Demand.ruleNeeded, List.forall_mem_cons]
  exact ⟨isSome_of_required hid, isSome_of_required htitle, isSome_of_required hstatement,
    isSome_of_required hscope, isSome_of_required hlanguages, isSome_of_required hseverity,
    isSome_of_required hconfidence, isSome_of_required hevidence, by simp⟩

/-- The schema of a rule allows no liberties. -/
theorem Rule.plain_of_ruleForm {v : Json} (h : RuleForm v) : Rule.Plain v := by
  have hnames : HasOnly Rule.names v := hasOnly_of_meets_record h
  obtain ⟨members, rfl, hmembers, -⟩ := ruleForm_iff.1 h
  refine ⟨hnames, fun hnull => ?_, fun w hw => ?_, fun ws hws w hw => ?_, fun w hw => ?_⟩
  · obtain ⟨s, hs⟩ := meets_text_iff.1 (hmembers _ hnull)
    cases hs
  · obtain ⟨s, rfl⟩ := meets_severity_iff.1 (hmembers _ hw)
    exact ⟨s.name, rfl⟩
  · obtain ⟨ws', heq, -, hitems⟩ := meets_filledList_iff.1 (hmembers _ hws)
    cases heq
    exact hasOnly_of_meets_record (hitems w hw)
  · rcases meets_autofix_iff.1 (hmembers _ hw) with rfl | hrecord
    · exact .inl rfl
    · exact .inr (hasOnly_of_meets_record hrecord)

/-- **A rule's value meets the schema of a rule if it is plain**, once the rule itself does. -/
theorem Rule.ruleForm_iff_plain {v : Json} {r : Rule} (h : Rule.read json v = .ok r)
    (hform : RuleForm r.toJson) : RuleForm v ↔ Rule.Plain v := by
  refine ⟨plain_of_ruleForm, fun hplain => ?_⟩
  obtain ⟨members, rfl, hnames⟩ := hplain.names
  obtain ⟨hid, htitle, hstatement, hscope, hconfidence, hevidence, hautofix⟩ :=
    ruleForm_toJson_iff.1 hform
  have hread := readFrom_of_read_obj h
  refine ruleForm_obj_iff.2 ⟨?_, hread.needed⟩
  rintro ⟨name, w⟩ hw
  have hname := hnames _ hw
  simp only [Rule.names, List.mem_cons, List.not_mem_nil, or_false] at hname
  rcases hname with rfl | rfl | rfl | rfl | rfl | rfl | rfl | rfl | rfl | rfl | rfl
  · exact meets_id_iff.2 ⟨_, hread.id w hw, hid⟩
  · exact meets_filledText_iff.2 ⟨_, hread.title w hw, htitle⟩
  · exact meets_filledText_iff.2 ⟨_, hread.statement w hw, hstatement⟩
  · rcases option_eq_ok (hread.rationale w hw) with ⟨rfl, -⟩ | ⟨s, hs, -⟩
    · exact absurd hw hplain.rationale
    · exact meets_text_iff.2 ⟨s, text_eq_ok_iff.1 hs⟩
  · rw [hread.scope w hw]
    exact meets_filledTexts_toJson_iff.2 hscope
  · rw [hread.languages w hw]
    exact meets_texts_toJson _
  · obtain ⟨s, rfl⟩ := hplain.severity w hw
    exact meets_severity_iff.2 ⟨_, Severity.read_str_eq_ok (hread.severity _ hw)⟩
  · exact meets_confidence_of_read (hread.confidence w hw) hconfidence
  · obtain ⟨ws, rfl, hmap⟩ := list_eq_ok (hread.evidence w hw)
    refine meets_filledList_iff.2 ⟨ws, rfl, ?_, fun u hu => ?_⟩
    · rintro rfl
      exact hevidence.1 (Except.ok.inj hmap).symm
    · obtain ⟨e, he, hreadItem⟩ := exists_of_mem_mapM hmap hu
      exact (evidenceForm_iff_hasOnly hreadItem (evidenceForm_toJson_iff.2 (hevidence.2 e he))).2
        (hplain.evidence ws hw u hu)
  · -- the schema allows null for a repair, and for nothing else
    rcases option_eq_ok (hread.autofix w hw) with ⟨rfl, -⟩ | ⟨f, hf, hsome⟩
    · exact meets_autofix_iff.2 (.inl rfl)
    · rcases hplain.autofix w hw with rfl | honly
      · exact meets_autofix_iff.2 (.inl rfl)
      · exact meets_autofix_iff.2 (.inr (meets_autofixRecord_of_read hf (hautofix f hsome) honly))
  · rw [hread.relatedRules w hw]
    exact meets_texts_toJson _

/-! ### Contracts -/

/-- What is read for the fields of a contract. -/
theorem Contract.read_eq_ok {v : Json} {c : Contract} (h : Contract.read json v = .ok c) :
    ∃ entries, json.record "Contract" (Contract.fields json) v = .ok entries ∧
      required entries "schemaVersion" json.text = .ok c.schemaVersion ∧
      required entries "repo" (RepoIdentity.read json) = .ok c.repo ∧
      required entries "generatedAt" json.moment = .ok c.generatedAt ∧
      required entries "rules" (json.list (Rule.read json)) = .ok c.rules ∧
      defaulted entries "metrics" none (json.option (Metrics.read json)) = .ok c.metrics := by
  obtain ⟨entries, hrecord, hfields⟩ := bind_eq_ok_iff.1 h
  obtain ⟨version, hversion, hfields⟩ := bind_eq_ok_iff.1 hfields
  obtain ⟨repo, hrepo, hfields⟩ := bind_eq_ok_iff.1 hfields
  obtain ⟨generatedAt, hgeneratedAt, hfields⟩ := bind_eq_ok_iff.1 hfields
  obtain ⟨rules, hrules, hfields⟩ := bind_eq_ok_iff.1 hfields
  obtain ⟨metrics, hmetrics, hfields⟩ := bind_eq_ok_iff.1 hfields
  cases hfields
  exact ⟨entries, hrecord, hversion, hrepo, hgeneratedAt, hrules, hmetrics⟩

/-- A contract that was read from an object: each member holds what was read. -/
structure Contract.ReadFrom (members : Json.Members) (c : Contract) : Prop where
  schemaVersion : ∀ w, ("schemaVersion", w) ∈ members → w = .str c.schemaVersion
  repo : ∀ w, ("repo", w) ∈ members → RepoIdentity.read json w = .ok c.repo
  generatedAt : ∀ w, ("generatedAt", w) ∈ members → json.moment w = .ok c.generatedAt
  rules : ∀ w, ("rules", w) ∈ members → json.list (Rule.read json) w = .ok c.rules
  metrics : ∀ w, ("metrics", w) ∈ members → json.option (Metrics.read json) w = .ok c.metrics
  needed : ∀ n ∈ Demand.contractNeeded, (Json.Members.get? n members).isSome

theorem Contract.readFrom_of_read_obj {members : Json.Members} {c : Contract}
    (h : Contract.read json (.obj members) = .ok c) : ReadFrom members c := by
  obtain ⟨entries, hrecord, hversion, hrepo, hgeneratedAt, hrules, hmetrics⟩ := read_eq_ok h
  obtain ⟨rfl, hcheck⟩ := named_eq_ok hrecord
  refine
    { schemaVersion := fun w hw =>
        text_eq_ok_iff.1 (read_of_required hcheck hversion (by decide) hw)
      repo := fun w hw => read_of_required hcheck hrepo (by decide) hw
      generatedAt := fun w hw => read_of_required hcheck hgeneratedAt (by decide) hw
      rules := fun w hw => read_of_required hcheck hrules (by decide) hw
      metrics := fun w hw => read_of_defaulted hcheck hmetrics (by decide) hw
      needed := ?_ }
  simp only [Demand.contractNeeded, List.forall_mem_cons]
  exact ⟨isSome_of_required hversion, isSome_of_required hrepo, isSome_of_required hgeneratedAt,
    isSome_of_required hrules, by simp⟩

theorem meets_repo_of_read {target : String → Json → Prop} {v : Json} {i : RepoIdentity}
    (h : RepoIdentity.read json v = .ok i) (hi : i.sha ≠ "" ∧ i.remote ≠ some "")
    (hv : HasOnly RepoIdentity.names v ∧ ("remote", .null) ∉ membersOf v) :
    Meets target Demand.repo v := by
  obtain ⟨⟨members, rfl, hnames⟩, hremoteNull⟩ := hv
  obtain ⟨entries, hrecord, hfields⟩ := bind_eq_ok_iff.1 h
  obtain ⟨rfl, hcheck⟩ := named_eq_ok hrecord
  obtain ⟨remote, hremote, hfields⟩ := bind_eq_ok_iff.1 hfields
  obtain ⟨sha, hsha, hfields⟩ := bind_eq_ok_iff.1 hfields
  cases hfields
  refine meets_record_iff.2 ⟨_, rfl, ?_, List.forall_mem_singleton.2 (isSome_of_required hsha)⟩
  rintro ⟨name, w⟩ hw
  have hname := hnames _ hw
  simp only [RepoIdentity.names, List.mem_cons, List.not_mem_nil, or_false] at hname
  rcases hname with rfl | rfl
  · rcases option_eq_ok (read_of_defaulted hcheck hremote (by decide) hw) with
      ⟨rfl, -⟩ | ⟨s, hs, rfl⟩
    · exact absurd hw hremoteNull
    · have hs' : s ≠ "" := fun hempty => hi.2 (congrArg some hempty)
      exact meets_filledText_iff.2 ⟨s, text_eq_ok_iff.1 hs, hs'⟩
  · exact meets_filledText_iff.2
      ⟨_, text_eq_ok_iff.1 (read_of_required hcheck hsha (by decide) hw), hi.1⟩

/-- The schema of a contract allows no liberties. -/
theorem Contract.plain_of_contractForm {v : Json} (h : ContractForm v) : Contract.Plain v := by
  obtain ⟨members, rfl, hmembers, -⟩ := contractForm_iff.1 h
  refine ⟨⟨members, rfl, fun m hm => mem_names_of_meetsMember (hmembers m hm)⟩, fun w hw => ?_,
    fun s hs => ?_, fun ws hws w hw => ?_, fun hnull => ?_⟩
  · have hrepo : Meets _ Demand.repo w := hmembers _ hw
    refine ⟨hasOnly_of_meets_record hrepo, fun hnull => ?_⟩
    obtain ⟨repoMembers, rfl, hrepoMembers, -⟩ := meets_record_iff.1 hrepo
    obtain ⟨s, hs, -⟩ := meets_filledText_iff.1 (hrepoMembers _ hnull)
    cases hs
  · obtain ⟨s', heq, hstrict⟩ := meets_generatedAt_iff.1 (hmembers _ hs)
    cases heq
    exact hstrict
  · obtain ⟨ws', heq, hitems⟩ := meets_list_iff.1 (hmembers _ hws)
    cases heq
    exact Rule.plain_of_ruleForm (hitems w hw)
  · obtain ⟨metrics, hmetrics⟩ := meets_metrics_iff.1 (hmembers _ hnull)
    cases hmetrics

/-- **A value meets the bundled schema if it is plain**, once the contract that was read from it
does. -/
theorem contractForm_iff_plain {v : Json} {c : Contract} (h : Contract.read json v = .ok c)
    (hform : ContractForm c.toJson) : ContractForm v ↔ Contract.Plain v := by
  refine ⟨Contract.plain_of_contractForm, fun hplain => ?_⟩
  obtain ⟨members, rfl, hnames⟩ := hplain.names
  obtain ⟨hversion, hrepo, -, hrules⟩ := contractForm_toJson_iff.1 hform
  have hread := Contract.readFrom_of_read_obj h
  refine contractForm_obj_iff.2 ⟨?_, hread.needed⟩
  rintro ⟨name, w⟩ hw
  have hname := hnames _ hw
  simp only [Contract.names, List.mem_cons, List.not_mem_nil, or_false] at hname
  rcases hname with rfl | rfl | rfl | rfl | rfl
  · refine meets_version_iff.2 ?_
    rw [hread.schemaVersion w hw, hversion]
  · exact meets_repo_of_read (hread.repo w hw) hrepo (hplain.repo w hw)
  · obtain ⟨s, rfl⟩ := moment_eq_ok (hread.generatedAt w hw)
    exact meets_generatedAt_iff.2 ⟨s, rfl, hplain.generatedAt s hw⟩
  · obtain ⟨ws, rfl, hmap⟩ := list_eq_ok (hread.rules w hw)
    refine meets_list_iff.2 ⟨ws, rfl, fun u hu => ?_⟩
    obtain ⟨r, hr, hreadItem⟩ := exists_of_mem_mapM hmap hu
    exact (Rule.ruleForm_iff_plain hreadItem (hrules r hr)).2 (hplain.rules ws hw u hu)
  · rcases option_eq_ok (hread.metrics w hw) with ⟨rfl, -⟩ | ⟨m, hm, -⟩
    · exact absurd hw hplain.metrics
    · obtain ⟨entries, hentries, -⟩ := bind_eq_ok_iff.1 hm
      exact meets_metrics_iff.2 ⟨entries, entries_eq_ok hentries⟩

/-! ### Ids -/

/-- The ids that stand in the rules of a value, whatever they are. -/
def Contract.writtenIds (v : Json) : List (Option Json) :=
  (itemsOf ((fieldOf? Contract.names "rules" v).getD .null)).map (fieldOf? Rule.names "id")

theorem Rule.fieldOf?_id {v : Json} {r : Rule} (h : Rule.read json v = .ok r) :
    fieldOf? Rule.names "id" v = some (.str r.id) := by
  obtain ⟨entries, hrecord, hid, -⟩ := read_eq_ok h
  have hfield : lookup? "id" entries = fieldOf? Rule.names "id" v := lookup?_of_record hrecord "id"
  obtain ⟨w, hw, htext⟩ := required_eq_ok_iff.1 hid
  rw [← hfield, hw, text_eq_ok_iff.1 htext]

/-- **The ids of a contract** are those that stand in the value it was read from. -/
theorem Contract.writtenIds_eq {v : Json} {c : Contract} (h : Contract.read json v = .ok c) :
    writtenIds v = c.rules.map fun r => some (.str r.id) := by
  obtain ⟨entries, hrecord, -, -, -, hrules, -⟩ := read_eq_ok h
  have hfield : lookup? "rules" entries = fieldOf? Contract.names "rules" v :=
    lookup?_of_record hrecord "rules"
  obtain ⟨w, hw, hlist⟩ := required_eq_ok_iff.1 hrules
  obtain ⟨ws, rfl, hmap⟩ := list_eq_ok hlist
  rw [writtenIds, ← hfield, hw]
  exact map_eq_of_mapM hmap fun _ _ => Rule.fieldOf?_id

/-- Distinct ids of rules stand as distinct values. -/
theorem Contract.nodup_writtenIds {v : Json} {c : Contract} (h : Contract.read json v = .ok c)
    (hids : (c.rules.map Rule.id).Nodup) : (writtenIds v).Nodup := by
  rw [writtenIds_eq h, ← Function.comp_def (fun id => some (Json.str id)) Rule.id, ← List.map_map]
  exact List.Pairwise.map _ (fun a b hne heq => hne (Json.str.inj (Option.some.inj heq))) hids

end StyleContract
