import StyleContract.Proofs.Contract.Conformity
import StyleContract.Proofs.Contract.Repeats
import StyleContract.Proofs.Schema.Places

/-!
# Proofs — Contract — Violations

What the builder says of a contract that it does not take. A rule's value has all members that its
schema asks for and no others, so what is found in it lies in one of its members
(`exists_member_of_mem_findings_rule`); what is found in the value of a rule is found in the value
of a contract that holds the rule (`mem_findings_of_mem_findings_rule`). So **no rule that breaks its
schema goes unnamed** (`exists_violation_of_not_ruleForm`), however many others do.

**A refusal names every breach** (`build_names_every_breach`): the breaches of the schema, then the
repeated ids.
-/

namespace StyleContract
open ContractSchema Schema

/-! ### Findings in a rule -/

section

variable {follow : String → List Json.Step → Json → List Finding}

/-- In an object with all its members and no others, what is found lies in a member. -/
theorem exists_member_of_mem_findings_record {needed : List String}
    {known : List (String × Schema)} {path : List Json.Step} {members : Json.Members} {f : Finding}
    (hf : ∀ name path v, Below path (follow name path v))
    (hknown : ∀ m ∈ members, known.any (·.1 == m.1) = true)
    (hneeded : ∀ n ∈ needed, (Json.Members.get? n members).isSome)
    (h : f ∈ findings follow (Demand.record needed known) path (.obj members)) :
    ∃ m ∈ members, path ++ [.member m.1] <+: f.path := by
  have htype : findings follow (.type [.object]) path (.obj members) = [] := rfl
  have hunknown : members.filter (fun m => !(known.any (·.1 == m.1))) = [] :=
    List.filter_eq_nil_iff.2 fun m hm => by simp [hknown m hm]
  have hmissing : findings follow (.required needed) path (.obj members) = [] := by
    simpa [findings, List.filter_eq_nil_iff, Option.isSome_iff_ne_none] using hneeded
  have hnone : findings follow (.every []) path (.obj members) = [] := rfl
  rw [Demand.record, findings, findingsOfAll, findingsOfAll, findingsOfAll, findingsOfAll, htype,
    hmissing, hnone, findings, membersOf, hunknown] at h
  have hmembers : f ∈ members.flatMap fun m =>
      findingsOfMember follow known m.1 (path ++ [.member m.1]) m.2 := by
    simpa [findingsOfAll] using h
  obtain ⟨m, hm, hmem⟩ := List.mem_flatMap.1 hmembers
  exact ⟨m, hm, below_findingsOfMember hf known m.1 _ m.2 f hmem⟩

end

theorem names_of_toJson_eq_obj {r : Rule} {members : Json.Members}
    (h : r.toJson = .obj members) :
    (∀ m ∈ members, Demand.ruleMembers.any (·.1 == m.1) = true) ∧
      ∀ n ∈ Demand.ruleNeeded, (Json.Members.get? n members).isSome := by
  cases h
  refine ⟨?_, by simp [isSome_get?_iff, Demand.ruleNeeded]⟩
  simp only [List.forall_mem_append, List.forall_mem_cons, forall_mem_optionalMember]
  cases r.relatedRules <;> simp [Demand.ruleMembers]

/-- **What is found in the value of a rule lies in one of its members.** -/
theorem exists_member_of_mem_findings_rule {hops : Nat} {path : List Json.Step} {r : Rule}
    {f : Finding} (h : f ∈ standard.schema.findingsWithin hops Demand.rule path r.toJson) :
    ∃ name, path ++ [.member name] <+: f.path := by
  obtain ⟨members, hmembers⟩ : ∃ members, r.toJson = .obj members := ⟨_, rfl⟩
  obtain ⟨hknown, hneeded⟩ := names_of_toJson_eq_obj hmembers
  rw [hmembers, Document.findingsWithin_eq] at h
  obtain ⟨m, -, hm⟩ := exists_member_of_mem_findings_record
    (standard.schema.below_follow hops) hknown hneeded h
  exact ⟨m.1, hm⟩

/-! ### Findings in a contract -/

/-- **What is found in a rule is found in the contract**, below the place of the rule. -/
theorem mem_findings_of_mem_findings_rule {hops i : Nat} {c : Contract} {r : Rule} {f : Finding}
    (hr : c.rules[i]? = some r)
    (h : f ∈ standard.schema.findingsWithin (hops + 1) Demand.rule [.member "rules", .item i]
      r.toJson) :
    f ∈ standard.schema.findingsWithin (hops + 2) Demand.contract [] c.toJson := by
  obtain ⟨follow, hfollow⟩ : ∃ follow, follow = standard.schema.follow (hops + 2) := ⟨_, rfl⟩
  have hitem : (c.rules.map Rule.toJson)[i]? = some r.toJson := by
    rw [List.getElem?_map, hr, Option.map_some]
  have hitems : f ∈ eachItem (findings follow (.reference Demand.ruleName)) [.member "rules"] 0
      (c.rules.map Rule.toJson) := by
    refine mem_eachItem hitem ?_
    rw [findings, hfollow, Document.follow_eq target?_ruleName, Nat.zero_add]
    exact h
  have hlist : f ∈ findings follow (Demand.list (.reference Demand.ruleName)) [.member "rules"]
      (.arr (c.rules.map Rule.toJson)) :=
    mem_findingsOfAll (s := .items (.reference Demand.ruleName)) (by simp) hitems
  have hclosed : f ∈ findings follow (.closed Demand.contractMembers) [] c.toJson := by
    refine List.mem_append_left _ (List.mem_flatMap.2
      ⟨("rules", .arr (c.rules.map Rule.toJson)), ?_, hlist⟩)
    simp [Contract.toJson, membersOf]
  rw [Document.findingsWithin_eq, ← hfollow]
  exact mem_findingsOfAll (s := .closed Demand.contractMembers) (by simp) hclosed

/-! ### Pointers -/

theorem Json.toList_pointer_append (steps more : List Json.Step) :
    (Json.pointer (steps ++ more)).toList =
      (Json.pointer steps).toList ++ (Json.pointer more).toList := by
  simp [Json.pointer]

/-- A path into a member is written as the path before it, a slash, and more. -/
theorem Json.pointer_prefix {path steps : List Json.Step} {name : String}
    (h : path ++ [.member name] <+: steps) :
    (Json.pointer path ++ "/").toList <+: (Json.pointer steps).toList := by
  obtain ⟨more, rfl⟩ := h
  rw [List.append_assoc, toList_pointer_append, String.toList_append]
  refine (List.prefix_append_right_inj _).2 ?_
  simp [Json.pointer]

/-- The place of a rule in a contract. -/
def rulePath (i : Nat) : List Json.Step := [.member "rules", .item i]

theorem pointer_rulePath (i : Nat) : Json.pointer (rulePath i) = "/rules/" ++ toString i := by
  rw [← String.toList_inj]
  simp [rulePath, Json.pointer]

/-- **No rule that breaks its schema goes unnamed.** -/
theorem exists_violation_of_not_ruleForm {c : Contract} {i : Nat} {r : Rule}
    (hr : c.rules[i]? = some r) (h : ¬ RuleForm r.toJson) :
    ∃ v ∈ standard.check c.toJson,
      ("/rules/" ++ toString i ++ "/").toList <+: v.path.toList := by
  obtain ⟨hops, hhops⟩ := exists_hops_eq c.toJson
  have hfound : standard.schema.findingsWithin (hops + 2) Demand.rule (rulePath i) r.toJson ≠ [] :=
    fun hnil => h (meetsWithin_rule_iff.1 ((Document.findingsWithin_eq_nil_iff ..).1 hnil))
  obtain ⟨f, hf⟩ := List.exists_mem_of_ne_nil _ hfound
  obtain ⟨name, hname⟩ := exists_member_of_mem_findings_rule hf
  refine ⟨.ofFinding f, List.mem_map_of_mem ?_, ?_⟩
  · rw [Document.check, hhops]
    exact mem_findings_of_mem_findings_rule hr hf
  · rw [← pointer_rulePath]
    exact Json.pointer_prefix hname

/-! ### What the builder says -/

/-- A contract that is not taken is refused with everything that keeps it from being taken. -/
theorem build_eq_error {s : ContractSchema} {repo : RepoIdentity} {rules : List Rule}
    {metrics : Option Metrics} {generatedAt : Moment} {c : Contract}
    (hc : c = ⟨Contract.currentVersion, repo, generatedAt, rules, metrics⟩)
    (hne : s.violations c ≠ []) :
    s.build repo rules metrics generatedAt = .error (.invalidContract (s.violations c)) := by
  have haccept : s.accept c = .error (.invalidContract (s.violations c)) := by
    rw [accept]
    split
    · next hnil => exact absurd hnil hne
    · rfl
  rw [build, ← hc, haccept]
  rfl

theorem repeatedIdViolations_eq (rules : List Rule) :
    Contract.repeatedIdViolations rules = (repeated rules).map fun e =>
      ⟨"/rules/" ++ toString e.2 ++ "/id", "duplicate rule id '" ++ e.1.id ++ "'"⟩ := by
  rw [Contract.repeatedIdViolations, repeatedIds_eq, List.map_map]
  rfl

/-- **A contract is built if and only if it is well-formed, and a refusal names every breach.** The
breaches of the schema come first; each rule that breaks the schema of a rule has one at a place
inside it. After them stand the rules that come after one of their id, each once and in order. -/
theorem build_names_every_breach {schema : ContractSchema} {rule : Schema}
    (hschema : bundled = .ok schema)
    (hrule : schema.schema.target? "#/definitions/rule" = some rule)
    (repo : RepoIdentity) (rules : List Rule) (metrics : Option Metrics) (generatedAt : Moment)
    (hmoment : Moment.isStrictText generatedAt.toText = true) :
    ((∃ c, schema.build repo rules metrics generatedAt = .ok c) ↔
      repo.sha ≠ "" ∧ repo.remote ≠ some "" ∧ (rules.map Rule.id).Nodup ∧
        ∀ r ∈ rules, Document.accepts { schema.schema with root := rule } r.toJson = true) ∧
    ((¬ ∃ c, schema.build repo rules metrics generatedAt = .ok c) →
      ∃ found, schema.build repo rules metrics generatedAt =
          .error (.invalidContract (found ++ (repeated rules).map fun e =>
            ⟨"/rules/" ++ toString e.2 ++ "/id", "duplicate rule id '" ++ e.1.id ++ "'"⟩)) ∧
        found = schema.check
          (Contract.toJson ⟨Contract.currentVersion, repo, generatedAt, rules, metrics⟩) ∧
        ∀ (i : Nat) (r : Rule), rules[i]? = some r →
          Document.accepts { schema.schema with root := rule } r.toJson = false →
          ∃ v ∈ found, ("/rules/" ++ toString i ++ "/").toList <+: v.path.toList) := by
  obtain rfl : standard = schema := Except.ok.inj (bundled_eq.symm.trans hschema)
  obtain rfl : Demand.rule = rule := Option.some.inj (target?_ruleName.symm.trans hrule)
  obtain ⟨c, hc⟩ : ∃ c : Contract,
      c = ⟨Contract.currentVersion, repo, generatedAt, rules, metrics⟩ := ⟨_, rfl⟩
  have hviolations : standard.violations c = standard.check c.toJson ++
      (repeated rules).map fun e =>
        ⟨"/rules/" ++ toString e.2 ++ "/id", "duplicate rule id '" ++ e.1.id ++ "'"⟩ := by
    rw [violations, repeatedIdViolations_eq, hc]
  have hbuild : (∃ c, standard.build repo rules metrics generatedAt = .ok c) ↔
      standard.violations c = [] := by simp [build_eq_ok_iff, hc]
  refine ⟨?_, fun hnot => ⟨standard.check c.toJson, ?_, by rw [hc], fun i r hr hno => ?_⟩⟩
  · rw [hbuild, violations_eq_nil_iff, check_standard_eq_nil_iff, contractForm_toJson_iff, hc]
    simp only [accepts_rule_iff]
    constructor
    · rintro ⟨⟨-, ⟨hsha, hremote⟩, -, hforms⟩, hids⟩
      exact ⟨hsha, hremote, hids, hforms⟩
    · rintro ⟨hsha, hremote, hids, hforms⟩
      exact ⟨⟨trivial, ⟨hsha, hremote⟩, hmoment, hforms⟩, hids⟩
  · rw [← hviolations]
    exact build_eq_error hc fun hnil => hnot (hbuild.2 hnil)
  · refine exists_violation_of_not_ruleForm (by rw [hc]; exact hr) fun hform => ?_
    rw [accepts_rule_iff.2 hform] at hno
    cases hno

/-- A rule without a title. -/
def untitled : Rule where
  id := "PY-LOG-001"
  title := ""
  statement := "Log."
  scope := ["**/*.py"]
  severity := .warn
  confidence := 1
  evidence := [Evidence.at "a.py" ⟨1, 1⟩]

theorem build_names_untitled :
    bundled = .ok standard ∧ standard.schema.target? "#/definitions/rule" = some Demand.rule ∧
      Moment.isStrictText (Moment.toText ⟨0, 0⟩) = true ∧
      ((∃ c, standard.build ⟨none, "a"⟩ [untitled, untitled] none ⟨0, 0⟩ = .ok c) ↔
        "a" ≠ "" ∧ (none : Option String) ≠ some "" ∧
          ([untitled, untitled].map Rule.id).Nodup ∧
          ∀ r ∈ [untitled, untitled],
            Document.accepts { standard.schema with root := Demand.rule } r.toJson = true) ∧
      ((¬ ∃ c, standard.build ⟨none, "a"⟩ [untitled, untitled] none ⟨0, 0⟩ = .ok c) →
        ∃ found, standard.build ⟨none, "a"⟩ [untitled, untitled] none ⟨0, 0⟩ =
            .error (.invalidContract (found ++ (repeated [untitled, untitled]).map fun e =>
              ⟨"/rules/" ++ toString e.2 ++ "/id", "duplicate rule id '" ++ e.1.id ++ "'"⟩)) ∧
          found = standard.check (Contract.toJson
            ⟨Contract.currentVersion, ⟨none, "a"⟩, ⟨0, 0⟩, [untitled, untitled], none⟩) ∧
          ∀ (i : Nat) (r : Rule), [untitled, untitled][i]? = some r →
            Document.accepts { standard.schema with root := Demand.rule } r.toJson = false →
            ∃ v ∈ found, ("/rules/" ++ toString i ++ "/").toList <+: v.path.toList) :=
  ⟨bundled_eq, target?_ruleName, by decide,
    build_names_every_breach bundled_eq target?_ruleName ⟨none, "a"⟩ [untitled, untitled] none
      ⟨0, 0⟩ (by decide)⟩

end StyleContract
