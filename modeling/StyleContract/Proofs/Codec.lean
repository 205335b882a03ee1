import StyleContract.Proofs.Contract.Conformity
import StyleContract.Proofs.Contract.Telling
import StyleContract.Proofs.Document.YamlReading
import StyleContract.Proofs.Moment.RoundTrip
import StyleContract.Proofs.Store
import StyleContract.Proofs.Yaml.RoundTrip
import StyleContract.Store

/-!
# Proofs — Codec

What is written of a contract is read as the contract, in both formats (`decode_encode`): each gives
back the value that it printed (`givesBack_json`, `givesBack_yaml`). So distinct contracts are stored
as distinct texts (`encode_injective`).
-/

namespace StyleContract.Codec
open Document ContractSchema

/-- A reader of the format gives back the value that was printed. -/
def GivesBack (v : Json) : Codec → Prop
  | .json => Json.readRaw (v.pretty ++ "\n") = .ok v
  | .yaml => ∃ n, Yaml.Node.ofText? (Yaml.print v) = some (some n) ∧ n.Says v

/-- What the schema accepts has a date that can be read and confidences that are numbers. -/
theorem of_accept {c : Contract} (haccept : ContractSchema.standard.accept c = .ok ()) :
    Moment.isStrictText c.generatedAt.toText = true ∧
      ∀ r ∈ c.rules, Rule.isConfidence r.confidence = true := by
  have hviolations := accept_eq_ok_iff.1 haccept
  rw [violations_eq_nil_iff, check_standard_eq_nil_iff, contractForm_toJson_iff] at hviolations
  obtain ⟨⟨-, -, hmoment, hrules⟩, -⟩ := hviolations
  exact ⟨hmoment, fun r hr => (ruleForm_toJson_iff.1 (hrules r hr)).2.2.2.2.1⟩

theorem decode_encode_of_givesBack {codec : Codec} {c : Contract}
    (haccept : ContractSchema.standard.accept c = .ok ()) (hproper : c.generatedAt.Proper)
    (hcounts : ∀ m, c.metrics = some m → m.Counts) (hback : codec.GivesBack c.toJson) :
    codec.decode (codec.encode c) = .ok c := by
  obtain ⟨hstrict, hconfidence⟩ := of_accept haccept
  have hmoment : Moment.ofText c.generatedAt.toText = .ok c.generatedAt :=
    Moment.ofText_toText hproper hstrict
  have hfinite : ∀ r ∈ c.rules, r.confidence.isFinite = true := fun r hr =>
    (Rule.isConfidence_iff.1 (hconfidence r hr)).1
  cases codec with
  | json =>
      have hread : Contract.read Document.json c.toJson = .ok c :=
        Contract.read_of_says faithful_json hmoment hfinite hcounts rfl
      have hback : Json.readRaw (c.toJson.pretty ++ "\n") = .ok c.toJson := hback
      rw [encode, decode, decodeJson, hback]
      dsimp only
      rw [hread]
  | yaml =>
      obtain ⟨n, hn, hsays⟩ := hback
      have hread : Contract.read Document.yaml n = .ok c :=
        Contract.read_of_says faithful_yaml hmoment hfinite hcounts hsays
      rw [encode, decode, decodeYaml, hn]
      dsimp only [Option.getD_some]
      rw [hread]

/-- A number is read back from what each of the two formats writes of it. -/
def ReadsBack (x : Float) : Prop :=
  Json.Number.ReadsBack (.float x) ∧
    Yaml.Core.float? (Yaml.Printer.numberLayout.render x).toList = some x

theorem givesBack_json {c : Contract} (hnumbers : ∀ r ∈ c.rules, ReadsBack r.confidence)
    (hcounts : ∀ m, c.metrics = some m → m.Counts) : Codec.json.GivesBack c.toJson :=
  Json.readRaw_pretty (Contract.nests_toJson (fun _ => Json.readsBack_natural)
    (fun r hr _ => (hnumbers r hr).1) hcounts)

theorem givesBack_yaml {c : Contract} (hnumbers : ∀ r ∈ c.rules, ReadsBack r.confidence)
    (hcounts : ∀ m, c.metrics = some m → m.Counts) : Codec.yaml.GivesBack c.toJson := by
  have hnatural : ∀ n : Nat, n < 2 ^ 64 → Yaml.ReadsBack (.int n) := fun n hn =>
    ⟨Int.le_trans (by decide) (Int.natCast_nonneg n),
      Int.ofNat_lt.2 (Nat.lt_trans hn (by decide))⟩
  have hnests : Json.Nests Yaml.ReadsBack (122 + 6) c.toJson :=
    Contract.nests_toJson hnatural (fun r hr hfinite => ⟨hfinite, (hnumbers r hr).2⟩) hcounts
  exact Yaml.ofText?_print hnests (Nat.le_refl _) (List.cons_ne_nil _ _)

/-- The file of a contract gives the contract back. -/
theorem decode_encode_of_readsBack {codec : Codec} {c : Contract}
    (haccept : ContractSchema.standard.accept c = .ok ()) (hproper : c.generatedAt.Proper)
    (hcounts : ∀ m, c.metrics = some m → m.Counts)
    (hnumbers : ∀ r ∈ c.rules, ReadsBack r.confidence) : codec.decode (codec.encode c) = .ok c := by
  cases codec with
  | json => exact decode_encode_of_givesBack haccept hproper hcounts (givesBack_json hnumbers hcounts)
  | yaml => exact decode_encode_of_givesBack haccept hproper hcounts (givesBack_yaml hnumbers hcounts)

/-- **Distinct contracts are stored as distinct texts.** -/
theorem encode_injective {codec : Codec} {c d : Contract}
    (hc : ContractSchema.standard.accept c = .ok ()) (hd : ContractSchema.standard.accept d = .ok ())
    (hproper : c.generatedAt.Proper ∧ d.generatedAt.Proper)
    (hcounts : ∀ m, c.metrics = some m ∨ d.metrics = some m → m.Counts)
    (hnumbers : ∀ r ∈ c.rules ++ d.rules, ReadsBack r.confidence)
    (h : codec.encode c = codec.encode d) : c = d := by
  have hback : codec.decode (codec.encode c) = .ok c := decode_encode_of_readsBack hc hproper.1
    (fun m hm => hcounts m (.inl hm)) fun r hr => hnumbers r (List.mem_append_left _ hr)
  have hback' : codec.decode (codec.encode d) = .ok d := decode_encode_of_readsBack hd hproper.2
    (fun m hm => hcounts m (.inr hm)) fun r hr => hnumbers r (List.mem_append_right _ hr)
  rw [h, hback'] at hback
  exact (Except.ok.inj hback).symm

/-- **What is stored of a contract is read as that contract**, and accepted again. -/
theorem decode_encode {schema : ContractSchema} {c : Contract} {path : String}
    (hschema : bundled = .ok schema) (haccept : schema.accept c = .ok ())
    (hproper : c.generatedAt.Proper) (hcounts : ∀ m, c.metrics = some m → m.Counts)
    (hnumbers : ∀ r ∈ c.rules, ReadsBack r.confidence) :
    ∃ d, (ofPath path).decode ((ofPath path).encode c) = .ok d ∧ d = c ∧
      schema.accept d = .ok () := by
  obtain rfl : ContractSchema.standard = schema := Except.ok.inj (bundled_eq.symm.trans hschema)
  exact ⟨c, decode_encode_of_readsBack haccept hproper hcounts hnumbers, rfl, haccept⟩

/-- A rule that is sure. -/
def sureRule : Rule where
  id := "PY-LOG-001"
  title := "null"
  statement := "Log."
  scope := ["**/*.py"]
  severity := .warn
  confidence := 1.0
  evidence := [⟨"a.py", ⟨1, 2⟩, "1e3"⟩]

/-- A contract of one rule, dated at a leap second. -/
def sureContract : Contract where
  schemaVersion := "1.0"
  repo := ⟨none, "0"⟩
  generatedAt := ⟨1483228799, 1500000000⟩
  rules := [sureRule]
  metrics := some (Keyed.ofList [("files", Json.ofNat 3)])

theorem accept_sureContract : ContractSchema.standard.accept sureContract = .ok () := by
  refine accept_eq_ok_iff.2 (violations_standard_eq_nil rfl ⟨by decide, by decide⟩
    (by decide) ?_ (List.nodup_singleton _))
  have hsound : sureRule.problems = [] := by decide
  exact List.forall_mem_singleton.2 hsound

theorem readsBack_one : ReadsBack 1.0 :=
  ⟨Store.eq_ok_of_toOption (by decide), by decide⟩

theorem counts_sureContract : ∀ m, sureContract.metrics = some m → m.Counts := by
  rintro m ⟨⟩ e he
  obtain rfl : e = ("files", Json.ofNat 3) := List.mem_singleton.1 he
  exact ⟨3, by decide, rfl⟩

/-- The contract is stored in either format. -/
theorem decode_encode_sureContract :
    bundled = .ok ContractSchema.standard ∧
      ContractSchema.standard.accept sureContract = .ok () ∧
      ofPath "c.json" = .json ∧ ofPath "c.yaml" = .yaml ∧
      ∀ path ∈ ["c.json", "c.yaml"], ∃ d,
        (ofPath path).decode ((ofPath path).encode sureContract) = .ok d ∧ d = sureContract ∧
          ContractSchema.standard.accept d = .ok () :=
  ⟨bundled_eq, accept_sureContract, by decide, by decide, fun path _ =>
    decode_encode bundled_eq accept_sureContract (.inr ⟨by decide, by decide⟩) counts_sureContract
      (List.forall_mem_singleton.2 readsBack_one)⟩

end StyleContract.Codec
