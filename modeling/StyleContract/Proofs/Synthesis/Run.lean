import StyleContract.Proofs.Moment.Text
import StyleContract.Proofs.Synthesis.Dedupe
import StyleContract.Proofs.Synthesis.Extraction
import StyleContract.Proofs.Synthesis.Projection
import StyleContract.Synthesis.Run

/-!
# Proofs — Synthesis — Run

What a run gives. Its contract holds the first rule of each id out of the rules that were gathered,
those from signals before those from replies (`rules_of_ofBundle`), and the run succeeds as soon as
the schema accepts these rules (`exists_ofBundle_eq_ok`).

**No reply can make a run fail** (`exists_ofBundle_of_paths`): the rules of both origins are sound,
and the bundled schema accepts sound rules.

**No reply can change a rule that follows from signals** (`signalRules_stay`): with an oracle a run
keeps every rule that it has without one, and adds rules of other ids only.
-/

namespace StyleContract.Synthesis

section

variable {s : Synthesis} {tree : Entry} {root : String} {repo : RepoIdentity} {b : Bundle}
  {now : Moment} {seconds : Float}

/-- The rules of a run, before the first one of each id is kept. -/
def gathered (s : Synthesis) (tree : Entry) (root : String) (b : Bundle) : List Rule :=
  merged (s.projector.project b.signals) (s.extract tree root b)

/-- The accounts that a run puts into its contract. -/
def accountsAt (s : Synthesis) (tree : Entry) (root : String) (b : Bundle) (seconds : Float) :
    Accounts :=
  accountsOf b (s.projector.project b.signals) (s.extract tree root b) seconds

theorem ofBundle_eq_ok_iff {o : SynthesisOutcome} :
    s.ofBundle tree root repo b now seconds = .ok o ↔
      ∃ c, s.schema.build repo (Dedupe.kept (s.gathered tree root b))
          (some (s.accountsAt tree root b seconds).summary) now = .ok c ∧
        o = ⟨c, b, (s.projector.project b.signals).length, s.extract tree root b,
          Dedupe.dropped (s.gathered tree root b), (s.accountsAt tree root b seconds).opened⟩ := by
  have hdef : s.ofBundle tree root repo b now seconds =
      (s.schema.build repo (Dedupe.kept (s.gathered tree root b))
        (some (s.accountsAt tree root b seconds).summary) now).bind fun c =>
          .ok ⟨c, b, (s.projector.project b.signals).length, s.extract tree root b,
            Dedupe.dropped (s.gathered tree root b), (s.accountsAt tree root b seconds).opened⟩ :=
    rfl
  rw [hdef]
  cases s.schema.build repo (Dedupe.kept (s.gathered tree root b))
      (some (s.accountsAt tree root b seconds).summary) now with
  | ok c => simp [Except.bind, eq_comm]
  | error e => simp [Except.bind]

/-- **The rules of a contract** are the first ones of their ids. -/
theorem rules_of_ofBundle {o : SynthesisOutcome}
    (h : s.ofBundle tree root repo b now seconds = .ok o) :
    o.contract.rules = Dedupe.kept (s.gathered tree root b) := by
  obtain ⟨c, hc, rfl⟩ := ofBundle_eq_ok_iff.1 h
  obtain ⟨rfl, -⟩ := build_eq_ok_iff.1 hc
  rfl

/-- A run succeeds if the schema accepts its rules, whatever its accounts are. -/
theorem exists_ofBundle_eq_ok
    (h : ∀ metrics, s.schema.violations
      ⟨Contract.currentVersion, repo, now, Dedupe.kept (s.gathered tree root b), metrics⟩ = []) :
    ∃ o, s.ofBundle tree root repo b now seconds = .ok o :=
  ⟨_, ofBundle_eq_ok_iff.2 ⟨_, build_eq_ok_iff.2 ⟨rfl, h _⟩, rfl⟩⟩

end

section

variable {schema : ContractSchema} {projector : Projector} {tree : Entry} {root : String}
  {repo : RepoIdentity} {b : Bundle} {now : Moment} {seconds : Float}

/-! ### No reply makes a run fail -/

theorem sound_of_mem_gathered {oracle : Option (Oracle × ExtractionConfig)} {r : Rule}
    (hpath : ∀ s ∈ b.signals, s.kind ∈ Projector.standard.kinds → s.path ≠ "")
    (h : r ∈ gathered ⟨schema, .standard, oracle⟩ tree root b) : r.Sound := by
  rcases List.mem_append.1 h with h | h
  · exact sound_of_mem_project hpath h
  · cases oracle with
    | none => cases h
    | some oracle => exact Extraction.sound_of_mem_ofPaths h

/-- The bundled schema accepts what is gathered, so a run has an outcome. -/
theorem exists_ofBundle_standard (oracle : Option (Oracle × ExtractionConfig))
    (repo : RepoIdentity) (hpath : ∀ s ∈ b.signals, s.kind ∈ Projector.standard.kinds → s.path ≠ "")
    (hsha : repo.sha ≠ "") (hremote : repo.remote ≠ some "") (hnow : now.OnClock) :
    ∃ o, ofBundle ⟨.standard, .standard, oracle⟩ tree root repo b now seconds = .ok o := by
  -- the schema takes any accounts, so those of the run need not be known
  refine exists_ofBundle_eq_ok fun metrics => ?_
  have hrules : ∀ r ∈ Dedupe.kept (gathered ⟨.standard, .standard, oracle⟩ tree root b),
      r.problems = [] := fun r hr =>
    (sound_of_mem_gathered hpath (Dedupe.mem_kept_iff.1 hr).mem).problems_eq_nil
  exact violations_standard_eq_nil rfl ⟨hsha, hremote⟩ (Moment.isStrictText_toText hnow) hrules
    (Dedupe.nodup_ids_kept _)

/-- **No reply can make a run fail.** Whatever the oracle says about a file, and whatever is wrong
with a file, there is a contract; its ids ascend, nothing is wrong with its rules, and each place of
a rule stands under its own hash. -/
theorem exists_ofBundle_of_paths (oracle : Option (Oracle × ExtractionConfig)) (tree : Entry)
    (root : String) (repo : RepoIdentity) (b : Bundle) (now : Moment) (seconds : Float)
    (hpath : ∀ s ∈ b.signals, s.kind ∈ Projector.standard.kinds → s.path ≠ "")
    (hsha : repo.sha ≠ "") (hremote : repo.remote ≠ some "") (hnow : now.OnClock) :
    ∃ schema, ContractSchema.bundled = .ok schema ∧
      ∃ o, ofBundle ⟨schema, .standard, oracle⟩ tree root repo b now seconds = .ok o ∧
        (o.contract.rules.map Rule.id).Pairwise (· < ·) ∧
        ∀ r ∈ o.contract.rules, r.problems = [] ∧
          ∀ e ∈ r.evidence, e.snippetHash = placeHash e.path e.lines := by
  obtain ⟨o, ho⟩ := exists_ofBundle_standard oracle repo hpath hsha hremote hnow
  refine ⟨.standard, ContractSchema.bundled_eq, o, ho, ?_, fun r hr => ?_⟩
  · rw [rules_of_ofBundle ho]
    exact Dedupe.pairwise_ids_kept _
  · rw [rules_of_ofBundle ho, Dedupe.mem_kept_iff] at hr
    have hsound : r.Sound := sound_of_mem_gathered hpath hr.mem
    exact ⟨hsound.problems_eq_nil, hsound.anchored⟩

/-- The setting of a line length. -/
def lineLength : Bundle where
  signals := [⟨Signal.blackLineLengthKind, .num (.int 100), "pyproject.toml", ⟨2, 2⟩, 1⟩]

/-- The file with the setting. -/
def lineLengthFile : Entry :=
  .folder [("pyproject.toml", .file "[tool.black]\nline-length = 100\n".toUTF8)]

/-- An oracle that proposes the rule of `lineLength` in other words, and another rule. -/
def proposer : Oracle where
  name := "proposer"
  ask _ := .text <|
    "[\x7b\"id\":\"PY-FMT-001\",\"statement\":\"Be wide.\",\"severity\":\"warn\"," ++
      "\"confidence\":1\x7d,\x7b\"id\":\"PY-LOG-001\",\"statement\":\"Log.\"," ++
      "\"severity\":\"warn\",\"confidence\":1\x7d]"

theorem path_lineLength_ne_empty :
    ∀ s ∈ lineLength.signals, s.kind ∈ Projector.standard.kinds → s.path ≠ "" :=
  List.forall_mem_singleton.2 fun _ => by decide

theorem onClock_zero : Moment.OnClock ⟨0, 0⟩ := ⟨by decide, by decide, by decide⟩

theorem exists_ofBundle_lineLength :
    ∃ schema, ContractSchema.bundled = .ok schema ∧
      ∃ o, ofBundle ⟨schema, .standard, some (proposer, {})⟩ lineLengthFile "" ⟨none, "a"⟩
          lineLength ⟨0, 0⟩ 0 = .ok o ∧
        (o.contract.rules.map Rule.id).Pairwise (· < ·) ∧
        ∀ r ∈ o.contract.rules, r.problems = [] ∧
          ∀ e ∈ r.evidence, e.snippetHash = placeHash e.path e.lines :=
  exists_ofBundle_of_paths _ _ _ ⟨none, "a"⟩ _ _ _ path_lineLength_ne_empty (by decide)
    (by decide) onClock_zero

/-! ### No reply changes a rule that follows from signals -/

theorem gathered_none :
    gathered ⟨schema, projector, none⟩ tree root b = projector.project b.signals :=
  List.append_nil _

theorem gathered_some {oracle : Oracle} {config : ExtractionConfig} :
    gathered ⟨schema, projector, some (oracle, config)⟩ tree root b =
      projector.project b.signals ++ (Extraction.ofPaths tree root config oracle b.paths).rules :=
  rfl

/-- **No reply can change a rule that follows from signals.** A run with an oracle has every rule of
a run without one, and each other rule has an id of its own and comes from the first candidate with
this id. -/
theorem signalRules_stay {oracle : Oracle} {config : ExtractionConfig} {now' : Moment}
    {seconds' : Float} {o o' : SynthesisOutcome}
    (h : ofBundle ⟨schema, projector, none⟩ tree root repo b now seconds = .ok o)
    (h' : ofBundle ⟨schema, projector, some (oracle, config)⟩ tree root repo b now' seconds' =
      .ok o') :
    (∀ r ∈ o.contract.rules, r ∈ o'.contract.rules) ∧
      (Extraction.order b.paths).Pairwise (· < ·) ∧
      ∀ r ∈ o'.contract.rules, r ∉ o.contract.rules →
        (∀ q ∈ projector.project b.signals, q.id ≠ r.id) ∧
          Extraction.IsFirstCandidate tree root config oracle b.paths r := by
  rw [rules_of_ofBundle h, rules_of_ofBundle h', gathered_none, gathered_some]
  refine ⟨fun r hr => ?_, Extraction.pairwise_order _, fun r hr hnot => ?_⟩
  · rw [Dedupe.mem_kept_iff] at hr ⊢
    exact isFirst_append_iff.2 (.inl hr)
  · rw [Dedupe.mem_kept_iff] at hr hnot
    rcases isFirst_append_iff.1 hr with hsignal | ⟨hids, hfirst⟩
    · exact absurd hsignal hnot
    · exact ⟨hids, Extraction.isFirst_rules_ofPaths hfirst⟩

theorem lineLength_stays :
    ∃ o o', ofBundle ⟨.standard, .standard, none⟩ lineLengthFile "" ⟨none, "a"⟩ lineLength
        ⟨0, 0⟩ 0 = .ok o ∧
      ofBundle ⟨.standard, .standard, some (proposer, {})⟩ lineLengthFile "" ⟨none, "a"⟩ lineLength
        ⟨0, 0⟩ 0 = .ok o' ∧
      (∀ r ∈ o.contract.rules, r ∈ o'.contract.rules) ∧
      (Extraction.order lineLength.paths).Pairwise (· < ·) ∧
      ∀ r ∈ o'.contract.rules, r ∉ o.contract.rules →
        (∀ q ∈ Projector.standard.project lineLength.signals, q.id ≠ r.id) ∧
          Extraction.IsFirstCandidate lineLengthFile "" {} proposer lineLength.paths r := by
  obtain ⟨o, ho⟩ := exists_ofBundle_standard none ⟨none, "a"⟩ path_lineLength_ne_empty
    (by decide) (by decide) onClock_zero
  obtain ⟨o', ho'⟩ := exists_ofBundle_standard (some (proposer, {})) ⟨none, "a"⟩
    path_lineLength_ne_empty (by decide) (by decide) onClock_zero
  exact ⟨o, o', ho, ho', signalRules_stay ho ho'⟩

end

end StyleContract.Synthesis
