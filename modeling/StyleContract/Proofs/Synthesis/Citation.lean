import StyleContract.Proofs.Synthesis.Accounting
import StyleContract.Proofs.Synthesis.Arrival

/-!
# Proofs — Synthesis — Citation

Which lines the rules of a contract rest on. A place that was not taken from a reply has a valid range
of lines: the place of a signal, and the whole file where a candidate names no place. **A place that a
reply names is taken over as it is.** Nothing looks at its lines, neither the check of a candidate nor
that of a rule, so the citations of a contract are valid exactly if those of the candidates behind its
rules are (`cites_ranges_iff`). A run without an oracle has valid citations only.

A reply can name the lines from zero to zero, and they stand in the contract (`cites_line_zero`).
-/

namespace StyleContract

/-- Each place that the rules of a contract rest on is a range of lines. -/
def Contract.CitesRanges (c : Contract) : Prop := ∀ r ∈ c.rules, ∀ e ∈ r.evidence, e.lines.Valid

/-- The candidate names valid ranges of lines only, in the places that it does name. -/
def Candidate.CitesRanges (c : Candidate) : Prop :=
  ∀ place ∈ c.places, isBlankText place.1 = false → place.2.Valid

/-- **A rule has the places of its candidate**, or the whole file if there are none. -/
theorem Candidate.citesRanges_iff {c : Candidate} {path : String} {lineCount : UInt32}
    (hcount : 1 ≤ lineCount) :
    (∀ e ∈ (c.toRule path lineCount).evidence, e.lines.Valid) ↔ c.CitesRanges := by
  have hplaces : c.CitesRanges ↔
      ∀ place ∈ c.places.filter fun place => !isBlankText place.1, place.2.Valid := by
    simp only [CitesRanges, List.mem_filter, Bool.not_eq_true', and_imp]
  have hevidence : (c.toRule path lineCount).evidence =
      orElse ((c.places.filter fun place => !isBlankText place.1).map
        fun place => Evidence.at place.1 place.2) [Evidence.at path ⟨1, lineCount⟩] := rfl
  rw [hplaces, hevidence]
  cases c.places.filter fun place => !isBlankText place.1 with
  | nil =>
      have hfile : (Evidence.at path ⟨1, lineCount⟩).lines.Valid := ⟨UInt32.le_refl 1, hcount⟩
      exact iff_of_true (List.forall_mem_singleton.2 hfile) (List.forall_mem_nil _)
  | cons place places =>
      show (∀ e ∈ (place :: places).map fun place => Evidence.at place.1 place.2, e.lines.Valid) ↔ _
      rw [List.forall_mem_map]
      rfl

namespace Extraction

/-- One candidate that is confident and makes a sound rule brings this rule. -/
theorem rulesAt_of_sound {tree : Entry} {root : String} {config : ExtractionConfig}
    {oracle : Oracle} {path text : String} {c : Candidate}
    (htext : tree.readText (Path.join root path) = .ok text)
    (hreply : candidates config (oracle.ask (question config path text)) = .ok [c])
    (hconfident : config.minConfidence ≤ c.confidence) (hroom : 0 < config.maxRulesPerFile)
    (hsound : (c.toRule path (Text.lineCount text)).problems = []) :
    rulesAt tree root config oracle path = [c.toRule path (Text.lineCount text)] := by
  have hkept : keptRules config path text [c] = [c.toRule path (Text.lineCount text)] := by
    rw [keptRules, keptCandidates, List.filter_singleton, decide_eq_true hconfident, cond_true,
      List.take_of_length_le hroom]
    rfl
  have hnone : (keptRules config path text [c]).flatMap Rule.complaints = [] := by
    rw [hkept, List.flatMap_singleton, Rule.complaints, hsound, List.map_nil]
  have hfile : ofFile tree root config oracle path = rulesOf config path text [c] := by
    simp only [ofFile, ofReply, htext, hreply]
  rw [rulesAt, hfile, rulesOf_eq, if_pos hnone, added, hkept]

/-- A candidate of the reply about a file that is kept, and the number of the file's lines. -/
def IsKept (tree : Entry) (root : String) (config : ExtractionConfig) (oracle : Oracle)
    (path : String) (c : Candidate) (lineCount : UInt32) : Prop :=
  ∃ text all, tree.readText (Path.join root path) = .ok text ∧
    candidates config (oracle.ask (question config path text)) = .ok all ∧
    c ∈ keptCandidates config all ∧ lineCount = Text.lineCount text

/-- **A rule of an oracle is that of a kept candidate.** -/
theorem exists_isKept_of_mem_rules {tree : Entry} {root : String} {config : ExtractionConfig}
    {oracle : Oracle} {paths : List String} {r : Rule}
    (h : r ∈ (ofPaths tree root config oracle paths).rules) :
    ∃ path ∈ order paths, ∃ c lineCount, IsKept tree root config oracle path c lineCount ∧
      r = c.toRule path lineCount := by
  rw [rules_ofPaths] at h
  obtain ⟨path, hpath, hr⟩ := List.mem_flatMap.1 h
  obtain ⟨f, hf, hr⟩ := mem_rulesAt_iff.1 hr
  obtain ⟨text, all, htext, hall, hrules⟩ := ofFile_eq_ok hf
  obtain ⟨c, hc, rfl⟩ := List.mem_map.1 ((rulesOf_eq_ok hrules).1 ▸ hr)
  exact ⟨path, hpath, c, Text.lineCount text, ⟨text, all, htext, hall, hc, rfl⟩, rfl⟩

theorem IsKept.one_le {tree : Entry} {root : String} {config : ExtractionConfig} {oracle : Oracle}
    {path : String} {c : Candidate} {lineCount : UInt32}
    (h : IsKept tree root config oracle path c lineCount) : 1 ≤ lineCount := by
  obtain ⟨text, _, -, -, -, rfl⟩ := h
  exact Text.one_le_lineCount text

end Extraction

namespace Synthesis

variable {tree : Entry} {root : String} {most : Option Nat}

theorem valid_of_mem_ofRepository {s : Signal} (hnamed : tree.Named)
    (hshort : tree.Texts Text.IsShort) (h : s ∈ (Bundle.ofRepository tree root most).signals) :
    s.lines.Valid := by
  rw [Bundle.ofRepository, Bundle.signals_ofScanners] at h
  obtain ⟨_, hpart, hs⟩ := List.mem_flatten.1 h
  obtain ⟨scanner, hscanner, rfl⟩ := List.mem_map.1 hpart
  obtain ⟨signals, hsignals, hs⟩ := Scanner.scan_eq_ok_of_mem_brings hs
  exact (Scanner.sourced_of_scan hscanner hnamed hshort hsignals hs).valid

/-- **The citations of a contract are valid exactly if those of its candidates are.** -/
theorem cites_ranges_iff (schema : ContractSchema) (oracle : Option (Oracle × ExtractionConfig))
    (tree : Entry) (root : String) (most : Option Nat) (repo : RepoIdentity) (now : Moment)
    (seconds : Float) (o : SynthesisOutcome) (hnamed : tree.Named)
    (hshort : tree.Texts Text.IsShort)
    (h : ofBundle ⟨schema, .standard, oracle⟩ tree root repo (Bundle.ofRepository tree root most) now
      seconds = .ok o) :
    o.contract.CitesRanges ↔
      ∀ asked config, oracle = some (asked, config) →
        ∀ path ∈ Extraction.order o.bundle.paths, ∀ c lineCount,
          Extraction.IsKept tree root config asked path c lineCount →
          c.toRule path lineCount ∈ o.contract.rules → c.CitesRanges := by
  constructor
  · intro hall asked config _ path _ c lineCount hkept hrule
    exact (Candidate.citesRanges_iff hkept.one_le).1 (hall _ hrule)
  · intro hall r hr
    have hgathered := rules_of_ofBundle h ▸ hr
    have hmem := (Dedupe.mem_kept_iff.1 hgathered).mem
    rcases List.mem_append.1 hmem with hsignal | hreply
    · obtain ⟨s, hs, -, -, -, -, hevidence⟩ := Projector.exists_signal_of_mem_project hsignal
      rw [hevidence, List.forall_mem_singleton]
      exact valid_of_mem_ofRepository hnamed hshort hs
    · cases oracle with
      | none => cases hreply
      | some chosen =>
          obtain ⟨path, hpath, c, lineCount, hkept, rfl⟩ :=
            Extraction.exists_isKept_of_mem_rules hreply
          have hbundle : o.bundle = Bundle.ofRepository tree root most := by
            obtain ⟨_, -, rfl⟩ := ofBundle_eq_ok_iff.1 h
            rfl
          exact (Candidate.citesRanges_iff hkept.one_le).2
            (hall chosen.1 chosen.2 rfl path (hbundle ▸ hpath) c lineCount hkept hr)

/-! ### Line zero -/

/-- A reply that names the lines from zero to zero. -/
def zeroReply : String :=
  "[\x7b\"id\":\"PY-LOG-001\",\"statement\":\"Log.\",\"severity\":\"warn\"," ++
    "\"confidence\":1,\"evidence\":[\x7b\"path\":\"test.py\",\"lines\":[0,0]\x7d]\x7d]"

/-- An oracle that always gives this reply. -/
def zeroOracle : Oracle := ⟨"zero", fun _ => .text zeroReply⟩

/-- What it proposes. -/
def zeroCandidate : Candidate where
  id := "PY-LOG-001"
  statement := "Log."
  severity := .warn
  confidence := 1
  places := [("test.py", ⟨0, 0⟩)]

theorem ofReply_zeroReply : Candidate.ofReply zeroReply = .ok [zeroCandidate] :=
  Document.toOption_eq_some_iff.1 (by decide +kernel)

theorem not_citesRanges_zeroCandidate : ¬ zeroCandidate.CitesRanges := by
  intro h
  have hvalid := h ("test.py", ⟨0, 0⟩) List.mem_cons_self (by decide)
  exact absurd hvalid (by decide)

/-- Its rule passes the check of a rule. -/
theorem problems_zeroRule : (zeroCandidate.toRule "test.py" 1).problems = [] := by
  have hpath : ∀ e ∈ (zeroCandidate.toRule "test.py" 1).evidence, e.path ≠ "" := by decide
  have hhash : ∀ e ∈ (zeroCandidate.toRule "test.py" 1).evidence, e.snippetHash ≠ "" :=
    fun e he => Extraction.anchored_toRule e he ▸ placeHash_ne_empty e.path e.lines
  exact problems_eq_nil_iff_fields.2 ⟨by decide, by decide, by decide,
    by decide, by decide, ⟨by decide, fun e he => ⟨hpath e he, hhash e he⟩⟩,
    fun _ h => nomatch h⟩

theorem candidates_zeroOracle (messages : List ChatMessage) :
    Extraction.candidates {} (zeroOracle.ask messages) = .ok [zeroCandidate] :=
  ofReply_zeroReply

theorem mem_rulesAt_zeroOracle :
    zeroCandidate.toRule "test.py" 1 ∈ Extraction.rulesAt toolsTree "." {} zeroOracle "test.py" := by
  have htext : toolsTree.readText (Path.join "." "test.py") = .ok "import pytest" := rfl
  have hconfident : ({} : ExtractionConfig).minConfidence ≤ zeroCandidate.confidence := by decide
  rw [Extraction.rulesAt_of_sound htext (candidates_zeroOracle _) hconfident (by decide)
    problems_zeroRule]
  exact List.mem_singleton_self _

theorem named_toolsTree : toolsTree.Named := by
  have hnames : ∀ name ∈ [".prettierrc", "test.py"], Path.IsName name := by
    simp only [List.forall_mem_cons]
    exact ⟨⟨by decide, by decide, by decide, by decide, by decide⟩,
      ⟨by decide, by decide, by decide, by decide, by decide⟩, List.forall_mem_nil _⟩
  refine .folder ⟨by decide, fun child hchild => hnames _ (List.mem_map_of_mem hchild)⟩ ?_
  simp only [List.forall_mem_cons]
  exact ⟨.file trivial, .file trivial, List.forall_mem_nil _⟩

theorem short_toolsTree : toolsTree.Texts Text.IsShort := by
  refine .folder trivial ?_
  simp only [List.forall_mem_cons]
  refine ⟨.file fun text htext => ?_, .file fun text htext => ?_, List.forall_mem_nil _⟩
  · have hread : String.fromUTF8? ByteArray.empty = some "" := by decide
    cases hread.symm.trans htext
    show (Text.lines "").length < 2 ^ 32
    decide
  · have hread : String.fromUTF8? "import pytest".toUTF8 = some "import pytest" := by decide
    cases hread.symm.trans htext
    show (Text.lines "import pytest").length < 2 ^ 32
    decide

theorem signals_toolsTree :
    (Bundle.ofRepository toolsTree "." none).signals = [prettierSignal, pytestSignal] := by
  rw [Bundle.ofRepository, Bundle.signals_ofScanners, brings_toolsTree]
  rfl

theorem exists_zeroRun :
    ∃ o, ofBundle ⟨.standard, .standard, some (zeroOracle, {})⟩ toolsTree "." ⟨none, "a"⟩
      (Bundle.ofRepository toolsTree "." none) ⟨0, 0⟩ 0 = .ok o := by
  refine exists_ofBundle_standard _ _ (fun s hs _ => ?_) (by decide) (by decide) onClock_zero
  rw [signals_toolsTree] at hs
  have hpaths : ∀ s ∈ [prettierSignal, pytestSignal], s.path ≠ "" := by
    simp [prettierSignal, pytestSignal]
  exact hpaths s hs

theorem cites_ranges_toolsTree :
    ∃ o, ofBundle ⟨.standard, .standard, some (zeroOracle, {})⟩ toolsTree "." ⟨none, "a"⟩
        (Bundle.ofRepository toolsTree "." none) ⟨0, 0⟩ 0 = .ok o ∧
      (o.contract.CitesRanges ↔
        ∀ asked config, some (zeroOracle, ({} : ExtractionConfig)) = some (asked, config) →
          ∀ path ∈ Extraction.order o.bundle.paths, ∀ c lineCount,
            Extraction.IsKept toolsTree "." config asked path c lineCount →
            c.toRule path lineCount ∈ o.contract.rules → c.CitesRanges) := by
  obtain ⟨o, ho⟩ := exists_zeroRun
  exact ⟨o, ho, cites_ranges_iff .standard (some (zeroOracle, {})) toolsTree "." none ⟨none, "a"⟩
    ⟨0, 0⟩ 0 o named_toolsTree short_toolsTree ho⟩

/-- The rule of the id stands in the contract, for one of the two files. -/
theorem exists_zeroRule {o : SynthesisOutcome}
    (h : ofBundle ⟨.standard, .standard, some (zeroOracle, {})⟩ toolsTree "." ⟨none, "a"⟩
      (Bundle.ofRepository toolsTree "." none) ⟨0, 0⟩ 0 = .ok o) :
    ∃ path lineCount, 1 ≤ lineCount ∧ zeroCandidate.toRule path lineCount ∈ o.contract.rules := by
  have hpath : "test.py" ∈ Extraction.order (Bundle.ofRepository toolsTree "." none).paths := by
    rw [Extraction.mem_order_iff, Bundle.paths, signals_toolsTree, mem_sortedDistinct_iff]
    exact ⟨by decide, by decide⟩
  have hmem : zeroCandidate.toRule "test.py" 1 ∈
      gathered ⟨.standard, .standard, some (zeroOracle, {})⟩ toolsTree "."
        (Bundle.ofRepository toolsTree "." none) := by
    rw [gathered_some, Extraction.rules_ofPaths]
    exact List.mem_append_right _ (List.mem_flatMap.2 ⟨"test.py", hpath, mem_rulesAt_zeroOracle⟩)
  -- some rule of the id stays, and it is no rule from a signal
  rw [rules_of_ofBundle h]
  obtain ⟨r, hr, hid⟩ := List.mem_map.1
    (Dedupe.mem_ids_kept_iff.2 (List.mem_map_of_mem hmem))
  have hgathered := (Dedupe.mem_kept_iff.1 hr).mem
  rw [gathered_some] at hgathered
  rcases List.mem_append.1 hgathered with hsignal | hreply
  · obtain ⟨_, -, row, hrow, -, hrowId, -⟩ := Projector.exists_signal_of_mem_project hsignal
    have hother : ∀ row ∈ Projection.table, row.ruleId ≠ zeroCandidate.id := by decide
    exact absurd (hrowId.symm.trans hid) (hother row hrow)
  · obtain ⟨path, -, c, lineCount, hkept, rfl⟩ := Extraction.exists_isKept_of_mem_rules hreply
    refine ⟨path, lineCount, hkept.one_le, ?_⟩
    obtain ⟨text, all, -, hall, hc, -⟩ := hkept
    cases (candidates_zeroOracle _).symm.trans hall
    cases List.mem_singleton.1 (List.mem_of_mem_filter (List.mem_of_mem_take hc))
    exact hr

/-- **A contract can cite line zero.** -/
theorem cites_line_zero :
    ∃ o, ofBundle ⟨.standard, .standard, some (zeroOracle, {})⟩ toolsTree "." ⟨none, "a"⟩
        (Bundle.ofRepository toolsTree "." none) ⟨0, 0⟩ 0 = .ok o ∧
      ¬ o.contract.CitesRanges := by
  obtain ⟨o, ho⟩ := exists_zeroRun
  obtain ⟨path, lineCount, hcount, hrule⟩ := exists_zeroRule ho
  refine ⟨o, ho, fun hall => not_citesRanges_zeroCandidate ?_⟩
  exact (Candidate.citesRanges_iff hcount).1 (hall _ hrule)

end Synthesis

end StyleContract
