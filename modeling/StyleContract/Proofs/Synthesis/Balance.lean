import Mathlib.Data.Finset.Card
import StyleContract.Proofs.Accounts.Counters
import StyleContract.Proofs.Synthesis.Accounting
import StyleContract.Proofs.Synthesis.Run
import StyleContract.Report.ScanReport

/-!
# Proofs — Synthesis — Balance

**The counts of a contract add up** (`balances_of_ofScanners`). They are kept in separate counters by
separate stages of a run: signals by scanner, rules by origin, questions by outcome, dropped rules and
files. Each counter ends as the number of the things that it stands for, so the counts are bound
together as the things are: each rule that follows from signals or replies is in the contract or was
dropped, and each file is a success or a failure.

The signals of a scanner are counted under its name, so no two scanners may share one. Counters are
exact below `Counter.exactLimit`.
-/

namespace StyleContract

/-! ### Signals by scanner -/

section

variable {tree : Entry} {root : String} {most : Option Nat}

/-- Each scanner's signals are counted as they are added. -/
theorem Bundle.total_add {b : Bundle} {name : String} (result : Except ScanError (List Signal))
    (hnew : b.perScanner.get? name = none) (hb : b.perScanner.total = b.signals.length) :
    (b.add name result).perScanner.total = (b.add name result).signals.length := by
  cases result with
  | ok signals =>
      show (b.perScanner.insert name signals.length).total = (b.signals ++ signals).length
      rw [Keyed.total_insert_new hnew, hb, List.length_append]
  | error e =>
      show (b.perScanner.insert name 0).total = b.signals.length
      rw [Keyed.total_insert_new hnew, hb, Nat.add_zero]

theorem Bundle.get?_perScanner_add {b : Bundle} {name other : String} (h : other ≠ name)
    (result : Except ScanError (List Signal)) :
    (b.add name result).perScanner.get? other = b.perScanner.get? other := by
  cases result <;> exact Keyed.get?_insert_of_ne h _ _

theorem Bundle.total_foldl_add {scanners : List Scanner} {b : Bundle}
    (hnames : (scanners.map Scanner.name).Nodup)
    (hnew : ∀ scanner ∈ scanners, b.perScanner.get? scanner.name = none)
    (hb : b.perScanner.total = b.signals.length) :
    (scanners.foldl (fun b s => b.add s.name (s.scan tree root most)) b).perScanner.total =
      (scanners.foldl (fun b s => b.add s.name (s.scan tree root most)) b).signals.length := by
  -- a name that was there would have its count replaced, so the names to come must be new
  induction scanners generalizing b with
  | nil => exact hb
  | cons scanner scanners ih =>
      rw [List.map_cons, List.nodup_cons] at hnames
      rw [List.forall_mem_cons] at hnew
      -- the names to come stay new, since this scanner's name is none of them
      refine ih hnames.2 (fun other hother => ?_) (total_add _ hnew.1 hb)
      have hne : other.name ≠ scanner.name := fun heq =>
        hnames.1 (heq ▸ List.mem_map_of_mem hother)
      rw [get?_perScanner_add hne, hnew.2 other hother]

/-- **The counts by scanner add up to the number of signals.** -/
theorem Bundle.total_ofScanners {scanners : List Scanner}
    (hnames : (scanners.map Scanner.name).Nodup) :
    (ofScanners scanners tree root most).perScanner.total =
      (ofScanners scanners tree root most).signals.length :=
  total_foldl_add hnames (fun _ _ => rfl) rfl

end

/-! ### The accounts of a run -/

namespace Synthesis

variable {b : Bundle}

/-- The counters of signals. -/
def signalCounters (b : Bundle) : Counters :=
  if b.perScanner.entries.isEmpty then Counters.record Keyed.empty "external" b.signals.length
  else b.perScanner.entries.foldl (fun c e => c.record e.1 e.2) Keyed.empty

theorem foldl_recordSignals (entries : List (String × Nat)) (a : Accounts) :
    entries.foldl (fun a e => a.recordSignals e.1 e.2) a =
      { a with signals := entries.foldl (fun c e => c.record e.1 e.2) a.signals } := by
  induction entries generalizing a with
  | nil => rfl
  | cons e rest ih => rw [List.foldl_cons, List.foldl_cons, ih, Accounts.recordSignals]

theorem countSignals_eq (b : Bundle) : countSignals b {} = { signals := signalCounters b } := by
  rw [countSignals, signalCounters]
  split
  · rfl
  · rw [foldl_recordSignals]

/-- **All signals are counted**, under the names of their scanners or under one name for all. -/
theorem sum_signalCounters (hb : b.perScanner.total = b.signals.length)
    (hexact : b.signals.length < Counter.exactLimit) :
    (signalCounters b).sum = b.signals.length := by
  have htotal : (signalCounters b).total = b.signals.length := by
    rw [signalCounters]
    split
    · rw [Counters.total_record (by simpa [Keyed.total, Keyed.empty] using hexact)]
      exact Nat.zero_add _
    · have hentries : (b.perScanner.entries.map (·.2)).sum = b.signals.length := hb
      have hempty : (Keyed.empty : Counters).total = 0 := rfl
      rw [Counters.total_foldl_record (by omega), hempty, hentries, Nat.zero_add]
  rw [Counters.sum_eq_total (by omega), htotal]

end Synthesis

namespace SynthesisOutcome

/-- The rules that follow from replies. -/
def extracted (o : SynthesisOutcome) : List Rule := (o.extraction.map (·.rules)).getD []

/-- The number of files that the oracle was asked about, or was to be asked about. -/
def filesAnalyzed (o : SynthesisOutcome) : Nat := (o.extraction.map (·.filesAnalyzed)).getD 0

/-- The counts of what a run has brought. -/
def counts (o : SynthesisOutcome) : List (String × Json) :=
  [("signalCount", Json.ofNat o.bundle.signals.length),
    ("deterministicRules", Json.ofNat o.deterministic),
    ("probabilisticRules", Json.ofNat o.extracted.length),
    ("oracleFailures", Json.ofNat o.oracleFailures.length),
    ("duplicatesDropped", Json.ofNat o.dropped.length),
    ("filesAnalyzed", Json.ofNat o.filesAnalyzed)]

end SynthesisOutcome

namespace Synthesis

variable {b : Bundle}

theorem accountsOf_none (b : Bundle) (rules : List Rule) (seconds : Float) :
    accountsOf b rules none seconds =
      { signals := signalCounters b
        rules := Counters.record Keyed.empty Accounts.deterministic rules.length
        duplicates := Counter.total 0 (Dedupe.dropped (merged rules none)).length
        durations := [seconds] } := by
  simp only [accountsOf, countSignals_eq]
  rfl

theorem accountsOf_some (b : Bundle) (rules : List Rule) (e : Extraction) (seconds : Float) :
    accountsOf b rules (some e) seconds =
      { signals := signalCounters b
        rules := (Counters.record Keyed.empty Accounts.deterministic rules.length).record
          Accounts.probabilistic e.rules.length
        questions := (Counters.record Keyed.empty "ok"
          (e.filesAnalyzed - e.failures.length)).record Accounts.failed e.failures.length
        duplicates := Counter.total 0 (Dedupe.dropped (merged rules (some e))).length
        files := Counter.total 0 e.filesAnalyzed
        durations := [seconds] } := by
  simp only [accountsOf, countSignals_eq]
  rfl

theorem total_zero {n : Nat} (h : n < Counter.exactLimit) : Counter.total 0 n = n := by
  rw [Counter.total_eq_add (by rwa [Nat.zero_add]), Nat.zero_add]

/-- The counts of a run without an oracle. -/
theorem summary_accountsOf_none {rules : List Rule} {seconds : Float}
    (hb : b.perScanner.total = b.signals.length) (hsignals : b.signals.length < Counter.exactLimit)
    (hrules : rules.length < Counter.exactLimit) :
    (accountsOf b rules none seconds).summary = Keyed.ofList
      [("signalCount", Json.ofNat b.signals.length),
        ("deterministicRules", Json.ofNat rules.length), ("probabilisticRules", Json.ofNat 0),
        ("oracleFailures", Json.ofNat 0),
        ("duplicatesDropped", Json.ofNat (Dedupe.dropped (merged rules none)).length),
        ("filesAnalyzed", Json.ofNat 0)] := by
  have hdropped : (Dedupe.dropped (merged rules none)).length < Counter.exactLimit := by
    have hlength := Dedupe.length_kept_add_length_dropped (merged rules none)
    have hmerged : (merged rules none).length = rules.length := by simp [merged]
    omega
  have hzero : 0 < Counter.exactLimit := by decide
  have hne : Accounts.probabilistic ≠ Accounts.deterministic := by decide
  simp only [accountsOf_none, Accounts.summary, sum_signalCounters hb hsignals,
    Counters.count_record_self, Counters.count_record_of_ne hne, Counters.count_empty,
    total_zero hrules, total_zero hdropped, Counter.written_of_lt hsignals,
    Counter.written_of_lt hrules, Counter.written_of_lt hdropped, Counter.written_of_lt hzero]

/-- The counts of a run with an oracle. -/
theorem summary_accountsOf_some {rules : List Rule} {e : Extraction} {seconds : Float}
    (hb : b.perScanner.total = b.signals.length) (hsignals : b.signals.length < Counter.exactLimit)
    (hrules : rules.length + e.rules.length < Counter.exactLimit)
    (hfailures : e.failures.length ≤ e.filesAnalyzed)
    (hfiles : e.filesAnalyzed < Counter.exactLimit) :
    (accountsOf b rules (some e) seconds).summary = Keyed.ofList
      [("signalCount", Json.ofNat b.signals.length),
        ("deterministicRules", Json.ofNat rules.length),
        ("probabilisticRules", Json.ofNat e.rules.length),
        ("oracleFailures", Json.ofNat e.failures.length),
        ("duplicatesDropped", Json.ofNat (Dedupe.dropped (merged rules (some e))).length),
        ("filesAnalyzed", Json.ofNat e.filesAnalyzed)] := by
  have hdropped : (Dedupe.dropped (merged rules (some e))).length < Counter.exactLimit := by
    have hlength := Dedupe.length_kept_add_length_dropped (merged rules (some e))
    have hmerged : (merged rules (some e)).length = rules.length + e.rules.length := by
      simp [merged]
    omega
  have hdeterministic : rules.length < Counter.exactLimit := by omega
  have hprobabilistic : e.rules.length < Counter.exactLimit := by omega
  have hfailed : e.failures.length < Counter.exactLimit := by omega
  have hne : Accounts.probabilistic ≠ Accounts.deterministic := by decide
  have hok : Accounts.failed ≠ "ok" := by decide
  simp only [accountsOf_some, Accounts.summary, sum_signalCounters hb hsignals,
    Counters.count_record_self, Counters.count_record_of_ne hne,
    Counters.count_record_of_ne (Ne.symm hne), Counters.count_record_of_ne hok,
    Counters.count_empty, total_zero hdeterministic, total_zero hprobabilistic, total_zero hfailed,
    total_zero hdropped, total_zero hfiles, Counter.written_of_lt hsignals,
    Counter.written_of_lt hdeterministic, Counter.written_of_lt hprobabilistic,
    Counter.written_of_lt hfailed, Counter.written_of_lt hdropped, Counter.written_of_lt hfiles]

end Synthesis

/-! ### Files -/

theorem Extraction.filesAnalyzed_ofPaths (tree : Entry) (root : String) (config : ExtractionConfig)
    (oracle : Oracle) (paths : List String) :
    (ofPaths tree root config oracle paths).filesAnalyzed = (order paths).length := by
  rw [ofPaths, ofEach_eq]

/-- **No more files fail than are asked about.** -/
theorem Extraction.length_failures_le (tree : Entry) (root : String) (config : ExtractionConfig)
    (oracle : Oracle) (paths : List String) :
    (ofPaths tree root config oracle paths).failures.length ≤
      (ofPaths tree root config oracle paths).filesAnalyzed := by
  rw [ofPaths, ofEach_eq]
  exact List.length_filterMap_le _ _

/-- Each file brings as many rules as there is room for, at most. -/
theorem Extraction.length_rules_le (tree : Entry) (root : String) (config : ExtractionConfig)
    (oracle : Oracle) (paths : List String) :
    (ofPaths tree root config oracle paths).rules.length ≤
      (order paths).length * config.maxRulesPerFile := by
  have hkept (path : String) :
      (keptAt tree root config oracle path).length ≤ config.maxRulesPerFile := by
    rw [keptAt]
    cases proposal? tree root config oracle path with
    | none => exact Nat.zero_le _
    | some p =>
        rw [Option.elim, keptRules, List.length_map, keptCandidates, List.length_take]
        exact Nat.min_le_left _ _
  rw [ofPaths, ofEach_eq]
  show ((order paths).flatMap fun path => keptAt tree root config oracle path).length ≤ _
  generalize order paths = files
  induction files with
  | nil => exact Nat.zero_le _
  | cons path files ih =>
      rw [List.flatMap_cons, List.length_append, List.length_cons, Nat.succ_mul]
      have hpath := hkept path
      omega

/-- The distinct paths of signals, the empty one apart. -/
def Bundle.pathSet (b : Bundle) : Finset String := (b.signals.map (·.path)).toFinset.erase ""

/-- **Each path is asked about once.** -/
theorem Bundle.length_order_paths (b : Bundle) :
    (Extraction.order b.paths).length = b.pathSet.card := by
  have hset : (Extraction.order b.paths).toFinset = b.pathSet := by
    ext path
    rw [List.mem_toFinset, Extraction.mem_order_iff, paths, mem_sortedDistinct_iff, List.mem_filter,
      bne_iff_ne, pathSet, Finset.mem_erase, List.mem_toFinset]
    tauto
  rw [← hset, List.toFinset_card_of_nodup (Extraction.nodup_order _)]

theorem Bundle.card_pathSet_le (b : Bundle) : b.pathSet.card ≤ b.signals.length := by
  have hset : b.pathSet.card ≤ (b.signals.map (·.path)).toFinset.card := Finset.card_erase_le
  have hlist := (b.signals.map (·.path)).toFinset_card_le
  rw [List.length_map] at hlist
  exact hset.trans hlist

/-! ### Severities -/

theorem length_filter_severities (rules : List Rule) :
    (rules.filter (·.severity = .info)).length + (rules.filter (·.severity = .warn)).length +
      (rules.filter (·.severity = .error)).length = rules.length := by
  induction rules with
  | nil => rfl
  | cons r rules ih =>
      simp only [List.filter_cons]
      cases r.severity <;> simp <;> omega

/-- **The report names each severity**, and each rule has one. -/
theorem SynthesisOutcome.contractSummary_report (o : SynthesisOutcome) (runId path : String) :
    ∃ info warn error,
      (o.report runId path).get "contractSummary" =
        .obj [("ruleCount", Json.ofNat (info + warn + error)),
          ("bySeverity", .obj [("info", Json.ofNat info), ("warn", Json.ofNat warn),
            ("error", Json.ofNat error)])] ∧
      info + warn + error = o.contract.rules.length := by
  have hsum := length_filter_severities o.contract.rules
  refine ⟨_, _, _, ?_, hsum⟩
  rw [hsum]
  rfl

/-! ### Runs -/

/-- The counts of a contract, and those of its report, say what the run has brought. -/
structure SynthesisOutcome.Balances (o : SynthesisOutcome) (s : Synthesis) (tree : Entry)
    (root : String) : Prop where
  metrics_eq : o.contract.metrics = some (Keyed.ofList o.counts)
  deterministic_eq : o.deterministic = (s.projector.project o.bundle.signals).length
  extraction_eq : o.extraction = s.extract tree root o.bundle
  extracted_eq : s.oracle = none → o.extracted = []
  /-- Each rule is in the contract or was dropped. -/
  rules_add : o.deterministic + o.extracted.length = o.contract.rules.length + o.dropped.length
  filesAnalyzed_eq : o.filesAnalyzed = if s.oracle.isSome then o.bundle.pathSet.card else 0
  failures_le : o.oracleFailures.length ≤ o.filesAnalyzed
  severities_add : ∀ runId path, ∃ info warn error,
    (o.report runId path).get "contractSummary" =
      .obj [("ruleCount", Json.ofNat (info + warn + error)),
        ("bySeverity", .obj [("info", Json.ofNat info), ("warn", Json.ofNat warn),
          ("error", Json.ofNat error)])] ∧
    info + warn + error = o.contract.rules.length

namespace Synthesis

variable {s : Synthesis} {tree : Entry} {root : String} {b : Bundle}

theorem length_project_le (p : Projector) (signals : List Signal) :
    (p.project signals).length ≤ signals.length :=
  List.length_filterMap_le _ _

/-- What a run takes from its oracle, told without the run. -/
theorem extract_eq (s : Synthesis) (tree : Entry) (root : String) (b : Bundle) :
    (s.oracle = none ∧ s.extract tree root b = none) ∨
      ∃ e, s.oracle.isSome = true ∧ s.extract tree root b = some e ∧
        e.filesAnalyzed = b.pathSet.card ∧ e.failures.length ≤ e.filesAnalyzed := by
  cases horacle : s.oracle with
  | none => exact .inl ⟨rfl, by rw [extract, horacle]; rfl⟩
  | some chosen =>
      refine .inr ⟨Extraction.ofPaths tree root chosen.2 chosen.1 b.paths, rfl,
        by rw [extract, horacle]; rfl, ?_, Extraction.length_failures_le _ _ _ _ _⟩
      rw [Extraction.filesAnalyzed_ofPaths, b.length_order_paths]

/-- Each rule that was gathered stays or goes. -/
theorem length_project_add (s : Synthesis) (tree : Entry) (root : String) (b : Bundle) :
    (s.projector.project b.signals).length +
        (((s.extract tree root b).map (·.rules)).getD []).length =
      (Dedupe.kept (s.gathered tree root b)).length +
        (Dedupe.dropped (s.gathered tree root b)).length := by
  rw [Dedupe.length_kept_add_length_dropped, gathered, merged, List.length_append]

/-- The counts that a run puts into its contract. -/
theorem summary_accountsAt_eq {seconds : Float} (hb : b.perScanner.total = b.signals.length)
    (hexact : b.signals.length + (((s.extract tree root b).map (·.rules)).getD []).length <
      Counter.exactLimit) :
    (s.accountsAt tree root b seconds).summary = Keyed.ofList
      [("signalCount", Json.ofNat b.signals.length),
        ("deterministicRules", Json.ofNat (s.projector.project b.signals).length),
        ("probabilisticRules",
          Json.ofNat (((s.extract tree root b).map (·.rules)).getD []).length),
        ("oracleFailures",
          Json.ofNat (((s.extract tree root b).map (·.failures)).getD []).length),
        ("duplicatesDropped", Json.ofNat (Dedupe.dropped (s.gathered tree root b)).length),
        ("filesAnalyzed", Json.ofNat (((s.extract tree root b).map (·.filesAnalyzed)).getD 0))] := by
  have hproject := length_project_le s.projector b.signals
  have hpaths := b.card_pathSet_le
  rw [accountsAt, gathered]
  rcases extract_eq s tree root b with ⟨-, hextract⟩ | ⟨e, -, hextract, hfiles, hfailures⟩
  · rw [hextract] at hexact ⊢
    have hsignals : b.signals.length < Counter.exactLimit := Nat.lt_of_add_right_lt hexact
    exact summary_accountsOf_none hb hsignals (Nat.lt_of_le_of_lt hproject hsignals)
  · rw [hextract, Option.map_some, Option.getD_some] at hexact
    rw [hextract]
    -- each file that is asked about is that of some signal, so files are as few as signals
    exact summary_accountsOf_some hb (by omega) (by omega) hfailures (by omega)

/-- **The counts of a contract add up**, if the counts by scanner are those of the signals. -/
theorem balances_of_ofBundle {repo : RepoIdentity} {now : Moment} {seconds : Float}
    {o : SynthesisOutcome} (hb : b.perScanner.total = b.signals.length)
    (h : s.ofBundle tree root repo b now seconds = .ok o)
    (hexact : o.bundle.signals.length + o.extracted.length < Counter.exactLimit) :
    o.Balances s tree root := by
  obtain ⟨c, hc, rfl⟩ := ofBundle_eq_ok_iff.1 h
  obtain ⟨rfl, -⟩ := build_eq_ok_iff.1 hc
  have hmetrics : some (s.accountsAt tree root b seconds).summary = _ :=
    congrArg some (summary_accountsAt_eq hb hexact)
  refine ⟨hmetrics, rfl, rfl, ?_, length_project_add s tree root b, ?_, ?_,
    SynthesisOutcome.contractSummary_report _⟩
  all_goals
    rcases extract_eq s tree root b with
      ⟨horacle, hextract⟩ | ⟨e, horacle, hextract, hfiles, hfailures⟩
  · simp [SynthesisOutcome.extracted, hextract]
  · exact fun hnone => by rw [hnone] at horacle; cases horacle
  · simp [SynthesisOutcome.filesAnalyzed, hextract, horacle]
  · simp [SynthesisOutcome.filesAnalyzed, hextract, horacle, hfiles]
  · simp [SynthesisOutcome.oracleFailures, SynthesisOutcome.filesAnalyzed, hextract]
  · simpa [SynthesisOutcome.oracleFailures, SynthesisOutcome.filesAnalyzed, hextract] using hfailures

/-- **The counts of a contract add up.** Scanners may bring any signals or fail, the oracle may say
anything, and the table and the schema may be any: if scanners have distinct names and a run over what
they bring succeeds, its contract holds the numbers of the things that it counts. -/
theorem balances_of_ofScanners (s : Synthesis) (scanners : List Scanner)
    (hnames : (scanners.map Scanner.name).Nodup) (tree : Entry) (root : String)
    (most : Option Nat) (repo : RepoIdentity) (now : Moment) (seconds : Float)
    (o : SynthesisOutcome)
    (h : s.ofBundle tree root repo (Bundle.ofScanners scanners tree root most) now seconds = .ok o)
    (hexact : o.bundle.signals.length + o.extracted.length < Counter.exactLimit) :
    o.bundle = Bundle.ofScanners scanners tree root most ∧ o.Balances s tree root := by
  refine ⟨?_, balances_of_ofBundle (Bundle.total_ofScanners hnames) h hexact⟩
  obtain ⟨c, -, rfl⟩ := ofBundle_eq_ok_iff.1 h
  rfl

/-- A scanner that fails. -/
def failingScanner : Scanner := ⟨"failing", fun _ root _ => .error (.walk root "boom")⟩

/-- A scanner that sees the setting of `lineLength` anywhere. -/
def lineLengthScanner : Scanner := ⟨"fixed", fun _ _ _ => .ok lineLength.signals⟩

/-- What the two of them bring. -/
def lineLengthBundle : Bundle :=
  Bundle.ofScanners [failingScanner, lineLengthScanner] lineLengthFile "" none

/-- A run in which one scanner fails, and a rule of the oracle has the id of another rule. -/
theorem balances_lineLength :
    ∃ o, ofBundle ⟨.standard, .standard, some (proposer, {})⟩ lineLengthFile "" ⟨none, "a"⟩
        lineLengthBundle ⟨0, 0⟩ 0 = .ok o ∧
      o.bundle = lineLengthBundle ∧
      o.Balances ⟨.standard, .standard, some (proposer, {})⟩ lineLengthFile "" := by
  obtain ⟨o, ho⟩ : ∃ o, ofBundle ⟨.standard, .standard, some (proposer, {})⟩ lineLengthFile ""
      ⟨none, "a"⟩ lineLengthBundle ⟨0, 0⟩ 0 = .ok o :=
    exists_ofBundle_standard _ _ path_lineLength_ne_empty (by decide) (by decide) onClock_zero
  have hbundle : o.bundle = lineLengthBundle ∧ o.extraction =
      some (Extraction.ofPaths lineLengthFile "" {} proposer lineLengthBundle.paths) := by
    obtain ⟨c, -, rfl⟩ := ofBundle_eq_ok_iff.1 ho
    exact ⟨rfl, rfl⟩
  have hextracted : o.extracted.length ≤ 1 * 10 := by
    have hfiles : (Extraction.order lineLengthBundle.paths).length = 1 := by decide +kernel
    rw [SynthesisOutcome.extracted, hbundle.2, Option.map_some, Option.getD_some, ← hfiles]
    exact Extraction.length_rules_le lineLengthFile "" {} proposer _
  have hexact : o.bundle.signals.length + o.extracted.length < Counter.exactLimit := by
    rw [hbundle.1, show lineLengthBundle.signals.length = 1 from rfl]
    exact Nat.lt_of_le_of_lt (Nat.add_le_add_left hextracted 1) (by decide)
  exact ⟨o, ho, balances_of_ofScanners _ [failingScanner, lineLengthScanner] (by decide) _ _ none
    _ _ _ o ho hexact⟩

end Synthesis

end StyleContract
