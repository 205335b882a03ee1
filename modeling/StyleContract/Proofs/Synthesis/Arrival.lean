import StyleContract.Proofs.Signal.Sources
import StyleContract.Proofs.Synthesis.Run

/-!
# Proofs — Synthesis — Arrival

Scanners work side by side, so what they bring may come in any order that keeps what each of them
brings in its own order (`Interleaves`). **The order of arrival carries no meaning**
(`contract_of_arrival`): all such orders give one contract, and differ in nothing but the order in
which dropped rules are noted.

Of each id the first rule stays, which does depend on an order. It is the order of one scanner: rules
of one id come from signals of one kind (`kind_eq_of_ruleOf?`), signals of one kind from one scanner
(`kinds_differ`), and what is left of an interleaving when all but one of its parts are left out is
that part (`Interleaves.filter_eq`).
-/

namespace StyleContract

/-! ### Interleavings -/

/-- Some lists are taken apart into one, which keeps the order of each. -/
inductive Interleaves {α : Type} : List (List α) → List α → Prop where
  | done {parts : List (List α)} (h : ∀ part ∈ parts, part = []) : Interleaves parts []
  | take (before : List (List α)) {after : List (List α)} {part items : List α} {a : α}
      (h : Interleaves (before ++ part :: after) items) :
      Interleaves (before ++ (a :: part) :: after) (a :: items)

namespace Interleaves

variable {α : Type} {parts : List (List α)} {items : List α}

theorem perm_flatten (h : Interleaves parts items) : items.Perm parts.flatten := by
  induction h with
  | done h => rw [List.flatten_eq_nil_iff.2 h]
  | take _ _ ih =>
      rw [List.flatten_append, List.flatten_cons] at ih ⊢
      exact (ih.cons _).trans List.perm_middle.symm

theorem nil_cons (h : Interleaves parts items) : Interleaves ([] :: parts) items := by
  induction h with
  | done h => exact .done (List.forall_mem_cons.2 ⟨rfl, h⟩)
  | take before _ ih => exact .take ([] :: before) ih

/-- One list after the other is one way. -/
theorem flatten (parts : List (List α)) : Interleaves parts parts.flatten := by
  induction parts with
  | nil => exact .done (List.forall_mem_nil _)
  | cons part parts ih =>
      induction part with
      | nil => exact ih.nil_cons
      | cons a part ihpart => exact .take [] ihpart

/-- Leaving out items leaves an interleaving of what is left of each part. -/
theorem filter (p : α → Bool) (h : Interleaves parts items) :
    Interleaves (parts.map (List.filter p)) (items.filter p) := by
  induction h with
  | done h =>
      refine .done fun part hpart => ?_
      obtain ⟨whole, hwhole, rfl⟩ := List.mem_map.1 hpart
      rw [h whole hwhole, List.filter_nil]
  | @take before after part items a _ ih =>
      rw [List.map_append, List.map_cons] at ih ⊢
      cases ha : p a with
      | true =>
          rw [List.filter_cons_of_pos ha, List.filter_cons_of_pos ha]
          exact .take _ ih
      | false =>
          rw [List.filter_cons_of_neg (by simp [ha]), List.filter_cons_of_neg (by simp [ha])]
          exact ih

/-- Where all parts but one are empty there is one way. -/
theorem eq_flatten (h : Interleaves parts items)
    (halone : parts.Pairwise fun as bs => as = [] ∨ bs = []) : items = parts.flatten := by
  induction h with
  | done h => rw [List.flatten_eq_nil_iff.2 h]
  | @take before after part items a _ ih =>
      rw [List.pairwise_append, List.pairwise_cons] at halone
      obtain ⟨hbefore, ⟨hpart, hafter⟩, hboth⟩ := halone
      -- the part that is taken from is not empty, so all others are
      have hbeforeNil : ∀ other ∈ before, other = [] := fun other hother =>
        (hboth other hother _ List.mem_cons_self).resolve_right (List.cons_ne_nil _ _)
      have hafterNil : ∀ other ∈ after, other = [] := fun other hother =>
        (hpart other hother).resolve_left (List.cons_ne_nil _ _)
      have halone : (before ++ part :: after).Pairwise fun as bs => as = [] ∨ bs = [] :=
        List.pairwise_append.2 ⟨hbefore,
          List.pairwise_cons.2 ⟨fun other hother => .inr (hafterNil other hother), hafter⟩,
          fun other hother _ _ => .inl (hbeforeNil other hother)⟩
      rw [ih halone, List.flatten_append, List.flatten_append, List.flatten_eq_nil_iff.2 hbeforeNil]
      rfl

/-- **What is left of one part** is left in its order, if nothing is left of the others. -/
theorem filter_eq (h : Interleaves parts items) {p : α → Bool}
    (halone : parts.Pairwise fun as bs => as.filter p = [] ∨ bs.filter p = []) :
    items.filter p = (parts.map (List.filter p)).flatten :=
  (h.filter p).eq_flatten (List.pairwise_map.2 halone)

end Interleaves

/-! ### Signals of scanners -/

section

variable {tree : Entry} {root : String} {most : Option Nat} {xs ys : List Signal}

/-- The signals of the scanners, as they may arrive. -/
def Arrives (tree : Entry) (root : String) (most : Option Nat) (signals : List Signal) : Prop :=
  Interleaves (Scanner.all.map (Scanner.brings tree root most)) signals

theorem Bundle.signals_foldl_add (scanners : List Scanner) (b : Bundle) :
    (scanners.foldl (fun b s => b.add s.name (s.scan tree root most)) b).signals =
      b.signals ++ (scanners.map (Scanner.brings tree root most)).flatten := by
  induction scanners generalizing b with
  | nil => simp
  | cons scanner scanners ih =>
      rw [List.foldl_cons, ih, List.map_cons, List.flatten_cons, Scanner.brings]
      -- a scanner that fails brings no signals and leaves those of the others
      cases scanner.scan tree root most <;> simp [Bundle.add, Except.toOption]

/-- The signals of a bundle are what its scanners bring, one after the other. -/
theorem Bundle.signals_ofScanners (scanners : List Scanner) :
    (Bundle.ofScanners scanners tree root most).signals =
      (scanners.map (Scanner.brings tree root most)).flatten := by
  rw [Bundle.ofScanners, signals_foldl_add]
  rfl

/-- The order in which the scanners are listed is one order of arrival. -/
theorem arrives_ofRepository (tree : Entry) (root : String) (most : Option Nat) :
    Arrives tree root most (Bundle.ofRepository tree root most).signals := by
  rw [Bundle.ofRepository, Bundle.signals_ofScanners]
  exact .flatten _

theorem Arrives.perm (hxs : Arrives tree root most xs) (hys : Arrives tree root most ys) :
    xs.Perm ys :=
  hxs.perm_flatten.trans hys.perm_flatten.symm

/-- **Rules of one id come in one order**, that of the scanner whose signals give them. -/
theorem Arrives.filter_project_eq (hxs : Arrives tree root most xs)
    (hys : Arrives tree root most ys) (id : String) :
    (Projector.standard.project xs).filter (·.id == id) =
      (Projector.standard.project ys).filter (·.id == id) := by
  let gives (s : Signal) : Bool := (Projector.standard.ruleOf? s).any (·.id == id)
  have halone : (Scanner.all.map (Scanner.brings tree root most)).Pairwise fun as bs =>
      as.filter gives = [] ∨ bs.filter gives = [] := by
    refine List.pairwise_map.2 ((Scanner.kinds_differ tree root most).imp fun hdiffer => ?_)
    rw [or_iff_not_imp_left]
    intro hsome
    obtain ⟨s, hs⟩ := List.exists_mem_of_ne_nil _ hsome
    obtain ⟨hs, hgives⟩ := List.mem_filter.1 hs
    obtain ⟨r, hr, hid⟩ := (Option.any_eq_true _ _).1 hgives
    refine List.filter_eq_nil_iff.2 fun t ht hgives' => ?_
    obtain ⟨q, hq, hid'⟩ := (Option.any_eq_true _ _).1 hgives'
    have hsame : r.id = q.id := (beq_iff_eq.1 hid).trans (beq_iff_eq.1 hid').symm
    exact hdiffer s hs t ht (Projector.kind_eq_of_ruleOf? hr hq hsame)
  rw [Projector.filter_project, Projector.filter_project, hxs.filter_eq halone,
    hys.filter_eq halone]

end

/-! ### Runs -/

theorem Bundle.paths_congr {b b' : Bundle} (h : b.signals.Perm b'.signals) : b.paths = b'.paths := by
  refine eq_of_pairwise_key id (pairwise_sortedDistinct _) (pairwise_sortedDistinct _) fun path => ?_
  have hperm := (h.map (·.path)).filter (· != "")
  rw [paths, paths, mem_sortedDistinct_iff, mem_sortedDistinct_iff, hperm.mem_iff]

theorem Dedupe.perm_dropped {as bs : List Rule} (hperm : as.Perm bs) (hkept : kept as = kept bs) :
    (dropped as).Perm (dropped bs) := by
  have hrepeats : ((repeated as).map Prod.fst).Perm ((repeated bs).map Prod.fst) := by
    have hall := (perm_kept_append_repeated as).trans
      (hperm.trans (perm_kept_append_repeated bs).symm)
    rw [hkept] at hall
    exact (List.perm_append_left_iff _).1 hall
  rw [← repeats_eq, ← repeats_eq] at hrepeats
  exact hrepeats.map _

namespace Synthesis

variable {schema : ContractSchema} {oracle : Option (Oracle × ExtractionConfig)} {tree : Entry}
  {root : String} {most : Option Nat} {b : Bundle} {xs ys : List Signal}

/-- The oracle is asked about the same files. -/
theorem extract_of_perm (s : Synthesis) (hperm : xs.Perm ys) :
    s.extract tree root { b with signals := xs } = s.extract tree root { b with signals := ys } := by
  have hpaths : ({ b with signals := xs } : Bundle).paths = ({ b with signals := ys } : Bundle).paths :=
    Bundle.paths_congr hperm
  rw [extract, extract, hpaths]

theorem perm_gathered (s : Synthesis) (hperm : xs.Perm ys) :
    (s.gathered tree root { b with signals := xs }).Perm
      (s.gathered tree root { b with signals := ys }) := by
  rw [gathered, gathered, extract_of_perm s hperm]
  exact (hperm.filterMap _).append_right _

/-- **Of each id the same rule comes first.** -/
theorem kept_of_arrival (hxs : Arrives tree root most xs) (hys : Arrives tree root most ys) :
    Dedupe.kept (gathered ⟨schema, .standard, oracle⟩ tree root { b with signals := xs }) =
      Dedupe.kept (gathered ⟨schema, .standard, oracle⟩ tree root { b with signals := ys }) := by
  refine Dedupe.kept_eq_of_firsts fun id => Dedupe.find?_eq_of_filter_eq ?_
  rw [gathered, gathered, merged, merged, List.filter_append, List.filter_append,
    hxs.filter_project_eq hys, extract_of_perm _ (hxs.perm hys)]

/-- Accounts hold numbers of things and the scanners' own counts, not the things. -/
theorem accountsOf_congr {b b' : Bundle} {rules rules' : List Rule} {extraction : Option Extraction}
    {seconds : Float} (hscanners : b.perScanner = b'.perScanner)
    (hsignals : b.signals.length = b'.signals.length) (hrules : rules.length = rules'.length)
    (hdropped : (Dedupe.dropped (merged rules extraction)).length =
      (Dedupe.dropped (merged rules' extraction)).length) :
    accountsOf b rules extraction seconds = accountsOf b' rules' extraction seconds := by
  simp only [accountsOf, countSignals, hscanners, hsignals, hrules, hdropped]

theorem perm_dropped_of_arrival (hxs : Arrives tree root most xs) (hys : Arrives tree root most ys) :
    (Dedupe.dropped
      (gathered ⟨schema, .standard, oracle⟩ tree root { b with signals := xs })).Perm
      (Dedupe.dropped
        (gathered ⟨schema, .standard, oracle⟩ tree root { b with signals := ys })) :=
  Dedupe.perm_dropped (perm_gathered _ (hxs.perm hys)) (kept_of_arrival hxs hys)

theorem accountsAt_of_arrival {seconds : Float} (hxs : Arrives tree root most xs)
    (hys : Arrives tree root most ys) :
    accountsAt ⟨schema, .standard, oracle⟩ tree root { b with signals := xs } seconds =
      accountsAt ⟨schema, .standard, oracle⟩ tree root { b with signals := ys } seconds := by
  have hperm := hxs.perm hys
  have hdropped : (Dedupe.dropped
      (gathered ⟨schema, .standard, oracle⟩ tree root { b with signals := xs })).length =
      (Dedupe.dropped
        (gathered ⟨schema, .standard, oracle⟩ tree root { b with signals := ys })).length :=
    (perm_dropped_of_arrival hxs hys).length_eq
  rw [gathered, gathered, extract_of_perm _ hperm] at hdropped
  rw [accountsAt, accountsAt, extract_of_perm _ hperm]
  exact accountsOf_congr rfl hperm.length_eq (hperm.filterMap _).length_eq hdropped

/-- The counts of a contract say nothing about how long the run took. -/
theorem summary_accountsAt (s : Synthesis) (seconds seconds' : Float) :
    (s.accountsAt tree root b seconds).summary = (s.accountsAt tree root b seconds').summary :=
  rfl

/-- The contract of a run, or the reason why there is none. -/
theorem contract_ofBundle (s : Synthesis) (repo : RepoIdentity) (now : Moment) (seconds : Float) :
    (s.ofBundle tree root repo b now seconds).map (·.contract) =
      s.schema.build repo (Dedupe.kept (s.gathered tree root b))
        (some (s.accountsAt tree root b seconds).summary) now := by
  show Except.map _ (Except.bind (s.schema.build repo (Dedupe.kept (s.gathered tree root b))
    (some (s.accountsAt tree root b seconds).summary) now) _) = _
  cases s.schema.build repo (Dedupe.kept (s.gathered tree root b))
    (some (s.accountsAt tree root b seconds).summary) now <;> rfl

/-- **The order of arrival carries no meaning.** Of what the scanners bring, any two orders that keep
the order of each scanner give the same contract, or are refused for the same reason. The rules, their
counts and what the oracle said are the same at any moments, and the same rules are dropped, though
not in the same order. -/
theorem contract_of_arrival (schema : ContractSchema) (oracle : Option (Oracle × ExtractionConfig))
    (tree : Entry) (root : String) (most : Option Nat) (repo : RepoIdentity) (b : Bundle)
    (xs ys : List Signal) (hxs : Arrives tree root most xs) (hys : Arrives tree root most ys) :
    (∀ now seconds,
      (ofBundle ⟨schema, .standard, oracle⟩ tree root repo { b with signals := xs } now seconds).map
          (·.contract) =
        (ofBundle ⟨schema, .standard, oracle⟩ tree root repo { b with signals := ys } now
          seconds).map (·.contract)) ∧
    ∀ now now' seconds seconds' o o',
      ofBundle ⟨schema, .standard, oracle⟩ tree root repo { b with signals := xs } now seconds =
          .ok o →
      ofBundle ⟨schema, .standard, oracle⟩ tree root repo { b with signals := ys } now' seconds' =
          .ok o' →
      o.contract.rules = o'.contract.rules ∧ o.contract.metrics = o'.contract.metrics ∧
        o.deterministic = o'.deterministic ∧ o.extraction = o'.extraction ∧
        o.dropped.Perm o'.dropped := by
  have hperm := hxs.perm hys
  constructor
  · intro now seconds
    rw [contract_ofBundle, contract_ofBundle, kept_of_arrival hxs hys, accountsAt_of_arrival hxs hys]
  · intro now now' seconds seconds' o o' h h'
    obtain ⟨c, hc, rfl⟩ := ofBundle_eq_ok_iff.1 h
    obtain ⟨c', hc', rfl⟩ := ofBundle_eq_ok_iff.1 h'
    obtain ⟨rfl, -⟩ := build_eq_ok_iff.1 hc
    obtain ⟨rfl, -⟩ := build_eq_ok_iff.1 hc'
    refine ⟨kept_of_arrival hxs hys, ?_, (hperm.filterMap _).length_eq, extract_of_perm _ hperm,
      perm_dropped_of_arrival hxs hys⟩
    show some _ = some _
    rw [accountsAt_of_arrival hxs hys, summary_accountsAt]

/-- A formatter's configuration and a test: two scanners have something to say. -/
def toolsTree : Entry :=
  .folder [(".prettierrc", .file ByteArray.empty), ("test.py", .file "import pytest".toUTF8)]

def prettierSignal : Signal :=
  ⟨Signal.prettierPresentKind, .bool true, ".prettierrc", ⟨1, 1⟩, 1.0⟩

def pytestSignal : Signal := ⟨Signal.testPytestKind, .bool true, "test.py", ⟨1, 1⟩, 0.2⟩

/-- A scanner that walks looks at one file of the two, or at none. -/
theorem scannedFiles_toolsTree (accept : String → Bool) (hprettier : accept ".prettierrc" = false) :
    scannedFiles toolsTree "." none accept =
      .ok (if accept "test.py" then [⟨"test.py", .file "import pytest".toUTF8⟩] else []) := by
  have hfind : toolsTree.find "." = .ok toolsTree := rfl
  have hbelow : toolsTree.filesBelow "" =
      [⟨".prettierrc", .file ByteArray.empty⟩, ⟨"test.py", .file "import pytest".toUTF8⟩] := by
    simp only [toolsTree, Entry.filesBelow, Entry.filesAmong]
    rfl
  simp only [scannedFiles, collectFiles, hfind, hbelow, Bind.bind, Except.bind]
  cases htest : accept "test.py" <;> simp [hprettier, htest, defaultMaxFiles]

theorem brings_toolsTree :
    Scanner.all.map (Scanner.brings toolsTree "." none) =
      [[prettierSignal], [pytestSignal], [], []] := by
  have hconfiguration : Configuration.scanner.brings toolsTree "." none = [prettierSignal] := rfl
  have hpython : Python.scanner.brings toolsTree "." none = [pytestSignal] := by
    have hfiles := scannedFiles_toolsTree Python.isSource
      (Bool.eq_false_iff.2 (mt Python.isSource_iff.1 (by decide)))
    rw [if_pos (Python.isSource_iff.2 (by decide))] at hfiles
    simp only [Scanner.brings, Python.scanner, hfiles]
    rfl
  have htypescript : TypeScript.scanner.brings toolsTree "." none = [] := by
    have hfiles := scannedFiles_toolsTree TypeScript.isSource
      (Bool.eq_false_iff.2 (mt TypeScript.isSource_iff.1 (by decide)))
    rw [if_neg (mt TypeScript.isSource_iff.1 (by decide))] at hfiles
    simp only [Scanner.brings, TypeScript.scanner, hfiles]
    rfl
  have hworkflow : Workflow.scanner.brings toolsTree "." none = [] := by
    have hfiles := scannedFiles_toolsTree Workflow.isDefinition (by decide)
    rw [if_neg (by decide)] at hfiles
    simp only [Scanner.brings, Workflow.scanner, hfiles]
    rfl
  rw [Scanner.all, List.map_cons, List.map_cons, List.map_cons, List.map_cons, List.map_nil,
    hconfiguration, hpython, htypescript, hworkflow]

theorem arrives_toolsTree {signals : List Signal}
    (h : Interleaves [[prettierSignal], [pytestSignal], [], []] signals) :
    Arrives toolsTree "." none signals := by
  rw [Arrives, brings_toolsTree]
  exact h

/-- The configuration is heard of first, or the test is. -/
theorem contract_toolsTree :
    ∃ o o', ofBundle ⟨.standard, .standard, some (proposer, {})⟩ toolsTree "." ⟨none, "a"⟩
        { signals := [prettierSignal, pytestSignal] } ⟨0, 0⟩ 0 = .ok o ∧
      ofBundle ⟨.standard, .standard, some (proposer, {})⟩ toolsTree "." ⟨none, "a"⟩
        { signals := [pytestSignal, prettierSignal] } ⟨0, 0⟩ 0 = .ok o' ∧
      o.contract.rules = o'.contract.rules ∧ o.contract.metrics = o'.contract.metrics ∧
      o.deterministic = o'.deterministic ∧ o.extraction = o'.extraction ∧
      o.dropped.Perm o'.dropped := by
  have hempty : ∀ part ∈ ([[], [], [], []] : List (List Signal)), part = [] := by simp
  have hxs : Arrives toolsTree "." none [prettierSignal, pytestSignal] :=
    arrives_toolsTree (.take [] (.take [[]] (.done hempty)))
  have hys : Arrives toolsTree "." none [pytestSignal, prettierSignal] :=
    arrives_toolsTree (.take [[prettierSignal]] (.take [] (.done hempty)))
  have hrun (signals : List Signal) (hpath : ∀ s ∈ signals, s.path ≠ "") :
      ∃ o, ofBundle ⟨.standard, .standard, some (proposer, {})⟩ toolsTree "." ⟨none, "a"⟩
        { signals := signals } ⟨0, 0⟩ 0 = .ok o :=
    exists_ofBundle_standard _ _ (fun s hs _ => hpath s hs) (by decide) (by decide) onClock_zero
  obtain ⟨o, ho⟩ := hrun [prettierSignal, pytestSignal] (by simp [prettierSignal, pytestSignal])
  obtain ⟨o', ho'⟩ := hrun [pytestSignal, prettierSignal] (by simp [prettierSignal, pytestSignal])
  exact ⟨o, o', ho, ho', (contract_of_arrival .standard (some (proposer, {})) toolsTree "." none
    ⟨none, "a"⟩ {} _ _ hxs hys).2 _ _ _ _ o o' ho ho'⟩

end Synthesis

end StyleContract
