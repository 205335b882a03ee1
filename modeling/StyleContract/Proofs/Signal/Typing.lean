import StyleContract.Proofs.Files.Directory
import StyleContract.Proofs.Pattern.Counts
import StyleContract.Proofs.Signal.Density
import StyleContract.Proofs.Signal.Sources
import StyleContract.Proofs.Store
import StyleContract.Proofs.Synthesis.Table

/-!
# Proofs — Signal — Typing

What the share of annotated functions says. Definitions and annotated definitions are counted apart, by two
searches over each text. A definition ends at the first bracket behind its name and an annotated one begins with
it, so that **there are no more annotated definitions than definitions** (`annotated_le_definitions`) and the
share lies between zero and one.

The share is rounded to hundredths before it is compared with one half: **the rule is projected from 99 of 200
on** (`typing_projected_iff`), not from one half on (`typing_projected_below_half`).
-/

namespace StyleContract.Python

open Pattern

variable {p : Pattern} {files : List FoundFile} {signals : List Signal} {s : Signal} {tree : Entry}
  {root : String} {most : Option Nat}

/-! ### Counts -/

theorem endsAtFirst_defPattern : defPattern.EndsAtFirst '(' :=
  ((((((endsAtFirst_one '(').then_empty.after (by decide)).after (by decide)).after (by decide)).after
    (by decide)).after (by decide)).after (by decide)

theorem length_annotated_le (cs : List Char) :
    (annotatedDefPattern.findAll cs).length ≤ (defPattern.findAll cs).length :=
  length_findAll_le (by decide) (by decide) (endsAtFirst_defPattern.beginsWith _)
    endsAtFirst_defPattern.endsInOrder cs

/-- How many matches a pattern has in the readable texts of files. -/
def count (p : Pattern) (files : List FoundFile) : Nat :=
  ((readable files).map fun t => (p.findAll t.2).length).sum

theorem count_annotated_le (files : List FoundFile) :
    count annotatedDefPattern files ≤ count defPattern files :=
  List.sum_le_sum fun t _ => length_annotated_le t.2

theorem foldl_add_length (texts : List (String × List Char)) (n : Nat) :
    texts.foldl (fun n t => n + (p.findAll t.2).length) n =
      n + (texts.map fun t => (p.findAll t.2).length).sum := by
  induction texts generalizing n with
  | nil => rfl
  | cons t texts ih => rw [List.foldl_cons, ih, List.map_cons, List.sum_cons, Nat.add_assoc]

/-- The share of all files, if there is a definition. -/
theorem densitySignal_eq_some_iff : densitySignal files (readable files) = some s ↔
    0 < count defPattern files ∧ ∃ f, files.head? = some f ∧
      s = ⟨Signal.typingDensityKind, Json.ofFloat (density (count annotatedDefPattern files)
        (count defPattern files)), f.path, ⟨1, 1⟩, 0.5⟩ := by
  cases files with
  | nil => simp [densitySignal, count, readable]
  | cons f files =>
      simp only [densitySignal, foldl_add_length, Nat.zero_add, List.head?_cons,
        Option.ite_none_left_eq_some, Option.some.injEq, exists_eq_left', Nat.pos_iff_ne_zero, ne_eq]
      exact and_congr_right fun _ => eq_comm

theorem exists_scan (h : scannedFiles tree root most isSource = .ok files) :
    ∃ signals, scanner.scan tree root most = .ok signals :=
  ⟨_, Document.bind_eq_ok_iff.2 ⟨files, h, rfl⟩⟩

/-- Of the signals of sources, one at most is a share. -/
theorem filter_scan (h : scanner.scan tree root most = .ok signals) :
    ∃ files, scannedFiles tree root most isSource = .ok files ∧
      signals.filter (·.kind == Signal.typingDensityKind) =
        (densitySignal files (readable files)).toList := by
  obtain ⟨files, hfiles, h⟩ := Document.bind_eq_ok_iff.1 h
  cases h
  refine ⟨files, hfiles, ?_⟩
  have himports : ((readable files).flatMap fun t => importSignals t.1 t.2).filter
      (·.kind == Signal.typingDensityKind) = [] := by
    refine List.filter_eq_nil_iff.2 fun s hs => ?_
    obtain ⟨t, -, hs⟩ := List.mem_flatMap.1 hs
    have hkinds : ¬ (Signal.importLoggingKind == Signal.typingDensityKind) = true ∧
        ¬ (Signal.testPytestKind == Signal.typingDensityKind) = true := by decide
    rcases List.mem_append.1 hs with hs | hs <;>
      obtain ⟨m, -, rfl⟩ := Option.map_eq_some_iff.1 (Option.mem_toList.1 hs)
    · exact hkinds.1
    · exact hkinds.2
  rw [List.filter_append, himports, List.nil_append, List.filter_eq_self]
  intro s hs
  obtain ⟨-, f, -, rfl⟩ := densitySignal_eq_some_iff.1 (Option.mem_toList.1 hs)
  exact beq_self_eq_true _

theorem float_of_densitySignal (h : densitySignal files (readable files) = some s) :
    s.value = .num (.float (density (count annotatedDefPattern files) (count defPattern files))) := by
  obtain ⟨-, f, -, rfl⟩ := densitySignal_eq_some_iff.1 h
  exact if_pos (density_mem_unit (count_annotated_le files)).1

/-! ### A file of definitions -/

/-- Definitions, of which the first ones are annotated. -/
def definitions (annotated plain : Nat) : List Char :=
  (List.replicate annotated "def f() ->\n".toList ++ List.replicate plain "def f()\n".toList).flatten

/-- A file with 101 definitions, of which 50 are annotated. -/
def nearHalf : FoundFile := ⟨"a.py", .file (String.ofList (definitions 50 51)).toUTF8⟩

def nearHalfTree : Entry := .folder [(nearHalf.path, nearHalf.entry)]

theorem count_single (path : String) (cs : List Char) :
    count p [⟨path, .file (String.ofList cs).toUTF8⟩] = (p.findAll cs).length := by
  have htext : FoundFile.text ⟨path, .file (String.ofList cs).toUTF8⟩ = .ok (String.ofList cs) := by
    rw [FoundFile.text, Entry.textOf_toUTF8]
  have hreadable : readable [⟨path, .file (String.ofList cs).toUTF8⟩] = [(path, cs)] := by
    rw [readable, List.filterMap_cons, htext]
    simp [Except.toOption]
  rw [count, hreadable, List.map_singleton, List.sum_singleton]

theorem count_nearHalf : count annotatedDefPattern [nearHalf] = 50 ∧ count defPattern [nearHalf] = 101 := by
  rw [nearHalf, count_single, count_single]
  decide +kernel

theorem scannedFiles_single (bytes : ByteArray) :
    scannedFiles (.folder [("a.py", .file bytes)]) "." none isSource = .ok [⟨"a.py", .file bytes⟩] := by
  cbv

theorem scannedFiles_nearHalf : scannedFiles nearHalfTree "." none isSource = .ok [nearHalf] := by
  rw [nearHalfTree, nearHalf, scannedFiles_single]

/-- The one share that a scan of the file reports. -/
theorem scan_nearHalf : ∃ signals s, scanner.scan nearHalfTree "." none = .ok signals ∧
    signals.filter (·.kind == Signal.typingDensityKind) = [s] ∧ s.kind = Signal.typingDensityKind ∧
    s.value = .num (.float (density 50 101)) := by
  obtain ⟨hannotated, hdefs⟩ := count_nearHalf
  obtain ⟨signals, hscan⟩ := exists_scan scannedFiles_nearHalf
  obtain ⟨files, hfiles, hfilter⟩ := filter_scan hscan
  obtain rfl : [nearHalf] = files := Except.ok.inj (scannedFiles_nearHalf.symm.trans hfiles)
  have hdensity := densitySignal_eq_some_iff.2 ⟨by rw [hdefs]; decide, nearHalf, rfl, rfl⟩
  have hfloat := float_of_densitySignal hdensity
  rw [hdensity] at hfilter
  exact ⟨signals, _, hscan, hfilter, rfl, by rw [hfloat, hannotated, hdefs]⟩

/-! ### Shares between zero and one -/

/-- **There are no more annotated definitions than definitions**, in any text. So the share that is
reported for any files lies between zero and one, and so does that of a whole tree. -/
theorem annotated_le_definitions :
    (∀ cs : List Char, (annotatedDefPattern.findAll cs).length ≤ (defPattern.findAll cs).length) ∧
    (∀ files s, densitySignal files (readable files) = some s →
      ∃ x : Float, s.value = .num (.float x) ∧ 0.0 ≤ x ∧ x ≤ 1.0) ∧
    (∀ tree root most signals, scanner.scan tree root most = .ok signals →
      ∀ s ∈ signals, s.kind = Signal.typingDensityKind →
        ∃ x : Float, s.value = .num (.float x) ∧ 0.0 ≤ x ∧ x ≤ 1.0) := by
  have hfiles : ∀ files s, densitySignal files (readable files) = some s →
      ∃ x : Float, s.value = .num (.float x) ∧ 0.0 ≤ x ∧ x ≤ 1.0 := fun files s hs =>
    ⟨_, float_of_densitySignal hs, (density_mem_unit (count_annotated_le files)).2⟩
  refine ⟨length_annotated_le, hfiles, fun tree root most signals h s hs hkind => ?_⟩
  obtain ⟨files, -, hfilter⟩ := filter_scan h
  have hmem : s ∈ signals.filter (·.kind == Signal.typingDensityKind) :=
    List.mem_filter.2 ⟨hs, beq_iff_eq.2 hkind⟩
  rw [hfilter] at hmem
  exact hfiles files s (Option.mem_toList.1 hmem)

theorem annotated_le_definitions_nearHalf : ∃ signals s,
    scanner.scan nearHalfTree "." none = .ok signals ∧ s ∈ signals ∧
      s.kind = Signal.typingDensityKind ∧ ∃ x : Float, s.value = .num (.float x) ∧ 0.0 ≤ x ∧ x ≤ 1.0 := by
  obtain ⟨signals, s, hscan, hfilter, hkind, -⟩ := scan_nearHalf
  have hs : s ∈ signals := List.mem_of_mem_filter (hfilter ▸ List.mem_singleton_self s)
  exact ⟨signals, s, hscan, hs, hkind, annotated_le_definitions.2.2 _ _ _ _ hscan s hs hkind⟩

/-! ### The rule -/

theorem project_typing (hkind : s.kind = Signal.typingDensityKind) {x : Float}
    (hvalue : s.value = .num (.float x)) :
    (Projector.standard.project [s]).map (·.id) =
      if Projection.typingThreshold ≤ x then ["PY-TYPE-001"] else [] := by
  have hrow : Projection.table.find? (·.kind == s.kind) =
      some ⟨Signal.typingDensityKind, "PY-TYPE-001", Projection.typing⟩ := by
    rw [hkind]
    rfl
  have hrule : Projector.standard.ruleOf? s = Projection.typing s := by
    rw [Projector.ruleOf?_eq, Projector.rows_standard, hrow, Option.bind_some]
  rw [Projector.project, List.filterMap_cons, hrule, Projection.typing, hvalue]
  have hfloat : (Json.num (.float x)).float? = some x := rfl
  by_cases hx : Projection.typingThreshold ≤ x <;> simp [hfloat, hx]

/-- **The rule is projected from 99 of 200 on.** That is so for the one share of the files that a scan
reports if they have a definition, in exact fractions, and among floats for fewer than `2 ^ 46`
definitions. -/
theorem typing_projected_iff (h : scanner.scan tree root most = .ok signals) :
    ∃ files, scannedFiles tree root most isSource = .ok files ∧
      (0 < count defPattern files →
        (1 / 2 ≤ exactDensity (count annotatedDefPattern files) (count defPattern files) ↔
          99 * count defPattern files ≤ 200 * count annotatedDefPattern files) ∧
        ∃ s, signals.filter (·.kind == Signal.typingDensityKind) = [s] ∧
          (count defPattern files < 2 ^ 46 →
            ((Projector.standard.project [s]).map (·.id) = ["PY-TYPE-001"] ↔
              99 * count defPattern files ≤ 200 * count annotatedDefPattern files))) := by
  obtain ⟨files, hfiles, hfilter⟩ := filter_scan h
  refine ⟨files, hfiles, fun hpos => ⟨half_le_exactDensity_iff hpos, ?_⟩⟩
  obtain ⟨f, hf⟩ : ∃ f, files.head? = some f := by
    cases files with
    | nil => exact absurd hpos (Nat.lt_irrefl 0)
    | cons f files => exact ⟨f, rfl⟩
  have hdensity := densitySignal_eq_some_iff.2 ⟨hpos, f, hf, rfl⟩
  rw [hdensity] at hfilter
  refine ⟨_, hfilter, fun hfew => ?_⟩
  rw [project_typing rfl (float_of_densitySignal hdensity),
    ← typingThreshold_le_density_iff hpos (count_annotated_le files) hfew]
  split <;> simp [*]

theorem typing_projected_iff_nearHalf : ∃ signals s,
    scanner.scan nearHalfTree "." none = .ok signals ∧
      signals.filter (·.kind == Signal.typingDensityKind) = [s] ∧
      (Projector.standard.project [s]).map (·.id) = ["PY-TYPE-001"] := by
  obtain ⟨signals, -, hscan, -⟩ := scan_nearHalf
  obtain ⟨files, hfiles, hprojected⟩ := typing_projected_iff hscan
  obtain rfl : [nearHalf] = files := Except.ok.inj (scannedFiles_nearHalf.symm.trans hfiles)
  obtain ⟨hannotated, hdefs⟩ := count_nearHalf
  rw [hannotated, hdefs] at hprojected
  obtain ⟨-, s, hs, hrule⟩ := hprojected (by decide)
  exact ⟨signals, s, hscan, hs, (hrule (by decide)).2 (by decide)⟩

/-- **50 of 101 are less than one half**, and 0.50 after rounding. -/
theorem typing_projected_below_half :
    scannedFiles nearHalfTree "." none isSource = .ok [nearHalf] ∧
      count annotatedDefPattern [nearHalf] = 50 ∧ count defPattern [nearHalf] = 101 ∧ ¬ 101 ≤ 2 * 50 ∧
      1 / 2 ≤ exactDensity 50 101 ∧
      ∃ signals s, scanner.scan nearHalfTree "." none = .ok signals ∧
        signals.filter (·.kind == Signal.typingDensityKind) = [s] ∧
        (Projector.standard.project [s]).map (·.id) = ["PY-TYPE-001"] := by
  obtain ⟨signals, s, hscan, hfilter, hkind, hvalue⟩ := scan_nearHalf
  have hhalf : Projection.typingThreshold ≤ density 50 101 :=
    (typingThreshold_le_density_iff (by decide) (by decide) (by decide)).2 (by decide)
  exact ⟨scannedFiles_nearHalf, count_nearHalf.1, count_nearHalf.2, by decide,
    (half_le_exactDensity_iff (by decide)).2 (by decide), signals, s, hscan, hfilter,
    by rw [project_typing hkind hvalue, if_pos hhalf]⟩

end StyleContract.Python
