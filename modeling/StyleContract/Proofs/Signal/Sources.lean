import StyleContract.Proofs.Files.Walk
import StyleContract.Proofs.Pattern.Search
import StyleContract.Proofs.Text.Lines
import StyleContract.Signal.Scanners

/-!
# Proofs — Signal — Sources

Where signals come from. For each scanner `mem_scan` says which signals it can return: for which file,
and from what in its text. Two things are read off it.

**Kinds belong to scanners** (`kinds_differ`): no two scanners return signals of one kind.

**A signal cites lines that are there** (`Signal.Sourced`): its path leads to a file below the root,
and its lines are lines of that file's text. Lines are found in three ways, as the line of a match, as
a number in the list of lines, or as the first line where nothing better is known; what is matched or
listed is never empty, which is why all three stay within the text.
-/

namespace StyleContract

variable {tree : Entry} {root : String} {most : Option Nat} {signals : List Signal} {s : Signal}

/-- A signal is about a file below the root, and about lines that its text has. They are a range even
if the file cannot be read. -/
structure Signal.Sourced (tree : Entry) (root : String) (s : Signal) : Prop where
  isFile : tree.isFile (Path.join root s.path) = true
  descends : Path.Descends s.path
  valid : s.lines.Valid
  inText : ∀ text, tree.readText (Path.join root s.path) = .ok text → s.lines.In text

/-! ### Files that are walked to -/

theorem scannedFiles_eq_ok {accept : String → Bool} {files : List FoundFile}
    (h : scannedFiles tree root most accept = .ok files) :
    collectFiles tree root (most.getD defaultMaxFiles) accept = .ok files := by
  rw [scannedFiles] at h
  split at h
  · next heq =>
    cases h
    exact heq
  · cases h

namespace FoundFile

variable {f : FoundFile}

/-- A scanner that walks asks for no file without a path. -/
theorem located_of_mem_scannedFiles {accept : String → Bool} {files : List FoundFile}
    (hnamed : tree.Named) (haccept : accept "" = false)
    (h : scannedFiles tree root most accept = .ok files) (hf : f ∈ files) : f.Located tree root :=
  located_of_mem_collectFiles hnamed haccept (scannedFiles_eq_ok h) hf

theorem Located.isFile (h : f.Located tree root) : tree.isFile (Path.join root f.path) = true := by
  obtain ⟨content, hcontent⟩ := h.entry_eq
  rw [Entry.isFile, h.find_eq, hcontent]

/-- The text of a found file is the text at its path. -/
theorem Located.text_eq_ok_iff (h : f.Located tree root) {text : String} :
    f.text = .ok text ↔ tree.readText (Path.join root f.path) = .ok text := by
  have hread : tree.readText (Path.join root f.path) = f.entry.textOf := by
    rw [Entry.readText, h.find_eq]
    rfl
  rw [hread, FoundFile.text]
  cases f.entry.textOf <;> simp

/-- A signal about a found file, and about lines that its text has. -/
theorem Located.sourced (h : f.Located tree root) (hpath : s.path = f.path)
    (hvalid : s.lines.Valid) (hlines : ∀ text, f.text = .ok text → s.lines.In text) :
    s.Sourced tree root where
  isFile := hpath ▸ h.isFile
  descends := hpath ▸ h.descends
  valid := hvalid
  inText text hread := hlines text (h.text_eq_ok_iff.2 (hpath ▸ hread))

/-- A signal that was made of the text of a found file. -/
theorem Located.sourced_of_text {text : String} (h : f.Located tree root)
    (hshort : tree.Texts Text.IsShort) (htext : f.text = .ok text)
    (hs : Text.IsShort text → s.path = f.path ∧ s.lines.In text) : s.Sourced tree root := by
  obtain ⟨hpath, hlines⟩ := hs (hshort.of_readText (h.text_eq_ok_iff.1 htext))
  refine h.sourced hpath hlines.valid fun text' htext' => ?_
  cases htext.symm.trans htext'
  exact hlines

end FoundFile

/-! ### Configuration -/

namespace Configuration

open Pattern

def kinds : List String :=
  [Signal.blackLineLengthKind, Signal.tsconfigStrictKind, Signal.prettierPresentKind]

theorem optionalText_eq_some {name text : String}
    (h : optionalText tree root name = .ok (some text)) :
    tree.isFile (Path.join root name) = true ∧ tree.readText (Path.join root name) = .ok text := by
  rw [optionalText] at h
  split at h
  · next hfile =>
    split at h
    · next hread =>
      cases h
      exact ⟨hfile, hread⟩
    · cases h
  · cases h

theorem mem_fromFile {name : String} {read : String → Option Signal}
    (h : fromFile tree root name read = .ok signals) (hs : s ∈ signals) :
    ∃ text, tree.isFile (Path.join root name) = true ∧
      tree.readText (Path.join root name) = .ok text ∧ read text = some s := by
  obtain ⟨text?, htext, h⟩ := Document.bind_eq_ok_iff.1 h
  cases text? with
  | none => cases h; cases hs
  | some text =>
      cases h
      obtain ⟨hfile, hread⟩ := optionalText_eq_some htext
      exact ⟨text, hfile, hread, Option.mem_toList.1 hs⟩

/-- What the configuration of tools tells. -/
theorem mem_scan (h : scanner.scan tree root most = .ok signals) (hs : s ∈ signals) :
    (∃ text n line, tree.isFile (Path.join root "pyproject.toml") = true ∧
      tree.readText (Path.join root "pyproject.toml") = .ok text ∧
      lineLength? text = some (n, line) ∧
      s = signal Signal.blackLineLengthKind (Json.ofNat n) "pyproject.toml" line) ∨
    (∃ text line, tree.isFile (Path.join root "tsconfig.json") = true ∧
      tree.readText (Path.join root "tsconfig.json") = .ok text ∧ strictLine? text = some line ∧
      s = signal Signal.tsconfigStrictKind (.bool true) "tsconfig.json" line) ∨
    ∃ name ∈ prettierFiles, tree.isFile (Path.join root name) = true ∧
      s = signal Signal.prettierPresentKind (.bool true) name 1 := by
  obtain ⟨lengths, hlengths, h⟩ := Document.bind_eq_ok_iff.1 h
  obtain ⟨strict, hstrict, h⟩ := Document.bind_eq_ok_iff.1 h
  cases h
  rw [List.mem_append, List.mem_append, or_assoc] at hs
  refine hs.imp (fun hs => ?_) (Or.imp (fun hs => ?_) fun hs => ?_)
  · obtain ⟨text, hfile, hread, hs⟩ := mem_fromFile hlengths hs
    obtain ⟨⟨n, line⟩, hlength, rfl⟩ := Option.map_eq_some_iff.1 hs
    exact ⟨text, n, line, hfile, hread, hlength, rfl⟩
  · obtain ⟨text, hfile, hread, hs⟩ := mem_fromFile hstrict hs
    obtain ⟨line, hline, rfl⟩ := Option.map_eq_some_iff.1 hs
    exact ⟨text, line, hfile, hread, hline, rfl⟩
  · obtain ⟨name, hfind, rfl⟩ := Option.map_eq_some_iff.1 (Option.mem_toList.1 hs)
    exact ⟨name, List.mem_of_find?_eq_some hfind, by simpa using List.find?_some hfind, rfl⟩

theorem kind_mem_of_mem_scan (h : scanner.scan tree root most = .ok signals) (hs : s ∈ signals) :
    s.kind ∈ kinds := by
  rcases mem_scan h hs with ⟨_, _, _, -, -, -, rfl⟩ | ⟨_, _, -, -, -, rfl⟩ | ⟨_, -, -, rfl⟩ <;>
    simp [kinds, signal]

/-! #### Lines -/

variable {text : String} {line : UInt32}

theorem in_of_sectionLine? {header : String} {n : Nat} (hshort : Text.IsShort text)
    (h : sectionLine? text.toList header n = some line) : Lines.In ⟨line, line⟩ text := by
  obtain ⟨start, -, h⟩ := Option.bind_eq_some_iff.1 h
  obtain ⟨m, hm, h⟩ := Option.bind_eq_some_iff.1 h
  cases h
  have hplace := start_lt_of_mem_findAll (by decide) (List.mem_of_find?_eq_some hm)
  rw [List.length_drop] at hplace
  exact Lines.in_lineOfPlace hshort (by omega)

/-- Where nothing better is known it is the first line. -/
theorem in_getD {found : Option UInt32} (h : ∀ line, found = some line → Lines.In ⟨line, line⟩ text) :
    Lines.In ⟨found.getD 1, found.getD 1⟩ text := by
  cases found with
  | none => exact Lines.in_first text
  | some line => exact h line rfl

theorem in_of_anyLength? {n : Nat} (hshort : Text.IsShort text)
    (h : anyLength? text.toList = some (n, line)) : Lines.In ⟨line, line⟩ text := by
  obtain ⟨m, hm, h⟩ := Option.bind_eq_some_iff.1 h
  obtain ⟨_, -, h⟩ := Option.bind_eq_some_iff.1 h
  obtain ⟨_, -, h⟩ := Option.bind_eq_some_iff.1 h
  rw [Option.ite_none_right_eq_some] at h
  obtain ⟨-, ⟨⟩⟩ := h
  exact Lines.in_lineOfPlace hshort (start_lt_of_find? (by decide) hm)

theorem in_of_lineLength? {n : Nat} (hshort : Text.IsShort text)
    (h : lineLength? text = some (n, line)) : Lines.In ⟨line, line⟩ text := by
  simp only [lineLength?, Option.or_eq_some_iff, Option.map_eq_some_iff, Prod.mk.injEq] at h
  rcases h with (⟨_, -, rfl, rfl⟩ | ⟨-, _, -, rfl, rfl⟩) | ⟨-, h⟩
  · exact in_getD fun _ => in_of_sectionLine? hshort
  · exact in_getD fun _ => in_of_sectionLine? hshort
  · exact in_of_anyLength? hshort h

theorem in_of_strictLine? (hshort : Text.IsShort text) (h : strictLine? text = some line) :
    Lines.In ⟨line, line⟩ text := by
  have hfound (line : UInt32) (h : (strictPattern.find? text.toList).map
      (fun m => Text.lineOfPlace text.toList m.start) = some line) : Lines.In ⟨line, line⟩ text := by
    obtain ⟨m, hm, rfl⟩ := Option.map_eq_some_iff.1 h
    exact Lines.in_lineOfPlace hshort (start_lt_of_find? (by decide) hm)
  rw [strictLine?] at h
  split at h
  · rw [Option.ite_none_right_eq_some] at h
    obtain ⟨-, ⟨⟩⟩ := h
    exact in_getD hfound
  · exact hfound line h

/-! #### Files -/

theorem isName_pyproject : Path.IsName "pyproject.toml" :=
  ⟨by decide, by decide, by decide, by decide, by decide⟩

theorem isName_tsconfig : Path.IsName "tsconfig.json" :=
  ⟨by decide, by decide, by decide, by decide, by decide⟩

theorem isName_of_mem_prettierFiles {name : String} (h : name ∈ prettierFiles) :
    Path.IsName name := by
  have hall : ∀ name ∈ prettierFiles,
      name ≠ "" ∧ name ≠ "." ∧ name ≠ ".." ∧ '/' ∉ name.toList ∧ '\\' ∉ name.toList := by
    decide
  obtain ⟨hempty, hdot, hup, hslash, hbackslash⟩ := hall name h
  exact ⟨hempty, hdot, hup, hslash, hbackslash⟩

/-- A signal about a file directly below the root. -/
theorem sourced_of_isName {name : String} (hname : Path.IsName name)
    (hfile : tree.isFile (Path.join root name) = true) (hpath : s.path = name)
    (hvalid : s.lines.Valid)
    (hlines : ∀ text, tree.readText (Path.join root name) = .ok text → s.lines.In text) :
    s.Sourced tree root ∧ (Path.steps s.path).length = 1 := by
  subst hpath
  have hsteps := Path.steps_of_isName hname
  refine ⟨⟨hfile, ⟨Path.isAbsolute_of_isName hname, ?_, ?_⟩, hvalid, hlines⟩, by rw [hsteps]; rfl⟩
  · rw [hsteps, List.mem_singleton]
    exact Ne.symm hname.ne_up
  · rw [hsteps]
    exact fun _ h => nomatch h

/-- **The configuration of tools lies directly below the root.** -/
theorem sourced_of_mem_scan (hshort : tree.Texts Text.IsShort)
    (h : scanner.scan tree root most = .ok signals) (hs : s ∈ signals) :
    s.Sourced tree root ∧ (Path.steps s.path).length = 1 := by
  rcases mem_scan h hs with ⟨text, n, line, hfile, hread, hline, rfl⟩ |
    ⟨text, line, hfile, hread, hline, rfl⟩ | ⟨name, hname, hfile, rfl⟩
  · have hlines := in_of_lineLength? (hshort.of_readText hread) hline
    refine sourced_of_isName isName_pyproject hfile rfl hlines.valid fun text' hread' => ?_
    cases hread.symm.trans hread'
    exact hlines
  · have hlines := in_of_strictLine? (hshort.of_readText hread) hline
    refine sourced_of_isName isName_tsconfig hfile rfl hlines.valid fun text' hread' => ?_
    cases hread.symm.trans hread'
    exact hlines
  · exact sourced_of_isName (isName_of_mem_prettierFiles hname) hfile rfl (Lines.in_first "").valid
      fun text _ => Lines.in_first text

end Configuration

/-! ### Python -/

theorem endsWith_iff {s t : String} : s.endsWith t = true ↔ t.toList <:+ s.toList := by
  rw [String.endsWith_eq_endsWith_toSlice, String.Slice.endsWith_string_iff, String.copy_toSlice]

namespace Python

open Pattern

def kinds : List String :=
  [Signal.importLoggingKind, Signal.testPytestKind, Signal.typingDensityKind]

variable {path text : String}

theorem isSource_iff : isSource path = true ↔ ".py".toList <:+ path.toList := endsWith_iff

theorem mem_importSignals {cs : List Char} (hs : s ∈ importSignals path cs) :
    ∃ kind ∈ kinds, ∃ module, (importPattern module).consumes = true ∧
      importSignal kind module path cs = some s := by
  rcases List.mem_append.1 hs with hs | hs
  · exact ⟨Signal.importLoggingKind, by simp [kinds], "logging", by decide, Option.mem_toList.1 hs⟩
  · exact ⟨Signal.testPytestKind, by simp [kinds], "pytest", by decide, Option.mem_toList.1 hs⟩

theorem densitySignal_eq_some {files : List FoundFile} {texts : List (String × List Char)}
    (h : densitySignal files texts = some s) :
    ∃ f ∈ files, s.kind = Signal.typingDensityKind ∧ s.path = f.path ∧ s.lines = ⟨1, 1⟩ := by
  cases files with
  | nil => cases h
  | cons f files =>
      simp only [densitySignal, Option.ite_none_left_eq_some] at h
      obtain ⟨-, ⟨⟩⟩ := h
      exact ⟨f, List.mem_cons_self, rfl, rfl, rfl⟩

/-- What sources tell. -/
theorem mem_scan (h : scanner.scan tree root most = .ok signals) (hs : s ∈ signals) :
    ∃ files, scannedFiles tree root most isSource = .ok files ∧ ∃ f ∈ files,
      (∃ text, f.text = .ok text ∧ s ∈ importSignals f.path text.toList) ∨
        s.kind = Signal.typingDensityKind ∧ s.path = f.path ∧ s.lines = ⟨1, 1⟩ := by
  obtain ⟨files, hfiles, h⟩ := Document.bind_eq_ok_iff.1 h
  cases h
  refine ⟨files, hfiles, ?_⟩
  rcases List.mem_append.1 hs with hs | hs
  · obtain ⟨t, ht, hs⟩ := List.mem_flatMap.1 hs
    obtain ⟨f, hf, ht⟩ := List.mem_filterMap.1 ht
    obtain ⟨text, htext, rfl⟩ := Option.map_eq_some_iff.1 ht
    exact ⟨f, hf, .inl ⟨text, Document.toOption_eq_some_iff.1 htext, hs⟩⟩
  · obtain ⟨f, hf, hdensity⟩ := densitySignal_eq_some (Option.mem_toList.1 hs)
    exact ⟨f, hf, .inr hdensity⟩

theorem kind_mem_of_mem_scan (h : scanner.scan tree root most = .ok signals) (hs : s ∈ signals) :
    s.kind ∈ kinds := by
  obtain ⟨_, -, f, -, ⟨text, -, hs⟩ | ⟨hkind, -⟩⟩ := mem_scan h hs
  · obtain ⟨kind, hkind, module, -, hs⟩ := mem_importSignals hs
    obtain ⟨m, -, rfl⟩ := Option.map_eq_some_iff.1 hs
    exact hkind
  · simp [hkind, kinds]

theorem in_of_mem_importSignals (hshort : Text.IsShort text)
    (hs : s ∈ importSignals path text.toList) : s.path = path ∧ s.lines.In text := by
  obtain ⟨kind, -, module, hconsumes, hs⟩ := mem_importSignals hs
  obtain ⟨m, hm, rfl⟩ := Option.map_eq_some_iff.1 hs
  exact ⟨rfl, Lines.in_lineOfPlace hshort (start_lt_of_find? hconsumes hm)⟩

theorem sourced_of_mem_scan (hnamed : tree.Named) (hshort : tree.Texts Text.IsShort)
    (h : scanner.scan tree root most = .ok signals) (hs : s ∈ signals) : s.Sourced tree root := by
  obtain ⟨files, hfiles, f, hf, hs⟩ := mem_scan h hs
  have hlocated := FoundFile.located_of_mem_scannedFiles hnamed (by decide) hfiles hf
  rcases hs with ⟨text, htext, hs⟩ | ⟨-, hpath, hlines⟩
  · exact hlocated.sourced_of_text hshort htext fun hshort => in_of_mem_importSignals hshort hs
  · refine hlocated.sourced hpath ?_ fun text _ => hlines ▸ Lines.in_first text
    exact hlines ▸ (Lines.in_first "").valid

end Python

/-! ### TypeScript -/

namespace TypeScript

def kinds : List String := [Signal.exportAnyKind]

variable {path text : String}

theorem isSource_iff : isSource path = true ↔
    (".ts".toList <:+ path.toList ∨ ".tsx".toList <:+ path.toList) ∧
      ¬ ".d.ts".toList <:+ path.toList := by
  simp only [isSource, Bool.and_eq_true, Bool.or_eq_true, Bool.not_eq_true', ← Bool.not_eq_true,
    endsWith_iff]

/-- What sources tell. -/
theorem mem_scan (h : scanner.scan tree root most = .ok signals) (hs : s ∈ signals) :
    ∃ files, scannedFiles tree root most isSource = .ok files ∧ ∃ f ∈ files,
      ∃ text, f.text = .ok text ∧ fileSignal f.path text = some s := by
  obtain ⟨files, hfiles, h⟩ := Document.bind_eq_ok_iff.1 h
  cases h
  obtain ⟨f, hf, hs⟩ := List.mem_filterMap.1 hs
  obtain ⟨text, htext, hs⟩ := Option.bind_eq_some_iff.1 hs
  exact ⟨files, hfiles, f, hf, text, Document.toOption_eq_some_iff.1 htext, hs⟩

theorem fileSignal_eq_some (h : fileSignal path text = some s) :
    ∃ first last, (anyLines text).head? = some first ∧ (anyLines text).getLast? = some last ∧
      s.kind = Signal.exportAnyKind ∧ s.path = path ∧ s.lines = ⟨first, last⟩ := by
  rw [fileSignal] at h
  split at h
  · next first last hfirst hlast =>
    cases h
    exact ⟨first, last, hfirst, hlast, rfl, rfl, rfl⟩
  · cases h

theorem kind_mem_of_mem_scan (h : scanner.scan tree root most = .ok signals) (hs : s ∈ signals) :
    s.kind ∈ kinds := by
  obtain ⟨_, -, f, -, text, -, hs⟩ := mem_scan h hs
  obtain ⟨_, _, -, -, hkind, -⟩ := fileSignal_eq_some hs
  exact List.mem_singleton.2 hkind

/-- Whether a line has an exported declaration that mentions `any`. -/
def isAnyLine (line : String) : Bool := exportPattern.occursIn line && anyPattern.occursIn line

/-- The places of such lines among all lines. -/
def anyPlaces (text : String) : List Nat :=
  ((Text.lines text).zipIdx.filter fun l => isAnyLine l.1).map (·.2)

theorem anyLines_eq (text : String) :
    anyLines text = (anyPlaces text).map fun place => UInt32.ofNat place + 1 := by
  rw [anyLines, anyPlaces, List.map_map, ← List.filterMap_eq_map, List.filterMap_filter]
  rfl

/-- **Lines are numbered in their order.** -/
theorem pairwise_anyPlaces (text : String) : (anyPlaces text).Pairwise (· < ·) := by
  have hsub : (anyPlaces text).Sublist ((Text.lines text).zipIdx.map (·.2)) :=
    List.filter_sublist.map _
  rw [List.zipIdx_map_snd] at hsub
  exact List.Pairwise.sublist hsub List.pairwise_lt_range'

theorem lt_of_mem_anyPlaces {place : Nat} (h : place ∈ anyPlaces text) :
    place < (Text.lines text).length := by
  obtain ⟨l, hl, rfl⟩ := List.mem_map.1 h
  have hplace := List.mem_zipIdx (List.mem_of_mem_filter hl)
  omega

theorem in_of_fileSignal (hshort : Text.IsShort text) (h : fileSignal path text = some s) :
    s.path = path ∧ s.lines.In text := by
  obtain ⟨first, last, hfirst, hlast, -, hpath, hlines⟩ := fileSignal_eq_some h
  refine ⟨hpath, hlines ▸ ?_⟩
  rw [anyLines_eq, List.head?_map] at hfirst
  rw [anyLines_eq, List.getLast?_map] at hlast
  obtain ⟨m, hm, rfl⟩ := Option.map_eq_some_iff.1 hfirst
  obtain ⟨n, hn, rfl⟩ := Option.map_eq_some_iff.1 hlast
  have hmem : n ∈ anyPlaces text := List.mem_of_getLast? hn
  refine Lines.in_of_lt_length hshort ?_ (lt_of_mem_anyPlaces hmem)
  -- the first place is before all others, so it is not after the last one
  obtain ⟨rest, hrest⟩ := List.head?_eq_some_iff.1 hm
  have hordered := pairwise_anyPlaces text
  rw [hrest, List.pairwise_cons] at hordered
  rw [hrest, List.mem_cons] at hmem
  exact hmem.elim (fun heq => heq ▸ Nat.le_refl _) fun h => Nat.le_of_lt (hordered.1 n h)

theorem sourced_of_mem_scan (hnamed : tree.Named) (hshort : tree.Texts Text.IsShort)
    (h : scanner.scan tree root most = .ok signals) (hs : s ∈ signals) : s.Sourced tree root := by
  obtain ⟨files, hfiles, f, hf, text, htext, hs⟩ := mem_scan h hs
  have hlocated := FoundFile.located_of_mem_scannedFiles hnamed (by decide) hfiles hf
  exact hlocated.sourced_of_text hshort htext fun hshort => in_of_fileSignal hshort hs

end TypeScript

/-! ### Build servers -/

namespace Workflow

def kinds : List String := [Signal.runCommandKind]

variable {path text : String}

theorem ne_empty_of_mem_scriptCommands {script command : String}
    (h : command ∈ scriptCommands script) : command ≠ "" := by
  have hkept := (List.mem_filter.1 h).2
  rw [Bool.and_eq_true, bne_iff_ne] at hkept
  exact hkept.1

mutual

theorem ne_empty_of_mem_commandsIn :
    ∀ (v : Yaml.Value) (command : String), command ∈ commandsIn v → command ≠ ""
  | .scalar (.text s), _, h => ne_empty_of_mem_scriptCommands (by rwa [commandsIn] at h)
  | .sequence items, _, h => ne_empty_of_mem_commandsInAll items _ (by rwa [commandsIn] at h)
  | .scalar .null, _, h | .scalar (.bool _), _, h | .scalar (.int _), _, h
  | .scalar (.float _), _, h | .mapping _, _, h | .tagged _ _, _, h => nomatch h

theorem ne_empty_of_mem_commandsInAll :
    ∀ (vs : List Yaml.Value) (command : String), command ∈ commandsInAll vs → command ≠ ""
  | [], _, h => nomatch h
  | v :: vs, command, h => by
      rw [commandsInAll, List.mem_append] at h
      exact h.elim (ne_empty_of_mem_commandsIn v command) (ne_empty_of_mem_commandsInAll vs command)

end

mutual

theorem ne_empty_of_mem_commands :
    ∀ (v : Yaml.Value) (command : String), command ∈ commands v → command ≠ ""
  | .mapping entries, _, h => ne_empty_of_mem_commandsOfEntries entries _ (by rwa [commands] at h)
  | .sequence items, _, h => ne_empty_of_mem_commandsOfItems items _ (by rwa [commands] at h)
  | .scalar _, _, h | .tagged _ _, _, h => nomatch h

theorem ne_empty_of_mem_commandsOfEntries :
    ∀ (entries : List (Yaml.Value × Yaml.Value)) (command : String),
      command ∈ commandsOfEntries entries → command ≠ ""
  | [], _, h => nomatch h
  | (k, v) :: rest, command, h => by
      rw [commandsOfEntries, List.mem_append] at h
      rcases h with h | h
      · split at h
        · exact ne_empty_of_mem_commandsIn v command h
        · exact ne_empty_of_mem_commands v command h
      · exact ne_empty_of_mem_commandsOfEntries rest command h

theorem ne_empty_of_mem_commandsOfItems :
    ∀ (vs : List Yaml.Value) (command : String), command ∈ commandsOfItems vs → command ≠ ""
  | [], _, h => nomatch h
  | v :: vs, command, h => by
      rw [commandsOfItems, List.mem_append] at h
      exact h.elim (ne_empty_of_mem_commands v command) (ne_empty_of_mem_commandsOfItems vs command)

end

/-! #### Lines -/

/-- The line of a later place, from the line of an earlier one and what stands between them. -/
theorem lineOfPlace_add (cs : List Char) (place more : Nat) :
    Text.lineOfPlace cs (place + more) =
      Text.lineOfPlace cs place + UInt32.ofNat (((cs.drop place).take more).count '\n') := by
  rw [Text.lineOfPlace, Text.lineOfPlace, List.take_add, List.count_append, UInt32.ofNat_add,
    UInt32.add_assoc, UInt32.add_assoc, UInt32.add_comm (UInt32.ofNat _) 1]

/-- A command that is found stands before the end of the text. -/
theorem lt_length_of_placeOf? {command : String} {rest : List Char} {n : Nat} (hne : command ≠ "")
    (h : Text.placeOf? command.toList rest = some n) : n < rest.length := by
  have hprefix := List.isPrefixOf_iff_prefix.1 (Text.isPrefixOf_of_placeOf? h)
  have hle := hprefix.length_le
  have hpos : 0 < command.toList.length :=
    List.length_pos_iff.2 fun hnil => hne (String.toList_inj.1 hnil)
  rw [List.length_drop] at hle
  omega

/-- **Each command is given a line of the text.** A search starts at a place of the text and knows
the line of this place; both hold again for the next search. -/
theorem in_of_mem_linesOf {commands : List String} {place : Nat} {command : String} {line : UInt32}
    (hshort : Text.IsShort text) (hne : ∀ command ∈ commands, command ≠ "")
    (h : (command, line) ∈ linesOf (Text.lineOfPlace text.toList place)
      (text.toList.drop place) commands) : Lines.In ⟨line, line⟩ text := by
  induction commands generalizing place with
  | nil => cases h
  | cons first more ih =>
      rw [List.forall_mem_cons] at hne
      rw [linesOf] at h
      split at h
      · next n hn =>
        dsimp only at h
        -- the next search starts where this command begins, with the line of that place
        rw [← lineOfPlace_add, ← lineOfPlace_add, List.drop_drop] at h
        rcases List.mem_cons.1 h with h | h
        · cases h
          have hlt := lt_length_of_placeOf? hne.1 hn
          rw [List.length_drop] at hlt
          exact Lines.in_lineOfPlace hshort (by omega)
        · exact ih hne.2 h
      · rcases List.mem_cons.1 h with h | h
        · cases h
          exact Lines.in_first text
        · exact ih hne.2 h

theorem mem_fileSignals (h : s ∈ fileSignals path text) :
    ∃ v, ∃ entry ∈ linesOf 1 text.toList (commands v),
      s = ⟨Signal.runCommandKind, .str entry.1, path, ⟨entry.2, entry.2⟩, 0.5⟩ := by
  rw [fileSignals] at h
  split at h
  · cases h
  · next v _ =>
    obtain ⟨entry, hentry, rfl⟩ := List.mem_map.1 h
    exact ⟨v, entry, hentry, rfl⟩

theorem in_of_mem_fileSignals (hshort : Text.IsShort text) (h : s ∈ fileSignals path text) :
    s.path = path ∧ s.lines.In text := by
  obtain ⟨v, ⟨command, line⟩, hentry, rfl⟩ := mem_fileSignals h
  have hstart : linesOf 1 text.toList (commands v) =
      linesOf (Text.lineOfPlace text.toList 0) (text.toList.drop 0) (commands v) := rfl
  exact ⟨rfl, in_of_mem_linesOf hshort (ne_empty_of_mem_commands v) (hstart ▸ hentry)⟩

/-- What definitions tell. -/
theorem mem_scan (h : scanner.scan tree root most = .ok signals) (hs : s ∈ signals) :
    ∃ files, scannedFiles tree root most isDefinition = .ok files ∧ ∃ f ∈ files,
      ∃ text, f.text = .ok text ∧ s ∈ fileSignals f.path text := by
  obtain ⟨files, hfiles, h⟩ := Document.bind_eq_ok_iff.1 h
  obtain ⟨parts, hparts, h⟩ := Document.bind_eq_ok_iff.1 h
  cases h
  obtain ⟨part, hpart, hs⟩ := List.mem_flatten.1 hs
  obtain ⟨f, hf, hpart⟩ := Document.exists_read_of_mem_mapM hparts hpart
  cases htext : f.text with
  | error e => rw [htext] at hpart; cases hpart
  | ok text =>
      rw [htext] at hpart
      cases hpart
      exact ⟨files, hfiles, f, hf, text, htext, hs⟩

theorem kind_mem_of_mem_scan (h : scanner.scan tree root most = .ok signals) (hs : s ∈ signals) :
    s.kind ∈ kinds := by
  obtain ⟨_, -, f, -, text, -, hs⟩ := mem_scan h hs
  obtain ⟨v, entry, -, rfl⟩ := mem_fileSignals hs
  exact List.mem_singleton_self _

theorem sourced_of_mem_scan (hnamed : tree.Named) (hshort : tree.Texts Text.IsShort)
    (h : scanner.scan tree root most = .ok signals) (hs : s ∈ signals) : s.Sourced tree root := by
  obtain ⟨files, hfiles, f, hf, text, htext, hs⟩ := mem_scan h hs
  have hlocated := FoundFile.located_of_mem_scannedFiles hnamed (by decide) hfiles hf
  exact hlocated.sourced_of_text hshort htext fun hshort => in_of_mem_fileSignals hshort hs

end Workflow

/-! ### All scanners -/

namespace Scanner

/-- What a scanner brings: nothing if it fails. -/
def brings (tree : Entry) (root : String) (most : Option Nat) (scanner : Scanner) :
    List Signal :=
  (scanner.scan tree root most).toOption.getD []

theorem scan_eq_ok_of_mem_brings {scanner : Scanner} (h : s ∈ scanner.brings tree root most) :
    ∃ signals, scanner.scan tree root most = .ok signals ∧ s ∈ signals := by
  rw [brings] at h
  cases hscan : scanner.scan tree root most with
  | error e => rw [hscan] at h; cases h
  | ok signals => rw [hscan] at h; exact ⟨signals, rfl, h⟩

/-- The scanners, each with the kinds of its signals. -/
def owners : List (Scanner × List String) :=
  [(Configuration.scanner, Configuration.kinds), (Python.scanner, Python.kinds),
    (TypeScript.scanner, TypeScript.kinds), (Workflow.scanner, Workflow.kinds)]

theorem kind_mem_of_mem_brings {scanner : Scanner} {kinds : List String}
    (hscan : ∀ signals, scanner.scan tree root most = .ok signals → ∀ s ∈ signals, s.kind ∈ kinds) :
    ∀ s ∈ scanner.brings tree root most, s.kind ∈ kinds := by
  intro s hs
  obtain ⟨signals, hsignals, hs⟩ := scan_eq_ok_of_mem_brings hs
  exact hscan signals hsignals s hs

theorem kind_mem_of_mem_owners :
    ∀ owner ∈ owners, ∀ s ∈ owner.1.brings tree root most, s.kind ∈ owner.2 := by
  simp only [owners, List.forall_mem_cons]
  exact ⟨kind_mem_of_mem_brings fun _ h _ => Configuration.kind_mem_of_mem_scan h,
    kind_mem_of_mem_brings fun _ h _ => Python.kind_mem_of_mem_scan h,
    kind_mem_of_mem_brings fun _ h _ => TypeScript.kind_mem_of_mem_scan h,
    kind_mem_of_mem_brings fun _ h _ => Workflow.kind_mem_of_mem_scan h, List.forall_mem_nil _⟩

/-- **Signals of one kind come from one scanner.** -/
theorem kinds_differ (tree : Entry) (root : String) (most : Option Nat) :
    all.Pairwise fun a b =>
      ∀ s ∈ a.brings tree root most, ∀ t ∈ b.brings tree root most, s.kind ≠ t.kind := by
  have hdisjoint : owners.Pairwise fun a b => ∀ kind ∈ a.2, kind ∉ b.2 := by decide
  rw [show all = owners.map Prod.fst from rfl, List.pairwise_map]
  refine hdisjoint.imp_of_mem fun ha hb hdisjoint s hs t ht heq => ?_
  exact hdisjoint s.kind (kind_mem_of_mem_owners _ ha s hs)
    (heq ▸ kind_mem_of_mem_owners _ hb t ht)

theorem sourced_of_scan {scanner : Scanner} (hscanner : scanner ∈ all) (hnamed : tree.Named)
    (hshort : tree.Texts Text.IsShort) (h : scanner.scan tree root most = .ok signals)
    (hs : s ∈ signals) : s.Sourced tree root := by
  simp only [all, List.mem_cons, List.not_mem_nil, or_false] at hscanner
  rcases hscanner with rfl | rfl | rfl | rfl
  · exact (Configuration.sourced_of_mem_scan hshort h hs).1
  · exact Python.sourced_of_mem_scan hnamed hshort h hs
  · exact TypeScript.sourced_of_mem_scan hnamed hshort h hs
  · exact Workflow.sourced_of_mem_scan hnamed hshort h hs

theorem eq_configuration_of_name {scanner : Scanner} (hscanner : scanner ∈ all)
    (hname : scanner.name = Configuration.scanner.name) : scanner = Configuration.scanner := by
  simp only [all, List.mem_cons, List.not_mem_nil, or_false] at hscanner
  rcases hscanner with rfl | rfl | rfl | rfl
  · rfl
  all_goals exact absurd hname (by decide)

/-- **Every signal is about lines that are there.** Its path leads down from the root to a file,
through no ignored directory, and if the file can be read, its text has the lines. The configuration
of tools is looked for directly below the root. -/
theorem sourced_of_mem_all (tree : Entry) (root : String) (most : Option Nat)
    (hnamed : tree.Named) (hshort : tree.Texts Text.IsShort) :
    ∀ scanner ∈ all, ∀ signals, scanner.scan tree root most = .ok signals → ∀ s ∈ signals,
      s.Sourced tree root ∧
        (scanner.name = Configuration.scanner.name → (Path.steps s.path).length = 1) := by
  intro scanner hscanner signals h s hs
  refine ⟨sourced_of_scan hscanner hnamed hshort h hs, fun hname => ?_⟩
  cases eq_configuration_of_name hscanner hname
  exact (Configuration.sourced_of_mem_scan hshort h hs).2

/-- A source that imports a module on its second line. -/
def importText : String := "\nimport logging"

/-- The source in a directory. -/
def importTree : Entry := .folder [("src", .folder [("a.py", .file importText.toUTF8)])]

theorem named_importTree : importTree.Named := by
  have hfolder : Path.IsName "src" := ⟨by decide, by decide, by decide, by decide, by decide⟩
  have hfile : Path.IsName "a.py" := ⟨by decide, by decide, by decide, by decide, by decide⟩
  exact .folder ⟨by decide, List.forall_mem_singleton.2 hfolder⟩ <| List.forall_mem_singleton.2 <|
    .folder ⟨by decide, List.forall_mem_singleton.2 hfile⟩ <| List.forall_mem_singleton.2 <|
      .file trivial

theorem short_importTree : importTree.Texts Text.IsShort := by
  refine .folder trivial <| List.forall_mem_singleton.2 <|
    .folder trivial <| List.forall_mem_singleton.2 <| .file fun text htext => ?_
  have hread : String.fromUTF8? importText.toUTF8 = some importText := by decide
  cases hread.symm.trans htext
  show (Text.lines importText).length < 2 ^ 32
  decide

theorem scannedFiles_importTree :
    scannedFiles importTree "." none Python.isSource =
      .ok [⟨"src/a.py", .file importText.toUTF8⟩] := by
  have hfind : importTree.find "." = .ok importTree := rfl
  have hbelow : importTree.filesBelow "" = [⟨"src/a.py", .file importText.toUTF8⟩] := by
    have hfolder : "src" ∉ ignoredFolders := by decide
    simp only [importTree, Entry.filesBelow, Entry.filesAmong, if_neg hfolder, List.append_nil]
    rfl
  have hsource : Python.isSource "src/a.py" = true := Python.isSource_iff.2 (by decide)
  simp only [scannedFiles, collectFiles, hfind, hbelow, Bind.bind, Except.bind, List.filter,
    hsource, List.mergeSort]
  rfl

theorem sourced_importTree :
    ∃ signals, Python.scanner.scan importTree "." none = .ok signals ∧
      signals.map (fun s => (s.path, s.lines)) = [("src/a.py", ⟨2, 2⟩)] ∧
      ∀ s ∈ signals, s.Sourced importTree "." ∧
        (Python.scanner.name = Configuration.scanner.name → (Path.steps s.path).length = 1) := by
  have hscan : (Python.scanner.scan importTree "." none).toOption.map
      (List.map fun s => (s.path, s.lines)) = some [("src/a.py", ⟨2, 2⟩)] := by
    simp only [Python.scanner, scannedFiles_importTree]
    decide
  obtain ⟨signals, hsignals, hlist⟩ := Option.map_eq_some_iff.1 hscan
  have hok := Document.toOption_eq_some_iff.1 hsignals
  exact ⟨signals, hok, hlist, sourced_of_mem_all importTree "." none named_importTree
    short_importTree Python.scanner (by simp [all]) signals hok⟩

end Scanner

end StyleContract
