import Mathlib.Data.List.Find
import StyleContract.Proofs.Files.Place
import StyleContract.Proofs.Signal.Sources

/-!
# Proofs — Signal — Unreadable

What a file that cannot be read costs. Two trees are compared that differ in the bytes of one file,
which are no text in the second one (`Entry.Spoils`). A walk finds the same files in both, in the same
order, and all but this one are the same (`exists_pairs_of_scannedFiles`).

**What is lost** (`unreadable_costs`): scanners of sources leave the file out and report about all
others as before. The other two stop at a file that they cannot read: if it is one that they look at,
they fail and report nothing, also not about the others (`other_command_lost`), and else they report
what they did before.
-/

namespace StyleContract

open Entry (Children)

/-- The children of a directory before and after the file at some names gets bytes that are no text. -/
inductive Entry.Spoils (bytes : ByteArray) : List String → Children → Children → Prop where
  | here {before after : Children} {name : String} {old : ByteArray}
      (hbytes : String.fromUTF8? bytes = none) :
      Spoils bytes [name] (before ++ (name, .file old) :: after)
        (before ++ (name, .file bytes) :: after)
  | within {before after inner inner' : Children} {name : String} {names : List String}
      (h : Spoils bytes names inner inner') :
      Spoils bytes (name :: names) (before ++ (name, .folder inner) :: after)
        (before ++ (name, .folder inner') :: after)

/-- A file that was found, before and after: the same, or the one that cannot be read any more. -/
def FoundFile.Spoiled (bytes : ByteArray) (path : String) (f g : FoundFile) : Prop :=
  g = f ∨ f.path = path ∧ g = ⟨path, .file bytes⟩

variable {bytes : ByteArray} {names : List String} {children children' : Children}
  {tree tree' : Entry} {root path : String} {most : Option Nat} {signals : List Signal}
  {pairs : List (FoundFile × FoundFile)} {files' : List FoundFile}

namespace Entry

theorem Spoils.not_text (h : Spoils bytes names children children') :
    String.fromUTF8? bytes = none := by
  induction h with
  | here hbytes => exact hbytes
  | within _ ih => exact ih

/-! ### The walk -/

theorem filesAmong_append (path : String) (xs ys : Children) :
    filesAmong path (xs ++ ys) = filesAmong path xs ++ filesAmong path ys := by
  induction xs with
  | nil => simp [filesAmong]
  | cons child xs ih =>
      obtain ⟨name, e⟩ := child
      cases e <;> simp [filesAmong, ih]

/-- Each file next to itself. -/
def twice (files : List FoundFile) : List (FoundFile × FoundFile) := files.map fun f => (f, f)

@[simp] theorem map_fst_twice (files : List FoundFile) : (twice files).map Prod.fst = files := by
  simp [twice, Function.comp_def]

@[simp] theorem map_snd_twice (files : List FoundFile) : (twice files).map Prod.snd = files := by
  simp [twice, Function.comp_def]

theorem spoiled_of_mem_twice {files : List FoundFile} {p : FoundFile × FoundFile}
    (h : p ∈ twice files) : p.1.Spoiled bytes path p.2 := by
  obtain ⟨f, -, rfl⟩ := List.mem_map.1 h
  exact .inl rfl

/-- **A walk finds the same files**, but for the spoiled one. -/
theorem Spoils.exists_pairs (h : Spoils bytes names children children') (start : String) :
    ∃ pairs : List (FoundFile × FoundFile),
      (∀ p ∈ pairs, p.1.Spoiled bytes (withSlashes (names.foldl Path.join start)) p.2) ∧
        filesAmong start children = pairs.map Prod.fst ∧
        filesAmong start children' = pairs.map Prod.snd := by
  induction h generalizing start with
  | @here before after name old hbytes =>
      refine ⟨twice (filesAmong start before) ++
        (⟨withSlashes (Path.join start name), .file old⟩,
          ⟨withSlashes (Path.join start name), .file bytes⟩) :: twice (filesAmong start after),
        ?_, ?_, ?_⟩
      · rw [List.forall_mem_append, List.forall_mem_cons]
        exact ⟨fun _ => spoiled_of_mem_twice, .inr ⟨rfl, rfl⟩, fun _ => spoiled_of_mem_twice⟩
      · simp [filesAmong_append, filesAmong]
      · simp [filesAmong_append, filesAmong]
  | @within before after inner inner' name names h ih =>
      by_cases hname : name ∈ ignoredFolders
      · -- the walk does not come there
        refine ⟨twice (filesAmong start before ++ filesAmong start after),
          fun _ => spoiled_of_mem_twice, ?_, ?_⟩
        · simp [filesAmong_append, filesAmong, hname]
        · simp [filesAmong_append, filesAmong, hname]
      · obtain ⟨pairs, hpairs, hfst, hsnd⟩ := ih (Path.join start name)
        refine ⟨twice (filesAmong start before) ++ (pairs ++ twice (filesAmong start after)),
          ?_, ?_, ?_⟩
        · rw [List.forall_mem_append, List.forall_mem_append]
          exact ⟨fun _ => spoiled_of_mem_twice, hpairs, fun _ => spoiled_of_mem_twice⟩
        · simp [filesAmong_append, filesAmong, hname, hfst]
        · simp [filesAmong_append, filesAmong, hname, hsnd]

end Entry

theorem FoundFile.Spoiled.path_eq {f g : FoundFile} (h : f.Spoiled bytes path g) :
    g.path = f.path := by
  rcases h with rfl | ⟨hpath, rfl⟩
  · rfl
  · exact hpath.symm

/-- What cannot be read any more. -/
theorem FoundFile.text_spoiled (hbytes : String.fromUTF8? bytes = none) :
    FoundFile.text ⟨path, .file bytes⟩ = .error (.unreadable path .notText) := by
  simp [FoundFile.text, Entry.textOf, hbytes]

/-- Files are chosen and put in order by their paths alone. -/
theorem chosen_map {α : Type} {g : α → FoundFile} {key : α → String} {xs : List α}
    (h : ∀ x ∈ xs, (g x).path = key x) (accept : String → Bool) (most : Nat) :
    (((xs.map g).filter fun f => accept f.path).mergeSort
        fun a b => decide (a.path ≤ b.path)).take most =
      (((xs.filter fun x => accept (key x)).mergeSort
        fun a b => decide (key a ≤ key b)).take most).map g := by
  have hkept : (xs.filter fun x => accept (g x).path) = xs.filter fun x => accept (key x) :=
    List.filter_congr fun x hx => by rw [h x hx]
  rw [List.filter_map, Function.comp_def, hkept, List.map_take]
  refine congrArg _ (List.map_mergeSort fun x hx y hy => ?_).symm
  rw [h x (List.mem_of_mem_filter hx), h y (List.mem_of_mem_filter hy)]

/-- **Scanners look at the same files**, but for the spoiled one. -/
theorem exists_pairs_of_scannedFiles {accept : String → Bool} {files : List FoundFile}
    (hroot : tree.find root = .ok (.folder children))
    (hroot' : tree'.find root = .ok (.folder children'))
    (hspoils : Entry.Spoils bytes names children children')
    (h : scannedFiles tree root most accept = .ok files) :
    ∃ pairs : List (FoundFile × FoundFile),
      (∀ p ∈ pairs, p.1.Spoiled bytes (withSlashes (Path.along names)) p.2) ∧
        files = pairs.map Prod.fst ∧
        scannedFiles tree' root most accept = .ok (pairs.map Prod.snd) := by
  obtain ⟨pairs, hpairs, hfst, hsnd⟩ := hspoils.exists_pairs ""
  obtain ⟨e, he, hfiles⟩ := Document.bind_eq_ok_iff.1 (scannedFiles_eq_ok h)
  cases hroot.symm.trans he
  cases hfiles
  refine ⟨(((pairs.filter fun p => accept p.1.path).mergeSort
    fun p q => decide (p.1.path ≤ q.1.path)).take (most.getD defaultMaxFiles)), ?_, ?_, ?_⟩
  · intro p hp
    exact hpairs p (List.mem_of_mem_filter (List.mem_mergeSort.1 (List.mem_of_mem_take hp)))
  · rw [Entry.filesBelow, hfst, chosen_map fun _ _ => rfl]
  · simp only [scannedFiles, collectFiles, hroot', Bind.bind, Except.bind, Entry.filesBelow, hsnd]
    rw [chosen_map fun p hp => (hpairs p hp).path_eq]

/-! ### Scanners of sources -/

/-- A signal about another file. The share of annotated functions is about all files. -/
def Signal.isOther (path : String) (s : Signal) : Bool :=
  s.path != path && s.kind != Signal.typingDensityKind

theorem filter_isOther_eq_nil (h : ∀ s ∈ signals, s.path = path) :
    signals.filter (Signal.isOther path) = [] :=
  List.filter_eq_nil_iff.2 fun s hs => by simp [Signal.isOther, h s hs]

/-- **Reports of other files stay**, where a file that cannot be read has none. -/
theorem filter_flatMap_of_spoiled {report : FoundFile → List Signal}
    (hpath : ∀ f, ∀ s ∈ report f, s.path = f.path) (hnone : report ⟨path, .file bytes⟩ = [])
    (hpairs : ∀ p ∈ pairs, p.1.Spoiled bytes path p.2) :
    ((pairs.map Prod.snd).flatMap report).filter (Signal.isOther path) =
      ((pairs.map Prod.fst).flatMap report).filter (Signal.isOther path) := by
  induction pairs with
  | nil => rfl
  | cons p pairs ih =>
      rw [List.forall_mem_cons] at hpairs
      simp only [List.map_cons, List.flatMap_cons, List.filter_append, ih hpairs.2]
      rcases hpairs.1 with heq | ⟨hp, heq⟩
      · rw [heq]
      · rw [heq, hnone, filter_isOther_eq_nil fun s hs => (hpath p.1 s hs).trans hp]
        rfl

namespace Python

/-- What is told of one file. -/
def report (f : FoundFile) : List Signal :=
  f.text.toOption.toList.flatMap fun s => importSignals f.path s.toList

theorem flatMap_readable (files : List FoundFile) :
    (readable files).flatMap (fun t => importSignals t.1 t.2) = files.flatMap report := by
  induction files with
  | nil => rfl
  | cons f files ih =>
      rw [List.flatMap_cons, ← ih, readable, List.filterMap_cons]
      cases htext : f.text.toOption <;> simp [report, htext, readable]

theorem path_of_mem_report {f : FoundFile} {s : Signal} (h : s ∈ report f) : s.path = f.path := by
  obtain ⟨text, -, hs⟩ := List.mem_flatMap.1 h
  obtain ⟨kind, -, module, -, hs⟩ := mem_importSignals hs
  obtain ⟨m, -, rfl⟩ := Option.map_eq_some_iff.1 hs
  rfl

theorem filter_densitySignal (files : List FoundFile) (texts : List (String × List Char)) :
    (densitySignal files texts).toList.filter (Signal.isOther path) = [] := by
  cases h : densitySignal files texts with
  | none => rfl
  | some s =>
      obtain ⟨_, -, hkind, -, -⟩ := densitySignal_eq_some h
      simp [Signal.isOther, hkind]

end Python

namespace TypeScript

/-- What is told of one file. -/
def report (f : FoundFile) : List Signal := (f.text.toOption.bind (fileSignal f.path)).toList

theorem path_of_mem_report {f : FoundFile} {s : Signal} (h : s ∈ report f) : s.path = f.path := by
  obtain ⟨text, -, hs⟩ := Option.bind_eq_some_iff.1 (Option.mem_toList.1 h)
  obtain ⟨_, _, -, -, -, hpath, -⟩ := fileSignal_eq_some hs
  exact hpath

end TypeScript

theorem toOption_text_spoiled (hbytes : String.fromUTF8? bytes = none) :
    (FoundFile.text ⟨path, .file bytes⟩).toOption = none := by
  rw [FoundFile.text_spoiled hbytes]
  rfl

section

variable (hroot : tree.find root = .ok (.folder children))
  (hroot' : tree'.find root = .ok (.folder children'))
  (hspoils : Entry.Spoils bytes names children children')

include hroot hroot' hspoils

/-- **A source that cannot be read is left out.** -/
theorem Python.others_stay (h : scanner.scan tree root most = .ok signals) :
    ∃ signals', scanner.scan tree' root most = .ok signals' ∧
      signals'.filter (Signal.isOther (withSlashes (Path.along names))) =
        signals.filter (Signal.isOther (withSlashes (Path.along names))) := by
  obtain ⟨files, hfiles, h⟩ := Document.bind_eq_ok_iff.1 h
  obtain ⟨pairs, hpairs, rfl, hfiles'⟩ := exists_pairs_of_scannedFiles hroot hroot' hspoils hfiles
  cases h
  refine ⟨_, Document.bind_eq_ok_iff.2 ⟨_, hfiles', rfl⟩, ?_⟩
  rw [List.filter_append, List.filter_append, filter_densitySignal, filter_densitySignal,
    flatMap_readable, flatMap_readable,
    filter_flatMap_of_spoiled (fun _ _ => path_of_mem_report) ?_ hpairs]
  rw [report, toOption_text_spoiled hspoils.not_text]
  rfl

theorem TypeScript.others_stay (h : scanner.scan tree root most = .ok signals) :
    ∃ signals', scanner.scan tree' root most = .ok signals' ∧
      signals'.filter (Signal.isOther (withSlashes (Path.along names))) =
        signals.filter (Signal.isOther (withSlashes (Path.along names))) := by
  obtain ⟨files, hfiles, h⟩ := Document.bind_eq_ok_iff.1 h
  obtain ⟨pairs, hpairs, rfl, hfiles'⟩ := exists_pairs_of_scannedFiles hroot hroot' hspoils hfiles
  cases h
  refine ⟨_, Document.bind_eq_ok_iff.2 ⟨_, hfiles', rfl⟩, ?_⟩
  rw [List.filterMap_eq_flatMap_toList, List.filterMap_eq_flatMap_toList]
  refine filter_flatMap_of_spoiled (fun f s (hs : s ∈ report f) => path_of_mem_report hs) ?_ hpairs
  rw [toOption_text_spoiled hspoils.not_text]
  rfl

end

/-! ### Build servers -/

/-- The first reading that fails is what all of them come to, if none fails otherwise. -/
theorem mapM_eq_error {α β ε : Type} {f : α → Except ε β} {e : ε} {xs : List α}
    (hall : ∀ x ∈ xs, f x = .error e ∨ ∃ y, f x = .ok y) (hmem : ∃ x ∈ xs, f x = .error e) :
    xs.mapM f = .error e := by
  induction xs with
  | nil => exact absurd hmem (by simp)
  | cons x xs ih =>
      rw [List.forall_mem_cons] at hall
      rw [List.mapM_cons]
      rcases hall.1 with hx | ⟨y, hy⟩
      · rw [hx]
        rfl
      · obtain ⟨x', hx', herror⟩ := hmem
        have hin : x' ∈ xs := (List.mem_cons.1 hx').resolve_left fun heq => by
          subst heq
          cases hy.symm.trans herror
        rw [hy, ih hall.2 ⟨x', hin, herror⟩]
        rfl

namespace Workflow

/-- What is told of one definition. -/
def report (f : FoundFile) : Except ScanError (List Signal) := f.text.map (fileSignals f.path)

theorem scan_eq {files : List FoundFile}
    (h : scannedFiles tree root most isDefinition = .ok files) :
    scanner.scan tree root most = (files.mapM report).map List.flatten := by
  simp only [scanner, h]
  show (files.mapM report).bind _ = _
  cases files.mapM report <;> rfl

theorem report_spoiled (hbytes : String.fromUTF8? bytes = none) :
    report ⟨path, .file bytes⟩ = .error (.unreadable path .notText) := by
  rw [report, FoundFile.text_spoiled hbytes]
  rfl

/-- **A definition that cannot be read takes the others with it**, if it is one that is looked at. -/
theorem scan_of_spoiled (hroot : tree.find root = .ok (.folder children))
    (hroot' : tree'.find root = .ok (.folder children'))
    (hspoils : Entry.Spoils bytes names children children')
    (h : scanner.scan tree root most = .ok signals) :
    ∃ files', scannedFiles tree' root most isDefinition = .ok files' ∧
      ((⟨withSlashes (Path.along names), .file bytes⟩ : FoundFile) ∈ files' →
        scanner.scan tree' root most =
          .error (.unreadable (withSlashes (Path.along names)) .notText)) ∧
      ((⟨withSlashes (Path.along names), .file bytes⟩ : FoundFile) ∉ files' →
        scanner.scan tree' root most = .ok signals) := by
  obtain ⟨files, hfiles, -⟩ := Document.bind_eq_ok_iff.1 h
  obtain ⟨pairs, hpairs, rfl, hfiles'⟩ := exists_pairs_of_scannedFiles hroot hroot' hspoils hfiles
  refine ⟨_, hfiles', fun hmem => ?_, fun hmem => ?_⟩
  · have hread : ∃ parts, (pairs.map Prod.fst).mapM report = .ok parts := by
      rw [scan_eq hfiles] at h
      cases hparts : (pairs.map Prod.fst).mapM report with
      | error e => rw [hparts] at h; cases h
      | ok parts => exact ⟨parts, rfl⟩
    obtain ⟨parts, hparts⟩ := hread
    have herror : report ⟨withSlashes (Path.along names), .file bytes⟩ = _ :=
      report_spoiled hspoils.not_text
    have hfails : (pairs.map Prod.snd).mapM report =
        .error (.unreadable (withSlashes (Path.along names)) .notText) := by
      refine mapM_eq_error (fun f hf => ?_) ⟨_, hmem, herror⟩
      obtain ⟨p, hp, rfl⟩ := List.mem_map.1 hf
      rcases hpairs p hp with heq | ⟨-, heq⟩
      · obtain ⟨y, -, hy⟩ := Document.exists_of_mem_mapM hparts (List.mem_map_of_mem hp)
        exact .inr ⟨y, heq ▸ hy⟩
      · exact .inl (heq ▸ herror)
    rw [scan_eq hfiles', hfails]
    rfl
  · -- none of the files has changed
    have hsame : pairs.map Prod.snd = pairs.map Prod.fst := List.map_congr_left fun p hp =>
      (hpairs p hp).resolve_right fun ⟨_, heq⟩ => hmem (heq ▸ List.mem_map_of_mem hp)
    rw [scan_eq hfiles', hsame, ← scan_eq hfiles, h]

end Workflow

/-! ### Configuration -/

namespace Entry

theorem child?_append_cons {before after : Children} {name other : String} {e : Entry}
    (hnodup : ((before ++ (name, e) :: after).map (·.1)).Nodup) :
    child? other (before ++ (name, e) :: after) =
      if name = other then some e else child? other (before ++ after) := by
  split
  · next heq =>
    subst heq
    exact child?_eq_some hnodup (by simp)
  · next hne => simp [child?, List.find?_append, hne]

theorem Spoils.child?_self {name : String} (h : Spoils bytes [name] children children')
    (hnodup : (children.map (·.1)).Nodup) :
    (∃ old, child? name children = some (.file old)) ∧
      child? name children' = some (.file bytes) := by
  cases h with
  | @here before after _ old _ =>
      have hnodup' : ((before ++ (name, Entry.file bytes) :: after).map (·.1)).Nodup := by
        simpa using hnodup
      rw [child?_append_cons hnodup, child?_append_cons hnodup', if_pos rfl, if_pos rfl]
      exact ⟨⟨old, rfl⟩, rfl⟩
  | within h => cases h

/-- **Children are the same**, but for directories and the spoiled file. -/
theorem Spoils.child?_of_ne {name : String} (h : Spoils bytes names children children')
    (hnodup : (children.map (·.1)).Nodup) (hne : names ≠ [name]) :
    child? name children' = child? name children ∨
      ∃ inner inner', child? name children = some (.folder inner) ∧
        child? name children' = some (.folder inner') := by
  cases h with
  | @here before after own old _ =>
      have hnodup' : ((before ++ (own, Entry.file bytes) :: after).map (·.1)).Nodup := by
        simpa using hnodup
      have hown : own ≠ name := fun heq => hne (by rw [heq])
      rw [child?_append_cons hnodup, child?_append_cons hnodup', if_neg hown, if_neg hown]
      exact .inl rfl
  | @within before after inner inner' own names h =>
      have hnodup' : ((before ++ (own, Entry.folder inner') :: after).map (·.1)).Nodup := by
        simpa using hnodup
      rw [child?_append_cons hnodup, child?_append_cons hnodup']
      by_cases hown : own = name
      · exact .inr ⟨inner, inner', by rw [if_pos hown], by rw [if_pos hown]⟩
      · exact .inl (by rw [if_neg hown, if_neg hown])

end Entry

namespace Configuration

/-- The files that are read. -/
def readNames : List String := ["pyproject.toml", "tsconfig.json"]

theorem isName_of_mem_readNames {name : String} (h : name ∈ readNames) : Path.IsName name := by
  simp only [readNames, List.mem_cons, List.not_mem_nil, or_false] at h
  rcases h with rfl | rfl <;> exact ⟨by decide, by decide, by decide, by decide, by decide⟩

theorem optionalText_eq_error {name : String} {e : OsError} {content : ByteArray}
    (hfind : tree.find (Path.join root name) = .ok (.file content))
    (htext : (Entry.file content).textOf = .error e) :
    optionalText tree root name = .error (.unreadable name e) := by
  have hread : tree.readText (Path.join root name) = .error e := by
    rw [Entry.readText, hfind]
    exact htext
  rw [optionalText, if_pos (by rw [Entry.isFile, hfind]), hread]

/-- What is looked up at another name than the spoiled one. -/
theorem find_of_spoiled {name : String} (hnamed : tree.Named)
    (hroot : tree.find root = .ok (.folder children))
    (hroot' : tree'.find root = .ok (.folder children'))
    (hspoils : Entry.Spoils bytes names children children') (hname : Path.IsName name) :
    if names = [name] then
      (∃ old, tree.find (Path.join root name) = .ok (.file old)) ∧
        tree'.find (Path.join root name) = .ok (.file bytes)
    else
      tree'.find (Path.join root name) = tree.find (Path.join root name) ∨
        ∃ inner inner', tree.find (Path.join root name) = .ok (.folder inner) ∧
          tree'.find (Path.join root name) = .ok (.folder inner') := by
  obtain ⟨-, habsolute, last, hlast, hbehind⟩ := Entry.find_eq_ok hroot
  obtain ⟨-, -, last', hlast', hbehind'⟩ := Entry.find_eq_ok hroot'
  rw [Entry.find_join hname habsolute hlast (Entry.children?_eq_some_iff.2 hbehind),
    Entry.find_join hname habsolute hlast' (Entry.children?_eq_some_iff.2 hbehind')]
  have hnodup : (children.map (·.1)).Nodup := by
    cases Entry.Everywhere.find hnamed hroot with
    | folder happart _ => exact happart.nodup
  split
  · next heq =>
    subst heq
    obtain ⟨⟨old, h⟩, h'⟩ := hspoils.child?_self hnodup
    rw [h, h']
    exact ⟨⟨old, rfl⟩, rfl⟩
  · next hne =>
    rcases hspoils.child?_of_ne hnodup hne with heq | ⟨inner, inner', h, h'⟩
    · exact .inl (by rw [heq])
    · rw [h, h']
      exact .inr ⟨inner, inner', rfl, rfl⟩

section

variable {name : String} (hnamed : tree.Named) (hroot : tree.find root = .ok (.folder children))
  (hroot' : tree'.find root = .ok (.folder children'))
  (hspoils : Entry.Spoils bytes names children children')

include hnamed hroot hroot' hspoils

theorem isFile_of_spoiled (hname : Path.IsName name) :
    tree'.isFile (Path.join root name) = tree.isFile (Path.join root name) := by
  have hfind := find_of_spoiled hnamed hroot hroot' hspoils hname
  rw [Entry.isFile, Entry.isFile]
  split at hfind
  · obtain ⟨⟨old, h⟩, h'⟩ := hfind
    rw [h, h']
  · rcases hfind with heq | ⟨_, _, h, h'⟩
    · rw [heq]
    · rw [h, h']

theorem optionalText_of_ne (hname : Path.IsName name) (hne : names ≠ [name]) :
    optionalText tree' root name = optionalText tree root name := by
  have hfind := find_of_spoiled hnamed hroot hroot' hspoils hname
  rw [if_neg hne] at hfind
  rw [optionalText, optionalText, isFile_of_spoiled hnamed hroot hroot' hspoils hname]
  rcases hfind with heq | ⟨_, _, h, -⟩
  · rw [Entry.readText, Entry.readText, heq]
  · rw [Entry.isFile, h]
    rfl

theorem optionalText_spoiled (hname : Path.IsName name) (hnames : names = [name]) :
    optionalText tree' root name = .error (.unreadable name .notText) := by
  have hfind := find_of_spoiled hnamed hroot hroot' hspoils hname
  rw [if_pos hnames] at hfind
  refine optionalText_eq_error hfind.2 ?_
  rw [Entry.textOf, hspoils.not_text]

theorem prettierFile_of_spoiled :
    (prettierFiles.find? fun name => tree'.isFile (Path.join root name)) =
      prettierFiles.find? fun name => tree.isFile (Path.join root name) :=
  List.find?_congr fun _ hname =>
    isFile_of_spoiled hnamed hroot hroot' hspoils (isName_of_mem_prettierFiles hname)

/-- **The configuration of one tool that cannot be read takes the others with it.** -/
theorem scan_of_spoiled (h : scanner.scan tree root most = .ok signals) :
    (∀ name ∈ readNames, names = [name] →
      scanner.scan tree' root most = .error (.unreadable name .notText)) ∧
      ((∀ name ∈ readNames, names ≠ [name]) → scanner.scan tree' root most = .ok signals) := by
  have hkept {name : String} (hname : name ∈ readNames) (hne : names ≠ [name])
      (read : String → Option Signal) :
      fromFile tree' root name read = fromFile tree root name read := by
    rw [fromFile, fromFile, optionalText_of_ne hnamed hroot hroot' hspoils
      (isName_of_mem_readNames hname) hne]
  have hfails {name : String} (hname : name ∈ readNames) (hnames : names = [name])
      (read : String → Option Signal) :
      fromFile tree' root name read = .error (.unreadable name .notText) := by
    rw [fromFile, optionalText_spoiled hnamed hroot hroot' hspoils
      (isName_of_mem_readNames hname) hnames]
    rfl
  obtain ⟨lengths, hlengths, h⟩ := Document.bind_eq_ok_iff.1 h
  obtain ⟨strict, hstrict, h⟩ := Document.bind_eq_ok_iff.1 h
  have hprettier := prettierFile_of_spoiled hnamed hroot hroot' hspoils
  have hproject : "pyproject.toml" ∈ readNames := by simp [readNames]
  have htsconfig : "tsconfig.json" ∈ readNames := by simp [readNames]
  refine ⟨fun name hname hnames => ?_, fun hnames => ?_⟩
  · simp only [readNames, List.mem_cons, List.not_mem_nil, or_false] at hname
    rcases hname with rfl | rfl
    · simp only [scanner, hfails hproject hnames]
      rfl
    · have hne : names ≠ ["pyproject.toml"] := by
        rw [hnames]
        decide
      simp only [scanner, hkept hproject hne, hlengths, hfails htsconfig hnames]
      rfl
  · simp only [scanner, hkept hproject (hnames _ hproject), hlengths,
      hkept htsconfig (hnames _ htsconfig), hstrict, hprettier]
    exact h

end

end Configuration

/-! ### All scanners -/

namespace Scanner

/-- **What a file costs that cannot be read.** Scanners of sources tell of all other files what they
told before. The scanners of configuration and of build servers tell nothing any more if it is a file
that they read, and else what they told before. -/
theorem unreadable_costs (hnamed : tree.Named) (hroot : tree.find root = .ok (.folder children))
    (hroot' : tree'.find root = .ok (.folder children'))
    (hspoils : Entry.Spoils bytes names children children') (most : Option Nat) :
    (∀ scanner ∈ [Python.scanner, TypeScript.scanner], ∀ signals,
      scanner.scan tree root most = .ok signals → ∃ signals',
        scanner.scan tree' root most = .ok signals' ∧
          signals'.filter (Signal.isOther (withSlashes (Path.along names))) =
            signals.filter (Signal.isOther (withSlashes (Path.along names)))) ∧
    (∀ signals, Configuration.scanner.scan tree root most = .ok signals →
      (∀ name ∈ Configuration.readNames, names = [name] →
        Configuration.scanner.scan tree' root most = .error (.unreadable name .notText)) ∧
      ((∀ name ∈ Configuration.readNames, names ≠ [name]) →
        Configuration.scanner.scan tree' root most = .ok signals)) ∧
    (∀ signals, Workflow.scanner.scan tree root most = .ok signals → ∃ files',
      scannedFiles tree' root most Workflow.isDefinition = .ok files' ∧
      (⟨withSlashes (Path.along names), .file bytes⟩ ∈ files' →
        Workflow.scanner.scan tree' root most =
          .error (.unreadable (withSlashes (Path.along names)) .notText)) ∧
      (⟨withSlashes (Path.along names), .file bytes⟩ ∉ files' →
        Workflow.scanner.scan tree' root most = .ok signals)) := by
  refine ⟨fun scanner hscanner signals h => ?_,
    fun signals h => Configuration.scan_of_spoiled hnamed hroot hroot' hspoils h,
    fun signals h => Workflow.scan_of_spoiled hroot hroot' hspoils h⟩
  simp only [List.mem_cons, List.not_mem_nil, or_false] at hscanner
  rcases hscanner with rfl | rfl
  · exact Python.others_stay hroot hroot' hspoils h
  · exact TypeScript.others_stay hroot hroot' hspoils h

/-- Bytes that are no text. -/
def noText : ByteArray := ⟨#[0xff]⟩

theorem fromUTF8?_noText : String.fromUTF8? noText = none := by decide

/-- Two files. -/
def twoFiles (first second text : String) (content : ByteArray) : Entry.Children :=
  [(first, .file text.toUTF8), (second, .file content)]

section

variable {first second text : String} {content : ByteArray}

theorem spoils_twoFiles :
    Entry.Spoils noText [second] (twoFiles first second text content)
      (twoFiles first second text noText) :=
  @Entry.Spoils.here noText [(first, .file text.toUTF8)] [] second content fromUTF8?_noText

theorem named_twoFiles (hfirst : Path.IsName first) (hsecond : Path.IsName second)
    (hne : first ≠ second) : Entry.Named (.folder (twoFiles first second text content)) := by
  refine .folder ⟨by simpa [twoFiles] using hne, ?_⟩ ?_
  · exact List.forall_mem_cons.2 ⟨hfirst, List.forall_mem_singleton.2 hsecond⟩
  · exact List.forall_mem_cons.2 ⟨.file trivial, List.forall_mem_singleton.2 (.file trivial)⟩

theorem scannedFiles_twoFiles {accept : String → Bool}
    (hfiles : [withSlashes (Path.join "" first), withSlashes (Path.join "" second)] =
      [first, second])
    (haccept : accept first = true ∧ accept second = true) (hle : first ≤ second) :
    scannedFiles (.folder (twoFiles first second text content)) "." none accept =
      .ok [⟨first, .file text.toUTF8⟩, ⟨second, .file content⟩] := by
  have hfind : Entry.find (.folder (twoFiles first second text content)) "." =
      .ok (.folder (twoFiles first second text content)) := rfl
  have hbelow : (Entry.folder (twoFiles first second text content)).filesBelow "" =
      [⟨first, .file text.toUTF8⟩, ⟨second, .file content⟩] := by
    simp only [List.cons.injEq, and_true] at hfiles
    simp only [Entry.filesBelow, twoFiles, Entry.filesAmong, hfiles]
  simp only [scannedFiles, collectFiles, hfind, hbelow, Bind.bind, Except.bind, List.filter, haccept]
  rw [List.mergeSort_of_pairwise (by simpa using hle)]
  rfl

end

theorem scannedFiles_sources (content : ByteArray) :
    scannedFiles (.folder (twoFiles "a.py" "b.py" "import logging" content)) "." none
      Python.isSource = .ok [⟨"a.py", .file "import logging".toUTF8⟩, ⟨"b.py", .file content⟩] :=
  scannedFiles_twoFiles (by decide)
    ⟨Python.isSource_iff.2 (by decide), Python.isSource_iff.2 (by decide)⟩ (by decide)

theorem others_stay_sources :
    ∃ signals signals',
      Python.scanner.scan (.folder (twoFiles "a.py" "b.py" "import logging" "".toUTF8)) "." none =
        .ok signals ∧
      Python.scanner.scan (.folder (twoFiles "a.py" "b.py" "import logging" noText)) "." none =
        .ok signals' ∧
      signals'.filter (Signal.isOther "b.py") = signals.filter (Signal.isOther "b.py") ∧
      (signals.filter (Signal.isOther "b.py")).map (fun s => (s.path, s.lines)) =
        [("a.py", ⟨1, 1⟩)] := by
  have hscan : (Python.scanner.scan
      (.folder (twoFiles "a.py" "b.py" "import logging" "".toUTF8)) "." none).toOption.map
      (fun signals => (signals.filter (Signal.isOther "b.py")).map fun s => (s.path, s.lines)) =
      some [("a.py", ⟨1, 1⟩)] := by
    simp only [Python.scanner, scannedFiles_sources]
    decide
  obtain ⟨signals, hsignals, hlist⟩ := Option.map_eq_some_iff.1 hscan
  have hok := Document.toOption_eq_some_iff.1 hsignals
  have hpath : withSlashes (Path.along ["b.py"]) = "b.py" := by decide
  have hfirst : Path.IsName "a.py" := ⟨by decide, by decide, by decide, by decide, by decide⟩
  have hsecond : Path.IsName "b.py" := ⟨by decide, by decide, by decide, by decide, by decide⟩
  have hroot : Entry.find (.folder (twoFiles "a.py" "b.py" "import logging" "".toUTF8)) "." =
      .ok (.folder (twoFiles "a.py" "b.py" "import logging" "".toUTF8)) := rfl
  have hroot' : Entry.find (.folder (twoFiles "a.py" "b.py" "import logging" noText)) "." =
      .ok (.folder (twoFiles "a.py" "b.py" "import logging" noText)) := rfl
  obtain ⟨signals', hok', hsame⟩ :=
    (unreadable_costs (named_twoFiles hfirst hsecond (by decide)) hroot hroot' spoils_twoFiles
      none).1 Python.scanner (by simp) signals hok
  exact ⟨signals, signals', hok, hok', hpath ▸ hsame, hlist⟩

theorem scannedFiles_definitions (content : ByteArray) :
    scannedFiles (.folder (twoFiles ".gitlab-ci.yml" "azure-pipelines.yml" "script: make" content))
      "." none Workflow.isDefinition =
      .ok [⟨".gitlab-ci.yml", .file "script: make".toUTF8⟩,
        ⟨"azure-pipelines.yml", .file content⟩] :=
  scannedFiles_twoFiles (by decide) (by simp [Workflow.isDefinition]) (by decide)

/-- The second definition cannot be read, and the command of the first one is lost. -/
theorem other_command_lost :
    Entry.Spoils noText ["azure-pipelines.yml"]
      (twoFiles ".gitlab-ci.yml" "azure-pipelines.yml" "script: make" "".toUTF8)
      (twoFiles ".gitlab-ci.yml" "azure-pipelines.yml" "script: make" noText) ∧
    (Workflow.scanner.scan
      (.folder (twoFiles ".gitlab-ci.yml" "azure-pipelines.yml" "script: make" "".toUTF8)) "."
      none).toOption.map (List.map fun s => (s.path, s.value)) =
      some [(".gitlab-ci.yml", .str "make")] ∧
    Workflow.scanner.scan
      (.folder (twoFiles ".gitlab-ci.yml" "azure-pipelines.yml" "script: make" noText)) "." none =
      .error (.unreadable "azure-pipelines.yml" .notText) := by
  refine ⟨spoils_twoFiles, ?_, ?_⟩
  · simp only [Workflow.scanner, scannedFiles_definitions]
    decide +kernel
  · simp only [Workflow.scanner, scannedFiles_definitions]
    decide

end Scanner

end StyleContract
