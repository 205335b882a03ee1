import StyleContract.Proofs.Contract.Conformity
import StyleContract.Proofs.Files.Directory
import StyleContract.Proofs.Store
import StyleContract.Proofs.Verification.LineLength
import StyleContract.Proofs.Verification.Strict

/-!
# Proofs — Verification — Suggestion

Suggestions that were written leave nothing to suggest. Each rule that has a counterpart in configuration
looks at one file below the root (`target?`) and, if it is to be changed, says what it becomes
(`revised?`); what it becomes needs no further change (`revised?_settled`). No two rules of an accepted
contract look at the same file, so the texts are written to distinct names, where each is read again and
no other name below the root is looked up differently (`Applied`, by induction over the suggestions).

**Suggestions converge in one step**: `apply_settles`.
-/

namespace StyleContract.Suggestion

open Document (bind_eq_ok_iff map_eq_ok_iff mapM_cons_eq_ok exists_of_mem_mapM
  exists_read_of_mem_mapM)

variable {tree after : Entry} {root file : String} {r r' : Rule} {ss : List Suggestion}
  {os : List (Option Suggestion)} {rules : List Rule}

/-! ### One rule -/

/-- The file that a rule looks at. -/
def target? (r : Rule) : Option String :=
  if r.id = "PY-FMT-001" then (lineLength? r).map fun _ => ruffFile
  else if r.id = "TS-TYPE-003" then some tsconfigFile
  else none

/-- What the file of a rule has to become, if it has to change. -/
def revised? (r : Rule) (before : Option String) : Option String :=
  if r.id = "PY-FMT-001" then (lineLength? r).bind fun length => withLineLength? length before
  else if r.id = "TS-TYPE-003" then before.bind strictText?
  else none

theorem isName_ruffFile : Path.IsName ruffFile :=
  ⟨by decide, by decide, by decide, by decide, by decide⟩

theorem isName_tsconfigFile : Path.IsName tsconfigFile :=
  ⟨by decide, by decide, by decide, by decide, by decide⟩

theorem target?_eq_some (h : target? r = some file) :
    r.id = "PY-FMT-001" ∧ file = ruffFile ∨ r.id = "TS-TYPE-003" ∧ file = tsconfigFile := by
  rw [target?] at h
  split at h
  · next hid =>
    obtain ⟨_, -, rfl⟩ := Option.map_eq_some_iff.1 h
    exact .inl ⟨hid, rfl⟩
  · split at h
    · next hid =>
      cases h
      exact .inr ⟨hid, rfl⟩
    · cases h

theorem isName_of_target? (h : target? r = some file) : Path.IsName file := by
  rcases target?_eq_some h with ⟨-, rfl⟩ | ⟨-, rfl⟩
  · exact isName_ruffFile
  · exact isName_tsconfigFile

/-- Rules that look at the same file have the same id. -/
theorem id_eq_of_target? (h : target? r = some file) (h' : target? r' = some file) : r.id = r'.id := by
  rcases target?_eq_some h with ⟨hid, rfl⟩ | ⟨hid, rfl⟩
  · rcases target?_eq_some h' with ⟨hid', -⟩ | ⟨-, hfile⟩
    · exact hid.trans hid'.symm
    · exact absurd hfile (by decide)
  · rcases target?_eq_some h' with ⟨-, hfile⟩ | ⟨hid', -⟩
    · exact absurd hfile (by decide)
    · exact hid.trans hid'.symm

/-- **What a file has become needs no further change.** -/
theorem revised?_settled {before : Option String} {text : String} (h : revised? r before = some text) :
    revised? r (some text) = none := by
  rw [revised?] at h
  split at h
  · next hid =>
    obtain ⟨length, hlength, htext⟩ := Option.bind_eq_some_iff.1 h
    rw [revised?, if_pos hid, hlength, Option.bind_some,
      withLineLength?_settled (lineLength?_lt hlength) htext]
  · next hid =>
    split at h
    · next hid' =>
      obtain ⟨text', -, htext⟩ := Option.bind_eq_some_iff.1 h
      rw [revised?, if_neg hid, if_pos hid', Option.bind_some, strictText?_settled htext]
    · cases h

/-- A rule suggests something if its file, as far as there is one, has to change. -/
theorem forRule_of_target? (h : target? r = some file) :
    ∃ description, ∀ tree, forRule tree root r =
      (optionalText tree (Path.join root file)).map fun before =>
        (revised? r before).map fun text => ⟨r.id, file, description, before, text⟩ := by
  rcases target?_eq_some h with ⟨hid, rfl⟩ | ⟨hid, rfl⟩
  · rw [target?, if_pos hid] at h
    obtain ⟨length, hlength, -⟩ := Option.map_eq_some_iff.1 h
    refine ⟨"Align ruff line-length with Black (" ++ toString length ++ ")", fun tree => ?_⟩
    rw [forRule, if_pos hid, forLineLength, hlength]
    cases optionalText tree (Path.join root ruffFile) with
    | error e => rfl
    | ok before =>
        simp only [bind, Except.bind, Except.map, revised?, if_pos hid, hlength, Option.bind_some]
  · have hne : ¬ r.id = "PY-FMT-001" := by
      rw [hid]
      decide
    refine ⟨"Enable compilerOptions.strict", fun tree => ?_⟩
    rw [forRule, if_neg hne, if_pos hid, forStrict]
    cases optionalText tree (Path.join root tsconfigFile) with
    | error e => rfl
    | ok before =>
        simp only [bind, Except.bind, Except.map, revised?, if_neg hne, if_pos hid]
        cases before <;> rfl

theorem forRule_of_target?_eq_none (h : target? r = none) (tree : Entry) (root : String) :
    forRule tree root r = .ok none := by
  rw [target?] at h
  split at h
  · next hid =>
    rw [forRule, if_pos hid, forLineLength, Option.map_eq_none_iff.1 h]
  · next hid =>
    split at h
    · cases h
    · next hid' => rw [forRule, if_neg hid, if_neg hid']

/-! ### All suggestions -/

theorem optionalText_eq_ok {o : Option String} {path : String}
    (h : optionalText tree path = .ok o) {error : OsError} (herror : tree.readText path = .error error) :
    error = .notFound := by
  rw [optionalText, herror] at h
  cases error <;> first | rfl | cases h

theorem optionalText_of_readText {path text : String} (h : tree.readText path = .ok text) :
    optionalText tree path = .ok (some text) := by
  rw [optionalText, h]

theorem optionalText_of_find {path : String} (h : after.find path = tree.find path) :
    optionalText after path = optionalText tree path := by
  rw [optionalText, optionalText, Entry.readText, Entry.readText, h]

/-- Suggestions have been written below a root: each text is at its name, and all else is as before. -/
structure Applied (tree : Entry) (root : String) (ss : List Suggestion) (after : Entry) : Prop where
  written : ∀ s ∈ ss, after.readText (Path.join root s.path) = .ok s.after
  others : ∀ name, Path.IsName name → name ∉ ss.map path →
    after.find (Path.join root name) = tree.find (Path.join root name)

theorem failure_andThen {ε : Type} {c : Change ε} {next : Entry → Change ε}
    (h : (c.andThen next).failure = none) :
    c.failure = none ∧ (next c.tree).failure = none ∧ (c.andThen next).tree = (next c.tree).tree := by
  cases hc : c.failure with
  | none =>
      have hnext : c.andThen next = next c.tree := by rw [Change.andThen, hc]
      rw [hnext] at h ⊢
      exact ⟨rfl, h, rfl⟩
  | some e =>
      have hsame : c.andThen next = c := by rw [Change.andThen, hc]
      rw [hsame, hc] at h
      cases h

/-- **Writing suggestions to distinct names** below a root that is there or can be made. -/
theorem applied_apply (hroot : ".." ∈ Path.steps root → tree.isFolderAt (Path.steps root) = true)
    (hnames : ∀ s ∈ ss, Path.IsName s.path) (hdistinct : (ss.map path).Nodup)
    (hread : ∀ s ∈ ss, ∀ error, tree.readText (Path.join root s.path) = .error error →
      error = .notFound)
    (h : (apply tree root ss).failure = none) : Applied tree root ss (apply tree root ss).tree := by
  induction ss generalizing tree with
  | nil => exact ⟨fun s hs => (List.not_mem_nil hs).elim, fun _ _ _ => rfl⟩
  | cons s more ih =>
      rw [apply] at h ⊢
      obtain ⟨hwrite, hmore, htree⟩ := failure_andThen h
      rw [htree]
      rw [List.forall_mem_cons] at hnames hread
      rw [List.map_cons, List.nodup_cons] at hdistinct
      have hroot' := Entry.isFolderAt_of_writeText_join hnames.1 hroot hread.1 hwrite
      have hfind {name : String} (hname : Path.IsName name) (hne : name ≠ s.path) :=
        Entry.find_of_writeText_join hnames.1 hroot hread.1 hwrite hname hne
      have hne (s' : Suggestion) (hs' : s' ∈ more) : s'.path ≠ s.path := fun heq =>
        hdistinct.1 (heq ▸ List.mem_map_of_mem hs')
      have hrest := ih (fun _ => hroot') hnames.2 hdistinct.2 (fun s' hs' error herror => by
        rw [Entry.readText, hfind (hnames.2 s' hs') (hne s' hs')] at herror
        exact hread.2 s' hs' error herror) hmore
      refine ⟨List.forall_mem_cons.2 ⟨?_, hrest.written⟩, fun name hname hnew => ?_⟩
      · -- the texts that follow go to other names
        rw [Entry.readText, hrest.others s.path hnames.1 hdistinct.1, ← Entry.readText]
        exact Entry.readText_of_writeText_join hnames.1 hroot hread.1 hwrite
      · rw [List.map_cons, List.mem_cons, not_or] at hnew
        rw [hrest.others name hname hnew.2, hfind hname hnew.1]

/-- **Writing suggestions touches no other file**, also if one of them cannot be written. -/
theorem fileAt?_apply {names : List String}
    (hnames : ∀ s ∈ ss, ∀ place, Path.place? (Path.join root s.path) = some place → ¬ place <+: names) :
    (apply tree root ss).tree.fileAt? names = tree.fileAt? names := by
  induction ss generalizing tree with
  | nil => rfl
  | cons s more ih =>
      rw [List.forall_mem_cons] at hnames
      cases hwrite : (tree.writeText (Path.join root s.path) s.after).failure with
      | some error =>
          rw [apply, Change.andThen, hwrite]
          exact (Entry.fileAt?_of_writeText_failure hwrite).2 names
      | none =>
          obtain ⟨place, hplace, -, hothers⟩ := Entry.fileAt?_of_writeText hwrite
          rw [apply, Change.andThen, hwrite]
          exact (ih hnames.2).trans (hothers names (hnames.1 place hplace))

/-! ### All rules -/

theorem exists_of_ofContract {c : Contract} (h : ofContract c tree root = .ok ss) :
    ∃ os, c.rules.mapM (forRule tree root) = .ok os ∧ ss = os.filterMap id := by
  obtain ⟨os, hos, hss⟩ := bind_eq_ok_iff.1 h
  cases hss
  exact ⟨os, hos, rfl⟩

theorem ofContract_eq_nil {c : Contract} (h : ∀ r ∈ c.rules, forRule tree root r = .ok none) :
    ofContract c tree root = .ok [] := by
  have hnone : ∀ rules : List Rule, (∀ r ∈ rules, forRule tree root r = .ok none) →
      ∃ os, rules.mapM (forRule tree root) = .ok os ∧ os.filterMap id = [] := by
    intro rules h
    induction rules with
    | nil => exact ⟨[], rfl, rfl⟩
    | cons r rules ih =>
        obtain ⟨os, hos, hnil⟩ := ih fun r' hr' => h r' (List.mem_cons_of_mem _ hr')
        refine ⟨none :: os, ?_, hnil⟩
        rw [List.mapM_cons, h r List.mem_cons_self, hos]
        rfl
  obtain ⟨os, hos, hnil⟩ := hnone c.rules h
  rw [ofContract, hos]
  exact congrArg Except.ok hnil

/-- What a suggestion tells of the rule that it is for. -/
theorem of_forRule {s : Suggestion} (h : forRule tree root r = .ok (some s)) :
    s.ruleId = r.id ∧ target? r = some s.path ∧
      optionalText tree (Path.join root s.path) = .ok s.before ∧ revised? r s.before = some s.after := by
  cases htarget : target? r with
  | none =>
      rw [forRule_of_target?_eq_none htarget] at h
      cases h
  | some file =>
      obtain ⟨description, hrule⟩ := forRule_of_target? htarget
      rw [hrule] at h
      obtain ⟨before, hbefore, h⟩ := map_eq_ok_iff.1 h
      obtain ⟨text, htext, rfl⟩ := Option.map_eq_some_iff.1 h
      exact ⟨rfl, rfl, hbefore, htext⟩

theorem sublist_of_mapM (h : rules.mapM (forRule tree root) = .ok os) :
    ((os.filterMap id).map ruleId).Sublist (rules.map Rule.id) := by
  induction rules generalizing os with
  | nil =>
      cases h
      exact List.Sublist.refl []
  | cons r rules ih =>
      obtain ⟨o, rest, ho, hrest, rfl⟩ := mapM_cons_eq_ok h
      cases o with
      | none => exact (ih hrest).cons r.id
      | some s =>
          show (s.ruleId :: (rest.filterMap id).map ruleId).Sublist (r.id :: rules.map Rule.id)
          rw [(of_forRule ho).1]
          exact (ih hrest).cons_cons r.id

theorem mem_suggested_iff {s : Suggestion} : s ∈ os.filterMap id ↔ some s ∈ os := by
  simp

/-- The suggestions for rules with distinct ids are for distinct files. -/
theorem nodup_paths (hids : (rules.map Rule.id).Nodup)
    (h : rules.mapM (forRule tree root) = .ok os) : ((os.filterMap id).map path).Nodup := by
  have hruleIds := (sublist_of_mapM h).nodup hids
  refine hruleIds.of_map.map_on fun s hs s' hs' hpath => ?_
  obtain ⟨r, -, hr⟩ := exists_read_of_mem_mapM h (mem_suggested_iff.1 hs)
  obtain ⟨r', -, hr'⟩ := exists_read_of_mem_mapM h (mem_suggested_iff.1 hs')
  obtain ⟨hid, htarget, -⟩ := of_forRule hr
  obtain ⟨hid', htarget', -⟩ := of_forRule hr'
  refine List.inj_on_of_nodup_map hruleIds hs hs' ?_
  rw [hid, hid', id_eq_of_target? htarget (hpath ▸ htarget')]

/-- **After its suggestion was written, a rule suggests nothing.** -/
theorem forRule_of_applied (hids : (rules.map Rule.id).Nodup)
    (h : rules.mapM (forRule tree root) = .ok os) (ha : Applied tree root (os.filterMap id) after)
    (hr : r ∈ rules) : forRule after root r = .ok none := by
  cases htarget : target? r with
  | none => exact forRule_of_target?_eq_none htarget after root
  | some file =>
      obtain ⟨description, hrule⟩ := forRule_of_target? htarget
      obtain ⟨o, ho, hread⟩ := exists_of_mem_mapM h hr
      have hbefore := hread
      rw [hrule] at hbefore
      obtain ⟨before, hbefore, hrevised⟩ := map_eq_ok_iff.1 hbefore
      cases htext : revised? r before with
      | some text =>
          rw [htext, Option.map_some] at hrevised
          have hmem : (⟨r.id, file, description, before, text⟩ : Suggestion) ∈ os.filterMap id :=
            mem_suggested_iff.2 (hrevised ▸ ho)
          rw [hrule, optionalText_of_readText (ha.written _ hmem)]
          simp only [Except.map, revised?_settled htext, Option.map_none]
      | none =>
          -- no other rule looks at this file, so it is as it was
          have hfile : file ∉ (os.filterMap id).map path := by
            intro hmem
            obtain ⟨s, hs, hpath⟩ := List.mem_map.1 hmem
            obtain ⟨r', hr', hs'⟩ := exists_read_of_mem_mapM h (mem_suggested_iff.1 hs)
            have hid := id_eq_of_target? htarget (hpath ▸ (of_forRule hs').2.1)
            cases List.inj_on_of_nodup_map hids hr hr' hid
            rw [hread, ← hrevised, htext] at hs'
            cases hs'
          have hsame := ha.others file (isName_of_target? htarget) hfile
          rw [hrule, optionalText_of_find hsame, hbefore]
          simp only [Except.map, htext, Option.map_none]

/-- **Suggestions converge in one step.** The contract is one that its schema accepts. If suggestions
were written below a root, nothing is left to suggest, unless the root's path leads upwards and is not
that of a directory: what is missing on its way is made, and it can end at another directory then. In any
case no file has changed but the two configurations at the root. -/
theorem apply_settles {schema : ContractSchema} {c : Contract} (hc : schema.accept c = .ok ())
    (hss : ofContract c tree root = .ok ss) (hwritten : (apply tree root ss).failure = none) :
    ((".." ∈ Path.steps root → tree.isFolderAt (Path.steps root) = true) →
        ofContract c (apply tree root ss).tree root = .ok []) ∧
      ∀ names, (∀ place, Path.place? root = some place →
          ¬ place ++ [ruffFile] <+: names ∧ ¬ place ++ [tsconfigFile] <+: names) →
        (apply tree root ss).tree.fileAt? names = tree.fileAt? names := by
  obtain ⟨os, hos, rfl⟩ := exists_of_ofContract hss
  have hids := (violations_eq_nil_iff.1 (ContractSchema.accept_eq_ok_iff.1 hc)).2
  have hfrom (s : Suggestion) (hs : s ∈ os.filterMap id) : ∃ r, forRule tree root r = .ok (some s) := by
    obtain ⟨r, -, hr⟩ := exists_read_of_mem_mapM hos (mem_suggested_iff.1 hs)
    exact ⟨r, hr⟩
  have hname (s : Suggestion) (hs : s ∈ os.filterMap id) : Path.IsName s.path := by
    obtain ⟨r, hr⟩ := hfrom s hs
    exact isName_of_target? (of_forRule hr).2.1
  refine ⟨fun hroot => ?_, fun names hnames => fileAt?_apply fun s hs place hplace => ?_⟩
  · have ha := applied_apply hroot hname (nodup_paths hids hos) (fun s hs error herror => by
      obtain ⟨r, hr⟩ := hfrom s hs
      exact optionalText_eq_ok (of_forRule hr).2.2.1 herror) hwritten
    exact ofContract_eq_nil fun r hr => forRule_of_applied hids hos ha hr
  · rw [Entry.place?_join (hname s hs)] at hplace
    obtain ⟨above, habove, rfl⟩ := Option.map_eq_some_iff.1 hplace
    obtain ⟨r, hr⟩ := hfrom s hs
    rcases target?_eq_some (of_forRule hr).2.1 with ⟨-, hpath⟩ | ⟨-, hpath⟩
    · rw [hpath]
      exact (hnames above habove).1
    · rw [hpath]
      exact (hnames above habove).2

/-! ### A root that is made -/

/-- Python code is formatted with lines of 100 characters. -/
def formatRule : Rule where
  id := "PY-FMT-001"
  title := "Black"
  statement := "Python code MUST be formatted by Black with line length 100."
  scope := ["**/*.py"]
  severity := .warn
  confidence := 1.0
  evidence := [⟨"a.py", ⟨1, 2⟩, "1e3"⟩]

/-- Types are checked strictly. -/
def strictRule : Rule where
  id := "TS-TYPE-003"
  title := "Strict"
  statement := "Strict mode MUST be on."
  scope := ["**/*.ts"]
  severity := .warn
  confidence := 1.0
  evidence := [⟨"a.ts", ⟨1, 2⟩, "1e3"⟩]

/-- A contract of the two rules that have a counterpart in configuration. -/
def configuredContract : Contract where
  schemaVersion := "1.0"
  repo := ⟨none, "0"⟩
  generatedAt := ⟨1483228799, 0⟩
  rules := [formatRule, strictRule]
  metrics := none

theorem accept_configuredContract :
    ContractSchema.standard.accept configuredContract = .ok () := by
  refine ContractSchema.accept_eq_ok_iff.2 (violations_standard_eq_nil rfl ⟨by decide, by decide⟩
    (by decide) ?_ (by decide))
  have hsound : formatRule.problems = [] ∧ strictRule.problems = [] := by decide
  exact List.forall_mem_cons.2 ⟨hsound.1, List.forall_mem_singleton.2 hsound.2⟩

/-- A tree with a configuration that is not strict. -/
def laxTree : Entry :=
  .folder [("src", .folder [("a.py", .file "import os\n".toUTF8)]),
    ("tsconfig.json", .file "\x7b\x7d".toUTF8)]

/-- What is suggested if there is no configuration of the line length. -/
def newLineLength : Suggestion :=
  ⟨"PY-FMT-001", ruffFile, "Align ruff line-length with Black (100)", none, "line-length = 100\n"⟩

/-- What is suggested for the configuration that is not strict. -/
def madeStrict : Suggestion :=
  ⟨"TS-TYPE-003", tsconfigFile, "Enable compilerOptions.strict", some "\x7b\x7d",
    "\x7b\n  \"compilerOptions\": \x7b\n    \"strict\": true\n  \x7d\n\x7d\n"⟩

theorem apply_settles_laxTree :
    ContractSchema.standard.accept configuredContract = .ok () ∧
      ofContract configuredContract laxTree "src/.." = .ok [newLineLength, madeStrict] ∧
      (apply laxTree "src/.." [newLineLength, madeStrict]).failure = none ∧
      ofContract configuredContract (apply laxTree "src/.." [newLineLength, madeStrict]).tree "src/.." =
        .ok [] ∧
      (apply laxTree "src/.." [newLineLength, madeStrict]).tree.fileAt? ["src", "a.py"] =
        laxTree.fileAt? ["src", "a.py"] := by
  have hss : ofContract configuredContract laxTree "src/.." = .ok [newLineLength, madeStrict] :=
    Store.eq_ok_of_toOption (by decide)
  have hwritten : (apply laxTree "src/.." [newLineLength, madeStrict]).failure = none := by
    decide +kernel
  have hplace (place : List String) (h : Path.place? "src/.." = some place) : place = [] :=
    Option.some.inj (h.symm.trans rfl)
  have hboth := apply_settles accept_configuredContract hss hwritten
  refine ⟨accept_configuredContract, hss, hwritten, hboth.1 fun _ => by decide, ?_⟩
  exact hboth.2 ["src", "a.py"] fun place h => by
    rw [hplace place h]
    decide

/-- Below a directory that is missing, and up again, there is no configuration at first. Once that
directory was made, the one that is not strict is there. -/
theorem apply_unsettled :
    ContractSchema.standard.accept configuredContract = .ok () ∧
      ofContract configuredContract laxTree "missing/.." = .ok [newLineLength] ∧
      (apply laxTree "missing/.." [newLineLength]).failure = none ∧
      ofContract configuredContract (apply laxTree "missing/.." [newLineLength]).tree "missing/.." =
        .ok [madeStrict] :=
  ⟨accept_configuredContract, Store.eq_ok_of_toOption (by decide +kernel), by decide +kernel,
    Store.eq_ok_of_toOption (by decide +kernel)⟩

end StyleContract.Suggestion
