import StyleContract.Proofs.Document.JsonReading
import StyleContract.Proofs.Store
import StyleContract.Proofs.Verification.StrictMode
import StyleContract.Settings

/-!
# Proofs — Settings

What environment variables leave of a settings file. The variables are read apart from the settings that
they change (`withVariables_eq`), so once a value is overridden nothing of it is left
(`withVariables_congr`). A file is checked before, though: a limit of zero is refused even if a variable
would replace it.

**Two files that differ only in values which variables override give the same settings or the same error**,
if no overridden limit is zero in one of them, and more generally if they are refused for the same reason
or not at all (`load_of_sameBut`). A file that is refused for what it says itself is refused whatever the
variables are.
-/

namespace StyleContract.Settings

open Document (bind_eq_ok_iff)

variable {lookup : String → Option String} {s t : Settings} {tree tree' : Entry} {path : Option String}

/-! ### Variables -/

/-- The value of a variable, if it has one. -/
def value? {α : Type} (lookup : String → Option String) (name : String)
    (read : String → String → Except Error α) : Except Error (Option α) :=
  match lookup name with
  | some value => (read name value).map some
  | none => .ok none

theorem isSome_of_value? {α : Type} {name : String} {read : String → String → Except Error α}
    {a? : Option α} (h : value? lookup name read = .ok a?) (hname : (lookup name).isSome) :
    a?.isSome := by
  obtain ⟨value, hvalue⟩ := Option.isSome_iff_exists.1 hname
  rw [value?, hvalue] at h
  obtain ⟨a, -, rfl⟩ := Document.map_eq_ok_iff.1 h
  rfl

/-- Changing settings by a variable and going on is reading its value first: `put` says what is left of
settings whether or not there is a value. -/
theorem override_bind {α β : Type} {name : String} {read : String → String → Except Error α}
    {set : α → Settings → Settings} {k : Settings → Except Error β}
    {k' : Option α → Except Error β} (put : Option α → Settings → Settings) (hnone : put none s = s)
    (hsome : ∀ a, put (some a) s = set a s) (h : ∀ a?, k (put a? s) = k' a?) :
    (override lookup name read set s >>= k) = value? lookup name read >>= k' := by
  rw [override, value?]
  cases lookup name with
  | none => exact (congrArg k hnone.symm).trans (h none)
  | some value =>
      dsimp only
      cases read name value with
      | error e => rfl
      | ok a => exact (congrArg k (hsome a).symm).trans (h (some a))

/-- What follows a computation matters only for what it gives. -/
theorem bind_congr_of_ok {α β : Type} {x : Except Error α} {f g : α → Except Error β}
    (h : ∀ a, x = .ok a → f a = g a) : (x >>= f) = (x >>= g) := by
  cases x with
  | error e => rfl
  | ok a => exact h a rfl

/-- Values that take the place of those of settings, where there are any. -/
structure Changes where
  contractPath : Option String
  reportPath : Option String
  schemaPath : Option String
  maxFiles : Option Nat
  enabled : Option Bool
  concurrency : Option Nat
  timeoutSeconds : Option Nat
  maxFileBytes : Option Nat

namespace Changes

/-- The values of the variables. -/
def ofVariables (lookup : String → Option String) : Except Error Changes := do
  let contractPath ← value? lookup "REPOSTYLE_CONTRACT" pathValue
  let reportPath ← value? lookup "REPOSTYLE_REPORT" pathValue
  let schemaPath ← value? lookup "REPOSTYLE_SCHEMA" pathValue
  let maxFiles ← value? lookup "REPOSTYLE_MAX_FILES" naturalValue
  let enabled ← value? lookup "REPOSTYLE_LLM_ENABLED" boolValue
  let concurrency ← value? lookup "REPOSTYLE_LLM_CONCURRENCY" naturalValue
  let timeoutSeconds ← value? lookup "REPOSTYLE_LLM_TIMEOUT_SECS" naturalValue
  let maxFileBytes ← value? lookup "REPOSTYLE_LLM_MAX_FILE_BYTES" naturalValue
  .ok ⟨contractPath, reportPath, schemaPath, maxFiles, enabled, concurrency, timeoutSeconds,
    maxFileBytes⟩

/-- The settings with the changes made. -/
def apply (c : Changes) (s : Settings) : Settings where
  contractPath := c.contractPath.getD s.contractPath
  reportPath := c.reportPath.getD s.reportPath
  maxFiles := c.maxFiles.getD s.maxFiles
  schemaPath := c.schemaPath.or s.schemaPath
  oracle := {
    enabled := c.enabled.getD s.oracle.enabled
    concurrency := c.concurrency.getD s.oracle.concurrency
    timeoutSeconds := c.timeoutSeconds.getD s.oracle.timeoutSeconds
    maxFileBytes := c.maxFileBytes.getD s.oracle.maxFileBytes
    minConfidence := s.oracle.minConfidence
    maxRulesPerFile := s.oracle.maxRulesPerFile }

end Changes

/-- **Variables are read apart from the settings that they change.** -/
theorem withVariables_eq (s : Settings) (lookup : String → Option String) :
    s.withVariables lookup = Changes.ofVariables lookup >>= fun c => (c.apply s).check := by
  simp only [Changes.ofVariables, bind_assoc]
  refine override_bind (fun a? s => { s with contractPath := a?.getD s.contractPath }) rfl
    (fun _ => rfl) fun contractPath => ?_
  refine override_bind (fun a? s => { s with reportPath := a?.getD s.reportPath }) rfl
    (fun _ => rfl) fun reportPath => ?_
  refine override_bind (fun a? s => { s with schemaPath := a?.or s.schemaPath }) rfl
    (fun _ => rfl) fun schemaPath => ?_
  refine override_bind (fun a? s => { s with maxFiles := a?.getD s.maxFiles }) rfl
    (fun _ => rfl) fun maxFiles => ?_
  refine override_bind (fun a? s => { s with oracle.enabled := a?.getD s.oracle.enabled }) rfl
    (fun _ => rfl) fun enabled => ?_
  refine override_bind (fun a? s => { s with oracle.concurrency := a?.getD s.oracle.concurrency })
    rfl (fun _ => rfl) fun concurrency => ?_
  refine override_bind
    (fun a? s => { s with oracle.timeoutSeconds := a?.getD s.oracle.timeoutSeconds }) rfl
    (fun _ => rfl) fun timeoutSeconds => ?_
  exact override_bind
    (fun a? s => { s with oracle.maxFileBytes := a?.getD s.oracle.maxFileBytes }) rfl
    (fun _ => rfl) fun maxFileBytes => rfl

/-! ### Overridden values -/

/-- The settings agree in each value for which no variable is set. -/
structure SameBut (lookup : String → Option String) (s t : Settings) : Prop where
  contractPath : (lookup "REPOSTYLE_CONTRACT").isSome ∨ s.contractPath = t.contractPath
  reportPath : (lookup "REPOSTYLE_REPORT").isSome ∨ s.reportPath = t.reportPath
  schemaPath : (lookup "REPOSTYLE_SCHEMA").isSome ∨ s.schemaPath = t.schemaPath
  maxFiles : (lookup "REPOSTYLE_MAX_FILES").isSome ∨ s.maxFiles = t.maxFiles
  enabled : (lookup "REPOSTYLE_LLM_ENABLED").isSome ∨ s.oracle.enabled = t.oracle.enabled
  concurrency : (lookup "REPOSTYLE_LLM_CONCURRENCY").isSome ∨
    s.oracle.concurrency = t.oracle.concurrency
  timeoutSeconds : (lookup "REPOSTYLE_LLM_TIMEOUT_SECS").isSome ∨
    s.oracle.timeoutSeconds = t.oracle.timeoutSeconds
  maxFileBytes : (lookup "REPOSTYLE_LLM_MAX_FILE_BYTES").isSome ∨
    s.oracle.maxFileBytes = t.oracle.maxFileBytes
  minConfidence : s.oracle.minConfidence = t.oracle.minConfidence
  maxRulesPerFile : s.oracle.maxRulesPerFile = t.oracle.maxRulesPerFile

section

variable {α : Type} {name : String} {read : String → String → Except Error α} {a? : Option α}

theorem getD_congr (ha : value? lookup name read = .ok a?) {x y : α}
    (h : (lookup name).isSome ∨ x = y) : a?.getD x = a?.getD y := by
  rcases h with h | rfl
  · obtain ⟨a, rfl⟩ := Option.isSome_iff_exists.1 (isSome_of_value? ha h)
    rfl
  · rfl

theorem or_congr (ha : value? lookup name read = .ok a?) {x? y? : Option α}
    (h : (lookup name).isSome ∨ x? = y?) : a?.or x? = a?.or y? := by
  rcases h with h | rfl
  · obtain ⟨a, rfl⟩ := Option.isSome_iff_exists.1 (isSome_of_value? ha h)
    rfl
  · rfl

end

/-- Nothing is left of a value that a variable overrides. -/
theorem Changes.apply_congr {c : Changes} (hc : ofVariables lookup = .ok c)
    (h : SameBut lookup s t) : c.apply s = c.apply t := by
  obtain ⟨contractPath, hcontractPath, hc⟩ := bind_eq_ok_iff.1 hc
  obtain ⟨reportPath, hreportPath, hc⟩ := bind_eq_ok_iff.1 hc
  obtain ⟨schemaPath, hschemaPath, hc⟩ := bind_eq_ok_iff.1 hc
  obtain ⟨maxFiles, hmaxFiles, hc⟩ := bind_eq_ok_iff.1 hc
  obtain ⟨enabled, henabled, hc⟩ := bind_eq_ok_iff.1 hc
  obtain ⟨concurrency, hconcurrency, hc⟩ := bind_eq_ok_iff.1 hc
  obtain ⟨timeoutSeconds, htimeoutSeconds, hc⟩ := bind_eq_ok_iff.1 hc
  obtain ⟨maxFileBytes, hmaxFileBytes, hc⟩ := bind_eq_ok_iff.1 hc
  cases hc
  rw [apply, apply, getD_congr hcontractPath h.contractPath, getD_congr hreportPath h.reportPath,
    or_congr hschemaPath h.schemaPath, getD_congr hmaxFiles h.maxFiles,
    getD_congr henabled h.enabled, getD_congr hconcurrency h.concurrency,
    getD_congr htimeoutSeconds h.timeoutSeconds, getD_congr hmaxFileBytes h.maxFileBytes,
    h.minConfidence, h.maxRulesPerFile]

/-- **Overridden values never matter** once the settings are there: they give the same settings, or the
same error. -/
theorem withVariables_congr (h : SameBut lookup s t) :
    s.withVariables lookup = t.withVariables lookup := by
  rw [withVariables_eq, withVariables_eq]
  exact bind_congr_of_ok fun c hc => congrArg check (Changes.apply_congr hc h)

/-! ### Files -/

/-- Why settings are refused for what they say themselves, if they are. -/
def fault? (s : Settings) : Option Error :=
  match s.check with
  | .ok _ => none
  | .error e => some e

theorem check_eq_ok (h : s.fault? = none) : s.check = .ok s := by
  unfold fault? check at h
  unfold check
  split_ifs at h ⊢
  rfl

theorem check_eq_error {e : Error} (h : s.fault? = some e) : s.check = .error e := by
  unfold fault? at h
  split at h
  · cases h
  · next hcheck =>
      cases h
      exact hcheck

/-- The settings file at a path, or the default one, has a text that gives settings, in range or not. -/
def Reads (tree : Entry) (path : Option String) (s : Settings) : Prop :=
  ∃ text, tree.readText (path.getD defaultFile) = .ok text ∧
    (Toml.ofText? text).bind ofTable = some s

/-- A file is checked by itself, and only then are the variables looked at. -/
theorem load_eq (h : Reads tree path s) :
    load tree path lookup = s.check >>= fun s => s.withVariables lookup := by
  obtain ⟨text, htext, hs⟩ := h
  have hfile : ofFile tree (path.getD defaultFile) = s.check := by
    rw [ofFile, htext]
    unfold ofText
    dsimp only
    rw [hs]
  rw [← hfile]
  cases path with
  | some path => rfl
  | none =>
      have hthere : tree.isFile defaultFile = true := Entry.isFile_of_readText htext
      rw [load, if_pos hthere]
      rfl

theorem load_of_fault? {e : Error} (h : Reads tree path s) (hfault : s.fault? = some e) :
    load tree path lookup = .error e := by
  rw [load_eq h, check_eq_error hfault]
  rfl

theorem load_of_fault?_eq_none (h : Reads tree path s) (hfault : s.fault? = none) :
    load tree path lookup = s.withVariables lookup := by
  rw [load_eq h, check_eq_ok hfault]
  rfl

/-- No limit is zero of those that variables override. -/
def LimitsHold (lookup : String → Option String) (s : Settings) : Prop :=
  ((lookup "REPOSTYLE_MAX_FILES").isSome → s.maxFiles ≠ 0) ∧
    ((lookup "REPOSTYLE_LLM_CONCURRENCY").isSome → s.oracle.concurrency ≠ 0)

/-- A limit that is overridden and holds is no fault, and any other is the same in both. -/
theorem SameBut.fault?_eq (h : SameBut lookup s t) (hs : LimitsHold lookup s)
    (ht : LimitsHold lookup t) : s.fault? = t.fault? := by
  have hfiles : s.maxFiles = 0 ↔ t.maxFiles = 0 := by
    rcases h.maxFiles with hname | heq
    · exact iff_of_false (hs.1 hname) (ht.1 hname)
    · rw [heq]
  have hopen : s.oracle.concurrency = 0 ↔ t.oracle.concurrency = 0 := by
    rcases h.concurrency with hname | heq
    · exact iff_of_false (hs.2 hname) (ht.2 hname)
    · rw [heq]
  unfold fault? check
  simp only [hfiles, hopen, h.minConfidence]
  split_ifs <;> rfl

/-- **Overridden settings never matter**, but for a limit of zero: a file is refused for what it says
itself, and two that are not refused for different reasons give the same. -/
theorem load_of_sameBut {tree tree' : Entry} {path : Option String}
    {lookup : String → Option String} {s t : Settings} (hs : Reads tree path s)
    (ht : Reads tree' path t) (h : SameBut lookup s t) :
    (LimitsHold lookup s → LimitsHold lookup t →
        load tree path lookup = load tree' path lookup) ∧
      (s.fault? = t.fault? → load tree path lookup = load tree' path lookup) ∧
      ∀ e, s.fault? = some e → load tree path lookup = .error e := by
  have hsame : s.fault? = t.fault? → load tree path lookup = load tree' path lookup := by
    intro heq
    cases hfault : s.fault? with
    | some e => rw [load_of_fault? hs hfault, load_of_fault? ht (heq ▸ hfault)]
    | none =>
        rw [load_of_fault?_eq_none hs hfault, load_of_fault?_eq_none ht (heq ▸ hfault),
          withVariables_congr h]
  exact ⟨fun hlimits hlimits' => hsame (h.fault?_eq hlimits hlimits'), hsame,
    fun e he => load_of_fault? hs he⟩

/-- A directory that has a settings file. -/
def withSettings (text : String) : Entry := .folder [(defaultFile, .file text.toUTF8)]

/-- Variables that set how many files are looked at, and that no question is asked. -/
def fewFiles (name : String) : Option String :=
  List.lookup name [("REPOSTYLE_MAX_FILES", " 5 "), ("REPOSTYLE_LLM_ENABLED", "Off")]

def eagerText : String := "max_files = 900\n[llm]\nconcurrency = 2\nmin_confidence = 0.7\n"

def lazyText : String :=
  "max_files = 10\n[llm]\nenabled = false\nconcurrency = 2\nmin_confidence = 0.7\n"

def eager : Settings :=
  { maxFiles := 900, oracle := { concurrency := 2, minConfidence := 0.7 } }

def lazy : Settings :=
  { maxFiles := 10, oracle := { enabled := false, concurrency := 2, minConfidence := 0.7 } }

theorem load_of_sameBut_eager :
    Reads (withSettings eagerText) none eager ∧ Reads (withSettings lazyText) none lazy ∧
      SameBut fewFiles eager lazy ∧ eager ≠ lazy ∧
      load (withSettings eagerText) none fewFiles = load (withSettings lazyText) none fewFiles := by
  have heager : Reads (withSettings eagerText) none eager :=
    ⟨eagerText, Store.eq_ok_of_toOption (by decide +kernel), by decide +kernel⟩
  have hlazy : Reads (withSettings lazyText) none lazy :=
    ⟨lazyText, Store.eq_ok_of_toOption (by decide +kernel), by decide +kernel⟩
  have hsame : SameBut fewFiles eager lazy :=
    ⟨.inr rfl, .inr rfl, .inr rfl, .inl rfl, .inl rfl, .inr rfl, .inr rfl, .inr rfl, rfl, rfl⟩
  refine ⟨heager, hlazy, hsame, by decide +kernel, (load_of_sameBut heager hlazy hsame).1 ?_ ?_⟩
  · exact ⟨fun _ => by decide, nofun⟩
  · exact ⟨fun _ => by decide, nofun⟩

/-- A limit of zero matters, although it is overridden. -/
theorem load_ne_of_zero_limit :
    Reads (withSettings "max_files = 0\n") none { maxFiles := 0 } ∧
      Reads (withSettings "max_files = 1\n") none { maxFiles := 1 } ∧
      SameBut fewFiles { maxFiles := 0 } { maxFiles := 1 } ∧
      load (withSettings "max_files = 0\n") none fewFiles =
        .error (.invalidInput "max_files must be at least 1") ∧
      load (withSettings "max_files = 1\n") none fewFiles =
        .ok { maxFiles := 5, oracle := { enabled := false } } := by
  have hzero : Reads (withSettings "max_files = 0\n") none { maxFiles := 0 } :=
    ⟨"max_files = 0\n", Store.eq_ok_of_toOption (by decide +kernel), by decide +kernel⟩
  have hone : Reads (withSettings "max_files = 1\n") none { maxFiles := 1 } :=
    ⟨"max_files = 1\n", Store.eq_ok_of_toOption (by decide +kernel), by decide +kernel⟩
  have hsame : SameBut fewFiles { maxFiles := 0 } { maxFiles := 1 } :=
    ⟨.inr rfl, .inr rfl, .inr rfl, .inl rfl, .inl rfl, .inr rfl, .inr rfl, .inr rfl, rfl, rfl⟩
  refine ⟨hzero, hone, hsame, load_of_fault? hzero rfl, ?_⟩
  rw [load_of_fault?_eq_none hone (by decide +kernel)]
  exact Store.eq_ok_of_toOption (by decide +kernel)

end StyleContract.Settings
