import StyleContract.Proofs.Contract.Conformity
import StyleContract.Proofs.Document.JsonReading
import StyleContract.Proofs.Synthesis.Extraction

/-!
# Proofs — Oracle — Candidate

A candidate is asked less than a rule: that its id is a code, that it states something, and that its
confidence is a share (`Candidate.Checked`); that is all a reply's candidates have been checked for
(`checked_of_mem_ofReply`). All else that a rule must have is filled in where the candidate leaves it
blank, and blank items are left out first, so nothing that is filled in is blank again
(`problems_toRule`).

Hence **a reply that is understood is never refused for its rules** (`sound_of_reply`): each of its
candidates makes a rule without problems, whatever file it is about.
-/

namespace StyleContract.Candidate
open Document (bind_eq_ok_iff)

variable {c d : Candidate} {cs : List Candidate} {index : Nat} {path reply : String}
  {lineCount : UInt32}

/-- What a candidate of a reply has been checked for. -/
structure Checked (c : Candidate) : Prop where
  isId : Rule.isId c.id = true
  statement_ne : Text.trim c.statement ≠ ""
  isConfidence : Rule.isConfidence c.confidence = true

/-- A check lets exactly the checked candidates pass, as they are. -/
theorem check_eq_ok_iff : check index c = .ok d ↔ d = c ∧ c.Checked := by
  constructor
  · intro h
    rw [check] at h
    split_ifs at h with hblank hid hstatement hconfidence
    cases h
    exact ⟨rfl, by simpa using hid, hstatement, by simpa using hconfidence⟩
  · rintro ⟨rfl, h⟩
    rw [check, if_neg (Rule.trim_ne_empty_of_isId h.isId), if_neg (by simp [h.isId]),
      if_neg h.statement_ne, if_neg (by simp [h.isConfidence])]

theorem checked_of_mem_ofItems {items : List Json} (h : ofItems index items = .ok cs) :
    ∀ c ∈ cs, c.Checked := by
  induction items generalizing index cs with
  | nil =>
      cases h
      exact List.forall_mem_nil _
  | cons v vs ih =>
      rw [ofItems] at h
      split at h
      · cases h
      · obtain ⟨c, hcheck, h⟩ := bind_eq_ok_iff.1 h
        obtain ⟨rest, hrest, h⟩ := bind_eq_ok_iff.1 h
        cases h
        obtain ⟨rfl, hchecked⟩ := check_eq_ok_iff.1 hcheck
        exact List.forall_mem_cons.2 ⟨hchecked, ih hrest⟩

/-- **A reply that is understood holds checked candidates only.** -/
theorem checked_of_mem_ofReply (h : ofReply reply = .ok cs) : ∀ c ∈ cs, c.Checked := by
  unfold ofReply at h
  dsimp only at h
  split at h
  · cases h
  · split at h
    · next document _ =>
      unfold ofDocument at h
      split at h
      · exact checked_of_mem_ofItems h
      · split at h
        · exact checked_of_mem_ofItems h
        · cases h
      · cases h
    · cases h

/-! ### What is filled in -/

theorem trim_ne_empty_of_not_isBlankText {s : String} (h : (!isBlankText s) = true) :
    Text.trim s ≠ "" := by
  simpa [isBlankText] using h

/-- A list with something to fall back on is not empty, and has what all its items have. -/
theorem orElse_spec {α : Type} {P : α → Prop} {items : List α} {other : α}
    (hitems : ∀ a ∈ items, P a) (hother : P other) :
    orElse items [other] ≠ [] ∧ ∀ a ∈ orElse items [other], P a := by
  cases items with
  | nil => exact ⟨List.cons_ne_nil _ _, List.forall_mem_singleton.2 hother⟩
  | cons a items => exact ⟨List.cons_ne_nil a items, hitems⟩

theorem title_toRule_ne (hid : Rule.isId c.id = true) :
    Text.trim (c.toRule path lineCount).title ≠ "" := by
  cases htitle : c.title.filter fun t => !isBlankText t with
  | none =>
      rw [toRule, htitle]
      exact Rule.trim_ne_empty_of_isId hid
  | some t =>
      rw [toRule, htitle]
      exact trim_ne_empty_of_not_isBlankText (Option.filter_eq_some_iff.1 htitle).2

theorem scope_toRule (hpath : path ≠ "") :
    (c.toRule path lineCount).scope ≠ [] ∧ ∀ s ∈ (c.toRule path lineCount).scope, s ≠ "" := by
  refine orElse_spec (fun s hs => ?_) ?_
  · exact ne_empty_of_trim_ne_empty
      (trim_ne_empty_of_not_isBlankText (List.mem_filter.1 hs).2)
  · cases Path.lowerExtension? path with
    | none => exact hpath
    | some e => simp

theorem evidence_toRule (hpath : path ≠ "") :
    (c.toRule path lineCount).evidence ≠ [] ∧
      ∀ e ∈ (c.toRule path lineCount).evidence, e.path ≠ "" ∧ e.snippetHash ≠ "" := by
  refine orElse_spec (fun e he => ?_) ⟨hpath, placeHash_ne_empty _ _⟩
  obtain ⟨place, hplace, rfl⟩ := List.mem_map.1 he
  exact ⟨ne_empty_of_trim_ne_empty
    (trim_ne_empty_of_not_isBlankText (List.mem_filter.1 hplace).2), placeHash_ne_empty _ _⟩

theorem autofix_toRule {f : Autofix} (h : (c.toRule path lineCount).autofix = some f) :
    f.kind ≠ "" ∧ f.details ≠ "" := by
  obtain ⟨-, hblank⟩ := Option.filter_eq_some_iff.1 h
  obtain ⟨hkind, hdetails⟩ := Bool.and_eq_true_iff.1 hblank
  exact ⟨ne_empty_of_trim_ne_empty (trim_ne_empty_of_not_isBlankText hkind),
    ne_empty_of_trim_ne_empty (trim_ne_empty_of_not_isBlankText hdetails)⟩

/-- **A checked candidate makes a rule without problems.** -/
theorem problems_toRule (h : c.Checked) (hpath : path ≠ "") :
    (c.toRule path lineCount).problems = [] :=
  problems_eq_nil_iff_fields.2 ⟨h.isId, title_toRule_ne h.isId, h.statement_ne, scope_toRule hpath,
    h.isConfidence, evidence_toRule hpath, fun _ => autofix_toRule⟩

/-- Candidates that have been checked are kept as rules, as far as there is room for them. -/
theorem exists_rulesOf_eq_ok {config : ExtractionConfig} {text : String}
    (h : ∀ c ∈ cs, c.Checked) (hpath : path ≠ "") :
    ∃ f, Extraction.rulesOf config path text cs = .ok f := by
  have hnone : ((Extraction.keptCandidates config cs).map fun c =>
      c.toRule path (Text.lineCount text)).flatMap Rule.complaints = [] := by
    refine List.flatMap_eq_nil_iff.2 fun r hr => ?_
    obtain ⟨c, hc, rfl⟩ := List.mem_map.1 hr
    have hchecked := h c (List.mem_of_mem_filter (List.mem_of_mem_take hc))
    rw [Rule.complaints, problems_toRule hchecked hpath, List.map_nil]
  rw [Extraction.keptCandidates] at hnone
  rw [Extraction.rulesOf, hnone]
  exact ⟨_, rfl⟩

/-- **A reply that is understood is never refused for its rules.** For a file with a path, each of the
reply's candidates makes a rule without problems, which has the candidate's id, statement, severity
and confidence and whose places stand under their own hashes; so the file has rules. -/
theorem sound_of_reply (h : ofReply reply = .ok cs) (hpath : path ≠ "") :
    (∀ c ∈ cs, ∀ lineCount, ∃ r, r = c.toRule path lineCount ∧ r.problems = [] ∧
      r.id = c.id ∧ r.statement = c.statement ∧ r.severity = c.severity ∧
      r.confidence = c.confidence ∧ ∀ e ∈ r.evidence, e.snippetHash = placeHash e.path e.lines) ∧
    ∀ config text, ∃ f, Extraction.rulesOf config path text cs = .ok f := by
  have hchecked := checked_of_mem_ofReply h
  refine ⟨fun c hc lineCount => ?_, fun config text => exists_rulesOf_eq_ok hchecked hpath⟩
  exact ⟨c.toRule path lineCount, rfl, problems_toRule (hchecked c hc) hpath, rfl, rfl, rfl, rfl,
    Extraction.anchored_toRule⟩

/-- A reply that leaves all blank that may be blank. -/
def blankReply : String :=
  "[\x7b\"id\":\"PY-LOG-001\",\"title\":\" \",\"statement\":\"Log.\",\"severity\":\"warn\"," ++
    "\"confidence\":0.5,\"scope\":[\"\",\" \"],\"evidence\":[\x7b\"path\":\" \",\"lines\":[0,0]\x7d]," ++
    "\"autofix\":\x7b\"kind\":\"command\",\"details\":\" \"\x7d\x7d]"

def blankCandidate : Candidate where
  id := "PY-LOG-001"
  title := some " "
  statement := "Log."
  scope := ["", " "]
  severity := .warn
  confidence := 0.5
  places := [(" ", ⟨0, 0⟩)]
  autofix := some ⟨"command", " "⟩

theorem ofReply_blankReply : ofReply blankReply = .ok [blankCandidate] :=
  Document.toOption_eq_some_iff.1 (by decide +kernel)

theorem sound_of_blankReply :
    ofReply blankReply = .ok [blankCandidate] ∧ "Makefile" ≠ "" ∧
      (blankCandidate.toRule "Makefile" 7).problems = [] ∧
      (blankCandidate.toRule "Makefile" 7).evidence = [Evidence.at "Makefile" ⟨1, 7⟩] := by
  have hpath : "Makefile" ≠ "" := by decide
  obtain ⟨r, rfl, hproblems, -⟩ :=
    (sound_of_reply ofReply_blankReply hpath).1 blankCandidate (List.mem_singleton_self _) 7
  exact ⟨ofReply_blankReply, hpath, hproblems, rfl⟩

end StyleContract.Candidate
