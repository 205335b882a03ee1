import StyleContract.Proofs.Contract.Conformity
import StyleContract.Proofs.Decimal.Layout
import StyleContract.Proofs.Json.Indented
import StyleContract.Proofs.Json.Shape
import StyleContract.Proofs.Synthesis.Dedupe
import StyleContract.Proofs.Text.Headings
import StyleContract.Report.Guide

/-!
# Proofs — Report — Guide

The headings of a guide. A guide is printed line by line (`render_eq`), and its lines are headings of
sections, titles of rules, other lines with texts of the contract, and lines of the guide's own
(`Outline`). The last ones never add a heading: they have no line breaks, or are a value in a layout that
follows each line break with a blank or a bracket. The texts of a contract are printed as they are, and the
schema does not forbid line breaks in them. So the guide has the headings that it should have, and **it has
no others if and only if no text of the contract has a line break with a mark behind it**
(`headings_render`).
-/

namespace StyleContract

open Text (Flat flat_append_iff flat_toString printed)

/-! ### Texts without line breaks -/

theorem Decimal.flat_fixed (places : Nat) (x : Float) : Flat (fixed places x) := fun h => by
  rcases of_mem_fixed h with h | h | h
  · exact absurd h (by decide)
  · exact absurd h (by decide)
  · exact absurd h (by decide)

theorem Severity.flat_name (s : Severity) : Flat s.name := by cases s <;> decide

namespace Moment

theorem flat_digits (width n : Nat) : Flat (digits width n) := by
  rw [Flat, digits, String.toList_ofList, List.mem_append, not_or]
  exact ⟨fun h => absurd (List.eq_of_mem_replicate h) (by decide),
    fun h => absurd (Text.isDigit_of_mem_toDigits h) (by decide)⟩

theorem flat_yearText (year : Int) : Flat (yearText year) := by
  rw [yearText]
  split
  · exact flat_digits _ _
  · refine flat_append_iff.2 ⟨?_, flat_digits _ _⟩
    split <;> decide

theorem flat_fractionText (nanos : Nat) : Flat (fractionText nanos) := by
  have hpoint (width n : Nat) : Flat ("." ++ digits width n) :=
    flat_append_iff.2 ⟨by decide, flat_digits _ _⟩
  rw [fractionText]
  split_ifs
  · decide
  · exact hpoint _ _
  · exact hpoint _ _
  · exact hpoint _ _

theorem flat_toOffsetText (m : Moment) : Flat m.toOffsetText := by
  simp only [toOffsetText, render, flat_append_iff, flat_yearText, flat_digits, flat_fractionText,
    true_and, and_true]
  decide

end Moment

theorem Verification.of_mem_commandsOf {r : Rule} {command : String}
    (h : command ∈ commandsOf r) : Flat command ∧ '#' ∉ command.toList := by
  have htable : ∀ row ∈ commandTable, ∀ x ∈ row.2, Flat x ∧ '#' ∉ x.toList := by decide
  rw [commandsOf, commandsOfId] at h
  split at h
  · next row hrow => exact htable row (List.mem_of_find?_eq_some hrow) command h
  · cases h

namespace Guide

open Text (IsMark starts firstRow marked openings)

/-! ### Headings -/

/-- The headings of the sections of a guide. -/
def sectionHeadings : List String :=
  ["## Repository Context", "## Operating Posture", "## Enforced Rules", "## Candidate Rules",
    "## Verification", "## Provenance Map"]

/-- What is printed over a rule. -/
def ruleTitle (r : Rule) : String := "### " ++ r.id ++ ": " ++ r.title

/-- The heading of a rule: what is printed over it, up to the first line break. -/
def ruleHeading (r : Rule) : String := firstRow (ruleTitle r)

/-- Whether the text makes a heading of its own, of a section or of a rule, behind a line break. -/
def AddsHeading (s : String) : Prop := "\n## ".toList <:+: s.toList ∨ "\n### ".toList <:+: s.toList

instance (s : String) : Decidable (AddsHeading s) :=
  inferInstanceAs (Decidable ("\n## ".toList <:+: s.toList ∨ "\n### ".toList <:+: s.toList))

/-- Whether the text does not start as a heading does. -/
def IsPlain (s : String) : Prop := starts "## " s = false ∧ starts "### " s = false

instance (s : String) : Decidable (IsPlain s) := inferInstanceAs (Decidable (_ ∧ _))

/-- What a part of a guide is made of: headings of sections, the titles of rules, other lines that hold
texts of the contract, and lines that are the guide's own. -/
inductive Outline : (lines headings : List String) → (rules : List Rule) → (texts : List String) → Prop
  | nil : Outline [] [] [] []
  | heading {s : String} {lines headings texts : List String} {rules : List Rule}
      (h : s ∈ sectionHeadings) (rest : Outline lines headings rules texts) :
      Outline (s :: lines) (s :: headings) rules texts
  | rule {lines headings texts : List String} {rules : List Rule} (r : Rule)
      (rest : Outline lines headings rules texts) :
      Outline (ruleTitle r :: lines) headings (r :: rules) (ruleTitle r :: texts)
  | text {s : String} {lines headings texts : List String} {rules : List Rule} (h : IsPlain s)
      (rest : Outline lines headings rules texts) :
      Outline (s :: lines) headings rules (s :: texts)
  | own {s : String} {lines headings texts : List String} {rules : List Rule} (h : IsPlain s)
      (hadds : ¬ AddsHeading s) (rest : Outline lines headings rules texts) :
      Outline (s :: lines) headings rules texts

variable {c : Contract} {s : String} {lines lines' headings headings' texts texts' : List String}
  {rules rules' : List Rule}

theorem not_addsHeading_of_flat (h : Flat s) : ¬ AddsHeading s := by
  have hmem {start : List Char} (hbehind : '\n' :: start <:+: s.toList) : False :=
    h (hbehind.subset List.mem_cons_self)
  rintro (hbehind | hbehind)
  · exact hmem hbehind
  · exact hmem hbehind

/-- In a printed value nothing but blanks and brackets follows a line break. -/
theorem not_addsHeading_of_indented (h : Json.Indented s.toList) : ¬ AddsHeading s := by
  have hbehind {start : List Char} (hbehind : '\n' :: '#' :: start <:+: s.toList) : False := by
    obtain ⟨pre, post, heq⟩ := hbehind
    have hhead := h pre ('#' :: start ++ post) (by rw [← heq]; simp)
    cases hhead
  rintro (hsection | hrule)
  · exact hbehind hsection
  · exact hbehind hrule

namespace Outline

theorem append (h : Outline lines headings rules texts) (h' : Outline lines' headings' rules' texts') :
    Outline (lines ++ lines') (headings ++ headings') (rules ++ rules') (texts ++ texts') := by
  induction h with
  | nil => exact h'
  | heading hs _ ih => exact .heading hs ih
  | rule r _ ih => exact .rule r ih
  | text hs _ ih => exact .text hs ih
  | own hs hadds _ ih => exact .own hs hadds ih

theorem ofOwn (h : ∀ s ∈ lines, IsPlain s ∧ ¬ AddsHeading s) : Outline lines [] [] [] := by
  induction lines with
  | nil => exact .nil
  | cons s lines ih =>
      obtain ⟨⟨hplain, hadds⟩, hrest⟩ := List.forall_mem_cons.1 h
      exact .own hplain hadds (ih hrest)

theorem ofTexts (h : ∀ s ∈ lines, IsPlain s) : Outline lines [] [] lines := by
  induction lines with
  | nil => exact .nil
  | cons s lines ih =>
      obtain ⟨hplain, hrest⟩ := List.forall_mem_cons.1 h
      exact .text hplain (ih hrest)

theorem flatMap {f g : Rule → List String} (h : ∀ r ∈ rules, Outline (f r) [] [r] (g r)) :
    Outline (rules.flatMap f) [] rules (rules.flatMap g) := by
  induction rules with
  | nil => exact .nil
  | cons r rules ih =>
      obtain ⟨hr, hrest⟩ := List.forall_mem_cons.1 h
      exact hr.append (ih hrest)

theorem starts_ruleTitle (r : Rule) :
    starts "## " (ruleTitle r) = false ∧ starts "### " (ruleTitle r) = true := by
  rw [starts, starts, ruleTitle, String.append_assoc, String.append_assoc, String.toList_append]
  exact ⟨rfl, rfl⟩

theorem openings_section (h : Outline lines headings rules texts) : openings "## " lines = headings := by
  have hsection : ∀ s ∈ sectionHeadings, starts "## " s = true ∧ firstRow s = s := by decide
  induction h with
  | nil => rfl
  | heading hs _ ih => rw [Text.openings_cons_of_true (hsection _ hs).1, (hsection _ hs).2, ih]
  | rule r _ ih => rw [Text.openings_cons_of_false (starts_ruleTitle r).1, ih]
  | text hs _ ih => rw [Text.openings_cons_of_false hs.1, ih]
  | own hs _ _ ih => rw [Text.openings_cons_of_false hs.1, ih]

theorem openings_rule (h : Outline lines headings rules texts) :
    openings "### " lines = rules.map ruleHeading := by
  have hsection : ∀ s ∈ sectionHeadings, starts "### " s = false := by decide
  induction h with
  | nil => rfl
  | heading hs _ ih => rw [Text.openings_cons_of_false (hsection _ hs), ih]
  | rule r _ ih => rw [Text.openings_cons_of_true (starts_ruleTitle r).2, ih, List.map_cons, ruleHeading]
  | text hs _ ih => rw [Text.openings_cons_of_false hs.2, ih]
  | own hs _ _ ih => rw [Text.openings_cons_of_false hs.2, ih]

theorem forall_not_addsHeading_iff (h : Outline lines headings rules texts) :
    (∀ s ∈ lines, ¬ AddsHeading s) ↔ ∀ s ∈ texts, ¬ AddsHeading s := by
  have hsection : ∀ s ∈ sectionHeadings, ¬ AddsHeading s := by decide
  induction h with
  | nil => rfl
  | heading hs _ ih => exact List.forall_mem_cons.trans ((and_iff_right (hsection _ hs)).trans ih)
  | rule r _ ih => simp only [List.forall_mem_cons, ih]
  | text hs _ ih => simp only [List.forall_mem_cons, ih]
  | own hs hadds _ ih => exact List.forall_mem_cons.trans ((and_iff_right hadds).trans ih)

theorem marked_section_eq_iff (h : Outline lines headings rules texts) :
    marked "## " (printed lines) = headings ↔
      ∀ s ∈ lines, ¬ "\n## ".toList <:+: s.toList := by
  have hmark : IsMark "## " := by simp [IsMark]
  rw [← h.openings_section]
  exact Text.marked_printed_eq_openings_iff hmark lines

/-- **What an outline says of the printed lines.** The headings of the sections and those of the rules are
there in order, and nothing else is if and only if no text of the contract adds a heading. -/
theorem marked_printed (h : Outline lines headings rules texts) :
    headings.Sublist (marked "## " (printed lines)) ∧
      (rules.map ruleHeading).Sublist (marked "### " (printed lines)) ∧
      (marked "## " (printed lines) = headings ∧
        marked "### " (printed lines) = rules.map ruleHeading ↔ ∀ s ∈ texts, ¬ AddsHeading s) := by
  have hmark : IsMark "## " ∧ IsMark "### " := by simp [IsMark]
  rw [← h.openings_section, ← h.openings_rule, ← h.forall_not_addsHeading_iff,
    Text.marked_printed_eq_openings_iff hmark.1, Text.marked_printed_eq_openings_iff hmark.2,
    ← forall₂_and]
  refine ⟨Text.openings_sublist_marked hmark.1 lines, Text.openings_sublist_marked hmark.2 lines, ?_⟩
  exact forall₂_congr fun s _ => not_or.symm

end Outline

/-! ### The lines of a guide -/

theorem paragraph_eq (s : String) : paragraph s = printed [s, ""] := by
  rw [Text.printed_cons, paragraph, String.append_assoc]
  rfl

theorem line_eq (s : String) : line s = printed [s] := by
  rw [Text.printed_cons]
  exact String.append_empty.symm

theorem join_map_eq {α : Type} {f : α → String} {g : α → List String} (h : ∀ a, f a = printed (g a))
    (items : List α) : String.join (items.map f) = printed (items.flatMap g) := by
  induction items with
  | nil => rfl
  | cons a items ih =>
      rw [List.map_cons, String.join_cons, ih, h, ← Text.printed_append, List.flatMap_cons]

theorem join_map_line_eq {α : Type} {f g : α → String} (h : ∀ a, f a = printed [g a]) (items : List α) :
    String.join (items.map f) = printed (items.map g) := by
  rw [join_map_eq h, List.map_eq_flatMap]

/-- The lines of a block of code. Its body counts as one line, whatever it is. -/
def codeLines (language body : String) : List String := [ticks ++ language, body, ticks, ""]

theorem codeBlock_eq (language body : String) :
    codeBlock language body = printed (codeLines language body) := by
  simp only [codeBlock, paragraph_eq, codeLines, Text.printed_cons, String.append_assoc]

def listed (s : String) : String := "- " ++ s

theorem bullet_eq (s : String) : bullet s = printed [listed s] := line_eq _

/-- The lines that say what a contract is about. -/
def contextTexts (c : Contract) : List String :=
  ["Repo: " ++ c.repo.remote.getD "local", "Commit: " ++ c.repo.sha,
    "Languages: " ++ languagesText c].map listed

def contextLines (c : Contract) : List String :=
  ["## Repository Context", ""] ++ contextTexts c ++
    ["- Rules: " ++ toString (enforced c).length ++ " enforced, " ++ toString (candidates c).length ++
      " candidate", ""]

theorem contextSection_eq (c : Contract) : contextSection c = printed (contextLines c) := by
  simp only [contextSection, paragraph_eq, bullet_eq, contextLines, ← Text.printed_append]
  rfl

def postureLines : List String := ["## Operating Posture", ""] ++ posture.map listed ++ [""]

theorem postureSection_eq : postureSection = printed postureLines := by
  rw [postureSection, paragraph_eq, join_map_line_eq bullet_eq, postureLines, Text.printed_append,
    Text.printed_append]
  rfl

def statementText (r : Rule) : String := "**Statement:** " ++ r.statement ++ "  "

def scopeText (r : Rule) : String := "**Scope:** " ++ String.intercalate ", " r.scope ++ "  "

def gradeText (r : Rule) : String :=
  "**Severity:** " ++ r.severity.name ++ " | **Confidence:** " ++ Decimal.fixed 2 r.confidence

def rationaleTexts (r : Rule) : List String := (r.rationale.map ("**Rationale:** " ++ ·)).toList

def repairText (r : Rule) : String := "**Autofix:** " ++ autofixText r.autofix

def originText (r : Rule) : String :=
  "**Provenance:** " ++ String.intercalate ", " (r.evidence.map placeText)

/-- The lines about an enforced rule that hold texts of the rule. -/
def ruleTexts (r : Rule) : List String :=
  [ruleTitle r, statementText r, scopeText r] ++ rationaleTexts r ++ [repairText r, originText r]

def verifierLines (commands : List String) : List String :=
  if commands.isEmpty then ["No local verifier.", ""]
  else codeLines "bash" (String.intercalate " && " commands)

def ruleLines (r : Rule) : List String :=
  [ruleTitle r, ""] ++ [statementText r] ++ [scopeText r] ++ [gradeText r, ""] ++
    (rationaleTexts r).flatMap (fun s => [s, ""]) ++ ["**Local verification:**", ""] ++
    verifierLines (Verification.commandsOf r) ++ [repairText r, ""] ++ [originText r, ""]

theorem rationaleText_eq (r : Rule) :
    rationaleText r.rationale = printed ((rationaleTexts r).flatMap fun s => [s, ""]) := by
  rw [rationaleTexts]
  cases r.rationale with
  | none => rfl
  | some text => exact paragraph_eq _

theorem verifierText_eq (commands : List String) :
    verifierText commands = printed (verifierLines commands) := by
  rw [verifierText, verifierLines]
  split
  · exact paragraph_eq _
  · exact codeBlock_eq _ _

theorem ruleText_eq (r : Rule) : ruleText r = printed (ruleLines r) := by
  simp only [ruleText, paragraph_eq, line_eq, rationaleText_eq, verifierText_eq, ← Text.printed_append]
  rfl

def enforcedLines (rules : List Rule) : List String :=
  ["## Enforced Rules", ""] ++
    (if rules.isEmpty then ["No rules meet the enforcement threshold.", ""] else []) ++
    rules.flatMap ruleLines

theorem enforcedSection_eq (rules : List Rule) :
    enforcedSection rules = printed (enforcedLines rules) := by
  have hnote : (if rules.isEmpty then paragraph "No rules meet the enforcement threshold." else "") =
      printed (if rules.isEmpty then ["No rules meet the enforcement threshold.", ""] else []) := by
    split
    · exact paragraph_eq _
    · rfl
  rw [enforcedSection, hnote, paragraph_eq, join_map_eq ruleText_eq, ← Text.printed_append,
    ← Text.printed_append, enforcedLines]

/-- The line about a candidate. -/
def candidateLine (r : Rule) : String :=
  listed (r.id ++ ": " ++ r.statement ++ " (" ++ r.primaryPath?.getD "n/a" ++ ")")

def candidateLines (rules : List Rule) : List String :=
  ["## Candidate Rules", ""] ++ (if rules.isEmpty then ["None."] else []) ++ rules.map candidateLine ++
    [""]

theorem candidateSection_eq (rules : List Rule) :
    candidateSection rules = printed (candidateLines rules) := by
  have hnote : (if rules.isEmpty then line "None." else "") =
      printed (if rules.isEmpty then ["None."] else []) := by
    split
    · exact line_eq _
    · rfl
  have hcandidate (r : Rule) : candidateText r = printed [candidateLine r] := bullet_eq _
  rw [candidateSection, hnote, paragraph_eq, join_map_line_eq hcandidate, candidateLines,
    Text.printed_append, Text.printed_append, Text.printed_append]
  rfl

def verificationLines (rules : List Rule) : List String :=
  ["## Verification", ""] ++
    if (Verification.canonicalLine rules).isEmpty then ["No local verifiers apply.", ""]
    else codeLines "bash" (Verification.canonicalLine rules)

theorem verificationSection_eq (rules : List Rule) :
    verificationSection rules = printed (verificationLines rules) := by
  rw [verificationSection, verificationLines, paragraph_eq, Text.printed_append]
  split
  · rw [paragraph_eq]
  · rw [codeBlock_eq]

def provenanceLines (c : Contract) : List String :=
  ["## Provenance Map", ""] ++ codeLines "json" (provenanceJson c).pretty

theorem provenanceSection_eq (c : Contract) : provenanceSection c = printed (provenanceLines c) := by
  rw [provenanceSection, provenanceLines, paragraph_eq, codeBlock_eq, Text.printed_append]

def footer (c : Contract) (source : String) : String :=
  "Last generated: " ++ c.generatedAt.toOffsetText ++ " | Source: " ++ source

/-- The lines of a guide. -/
def guideLines (c : Contract) (source : String) : List String :=
  ["# AGENTS.md", ""] ++ contextLines c ++ postureLines ++ enforcedLines (enforced c) ++
    candidateLines (candidates c) ++ verificationLines (enforced c) ++ provenanceLines c ++
    [footer c source]

theorem render_eq (c : Contract) (source : String) : render c source = printed (guideLines c source) := by
  simp only [render, paragraph_eq, contextSection_eq, postureSection_eq, enforcedSection_eq,
    candidateSection_eq, verificationSection_eq, provenanceSection_eq, line_eq, ← Text.printed_append]
  rfl

/-! ### Its outline -/

theorem isPlain_of_head?_ne (h : s.toList.head? ≠ some '#') : IsPlain s := by
  rw [IsPlain, starts, starts]
  cases hs : s.toList with
  | nil => exact ⟨rfl, rfl⟩
  | cons c cs =>
      have hc : '#' ≠ c := fun heq => h (by rw [hs, heq]; rfl)
      have hfirst (start : List Char) : List.isPrefixOf ('#' :: start) (c :: cs) = false := by
        simp [List.isPrefixOf, hc]
      exact ⟨hfirst ['#', ' '], hfirst ['#', '#', ' ']⟩

/-- A text that starts with something else than a heading does. -/
def Led (s : String) : Prop := s.toList.head?.any (· != '#') = true

instance (s : String) : Decidable (Led s) :=
  inferInstanceAs (Decidable (s.toList.head?.any (· != '#') = true))

theorem isPlain_append (h : Led s) (t : String) : IsPlain (s ++ t) := by
  refine isPlain_of_head?_ne ?_
  rw [String.toList_append, List.head?_append]
  rw [Led] at h
  cases hhead : s.toList.head? with
  | none =>
      rw [hhead] at h
      cases h
  | some c =>
      rw [hhead] at h
      rintro ⟨⟩
      exact absurd h (by decide)

theorem isPlain_of_not_mem (h : '#' ∉ s.toList) : IsPlain s :=
  isPlain_of_head?_ne fun heq => h (List.mem_of_head? heq)

theorem isPlain_empty : IsPlain "" := by decide

theorem isPlain_listed (s : String) : IsPlain (listed s) := isPlain_append (by decide) s

namespace Outline

theorem ofHeading (s : String) (h : s ∈ sectionHeadings) : Outline [s, ""] [s] [] [] :=
  .heading h (.own isPlain_empty (by decide) .nil)

theorem ofFlat (h : IsPlain s) (hflat : Flat s) : Outline [s, ""] [] [] [] :=
  .own h (not_addsHeading_of_flat hflat) (.own isPlain_empty (by decide) .nil)

theorem ofText (h : IsPlain s) : Outline [s, ""] [] [] [s] :=
  .text h (.own isPlain_empty (by decide) .nil)

end Outline

theorem outline_contextLines (c : Contract) :
    Outline (contextLines c) ["## Repository Context"] [] (contextTexts c) := by
  have htexts : Outline (contextTexts c) [] [] (contextTexts c) := .ofTexts fun s hs => by
    obtain ⟨t, -, rfl⟩ := List.mem_map.1 hs
    exact isPlain_listed t
  have hcount : Outline ["- Rules: " ++ toString (enforced c).length ++ " enforced, " ++
      toString (candidates c).length ++ " candidate", ""] [] [] [] := by
    refine .ofFlat ?_ ?_
    · simp only [String.append_assoc]
      exact isPlain_append (by decide) _
    · simp only [flat_append_iff, flat_toString, and_true]
      decide
  have h := ((Outline.ofHeading "## Repository Context" (by decide)).append htexts).append hcount
  rwa [List.append_nil] at h

set_option maxRecDepth 4000 in
theorem outline_postureLines : Outline postureLines ["## Operating Posture"] [] [] := by
  have hitems : Outline (posture.map listed) [] [] [] := .ofOwn (by decide)
  have hend : Outline [""] [] [] [] := .ofOwn (by decide)
  exact ((Outline.ofHeading "## Operating Posture" (by decide)).append hitems).append hend

theorem outline_codeLines {language body : String} (hlanguage : Flat language)
    (hplain : IsPlain body) (hadds : ¬ AddsHeading body) :
    Outline (codeLines language body) [] [] [] := by
  have hopen : Flat (ticks ++ language) := flat_append_iff.2 ⟨by decide, hlanguage⟩
  refine .own (isPlain_append (by decide) _) (not_addsHeading_of_flat hopen) ?_
  exact .own hplain hadds (.ofFlat (by decide) (by decide))

theorem outline_commands {commands : List String}
    (h : ∀ x ∈ commands, ∃ r, x ∈ Verification.commandsOf r) :
    Outline (codeLines "bash" (String.intercalate " && " commands)) [] [] [] := by
  have hcommand : ∀ x ∈ commands, Flat x ∧ '#' ∉ x.toList := fun x hx =>
    Verification.of_mem_commandsOf (h x hx).choose_spec
  refine outline_codeLines (by decide) (isPlain_of_not_mem ?_) (not_addsHeading_of_flat ?_)
  · exact Text.not_mem_intercalate (by decide) fun x hx => (hcommand x hx).2
  · exact Text.not_mem_intercalate (by decide) fun x hx => (hcommand x hx).1

theorem isPlain_statementText (r : Rule) : IsPlain (statementText r) := by
  unfold statementText
  rw [String.append_assoc]
  exact isPlain_append (by decide) _

theorem isPlain_scopeText (r : Rule) : IsPlain (scopeText r) := by
  unfold scopeText
  rw [String.append_assoc]
  exact isPlain_append (by decide) _

theorem isPlain_gradeText (r : Rule) : IsPlain (gradeText r) := by
  unfold gradeText
  simp only [String.append_assoc]
  exact isPlain_append (by decide) _

theorem flat_gradeText (r : Rule) : Flat (gradeText r) := by
  have hwords : Flat "**Severity:** " ∧ Flat " | **Confidence:** " := by decide
  unfold gradeText
  rw [flat_append_iff, flat_append_iff, flat_append_iff]
  exact ⟨⟨⟨hwords.1, r.severity.flat_name⟩, hwords.2⟩, Decimal.flat_fixed 2 r.confidence⟩

theorem outline_verifierLines (r : Rule) :
    Outline (verifierLines (Verification.commandsOf r)) [] [] [] := by
  rw [verifierLines]
  split
  · exact .ofFlat (by decide) (by decide)
  · exact outline_commands fun x hx => ⟨r, hx⟩

theorem outline_rationaleTexts (r : Rule) :
    Outline ((rationaleTexts r).flatMap fun s => [s, ""]) [] [] (rationaleTexts r) := by
  rw [rationaleTexts]
  cases r.rationale with
  | none => exact .nil
  | some text => exact .ofText (isPlain_append (by decide) _)

theorem outline_ruleLines (r : Rule) : Outline (ruleLines r) [] [r] (ruleTexts r) := by
  have htitle : Outline [ruleTitle r, ""] [] [r] [ruleTitle r] :=
    .rule r (.own isPlain_empty (by decide) .nil)
  have hstatement : Outline [statementText r] [] [] [statementText r] :=
    .text (isPlain_statementText r) .nil
  have hscope : Outline [scopeText r] [] [] [scopeText r] := .text (isPlain_scopeText r) .nil
  have hgrade : Outline [gradeText r, ""] [] [] [] := .ofFlat (isPlain_gradeText r) (flat_gradeText r)
  have hlocal : Outline ["**Local verification:**", ""] [] [] [] := .ofFlat (by decide) (by decide)
  have hrepair : Outline [repairText r, ""] [] [] [repairText r] :=
    .ofText (isPlain_append (by decide) _)
  have horigin : Outline [originText r, ""] [] [] [originText r] :=
    .ofText (isPlain_append (by decide) _)
  have h := (((((((htitle.append hstatement).append hscope).append hgrade).append
    (outline_rationaleTexts r)).append hlocal).append (outline_verifierLines r)).append hrepair).append
    horigin
  simpa only [ruleLines, ruleTexts, List.cons_append, List.nil_append, List.append_nil,
    List.append_assoc] using h

theorem outline_enforcedLines (rules : List Rule) :
    Outline (enforcedLines rules) ["## Enforced Rules"] rules (rules.flatMap ruleTexts) := by
  have hnote : Outline (if rules.isEmpty then ["No rules meet the enforcement threshold.", ""] else [])
      [] [] [] := by
    split
    · exact .ofFlat (by decide) (by decide)
    · exact .nil
  exact ((Outline.ofHeading "## Enforced Rules" (by decide)).append hnote).append
    (.flatMap fun r _ => outline_ruleLines r)

theorem outline_candidateLines (rules : List Rule) :
    Outline (candidateLines rules) ["## Candidate Rules"] [] (rules.map candidateLine) := by
  have hnote : Outline (if rules.isEmpty then ["None."] else []) [] [] [] := by
    split
    · exact .ofOwn (by decide)
    · exact .nil
  have hitems : Outline (rules.map candidateLine) [] [] (rules.map candidateLine) :=
    .ofTexts fun s hs => by
      obtain ⟨r, -, rfl⟩ := List.mem_map.1 hs
      exact isPlain_listed _
  have hend : Outline [""] [] [] [] := .ofOwn (by decide)
  have h := (((Outline.ofHeading "## Candidate Rules" (by decide)).append hnote).append hitems).append
    hend
  simpa only [candidateLines, List.nil_append, List.append_nil] using h

theorem outline_verificationLines (rules : List Rule) :
    Outline (verificationLines rules) ["## Verification"] [] [] := by
  have hcommands : Outline (if (Verification.canonicalLine rules).isEmpty then
      ["No local verifiers apply.", ""]
      else codeLines "bash" (Verification.canonicalLine rules)) [] [] [] := by
    split
    · exact .ofFlat (by decide) (by decide)
    · refine outline_commands fun x hx => ?_
      obtain ⟨r, -, hr⟩ := Verification.mem_canonical.1 hx
      exact ⟨r, hr⟩
  exact (Outline.ofHeading "## Verification" (by decide)).append hcommands

theorem outline_provenanceLines (c : Contract) :
    Outline (provenanceLines c) ["## Provenance Map"] [] [] := by
  obtain ⟨cs, hcs⟩ : ∃ cs, (provenanceJson c).pretty.toList = '\x7b' :: cs :=
    Json.exists_cons_block '\x7b' '\x7d' _
  have hplain : IsPlain (provenanceJson c).pretty := isPlain_of_head?_ne (by rw [hcs]; simp)
  exact (Outline.ofHeading "## Provenance Map" (by decide)).append
    (outline_codeLines (by decide) hplain (not_addsHeading_of_indented (Json.indented_pretty _)))

theorem isPlain_footer (c : Contract) (source : String) : IsPlain (footer c source) := by
  unfold footer
  simp only [String.append_assoc]
  exact isPlain_append (by decide) _

theorem flat_footer (c : Contract) {source : String} (h : Flat source) : Flat (footer c source) := by
  have hwords : Flat "Last generated: " ∧ Flat " | Source: " := by decide
  unfold footer
  rw [flat_append_iff, flat_append_iff, flat_append_iff]
  exact ⟨⟨⟨hwords.1, Moment.flat_toOffsetText _⟩, hwords.2⟩, h⟩

/-- The lines that a guide takes from a contract. -/
def contractTexts (c : Contract) : List String :=
  contextTexts c ++ (enforced c).flatMap ruleTexts ++ (candidates c).map candidateLine

theorem outline_guideLines (c : Contract) {source : String} (h : Flat source) :
    Outline (guideLines c source) sectionHeadings (enforced c) (contractTexts c) := by
  have htitle : Outline ["# AGENTS.md", ""] [] [] [] := .ofFlat (by decide) (by decide)
  have hfooter : Outline [footer c source] [] [] [] :=
    .own (isPlain_footer c source) (not_addsHeading_of_flat (flat_footer c h)) .nil
  have h := (((((((htitle.append (outline_contextLines c)).append outline_postureLines).append
    (outline_enforcedLines (enforced c))).append (outline_candidateLines (candidates c))).append
    (outline_verificationLines (enforced c))).append (outline_provenanceLines c)).append hfooter)
  simpa only [guideLines, contractTexts, sectionHeadings, List.append_nil, List.nil_append,
    List.append_assoc, List.cons_append] using h

/-! ### Its headings -/

theorem mem_enforced_iff {r : Rule} : r ∈ enforced c ↔ r ∈ c.rules ∧ isEnforced r = true := by
  rw [enforced, ordered, List.mem_filter, List.mem_mergeSort]

theorem isId_of_accept {schema : ContractSchema} (hschema : ContractSchema.bundled = .ok schema)
    (haccept : schema.accept c = .ok ()) : ∀ r ∈ c.rules, Rule.isId r.id = true := by
  cases ContractSchema.bundled_eq.symm.trans hschema
  have hviolations := ContractSchema.accept_eq_ok_iff.1 haccept
  rw [violations_eq_nil_iff, ContractSchema.check_standard_eq_nil_iff,
    contractForm_toJson_iff] at hviolations
  exact fun r hr => (ruleForm_toJson_iff.1 (hviolations.1.2.2.2 r hr)).1

theorem isMark_of_isId {id : String} (h : Rule.isId id = true) : IsMark id := by
  have hchar : ∀ d ∈ id.toList, Rule.isIdChar d = true := by
    rw [Rule.isId] at h
    split at h
    · next d ds hds =>
      obtain ⟨hd, hrest⟩ := Bool.and_eq_true_iff.1 h
      rw [hds]
      refine List.forall_mem_cons.2 ⟨?_, List.all_eq_true.1 hrest⟩
      simp only [Rule.isIdChar, Bool.or_eq_true]
      exact .inl (.inl hd)
    · cases h
  refine fun d hd => ⟨?_, ?_⟩
  · rintro rfl
    exact absurd (hchar _ hd) (by decide)
  · rintro rfl
    exact absurd (hchar _ hd) (by decide)

theorem starts_ruleHeading {r : Rule} (h : Rule.isId r.id = true) :
    starts ("### " ++ r.id ++ ": ") (ruleHeading r) = true := by
  have hmarks : IsMark "### " ∧ IsMark ": " := by simp [IsMark]
  have hmark := (hmarks.1.append (isMark_of_isId h)).append hmarks.2
  exact (Text.starts_firstRow hmark _).trans (Text.starts_append _ r.title)

/-- **The headings of a guide**, of a contract that the bundled schema accepts. There is one for each rule
with enough confidence, in the ascending order of the ids, and it names the id. All of them are in the
guide, and so are those of the sections, in order. There are others if and only if some line that the
guide takes from the contract has a line break with a mark of a heading behind it. -/
theorem headings_render {schema : ContractSchema} (hschema : ContractSchema.bundled = .ok schema)
    (haccept : schema.accept c = .ok ()) {source : String} (hsource : Flat source) :
    (enforced c).Perm (c.rules.filter fun r => 0.55 ≤ r.confidence) ∧
      ((enforced c).map Rule.id).Pairwise (· < ·) ∧
      (∀ r ∈ enforced c, starts ("### " ++ r.id ++ ": ") (ruleHeading r) = true) ∧
      sectionHeadings.Sublist (marked "## " (render c source)) ∧
      ((enforced c).map ruleHeading).Sublist (marked "### " (render c source)) ∧
      (marked "## " (render c source) = sectionHeadings ∧
        marked "### " (render c source) = (enforced c).map ruleHeading ↔
          ∀ s ∈ contractTexts c, ¬ AddsHeading s) := by
  have hids := (violations_eq_nil_iff.1 (ContractSchema.accept_eq_ok_iff.1 haccept)).2
  rw [render_eq]
  refine ⟨(List.mergeSort_perm _ _).filter _, ?_, fun r hr => ?_,
    (outline_guideLines c hsource).marked_printed⟩
  · exact (pairwise_ids_mergeSort hids).sublist (List.filter_sublist.map Rule.id)
  · exact starts_ruleHeading (isId_of_accept hschema haccept r (mem_enforced_iff.1 hr).1)

/-! ### A title of two lines -/

/-- A rule with a title of its own. -/
def titledRule (id title : String) (confidence : Float) : Rule where
  id := id
  title := title
  statement := "Python code MUST be formatted by Black."
  scope := ["**/*.py"]
  severity := .warn
  confidence := confidence
  evidence := [⟨"a.py", ⟨1, 2⟩, "1e3"⟩]

/-- A contract of an enforced rule with this title, and a candidate. -/
def titledContract (title : String) : Contract where
  schemaVersion := "1.0"
  repo := ⟨none, "0"⟩
  generatedAt := ⟨1483228799, 0⟩
  rules := [titledRule "PY-FMT-001" title 1.0, titledRule "TS-IMPORT-002" "Imports" 0.25]

theorem accept_titledContract {title : String}
    (h : ∀ r ∈ (titledContract title).rules, r.problems = []) :
    ContractSchema.standard.accept (titledContract title) = .ok () := by
  have hrepo : "0" ≠ "" ∧ (none : Option String) ≠ some "" := by decide
  have hmoment : Moment.isStrictText (Moment.toText ⟨1483228799, 0⟩) = true := by decide
  have hids : ["PY-FMT-001", "TS-IMPORT-002"].Nodup := by decide
  exact ContractSchema.accept_eq_ok_iff.2 (violations_standard_eq_nil rfl hrepo hmoment h hids)

theorem ordered_titledContract (title : String) :
    ordered (titledContract title) = (titledContract title).rules := by
  have hids : "PY-FMT-001" ≤ "TS-IMPORT-002" := by decide
  refine List.mergeSort_of_pairwise (List.pairwise_cons.2 ⟨?_, List.pairwise_singleton _ _⟩)
  exact List.forall_mem_singleton.2 (decide_eq_true hids)

theorem isEnforced_titledRule (id title : String) :
    isEnforced (titledRule id title 1.0) = true ∧ isEnforced (titledRule id title 0.25) = false := by
  have hconfidence : decide (enforcedConfidence ≤ 1.0) = true ∧
      decide (enforcedConfidence ≤ 0.25) = false := by decide
  exact hconfidence

theorem enforced_titledContract (title : String) :
    enforced (titledContract title) = [titledRule "PY-FMT-001" title 1.0] := by
  rw [enforced, ordered_titledContract]
  simp [titledContract, isEnforced_titledRule]

theorem candidates_titledContract (title : String) :
    candidates (titledContract title) = [titledRule "TS-IMPORT-002" "Imports" 0.25] := by
  rw [candidates, ordered_titledContract]
  simp [titledContract, isEnforced_titledRule]

theorem headings_render_titled :
    ContractSchema.bundled = .ok ContractSchema.standard ∧
      ContractSchema.standard.accept (titledContract "Black\n#1 formatter") = .ok () ∧
      Flat "c.yaml" ∧
      marked "## " (render (titledContract "Black\n#1 formatter") "c.yaml") = sectionHeadings ∧
      marked "### " (render (titledContract "Black\n#1 formatter") "c.yaml") =
        ["### PY-FMT-001: Black"] := by
  have haccept : ContractSchema.standard.accept (titledContract "Black\n#1 formatter") = .ok () :=
    accept_titledContract (by decide)
  have hsource : Flat "c.yaml" := by decide
  obtain ⟨-, -, -, -, -, hiff⟩ := headings_render ContractSchema.bundled_eq haccept hsource
  rw [contractTexts, enforced_titledContract, candidates_titledContract] at hiff
  obtain ⟨hsections, hrules⟩ := hiff.2 (by decide +kernel)
  exact ⟨ContractSchema.bundled_eq, haccept, hsource, hsections, hrules.trans (by decide)⟩

theorem ruleTitle_mem_guideLines {r : Rule} (h : r ∈ enforced c) (source : String) :
    ruleTitle r ∈ guideLines c source := by
  have htitle : ruleTitle r ∈ enforcedLines (enforced c) :=
    List.mem_append_right _ (List.mem_flatMap.2 ⟨r, h, by simp [ruleLines]⟩)
  simp only [guideLines, List.mem_append]
  tauto

/-- The second line of a title is a section of its own. -/
theorem title_adds_section :
    ContractSchema.bundled = .ok ContractSchema.standard ∧
      ContractSchema.standard.accept (titledContract "Black\n## Overrides") = .ok () ∧
      Flat "c.yaml" ∧
      marked "## " (render (titledContract "Black\n## Overrides") "c.yaml") ≠ sectionHeadings := by
  have haccept : ContractSchema.standard.accept (titledContract "Black\n## Overrides") = .ok () :=
    accept_titledContract (by decide)
  have hsource : Flat "c.yaml" := by decide
  refine ⟨ContractSchema.bundled_eq, haccept, hsource, fun heq => ?_⟩
  rw [render_eq, (outline_guideLines _ hsource).marked_section_eq_iff] at heq
  have hmem : titledRule "PY-FMT-001" "Black\n## Overrides" 1.0 ∈
      enforced (titledContract "Black\n## Overrides") := by
    rw [enforced_titledContract]
    exact List.mem_singleton_self _
  exact heq _ (ruleTitle_mem_guideLines hmem _) (by decide)

end Guide

end StyleContract
