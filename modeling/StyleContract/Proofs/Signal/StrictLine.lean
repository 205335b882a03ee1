import StyleContract.Proofs.Json.Comments
import StyleContract.Proofs.Pattern.All
import StyleContract.Proofs.Verification.StrictMode

/-!
# Proofs — Signal — Strict line

What is told about strict mode for a configuration with comments and trailing commas. Such a text is no plain
JSON, so it is searched for a place that looks like the setting (`LooksStrict`), and the document is not asked.

**Such a place is in a comment, or in a string, or at a member of some object** (`strict_told_of_cleaned`). The last
is told by the cleaned text: what stands between its strings and looks like the setting is read as a name and
its value (`hasMember_of_settings`). Only a member of one object is the setting, and so one that is commented out is
taken for one that is made (`disabled_setting_cited`). In plain JSON the document decides.
-/

namespace StyleContract.Configuration

open Json Pattern

variable {text s : String} {raw w : Json} {o p q r u : List Char} {depth : Nat}

/-! ### What looks like the setting -/

/-- The name of the setting and its value, with blanks of any kind around the colon. -/
def settings : Language Char :=
  {"\"strict\"".toList} * (run .blank * ({":".toList} * (run .blank * {"true".toList})))

theorem takes_strictPattern : strictPattern.Takes settings :=
  (takes_literal _).seq (takes_star_one.seq ((takes_literal _).seq (takes_star_one.seq (takes_literal _))))

/-- The characters of the name. -/
def letters : List Char := ['s', 't', 'r', 'i', 'c', 't']

theorem exists_blanks (h : o ∈ settings) : ∃ before behind,
    o = '"' :: (letters ++ '"' :: (before ++ ':' :: (behind ++ ['t', 'r', 'u', 'e']))) ∧
      (∀ c ∈ before, Text.isBlank c = true) ∧ ∀ c ∈ behind, Text.isBlank c = true := by
  obtain ⟨_, rfl, _, h₁, rfl⟩ := Language.mem_mul.1 h
  obtain ⟨before, hbefore, _, h₂, rfl⟩ := Language.mem_mul.1 h₁
  obtain ⟨_, rfl, _, h₃, rfl⟩ := Language.mem_mul.1 h₂
  obtain ⟨behind, hbehind, _, rfl, rfl⟩ := Language.mem_mul.1 h₃
  exact ⟨before, behind, rfl, hbefore, hbehind⟩

theorem not_mem_of_settings (h : o ∈ settings) : '/' ∉ o ∧ ',' ∉ o := by
  obtain ⟨before, behind, rfl, hbefore, hbehind⟩ := exists_blanks h
  have hblanks : ∀ bs : List Char, (∀ c ∈ bs, Text.isBlank c = true) → '/' ∉ bs ∧ ',' ∉ bs := fun bs hbs =>
    ⟨fun h => absurd (hbs _ h) (by decide), fun h => absurd (hbs _ h) (by decide)⟩
  obtain ⟨hslash, hcomma⟩ := hblanks before hbefore
  obtain ⟨hslash', hcomma'⟩ := hblanks behind hbehind
  exact ⟨by simp [letters, hslash, hslash'], by simp [letters, hcomma, hcomma']⟩

/-- Behind some characters of a text stands what looks like the setting. -/
def LooksStrict (text : String) (u : List Char) : Prop :=
  ∃ o ∈ settings, ∃ v, text.toList = u ++ (o ++ v)

/-! ### In a document -/

theorem eq_true_of_value (h : value depth ('t' :: 'r' :: 'u' :: 'e' :: q) = .ok (w, r)) : w = .bool true := by
  obtain ⟨inner, hinner, -⟩ := exists_inner depth
  have hword : valueWith inner ('t' :: 'r' :: 'u' :: 'e' :: q) =
      word ['r', 'u', 'e'] (.bool true) ('r' :: 'u' :: 'e' :: q) := rfl
  rw [hinner, hword] at h
  exact word_eq_ok h

theorem stringBody_letters (cs : List Char) : stringBody (letters ++ '"' :: cs) = .ok (letters, cs) := by
  have hself : letters.flatMap escapeChar = letters := by decide
  have hbody : stringBody (letters.flatMap escapeChar ++ '"' :: cs) = .ok (letters, cs) :=
    stringBody_escaped letters
  rwa [hself] at hbody

/-- **What looks like the setting is a member**, if it begins between the strings of a document. -/
theorem hasMember_of_settings (h : readRaw s = .ok raw) (hs : s.toList = p ++ (o ++ q))
    (hcode : Mode.code.run p = .code) (ho : o ∈ settings) : HasMember "strict" (.bool true) raw := by
  obtain ⟨before, behind, rfl, hbefore, hbehind⟩ := exists_blanks ho
  let truth := 't' :: 'r' :: 'u' :: 'e' :: q
  have hquoted : Mode.code.run (p ++ '"' :: (letters ++ ['"'])) = .code := by
    rw [Mode.run_append, hcode]
    rfl
  have hspaces : ∀ c ∈ before, isSpace c = true :=
    forall_isSpace_of_readRaw h (b := ':' :: (behind ++ truth)) (by simp [hs, truth]) hquoted hbefore
  have hcolon : Mode.code.run (p ++ '"' :: (letters ++ ['"']) ++ (before ++ [':'])) = .code := by
    rw [Mode.run_append, hquoted, Mode.run_append, run_plain (isPlain_of_forall_isSpace hspaces)]
    rfl
  have hspaces' : ∀ c ∈ behind, isSpace c = true :=
    forall_isSpace_of_readRaw h (b := truth) (by simp [hs, truth]) hcolon hbehind
  have hplace : s.toList = p ++ '"' :: (letters ++ '"' :: (before ++ ':' :: (behind ++ truth))) := by
    simp [hs, truth]
  obtain ⟨depth, w, rest, hw, hhas⟩ := hasMember_of_readRaw h hplace hcode (stringBody_letters _)
    ((skipSpace_append hspaces).trans (skipSpace_of_not_isSpace (by decide)))
  have hname : String.ofList letters = "strict" := rfl
  rw [value_append hspaces'] at hw
  rwa [hname, eq_true_of_value hw] at hhas

/-! ### In a text with comments -/

/-- **Where a text looks like strict mode**: in a comment, in a string, or at a member of its document. -/
theorem place_of_looksStrict (h : readRaw (cleaned text) = .ok raw) (hu : LooksStrict text u) :
    (Scan.start.run u).Commented ∨ (Scan.start.run u).Quoted ∨ HasMember "strict" (.bool true) raw := by
  obtain ⟨o, ho, v, htext⟩ := hu
  obtain ⟨hslash, hcomma⟩ := not_mem_of_settings ho
  cases hrun : Scan.start.run u with
  | line => exact .inl (.inl rfl)
  | block => exact .inl (.inr (.inl rfl))
  | star => exact .inl (.inr (.inr rfl))
  | slash =>
      -- a slash that begins no comment is left, and no document has one
      obtain ⟨before, behind, rfl, -, -⟩ := exists_blanks ho
      obtain ⟨p', q', hcleaned, hcode⟩ := exists_cleaned_slash htext hrun (by decide) (by decide)
      exact absurd rfl (ne_slash_of_readRaw h hcleaned hcode)
  | plain m =>
      cases m with
      | text => exact .inr (.inl (.inl rfl))
      | escape => exact .inr (.inl (.inr rfl))
      | code =>
          obtain ⟨p', q', hcleaned, hcode⟩ := exists_cleaned htext hrun hslash hcomma
          exact .inr (.inr (hasMember_of_settings h hcleaned hcode ho))

/-- A text that is no plain JSON is searched. -/
theorem strictLine?_of_error {e : ReadError} (h : Json.read text = .error e) :
    strictLine? text = (strictPattern.find? text.toList).map fun m => Text.lineOfPlace text.toList m.start := by
  rw [strictLine?, h]

theorem looksStrict_of_strictLine? {e : ReadError} {line : UInt32} (h : Json.read text = .error e)
    (hline : strictLine? text = some line) :
    ∃ u, LooksStrict text u ∧ line = Text.lineOfPlace text.toList u.length := by
  rw [strictLine?_of_error h] at hline
  obtain ⟨m, hm, rfl⟩ := Option.map_eq_some_iff.1 hline
  obtain ⟨o, ho, u, v, htext, hstart⟩ := takes_strictPattern.exists_of_find? hm
  exact ⟨u, ⟨o, ho, v, htext⟩, by rw [hstart]⟩

theorem isSome_of_looksStrict {e : ReadError} (h : Json.read text = .error e) (hu : LooksStrict text u) :
    (strictLine? text).isSome := by
  obtain ⟨o, ho, v, htext⟩ := hu
  rw [strictLine?_of_error h, Option.isSome_map, htext]
  exact takes_strictPattern.isSome_find? ho u v

/-- **What is told of strict mode where a text is JSON but for comments and trailing commas.** In plain JSON,
it is on if and only if the document says so. In any other such text, it is on if and only if some place looks
like the setting, be it in a comment, in a string or at a member of any object. -/
theorem strict_told_of_cleaned (h : readRaw (cleaned text) = .ok raw) :
    (∀ document, Json.read text = .ok document →
      document = raw.merged ∧ ((strictLine? text).isSome ↔ raw.merged.HasStrict)) ∧
    ∀ e, Json.read text = .error e →
      (∀ line, strictLine? text = some line →
        ∃ u, LooksStrict text u ∧ line = Text.lineOfPlace text.toList u.length) ∧
      ∀ u, LooksStrict text u → (strictLine? text).isSome ∧
        ((Scan.start.run u).Commented ∨ (Scan.start.run u).Quoted ∨
          HasMember "strict" (.bool true) raw) := by
  refine ⟨fun document hread => ?_, fun e hread => ⟨fun line hline => looksStrict_of_strictLine? hread hline,
    fun u hu => ⟨isSome_of_looksStrict hread hu, place_of_looksStrict h hu⟩⟩⟩
  obtain ⟨raw', hraw', rfl⟩ := Document.map_eq_ok_iff.1 hread
  rw [cleaned_of_readRaw hraw'] at h
  cases h.symm.trans hraw'
  exact ⟨rfl, isSome_strictLine?_of_read hread⟩

/-- A configuration in which another object has a member of that name, and a comma trails behind it. -/
def nestedText : String := "\x7b\"tool\": \x7b\"strict\": true\x7d,\x7d"

def nested : Json := .obj [("tool", .obj [("strict", .bool true)])]

theorem looksStrict_nestedText : LooksStrict nestedText "\x7b\"tool\": \x7b".toList := by
  have hblank : [' '] ∈ run .blank := List.forall_mem_singleton.2 (by decide)
  exact ⟨_, Language.mem_mul.2 ⟨_, rfl, _, Language.mem_mul.2 ⟨[], List.forall_mem_nil _, _,
    Language.mem_mul.2 ⟨_, rfl, _, Language.mem_mul.2 ⟨_, hblank, _, rfl, rfl⟩, rfl⟩, rfl⟩, rfl⟩,
    "\x7d,\x7d".toList, by decide +kernel⟩

theorem strict_told_of_cleaned_nested :
    readRaw (cleaned nestedText) = .ok nested ∧ Json.read nestedText = .error .malformed ∧
      ¬ nested.merged.HasStrict ∧ (strictLine? nestedText).isSome ∧
      ((Scan.start.run "\x7b\"tool\": \x7b".toList).Commented ∨
        (Scan.start.run "\x7b\"tool\": \x7b".toList).Quoted ∨ HasMember "strict" (.bool true) nested) := by
  have hcleaned : readRaw (cleaned nestedText) = .ok nested := by decide +kernel
  have hread : Json.read nestedText = .error .malformed := by decide +kernel
  refine ⟨hcleaned, hread, ?_, ((strict_told_of_cleaned hcleaned).2 _ hread).2 _ looksStrict_nestedText⟩
  rw [hasStrict_iff_get]
  decide +kernel

/-- A configuration whose setting is commented out. -/
def disabledText : String :=
  "\x7b\n  // \"strict\": true\n  \"compilerOptions\": \x7b\x7d\n\x7d"

def disabled : Json := .obj [("compilerOptions", .obj [])]

/-- **What is commented out is cited.** -/
theorem disabled_setting_cited : readRaw (cleaned disabledText) = .ok disabled ∧ ¬ disabled.merged.HasStrict ∧
    strictLine? disabledText = some 2 := by
  refine ⟨by decide +kernel, ?_, by decide +kernel⟩
  rw [hasStrict_iff_get]
  decide +kernel

end StyleContract.Configuration
