import StyleContract.Proofs.Json.Depth
import StyleContract.Proofs.Signal.Sources
import StyleContract.Proofs.Verification.Suggestion

/-!
# Proofs — Verification — Strict mode

Two readers look at the configuration of the compiler: a scanner tells that strict mode is on, and a rule
suggests to turn it on. Both read a plain configuration (`Configures`) by the same member of a member, so
**one of them speaks if and only if the other does not** (`strict_mode_agrees`).

What is suggested is read back as the document that it was printed from: setting strict mode nests no
deeper than a text may, and brings no name twice into an object (`Configures.read_strict`). So it is the document
as it was but for that one member, and the scanner tells of it.
-/

namespace StyleContract

open Json
open Document (bind_eq_ok_iff map_eq_ok_iff)

variable {tree after : Entry} {root text : String} {most : Option Nat} {signals : List Signal}

theorem Entry.isFile_of_readText {path : String} (h : tree.readText path = .ok text) :
    tree.isFile path = true := by
  obtain ⟨e, hfind, htext⟩ := bind_eq_ok_iff.1 h
  rw [isFile, hfind]
  cases e with
  | file => rfl
  | folder | link => cases htext

namespace Configuration

theorem fromFile_of_readText {name : String} (read : String → Option Signal)
    (h : tree.readText (Path.join root name) = .ok text) :
    fromFile tree root name read = .ok (read text).toList := by
  rw [fromFile, optionalText, if_pos (Entry.isFile_of_readText h), h]
  rfl

/-- **A scan tells that strict mode is on** if the text of the configuration says so. -/
theorem exists_strict_signal_iff (h : scanner.scan tree root most = .ok signals)
    (hread : tree.readText (Path.join root "tsconfig.json") = .ok text) :
    (∃ s ∈ signals, s.kind = Signal.tsconfigStrictKind) ↔ (strictLine? text).isSome := by
  constructor
  · have hlength : Signal.blackLineLengthKind ≠ Signal.tsconfigStrictKind := by decide
    have hprettier : Signal.prettierPresentKind ≠ Signal.tsconfigStrictKind := by decide
    rintro ⟨s, hs, hkind⟩
    rcases mem_scan h hs with ⟨_, _, _, -, -, -, rfl⟩ | ⟨text', line, -, hread', hline, -⟩ |
      ⟨_, -, -, rfl⟩
    · exact absurd hkind hlength
    · cases hread.symm.trans hread'
      rw [hline]
      rfl
    · exact absurd hkind hprettier
  · intro hline
    obtain ⟨line, hline⟩ := Option.isSome_iff_exists.1 hline
    obtain ⟨lengths, -, h⟩ := bind_eq_ok_iff.1 h
    obtain ⟨strict, hstrict, h⟩ := bind_eq_ok_iff.1 h
    cases h
    rw [fromFile_of_readText _ hread, hline] at hstrict
    cases hstrict
    exact ⟨_, List.mem_append_left _ (List.mem_append_right _ List.mem_cons_self), rfl⟩

/-- In plain JSON, strict mode is told by the document. -/
theorem isSome_strictLine?_of_read {document : Json} (h : Json.read text = .ok document) :
    (strictLine? text).isSome ↔ document.HasStrict := by
  rw [strictLine?, h, hasStrict_iff_get]
  dsimp only
  split <;> simp [*]

end Configuration

namespace Suggestion

variable {r : Rule} {document : Json} {members options : Members}

/-- A text is plain JSON with an object at its root, and with an object, if anything, as the options of
the compiler. -/
structure Configures (text : String) (members options : Members) : Prop where
  read : Json.read text = .ok (.obj members)
  options : Members.get? "compilerOptions" members = some (.obj options) ∨
    Members.get? "compilerOptions" members = none ∧ options = []

theorem Configures.getD (h : Configures text members options) :
    (Members.get? "compilerOptions" members).getD (.obj []) = .obj options := by
  rcases h.options with hoptions | ⟨hoptions, rfl⟩
  · rw [hoptions, Option.getD_some]
  · rw [hoptions, Option.getD_none]

/-- The members of a configuration with strict mode on. -/
def strictMembers (members options : Members) : Members :=
  members.put "compilerOptions" (.obj (options.put "strict" (.bool true)))

theorem Configures.strictText? (h : Configures text members options) :
    strictText? text =
      if Members.get? "strict" options = some (.bool true) then none
      else some ((Json.obj (strictMembers members options)).pretty ++ "\n") := by
  rw [Suggestion.strictText?, h.read]
  simp only [withStrict?, members?, Option.bind_eq_bind, Option.bind_some, h.getD]
  split <;> rfl

/-- Where there is no place for strict mode, nothing is suggested. -/
theorem strictText?_eq_none (h : ∀ members options, ¬ Configures text members options) :
    strictText? text = none := by
  rw [strictText?]
  split
  · next document hread =>
    rw [Option.map_eq_none_iff, withStrict?]
    cases document with
    | obj members =>
        cases hget : Members.get? "compilerOptions" members with
        | none => exact absurd ⟨hread, .inr ⟨hget, rfl⟩⟩ (h members [])
        | some o =>
            cases o with
            | obj options => exact absurd ⟨hread, .inl hget⟩ (h members options)
            | null | bool | num | str | arr => simp [members?, hget]
    | null | bool | num | str | arr => rfl
  · rfl

theorem Configures.isSome_strictLine? (h : Configures text members options) :
    (Configuration.strictLine? text).isSome ↔ Members.get? "strict" options = some (.bool true) := by
  rw [Configuration.isSome_strictLine?_of_read h.read, HasStrict]
  rcases h.options with hoptions | ⟨hoptions, rfl⟩
  · simp [Json.get?, hoptions]
  · have hnone : Members.get? "strict" [] = none := rfl
    simp [Json.get?, hoptions, hnone]

/-! ### What is suggested -/

/-- **A configuration with strict mode on is read back as such**, if its numbers are. -/
theorem Configures.read_strict (h : Configures text members options)
    (hnumbers : (Json.obj members).NumbersReadBack) :
    Json.read ((Json.obj (strictMembers members options)).pretty ++ "\n") =
      .ok (.obj (strictMembers members options)) := by
  obtain ⟨raw, hraw, hmerged⟩ := map_eq_ok_iff.1 h.read
  obtain ⟨depth, hnumbers⟩ := hnumbers
  have hnests : Nests Number.ReadsBack maxDepth (.obj members) :=
    hnumbers.within (hmerged ▸ (nests_of_readRaw hraw).merged)
  have hsettled : (Json.obj members).merged = .obj members := by
    rw [← hmerged, merged_merged]
  have hoptions : Nests Number.ReadsBack 126 (.obj options) ∧
      (Json.obj options).merged = .obj options := by
    rcases h.options with hoptions | ⟨-, rfl⟩
    · obtain ⟨m, hm, heq⟩ := Members.mem_of_get? hoptions
      cases hnests with
      | obj hnests => exact ⟨heq ▸ hnests m hm, heq ▸ (merged_obj_eq_iff.1 hsettled).2 m hm⟩
    · exact ⟨.obj (List.forall_mem_nil _), rfl⟩
  refine read_pretty (.put ?_ hnests) (merged_put hsettled (merged_put hoptions.2 rfl))
  exact .put (.bool true) hoptions.1

/-- What a rule about strict mode suggests for a text. -/
theorem forRule_strict (hr : r.id = "TS-TYPE-003")
    (hread : tree.readText (Path.join root tsconfigFile) = .ok text) :
    forRule tree root r = .ok ((strictText? text).map fun after =>
      ⟨r.id, tsconfigFile, "Enable compilerOptions.strict", some text, after⟩) := by
  have hne : ¬ r.id = "PY-FMT-001" := by
    rw [hr]
    decide
  rw [forRule, if_neg hne, if_pos hr, forStrict, optionalText, hread]
  rfl

/-- **Scanner and suggestion agree about strict mode.** A rule about it suggests something for a plain
configuration if and only if no signal of a scan tells that it is on, and nothing for any other text. What
it suggests is read as the same document but for that member, if its numbers are read back, and a scan of
it tells that strict mode is on. -/
theorem strict_mode_agrees (hr : r.id = "TS-TYPE-003")
    (hread : tree.readText (Path.join root tsconfigFile) = .ok text) :
    ∃ suggested, forRule tree root r = .ok suggested ∧
      ((∀ members options, ¬ Configures text members options) → suggested = none) ∧
      ∀ members options, Configures text members options →
        (∀ most signals, Configuration.scanner.scan tree root most = .ok signals →
          (suggested.isSome ↔ ∀ s ∈ signals, s.kind ≠ Signal.tsconfigStrictKind)) ∧
        ∀ s, suggested = some s →
          s.path = tsconfigFile ∧ s.before = some text ∧
          ((Json.obj members).NumbersReadBack →
            (∃ members' options', Json.read s.after = .ok (.obj members') ∧
              Members.Sets "strict" (.bool true) options options' ∧
              Members.Sets "compilerOptions" (.obj options') members members') ∧
            ∀ after root most signals,
              after.readText (Path.join root tsconfigFile) = .ok s.after →
              Configuration.scanner.scan after root most = .ok signals →
              ∃ signal ∈ signals, signal.kind = Signal.tsconfigStrictKind) := by
  refine ⟨_, forRule_strict hr hread, fun h => ?_, fun members options h => ⟨?_, ?_⟩⟩
  · rw [strictText?_eq_none h, Option.map_none]
  · intro most signals hscan
    have hsignal := Configuration.exists_strict_signal_iff hscan hread
    rw [h.isSome_strictLine?] at hsignal
    rw [Option.isSome_map, h.strictText?]
    constructor
    · intro hsome s hs hkind
      rw [if_pos (hsignal.1 ⟨s, hs, hkind⟩)] at hsome
      cases hsome
    · intro hnone
      have hlax : ¬ Members.get? "strict" options = some (.bool true) := fun hstrict => by
        obtain ⟨s, hs, hkind⟩ := hsignal.2 hstrict
        exact hnone s hs hkind
      rw [if_neg hlax, Option.isSome_some]
  · intro s hs
    obtain ⟨after, hafter, rfl⟩ := Option.map_eq_some_iff.1 hs
    rw [h.strictText?] at hafter
    obtain ⟨-, hafter⟩ := Option.ite_none_left_eq_some.1 hafter
    cases hafter
    refine ⟨rfl, rfl, fun hnumbers => ⟨⟨_, _, h.read_strict hnumbers, Members.sets_put _ _ _,
      Members.sets_put _ _ _⟩, fun after root most signals hread' hscan => ?_⟩⟩
    have hstrict : Configures ((Json.obj (strictMembers members options)).pretty ++ "\n")
        (strictMembers members options) (options.put "strict" (.bool true)) :=
      ⟨h.read_strict hnumbers, .inl (Members.get?_put_self _ _ _)⟩
    rw [Configuration.exists_strict_signal_iff hscan hread', hstrict.isSome_strictLine?]
    exact Members.get?_put_self _ _ _

/-- A configuration that says twice, and in two ways, that strict mode is off. -/
def unsureText : String :=
  "\x7b\"extends\": \"base\", \"compilerOptions\": \x7b\"strict\": false, \"lib\": [5], " ++
    "\"strict\": \"no\"\x7d, \"files\": []\x7d"

/-- The options of that configuration: the last value counts, at the first place. -/
def unsureOptions : Members := [("strict", .str "no"), ("lib", .arr [.num (.int 5)])]

def unsureMembers : Members :=
  [("extends", .str "base"), ("compilerOptions", .obj unsureOptions), ("files", .arr [])]

def unsureTree : Entry := .folder [("tsconfig.json", .file unsureText.toUTF8)]

theorem configures_unsureText : Configures unsureText unsureMembers unsureOptions :=
  ⟨Store.eq_ok_of_toOption (by decide +kernel), .inl rfl⟩

theorem numbersReadBack_unsureMembers : (Json.obj unsureMembers).NumbersReadBack := by
  have hlib : Nests Number.ReadsBack 1 (.arr [.num (.int 5)]) :=
    .arr (List.forall_mem_singleton.2 (.num (readsBack_natural (by decide))))
  have hoptions : Nests Number.ReadsBack 2 (.obj unsureOptions) :=
    .obj (List.forall_mem_cons.2 ⟨.str _, List.forall_mem_singleton.2 hlib⟩)
  have hfiles : Nests Number.ReadsBack 2 (.arr []) := .arr (List.forall_mem_nil _)
  exact ⟨3, .obj (List.forall_mem_cons.2 ⟨.str _, List.forall_mem_cons.2 ⟨hoptions,
    List.forall_mem_singleton.2 hfiles⟩⟩)⟩

theorem strict_mode_agrees_unsure :
    strictRule.id = "TS-TYPE-003" ∧
      unsureTree.readText (Path.join "." tsconfigFile) = .ok unsureText ∧
      Configuration.scanner.scan unsureTree "." none = .ok [] ∧
      ∃ s, forRule unsureTree "." strictRule = .ok (some s) ∧
        ∃ members' options', Json.read s.after = .ok (.obj members') ∧
          Members.Sets "strict" (.bool true) unsureOptions options' ∧
          Members.Sets "compilerOptions" (.obj options') unsureMembers members' := by
  have hread : unsureTree.readText (Path.join "." tsconfigFile) = .ok unsureText :=
    Store.eq_ok_of_toOption (by decide)
  have hscan : Configuration.scanner.scan unsureTree "." none = .ok [] :=
    Store.eq_ok_of_toOption (by decide +kernel)
  obtain ⟨suggested, hrule, -, hplain⟩ := strict_mode_agrees (r := strictRule) rfl hread
  obtain ⟨hagree, hsame⟩ := hplain _ _ configures_unsureText
  have hsome : suggested.isSome := (hagree none [] hscan).2 (List.forall_mem_nil _)
  obtain ⟨s, rfl⟩ := Option.isSome_iff_exists.1 hsome
  obtain ⟨-, -, hback⟩ := hsame s rfl
  exact ⟨rfl, hread, hscan, s, hrule, (hback numbersReadBack_unsureMembers).1⟩

end Suggestion

end StyleContract
