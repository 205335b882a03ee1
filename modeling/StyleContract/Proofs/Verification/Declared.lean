import StyleContract.Proofs.Synthesis.Table
import StyleContract.Proofs.Verification.LineLength

/-!
# Proofs — Verification — Declared

The way of a declared line length from a signal to a suggestion. The rule of the signal names the length
in its repair, as the number behind a flag, and a suggestion looks for that flag. No hyphen stands before
the flag, so the first place where a search can stop is the flag itself (`groupIn?_flag`), and the digits
behind it are the printed number (`lineLength?_of_autofix`).

Hence **a declared line length is suggested as it was declared**, if it fits 32 bits
(`declared_length_suggested`).
-/

namespace StyleContract

namespace Pattern

variable {before rest : List Char} {groups : List (Nat × Nat × Nat)}

/-- What begins with a literal is taken in one way. -/
theorem outcomes_literal (s : String) :
    (literal s).outcomes ⟨before, s.toList ++ rest, groups⟩ =
      [⟨s.toList.reverse ++ before, rest, groups⟩] := by
  rw [literal]
  induction s.toList generalizing before with
  | nil => rfl
  | cons x xs ih =>
      have hx : (CharSet.only x).has x = true := beq_self_eq_true x
      rw [List.foldr_cons, List.cons_append, outcomes, outcomes_one_cons, if_pos hx,
        List.flatMap_singleton, ih, List.reverse_cons, List.append_assoc, List.singleton_append]

/-- What begins with another character than a literal is not taken. -/
theorem outcomes_literal_of_ne {s : String} {x y : Char} {xs : List Char} (hs : s.toList = x :: xs)
    (h : y ≠ x) : (literal s).outcomes ⟨before, y :: rest, groups⟩ = [] := by
  have hy : ¬ (CharSet.only x).has y = true := by simpa [CharSet.has] using h
  rw [literal, hs, List.foldr_cons, outcomes, outcomes_one_cons, if_neg hy, List.flatMap_nil]

/-- A search passes the characters at which there is no match. -/
theorem searchFrom_append {p : Pattern} {skipped : List Char} {d : Cursor}
    (hnone : ∀ before, ∀ x ∈ skipped, ∀ more, p.matchAt ⟨before, x :: more, []⟩ = none)
    (h : p.matchAt ⟨skipped.reverse ++ before, rest, []⟩ = some d) :
    p.searchFrom before (skipped ++ rest) = some (⟨skipped.reverse ++ before, rest, []⟩, d) := by
  refine searchFrom_eq_some_iff.2 ⟨skipped, rfl, rfl, h, fun u v huv hv => ?_⟩
  obtain ⟨x, xs, rfl⟩ := List.exists_cons_of_ne_nil hv
  exact hnone _ x (by rw [huv]; simp) _

end Pattern

namespace Suggestion

open Pattern

variable {lead digits tail : List Char} {n : Nat} {s : Signal} {r : Rule}

/-! ### The flag of a command -/

theorem flagPattern_eq :
    flagPattern = .seq (literal "--line-length")
      (.seq (.one (.of ['=', ' '])) (.group 1 (plus (.one .decimal)))) := rfl

theorem matchAt_flag_of_ne {before more : List Char} {x : Char} (h : x ≠ '-') :
    flagPattern.matchAt ⟨before, x :: more, []⟩ = none := by
  have hhead : "--line-length".toList = '-' :: "-line-length".toList := rfl
  rw [matchAt, flagPattern_eq, outcomes, outcomes_literal_of_ne hhead h]
  rfl

/-- A flag takes a blank and the longest number behind it. -/
theorem matchAt_flag {before : List Char} (hne : digits ≠ [])
    (hdigits : ∀ c ∈ digits, Text.isDecimal c = true)
    (htail : tail.head?.all fun c => !Text.isDecimal c) :
    flagPattern.matchAt ⟨before, "--line-length".toList ++ ' ' :: (digits ++ tail), []⟩ =
      some ⟨digits.reverse ++ ("--line-length ".toList.reverse ++ before), tail,
        [(1, before.length + 14, digits.length + (before.length + 14))]⟩ := by
  have hblank : (Pattern.one (.of ['=', ' '])).outcomes
      ⟨"--line-length".toList.reverse ++ before, ' ' :: (digits ++ tail), []⟩ =
        [⟨"--line-length ".toList.reverse ++ before, digits ++ tail, []⟩] := rfl
  have hfirst : (digits ++ tail).head?.any (CharSet.has .decimal) = true := by
    obtain ⟨x, xs, rfl⟩ := List.exists_cons_of_ne_nil hne
    exact hdigits x List.mem_cons_self
  have htake : (digits ++ tail).takeWhile (CharSet.has .decimal) = digits :=
    Text.takeWhile_append_of_head hdigits htail
  have hdrop : (digits ++ tail).dropWhile (CharSet.has .decimal) = tail :=
    Text.dropWhile_append_of_head hdigits htail
  rw [matchAt, flagPattern_eq, outcomes, outcomes_literal, List.flatMap_singleton, outcomes, hblank,
    List.flatMap_singleton, head?_outcomes_group_plus, if_pos hfirst, htake, hdrop]
  rfl

/-- **The number of a flag**, if no hyphen stands before it. -/
theorem groupIn?_flag {text : String} (hlead : ∀ c ∈ lead, c ≠ '-') (hne : digits ≠ [])
    (hdigits : ∀ c ∈ digits, Text.isDecimal c = true)
    (htail : tail.head?.all fun c => !Text.isDecimal c)
    (htext : text.toList = lead ++ ("--line-length".toList ++ ' ' :: (digits ++ tail))) :
    groupIn? flagPattern 1 text = some digits := by
  have hmatch := @matchAt_flag _ _ (lead.reverse ++ []) hne hdigits htail
  have hsearch := searchFrom_append (fun _ x hx _ => matchAt_flag_of_ne (hlead x hx)) hmatch
  have hslice : slice text.toList (lead.length + 14) (digits.length + (lead.length + 14)) = digits := by
    have hparts : text.toList = (lead ++ "--line-length ".toList) ++ (digits ++ tail) := by
      rw [htext, List.append_assoc]
      rfl
    have hlength : (lead ++ "--line-length ".toList).length = lead.length + 14 := List.length_append
    rw [hparts, ← hlength, Nat.add_comm digits.length, slice_append]
  rw [groupIn?, find?, htext, hsearch, ← htext]
  simpa [Match.between, Match.group?] using hslice

/-! ### The rule of a declaration -/

/-- A rule that repairs by a command with a flag names the number of the flag, if it fits 32 bits. -/
theorem lineLength?_of_autofix {f : Autofix} (hr : r.autofix = some f)
    (hf : f.details = "black --line-length " ++ toString n ++ " .") :
    lineLength? r = if n < twoTo 32 then some n else none := by
  have hdetails : f.details.toList = "black ".toList ++
      ("--line-length".toList ++ ' ' :: (Nat.toDigits 10 n ++ " .".toList)) := by
    rw [hf, String.toList_append, String.toList_append, toList_toString]
    simp
  have hlead : ∀ c ∈ "black ".toList, c ≠ '-' := by simp
  have hflag : groupIn? flagPattern 1 f.details = some (Nat.toDigits 10 n) :=
    groupIn?_flag hlead Nat.toDigits_ne_nil
      (fun c hc => Text.isDecimal_of_isDigit (Text.isDigit_of_mem_toDigits hc)) rfl hdetails
  rw [lineLength?, hr, Option.bind_some, hflag, Option.some_or, Option.bind_some, natural32?,
    Text.natural?_toDigits, Option.filter_some]
  simp only [decide_eq_true_eq]

theorem positive?_eq_some_iff : Projection.positive? s = some n ↔ 0 < n ∧ s.value = Json.ofNat n := by
  rw [Projection.positive?, Option.filter_eq_some_iff, decide_eq_true_iff, and_comm]
  refine and_congr_right fun _ => ⟨fun h => ?_, fun h => by simp [h, Json.ofNat, Json.nat?]⟩
  unfold Json.nat? at h
  split at h
  · next k hk =>
    obtain ⟨hpos, hn⟩ := Option.ite_none_right_eq_some.1 h
    rw [hk, Json.ofNat, ← Option.some.inj hn, Int.toNat_of_nonneg hpos]
  · cases h

theorem ruleOf?_lineLength (h : s.kind = Signal.blackLineLengthKind) :
    Projector.standard.ruleOf? s = Projection.black s := by
  have hrow : Projection.table.find? (·.kind == s.kind) =
      some ⟨Signal.blackLineLengthKind, "PY-FMT-001", Projection.black⟩ := by
    rw [h]
    rfl
  rw [Projector.ruleOf?_eq, Projector.rows_standard, hrow, Option.bind_some]

/-- The suggestion of a line length where none is configured. -/
def newLineLengthOf (n : Nat) : Suggestion :=
  ⟨"PY-FMT-001", ruffFile, "Align ruff line-length with Black (" ++ toString n ++ ")", none,
    "line-length = " ++ toString n ++ "\n"⟩

/-- Where there is no configuration, a rule suggests one with the line length that it names. -/
theorem ofContract_of_missing {c : Contract} {tree : Entry} {root : String} (hid : r.id = "PY-FMT-001")
    (hrules : c.rules = [r])
    (hmissing : tree.readText (Path.join root ruffFile) = .error .notFound) :
    ofContract c tree root = .ok ((lineLength? r).map newLineLengthOf).toList := by
  have hbefore : optionalText tree (Path.join root ruffFile) = .ok none := by
    rw [optionalText, hmissing]
  have hrule : forRule tree root r = .ok ((lineLength? r).map newLineLengthOf) := by
    rw [forRule, if_pos hid, forLineLength]
    cases lineLength? r with
    | none => rfl
    | some n => simp only [hbefore, hid]; rfl
  rw [ofContract, hrules, List.mapM_cons, hrule]
  cases (lineLength? r).map newLineLengthOf <;> rfl

/-- **A declared line length is suggested as it was declared.** A signal of a line length gives a rule
exactly if its value is a whole number above zero. Where there is no configuration, the rule then makes
one be suggested that sets this line length and nothing else, if it fits 32 bits, and else none. -/
theorem declared_length_suggested (s : Signal) (hkind : s.kind = Signal.blackLineLengthKind) :
    (∀ n, 0 < n → s.value = Json.ofNat n →
      ∃ r, Projector.standard.project [s] = [r] ∧ r.id = "PY-FMT-001" ∧
        ∀ c tree root, c.rules = [r] →
          tree.readText (Path.join root "ruff.toml") = .error .notFound →
          ofContract c tree root = .ok (if n < twoTo 32 then
            [⟨"PY-FMT-001", "ruff.toml", "Align ruff line-length with Black (" ++ toString n ++ ")",
              none, "line-length = " ++ toString n ++ "\n"⟩] else [])) ∧
      ((∀ n, 0 < n → s.value ≠ Json.ofNat n) → Projector.standard.project [s] = []) := by
  have hproject : Projector.standard.project [s] = (Projection.black s).toList := by
    rw [Projector.project, List.filterMap_cons, ruleOf?_lineLength hkind]
    cases Projection.black s <;> rfl
  constructor
  · intro n hpos hvalue
    have hblack : Projection.black s = (some n).map _ :=
      congrArg (Option.map _) (positive?_eq_some_iff.2 ⟨hpos, hvalue⟩)
    rw [hproject, hblack]
    refine ⟨_, rfl, rfl, fun c tree root hrules hmissing => ?_⟩
    rw [ofContract_of_missing rfl hrules hmissing, lineLength?_of_autofix rfl rfl]
    split <;> rfl
  · intro hvalue
    have hnone : Projection.positive? s = none := by
      refine Option.eq_none_iff_forall_ne_some.2 fun n hn => ?_
      obtain ⟨hpos, hn⟩ := positive?_eq_some_iff.1 hn
      exact hvalue n hpos hn
    rw [hproject, Projection.black, hnone]
    rfl

/-- A signal of the greatest line length that fits 32 bits. -/
def longestSignal : Signal :=
  ⟨Signal.blackLineLengthKind, Json.ofNat 4294967295, "pyproject.toml", ⟨2, 2⟩, 1.0⟩

theorem declared_length_longest :
    longestSignal.kind = Signal.blackLineLengthKind ∧
      ∃ r, Projector.standard.project [longestSignal] = [r] ∧
        Entry.empty.readText (Path.join "." "ruff.toml") = .error .notFound ∧
        ofContract ⟨Contract.currentVersion, ⟨none, "0"⟩, ⟨0, 0⟩, [r], none⟩ .empty "." =
          .ok [⟨"PY-FMT-001", "ruff.toml", "Align ruff line-length with Black (4294967295)", none,
            "line-length = 4294967295\n"⟩] := by
  have hmissing : Entry.empty.readText (Path.join "." "ruff.toml") = .error .notFound := rfl
  obtain ⟨r, hproject, -, hsuggested⟩ :=
    (declared_length_suggested longestSignal rfl).1 4294967295 (by decide) rfl
  exact ⟨rfl, r, hproject, hmissing, hsuggested _ _ _ rfl hmissing⟩

end Suggestion

end StyleContract
