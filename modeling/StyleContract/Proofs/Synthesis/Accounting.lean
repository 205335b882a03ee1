import Mathlib.Algebra.BigOperators.Group.List.Basic
import StyleContract.Proofs.Synthesis.Extraction

/-!
# Proofs — Synthesis — Accounting

Where each candidate goes. The candidates that are proposed for a file count only if the file is
read, its reply is understood and the rules that would be kept are sound (`proposal?`); then each of
them is kept, or has too little confidence, or finds no room (`length_keptAt_add`), and otherwise the
file is one failure and nothing else (`ofFile_of_proposal?_eq_none`).

The files are those at distinct paths that are not empty (`mem_order_iff`), so what is found depends
on no more than the set of these paths (`order_congr`), and is the same sum over them in whichever
order the paths are given (`ofEach_eq`).
-/

namespace StyleContract.Extraction

variable {tree : Entry} {root : String} {config : ExtractionConfig}

/-! ### One file -/

/-- The rules that are kept of the candidates that are proposed for a file. -/
def keptRules (config : ExtractionConfig) (path text : String) (all : List Candidate) : List Rule :=
  (keptCandidates config all).map fun c => c.toRule path (Text.lineCount text)

/-- The text of a file and the candidates that are proposed for it, if nothing is wrong with them. -/
def proposal? (tree : Entry) (root : String) (config : ExtractionConfig) (oracle : Oracle)
    (path : String) : Option (String × List Candidate) :=
  match tree.readText (Path.join root path) with
  | .error _ => none
  | .ok text =>
    match candidates config (oracle.ask (question config path text)) with
    | .error _ => none
    | .ok all =>
      if (keptRules config path text all).flatMap Rule.complaints = [] then some (text, all) else none

/-- Whether a candidate has enough confidence. -/
def isConfident (config : ExtractionConfig) (c : Candidate) : Bool :=
  config.minConfidence ≤ c.confidence

theorem rulesOf_eq (path text : String) (all : List Candidate) :
    rulesOf config path text all =
      if (keptRules config path text all).flatMap Rule.complaints = [] then
        .ok ⟨keptRules config path text all, all.countP (!isConfident config ·),
          all.countP (isConfident config ·) - config.maxRulesPerFile⟩
      else
        .error ("schema-violating reply: " ++
          String.intercalate "; " ((keptRules config path text all).flatMap Rule.complaints)) := by
  have hconfident : (all.filter fun c => config.minConfidence ≤ c.confidence).length =
      all.countP (isConfident config ·) := List.countP_eq_length_filter.symm
  have hbelow : all.length - all.countP (isConfident config ·) =
      all.countP (!isConfident config ·) := by
    rw [List.length_eq_countP_add_countP (isConfident config ·), Nat.add_sub_cancel_left]
    simp
  rw [← hbelow, ← hconfident]
  unfold rulesOf
  dsimp only
  by_cases h : (keptRules config path text all).flatMap Rule.complaints = []
  · rw [if_pos h]
    split
    · rfl
    · next hne => exact absurd h hne
  · rw [if_neg h]
    split
    · next hnil => exact absurd hnil h
    · rfl

/-- **A file that is all right** brings its kept rules, and counts each candidate that it leaves
out. -/
theorem ofFile_of_proposal?_eq_some {oracle : Oracle} {path text : String} {all : List Candidate}
    (h : proposal? tree root config oracle path = some (text, all)) :
    ofFile tree root config oracle path =
      .ok ⟨keptRules config path text all, all.countP (!isConfident config ·),
        all.countP (isConfident config ·) - config.maxRulesPerFile⟩ := by
  unfold proposal? at h
  split at h
  · cases h
  · next htext =>
    split at h
    · cases h
    · next hall =>
      split at h
      · next hsound =>
        cases h
        simp only [ofFile, ofReply, htext, hall, rulesOf_eq, if_pos hsound]
      · cases h

/-- **A file with something wrong** brings a failure and nothing else: it cannot be read, or there is
no reply in time, or the reply is not understood, or a rule would not be sound. -/
theorem ofFile_of_proposal?_eq_none {oracle : Oracle} {path : String}
    (h : proposal? tree root config oracle path = none) :
    ∃ reason, ofFile tree root config oracle path = .error reason := by
  unfold proposal? at h
  split at h
  · next hread => simp [ofFile, hread]
  · next htext =>
    split at h
    · next hall => simp [ofFile, ofReply, htext, hall]
    · next hall =>
      split at h
      · cases h
      · next hsound =>
        simp only [ofFile, ofReply, htext, hall, rulesOf_eq, if_neg hsound]
        exact ⟨_, rfl⟩

/-- The rules that a file brings. -/
def keptAt (tree : Entry) (root : String) (config : ExtractionConfig) (oracle : Oracle)
    (path : String) : List Rule :=
  (proposal? tree root config oracle path).elim [] fun p => keptRules config path p.1 p.2

/-- The candidates that are proposed for a file, if nothing is wrong with them. -/
def proposedAt (tree : Entry) (root : String) (config : ExtractionConfig) (oracle : Oracle)
    (path : String) : List Candidate :=
  (proposal? tree root config oracle path).elim [] Prod.snd

/-- The failure that a file is. -/
def failureAt (tree : Entry) (root : String) (config : ExtractionConfig) (oracle : Oracle)
    (path : String) : Option FileFailure :=
  failure? path (ofFile tree root config oracle path)

section

variable {oracle : Oracle} {path : String}

/-- A file is a failure, which names its path, if and only if something is wrong with it. -/
theorem isSome_failureAt_iff :
    (failureAt tree root config oracle path).isSome ↔
      proposal? tree root config oracle path = none := by
  cases h : proposal? tree root config oracle path with
  | none =>
      obtain ⟨reason, hreason⟩ := ofFile_of_proposal?_eq_none h
      simp [failureAt, hreason, failure?]
  | some p => simp [failureAt, ofFile_of_proposal?_eq_some h, failure?]

/-- What a file brings, told by the candidates that are proposed for it. -/
theorem brought_eq :
    added (ofFile tree root config oracle path) = keptAt tree root config oracle path ∧
      below (ofFile tree root config oracle path) =
        (proposedAt tree root config oracle path).countP (!isConfident config ·) ∧
      pastCap (ofFile tree root config oracle path) =
        (proposedAt tree root config oracle path).countP (isConfident config ·) -
          config.maxRulesPerFile := by
  cases h : proposal? tree root config oracle path with
  | none =>
      obtain ⟨reason, hreason⟩ := ofFile_of_proposal?_eq_none h
      simp [keptAt, proposedAt, h, hreason, added, below, pastCap]
  | some p =>
      rw [keptAt, proposedAt, h, ofFile_of_proposal?_eq_some h]
      exact ⟨rfl, rfl, rfl⟩

/-- **Each candidate is accounted for**: it is kept, has too little confidence, or finds no room. -/
theorem length_keptAt_add :
    (keptAt tree root config oracle path).length +
        (proposedAt tree root config oracle path).countP (!isConfident config ·) +
        ((proposedAt tree root config oracle path).countP (isConfident config ·) -
          config.maxRulesPerFile) =
      (proposedAt tree root config oracle path).length := by
  cases h : proposal? tree root config oracle path with
  | none => simp [keptAt, proposedAt, h]
  | some p =>
      have hkept : (keptAt tree root config oracle path).length =
          min config.maxRulesPerFile (p.2.countP (isConfident config ·)) := by
        rw [keptAt, h, Option.elim, keptRules, List.length_map, keptCandidates, List.length_take,
          List.countP_eq_length_filter]
        rfl
      have hall := List.length_eq_countP_add_countP (isConfident config ·) (l := p.2)
      simp only [Bool.not_eq_true, Bool.decide_eq_false] at hall
      rw [hkept, proposedAt, h, Option.elim]
      omega

end

/-! ### All files -/

theorem mem_order_iff {path : String} {paths : List String} :
    path ∈ order paths ↔ path ∈ paths ∧ path ≠ "" := by
  rw [order, mem_sortedDistinct_iff, List.mem_filter, bne_iff_ne]

theorem nodup_order (paths : List String) : (order paths).Nodup :=
  (pairwise_order paths).imp String.ne_of_lt

/-- **Only the set of paths matters**, the empty one apart. -/
theorem order_congr {paths others : List String}
    (h : ∀ path, path ≠ "" → (path ∈ others ↔ path ∈ paths)) : order others = order paths := by
  refine eq_of_pairwise_key id (pairwise_order others) (pairwise_order paths) fun path => ?_
  rw [mem_order_iff, mem_order_iff]
  exact and_congr_left fun hpath => h path hpath

/-- **What all files bring**, each in its turn. -/
theorem ofEach_eq (oracle : String → Oracle) (paths : List String) :
    ofEach tree root config oracle paths =
      ⟨(order paths).flatMap fun path => keptAt tree root config (oracle path) path,
        (order paths).length,
        (order paths).filterMap fun path => failureAt tree root config (oracle path) path,
        ((order paths).flatMap fun path => proposedAt tree root config (oracle path) path).countP
          (!isConfident config ·),
        ((order paths).map fun path =>
          (proposedAt tree root config (oracle path) path).countP (isConfident config ·) -
            config.maxRulesPerFile).sum⟩ := by
  rw [ofEach, gather_eq, List.flatMap_map, List.length_map, List.filterMap_map, List.map_map,
    List.map_map, List.countP_flatMap]
  simp only [Function.comp_def, brought_eq]
  rfl

/-- **Each candidate of each file is accounted for.** -/
theorem length_rules_add (oracle : String → Oracle) (paths : List String) :
    (ofEach tree root config oracle paths).rules.length +
        (ofEach tree root config oracle paths).belowThreshold +
        (ofEach tree root config oracle paths).overCap =
      ((order paths).flatMap fun path => proposedAt tree root config (oracle path) path).length := by
  simp only [ofEach_eq, List.length_flatMap, List.countP_flatMap, ← List.sum_map_add,
    Function.comp_def]
  refine congrArg List.sum (List.map_congr_left fun path _ => ?_)
  exact length_keptAt_add

end StyleContract.Extraction
