import Mathlib.Algebra.Ring.Nat
import StyleContract.Proofs.Contract.Place
import StyleContract.Proofs.Synthesis.Dedupe
import StyleContract.Synthesis.Extraction

/-!
# Proofs — Synthesis — Extraction

What an oracle says about some files is what it says about each of them, one after the other in the
order of their paths (`gather_eq`, `rules_ofPaths`); a step adds what one file brings (`add_eq`).

**Rules from replies are sound** whatever the replies say (`sound_of_mem_ofPaths`): a file whose
candidates do not all make sound rules adds none.

The first rule of an id is that of **the first candidate with the id** (`isFirst_rules_ofPaths`),
where files come in the ascending order of their paths and the candidates of a file in the order of
its reply (`pairwise_order`).
-/

namespace StyleContract.Extraction

variable {tree : Entry} {root : String} {config : ExtractionConfig} {oracle : Oracle}

/-- What a file adds to the rules: nothing, if something is wrong with the file or its reply. -/
def added : Except String FileRules → List Rule
  | .ok f => f.rules
  | .error _ => []

/-- The rules of the file at a path. -/
def rulesAt (tree : Entry) (root : String) (config : ExtractionConfig) (oracle : Oracle)
    (path : String) : List Rule := added (ofFile tree root config oracle path)

/-- The failure of a file, if something is wrong with it or its reply. -/
def failure? (path : String) : Except String FileRules → Option FileFailure
  | .ok _ => none
  | .error reason => some ⟨path, reason⟩

/-- What a file adds to the number of candidates with too little confidence. -/
def below : Except String FileRules → Nat
  | .ok f => f.belowThreshold
  | .error _ => 0

/-- What a file adds to the number of candidates that it has no room for. -/
def pastCap : Except String FileRules → Nat
  | .ok f => f.overCap
  | .error _ => 0

theorem add_eq (e : Extraction) (path : String) (result : Except String FileRules) :
    e.add path result =
      ⟨e.rules ++ added result, e.filesAnalyzed + 1, e.failures ++ (failure? path result).toList,
        e.belowThreshold + below result, e.overCap + pastCap result⟩ := by
  cases result <;> simp [add, added, failure?, below, pastCap]

theorem foldl_add_eq (results : List (String × Except String FileRules)) (e : Extraction) :
    results.foldl (fun e result => e.add result.1 result.2) e =
      ⟨e.rules ++ results.flatMap (added ·.2), e.filesAnalyzed + results.length,
        e.failures ++ results.filterMap fun result => failure? result.1 result.2,
        e.belowThreshold + (results.map (below ·.2)).sum,
        e.overCap + (results.map (pastCap ·.2)).sum⟩ := by
  -- from any extraction, to which each result adds on its own
  induction results generalizing e with
  | nil => simp
  | cons result results ih =>
      rw [List.foldl_cons, ih, add_eq]
      cases hfailure : failure? result.1 result.2 <;>
        simp [hfailure, Nat.add_assoc, Nat.add_comm 1]

/-- **What files bring together is what each of them brings.** -/
theorem gather_eq (results : List (String × Except String FileRules)) :
    gather results =
      ⟨results.flatMap (added ·.2), results.length,
        results.filterMap fun result => failure? result.1 result.2,
        (results.map (below ·.2)).sum, (results.map (pastCap ·.2)).sum⟩ := by
  simp [gather, foldl_add_eq]

/-- **The rules of some files are those of each file**, in the order of the paths. -/
theorem rules_ofPaths (paths : List String) :
    (ofPaths tree root config oracle paths).rules =
      (order paths).flatMap (rulesAt tree root config oracle) := by
  rw [ofPaths, ofEach, gather_eq, List.flatMap_map]
  rfl

/-- The candidates of a reply that are kept, in the order of the reply. -/
def keptCandidates (config : ExtractionConfig) (all : List Candidate) : List Candidate :=
  (all.filter fun c => config.minConfidence ≤ c.confidence).take config.maxRulesPerFile

/-! ### One file -/

/-- A file that adds rules has been read, and its reply has been understood. -/
theorem ofFile_eq_ok {path : String} {f : FileRules}
    (h : ofFile tree root config oracle path = .ok f) :
    ∃ text all, tree.readText (Path.join root path) = .ok text ∧
      candidates config (oracle.ask (question config path text)) = .ok all ∧
      rulesOf config path text all = .ok f := by
  unfold ofFile at h
  split at h
  · cases h
  · next text htext =>
    unfold ofReply at h
    split at h
    · cases h
    · next all hall => exact ⟨text, all, htext, hall, h⟩

theorem rulesOf_eq_ok {path text : String} {all : List Candidate} {f : FileRules}
    (h : rulesOf config path text all = .ok f) :
    f.rules = (keptCandidates config all).map (fun c => c.toRule path (Text.lineCount text)) ∧
      ∀ r ∈ f.rules, r.problems = [] := by
  unfold rulesOf at h
  dsimp only at h
  split at h
  · next hcomplaints =>
    cases h
    refine ⟨rfl, fun r hr => ?_⟩
    have hnone := List.flatMap_eq_nil_iff.1 hcomplaints r hr
    exact List.map_eq_nil_iff.1 hnone
  · cases h

/-- Every place of a candidate's rule carries its own hash. -/
theorem anchored_toRule {c : Candidate} {path : String} {lineCount : UInt32} :
    ∀ e ∈ (c.toRule path lineCount).evidence, e.Anchored := by
  intro e he
  simp only [Candidate.toRule, Candidate.orElse] at he
  split at he
  · cases List.mem_singleton.1 he
    exact Evidence.anchored_at _ _
  · obtain ⟨p, -, rfl⟩ := List.mem_map.1 he
    exact Evidence.anchored_at _ _

theorem mem_rulesAt_iff {path : String} {r : Rule} :
    r ∈ rulesAt tree root config oracle path ↔
      ∃ f, ofFile tree root config oracle path = .ok f ∧ r ∈ f.rules := by
  cases h : ofFile tree root config oracle path <;> simp [rulesAt, added, h]

theorem sound_of_mem_rulesAt {path : String} {r : Rule}
    (h : r ∈ rulesAt tree root config oracle path) : r.Sound := by
  obtain ⟨f, hf, hr⟩ := mem_rulesAt_iff.1 h
  obtain ⟨text, all, -, -, hrules⟩ := ofFile_eq_ok hf
  obtain ⟨hmap, hproblems⟩ := rulesOf_eq_ok hrules
  obtain ⟨c, -, rfl⟩ := List.mem_map.1 (hmap ▸ hr)
  exact ⟨hproblems _ hr, anchored_toRule⟩

/-- **Rules from replies are sound.** -/
theorem sound_of_mem_ofPaths {paths : List String} {r : Rule}
    (h : r ∈ (ofPaths tree root config oracle paths).rules) : r.Sound := by
  rw [rules_ofPaths] at h
  obtain ⟨path, -, hr⟩ := List.mem_flatMap.1 h
  exact sound_of_mem_rulesAt hr

/-! ### First candidates -/

theorem pairwise_order (paths : List String) : (order paths).Pairwise (· < ·) :=
  pairwise_sortedDistinct _

/-- The first rule of an id among those of some candidates is that of the first candidate. -/
theorem isFirst_toRule {cs : List Candidate} {path : String} {lineCount : UInt32} {r : Rule}
    (h : IsFirst r (cs.map fun c => c.toRule path lineCount)) :
    ∃ pre c post, cs = pre ++ c :: post ∧ r = c.toRule path lineCount ∧ ∀ d ∈ pre, d.id ≠ r.id := by
  obtain ⟨pre, post, heq, hpre⟩ := h
  obtain ⟨cs₁, cs₂, rfl, rfl, hcs₂⟩ := List.map_eq_append_iff.1 heq
  obtain ⟨c, cs₃, rfl, rfl, rfl⟩ := List.map_eq_cons_iff.1 hcs₂
  refine ⟨cs₁, c, cs₃, rfl, rfl, fun d hd => ?_⟩
  exact hpre (d.toRule path lineCount) (List.mem_map_of_mem hd)

/-- The rule of the first kept candidate with its id: `before` are the files of smaller paths, `pre`
the kept candidates of its own file that stand before it in the reply. -/
def IsFirstCandidate (tree : Entry) (root : String) (config : ExtractionConfig) (oracle : Oracle)
    (paths : List String) (r : Rule) : Prop :=
  ∃ before path after f text all pre c post,
    order paths = before ++ path :: after ∧
    ofFile tree root config oracle path = .ok f ∧
    tree.readText (Path.join root path) = .ok text ∧
    candidates config (oracle.ask (question config path text)) = .ok all ∧
    keptCandidates config all = pre ++ c :: post ∧
    f.rules = (keptCandidates config all).map (fun d => d.toRule path (Text.lineCount text)) ∧
    r = c.toRule path (Text.lineCount text) ∧
    (∀ d ∈ pre, d.id ≠ r.id) ∧
    ∀ p ∈ before, ∀ g, ofFile tree root config oracle p = .ok g → ∀ q ∈ g.rules, q.id ≠ r.id

/-- **The first rule of an id comes from the first candidate with the id.** -/
theorem isFirst_rules_ofPaths {paths : List String} {r : Rule}
    (h : IsFirst r (ofPaths tree root config oracle paths).rules) :
    IsFirstCandidate tree root config oracle paths r := by
  rw [rules_ofPaths] at h
  obtain ⟨before, path, after, horder, hfirst, hbefore⟩ := isFirst_flatMap_iff.1 h
  obtain ⟨f, hf, -⟩ := mem_rulesAt_iff.1 hfirst.mem
  obtain ⟨text, all, htext, hall, hrules⟩ := ofFile_eq_ok hf
  obtain ⟨hmap, -⟩ := rulesOf_eq_ok hrules
  rw [rulesAt, hf, added, hmap] at hfirst
  obtain ⟨pre, c, post, hkept, hr, hpre⟩ := isFirst_toRule hfirst
  refine ⟨before, path, after, f, text, all, pre, c, post, horder, hf, htext, hall, hkept, hmap, hr,
    hpre, fun p hp g hg q hq => ?_⟩
  exact hbefore p hp q (mem_rulesAt_iff.2 ⟨g, hg, hq⟩)

end StyleContract.Extraction
