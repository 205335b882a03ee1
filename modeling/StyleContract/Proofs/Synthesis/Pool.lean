import StyleContract.Proofs.Synthesis.Accounting
import StyleContract.Synthesis.Pool

/-!
# Proofs — Synthesis — Pool

Working on files side by side changes nothing. What a pool holds at any time (`Pool.Inv`) says that
its results are those that the files have on their own, that its questions are those about the files
read so far, and that no more calls are open than there is room for; each move keeps it
(`Pool.Inv.step`). A pool that is not at its end can move (`Pool.exists_step`), and each move leaves
less to do (`Pool.left_lt`), so whatever comes first, the end is reached, and there is only one.

**Files do not affect each other** (`files_stand_alone`).
-/

namespace StyleContract.Extraction

variable {tree : Entry} {root : String} {config : ExtractionConfig} {oracle : String → Oracle}
  {paths : List String}

/-! ### Calls -/

/-- The question about a file that can be read, with the path of the file. -/
def asking? (tree : Entry) (root : String) (config : ExtractionConfig) (path : String) :
    Option (String × List ChatMessage) :=
  (question? tree root config path).map (path, ·)

theorem asking?_eq_none {path : String} {e : OsError}
    (h : tree.readText (Path.join root path) = .error e) : asking? tree root config path = none := by
  rw [asking?, question?, h]
  rfl

theorem asking?_eq_some {path text : String} (h : tree.readText (Path.join root path) = .ok text) :
    asking? tree root config path = some (path, question config path text) := by
  rw [asking?, question?, h]
  rfl

theorem questions_eq (paths : List String) :
    questions tree root config paths =
      ((order paths).filterMap (asking? tree root config)).map Prod.snd := by
  rw [questions, List.map_filterMap]
  refine List.filterMap_congr fun path _ => ?_
  cases hquestion : question? tree root config path <;> simp [asking?, hquestion]

namespace Call

/-- What a call has come to is what the file and the oracle say. -/
def Fits (tree : Entry) (root : String) (config : ExtractionConfig) (oracle : String → Oracle)
    (c : Call) : Prop :=
  match c.stage with
  | .begun => True
  | .asked text => tree.readText (Path.join root c.path) = .ok text
  | .done result => result = ofFile tree root config (oracle c.path) c.path

/-- What a call has asked: nothing before it has tried to read its file. -/
def questions (tree : Entry) (root : String) (config : ExtractionConfig) (c : Call) :
    List (String × List ChatMessage) :=
  match c.stage with
  | .begun => []
  | .asked _ | .done _ => (asking? tree root config c.path).toList

/-- How many moves a call still has before it. -/
def left (c : Call) : Nat :=
  match c.stage with
  | .begun => 3
  | .asked _ => 2
  | .done _ => 1

end Call

namespace Pool

/-! ### What holds at any time -/

/-- The questions about the files that have been tried so far. -/
def questions (tree : Entry) (root : String) (config : ExtractionConfig) (p : Pool) :
    List (String × List ChatMessage) :=
  (p.results.map Prod.fst).filterMap (asking? tree root config) ++
    p.calls.flatMap (Call.questions tree root config)

/-- What a pool that began with some paths holds at any time. -/
structure Inv (tree : Entry) (root : String) (config : ExtractionConfig)
    (oracle : String → Oracle) (paths : List String) (p : Pool) : Prop where
  split : p.results.map Prod.fst ++ (p.calls.map Call.path ++ p.waiting) = order paths
  results : ∀ r ∈ p.results, r.2 = ofFile tree root config (oracle r.1) r.1
  calls : ∀ c ∈ p.calls, c.Fits tree root config oracle
  room : p.calls.length ≤ config.room
  asked : p.asked.Perm (p.questions tree root config)

theorem inv_start : Inv tree root config oracle paths (start paths) where
  split := rfl
  results := by simp [start]
  calls := by simp [start]
  room := Nat.zero_le _
  asked := .refl _

/-- A call moves on: what it asks meanwhile is added to the questions. -/
theorem Inv.move {p : Pool} (h : Inv tree root config oracle paths p) {before after : List Call}
    {c d : Call} {more : List (String × List ChatMessage)} (heq : p.calls = before ++ c :: after)
    (hpath : d.path = c.path) (hfits : d.Fits tree root config oracle)
    (hmore : d.questions tree root config = c.questions tree root config ++ more) :
    Inv tree root config oracle paths
      { p with calls := before ++ d :: after, asked := p.asked ++ more } := by
  obtain ⟨hsplit, hresults, hcalls, hroom, hasked⟩ := h
  rw [questions, heq] at hasked
  rw [heq] at hsplit hcalls hroom
  refine ⟨?_, hresults, ?_, ?_, ?_⟩
  · rw [← hsplit]
    simp [hpath]
  · simp only [List.forall_mem_append, List.forall_mem_cons] at hcalls ⊢
    exact ⟨hcalls.1, hfits, hcalls.2.2⟩
  · simpa using hroom
  · refine (hasked.append_right more).trans ?_
    simp only [questions, List.flatMap_append, List.flatMap_cons, hmore, List.append_assoc]
    -- the new questions move past those of the calls that began later
    refine (((List.perm_append_comm).append_left _).append_left _).append_left _

/-- A call moves on without a question. -/
theorem Inv.move_silent {p : Pool} (h : Inv tree root config oracle paths p)
    {before after : List Call} {c d : Call} (heq : p.calls = before ++ c :: after)
    (hpath : d.path = c.path) (hfits : d.Fits tree root config oracle)
    (hsame : d.questions tree root config = c.questions tree root config) :
    Inv tree root config oracle paths { p with calls := before ++ d :: after } := by
  have hmove := h.move heq hpath hfits (hsame.trans (List.append_nil _).symm)
  rwa [List.append_nil] at hmove

/-- The result of the first call is taken. -/
theorem Inv.take {p : Pool} (h : Inv tree root config oracle paths p) {after : List Call}
    {path : String} {result : Except String FileRules}
    (heq : p.calls = ⟨path, .done result⟩ :: after) :
    Inv tree root config oracle paths
      { p with calls := after, results := p.results ++ [(path, result)] } := by
  obtain ⟨hsplit, hresults, hcalls, hroom, hasked⟩ := h
  rw [questions, heq] at hasked
  rw [heq] at hcalls hroom hsplit
  obtain ⟨hresult, hcalls⟩ := List.forall_mem_cons.1 hcalls
  refine ⟨?_, ?_, hcalls, Nat.le_of_succ_le hroom, ?_⟩
  · rw [← hsplit]
    simp
  · rw [List.forall_mem_append, List.forall_mem_singleton]
    exact ⟨hresults, hresult⟩
  · have hpath : ([path].filterMap (asking? tree root config)) =
        Call.questions tree root config ⟨path, .done result⟩ := by
      cases hq : asking? tree root config path <;> simp [Call.questions, hq]
    rw [questions, List.map_append, List.filterMap_append, List.append_assoc]
    rw [List.flatMap_cons, ← hpath] at hasked
    exact hasked

/-- **Each move keeps what holds.** -/
theorem Inv.step {p q : Pool} (h : Inv tree root config oracle paths p)
    (hstep : Step tree root config oracle p q) : Inv tree root config oracle paths q := by
  cases hstep with
  | begin hfree hwaiting =>
      obtain ⟨hsplit, hresults, hcalls, -, hasked⟩ := h
      refine ⟨?_, hresults, ?_, ?_, ?_⟩
      · rw [← hsplit, hwaiting]
        simp
      · simpa [Call.Fits, or_imp, forall_and] using hcalls
      · rw [List.length_append]
        exact hfree
      · simpa [questions, Call.questions] using hasked
  | @unreadable before after path e heq hread =>
      have hfile : ofFile tree root config (oracle path) path =
          .error ("unreadable: " ++ e.message) := by simp only [ofFile, hread]
      refine h.move_silent heq rfl hfile.symm ?_
      rw [Call.questions, Call.questions, asking?_eq_none hread]
      rfl
  | ask heq hread =>
      exact h.move heq rfl hread (by simp [Call.questions, asking?_eq_some hread])
  | @answer before after path text heq =>
      have hread : tree.readText (Path.join root path) = .ok text :=
        h.calls ⟨path, .asked text⟩ (heq ▸ List.mem_append_right _ List.mem_cons_self)
      have hfile : ofFile tree root config (oracle path) path =
          ofReply config path text ((oracle path).ask (question config path text)) := by
        simp only [ofFile, hread]
      exact h.move_silent heq rfl hfile.symm rfl
  | take heq => exact h.take heq

/-- **What holds of every pool that some paths come to.** -/
theorem Reach.inv {p : Pool} (h : Reach tree root config oracle paths p) :
    Inv tree root config oracle paths p := by
  induction h with
  | start => exact inv_start
  | step _ hstep ih => exact ih.step hstep

/-! ### The end -/

/-- How many moves a pool still has before it. -/
def left (p : Pool) : Nat := 4 * p.waiting.length + (p.calls.map Call.left).sum

/-- **Each move leaves less to do.** -/
theorem left_lt {p q : Pool} (h : Step tree root config oracle p q) : q.left < p.left := by
  cases h with
  | begin hfree hwaiting => simp [left, hwaiting, Call.left]; omega
  | unreadable heq hread => simp [left, heq, Call.left]
  | ask heq hread => simp [left, heq, Call.left]
  | answer heq => simp [left, heq, Call.left]
  | take heq => simp [left, heq, Call.left]

/-- No pool moves for ever. -/
theorem wellFounded_step :
    WellFounded fun q p : Pool => Step tree root config oracle p q :=
  Subrelation.wf left_lt (measure left).wf

/-- **A pool that is not at its end can move.** -/
theorem exists_step {p : Pool} (h : p.waiting ≠ [] ∨ p.calls ≠ []) :
    ∃ q, Step tree root config oracle p q := by
  cases hcalls : p.calls with
  | nil =>
      cases hwaiting : p.waiting with
      | nil => exact absurd h (by simp [hcalls, hwaiting])
      | cons path rest =>
          have hroom : p.calls.length < config.room := by
            rw [hcalls]
            exact Nat.le_max_left 1 config.concurrency
          exact ⟨_, .begin hroom hwaiting⟩
  | cons c after =>
      obtain ⟨path, stage⟩ := c
      have hfirst : p.calls = [] ++ ⟨path, stage⟩ :: after := hcalls
      cases stage with
      | begun =>
          cases hread : tree.readText (Path.join root path) with
          | error e => exact ⟨_, .unreadable hfirst hread⟩
          | ok text => exact ⟨_, .ask hfirst hread⟩
      | asked text => exact ⟨_, .answer hfirst⟩
      | done result => exact ⟨_, .take hcalls⟩

/-- **There is one end**: the results of the files on their own, in the order of their paths, and
one question about each file that can be read. -/
theorem Reach.of_no_step {p : Pool} (h : Reach tree root config oracle paths p)
    (hend : ∀ q, ¬ Step tree root config oracle p q) :
    p.results = (order paths).map (fun path =>
        (path, ofFile tree root config (oracle path) path)) ∧
      p.asked.Perm ((order paths).filterMap (asking? tree root config)) := by
  have hnone : ¬ (p.waiting ≠ [] ∨ p.calls ≠ []) := fun hmore => by
    obtain ⟨q, hq⟩ := exists_step hmore
    exact hend q hq
  obtain ⟨hwaiting, hcalls⟩ : p.waiting = [] ∧ p.calls = [] := by simpa using hnone
  obtain ⟨hsplit, hresults, -, -, hasked⟩ := h.inv
  have hpaths : p.results.map Prod.fst = order paths := by simpa [hwaiting, hcalls] using hsplit
  refine ⟨?_, ?_⟩
  · rw [← hpaths, List.map_map]
    exact (List.map_id _).symm.trans (List.map_congr_left fun r hr => Prod.ext rfl (hresults r hr))
  · simpa [questions, hcalls, hpaths] using hasked

end Pool

/-- **Files do not affect each other.** What comes of some files depends on nothing but the set of
their paths, and is told file by file in the ascending order of the bytes of the paths: a file that
is all right brings the rules of its first candidates with enough confidence, a file with something
wrong brings a failure and nothing else, and each candidate is accounted for. It is the same however
many calls may be open and in whichever order they move: there are never more of them than allowed,
none waits for ever, and each file that can be read is asked about once. -/
theorem files_stand_alone (tree : Entry) (root : String) (config : ExtractionConfig)
    (oracle : String → Oracle) (paths : List String) :
    (∀ others : List String, (∀ path, path ≠ "" → (path ∈ others ↔ path ∈ paths)) →
        ofEach tree root config oracle others = ofEach tree root config oracle paths ∧
          Pool.start others = Pool.start paths) ∧
      (order paths).Pairwise (fun p q => Text.bytes p < Text.bytes q) ∧
      (∀ path, path ∈ order paths ↔ path ∈ paths ∧ path ≠ "") ∧
      (ofEach tree root config oracle paths).rules = (order paths).flatMap (fun path =>
        keptAt tree root config (oracle path) path) ∧
      (ofEach tree root config oracle paths).failures = (order paths).filterMap (fun path =>
        failureAt tree root config (oracle path) path) ∧
      (∀ path, (failureAt tree root config (oracle path) path).isSome ↔
        proposal? tree root config (oracle path) path = none) ∧
      (ofEach tree root config oracle paths).filesAnalyzed = (order paths).length ∧
      (ofEach tree root config oracle paths).belowThreshold =
        ((order paths).flatMap fun path => proposedAt tree root config (oracle path) path).countP
          (!isConfident config ·) ∧
      (ofEach tree root config oracle paths).overCap = ((order paths).map fun path =>
        (proposedAt tree root config (oracle path) path).countP (isConfident config ·) -
          config.maxRulesPerFile).sum ∧
      (ofEach tree root config oracle paths).rules.length +
          (ofEach tree root config oracle paths).belowThreshold +
          (ofEach tree root config oracle paths).overCap =
        ((order paths).flatMap fun path =>
          proposedAt tree root config (oracle path) path).length ∧
      ∀ concurrency : Nat,
        (WellFounded fun q p : Pool => p.Step tree root { config with concurrency } oracle q) ∧
          ∀ p, Pool.Reach tree root { config with concurrency } oracle paths p →
            p.calls.length ≤ max 1 concurrency ∧
              ((∀ q, ¬ p.Step tree root { config with concurrency } oracle q) →
                gather p.results = ofEach tree root config oracle paths ∧
                  p.asked.Perm ((order paths).filterMap (asking? tree root config)) ∧
                  (p.asked.map Prod.snd).Perm (questions tree root config paths)) := by
  refine ⟨fun others h => ?_, ?_, fun _ => mem_order_iff, ?_, ?_, fun _ => isSome_failureAt_iff, ?_,
    ?_, ?_, length_rules_add oracle paths, fun concurrency => ⟨Pool.wellFounded_step, fun p h =>
      ⟨h.inv.room, fun hend => ?_⟩⟩⟩
  · rw [ofEach, ofEach, Pool.start, Pool.start, order_congr h]
    exact ⟨rfl, rfl⟩
  · exact (pairwise_order paths).imp Text.lt_iff_bytes_lt.1
  · rw [ofEach_eq]
  · rw [ofEach_eq]
  · rw [ofEach_eq]
  · rw [ofEach_eq]
  · rw [ofEach_eq]
  · obtain ⟨hresults, hasked⟩ := h.of_no_step hend
    rw [hresults, questions_eq]
    exact ⟨rfl, hasked, hasked.map Prod.snd⟩

end StyleContract.Extraction
