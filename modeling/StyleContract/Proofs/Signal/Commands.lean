import StyleContract.Proofs.Text.Headings
import StyleContract.Signal.Workflow

/-!
# Proofs — Signal — Commands

Which strings of a definition are taken for commands. A string lies under the keys of the mappings around
it, and it is the value of the nearest one, directly or through lists (`strings`). The search for commands
reads a string if that key is a command key and **no key above it is one** (`commands_eq`): below a command
key it does not look into mappings any more.

So what it finds are commands, in the order of the definition, but it finds all of them if and only if there
are none below two command keys (`commands_complete_iff`). A job that is called `run` is enough to lose its
script (`run_job_lost`).
-/

namespace StyleContract

namespace Workflow

/-- A string of a definition with the keys that it lies under, the outermost first. -/
structure Placed where
  keys : List Yaml.Value
  text : String

namespace Placed

/-- The string as it lies under one more key. -/
def under (key : Yaml.Value) (p : Placed) : Placed := ⟨key :: p.keys, p.text⟩

/-- Whether the string is the value of a command key, directly or through lists. -/
def isScript (p : Placed) : Bool := p.keys.getLast?.any isCommandKey

/-- Whether the mapping that the string is a value of lies below a command key. -/
def isHidden (p : Placed) : Bool := p.keys.dropLast.any isCommandKey

def commands (p : Placed) : List String := scriptCommands p.text

end Placed

mutual

/-- The strings of a definition in their order. -/
def strings : Yaml.Value → List Placed
  | .scalar (.text s) => [⟨[], s⟩]
  | .sequence items => stringsOfItems items
  | .mapping entries => stringsOfEntries entries
  | _ => []

def stringsOfItems : List Yaml.Value → List Placed
  | [] => []
  | v :: vs => strings v ++ stringsOfItems vs

def stringsOfEntries : List (Yaml.Value × Yaml.Value) → List Placed
  | [] => []
  | (k, v) :: rest => (strings v).map (Placed.under k) ++ stringsOfEntries rest

end

/-- The commands of all scripts of a definition, wherever they lie. -/
def allCommands (v : Yaml.Value) : List String :=
  ((strings v).filter Placed.isScript).flatMap Placed.commands

/-! ### Under one more key -/

namespace Placed

variable {k : Yaml.Value} {p : Placed}

/-- Whether the string is a script that is not hidden. -/
def isRead (p : Placed) : Bool := p.isScript && !p.isHidden

/-- Under a command key only what is its own value is read. -/
theorem isRead_under_of_isCommandKey (hk : isCommandKey k = true) :
    (p.under k).isRead = p.keys.isEmpty := by
  obtain ⟨keys, s⟩ := p
  cases keys with
  | nil => simp [isRead, isScript, isHidden, under, hk]
  | cons key keys => simp [isRead, isHidden, under, hk]

/-- Any other key changes nothing. -/
theorem isRead_under_of_not_isCommandKey (hk : isCommandKey k = false) :
    (p.under k).isRead = p.isRead := by
  obtain ⟨keys, s⟩ := p
  cases keys with
  | nil => simp [isRead, isScript, isHidden, under, hk]
  | cons key keys => simp [isRead, isScript, isHidden, under, hk]

theorem isEmpty_under (k : Yaml.Value) (p : Placed) : (p.under k).keys.isEmpty = false := rfl

end Placed

/-! ### What is read -/

/-- The commands of the strings of a list that satisfy a condition. -/
def commandsWhere (f : Placed → Bool) (ps : List Placed) : List String :=
  (ps.filter f).flatMap Placed.commands

variable {f g : Placed → Bool} {k : Yaml.Value}

theorem commandsWhere_append (ps qs : List Placed) :
    commandsWhere f (ps ++ qs) = commandsWhere f ps ++ commandsWhere f qs := by
  rw [commandsWhere, List.filter_append, List.flatMap_append]
  rfl

/-- Under a key a condition is that on what lies under it. -/
theorem commandsWhere_under (h : ∀ p : Placed, f (p.under k) = g p) (ps : List Placed) :
    commandsWhere f (ps.map (Placed.under k)) = commandsWhere g ps := by
  rw [commandsWhere, List.filter_map, List.flatMap_map]
  congr 2
  exact funext h

theorem commandsWhere_under_of_false (h : ∀ p : Placed, f (p.under k) = false) (ps : List Placed) :
    commandsWhere f (ps.map (Placed.under k)) = [] := by
  rw [commandsWhere_under h, commandsWhere, List.filter_false]
  rfl

mutual

/-- Where commands are expected, the strings outside of mappings are read. -/
theorem commandsIn_eq :
    ∀ v : Yaml.Value, commandsIn v = commandsWhere (fun p => p.keys.isEmpty) (strings v)
  | .scalar (.text s) => (List.append_nil _).symm
  | .sequence items => by rw [commandsIn, strings, commandsInAll_eq items]
  | .mapping entries => by
      rw [strings, commandsWhere_stringsOfEntries entries]
      rfl
  | .scalar .null | .scalar (.bool _) | .scalar (.int _) | .scalar (.float _) | .tagged _ _ => rfl

theorem commandsInAll_eq : ∀ vs : List Yaml.Value,
    commandsInAll vs = commandsWhere (fun p => p.keys.isEmpty) (stringsOfItems vs)
  | [] => rfl
  | v :: vs => by
      rw [commandsInAll, stringsOfItems, commandsWhere_append, commandsIn_eq v, commandsInAll_eq vs]

/-- No string of a mapping lies outside of mappings. -/
theorem commandsWhere_stringsOfEntries : ∀ entries : List (Yaml.Value × Yaml.Value),
    commandsWhere (fun p => p.keys.isEmpty) (stringsOfEntries entries) = []
  | [] => rfl
  | (k, v) :: rest => by
      rw [stringsOfEntries, commandsWhere_append, commandsWhere_stringsOfEntries rest, List.append_nil]
      exact commandsWhere_under_of_false (Placed.isEmpty_under k) _

end

mutual

/-- **The strings that are read** are the scripts that are not hidden. -/
theorem commands_eq : ∀ v : Yaml.Value, commands v = commandsWhere Placed.isRead (strings v)
  | .mapping entries => by rw [commands, strings, commandsOfEntries_eq entries]
  | .sequence items => by rw [commands, strings, commandsOfItems_eq items]
  | .scalar (.text s) => rfl
  | .scalar .null | .scalar (.bool _) | .scalar (.int _) | .scalar (.float _) | .tagged _ _ => rfl

theorem commandsOfEntries_eq : ∀ entries : List (Yaml.Value × Yaml.Value),
    commandsOfEntries entries = commandsWhere Placed.isRead (stringsOfEntries entries)
  | [] => rfl
  | (k, v) :: rest => by
      rw [commandsOfEntries, stringsOfEntries, commandsWhere_append, commandsOfEntries_eq rest]
      -- below a command key the search changes its ways, and so does what is read
      split
      · next hk =>
        rw [commandsIn_eq v, commandsWhere_under fun p => Placed.isRead_under_of_isCommandKey hk]
      · next hk =>
        rw [commands_eq v, commandsWhere_under fun p =>
          Placed.isRead_under_of_not_isCommandKey (Bool.eq_false_of_not_eq_true hk)]

theorem commandsOfItems_eq : ∀ vs : List Yaml.Value,
    commandsOfItems vs = commandsWhere Placed.isRead (stringsOfItems vs)
  | [] => rfl
  | v :: vs => by
      rw [commandsOfItems, stringsOfItems, commandsWhere_append, commands_eq v, commandsOfItems_eq vs]

end

/-! ### What is lost -/

theorem commandsWhere_eq_flatMap (f : Placed → Bool) (ps : List Placed) :
    commandsWhere f ps = ps.flatMap fun p => if f p then p.commands else [] := by
  induction ps with
  | nil => rfl
  | cons p ps ih =>
      rw [commandsWhere] at ih ⊢
      rw [List.filter_cons, List.flatMap_cons, ← ih]
      split <;> rfl

/-- A string is a script if it is read, or if it is hidden. -/
theorem allCommands_eq (v : Yaml.Value) :
    allCommands v = (strings v).flatMap fun p => (if p.isRead then p.commands else []) ++
      if p.isScript && p.isHidden then p.commands else [] := by
  rw [show allCommands v = commandsWhere Placed.isScript (strings v) from rfl, commandsWhere_eq_flatMap]
  refine List.flatMap_congr fun p _ => ?_
  rw [Placed.isRead]
  cases p.isScript <;> cases p.isHidden <;> simp

/-- **The commands that are found**, in the order of the definition: those of the scripts that do not lie
below another command key. They are all commands if and only if the other scripts have none. -/
theorem commands_complete_iff (v : Yaml.Value) :
    commands v = ((strings v).filter fun p => p.isScript && !p.isHidden).flatMap Placed.commands ∧
      (commands v).Sublist (allCommands v) ∧
      (commands v = allCommands v ↔
        ∀ p ∈ strings v, p.isScript = true → p.isHidden = true → p.commands = []) := by
  have hread := commands_eq v
  refine ⟨hread, ?_, ?_⟩
  · rw [hread, commandsWhere_eq_flatMap, allCommands_eq]
    exact Text.flatMap_sublist_flatMap_append _ _ _
  · rw [hread, commandsWhere_eq_flatMap, allCommands_eq, eq_comm, Text.flatMap_append_eq_iff]
    refine forall_congr' fun p => forall_congr' fun _ => ?_
    cases p.isScript <;> cases p.isHidden <;> simp

/-- A definition with a job that is called `run`. -/
def runJobText : String := "run:\n  script:\n    - make\n"

/-- The script of the job is lost. -/
theorem run_job_lost :
    ∃ v, Yaml.Value.ofText? runJobText = some v ∧ allCommands v = ["make"] ∧ commands v = [] ∧
      fileSignals ".gitlab-ci.yml" runJobText = [] := by
  have hread : (Yaml.Value.ofText? runJobText).map (fun v => (allCommands v, commands v)) =
      some (["make"], []) := by decide +kernel
  obtain ⟨v, hv, heq⟩ := Option.map_eq_some_iff.1 hread
  obtain ⟨hall, hfound⟩ := Prod.mk.inj heq
  refine ⟨v, hv, hall, hfound, ?_⟩
  rw [fileSignals, hv]
  simp only [hfound, linesOf, List.map_nil]

end Workflow

end StyleContract
