import StyleContract.Contract.Rule

/-!
# Verification — Commands

Which shell commands verify a rule. A table gives them for the first parts of ids; a rule whose
id starts otherwise has none. `nodup_canonical` says that no command is listed twice for a whole
contract.
-/

namespace StyleContract.Verification

/-- The commands by the part of an id that they belong to. -/
def commandTable : List (String × List String) :=
  [("PY-FMT", ["black --check ."]),
    ("PY-TYPE", ["mypy ."]),
    ("TS-TYPE", ["tsc -p tsconfig.json --noEmit", "eslint . --max-warnings 0", "prettier -c ."]),
    ("TS-FMT", ["prettier -c ."])]

/-- Whether an id is a code or continues it after a hyphen. -/
def belongsTo (code id : List Char) : Bool :=
  code.isPrefixOf id &&
    match id.drop code.length with
    | [] => true
    | c :: _ => c == '-'

/-- The commands that verify the rule of an id, in the order in which they run. -/
def commandsOfId (id : String) : List String :=
  match commandTable.find? fun row => belongsTo row.1.toList id.toList with
  | some row => row.2
  | none => []

def commandsOf (r : Rule) : List String := commandsOfId r.id

/-- Adds a command unless it is there. -/
def addNew (commands : List String) (command : String) : List String :=
  if command ∈ commands then commands else commands ++ [command]

/-- The commands of all rules, each once, in the order in which rules first need them. -/
def canonical (rules : List Rule) : List String := (rules.flatMap commandsOf).foldl addNew []

/-- The commands of all rules as one command line. -/
def canonicalLine (rules : List Rule) : String := String.intercalate " && " (canonical rules)

theorem nodup_addNew {commands : List String} (h : commands.Nodup) (command : String) :
    (addNew commands command).Nodup := by
  unfold addNew
  split
  · exact h
  · next hn =>
    refine List.nodup_append.2 ⟨h, by simp, ?_⟩
    intro a ha b hb
    rw [List.mem_singleton] at hb
    exact fun e => hn (hb ▸ e ▸ ha)

theorem nodup_foldl_addNew {acc commands : List String} (h : acc.Nodup) :
    (commands.foldl addNew acc).Nodup := by
  induction commands generalizing acc with
  | nil => exact h
  | cons c cs ih => exact ih (nodup_addNew h c)

theorem nodup_canonical (rules : List Rule) : (canonical rules).Nodup :=
  nodup_foldl_addNew List.nodup_nil

theorem mem_addNew {commands : List String} {command c : String} :
    c ∈ addNew commands command ↔ c ∈ commands ∨ c = command := by
  unfold addNew
  split
  · exact ⟨.inl, fun h => h.elim id (· ▸ ‹_›)⟩
  · simp

theorem mem_foldl_addNew {acc commands : List String} {c : String} :
    c ∈ commands.foldl addNew acc ↔ c ∈ acc ∨ c ∈ commands := by
  induction commands generalizing acc with
  | nil => simp
  | cons d ds ih => rw [List.foldl_cons, ih, mem_addNew, List.mem_cons, or_assoc]

/-- A command is listed exactly if some rule needs it. -/
theorem mem_canonical {rules : List Rule} {c : String} :
    c ∈ canonical rules ↔ ∃ r ∈ rules, c ∈ commandsOf r := by
  simp [canonical, mem_foldl_addNew]

end StyleContract.Verification
