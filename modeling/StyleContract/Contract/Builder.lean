import StyleContract.Contract.Schema

/-!
# Contract — Builder

Putting a contract together. A contract is accepted only if it meets its schema and no two of its
rules have one id, which a schema cannot say; a contract that is not accepted is never returned.
-/

namespace StyleContract

namespace Contract

/-- The rules whose id occurs before, with their places. -/
def repeatedIds (seen : List String) (index : Nat) : List Rule → List (Nat × String)
  | [] => []
  | r :: rs =>
    if r.id ∈ seen then (index, r.id) :: repeatedIds seen (index + 1) rs
    else repeatedIds (r.id :: seen) (index + 1) rs

def repeatedIdViolations (rules : List Rule) : List Violation :=
  (repeatedIds [] 0 rules).map fun (index, id) =>
    ⟨"/rules/" ++ toString index ++ "/id", "duplicate rule id '" ++ id ++ "'"⟩

end Contract

namespace ContractSchema

/-- Everything that keeps a contract from being accepted. -/
def violations (s : ContractSchema) (c : Contract) : List Violation :=
  s.check c.toJson ++ Contract.repeatedIdViolations c.rules

def accept (s : ContractSchema) (c : Contract) : Except Error Unit :=
  match s.violations c with
  | [] => .ok ()
  | vs => .error (.invalidContract vs)

/-- Builds a contract in the current form. -/
def build (s : ContractSchema) (repo : RepoIdentity) (rules : List Rule)
    (metrics : Option Metrics) (generatedAt : Moment) : Except Error Contract := do
  let c : Contract := ⟨Contract.currentVersion, repo, generatedAt, rules, metrics⟩
  s.accept c
  .ok c

theorem accept_eq_ok_iff {s : ContractSchema} {c : Contract} :
    s.accept c = .ok () ↔ s.violations c = [] := by
  unfold accept
  split <;> simp_all

end ContractSchema

end StyleContract
