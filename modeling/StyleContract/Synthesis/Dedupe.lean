import StyleContract.Contract.Rule

/-!
# Synthesis — Dedupe

One rule for each id: the first one stays, later ones are dropped and noted. What stays is put in
the order of the ids.
-/

namespace StyleContract

/-- What is kept on record of a rule that was dropped. -/
structure DroppedRule where
  id : String
  statement : String
  /-- The path of the first place that supported it. -/
  path : Option String
  deriving DecidableEq, Repr

def DroppedRule.of (r : Rule) : DroppedRule := ⟨r.id, r.statement, r.primaryPath?⟩

namespace Dedupe

/-- The rules whose id has not occurred before. -/
def firsts (seen : List String) : List Rule → List Rule
  | [] => []
  | r :: rs => if r.id ∈ seen then firsts seen rs else r :: firsts (r.id :: seen) rs

/-- The rules whose id has occurred before. -/
def repeats (seen : List String) : List Rule → List Rule
  | [] => []
  | r :: rs => if r.id ∈ seen then r :: repeats seen rs else repeats (r.id :: seen) rs

def inOrder (a b : Rule) : Bool := decide (a.id ≤ b.id)

/-- The rules that stay, in ascending order of their ids. -/
def kept (rules : List Rule) : List Rule := (firsts [] rules).mergeSort inOrder

/-- The rules that go, in the order in which they came. -/
def dropped (rules : List Rule) : List DroppedRule := (repeats [] rules).map DroppedRule.of

theorem not_mem_seen_of_mem_firsts {seen : List String} {rules : List Rule} {r : Rule}
    (h : r ∈ firsts seen rules) : r.id ∉ seen := by
  induction rules generalizing seen with
  | nil => simp [firsts] at h
  | cons q qs ih =>
    simp only [firsts] at h
    split at h
    · exact ih h
    · next hq =>
      rcases List.mem_cons.1 h with rfl | h
      · exact hq
      · exact fun hs => ih h (List.mem_cons_of_mem _ hs)

/-- No two rules that stay have one id. -/
theorem nodup_ids_firsts (seen : List String) (rules : List Rule) :
    ((firsts seen rules).map Rule.id).Nodup := by
  induction rules generalizing seen with
  | nil => simp [firsts]
  | cons q qs ih =>
    simp only [firsts]
    split
    · exact ih _
    · rw [List.map_cons, List.nodup_cons]
      refine ⟨fun h => ?_, ih _⟩
      obtain ⟨r, hr, hid⟩ := List.mem_map.1 h
      exact not_mem_seen_of_mem_firsts hr (hid ▸ List.mem_cons_self)

/-- Every rule either stays or goes. -/
theorem length_firsts_add_length_repeats (seen : List String) (rules : List Rule) :
    (firsts seen rules).length + (repeats seen rules).length = rules.length := by
  induction rules generalizing seen with
  | nil => simp [firsts, repeats]
  | cons q qs ih =>
    simp only [firsts, repeats]
    split
    · have := ih seen
      simp only [List.length_cons]
      omega
    · have := ih (q.id :: seen)
      simp only [List.length_cons]
      omega

end Dedupe

end StyleContract
