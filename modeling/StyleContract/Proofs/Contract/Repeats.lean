import StyleContract.Contract.Builder

/-!
# Proofs — Contract — Repeats

The rules of a list that come after one of their id, told by their places alone: `repeated` keeps no
account of the ids that were seen. `repeatedIds_eq` says that the builder finds exactly these, each
with its place and in the order of the places.
-/

namespace StyleContract

/-- The rules that come after one of their id, with their places. -/
def repeated (rules : List Rule) : List (Rule × Nat) :=
  rules.zipIdx.filter fun e => e.1.id ∈ (rules.take e.2).map Rule.id

/-- Where all ids differ, no rule comes after one of its id. -/
theorem repeated_eq_nil {rules : List Rule} (h : (rules.map Rule.id).Nodup) :
    repeated rules = [] := by
  refine List.filter_eq_nil_iff.2 fun ⟨r, i⟩ hmem hbefore => ?_
  obtain ⟨hi, hr⟩ := List.getElem?_eq_some_iff.1 (List.mem_zipIdx_iff_getElem?.1 hmem)
  have hsplit : rules = rules.take i ++ r :: rules.drop (i + 1) := by
    rw [show r = rules[i] from hr.symm, List.getElem_cons_drop, List.take_append_drop]
  rw [hsplit, List.map_append, List.map_cons, List.nodup_append] at h
  exact h.2.2 r.id (of_decide_eq_true hbefore) r.id List.mem_cons_self rfl

/-- The rules that come after one of their id, when other rules stand before the list. -/
def repeatedAfter (before rules : List Rule) : List (Rule × Nat) :=
  (rules.zipIdx before.length).filter fun e =>
    e.1.id ∈ ((before ++ rules).take e.2).map Rule.id

theorem repeatedAfter_cons (before : List Rule) (r : Rule) (rules : List Rule) :
    repeatedAfter before (r :: rules) =
      if r.id ∈ before.map Rule.id then (r, before.length) :: repeatedAfter (before ++ [r]) rules
      else repeatedAfter (before ++ [r]) rules := by
  have hrest : (rules.zipIdx (before.length + 1)).filter (fun e =>
        decide (e.1.id ∈ ((before ++ r :: rules).take e.2).map Rule.id)) =
      repeatedAfter (before ++ [r]) rules := by
    rw [repeatedAfter, List.length_append, List.append_assoc]
    rfl
  rw [← hrest, repeatedAfter, List.zipIdx_cons, List.filter_cons]
  simp only [List.take_left, decide_eq_true_eq]

/-! ### The ids that were seen -/

section

variable {seen : List String} {before : List Rule} {r : Rule}

theorem mem_seen_iff_of_mem (hseen : ∀ id, id ∈ seen ↔ id ∈ before.map Rule.id)
    (hr : r.id ∈ seen) (id : String) : id ∈ seen ↔ id ∈ (before ++ [r]).map Rule.id := by
  rw [List.map_append, List.mem_append, ← hseen, List.map_singleton, List.mem_singleton]
  exact ⟨.inl, fun h => h.elim (fun h => h) fun h => h ▸ hr⟩

theorem mem_cons_seen_iff (hseen : ∀ id, id ∈ seen ↔ id ∈ before.map Rule.id) (id : String) :
    id ∈ r.id :: seen ↔ id ∈ (before ++ [r]).map Rule.id := by
  rw [List.map_append, List.mem_append, ← hseen, List.map_singleton, List.mem_singleton,
    List.mem_cons, or_comm]

end

theorem repeatedIds_eq_repeatedAfter {seen : List String} (before : List Rule) {rules : List Rule}
    (hseen : ∀ id, id ∈ seen ↔ id ∈ before.map Rule.id) :
    Contract.repeatedIds seen before.length rules =
      (repeatedAfter before rules).map fun e => (e.2, e.1.id) := by
  -- the index is the number of the rules before, and the ids that were seen are theirs
  induction rules generalizing seen before with
  | nil => rfl
  | cons r rules ih =>
      have hlength : before.length + 1 = (before ++ [r]).length := by simp
      rw [Contract.repeatedIds, repeatedAfter_cons, hlength]
      simp only [← hseen]
      split
      · next hr => rw [List.map_cons, ih _ (mem_seen_iff_of_mem hseen hr)]
      · rw [ih _ (mem_cons_seen_iff hseen)]

/-- **The builder finds the rules that come after one of their id**, each at its place. -/
theorem repeatedIds_eq (rules : List Rule) :
    Contract.repeatedIds [] 0 rules = (repeated rules).map fun e => (e.2, e.1.id) :=
  repeatedIds_eq_repeatedAfter [] fun _ => by simp

end StyleContract
