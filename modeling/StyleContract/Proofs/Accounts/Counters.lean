import Mathlib.Algebra.Ring.Nat
import StyleContract.Accounts.Basic

/-!
# Proofs — Accounts — Counters

What counters hold together. Setting one of them changes the total by the difference
(`Keyed.total_insert`), so recording more adds just that to the total (`Counters.total_record`), and
the sum that is written down is the total (`Counters.sum_eq_total`), as long as counters are exact.
-/

namespace StyleContract

/-- All counts together. -/
def Keyed.total (m : Keyed Nat) : Nat := (m.entries.map (·.2)).sum

/-- A value takes the place of the one of its name. -/
theorem Keyed.sum_insertEntry (name : String) (value : Nat) {entries : List (String × Nat)}
    (hsorted : entries.Pairwise (·.1 < ·.1)) :
    ((insertEntry name value entries).map (·.2)).sum +
        ((entries.find? (·.1 == name)).map (·.2)).getD 0 =
      (entries.map (·.2)).sum + value := by
  induction entries with
  | nil => simp [insertEntry]
  | cons e rest ih =>
      obtain ⟨he, hrest⟩ := List.pairwise_cons.1 hsorted
      rw [insertEntry]
      split
      · next hlt =>
        -- the name comes before all that are there
        have hnone : (e :: rest).find? (·.1 == name) = none := by
          refine List.find?_eq_none.2 fun d hd => ?_
          have hd : name < d.1 := (List.mem_cons.1 hd).elim (fun h => h ▸ hlt)
            fun h => String.lt_trans hlt (he d h)
          simpa using fun heq => String.ne_of_lt hd heq.symm
        rw [hnone]
        simp [Nat.add_comm]
      · split
        · next hgt =>
          rw [List.find?_cons_of_neg (by simpa using String.ne_of_lt hgt), List.map_cons,
            List.map_cons, List.sum_cons, List.sum_cons]
          have hrest := ih hrest
          omega
        · next hnlt hngt =>
          have heq : name = e.1 := eq_of_not_lt hnlt hngt
          rw [List.find?_cons_of_pos (by simp [heq]), List.map_cons, List.map_cons, List.sum_cons,
            List.sum_cons, Option.map_some, Option.getD_some]
          omega

theorem Keyed.total_insert (m : Keyed Nat) (name : String) (value : Nat) :
    (m.insert name value).total + (m.get? name).getD 0 = m.total + value :=
  sum_insertEntry name value m.sorted

/-- A value of a new name comes on top. -/
theorem Keyed.total_insert_new {m : Keyed Nat} {name : String} (h : m.get? name = none)
    (value : Nat) : (m.insert name value).total = m.total + value := by
  have htotal := total_insert m name value
  rw [h] at htotal
  exact htotal

/-- A count that is exact is written down as it is. -/
theorem Counter.written_of_lt {n : Nat} (h : n < exactLimit) : written n = Json.ofNat n := by
  have hlimit : exactLimit ≤ greatest := by decide
  rw [written, Nat.min_eq_left (Nat.le_of_lt (Nat.lt_of_lt_of_le h hlimit))]

namespace Counters

variable {c : Counters}

theorem count_le_total (c : Counters) (name : String) : c.count name ≤ c.total := by
  have htotal : (c.insert name 0).total + c.count name = c.total + 0 := c.total_insert name 0
  omega

@[simp] theorem count_empty (name : String) : count Keyed.empty name = 0 := rfl

theorem count_record_self (c : Counters) (name : String) (more : Nat) :
    (c.record name more).count name = Counter.total (c.count name) more := by
  rw [record, count, Keyed.get?_insert_self]
  rfl

theorem count_record_of_ne {name other : String} (h : other ≠ name) (c : Counters) (more : Nat) :
    (c.record name more).count other = c.count other := by
  rw [record, count, Keyed.get?_insert_of_ne h, count]

/-- **Recording more adds just that.** -/
theorem total_record {name : String} {more : Nat} (h : c.total + more < Counter.exactLimit) :
    (c.record name more).total = c.total + more := by
  have hcount := count_le_total c name
  have htotal : (c.insert name (c.count name + more)).total + c.count name =
      c.total + (c.count name + more) := c.total_insert name _
  rw [record, Counter.total_eq_add (by omega)]
  omega

/-- What several records add. -/
theorem total_foldl_record {entries : List (String × Nat)}
    (h : c.total + (entries.map (·.2)).sum < Counter.exactLimit) :
    (entries.foldl (fun c e => c.record e.1 e.2) c).total = c.total + (entries.map (·.2)).sum := by
  -- no partial sum is above the whole one, so each counter stays below the limit
  induction entries generalizing c with
  | nil => rfl
  | cons e rest ih =>
      rw [List.map_cons, List.sum_cons] at h ⊢
      have hrecord : (c.record e.1 e.2).total = c.total + e.2 := total_record (by omega)
      rw [List.foldl_cons, ih (by omega), hrecord, Nat.add_assoc]

/-- **The sum of all counters is their total.** -/
theorem sum_eq_total (h : c.total < Counter.exactLimit) : c.sum = c.total := by
  have hfold (entries : List (String × Nat)) (start : Nat)
      (h : start + (entries.map (·.2)).sum < Counter.exactLimit) :
      entries.foldl (fun n e => Counter.rounded (n + e.2)) start =
        start + (entries.map (·.2)).sum := by
    induction entries generalizing start with
    | nil => rfl
    | cons e rest ih =>
        rw [List.map_cons, List.sum_cons] at h ⊢
        rw [List.foldl_cons, Counter.rounded_of_lt (by omega), ih _ (by omega), Nat.add_assoc]
  have hsum := hfold c.entries 0 (by rw [Nat.zero_add]; exact h)
  rw [Nat.zero_add] at hsum
  exact hsum

end Counters

end StyleContract
