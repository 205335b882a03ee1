import StyleContract.Contract.Basic
import StyleContract.Proofs.Contract.Repeats
import StyleContract.Proofs.Text.ByteOrder
import StyleContract.Synthesis.Dedupe

/-!
# Proofs — Synthesis — Dedupe

What stays of a list of rules: of each id the first (`mem_kept_iff`), in the ascending order of the
ids (`pairwise_ids_kept`). Which rule is first is decided part by part: `isFirst_append_iff` for
rules of two origins, `isFirst_flatMap_iff` for those of many files. What goes are the rules that
come after one of their id (`dropped_eq`), so that each rule either stays or goes
(`perm_kept_append_repeated`). Only the first rule of each id matters for what stays
(`kept_eq_of_firsts`), not the order in which rules of different ids come.

Paths are put in order in the same way before files are looked at (`pairwise_sortedDistinct`).
-/

namespace StyleContract

/-! ### Distinct texts -/

theorem lt_of_le_of_ne {s t : String} (h : s ≤ t) (hne : t ≠ s) : s < t := by
  by_cases hlt : s < t
  · exact hlt
  · exact absurd (String.le_antisymm (String.not_lt.1 hlt) h) hne

theorem pairwise_lt_eraseDups (texts : List String) (h : texts.Pairwise (· ≤ ·)) :
    texts.eraseDups.Pairwise (· < ·) := by
  match texts with
  | [] => exact .nil
  | s :: rest =>
      obtain ⟨hs, hrest⟩ := List.pairwise_cons.1 h
      rw [List.eraseDups_cons, List.pairwise_cons]
      refine ⟨fun t ht => ?_, pairwise_lt_eraseDups _ (hrest.filter _)⟩
      obtain ⟨hmem, hne⟩ := List.mem_filter.1 (List.mem_eraseDups.1 ht)
      exact lt_of_le_of_ne (hs t hmem) (by simpa using hne)
termination_by texts.length
decreasing_by exact Nat.lt_succ_of_le (List.length_filter_le _ _)

theorem pairwise_le_mergeSort (texts : List String) :
    (texts.mergeSort fun a b => decide (a ≤ b)).Pairwise (· ≤ ·) := by
  have htrans (a b c : String) (hab : decide (a ≤ b) = true) (hbc : decide (b ≤ c) = true) :
      decide (a ≤ c) = true :=
    decide_eq_true (String.le_trans (of_decide_eq_true hab) (of_decide_eq_true hbc))
  have htotal (a b : String) : (decide (a ≤ b) || decide (b ≤ a)) = true := by
    simpa using String.le_total a b
  exact (List.pairwise_mergeSort htrans htotal texts).imp of_decide_eq_true

theorem pairwise_sortedDistinct (texts : List String) :
    (sortedDistinct texts).Pairwise (· < ·) :=
  pairwise_lt_eraseDups _ (pairwise_le_mergeSort texts)

theorem mem_sortedDistinct_iff {s : String} {texts : List String} :
    s ∈ sortedDistinct texts ↔ s ∈ texts := by
  rw [sortedDistinct, List.mem_eraseDups, List.mem_mergeSort]

/-- Rules of distinct ids, put in the order of their ids. -/
theorem pairwise_ids_mergeSort {rules : List Rule} (hids : (rules.map Rule.id).Nodup) :
    ((rules.mergeSort fun a b => decide (a.id ≤ b.id)).map Rule.id).Pairwise (· < ·) := by
  have htrans (a b c : Rule) (hab : decide (a.id ≤ b.id) = true) (hbc : decide (b.id ≤ c.id) = true) :
      decide (a.id ≤ c.id) = true :=
    decide_eq_true (String.le_trans (of_decide_eq_true hab) (of_decide_eq_true hbc))
  have htotal (a b : Rule) : (decide (a.id ≤ b.id) || decide (b.id ≤ a.id)) = true := by
    simpa using String.le_total a.id b.id
  have hsorted := List.pairwise_mergeSort htrans htotal rules
  have hnodup := ((List.mergeSort_perm rules fun a b => decide (a.id ≤ b.id)).map Rule.id).nodup_iff.2 hids
  rw [List.pairwise_map]
  rw [List.Nodup, List.pairwise_map] at hnodup
  exact (hsorted.and hnodup).imp fun ⟨hle, hne⟩ =>
    lt_of_le_of_ne (of_decide_eq_true hle) (Ne.symm hne)

/-- What ascends strictly in a key is told by its members. -/
theorem eq_of_pairwise_key {α : Type} (key : α → String) {as bs : List α}
    (has : as.Pairwise (key · < key ·)) (hbs : bs.Pairwise (key · < key ·))
    (h : ∀ a, a ∈ as ↔ a ∈ bs) : as = bs := by
  have hnodup : ∀ {items : List α}, items.Pairwise (key · < key ·) → items.Nodup := fun hitems =>
    hitems.imp fun hlt heq => String.ne_of_lt hlt (congrArg key heq)
  refine ((List.perm_ext_iff_of_nodup (hnodup has) (hnodup hbs)).2 h).eq_of_pairwise ?_ has hbs
  exact fun _ _ _ _ hlt hgt => absurd hgt (String.lt_asymm hlt)

/-! ### First rules -/

/-- A rule comes first in a list: no rule before it has its id. -/
def IsFirst (r : Rule) (rules : List Rule) : Prop :=
  ∃ pre post, rules = pre ++ r :: post ∧ ∀ q ∈ pre, q.id ≠ r.id

theorem isFirst_cons_iff {r q : Rule} {rules : List Rule} :
    IsFirst r (q :: rules) ↔ r = q ∨ (q.id ≠ r.id ∧ IsFirst r rules) := by
  constructor
  · rintro ⟨_ | ⟨p, pre⟩, post, heq, hpre⟩
    · exact .inl (by simpa using (List.cons.inj heq).1.symm)
    · obtain ⟨rfl, rfl⟩ := List.cons.inj heq
      obtain ⟨hq, hpre⟩ := List.forall_mem_cons.1 hpre
      exact .inr ⟨hq, pre, post, rfl, hpre⟩
  · rintro (rfl | ⟨hq, pre, post, rfl, hpre⟩)
    · exact ⟨[], rules, rfl, by simp⟩
    · exact ⟨q :: pre, post, rfl, List.forall_mem_cons.2 ⟨hq, hpre⟩⟩

theorem not_isFirst_nil {r : Rule} : ¬ IsFirst r [] := by
  rintro ⟨pre, post, heq, -⟩
  simp at heq

theorem IsFirst.mem {r : Rule} {rules : List Rule} (h : IsFirst r rules) : r ∈ rules := by
  obtain ⟨pre, post, rfl, -⟩ := h
  simp

theorem isFirst_append_iff {r : Rule} {as bs : List Rule} :
    IsFirst r (as ++ bs) ↔ IsFirst r as ∨ ((∀ q ∈ as, q.id ≠ r.id) ∧ IsFirst r bs) := by
  induction as with
  | nil => simp [not_isFirst_nil]
  | cons a as ih =>
      rw [List.cons_append, isFirst_cons_iff, isFirst_cons_iff, ih, List.forall_mem_cons,
        and_or_left, or_assoc, and_assoc]

/-- First among the rules of many parts: in one part, and the parts before have none of its id. -/
theorem isFirst_flatMap_iff {α : Type} {f : α → List Rule} {parts : List α} {r : Rule} :
    IsFirst r (parts.flatMap f) ↔
      ∃ before a after, parts = before ++ a :: after ∧ IsFirst r (f a) ∧
        ∀ b ∈ before, ∀ q ∈ f b, q.id ≠ r.id := by
  induction parts with
  | nil => simp [not_isFirst_nil]
  | cons a parts ih =>
      rw [List.flatMap_cons, isFirst_append_iff, ih]
      constructor
      · rintro (h | ⟨hnone, before, b, after, rfl, h, hbefore⟩)
        · exact ⟨[], a, parts, rfl, h, by simp⟩
        · exact ⟨a :: before, b, after, rfl, h, List.forall_mem_cons.2 ⟨hnone, hbefore⟩⟩
      · rintro ⟨_ | ⟨c, before⟩, b, after, heq, h, hbefore⟩
        · obtain ⟨rfl, rfl⟩ := List.cons.inj heq
          exact .inl h
        · obtain ⟨rfl, rfl⟩ := List.cons.inj heq
          obtain ⟨hnone, hbefore⟩ := List.forall_mem_cons.1 hbefore
          exact .inr ⟨hnone, before, b, after, rfl, h, hbefore⟩

namespace Dedupe

/-- **A rule stays if it is the first of its id.** -/
theorem mem_firsts_iff {seen : List String} {rules : List Rule} {r : Rule} :
    r ∈ firsts seen rules ↔ r.id ∉ seen ∧ IsFirst r rules := by
  -- on the rules, for any ids seen before them: those of the rules that were passed
  induction rules generalizing seen with
  | nil => simp [firsts, not_isFirst_nil]
  | cons q qs ih =>
      rw [firsts, isFirst_cons_iff]
      split
      · next hq =>
        rw [ih]
        -- a rule of an id that was seen is not the one that is asked for
        refine and_congr_right fun hr => ?_
        have hid : q.id ≠ r.id := fun h => hr (h ▸ hq)
        have hne : r ≠ q := fun h => hid (h ▸ rfl)
        simp [hid, hne]
      · next hq =>
        rw [List.mem_cons, ih]
        constructor
        · rintro (rfl | ⟨hr, h⟩)
          · exact ⟨hq, .inl rfl⟩
          · rw [List.mem_cons, not_or] at hr
            exact ⟨hr.2, .inr ⟨Ne.symm hr.1, h⟩⟩
        · rintro ⟨hr, rfl | ⟨hid, h⟩⟩
          · exact .inl rfl
          · rw [List.mem_cons, not_or]
            exact .inr ⟨⟨Ne.symm hid, hr⟩, h⟩

theorem mem_kept_iff {rules : List Rule} {r : Rule} : r ∈ kept rules ↔ IsFirst r rules := by
  rw [kept, List.mem_mergeSort, mem_firsts_iff]
  simp

theorem nodup_ids_kept (rules : List Rule) : ((kept rules).map Rule.id).Nodup := by
  have hperm : ((kept rules).map Rule.id).Perm ((firsts [] rules).map Rule.id) :=
    (List.mergeSort_perm _ _).map _
  exact hperm.nodup_iff.2 (nodup_ids_firsts [] rules)

/-- **What stays is in the ascending order of the ids**, and no id is there twice. -/
theorem pairwise_ids_kept (rules : List Rule) : ((kept rules).map Rule.id).Pairwise (· < ·) :=
  pairwise_ids_mergeSort (nodup_ids_firsts [] rules)

/-! ### What goes -/

theorem repeats_eq_repeatedAfter {seen : List String} (before : List Rule) {rules : List Rule}
    (hseen : ∀ id, id ∈ seen ↔ id ∈ before.map Rule.id) :
    repeats seen rules = (repeatedAfter before rules).map Prod.fst := by
  -- the ids that were seen are always those of the rules before
  induction rules generalizing seen before with
  | nil => rfl
  | cons r rules ih =>
      rw [repeats, repeatedAfter_cons]
      simp only [← hseen]
      split
      · next hr => rw [List.map_cons, ih _ (mem_seen_iff_of_mem hseen hr)]
      · rw [ih _ (mem_cons_seen_iff hseen)]

theorem repeats_eq (rules : List Rule) : repeats [] rules = (repeated rules).map Prod.fst :=
  repeats_eq_repeatedAfter [] fun _ => by simp

/-- **What goes is what comes after a rule of its id**, in the order in which it came. -/
theorem dropped_eq (rules : List Rule) :
    dropped rules =
      (repeated rules).map fun e => ⟨e.1.id, e.1.statement, e.1.evidence.head?.map (·.path)⟩ := by
  rw [dropped, repeats_eq, List.map_map]
  rfl

theorem perm_firsts_append_repeats (seen : List String) (rules : List Rule) :
    (firsts seen rules ++ repeats seen rules).Perm rules := by
  -- whatever was seen, a rule goes to one of the two lists and not to both
  induction rules generalizing seen with
  | nil => exact .nil
  | cons r rules ih =>
      rw [firsts, repeats]
      split
      · exact List.perm_middle.trans ((ih seen).cons r)
      · exact (ih (r.id :: seen)).cons r

/-- **Every rule either stays or goes**, as often as it came. -/
theorem perm_kept_append_repeated (rules : List Rule) :
    (kept rules ++ (repeated rules).map Prod.fst).Perm rules := by
  have hfirsts : (kept rules).Perm (firsts [] rules) := List.mergeSort_perm _ _
  rw [← repeats_eq]
  exact (hfirsts.append_right _).trans (perm_firsts_append_repeats [] rules)

theorem length_kept_add_length_dropped (rules : List Rule) :
    (kept rules).length + (dropped rules).length = rules.length := by
  have hlength := (perm_kept_append_repeated rules).length_eq
  rw [List.length_append, List.length_map] at hlength
  rw [dropped_eq, List.length_map, hlength]

/-! ### Look-ups -/

theorem find?_eq_some_iff_isFirst {rules : List Rule} {id : String} {r : Rule} :
    rules.find? (·.id == id) = some r ↔ IsFirst r rules ∧ r.id = id := by
  rw [List.find?_eq_some_iff_append, beq_iff_eq, and_comm]
  refine and_congr_left fun hid => ?_
  subst hid
  simp [IsFirst]

/-- Where all ids differ, each rule is the first of its id. -/
theorem isFirst_iff_mem {rules : List Rule} (h : (rules.map Rule.id).Nodup) {r : Rule} :
    IsFirst r rules ↔ r ∈ rules := by
  refine ⟨IsFirst.mem, fun hr => ?_⟩
  obtain ⟨pre, post, rfl⟩ := List.append_of_mem hr
  refine ⟨pre, post, rfl, fun q hq hid => ?_⟩
  rw [List.map_append, List.nodup_append] at h
  exact h.2.2 q.id (List.mem_map_of_mem hq) r.id (List.mem_map_of_mem List.mem_cons_self) hid

/-- **The rule of an id** is the same before and after. -/
theorem find?_kept (rules : List Rule) (id : String) :
    (kept rules).find? (·.id == id) = rules.find? (·.id == id) := by
  refine Option.ext fun r => ?_
  rw [find?_eq_some_iff_isFirst, find?_eq_some_iff_isFirst, isFirst_iff_mem (nodup_ids_kept rules),
    mem_kept_iff]

theorem mem_ids_iff_isSome_find? {rules : List Rule} {id : String} :
    id ∈ rules.map Rule.id ↔ (rules.find? (·.id == id)).isSome := by
  simp

/-- **The same ids** occur before and after. -/
theorem mem_ids_kept_iff {rules : List Rule} {id : String} :
    id ∈ (kept rules).map Rule.id ↔ id ∈ rules.map Rule.id := by
  rw [mem_ids_iff_isSome_find?, mem_ids_iff_isSome_find?, find?_kept]

/-! ### What it depends on -/

/-- **Only the first rule of each id matters.** -/
theorem kept_eq_of_firsts {as bs : List Rule}
    (h : ∀ id, as.find? (·.id == id) = bs.find? (·.id == id)) : kept as = kept bs := by
  refine eq_of_pairwise_key Rule.id (List.pairwise_map.1 (pairwise_ids_kept as))
    (List.pairwise_map.1 (pairwise_ids_kept bs)) fun r => ?_
  rw [mem_kept_iff, mem_kept_iff]
  have hfirst : ∀ {rules : List Rule}, IsFirst r rules ↔ rules.find? (·.id == r.id) = some r := by
    simp [find?_eq_some_iff_isFirst]
  rw [hfirst, hfirst, h]

theorem find?_eq_of_filter_eq {as bs : List Rule} {id : String}
    (h : as.filter (·.id == id) = bs.filter (·.id == id)) :
    as.find? (·.id == id) = bs.find? (·.id == id) := by
  rw [← List.head?_filter, h, List.head?_filter]

/-- What stays of what stays is all of it. -/
theorem kept_kept (rules : List Rule) : kept (kept rules) = kept rules :=
  kept_eq_of_firsts (find?_kept rules)

theorem dropped_kept (rules : List Rule) : dropped (kept rules) = [] := by
  rw [dropped_eq, repeated_eq_nil (nodup_ids_kept rules), List.map_nil]

/-- **Of each id the first rule stays, and all others go.** What stays is in the ascending order of
the bytes of the ids, what goes in the order in which it came. What stays is not changed by doing it
again, and depends on nothing but the first rule of each id. -/
theorem firsts_stay_in_order (rules : List Rule) :
    ((kept rules).map fun r => Text.bytes r.id).Pairwise (· < ·) ∧
      (∀ id, id ∈ (kept rules).map Rule.id ↔ id ∈ rules.map Rule.id) ∧
      (∀ id, (kept rules).find? (·.id == id) = rules.find? (·.id == id)) ∧
      dropped rules = (repeated rules).map (fun e =>
        ⟨e.1.id, e.1.statement, e.1.evidence.head?.map (·.path)⟩) ∧
      (kept rules ++ (repeated rules).map Prod.fst).Perm rules ∧
      kept (kept rules) = kept rules ∧ dropped (kept rules) = [] ∧
      (∀ others : List Rule, (∀ id, others.find? (·.id == id) = rules.find? (·.id == id)) →
        kept others = kept rules) ∧
      ∀ others : List Rule, others.Perm rules →
        (∀ id, others.filter (·.id == id) = rules.filter (·.id == id)) →
          kept others = kept rules := by
  refine ⟨?_, fun _ => mem_ids_kept_iff, find?_kept rules, dropped_eq rules,
    perm_kept_append_repeated rules, kept_kept rules, dropped_kept rules,
    fun _ h => kept_eq_of_firsts h, fun _ _ h => kept_eq_of_firsts fun id =>
      find?_eq_of_filter_eq (h id)⟩
  have hids := pairwise_ids_kept rules
  rw [List.pairwise_map] at hids ⊢
  exact hids.imp Text.lt_iff_bytes_lt.1

end Dedupe

end StyleContract
