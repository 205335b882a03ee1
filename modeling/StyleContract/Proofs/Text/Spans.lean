import Mathlib.Data.List.Basic
import Mathlib.Data.List.TakeWhile
import StyleContract.Text.Blank

/-!
# Proofs — Text — Spans

A longest run of characters with a property, in front of something that does not go on with it: taking the
run gives the run, and dropping it leaves the rest.

Trimming drops such runs at both ends: what is added there (`trimChars_append`), and nothing of what begins
and ends otherwise (`trimChars_of_ends`).
-/

namespace StyleContract.Text

variable {α : Type} {f : α → Bool} {run rest : List α}

theorem takeWhile_append_of_head (hrun : ∀ c ∈ run, f c = true)
    (hrest : rest.head?.all fun c => !f c) : (run ++ rest).takeWhile f = run := by
  rw [List.takeWhile_append_of_pos hrun]
  cases rest with
  | nil => rw [List.takeWhile_nil, List.append_nil]
  | cons c rest =>
      have hc : f c = false := by simpa using hrest
      simp [hc]

theorem dropWhile_append_of_head (hrun : ∀ c ∈ run, f c = true)
    (hrest : rest.head?.all fun c => !f c) : (run ++ rest).dropWhile f = rest := by
  rw [List.dropWhile_append_of_pos hrun]
  cases rest with
  | nil => rfl
  | cons c rest =>
      have hc : f c = false := by simpa using hrest
      simp [hc]

theorem head?_any_append (hne : run ≠ []) (hrun : ∀ c ∈ run, f c = true) (rest : List α) :
    (run ++ rest).head?.any f = true := by
  obtain ⟨c, run, rfl⟩ := List.exists_cons_of_ne_nil hne
  exact hrun c List.mem_cons_self

/-- As many characters as a run has are dropped with it. -/
theorem drop_length_takeWhile (f : α → Bool) (cs : List α) :
    cs.drop (cs.takeWhile f).length = cs.dropWhile f := by
  induction cs with
  | nil => rfl
  | cons c cs ih => by_cases hc : f c = true <;> simp [hc, ih]

/-- What is left once a run is dropped does not go on with it. -/
theorem all_head?_dropWhile (f : α → Bool) (cs : List α) :
    (cs.dropWhile f).head?.all (fun c => !f c) = true := by
  have h := List.head?_dropWhile_not f cs
  split at h
  · next hhead => simp [hhead, h]
  · next hhead => simp [hhead]

/-! ### Both ends of a text -/

variable {p : Char → Bool} {cs before after : List Char} {c d : Char}

theorem dropTailWhile_append (h : ∀ c ∈ after, p c = true) :
    dropTailWhile p (cs ++ after) = dropTailWhile p cs := by
  rw [dropTailWhile, dropTailWhile, List.reverse_append, List.dropWhile_append_of_pos]
  exact fun c hc => h c (List.mem_reverse.1 hc)

theorem dropTailWhile_concat (h : p d = false) : dropTailWhile p (cs ++ [d]) = cs ++ [d] := by
  simp [dropTailWhile, h]

/-- Nothing is dropped in front of a character that stays. -/
theorem dropTailWhile_append_cons (h : p d = false) :
    dropTailWhile p (cs ++ d :: after) = cs ++ d :: dropTailWhile p after := by
  rw [List.append_cons, List.append_cons _ d (dropTailWhile p after)]
  by_cases hafter : ∀ c ∈ after, p c = true
  · rw [dropTailWhile_append hafter, dropTailWhile_concat h, dropTailWhile_eq_nil_iff.2 hafter,
      List.append_nil]
  · have hrest : ¬ (after.reverse.dropWhile p).isEmpty = true := by
      rw [List.isEmpty_iff, dropWhile_eq_nil_iff]
      simpa using hafter
    rw [dropTailWhile, dropTailWhile, List.reverse_append, List.dropWhile_append, if_neg hrest,
      List.reverse_append, List.reverse_reverse]

/-- What is dropped at the end are characters that do not stay. -/
theorem exists_dropTailWhile_append (p : Char → Bool) (cs : List Char) :
    ∃ dropped, cs = dropTailWhile p cs ++ dropped ∧ ∀ c ∈ dropped, p c = true := by
  refine ⟨(cs.reverse.takeWhile p).reverse, ?_, fun c hc => ?_⟩
  · rw [dropTailWhile, ← List.reverse_append, List.takeWhile_append_dropWhile, List.reverse_reverse]
  · exact List.mem_takeWhile_imp (List.mem_reverse.1 hc)

theorem prefix_dropTailWhile (p : Char → Bool) (cs : List Char) : dropTailWhile p cs <+: cs := by
  obtain ⟨dropped, heq, -⟩ := exists_dropTailWhile_append p cs
  exact ⟨dropped, heq.symm⟩

/-- What is added at the two ends is dropped again. -/
theorem trimChars_append (hbefore : ∀ c ∈ before, p c = true) (hafter : ∀ c ∈ after, p c = true) :
    trimChars p (before ++ (cs ++ after)) = trimChars p cs := by
  rw [trimChars, List.dropWhile_append_of_pos hbefore]
  by_cases hcs : ∀ c ∈ cs, p c = true
  · -- then nothing is left of either text
    have hall : ∀ c ∈ cs ++ after, p c = true := List.forall_mem_append.2 ⟨hcs, hafter⟩
    rw [dropWhile_eq_nil_iff.2 hall, trimChars, dropWhile_eq_nil_iff.2 hcs]
  · rw [List.dropWhile_append, if_neg, dropTailWhile_append hafter, trimChars]
    rwa [List.isEmpty_iff, dropWhile_eq_nil_iff]

/-- Nothing is dropped between two ends that stay. -/
theorem trimChars_of_ends (hc : p c = false) (hd : p d = false) :
    trimChars p (c :: (cs ++ [d])) = c :: (cs ++ [d]) := by
  have hfront : (c :: (cs ++ [d])).dropWhile p = c :: cs ++ [d] := by simp [hc]
  rw [trimChars, hfront, dropTailWhile_concat hd]
  rfl

end StyleContract.Text
