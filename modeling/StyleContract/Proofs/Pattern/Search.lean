import StyleContract.Pattern.Search

/-!
# Proofs — Pattern — Search

Where matches are. A match that is found starts somewhere in the text that was searched
(`find?_eq_some`, `mem_findAll`), since a search goes from place to place and never leaves the text.

A pattern that takes at least one character, which can be seen from its form (`consumes`), is not
matched behind the last character: **its matches start before the end of the text**
(`start_lt_of_find?`, `start_lt_of_mem_findAll`).

A pattern may be held at both ends of the text: one character out of a set, then any number out of another
set. `occursIn_anchoredRun` says which texts it matches; the pattern of a schema for rule ids is of this form.
-/

namespace StyleContract.Pattern

variable {p : Pattern} {c d : Cursor} {cs : List Char} {m : Match}

/-! ### Patterns that take a character -/

/-- Whether each match of a pattern has a character, as far as the form of the pattern tells. -/
def consumes : Pattern → Bool
  | .one _ => true
  | .seq p q => p.consumes || q.consumes
  | .alt p q => p.consumes && q.consumes
  | .many least _ _ p => decide (0 < least) && p.consumes
  | .group _ p => p.consumes
  | .empty | .anchor _ | .look _ _ => false

theorem Cursor.Advances.length_le (h : c.Advances d) : d.rest.length ≤ c.rest.length := by
  obtain ⟨cs, hrest, -⟩ := h
  rw [hrest, List.length_append]
  exact Nat.le_add_left _ _

theorem length_le_of_mem_outcomes (h : d ∈ p.outcomes c) : d.rest.length ≤ c.rest.length :=
  (advances_outcomes p c d h).length_le

/-- The first of several repetitions takes a character, and the others give none back. -/
theorem length_lt_of_mem_times {n : Nat} (hn : 0 < n)
    (hp : ∀ e ∈ p.outcomes c, e.rest.length < c.rest.length) (h : d ∈ times p.outcomes n c) :
    d.rest.length < c.rest.length := by
  obtain ⟨n, rfl⟩ := Nat.exists_eq_succ_of_ne_zero (Nat.ne_of_gt hn)
  obtain ⟨e, he, hd⟩ := List.mem_flatMap.1 h
  exact Nat.lt_of_le_of_lt (advances_times (advances_outcomes p) n e d hd).length_le (hp e he)

theorem length_lt_of_mem_outcomes (hp : p.consumes = true) (h : d ∈ p.outcomes c) :
    d.rest.length < c.rest.length := by
  induction p generalizing c d with
  | empty | anchor | look => cases hp
  | one set =>
      obtain ⟨before, rest, groups⟩ := c
      cases rest with
      | nil => cases h
      | cons x xs =>
          simp only [outcomes] at h
          split at h
          · cases List.mem_singleton.1 h
            exact Nat.lt_succ_self _
          · cases h
  | seq p q ihp ihq =>
      -- one of the two parts takes a character, and the other one gives none back
      obtain ⟨e, he, hd⟩ := List.mem_flatMap.1 h
      rw [consumes, Bool.or_eq_true] at hp
      rcases hp with hp | hq
      · exact Nat.lt_of_le_of_lt (length_le_of_mem_outcomes hd) (ihp hp he)
      · exact Nat.lt_of_lt_of_le (ihq hq hd) (length_le_of_mem_outcomes he)
  | alt p q ihp ihq =>
      rw [consumes, Bool.and_eq_true] at hp
      rcases List.mem_append.1 h with h | h
      · exact ihp hp.1 h
      · exact ihq hp.2 h
  | many least more greedy p ih =>
      obtain ⟨e, he, hd⟩ := List.mem_flatMap.1 h
      rw [consumes, Bool.and_eq_true, decide_eq_true_iff] at hp
      exact Nat.lt_of_le_of_lt (advances_upTo (advances_outcomes p) _ e d hd).length_le
        (length_lt_of_mem_times hp.1 (fun _ => ih hp.2) he)
  | group index p ih =>
      obtain ⟨e, he, rfl⟩ := List.mem_map.1 h
      have hlt : e.rest.length < c.rest.length := ih hp he
      exact hlt

/-! ### Places in a text -/

/-- The text that a place lies in. -/
def Cursor.text (c : Cursor) : List Char := c.before.reverse ++ c.rest

theorem Cursor.Advances.text_eq (h : c.Advances d) : d.text = c.text := by
  obtain ⟨cs, hrest, hbefore⟩ := h
  simp [Cursor.text, hrest, hbefore]

theorem advances_of_matchAt (h : p.matchAt c = some d) : c.Advances d :=
  advances_outcomes p c d (List.mem_of_head? h)

/-- The pattern matches a stretch of the text. -/
def Finds (p : Pattern) (cs : List Char) (m : Match) : Prop :=
  ∃ c d : Cursor, c.text = cs ∧ p.matchAt c = some d ∧ m = Match.between c d

/-- **What takes a character does not start behind the last one.** -/
theorem Finds.start_lt (hp : p.consumes = true) (h : p.Finds cs m) : m.start < cs.length := by
  obtain ⟨c, d, rfl, hmatch, rfl⟩ := h
  have hlt := length_lt_of_mem_outcomes hp (List.mem_of_head? hmatch)
  show c.before.length < (c.before.reverse ++ c.rest).length
  rw [List.length_append, List.length_reverse]
  omega

theorem searchFrom_eq_some {before rest : List Char}
    (h : p.searchFrom before rest = some (c, d)) :
    c.text = before.reverse ++ rest ∧ p.matchAt c = some d := by
  induction rest generalizing before with
  | nil =>
      obtain ⟨e, he, heq⟩ := Option.map_eq_some_iff.1 h
      cases heq
      exact ⟨rfl, he⟩
  | cons x xs ih =>
      rw [searchFrom] at h
      split at h
      · next he =>
        cases h
        exact ⟨rfl, he⟩
      · obtain ⟨htext, hmatch⟩ := ih h
        exact ⟨by simpa using htext, hmatch⟩

/-- **The leftmost match** is a match in the text. -/
theorem find?_eq_some (h : p.find? cs = some m) : p.Finds cs m := by
  obtain ⟨⟨c, d⟩, hsearch, rfl⟩ := Option.map_eq_some_iff.1 h
  obtain ⟨htext, hmatch⟩ := searchFrom_eq_some hsearch
  exact ⟨c, d, htext, hmatch, rfl⟩

/-- What is found from a place on is found in the text of the place: the search goes on where the
last match ended, or one character later. -/
theorem mem_allFrom {fuel : Nat} {before rest : List Char} (h : m ∈ p.allFrom fuel before rest) :
    p.Finds (before.reverse ++ rest) m := by
  induction fuel generalizing before rest with
  | zero => cases h
  | succ fuel ih =>
      rw [allFrom] at h
      split at h
      · cases h
      · next c d hsearch =>
        obtain ⟨htext, hmatch⟩ := searchFrom_eq_some hsearch
        -- a match moves on in its text, so both places to go on from are places of the same text
        have hend : d.text = before.reverse ++ rest := (advances_of_matchAt hmatch).text_eq.trans htext
        rcases List.mem_cons.1 h with rfl | h
        · exact ⟨c, d, htext, hmatch, rfl⟩
        · split at h
          · exact hend ▸ ih h
          · split at h
            · cases h
            · next x xs hrest =>
              have hnext : (x :: d.before).reverse ++ xs = d.text := by simp [Cursor.text, hrest]
              exact hend ▸ hnext ▸ ih h

/-- **All matches** are matches in the text. -/
theorem mem_findAll (h : m ∈ p.findAll cs) : p.Finds cs m := mem_allFrom h

theorem start_lt_of_find? (hp : p.consumes = true) (h : p.find? cs = some m) :
    m.start < cs.length := (find?_eq_some h).start_lt hp

theorem start_lt_of_mem_findAll (hp : p.consumes = true) (h : m ∈ p.findAll cs) :
    m.start < cs.length := (mem_findAll h).start_lt hp

/-! ### Patterns held at both ends -/

/-- `^` one character out of `first`, any number out of `more`, `$`. -/
def anchoredRun (first more : CharSet) : Pattern :=
  .seq (.seq (.seq (.seq .empty (.anchor .textStart)) (.one first))
    (.many 0 none true (.one more))) (.anchor .textEnd)

/-- A repetition can reach the end of the text exactly over characters of its set. -/
theorem exists_upTo_end_iff {set : CharSet} {greedy : Bool} :
    ∀ (n : Nat) (c : Cursor), c.rest.length ≤ n →
      ((∃ d ∈ upTo (Pattern.one set).outcomes greedy n c, d.rest = []) ↔
        ∀ x ∈ c.rest, set.has x)
  | 0, c, hn => by
      have : c.rest = [] := List.length_eq_zero_iff.1 (Nat.le_zero.1 hn)
      simp [upTo, this]
  | n + 1, c, hn => by
      obtain ⟨before, rest, groups⟩ := c
      have hmem : ∀ {l : List Cursor} {d : Cursor},
          (d ∈ if greedy then l ++ [⟨before, rest, groups⟩] else ⟨before, rest, groups⟩ :: l) ↔
            d = ⟨before, rest, groups⟩ ∨ d ∈ l := by
        intro l d; cases greedy <;> simp [or_comm]
      cases rest with
      | nil => exact ⟨fun _ => by simp, fun _ => ⟨_, hmem.2 (.inl rfl), rfl⟩⟩
      | cons x xs =>
          have hstep := @exists_upTo_end_iff set greedy n ⟨x :: before, xs, groups⟩
            (Nat.le_of_succ_le_succ hn)
          have hone : (Pattern.one set).outcomes ⟨before, x :: xs, groups⟩ =
              if set.has x then [⟨x :: before, xs, groups⟩] else [] := rfl
          simp only [upTo, hmem, hone, or_and_right, exists_or, exists_eq_left,
            List.forall_mem_cons, reduceCtorEq, false_or]
          by_cases hx : set.has x
          · simpa [hx] using hstep
          · simp [hx]

theorem outcomes_anchoredRun_of_before {first more : CharSet} {before rest : List Char}
    (h : before ≠ []) : (anchoredRun first more).outcomes ⟨before, rest, []⟩ = [] := by
  simp [anchoredRun, outcomes, Cursor.satisfies, h]

/-- Past the start of the text the pattern is never found. -/
theorem searchFrom_anchoredRun_of_before {first more : CharSet} :
    ∀ (rest before : List Char), before ≠ [] →
      (anchoredRun first more).searchFrom before rest = none
  | [], before, h => by simp [searchFrom, matchAt, outcomes_anchoredRun_of_before h]
  | x :: xs, before, h => by
      simp [searchFrom, matchAt, outcomes_anchoredRun_of_before h,
        searchFrom_anchoredRun_of_before xs (x :: before) (List.cons_ne_nil _ _)]

theorem outcomes_anchoredRun_ne_nil_iff {first more : CharSet} {x : Char} {xs : List Char} :
    (anchoredRun first more).outcomes ⟨[], x :: xs, []⟩ ≠ [] ↔
      first.has x ∧ ∀ y ∈ xs, more.has y := by
  have hrun :=
    @exists_upTo_end_iff more true xs.length ⟨[x], xs, []⟩ (Nat.le_refl _)
  by_cases hx : first.has x
  · have h : (anchoredRun first more).outcomes ⟨[], x :: xs, []⟩ =
        (upTo (Pattern.one more).outcomes true xs.length ⟨[x], xs, []⟩).flatMap
          (Pattern.anchor .textEnd).outcomes := by
      simp [anchoredRun, outcomes, Cursor.satisfies, times, hx]
    rw [h, Ne, List.flatMap_eq_nil_iff]
    simp only [hx, true_and, ← hrun, outcomes, Cursor.satisfies, List.isEmpty_iff]
    simp
  · simp [anchoredRun, outcomes, Cursor.satisfies, hx]

/-- **Where an anchored run occurs**: in the texts that start with a character of the first set
and hold nothing but characters of the second set after it. -/
theorem occursIn_anchoredRun {first more : CharSet} {s : String} :
    (anchoredRun first more).occursIn s = true ↔
      ∃ x xs, s.toList = x :: xs ∧ first.has x ∧ ∀ y ∈ xs, more.has y := by
  rw [occursIn]
  cases s.toList with
  | nil => simp [searchFrom, matchAt, anchoredRun, outcomes, Cursor.satisfies]
  | cons x xs =>
      have hcases : ((anchoredRun first more).searchFrom [] (x :: xs)).isSome ↔
          (anchoredRun first more).outcomes ⟨[], x :: xs, []⟩ ≠ [] := by
        rw [searchFrom, matchAt]
        cases (anchoredRun first more).outcomes ⟨[], x :: xs, []⟩ with
        | nil => simp [searchFrom_anchoredRun_of_before xs [x] (List.cons_ne_nil _ _)]
        | cons d ds => simp
      rw [hcases, outcomes_anchoredRun_ne_nil_iff]
      constructor
      · intro h
        exact ⟨x, xs, rfl, h⟩
      · rintro ⟨_, _, ⟨⟩, h⟩
        exact h

end StyleContract.Pattern
