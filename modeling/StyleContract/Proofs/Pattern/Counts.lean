import StyleContract.Proofs.Pattern.All

/-!
# Proofs — Pattern — Counts

How many matches two patterns have in one text. The matches of each are looked for on their own, so one of
the first pattern may lie across several of the second. Still **the first pattern has no more matches**
(`length_findAll_le`) if each of its matches begins with one of the second, and if matches of the second end in the
order in which they start.

A pattern that looks for one character behind what cannot hold it (`avoids`) ends at the first place
of the character, wherever it starts: its matches end in order.
-/

namespace StyleContract.Pattern

variable {p q : Pattern} {c d e : Cursor} {fuel fuel' : Nat} {cs : List Char} {x : Char}

/-! ### Two patterns -/

/-- Of two places ahead, the one with less behind it is ahead of the other. -/
theorem Cursor.Advances.of_length_le (hd : c.Advances d) (he : c.Advances e)
    (hle : e.rest.length ≤ d.rest.length) : d.Advances e := by
  obtain ⟨as, has, hbefore⟩ := hd
  obtain ⟨bs, hbs, hbefore'⟩ := he
  obtain ⟨more, rfl, hmore⟩ : ∃ more, bs = as ++ more ∧ d.rest = more ++ e.rest := by
    rcases List.append_eq_append_iff.1 (has.symm.trans hbs) with h | ⟨more, rfl, hmore⟩
    · exact h
    · have hlength := congrArg List.length hmore
      rw [List.length_append] at hlength
      have hnil : more = [] := List.eq_nil_of_length_eq_zero (by omega)
      exact ⟨[], by rw [hnil]; simp, by rw [hmore, hnil]; rfl⟩
  exact ⟨more, hmore, by rw [hbefore', hbefore]; simp⟩

theorem advances_place (c : Cursor) {u v : List Char} (h : c.rest = u ++ v) :
    c.Advances (place c.before u v) := ⟨u, h, rfl⟩

/-- Each match of the first pattern begins with one of the second. -/
def BeginsWith (p q : Pattern) : Prop :=
  ∀ c d, p.matchAt c = some d → ∃ e, q.matchAt c = some e ∧ e.Advances d

/-- Matches end in the order in which they start. -/
def EndsInOrder (q : Pattern) : Prop :=
  ∀ c d e f, c.Advances d → q.matchAt c = some e → q.matchAt d = some f → f.rest.length ≤ e.rest.length

/-- The search for the second pattern is never ahead of the search for the first one. -/
theorem length_allFrom_le (hp : p.consumes = true) (hq : q.consumes = true) (hpq : p.BeginsWith q)
    (horder : q.EndsInOrder) (hcd : c.Advances d) (hfuel : c.rest.length < fuel') :
    (p.allFrom fuel d.before d.rest).length ≤ (q.allFrom fuel' c.before c.rest).length := by
  induction fuel generalizing c d fuel' with
  | zero => exact Nat.zero_le _
  | succ fuel ih =>
      cases hsearch : p.searchFrom d.before d.rest with
      | none =>
          rw [allFrom_of_none hsearch]
          exact Nat.zero_le _
      | some r =>
          obtain ⟨d₁, d₂⟩ := r
          obtain ⟨fuel', rfl⟩ := Nat.exists_eq_succ_of_ne_zero (Nat.ne_of_gt (Nat.zero_lt_of_lt hfuel))
          obtain ⟨skipped, hrest, hd₁, hmatch, -⟩ := searchFrom_eq_some_iff.1 hsearch
          obtain ⟨e, he, hahead⟩ := hpq d₁ d₂ hmatch
          -- the second pattern matches there too, so that its search stops there or before
          obtain ⟨as, has, hbefore⟩ := hcd
          rw [hrest, ← List.append_assoc] at has
          have hplace : d₁ = place c.before (as ++ skipped) d₁.rest := by
            rw [place, List.reverse_append, List.append_assoc, ← hbefore]
            exact hd₁
          rw [hplace] at he
          obtain ⟨u, v, e₂, huv, hsearch', hfirst⟩ := exists_searchFrom he
          rw [← has] at hsearch'
          rw [huv, List.append_assoc] at has
          rw [allFrom_of_some hp hsearch, allFrom_of_some hq hsearch', List.length_cons, List.length_cons]
          have hlt := length_lt_of_mem_outcomes hq (List.mem_of_head? hfirst)
          have hlast : e.rest.length ≤ e₂.rest.length := by
            refine horder _ _ _ _ ⟨v, rfl, ?_⟩ hfirst he
            simp [place, huv]
          have hce : c.Advances e₂ := (advances_place c has).trans (advances_of_matchAt hfirst)
          have hcd : c.Advances d₂ := by
            rw [hplace, huv] at hmatch
            exact (advances_place c (by simpa using has)).trans (advances_of_matchAt hmatch)
          refine Nat.succ_le_succ (ih (hce.of_length_le hcd (hahead.length_le.trans hlast)) ?_)
          have hle := (advances_place c has).length_le
          omega

/-- **The first pattern has no more matches.** -/
theorem length_findAll_le (hp : p.consumes = true) (hq : q.consumes = true) (hpq : p.BeginsWith q)
    (horder : q.EndsInOrder) (cs : List Char) : (p.findAll cs).length ≤ (q.findAll cs).length :=
  length_allFrom_le hp hq hpq horder (Cursor.Advances.refl (.start cs)) (Nat.lt_succ_self _)

/-! ### Up to a character -/

/-- Whether no match of a pattern has the character, as far as the form of the pattern tells. -/
def avoids (x : Char) : Pattern → Bool
  | .one set => !set.has x
  | .seq p q | .alt p q => p.avoids x && q.avoids x
  | .many _ _ _ p | .group _ p => p.avoids x
  | .empty | .anchor _ | .look _ _ => true

/-- What lies between two places does not hold a character. -/
def Cursor.Skips (x : Char) (c d : Cursor) : Prop := ∃ cs, c.rest = cs ++ d.rest ∧ x ∉ cs

theorem Cursor.Skips.refl (x : Char) (c : Cursor) : c.Skips x c := ⟨[], rfl, List.not_mem_nil⟩

theorem Cursor.Skips.trans (h : c.Skips x d) (h' : d.Skips x e) : c.Skips x e := by
  obtain ⟨as, has, hnot⟩ := h
  obtain ⟨bs, hbs, hnot'⟩ := h'
  refine ⟨as ++ bs, by rw [has, hbs, List.append_assoc], ?_⟩
  rw [List.mem_append]
  exact not_or.2 ⟨hnot, hnot'⟩

section

variable {step : Cursor → List Cursor} (hs : ∀ c, ∀ d ∈ step c, c.Skips x d)

include hs

theorem skips_times (n : Nat) (h : d ∈ times step n c) : c.Skips x d := by
  induction n generalizing c with
  | zero => exact List.mem_singleton.1 h ▸ .refl x c
  | succ n ih =>
      obtain ⟨e, he, hd⟩ := List.mem_flatMap.1 h
      exact (hs c e he).trans (ih hd)

theorem skips_upTo {greedy : Bool} (n : Nat) (h : d ∈ upTo step greedy n c) : c.Skips x d := by
  induction n generalizing c with
  | zero => exact List.mem_singleton.1 h ▸ .refl x c
  | succ n ih =>
      have hcases : d = c ∨
          d ∈ ((step c).filter (·.rest.length < c.rest.length)).flatMap (upTo step greedy n) := by
        cases greedy <;> simpa [upTo, or_comm] using h
      rcases hcases with rfl | hlonger
      · exact .refl x d
      · obtain ⟨e, he, hd⟩ := List.mem_flatMap.1 hlonger
        exact (hs c e (List.mem_filter.1 he).1).trans (ih hd)

end

theorem skips_of_avoids (hp : p.avoids x = true) (h : d ∈ p.outcomes c) : c.Skips x d := by
  induction p generalizing c d with
  | empty => exact List.mem_singleton.1 h ▸ .refl x c
  | one set =>
      obtain ⟨y, ys, hy, hrest, rfl⟩ := mem_outcomes_one_iff.1 h
      refine ⟨[y], hrest, fun hx => ?_⟩
      rw [avoids, List.mem_singleton.1 hx, hy] at hp
      cases hp
  | seq p q ihp ihq =>
      rw [avoids, Bool.and_eq_true] at hp
      obtain ⟨e, he, hd⟩ := List.mem_flatMap.1 h
      exact (ihp hp.1 he).trans (ihq hp.2 hd)
  | alt p q ihp ihq =>
      rw [avoids, Bool.and_eq_true] at hp
      rcases List.mem_append.1 h with h | h
      · exact ihp hp.1 h
      · exact ihq hp.2 h
  | many least more greedy p ih =>
      obtain ⟨e, he, hd⟩ := List.mem_flatMap.1 h
      have hstep : ∀ c, ∀ d ∈ p.outcomes c, c.Skips x d := fun _ _ => ih hp
      exact (skips_times hstep least he).trans (skips_upTo hstep _ hd)
  | group index p ih =>
      obtain ⟨e, he, rfl⟩ := List.mem_map.1 h
      have hskips : c.Skips x e := ih hp he
      exact hskips
  | anchor a =>
      obtain ⟨-, hd⟩ := List.mem_ite_nil_right.1 h
      exact List.mem_singleton.1 hd ▸ .refl x c
  | look ahead p _ =>
      obtain ⟨-, hd⟩ := List.mem_ite_nil_left.1 h
      exact List.mem_singleton.1 hd ▸ .refl x c

/-- A pattern ends behind the first place of a character. -/
def EndsAtFirst (x : Char) (p : Pattern) : Prop :=
  ∀ c, ∀ d ∈ p.outcomes c, ∃ cs, c.rest = cs ++ x :: d.rest ∧ x ∉ cs

theorem endsAtFirst_one (x : Char) : (Pattern.one (.only x)).EndsAtFirst x := by
  intro c d h
  obtain ⟨y, ys, hy, hrest, rfl⟩ := mem_outcomes_one_iff.1 h
  cases beq_iff_eq.1 hy
  exact ⟨[], hrest, List.not_mem_nil⟩

theorem EndsAtFirst.then_empty (h : q.EndsAtFirst x) : (Pattern.seq q .empty).EndsAtFirst x := by
  intro c d hd
  obtain ⟨e, he, hd⟩ := List.mem_flatMap.1 hd
  exact List.mem_singleton.1 hd ▸ h c e he

/-- What cannot hold the character may stand in front. -/
theorem EndsAtFirst.after (h : q.EndsAtFirst x) (hp : p.avoids x = true) :
    (Pattern.seq p q).EndsAtFirst x := by
  intro c d hd
  obtain ⟨e, he, hd⟩ := List.mem_flatMap.1 hd
  obtain ⟨as, has, hnot⟩ := skips_of_avoids hp he
  obtain ⟨bs, hbs, hnot'⟩ := h e d hd
  refine ⟨as ++ bs, by rw [has, hbs, List.append_assoc], ?_⟩
  rw [List.mem_append]
  exact not_or.2 ⟨hnot, hnot'⟩

/-- What starts later does not end before. -/
theorem EndsAtFirst.length_le {e f : Cursor} (h : q.EndsAtFirst x) (hcd : c.Advances d)
    (he : e ∈ q.outcomes c) (hf : f ∈ q.outcomes d) : f.rest.length ≤ e.rest.length := by
  obtain ⟨as, has, hnot⟩ := h c e he
  obtain ⟨bs, hbs, -⟩ := h d f hf
  obtain ⟨u, hu, -⟩ := hcd
  have hsplit : as ++ x :: e.rest = (u ++ bs) ++ x :: f.rest := by
    rw [← has, hu, hbs, List.append_assoc]
  rcases List.append_eq_append_iff.1 hsplit with ⟨more, -, hmore⟩ | ⟨more, rfl, hmore⟩
  · have hlength := congrArg List.length hmore
    simp only [List.length_append, List.length_cons] at hlength
    omega
  · -- the first place of the character is not behind another one
    cases more with
    | nil => exact Nat.le_of_eq (congrArg List.length (List.cons.inj hmore).2)
    | cons y more =>
        obtain ⟨rfl, -⟩ := List.cons.inj hmore
        simp at hnot

/-- **What ends at the first place of a character ends in order.** -/
theorem EndsAtFirst.endsInOrder (h : q.EndsAtFirst x) : q.EndsInOrder := fun _ _ _ _ hcd he hf =>
  h.length_le hcd (List.mem_of_head? he) (List.mem_of_head? hf)

/-- Whichever way the pattern is matched in front of another one, it ends where it prefers to. -/
theorem EndsAtFirst.beginsWith (h : q.EndsAtFirst x) (p : Pattern) : (Pattern.seq q p).BeginsWith q := by
  intro c d hd
  obtain ⟨e, he, hmore⟩ := List.mem_flatMap.1 (List.mem_of_head? hd)
  obtain ⟨f, hf⟩ : ∃ f, q.matchAt c = some f := by
    rw [matchAt, ← Option.isSome_iff_exists, List.isSome_head?]
    exact List.ne_nil_of_mem he
  refine ⟨f, hf, (advances_of_matchAt hf).of_length_le (advances_of_matchAt hd) ?_⟩
  exact (length_le_of_mem_outcomes hmore).trans (h.length_le (.refl c) (List.mem_of_head? hf) he)

end StyleContract.Pattern
