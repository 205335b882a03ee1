import StyleContract.Proofs.Pattern.Language
import StyleContract.Proofs.Pattern.Search

/-!
# Proofs — Pattern — All

All matches of a pattern in a text, for a pattern that takes at least one character (`consumes`). They are
matches at places of the text (`exists_of_mem_findAll`), each behind the one before it (`pairwise_findAll`).

A place where the pattern matches may be passed over, since the search goes on at the end of a match. But **a
place that no earlier match reaches over is found** (`mem_findAll_of_apart`).
-/

namespace StyleContract.Pattern

variable {p : Pattern} {c d e : Cursor} {before rest cs u v : List Char} {fuel : Nat} {m : Match}
  {L : Language Char}

/-- The place behind some characters of a text. -/
def place (before : List Char) (u v : List Char) : Cursor := ⟨u.reverse ++ before, v, []⟩

/-- A search stops at the place of a match or before. -/
theorem exists_searchFrom (h : p.matchAt (place before u v) = some d) :
    ∃ x y e, u = x ++ y ∧ p.searchFrom before (u ++ v) = some (place before x (y ++ v), e) ∧
      p.matchAt (place before x (y ++ v)) = some e := by
  induction u generalizing before with
  | nil =>
      refine ⟨[], [], d, rfl, ?_, h⟩
      cases v with
      | nil => exact congrArg (Option.map _) h
      | cons x xs =>
          rw [List.nil_append, searchFrom, show p.matchAt ⟨before, x :: xs, []⟩ = some d from h]
          rfl
  | cons a u ih =>
      cases hfirst : p.matchAt ⟨before, a :: u ++ v, []⟩ with
      | some e =>
          refine ⟨[], a :: u, e, rfl, ?_, hfirst⟩
          rw [List.cons_append] at hfirst ⊢
          rw [searchFrom, hfirst]
          rfl
      | none =>
          have hnext : p.matchAt (place (a :: before) u v) = some d := by
            simpa [place] using h
          obtain ⟨x, y, e, rfl, hsearch, hmatch⟩ := ih hnext
          refine ⟨a :: x, y, e, rfl, ?_, by simpa [place] using hmatch⟩
          rw [List.cons_append] at hfirst ⊢
          rw [searchFrom, hfirst]
          simpa [place] using hsearch

/-- What takes a character goes on where its match ends. -/
theorem allFrom_of_some (hp : p.consumes = true) (h : p.searchFrom before rest = some (c, d)) :
    p.allFrom (fuel + 1) before rest = Match.between c d :: p.allFrom fuel d.before d.rest := by
  have hlt := length_lt_of_mem_outcomes hp (List.mem_of_head? (searchFrom_eq_some h).2)
  rw [allFrom, h]
  exact congrArg _ (if_pos hlt)

theorem allFrom_of_none (h : p.searchFrom before rest = none) : p.allFrom fuel before rest = [] := by
  cases fuel with
  | zero => rfl
  | succ fuel => rw [allFrom, h]

/-- **A match among all matches** is one at a place of the text. -/
theorem exists_of_mem_allFrom (hp : p.consumes = true) (h : m ∈ p.allFrom fuel before rest) :
    ∃ u v d, rest = u ++ v ∧ p.matchAt (place before u v) = some d ∧
      m = Match.between (place before u v) d := by
  induction fuel generalizing before rest with
  | zero => cases h
  | succ fuel ih =>
      cases hsearch : p.searchFrom before rest with
      | none =>
          rw [allFrom_of_none hsearch] at h
          cases h
      | some r =>
          obtain ⟨c, d⟩ := r
          obtain ⟨skipped, hrest, hc, hmatch, -⟩ := searchFrom_eq_some_iff.1 hsearch
          rw [allFrom_of_some hp hsearch] at h
          rcases List.mem_cons.1 h with rfl | h
          · exact ⟨skipped, c.rest, d, hrest, hc ▸ hmatch, by rw [place, ← hc]⟩
          · obtain ⟨w, hw, hbefore⟩ := advances_of_matchAt hmatch
            obtain ⟨u, v, e, hd, hlater, rfl⟩ := ih h
            have hplace : place d.before u v = place before (skipped ++ (w ++ u)) v := by
              rw [hbefore, hc]
              simp [place]
            rw [hplace] at hlater ⊢
            exact ⟨_, v, e, by rw [hrest, hw, hd]; simp, hlater, rfl⟩

theorem length_before_le (hp : p.consumes = true) (h : m ∈ p.allFrom fuel before rest) :
    before.length ≤ m.start := by
  obtain ⟨u, v, d, -, -, rfl⟩ := exists_of_mem_allFrom hp h
  simp [Match.between, place, Cursor.pos]

/-- **Matches come in the order of their places.** -/
theorem pairwise_allFrom (hp : p.consumes = true) :
    (p.allFrom fuel before rest).Pairwise fun m n => m.start < n.start := by
  induction fuel generalizing before rest with
  | zero => exact List.Pairwise.nil
  | succ fuel ih =>
      cases hsearch : p.searchFrom before rest with
      | none =>
          rw [allFrom_of_none hsearch]
          exact List.Pairwise.nil
      | some r =>
          obtain ⟨c, d⟩ := r
          have hmatch := (searchFrom_eq_some hsearch).2
          have hlt := length_lt_of_mem_outcomes hp (List.mem_of_head? hmatch)
          obtain ⟨w, hw, hbefore⟩ := advances_of_matchAt hmatch
          rw [allFrom_of_some hp hsearch]
          refine List.Pairwise.cons (fun n hn => Nat.lt_of_lt_of_le ?_ (length_before_le hp hn)) ih
          have hlength := congrArg List.length hw
          rw [List.length_append] at hlength
          show c.before.length < d.before.length
          rw [hbefore, List.length_append, List.length_reverse]
          omega

/-- **A match that no earlier one reaches over is found.** -/
theorem mem_allFrom_of_apart (hp : p.consumes = true) (hfuel : (u ++ v).length < fuel)
    (hmatch : p.matchAt (place before u v) = some d)
    (hapart : ∀ x y e, u = x ++ y → y ≠ [] → p.matchAt (place before x (y ++ v)) = some e →
      v.length ≤ e.rest.length) :
    Match.between (place before u v) d ∈ p.allFrom fuel before (u ++ v) := by
  induction fuel generalizing before u with
  | zero => exact absurd hfuel (Nat.not_lt_zero _)
  | succ fuel ih =>
      obtain ⟨x, y, e, rfl, hsearch, hfirst⟩ := exists_searchFrom hmatch
      rw [allFrom_of_some hp hsearch]
      by_cases hy : y = []
      · subst hy
        rw [List.append_nil] at hmatch ⊢
        rw [List.nil_append] at hfirst ⊢
        cases hmatch.symm.trans hfirst
        exact List.mem_cons_self
      · refine List.mem_cons_of_mem _ ?_
        have hlt := length_lt_of_mem_outcomes hp (List.mem_of_head? hfirst)
        have hle := hapart x y e rfl hy hfirst
        -- the search goes on at the end of the first match, which is still before the place
        obtain ⟨w, hw, hbefore⟩ := advances_of_matchAt hfirst
        obtain ⟨z, rfl, hrest⟩ : ∃ z, y = w ++ z ∧ e.rest = z ++ v := by
          rcases List.append_eq_append_iff.1 hw with ⟨more, rfl, hv⟩ | ⟨z, hy, hrest⟩
          · have hlength := congrArg List.length hv
            rw [List.length_append] at hlength
            have hnil : more = [] := List.eq_nil_of_length_eq_zero (by omega)
            exact ⟨[], by rw [hnil]; simp, by rw [hv, hnil]; rfl⟩
          · exact ⟨z, hy, hrest⟩
        have hplace : ∀ z v, place e.before z v = place before (x ++ (w ++ z)) v := fun z v => by
          rw [hbefore]
          simp [place]
        rw [hrest, ← hplace]
        refine ih ?_ (hplace z v ▸ hmatch) fun x' y' e' hz hy' hlater => ?_
        · rw [hrest] at hlt
          have hlt : (z ++ v).length < (w ++ z ++ v).length := hlt
          simp only [List.length_append] at hlt hfuel ⊢
          omega
        · rw [hplace] at hlater
          exact hapart _ y' e' (by rw [hz]; simp) hy' hlater

/-! ### In a whole text -/

/-- **A match among all matches of a text.** -/
theorem exists_of_mem_findAll (hp : p.consumes = true) (h : m ∈ p.findAll cs) :
    ∃ u v d, cs = u ++ v ∧ p.matchAt (place [] u v) = some d ∧
      m = Match.between (place [] u v) d := exists_of_mem_allFrom hp h

theorem pairwise_findAll (hp : p.consumes = true) (cs : List Char) :
    (p.findAll cs).Pairwise fun m n => m.start < n.start := pairwise_allFrom hp

theorem mem_findAll_of_apart (hp : p.consumes = true) (hmatch : p.matchAt (place [] u v) = some d)
    (hapart : ∀ x y e, u = x ++ y → y ≠ [] → p.matchAt (place [] x (y ++ v)) = some e →
      v.length ≤ e.rest.length) : Match.between (place [] u v) d ∈ p.findAll (u ++ v) :=
  mem_allFrom_of_apart hp (Nat.lt_succ_self _) hmatch hapart

/-- The first match of some kind. -/
theorem start_le_of_find?_findAll {f : Match → Bool} {n : Match} (hp : p.consumes = true)
    (h : (p.findAll cs).find? f = some m) (hn : n ∈ p.findAll cs) (hfn : f n = true) :
    m.start ≤ n.start := by
  obtain ⟨-, front, back, hall, hfront⟩ := List.find?_eq_some_iff_append.1 h
  have hordered := pairwise_findAll hp cs
  rw [hall] at hn hordered
  rcases List.mem_append.1 hn with hn | hn
  · have hnot := hfront n hn
    rw [hfn] at hnot
    cases hnot
  · rcases List.mem_cons.1 hn with rfl | hn
    · exact Nat.le_refl _
    · have hbehind := (List.pairwise_append.1 hordered).2.1
      exact Nat.le_of_lt (List.rel_of_pairwise_cons hbehind hn)

/-! ### A text of a language -/

theorem Takes.exists_of_find? (hp : p.Takes L) (h : p.find? cs = some m) :
    ∃ o ∈ L, ∃ u v, cs = u ++ (o ++ v) ∧ m.start = u.length := by
  obtain ⟨c, d, rfl, hmatch, rfl⟩ := find?_eq_some h
  obtain ⟨o, ho, v, hrest, -⟩ := (hp c d).1 (List.mem_of_head? hmatch)
  exact ⟨o, ho, c.before.reverse, v, congrArg (c.before.reverse ++ ·) hrest,
    List.length_reverse.symm⟩

/-- **A text of the language is not overlooked.** -/
theorem Takes.isSome_find? (hp : p.Takes L) {o : List Char} (ho : o ∈ L) (u v : List Char) :
    (p.find? (u ++ (o ++ v))).isSome := by
  have hmem : (place [] u (o ++ v)).after o v ∈ p.outcomes (place [] u (o ++ v)) :=
    (hp _ _).2 ⟨o, ho, v, rfl, rfl⟩
  obtain ⟨d, hd⟩ : ∃ d, p.matchAt (place [] u (o ++ v)) = some d :=
    Option.isSome_iff_exists.1 (List.isSome_head?.2 (List.ne_nil_of_mem hmem))
  obtain ⟨x, y, e, -, hsearch, -⟩ := exists_searchFrom hd
  rw [find?, hsearch]
  rfl

end StyleContract.Pattern
