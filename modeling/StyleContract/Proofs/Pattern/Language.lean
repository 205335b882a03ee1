import Mathlib.Computability.Language
import Mathlib.Data.List.TakeWhile
import StyleContract.Pattern.Search
import StyleContract.Proofs.Text.Spans

/-!
# Proofs — Pattern — Language

Patterns that look at nothing but what they take. Such a pattern takes the texts of a language wherever
it stands (`Takes`), and a sequence of such patterns takes the product of their languages.

Two further facts tell which of the possible matches is preferred: a greedy repetition of one set goes
on as long as it can (`head?_outcomes_plus`), and a search stops at the first place where there is a
match (`searchFrom_eq_some_iff`).
-/

namespace StyleContract.Pattern

variable {p q : Pattern} {set : CharSet} {c d : Cursor} {L M : Language Char}

/-- The place behind some characters. -/
def Cursor.after (c : Cursor) (cs rest : List Char) : Cursor :=
  ⟨cs.reverse ++ c.before, rest, c.groups⟩

theorem Cursor.after_nil (c : Cursor) : c.after [] c.rest = c := rfl

theorem Cursor.after_after (c : Cursor) (as bs rest more : List Char) :
    (c.after as more).after bs rest = c.after (as ++ bs) rest := by
  simp [Cursor.after]

/-- A pattern takes the texts of a language, whatever stands around them. -/
def Takes (p : Pattern) (L : Language Char) : Prop :=
  ∀ c d, d ∈ p.outcomes c ↔ ∃ cs ∈ L, ∃ rest, c.rest = cs ++ rest ∧ d = c.after cs rest

/-- The texts out of one set of characters. -/
def run (set : CharSet) : Language Char := {cs | ∀ x ∈ cs, set.has x = true}

theorem mem_run_iff {cs : List Char} : cs ∈ run set ↔ ∀ x ∈ cs, set.has x = true := Iff.rfl

theorem takes_empty : Takes .empty 1 := by
  intro c d
  simp only [outcomes, List.mem_singleton, Language.mem_one, exists_eq_left, List.nil_append]
  constructor
  · rintro rfl
    exact ⟨d.rest, rfl, rfl⟩
  · rintro ⟨_, rfl, rfl⟩
    rfl

theorem outcomes_one_cons {before xs : List Char} {x : Char} {groups : List (Nat × Nat × Nat)} :
    (Pattern.one set).outcomes ⟨before, x :: xs, groups⟩ =
      if set.has x then [⟨x :: before, xs, groups⟩] else [] := rfl

theorem mem_outcomes_one_iff :
    d ∈ (Pattern.one set).outcomes c ↔
      ∃ x xs, set.has x = true ∧ c.rest = x :: xs ∧ d = c.after [x] xs := by
  obtain ⟨before, rest, groups⟩ := c
  cases rest with
  | nil => simp [outcomes]
  | cons x xs => by_cases hx : set.has x = true <;> simp [outcomes, Cursor.after, hx]

theorem takes_one : Takes (.one set) {cs | ∃ x, set.has x = true ∧ cs = [x]} := by
  intro c d
  rw [mem_outcomes_one_iff]
  constructor
  · rintro ⟨x, xs, hx, hrest, hd⟩
    exact ⟨[x], ⟨x, hx, rfl⟩, xs, hrest, hd⟩
  · rintro ⟨_, ⟨x, hx, rfl⟩, xs, hrest, hd⟩
    exact ⟨x, xs, hx, hrest, hd⟩

theorem Takes.seq (hp : p.Takes L) (hq : q.Takes M) : (Pattern.seq p q).Takes (L * M) := by
  intro c d
  simp only [outcomes, List.mem_flatMap]
  constructor
  · rintro ⟨e, he, hd⟩
    obtain ⟨as, has, more, hrest, rfl⟩ := (hp c e).1 he
    obtain ⟨bs, hbs, rest, hmore, rfl⟩ := (hq _ d).1 hd
    have hmore : more = bs ++ rest := hmore
    exact ⟨as ++ bs, Language.append_mem_mul has hbs, rest, by rw [hrest, hmore, List.append_assoc],
      c.after_after as bs rest more⟩
  · rintro ⟨_, hcs, rest, hrest, rfl⟩
    obtain ⟨as, has, bs, hbs, rfl⟩ := Language.mem_mul.1 hcs
    rw [List.append_assoc] at hrest
    refine ⟨c.after as (bs ++ rest), (hp c _).2 ⟨as, has, _, hrest, rfl⟩,
      (hq _ _).2 ⟨bs, hbs, rest, rfl, ?_⟩⟩
    rw [Cursor.after_after]

theorem takes_literal (s : String) : (literal s).Takes {s.toList} := by
  rw [literal]
  induction s.toList with
  | nil => exact takes_empty
  | cons x xs ih =>
      intro c d
      rw [List.foldr_cons, takes_one.seq ih c d]
      constructor
      · rintro ⟨_, hcs, more⟩
        obtain ⟨_, ⟨y, hy, rfl⟩, _, rfl, rfl⟩ := Language.mem_mul.1 hcs
        cases beq_iff_eq.1 hy
        exact ⟨_, rfl, more⟩
      · rintro ⟨_, rfl, more⟩
        exact ⟨x :: xs, Language.mem_mul.2 ⟨[x], ⟨x, beq_self_eq_true x, rfl⟩, xs, rfl, rfl⟩, more⟩

/-! ### Repetitions of one set -/

theorem mem_upTo_one_iff {n : Nat} (hn : c.rest.length ≤ n) :
    d ∈ upTo (Pattern.one set).outcomes true n c ↔
      ∃ cs ∈ run set, ∃ rest, c.rest = cs ++ rest ∧ d = c.after cs rest := by
  induction n generalizing c with
  | zero =>
      have hrest : c.rest = [] := List.length_eq_zero_iff.1 (Nat.le_zero.1 hn)
      rw [upTo, List.mem_singleton]
      constructor
      · rintro rfl
        exact ⟨[], List.forall_mem_nil _, d.rest, rfl, rfl⟩
      · rintro ⟨cs, -, rest, heq, rfl⟩
        obtain ⟨rfl, rfl⟩ := List.append_eq_nil_iff.1 (heq.symm.trans hrest)
        obtain ⟨before, rest, groups⟩ := c
        cases hrest
        rfl
  | succ n ih =>
      simp only [upTo, if_true, List.mem_append, List.mem_flatMap, List.mem_filter, List.mem_singleton]
      constructor
      · rintro (⟨e, ⟨he, -⟩, hd⟩ | rfl)
        · obtain ⟨x, xs, hx, hrest, rfl⟩ := mem_outcomes_one_iff.1 he
          have hxs : xs.length ≤ n := by
            rw [hrest] at hn
            exact Nat.le_of_succ_le_succ hn
          obtain ⟨cs, hcs, rest, heq, rfl⟩ := (ih hxs).1 hd
          have hall : c.rest = x :: cs ++ rest := hrest.trans (congrArg (x :: ·) heq)
          exact ⟨x :: cs, List.forall_mem_cons.2 ⟨hx, hcs⟩, rest, hall,
            Cursor.after_after c [x] cs rest xs⟩
        · exact ⟨[], List.forall_mem_nil _, d.rest, rfl, rfl⟩
      · rintro ⟨cs, hcs, rest, hrest, rfl⟩
        cases cs with
        | nil =>
            rw [List.nil_append] at hrest
            rw [← hrest, Cursor.after_nil]
            exact .inr rfl
        | cons x cs =>
            obtain ⟨hx, hcs⟩ := List.forall_mem_cons.1 hcs
            have hstep : c.after [x] (cs ++ rest) ∈ (Pattern.one set).outcomes c :=
              mem_outcomes_one_iff.2 ⟨x, cs ++ rest, hx, hrest, rfl⟩
            have hlength : (cs ++ rest).length ≤ n := by
              rw [hrest] at hn
              exact Nat.le_of_succ_le_succ hn
            refine .inl ⟨_, ⟨hstep, ?_⟩, (ih hlength).2 ⟨cs, hcs, rest, rfl, ?_⟩⟩
            · simp [hrest, Cursor.after]
            · rw [Cursor.after_after]
              rfl

theorem takes_star_one : (star (.one set)).Takes (run set) := by
  intro c d
  simp only [star, outcomes, times, List.flatMap_singleton, Option.getD_none]
  exact mem_upTo_one_iff (Nat.le_refl _)

/-- One character of a set, or none. -/
def atMostOne (set : CharSet) : Language Char := {cs | cs = [] ∨ ∃ x, set.has x = true ∧ cs = [x]}

theorem takes_optional_one : (optional (.one set)).Takes (atMostOne set) := by
  intro c d
  simp only [optional, outcomes, times, List.flatMap_singleton, Option.getD_some, upTo, if_true,
    List.mem_append, List.mem_flatMap, List.mem_filter, List.mem_singleton]
  constructor
  · rintro (⟨e, ⟨he, -⟩, rfl⟩ | rfl)
    · obtain ⟨x, xs, hx, hrest, rfl⟩ := mem_outcomes_one_iff.1 he
      exact ⟨[x], .inr ⟨x, hx, rfl⟩, xs, hrest, rfl⟩
    · exact ⟨[], .inl rfl, d.rest, rfl, rfl⟩
  · rintro ⟨_, rfl | ⟨x, hx, rfl⟩, rest, hrest, rfl⟩
    · rw [List.nil_append] at hrest
      rw [← hrest, Cursor.after_nil]
      exact .inr rfl
    · refine .inl ⟨_, ⟨mem_outcomes_one_iff.2 ⟨x, rest, hx, hrest, rfl⟩, ?_⟩, rfl⟩
      simp [hrest, Cursor.after]

/-- A greedy repetition goes on as long as it can. -/
theorem head?_upTo_one {n : Nat} (hn : c.rest.length ≤ n) :
    (upTo (Pattern.one set).outcomes true n c).head? =
      some (c.after (c.rest.takeWhile set.has) (c.rest.dropWhile set.has)) := by
  induction n generalizing c with
  | zero =>
      have hrest : c.rest = [] := List.length_eq_zero_iff.1 (Nat.le_zero.1 hn)
      obtain ⟨before, rest, groups⟩ := c
      cases hrest
      rfl
  | succ n ih =>
      obtain ⟨before, rest, groups⟩ := c
      cases rest with
      | nil => rfl
      | cons x xs =>
          by_cases hx : set.has x = true
          · have hnext := @ih ⟨x :: before, xs, groups⟩ (Nat.le_of_succ_le_succ hn)
            simp [upTo, outcomes_one_cons, hx, hnext, Cursor.after]
          · simp [upTo, outcomes_one_cons, hx, Cursor.after]

theorem head?_outcomes_plus :
    ((plus (.one set)).outcomes c).head? =
      if c.rest.head?.any set.has then
        some (c.after (c.rest.takeWhile set.has) (c.rest.dropWhile set.has))
      else none := by
  obtain ⟨before, rest, groups⟩ := c
  cases rest with
  | nil => rfl
  | cons x xs =>
      by_cases hx : set.has x = true
      · have hnext := @head?_upTo_one set ⟨x :: before, xs, groups⟩ xs.length (Nat.le_refl _)
        rw [plus, outcomes, times, outcomes_one_cons, if_pos hx]
        simpa [times, hx, Cursor.after] using hnext
      · simp [plus, outcomes, times, hx]

/-- The longest run out of a set, as a group. -/
theorem head?_outcomes_group_plus {index : Nat} :
    ((Pattern.group index (plus (.one set))).outcomes c).head? =
      if c.rest.head?.any set.has then
        some { c.after (c.rest.takeWhile set.has) (c.rest.dropWhile set.has) with
          groups := (index, c.pos, (c.rest.takeWhile set.has).length + c.pos) :: c.groups }
      else none := by
  rw [outcomes, List.head?_map, head?_outcomes_plus, apply_ite (Option.map _)]
  simp [Cursor.pos, Cursor.after]

/-! ### A run behind a lead -/

/-- A text begins with a lead of a language, and behind it with the whole of a run out of a set. -/
structure RunBehind (L : Language Char) (set : CharSet) (rest lead xs tail : List Char) : Prop where
  eq_append : rest = lead ++ (xs ++ tail)
  lead_mem : lead ∈ L
  ne_nil : xs ≠ []
  has : ∀ x ∈ xs, set.has x = true
  tail_head : tail.head?.all fun x => !set.has x

/-- Where no lead has a character of the set, the run is the first one of the text. -/
theorem RunBehind.run_eq {rest lead xs tail : List Char} (h : RunBehind L set rest lead xs tail)
    (hL : ∀ lead ∈ L, ∀ x ∈ lead, set.has x = false) :
    xs = (rest.dropWhile fun x => !set.has x).takeWhile set.has := by
  have hlead : ∀ x ∈ lead, (!set.has x) = true := fun x hx => by rw [hL _ h.lead_mem x hx]; rfl
  have hhead : (xs ++ tail).head?.all fun x => !!set.has x := by
    obtain ⟨x, xs, rfl⟩ := List.exists_cons_of_ne_nil h.ne_nil
    simpa using h.has x List.mem_cons_self
  rw [h.eq_append, Text.dropWhile_append_of_head hlead hhead,
    Text.takeWhile_append_of_head h.has h.tail_head]

theorem matchAt_lead_run {index : Nat} :
    (Pattern.seq p (.group index (plus (.one set)))).matchAt c =
      (p.outcomes c).findSome? fun e =>
        if e.rest.head?.any set.has then
          some { e.after (e.rest.takeWhile set.has) (e.rest.dropWhile set.has) with
            groups := (index, e.pos, (e.rest.takeWhile set.has).length + e.pos) :: e.groups }
        else none := by
  rw [matchAt, outcomes, List.head?_flatMap]
  exact congrArg (List.findSome? · _) (funext fun _ => head?_outcomes_group_plus)

/-- **A lead and the longest run behind it**: what is matched is one, and the run is the group. -/
theorem exists_runBehind_of_matchAt {index : Nat} (hp : p.Takes L)
    (h : (Pattern.seq p (.group index (plus (.one set)))).matchAt c = some d) :
    ∃ lead xs tail, RunBehind L set c.rest lead xs tail ∧
      d = { c.after (lead ++ xs) tail with
        groups := (index, c.pos + lead.length, c.pos + lead.length + xs.length) :: c.groups } := by
  rw [matchAt_lead_run] at h
  obtain ⟨e, he, hd⟩ := List.exists_of_findSome?_eq_some h
  obtain ⟨lead, hmem, more, hrest, rfl⟩ := (hp _ _).1 he
  obtain ⟨hhead, hd⟩ := Option.ite_none_right_eq_some.1 hd
  cases hd
  cases more with
  | nil => cases hhead
  | cons x xs =>
      have hx : set.has x = true := hhead
      refine ⟨lead, (x :: xs).takeWhile set.has, (x :: xs).dropWhile set.has, ⟨?_, hmem, ?_,
        fun x hx => List.mem_takeWhile_imp hx, Text.all_head?_dropWhile _ _⟩, ?_⟩
      · rw [List.takeWhile_append_dropWhile]
        exact hrest
      · rw [List.takeWhile_cons_of_pos hx]
        exact List.cons_ne_nil _ _
      · simp [Cursor.after, Cursor.pos, Nat.add_comm]

theorem exists_matchAt_of_runBehind {index : Nat} {lead xs tail : List Char} (hp : p.Takes L)
    (h : RunBehind L set c.rest lead xs tail) :
    ∃ d, (Pattern.seq p (.group index (plus (.one set)))).matchAt c = some d := by
  have hlead : c.after lead (xs ++ tail) ∈ p.outcomes c :=
    (hp _ _).2 ⟨lead, h.lead_mem, _, h.eq_append, rfl⟩
  have hhead : ((xs ++ tail).head?.any set.has) = true := by
    obtain ⟨x, xs, rfl⟩ := List.exists_cons_of_ne_nil h.ne_nil
    exact h.has x List.mem_cons_self
  rw [matchAt_lead_run, ← Option.isSome_iff_exists, List.findSome?_isSome_iff]
  exact ⟨_, hlead, by rw [Cursor.after, hhead]; rfl⟩

/-! ### Searches -/

/-- A match behind the characters that are skipped, and none at a place before it. -/
structure Leftmost (p : Pattern) (before rest skipped : List Char) (c d : Cursor) : Prop where
  rest_eq : rest = skipped ++ c.rest
  place_eq : c = ⟨skipped.reverse ++ before, c.rest, []⟩
  matchAt_eq : p.matchAt c = some d
  none_before : ∀ u v, skipped = u ++ v → v ≠ [] →
    p.matchAt ⟨u.reverse ++ before, v ++ c.rest, []⟩ = none

theorem leftmost_nil_iff {before rest : List Char} :
    Leftmost p before rest [] c d ↔ c = ⟨before, rest, []⟩ ∧ p.matchAt ⟨before, rest, []⟩ = some d := by
  constructor
  · rintro ⟨rfl, hplace, hmatch, -⟩
    exact ⟨hplace, hplace ▸ hmatch⟩
  · rintro ⟨rfl, hmatch⟩
    refine ⟨rfl, rfl, hmatch, fun u v huv hv => ?_⟩
    exact absurd (List.append_eq_nil_iff.1 huv.symm).2 hv

theorem leftmost_cons_iff {before xs skipped : List Char} {x y : Char} :
    Leftmost p before (x :: xs) (y :: skipped) c d ↔
      y = x ∧ p.matchAt ⟨before, x :: xs, []⟩ = none ∧ Leftmost p (x :: before) xs skipped c d := by
  constructor
  · rintro ⟨hrest, hplace, hmatch, hnone⟩
    cases hrest
    refine ⟨rfl, hnone [] (x :: skipped) rfl (List.cons_ne_nil _ _), rfl, by simpa using hplace,
      hmatch, fun u v huv hv => ?_⟩
    simpa using hnone (x :: u) v (by rw [huv]; rfl) hv
  · rintro ⟨rfl, hfirst, hrest, hplace, hmatch, hnone⟩
    refine ⟨by rw [hrest]; rfl, by simpa using hplace, hmatch, fun u v huv hv => ?_⟩
    cases u with
    | nil =>
        rw [List.nil_append] at huv
        rw [← huv, List.cons_append, ← hrest]
        exact hfirst
    | cons z u =>
        cases huv
        simpa using hnone u v rfl hv

/-- **The leftmost match**: a match at some place, and none at a place before it. -/
theorem searchFrom_eq_some_iff {before rest : List Char} :
    p.searchFrom before rest = some (c, d) ↔ ∃ skipped, Leftmost p before rest skipped c d := by
  induction rest generalizing before with
  | nil =>
      rw [searchFrom, Option.map_eq_some_iff]
      constructor
      · rintro ⟨_, hmatch, ⟨⟩⟩
        exact ⟨[], leftmost_nil_iff.2 ⟨rfl, hmatch⟩⟩
      · rintro ⟨skipped, h⟩
        obtain ⟨rfl, -⟩ := List.append_eq_nil_iff.1 h.rest_eq.symm
        obtain ⟨rfl, hmatch⟩ := leftmost_nil_iff.1 h
        exact ⟨d, hmatch, rfl⟩
  | cons x xs ih =>
      rw [searchFrom]
      cases hfirst : p.matchAt ⟨before, x :: xs, []⟩ with
      | some e =>
          simp only [Option.some.injEq, Prod.mk.injEq]
          constructor
          · rintro ⟨rfl, rfl⟩
            exact ⟨[], leftmost_nil_iff.2 ⟨rfl, hfirst⟩⟩
          · rintro ⟨skipped, h⟩
            cases skipped with
            | nil =>
                obtain ⟨rfl, hmatch⟩ := leftmost_nil_iff.1 h
                exact ⟨rfl, Option.some.inj (hfirst.symm.trans hmatch)⟩
            | cons y skipped =>
                obtain ⟨-, hnone, -⟩ := leftmost_cons_iff.1 h
                cases hfirst.symm.trans hnone
      | none =>
          dsimp only
          rw [ih]
          constructor
          · rintro ⟨skipped, h⟩
            exact ⟨x :: skipped, leftmost_cons_iff.2 ⟨rfl, hfirst, h⟩⟩
          · rintro ⟨skipped, h⟩
            cases skipped with
            | nil => cases hfirst.symm.trans (leftmost_nil_iff.1 h).2
            | cons y skipped => exact ⟨skipped, (leftmost_cons_iff.1 h).2.2⟩

end StyleContract.Pattern
