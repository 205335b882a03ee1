import Mathlib.Logic.Function.Iterate
import StyleContract.Oracle.Endpoint

/-!
# Proofs — Oracle — Retry

A question is asked until an outcome settles it (`Settles`) or no retry is left. One attempt that does not
settle it is followed by what comes of the attempts after it (`attemptsFrom_of_not_settles`), so by induction
over the attempts that are left the run is known as a whole (`exists_attemptsFrom_eq`): its log has one delay
between each two attempts, and its result is the outcome of the last attempt. The error that stands for no
attempt at all is therefore out of reach: **`attempts_until_settled`**.

A delay that grew is bounded (`nextDelay_le`), but the first delay did not grow. So **the bound holds
exactly if the first delay keeps to it or does not come to pass** (`delays_le_iff`).
-/

namespace StyleContract.RetryPolicy

variable {p : RetryPolicy} {outcome : Nat → Except OracleError String} {left number : Nat}
  {delay : UInt64} {last : Option OracleError}

/-- An outcome after which nothing is tried again: a success, or a failure for good. -/
def Settles : Except OracleError String → Prop
  | .ok _ => True
  | .error e => e.isPermanent = true

/-- So many retries from a number on, each after a delay. -/
def retries (p : RetryPolicy) : (count number : Nat) → (delay : UInt64) → List Asking
  | 0, _, _ => []
  | count + 1, number, delay =>
    .wait delay :: .attempt number :: retries p count (number + 1) (p.nextDelay delay)

/-! ### One attempt -/

theorem attemptsFrom_of_settles (h : Settles (outcome number)) :
    p.attemptsFrom outcome (left + 1) number delay last =
      ⟨pauseBefore number delay ++ [.attempt number], outcome number⟩ := by
  rw [attemptsFrom]
  cases houtcome : outcome number with
  | ok text => simp [Attempts.after]
  | error e =>
      rw [houtcome] at h
      have hpermanent : e.isPermanent = true := h
      simp [hpermanent, Attempts.after, Attempts.ending]

theorem attemptsFrom_of_not_settles (p : RetryPolicy) (left : Nat) (delay : UInt64)
    (last : Option OracleError) (h : ¬ Settles (outcome number)) :
    ∃ e, outcome number = .error e ∧ p.attemptsFrom outcome (left + 1) number delay last =
      .after (pauseBefore number delay ++ [.attempt number])
        (p.attemptsFrom outcome left (number + 1) (p.delayAfter number delay) (some e)) := by
  cases houtcome : outcome number with
  | ok text =>
      rw [houtcome] at h
      exact absurd trivial h
  | error e =>
      rw [houtcome] at h
      have hpermanent : ¬ e.isPermanent = true := h
      refine ⟨e, rfl, ?_⟩
      rw [attemptsFrom, houtcome]
      simp [hpermanent]

/-! ### All attempts -/

/-- **A run of attempts** ends with the first outcome that settles the question, or with the last attempt
there may be; what is done follows from how many attempts it takes. -/
theorem exists_attemptsFrom_eq (p : RetryPolicy) (outcome : Nat → Except OracleError String)
    (left number : Nat) (delay : UInt64) (last : Option OracleError) :
    ∃ more ≤ left, (∀ n < more, ¬ Settles (outcome (number + n))) ∧
      (Settles (outcome (number + more)) ∨ more = left) ∧
      p.attemptsFrom outcome (left + 1) number delay last =
        ⟨pauseBefore number delay ++
          .attempt number :: p.retries more (number + 1) (p.delayAfter number delay),
          outcome (number + more)⟩ := by
  induction left generalizing number delay last with
  | zero =>
      refine ⟨0, Nat.le_refl 0, fun n hn => absurd hn (Nat.not_lt_zero n), .inr rfl, ?_⟩
      by_cases hsettles : Settles (outcome number)
      · exact attemptsFrom_of_settles hsettles
      · -- no attempt is left, but this one has left its failure behind
        obtain ⟨e, houtcome, hrun⟩ := attemptsFrom_of_not_settles p 0 delay last hsettles
        rw [hrun, attemptsFrom]
        simp [Attempts.after, Attempts.ending, retries, houtcome]
  | succ left ih =>
      by_cases hsettles : Settles (outcome number)
      · exact ⟨0, Nat.zero_le _, fun n hn => absurd hn (Nat.not_lt_zero n), .inl hsettles,
          attemptsFrom_of_settles hsettles⟩
      · obtain ⟨e, -, hrun⟩ := attemptsFrom_of_not_settles p (left + 1) delay last hsettles
        obtain ⟨more, hmore, hbefore, hend, hrest⟩ :=
          ih (number + 1) (p.delayAfter number delay) (some e)
        have hnumber : ∀ n, number + 1 + n = number + (n + 1) := fun n => by omega
        refine ⟨more + 1, Nat.succ_le_succ hmore, ?_, ?_, ?_⟩
        · rintro (_ | n) hn
          · exact hsettles
          · exact hnumber n ▸ hbefore n (Nat.lt_of_succ_lt_succ hn)
        · exact hend.imp (fun h => hnumber more ▸ h) (congrArg Nat.succ)
        · rw [hrun, hrest, hnumber more]
          simp [Attempts.after, retries, pauseBefore, delayAfter]

theorem retries_eq (p : RetryPolicy) (count number : Nat) (delay : UInt64) :
    p.retries count number delay = (List.range count).flatMap fun n =>
      [.wait (p.nextDelay^[n] delay), .attempt (number + n)] := by
  induction count generalizing number delay with
  | zero => rfl
  | succ count ih =>
      rw [retries, ih, List.range_succ_eq_map, List.flatMap_cons, List.flatMap_map]
      simp only [Function.iterate_zero, id_eq, Nat.add_zero, Function.iterate_succ_apply,
        Nat.succ_eq_add_one, Nat.add_assoc, Nat.add_comm 1]
      rfl

/-- All that is done about a question that takes so many retries: the attempts in order, and between each two
of them one delay, which grew as often as there were retries before. -/
def logOf (p : RetryPolicy) (final : Nat) : List Asking :=
  .attempt 0 :: (List.range final).flatMap fun n =>
    [.wait (p.nextDelay^[n] p.firstDelay), .attempt (n + 1)]

theorem exists_attempts_eq (p : RetryPolicy) (outcome : Nat → Except OracleError String) :
    ∃ final ≤ p.maxRetries, (∀ n < final, ¬ Settles (outcome n)) ∧
      (Settles (outcome final) ∨ final = p.maxRetries) ∧
      p.attempts outcome = ⟨p.logOf final, outcome final⟩ := by
  obtain ⟨final, hfinal, hbefore, hend, hrun⟩ :=
    exists_attemptsFrom_eq p outcome p.maxRetries 0 p.firstDelay none
  simp only [Nat.zero_add] at hbefore hend hrun
  refine ⟨final, hfinal, hbefore, hend, hrun.trans ?_⟩
  rw [retries_eq, logOf]
  simp [pauseBefore, delayAfter, Nat.add_comm 1]

/-- **A question is asked until it is settled.** Attempts are made in order, up to the first success, the
first failure for good, or the last retry, and none after that; one delay passes between each two of them,
and nothing else is done. The result is the outcome of the last attempt, whatever it is, so that there is no
answer without content unless that attempt gave none. -/
theorem attempts_until_settled (p : RetryPolicy) (outcome : Nat → Except OracleError String) :
    ∃ final ≤ p.maxRetries, (∀ n < final, ¬ Settles (outcome n)) ∧
      (Settles (outcome final) ∨ final = p.maxRetries) ∧
      (p.attempts outcome).log = p.logOf final ∧
      (p.attempts outcome).result = outcome final ∧
      ((p.attempts outcome).result = .error .emptyResponse →
        outcome final = .error .emptyResponse) := by
  obtain ⟨final, hfinal, hbefore, hend, hrun⟩ := exists_attempts_eq p outcome
  rw [hrun]
  exact ⟨final, hfinal, hbefore, hend, rfl, rfl, id⟩

/-! ### Delays -/

theorem nextDelay_le (p : RetryPolicy) (delay : UInt64) : p.nextDelay delay ≤ p.maxDelay := by
  rw [nextDelay, min, instMinUInt64, minOfLe]
  dsimp only
  split
  · assumption
  · exact UInt64.le_refl _

theorem delays_attempts {final : Nat} (h : p.attempts outcome = ⟨p.logOf final, outcome final⟩) :
    (p.attempts outcome).delays =
      (List.range final).map fun n => p.nextDelay^[n] p.firstDelay := by
  rw [h, Attempts.delays, logOf, List.filterMap_cons_none rfl, List.filterMap_flatMap,
    List.map_eq_flatMap]
  rfl

/-- **The bound holds exactly if the first delay keeps to it**, or if no delay passes since there are no
retries or the first attempt settles the question. Every delay but the first keeps to the bound, and the
first one is the one that the policy names. -/
theorem delays_le_iff (p : RetryPolicy) (outcome : Nat → Except OracleError String) :
    ((∀ d ∈ (p.attempts outcome).delays, d ≤ p.maxDelay) ↔
      p.firstDelay ≤ p.maxDelay ∨ p.maxRetries = 0 ∨ Settles (outcome 0)) ∧
    (∀ d ∈ (p.attempts outcome).delays.tail, d ≤ p.maxDelay) ∧
    ∀ d ∈ (p.attempts outcome).delays.head?, d = p.firstDelay := by
  obtain ⟨final, hfinal, hbefore, hend, hrun⟩ := exists_attempts_eq p outcome
  rw [delays_attempts hrun]
  cases final with
  | zero =>
      have hnone : p.maxRetries = 0 ∨ Settles (outcome 0) := hend.symm.imp_left Eq.symm
      simp [hnone]
  | succ final =>
      have hretries : p.maxRetries ≠ 0 := Nat.ne_zero_of_lt hfinal
      have hfirst : ¬ Settles (outcome 0) := hbefore 0 (Nat.succ_pos final)
      have hgrown : ∀ d ∈ (List.range final).map fun n => p.nextDelay^[n + 1] p.firstDelay,
          d ≤ p.maxDelay := by
        refine List.forall_mem_map.2 fun n _ => ?_
        rw [Function.iterate_succ_apply']
        exact p.nextDelay_le _
      rw [List.range_succ_eq_map, List.map_cons, List.map_map]
      refine ⟨?_, hgrown, ?_⟩
      · rw [List.forall_mem_cons]
        simp only [hretries, hfirst, or_false]
        exact ⟨And.left, fun h => ⟨h, hgrown⟩⟩
      · rintro d ⟨⟩
        rfl

/-- An endpoint whose first delay is longer than the bound on delays. -/
def slowDraft : Endpoint.Draft where
  address := some "https://h"
  apiKey := some "k"
  deployment := some "d"
  retry := { maxRetries := 1, firstDelay := 10000 }

/-- The first delay may exceed the bound. -/
theorem first_delay_exceeds : ∃ e, slowDraft.build = .ok e ∧
    ¬ ∀ d ∈ (e.attempts fun _ => .refused "connection reset").delays, d ≤ e.retry.maxDelay := by
  refine ⟨_, rfl, fun h => ?_⟩
  have hfirst : (10000 : UInt64) ≤ 8000 := h 10000 List.mem_cons_self
  exact absurd hfirst (by decide)

end StyleContract.RetryPolicy
