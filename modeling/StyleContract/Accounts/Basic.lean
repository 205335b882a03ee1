import StyleContract.Contract.Basic
import StyleContract.Decimal.Magnitude
import StyleContract.Power

/-!
# Accounts — Basic

What a run counts: signals by scanner, rules by origin, questions by outcome, dropped duplicates
and analysed files. Counters hold whole numbers with 53 significant bits, so they are exact below
2^53 (`total_eq_add`); above that each sum is rounded, and a half goes to the even neighbour.
-/

namespace StyleContract

namespace Counter

/-- The largest number up to which every whole number is a count. -/
def exactLimit : Nat := twoTo 53

/-- A whole number with 53 significant bits. -/
def rounded (n : Nat) : Nat :=
  if n < exactLimit then n
  else
    let unit := twoTo (n.log2 - 52)
    Decimal.roundDiv .toEven n unit * unit

/-- A counter after more was counted. -/
def total (count more : Nat) : Nat := rounded (count + rounded more)

theorem rounded_of_lt {n : Nat} (h : n < exactLimit) : rounded n = n := if_pos h

/-- Counters are exact as long as they are small. -/
theorem total_eq_add {count more : Nat} (h : count + more < exactLimit) :
    total count more = count + more := by
  rw [total, rounded_of_lt (n := more) (by omega), rounded_of_lt h]

/-- The greatest count that is written down. -/
def greatest : Nat := twoTo 64 - 1

/-- A counter as it is written down. -/
def written (count : Nat) : Json := Json.ofNat (min count greatest)

end Counter

/-- Counters by name. -/
abbrev Counters := Keyed Nat

namespace Counters

def count (c : Counters) (name : String) : Nat := (c.get? name).getD 0

/-- Adds to a counter, which is there from then on. -/
def record (c : Counters) (name : String) (more : Nat) : Counters :=
  c.insert name (Counter.total (c.count name) more)

/-- The sum of all counters. -/
def sum (c : Counters) : Nat := c.entries.foldl (fun n e => Counter.rounded (n + e.2)) 0

end Counters

structure Accounts where
  signals : Counters := Keyed.empty
  rules : Counters := Keyed.empty
  questions : Counters := Keyed.empty
  duplicates : Nat := 0
  files : Nat := 0
  /-- How long runs took, in seconds. -/
  durations : List Float := []

namespace Accounts

def deterministic : String := "deterministic"

def probabilistic : String := "probabilistic"

def failed : String := "failed"

def recordSignals (a : Accounts) (scanner : String) (n : Nat) : Accounts :=
  { a with signals := a.signals.record scanner n }

def recordRules (a : Accounts) (origin : String) (n : Nat) : Accounts :=
  { a with rules := a.rules.record origin n }

def recordQuestions (a : Accounts) (answered unanswered : Nat) : Accounts :=
  { a with questions := (a.questions.record "ok" answered).record failed unanswered }

def recordDuplicates (a : Accounts) (n : Nat) : Accounts :=
  { a with duplicates := Counter.total a.duplicates n }

def recordFiles (a : Accounts) (n : Nat) : Accounts :=
  { a with files := Counter.total a.files n }

def recordDuration (a : Accounts) (seconds : Float) : Accounts :=
  { a with durations := a.durations ++ [seconds] }

/-- The accounts with the counters that a summary reads, at zero if they were not there. -/
def opened (a : Accounts) : Accounts :=
  { a with
    rules := (a.rules.record deterministic 0).record probabilistic 0
    questions := a.questions.record failed 0 }

/-- The counts that go into a contract. -/
def summary (a : Accounts) : Metrics :=
  Keyed.ofList
    [("signalCount", Counter.written a.signals.sum),
      ("deterministicRules", Counter.written (a.rules.count deterministic)),
      ("probabilisticRules", Counter.written (a.rules.count probabilistic)),
      ("oracleFailures", Counter.written (a.questions.count failed)),
      ("duplicatesDropped", Counter.written a.duplicates),
      ("filesAnalyzed", Counter.written a.files)]

end Accounts

end StyleContract
