import StyleContract.Oracle.Basic

/-!
# Oracle — Retry

Asking again after a failure that may pass. Attempts follow each other until one succeeds, one
fails for good, or no retry is left. Before each attempt but the first a delay passes, and each
delay follows from the one before it.
-/

namespace StyleContract

/-- How often a question is asked again, and how long is waited before. Times are in
milliseconds. -/
structure RetryPolicy where
  maxRetries : Nat := 3
  firstDelay : UInt64 := 500
  /-- The bound on what a delay grows to. -/
  maxDelay : UInt64 := 8000
  /-- The factor between a delay and the next. -/
  growth : Float := 2.0
  deriving DecidableEq, Repr

/-- What is done to get an answer. -/
inductive Asking where
  /-- The attempt of a number is made; the first one has the number 0. -/
  | attempt (number : Nat)
  | wait (delay : UInt64)
  deriving DecidableEq, Repr

def Asking.delay? : Asking → Option UInt64
  | .attempt _ => none
  | .wait delay => some delay

/-- What came of asking a question until there was a result. -/
structure Attempts where
  /-- What was done, in order. -/
  log : List Asking
  result : Except OracleError String

namespace Attempts

/-- The delays that passed, in order. -/
def delays (a : Attempts) : List UInt64 := a.log.filterMap Asking.delay?

/-- How long was waited between attempts, in milliseconds. -/
def waited (a : Attempts) : Nat := a.delays.foldl (fun n delay => n + delay.toNat) 0

/-- No more is done. The result is the last failure there was. -/
def ending (last : Option OracleError) : Attempts := ⟨[], .error (last.getD .emptyResponse)⟩

/-- Something was done before. -/
def after (log : List Asking) (a : Attempts) : Attempts := ⟨log ++ a.log, a.result⟩

end Attempts

namespace RetryPolicy

/-- The delay that follows a delay. -/
def nextDelay (p : RetryPolicy) (delay : UInt64) : UInt64 :=
  min (delay.toFloat * p.growth).toUInt64 p.maxDelay

/-- What passes before an attempt: nothing before the first one. -/
def pauseBefore (number : Nat) (delay : UInt64) : List Asking :=
  if 0 < number then [.wait delay] else []

/-- The next delay, once an attempt was approached. -/
def delayAfter (p : RetryPolicy) (number : Nat) (delay : UInt64) : UInt64 :=
  if 0 < number then p.nextDelay delay else delay

/-- Makes attempts from the `number`-th on, of which some are left. `delay` is the next delay, and
`last` the failure of the attempt before. -/
def attemptsFrom (p : RetryPolicy) (outcome : Nat → Except OracleError String) :
    (left number : Nat) → (delay : UInt64) → (last : Option OracleError) → Attempts
  | 0, _, _, last => .ending last
  | left + 1, number, delay, _ =>
    .after (pauseBefore number delay ++ [.attempt number]) <|
      match outcome number with
      | .ok text => ⟨[], .ok text⟩
      | .error e =>
        if e.isPermanent then .ending (some e)
        else attemptsFrom p outcome left (number + 1) (p.delayAfter number delay) (some e)

/-- The attempts at a question, if the `n`-th one would have the outcome `outcome n`. -/
def attempts (p : RetryPolicy) (outcome : Nat → Except OracleError String) : Attempts :=
  p.attemptsFrom outcome (p.maxRetries + 1) 0 p.firstDelay none

end RetryPolicy

end StyleContract
