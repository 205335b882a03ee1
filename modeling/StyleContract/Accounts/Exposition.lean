import StyleContract.Accounts.Basic
import StyleContract.Decimal.Layout

/-!
# Accounts — Exposition

The accounts as lines of text that monitoring systems collect: families in the order of their
names, in each family the samples in the order of their labels. A family without samples is left
out.
-/

namespace StyleContract.Accounts

def lineText (line : String) : String := line ++ "\n"

/-- A label's value between quotes. -/
def labelChar (c : Char) : List Char :=
  if c = '\\' then ['\\', '\\']
  else if c = '"' then ['\\', '"']
  else if c = '\n' then ['\\', 'n']
  else [c]

/-- A label in braces. -/
def labelText (name value : String) : String :=
  "\x7b" ++ name ++ "=\"" ++ String.ofList (value.toList.flatMap labelChar) ++ "\"\x7d"

def countText (n : Nat) : String := Decimal.plain.render (Float.ofNat n)

/-- The two lines before the samples of a family. -/
def heading (name help kind : String) : String :=
  lineText ("# HELP " ++ name ++ " " ++ help) ++ lineText ("# TYPE " ++ name ++ " " ++ kind)

def sample (name label value : String) : String := lineText (name ++ label ++ " " ++ value)

/-- A family of one counter. -/
def counterText (name help : String) (n : Nat) : String :=
  heading name help "counter" ++ sample name "" (countText n)

/-- A family of counters that differ in one label. -/
def countersText (name help label : String) (c : Counters) : String :=
  if c.entries.isEmpty then ""
  else
    heading name help "counter" ++
      String.join (c.entries.map fun e => sample name (labelText label e.1) (countText e.2))

/-- Upper ends of the ranges that durations are sorted into. -/
def bounds : List Float := [0.1, 0.5, 1.0, 5.0, 15.0, 30.0, 60.0, 120.0, 300.0]

/-- How many durations are up to a bound. -/
def upTo (durations : List Float) (bound : Float) : Nat :=
  (durations.filter (· ≤ bound)).length

def histogramText (name help : String) (durations : List Float) : String :=
  let bucket (le : String) (n : Nat) : String :=
    sample (name ++ "_bucket") (labelText "le" le) (countText n)
  heading name help "histogram" ++
    String.join (bounds.map fun b => bucket (Decimal.plain.render b) (upTo durations b)) ++
    bucket "+Inf" durations.length ++
    sample (name ++ "_sum") "" (Decimal.plain.render (durations.foldl (· + ·) 0.0)) ++
    sample (name ++ "_count") "" (countText durations.length)

/-- All families. -/
def exposition (a : Accounts) : String :=
  counterText "repostyle_duplicates_dropped_total"
      "Rules discarded because an earlier rule had the same id" a.duplicates ++
    counterText "repostyle_files_analyzed_total" "Files sent to the oracle" a.files ++
    countersText "repostyle_oracle_requests_total" "Oracle requests by result" "result"
      a.questions ++
    countersText "repostyle_rules_total" "Rules produced before deduplication" "origin" a.rules ++
    histogramText "repostyle_scan_duration_seconds" "End-to-end synthesis duration" a.durations ++
    countersText "repostyle_signals_total" "Signals emitted by scanners" "scanner" a.signals

end StyleContract.Accounts
