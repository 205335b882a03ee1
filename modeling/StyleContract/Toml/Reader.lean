import StyleContract.Toml.Basic
import StyleContract.Toml.Scalar

/-!
# Toml — Reader

Reading a TOML text: lines with a key and a value, and headers that say which table the keys
after them belong to.
-/

namespace StyleContract.Toml

/-- Characters of numbers, dates and words. -/
def isScalarChar (c : Char) : Bool := c.isAlphanum || "+-._:".toList.contains c

/-- What a run of scalar characters stands for. -/
def scalarOf? (cs : List Char) : Option Toml :=
  if cs = "true".toList then some (.bool true)
  else if cs = "false".toList then some (.bool false)
  else if isMoment cs then some (.moment (String.ofList cs))
  else match floatOf? cs with
    | some x => some (.float x)
    | none => (intOf? cs).map .int

/-- Reads a number, date or word. A blank may stand between day and time. -/
def scalar : Reader Toml := fun cs =>
  let first := cs.takeWhile isScalarChar
  let rest := cs.drop first.length
  let second := match day? first, rest with
    | some (_, []), ' ' :: more =>
      if more.head?.any Char.isDigit then ' ' :: more.takeWhile isScalarChar else []
    | _, _ => []
  (scalarOf? (first ++ second)).map (·, rest.drop second.length)

/-- How many lists and tables may lie inside each other in one value. -/
def depthLimit : Nat := 79

mutual

/-- Reads a value; `room` is how many lists and tables may still be opened. -/
def value (room : Nat) : Nat → Reader Toml
  | 0, _ => none
  | fuel + 1, cs =>
    match cs with
    | '"' :: _ | '\'' :: _ => (string cs).map fun (s, cs) => (.text (String.ofList s), cs)
    | '[' :: cs =>
      if room = 0 then none
      else (items (room - 1) fuel cs).map fun (vs, cs) => (.array vs, cs)
    | '\x7b' :: cs =>
      if room = 0 then none
      else
        match skipSpace cs with
        | '\x7d' :: cs => some (.table [], cs)
        | cs => (pairs (room - 1) fuel [] cs).map fun (es, cs) => (.table (closedEntries es), cs)
    | cs => scalar cs

/-- Reads the items of a list and its closing bracket. -/
def items (room : Nat) : Nat → Reader (List Toml)
  | 0, _ => none
  | fuel + 1, cs =>
    let cs := skipLines (cs.length + 1) cs
    match cs with
    | ']' :: cs => some ([], cs)
    | cs => do
      let (v, cs) ← value room fuel cs
      match skipLines (cs.length + 1) cs with
      | ']' :: cs => some ([v], cs)
      | ',' :: cs => (items room fuel cs).map fun (vs, cs) => (v :: vs, cs)
      | _ => none

/-- Reads the keys and values of a table on one line and its closing brace. -/
def pairs (room : Nat) : Nat → Entries → Reader Entries
  | 0, _, _ => none
  | fuel + 1, entries, cs => do
    let (path, cs) ← key cs
    let (v, cs) ← value room fuel (skipSpace (← expect? cs '='))
    let entries ← define path v .header entries
    match skipSpace cs with
    | '\x7d' :: cs => some (entries, cs)
    | ',' :: cs => pairs room fuel entries cs
    | _ => none

end

/-- The text after the rest of a line that holds nothing more. -/
def afterLine? (cs : List Char) : Option (List Char) :=
  match skipComment (skipSpace cs) with
  | [] => some []
  | cs => afterNewline? cs

/-- The text after the brackets that close a header. -/
def closeHeader? (count : Nat) (cs : List Char) : Option (List Char) :=
  let cs := skipSpace cs
  if cs.take count = List.replicate count ']' then afterLine? (cs.drop count) else none

/-- Reads the lines of a text. `header` is the path of the table that keys are set in. -/
def lines (header : List String) (root : Entries) : Nat → List Char → Option Entries
  | 0, _ => none
  | fuel + 1, cs =>
    let cs := skipLines (cs.length + 1) cs
    match cs with
    | [] => some root
    | '[' :: '[' :: rest => do
      let (path, rest) ← key rest
      let rest ← closeHeader? 2 rest
      lines path (← openListed path root) fuel rest
    | '[' :: rest => do
      let (path, rest) ← key rest
      let rest ← closeHeader? 1 rest
      lines path (← openTable path root) fuel rest
    | cs => do
      let (path, cs) ← key cs
      let cs := skipSpace (← expect? cs '=')
      let (v, cs) ← value depthLimit (cs.length + 1) cs
      let root ← changeAt .above (fun here inside => define path v here inside) header .header root
      lines header root fuel (← afterLine? cs)

/-- The table that a text writes. -/
def ofText? (s : String) : Option Toml :=
  let cs := match s.toList with
    | '\ufeff' :: cs => cs
    | cs => cs
  (lines [] [] (cs.length + 1) cs).map fun root => .table (closedEntries root)

end StyleContract.Toml
