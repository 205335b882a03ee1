import StyleContract.Text.Digits
import StyleContract.Yaml.Token

/-!
# Yaml — Scalar text

Reading the text of one scalar: block scalars with their indentation and line ends, quoted
scalars with their escapes, and plain scalars, which end where something else begins. Line
breaks inside quoted and plain scalars are folded.
-/

namespace StyleContract.Yaml

/-- Lines that are being folded: the blanks since the last other character, the first line break
and the ones after it. -/
structure Fold where
  blanks : List Char := []
  broken : Bool := false
  first : List Char := []
  later : List Char := []

/-- The text that folded lines stand for. -/
def Fold.text (f : Fold) : List Char :=
  if f.broken then
    if f.first.head? == some '\n' then (if f.later.isEmpty then [' '] else f.later)
    else f.first ++ f.later
  else f.blanks

/-- Passes blanks and line breaks. Where `indent` is given, a tab may not stand before that
column. -/
def foldSpace (indent : Option Nat) : Nat → Place → Fold → Option (Place × Fold)
  | 0, p, f => some (p, f)
  | fuel + 1, p, f =>
    if p.onBlank then
      if f.broken && indent.any (p.column < ·) && p.is '\t' then none
      else if f.broken then foldSpace indent fuel p.next f
      else foldSpace indent fuel p.next { f with blanks := f.blanks ++ p.head?.toList }
    else if p.onBreak then
      let (q, text) := p.nextLine
      if f.broken then foldSpace indent fuel q { f with later := f.later ++ text }
      else foldSpace indent fuel q { f with blanks := [], broken := true, first := text }
    else some (p, f)

/-! ### Block scalars -/

/-- What happens to the line ends after the last line of a block scalar. -/
inductive Chomp where
  | strip
  | clip
  | keep
  deriving DecidableEq, Repr

/-- Passes empty lines. An indentation of zero means that it is not known yet; the greatest
column that was reached is then the measure. -/
def blockBreaks : (fuel : Nat) → (indent widest : Nat) → Place → List Char →
    Option (Place × Nat × List Char)
  | 0, _, widest, p, breaks => some (p, widest, breaks)
  | fuel + 1, indent, widest, p, breaks =>
    let spaces := (p.rest.takeWhile (· == ' ')).length
    let p := p.skip (if indent = 0 then spaces else min spaces (indent - p.column))
    let widest := max widest p.column
    if (indent = 0 ∨ p.column < indent) ∧ p.is '\t' then none
    else if p.onBreak then
      let (q, text) := p.nextLine
      blockBreaks fuel indent widest q (breaks ++ text)
    else some (p, widest, breaks)

/-- The lines of a block scalar that were read so far. -/
structure BlockText where
  text : List Char := []
  lineEnd : List Char := []
  emptyLines : List Char := []
  startedBlank : Bool := false

/-- Reads the lines of a block scalar at a known indentation. -/
def blockLines (literal : Bool) (indent : Nat) : Nat → Place → BlockText →
    Option (Place × BlockText)
  | 0, p, b => some (p, b)
  | fuel + 1, p, b =>
    if p.column = indent ∧ ¬ p.atEnd then
      let blank := p.onBlank
      let joined :=
        if !literal && b.lineEnd.head? == some '\n' && !b.startedBlank && !blank then
          (if b.emptyLines.isEmpty then [' '] else [])
        else b.lineEnd
      let line := p.rest.takeWhile fun c => !isBreak c
      let (q, lineEnd) := (p.skip line.length).nextLine
      match blockBreaks (q.rest.length + 1) indent 0 q [] with
      | none => none
      | some (q, _, emptyLines) =>
        blockLines literal indent fuel q
          ⟨b.text ++ joined ++ b.emptyLines ++ line, lineEnd, emptyLines, blank⟩
    else some (p, b)

/-- Reads the indicators after the sign of a block scalar. -/
def blockHeader (p : Place) : Option (Chomp × Nat × Place) :=
  let chomp? (c : Char) : Option Chomp :=
    if c = '+' then some .keep else if c = '-' then some .strip else none
  let digit? (c : Char) : Option Nat := if c.isDigit then some (c.toNat - 48) else none
  match p.rest with
  | a :: b :: _ =>
    match chomp? a, digit? a with
    | some chomp, _ =>
      match digit? b with
      | some 0 => none
      | some n => some (chomp, n, p.skip 2)
      | none => some (chomp, 0, p.skip 1)
    | none, some 0 => none
    | none, some n =>
      match chomp? b with
      | some chomp => some (chomp, n, p.skip 2)
      | none => some (.clip, n, p.skip 1)
    | none, none => some (.clip, 0, p)
  | [a] =>
    match chomp? a, digit? a with
    | some chomp, _ => some (chomp, 0, p.skip 1)
    | none, some 0 => none
    | none, some n => some (.clip, n, p.skip 1)
    | none, none => some (.clip, 0, p)
  | [] => some (.clip, 0, p)

/-- Reads a block scalar after its sign, in a block of the given indentation. -/
def blockScalar (literal : Bool) (parent : Int) (p : Place) : Option (List Char × Place) := do
  let (chomp, increment, p) ← blockHeader p
  let p := p.skipWhile isBlank
  let p := if p.is '#' then p.skipWhile (!isBreak ·) else p
  if ¬ p.breakOrEnd then none
  let p := p.nextLine.1
  let given : Nat := if increment = 0 then 0 else (max parent 0).toNat + increment
  let (p, widest, emptyLines) ← blockBreaks (p.rest.length + 1) given 0 p []
  let indent := if given = 0 then max (max widest (parent + 1).toNat) 1 else given
  let (p, b) ← blockLines literal indent (p.rest.length + 1) p { emptyLines := emptyLines }
  let text := b.text ++ (if chomp = .strip then [] else b.lineEnd) ++
    (if chomp = .keep then b.emptyLines else [])
  some (text, p)

/-! ### Quoted scalars -/

/-- The character that one letter stands for after a backslash. -/
def escapeLetter? (c : Char) : Option Char :=
  match c with
  | '0' => some '\x00'
  | 'a' => some '\x07'
  | 'b' => some '\x08'
  | 't' | '\t' => some '\t'
  | 'n' => some '\n'
  | 'v' => some '\x0b'
  | 'f' => some '\x0c'
  | 'r' => some '\r'
  | 'e' => some '\x1b'
  | ' ' | '"' | '/' | '\\' => some c
  | 'N' => some '\u0085'
  | '_' => some '\u00a0'
  | 'L' => some '\u2028'
  | 'P' => some '\u2029'
  | _ => none

/-- How many hexadecimal digits follow a letter after a backslash. -/
def escapeWidth? (c : Char) : Option Nat :=
  if c = 'x' then some 2 else if c = 'u' then some 4 else if c = 'U' then some 8 else none

/-- Reads an escape after its backslash. -/
def escape? (p : Place) : Option (Char × Place) := do
  let c ← p.head?
  match escapeLetter? c with
  | some x => some (x, p.next)
  | none => do
    let width ← escapeWidth? c
    let digits := (p.rest.drop 1).take width
    if digits.length < width then none
    let n ← digits.foldlM (fun n d => (Text.hexValue? d).map (n * 16 + ·)) 0
    if n.isValidChar then some (Char.ofNat n, p.skip (width + 1)) else none

/-- Reads the characters of a quoted scalar up to a blank, a line break or the closing quote. A
line break after a backslash is passed, and reported. -/
def quotedRun (single : Bool) : Nat → Place → List Char → Option (Place × List Char × Bool)
  | 0, p, text => some (p, text, false)
  | fuel + 1, p, text =>
    match p.rest with
    | [] => some (p, text, false)
    | c :: cs =>
      if isBlank c || isBreak c then some (p, text, false)
      else if single && c == '\'' then
        if cs.head? == some '\'' then quotedRun single fuel (p.skip 2) ('\'' :: text)
        else some (p, text, false)
      else if !single && c == '"' then some (p, text, false)
      else if !single && c == '\\' then
        if cs.head?.any isBreak then some (p.next.nextLine.1, text, true)
        else do
          let (x, q) ← escape? p.next
          quotedRun single fuel q (x :: text)
      else quotedRun single fuel p.next (c :: text)

/-- Reads a quoted scalar after its opening quote; `text` is what was read, in reverse. -/
def quotedBody (single : Bool) : Nat → Place → List Char → Option (List Char × Place)
  | 0, _, _ => none
  | fuel + 1, p, text =>
    if p.onMarker ∨ p.atEnd then none
    else do
      let (p, text, escaped) ← quotedRun single (p.rest.length + 1) p text
      if p.is (if single then '\'' else '"') then some (text.reverse, p.next)
      else do
        let start : Fold := { broken := escaped }
        let (p, fold) ← foldSpace none (p.rest.length + 1) p start
        quotedBody single fuel p (fold.text.reverse ++ text)

def quotedScalar (single : Bool) (p : Place) : Option (List Char × Place) :=
  quotedBody single (p.rest.length + 2) p []

/-! ### Plain scalars -/

def isFlowIndicator (c : Char) : Bool :=
  c == ',' || c == '[' || c == ']' || c == '\x7b' || c == '\x7d'

/-- Reads the characters of a plain scalar up to a blank, a line break, or the start of something
else. -/
def plainRun (flow : Bool) : Nat → Place → List Char → Option (Place × List Char)
  | 0, p, text => some (p, text)
  | fuel + 1, p, text =>
    match p.rest with
    | [] => some (p, text)
    | c :: cs =>
      if isBlank c || isBreak c then some (p, text)
      else if flow && c == ':' && cs.head?.any (fun d => isFlowIndicator d || d == '?') then none
      else if (c == ':' && p.blankOrEndAt 1) || (flow && isFlowIndicator c) then some (p, text)
      else plainRun flow fuel p.next (c :: text)

/-- Reads a plain scalar. `pending` are blanks and line breaks that count only if more of the
scalar follows. The flag says whether the scalar ends with a line. -/
def plainBody (flow : Bool) (indent : Nat) : Nat → Place → Fold → List Char →
    Option (List Char × Place × Bool)
  | 0, _, _, _ => none
  | fuel + 1, p, pending, text =>
    if p.onMarker ∨ p.is '#' then some (text.reverse, p, pending.broken)
    else do
      let (q, run) ← plainRun flow (p.rest.length + 1) p []
      let text := if run.isEmpty then text else run ++ pending.text.reverse ++ text
      let pending := if run.isEmpty then pending else {}
      if q.onBlank || q.onBreak then do
        let (r, fold) ← foldSpace (some indent) (q.rest.length + 1) q pending
        if !flow && r.column < indent then some (text.reverse, r, fold.broken)
        else plainBody flow indent fuel r fold text
      else some (text.reverse, q, pending.broken)

/-- Reads a plain scalar in a block of the given indentation. -/
def plainScalar (flow : Bool) (parent : Int) (p : Place) : Option (List Char × Place × Bool) :=
  plainBody flow (parent + 1).toNat (p.rest.length + 2) p {} []

end StyleContract.Yaml
