import StyleContract.Pattern.Basic
import StyleContract.Text.Digits

/-!
# Pattern — Reader

Patterns as they are written in schemas: `|` for alternatives, the quantifiers `*`, `+`, `?` and
counted ones, groups, classes in brackets, anchors and escapes. The letters of the short classes
mean ASCII sets here.
-/

namespace StyleContract.Pattern

/-- The letter cases that a pattern tells apart, and what a dot and the anchors mean. -/
structure Flags where
  ignoreCase : Bool := false
  lines : Bool := false
  dotAll : Bool := false
  deriving DecidableEq, Repr

def asciiDigit : CharSet := .range '0' '9'

def asciiLetter : CharSet := .union (.range 'a' 'z') (.range 'A' 'Z')

def asciiWord : CharSet := .union asciiLetter (.union asciiDigit (.only '_'))

/-- The blanks of the short class. -/
def shortBlank : CharSet :=
  .of [' ', '\t', '\n', '\r', '\x0b', '\x0c', '\u00a0', '\ufeff', '\u2003', '\u2029']

/-- The set that a short class letter names. -/
def shortClass? (c : Char) : Option CharSet :=
  if c = 'd' then some asciiDigit
  else if c = 'D' then some (.compl asciiDigit)
  else if c = 'w' then some asciiWord
  else if c = 'W' then some (.compl asciiWord)
  else if c = 's' then some shortBlank
  else if c = 'S' then some (.compl shortBlank)
  else none

/-- The character that a letter stands for after a backslash. -/
def controlChar? (c : Char) : Option Char :=
  if c = 'n' then some '\n'
  else if c = 't' then some '\t'
  else if c = 'r' then some '\r'
  else if c = 'f' then some '\x0c'
  else if c = 'v' then some '\x0b'
  else if c = 'a' then some '\x07'
  else none

def isPunctuation (c : Char) : Bool :=
  0x20 ≤ c.toNat && c.toNat < 0x7F && !c.isAlphanum && c != '<' && c != '>'

def hexNumber? (cs : List Char) : Option Nat :=
  if cs.isEmpty then none
  else cs.foldlM (fun n c => (Text.hexValue? c).map (n * 16 + ·)) 0

/-- Reads the code point of an escape by number, after its letter. -/
def codePoint? (width : Nat) : List Char → Option (Char × List Char)
  | '{' :: cs => do
    let n ← hexNumber? (cs.takeWhile (· != '\x7d'))
    match cs.dropWhile (· != '\x7d') with
    | _ :: rest => if n.isValidChar then some (Char.ofNat n, rest) else none
    | [] => none
  | cs => do
    if cs.length < width then none
    let n ← hexNumber? (cs.take width)
    if n.isValidChar then some (Char.ofNat n, cs.drop width) else none

/-- What a backslash and its letter mean inside a class. -/
def classEscape? : List Char → Option (CharSet × List Char)
  | [] => none
  | c :: cs =>
    match shortClass? c with
    | some set => some (set, cs)
    | none =>
      match controlChar? c with
      | some x => some (.only x, cs)
      | none =>
        if c = 'x' then (codePoint? 2 cs).map fun r => (.only r.1, r.2)
        else if c = 'u' then (codePoint? 4 cs).map fun r => (.only r.1, r.2)
        else if isPunctuation c then some (.only c, cs)
        else none

/-- One side of a range in a class: a character, or a class that cannot be part of a range. -/
def classAtom? : List Char → Option (CharSet × List Char)
  | [] => none
  | '\\' :: cs => classEscape? cs
  | c :: cs => some (.only c, cs)

/-- Reads the parts of a class up to its closing bracket; a bracket that comes first is a member
of the class. -/
def classBody (fuel : Nat) (first : Bool) (acc : CharSet) (cs : List Char) :
    Option (CharSet × List Char) :=
  match fuel with
  | 0 => none
  | fuel + 1 =>
    match cs with
    | [] => none
    | ']' :: rest =>
      if first then classBody fuel false (.union acc (.only ']')) rest else some (acc, rest)
    | cs => do
      let (a, rest) ← classAtom? cs
      match rest with
      | '-' :: ']' :: rest => some (.union (.union acc a) (.only '-'), rest)
      | '-' :: rest' =>
        match a with
        | .only x => do
          let (b, rest) ← classAtom? rest'
          match b with
          | .only y =>
            if x ≤ y then classBody fuel false (.union acc (.range x y)) rest else none
          | _ => none
        | _ => classBody fuel false (.union acc a) rest
      | rest => classBody fuel false (.union acc a) rest

/-- Both cases of the ASCII letters in a set. -/
def foldCase (set : CharSet) : CharSet :=
  let pairs := (List.range 26).map fun i => (Char.ofNat (65 + i), Char.ofNat (97 + i))
  pairs.foldl (fun acc (u, l) =>
    if set.has u || set.has l then .union acc (.union (.only u) (.only l)) else acc) set

def Flags.set (flags : Flags) (s : CharSet) : Pattern :=
  .one (if flags.ignoreCase then foldCase s else s)

def dot (flags : Flags) : CharSet := if flags.dotAll then .compl .none else .compl (.only '\n')

/-- Reads a decimal number. -/
def number? (cs : List Char) : Option (Nat × List Char) :=
  let ds := cs.takeWhile Char.isDigit
  if ds.isEmpty ∨ 4 < ds.length then none
  else some (ds.foldl (fun n d => n * 10 + (d.toNat - 48)) 0, cs.dropWhile Char.isDigit)

/-- Reads a counted quantifier after its opening brace. -/
def counted? (cs : List Char) : Option ((Nat × Option Nat) × List Char) := do
  let (lo, cs) ← number? cs
  match cs with
  | '}' :: rest => some ((lo, some 0), rest)
  | ',' :: '}' :: rest => some ((lo, none), rest)
  | ',' :: rest =>
    let (hi, rest) ← number? rest
    match rest with
    | '}' :: rest => if lo ≤ hi then some ((lo, some (hi - lo)), rest) else none
    | _ => none
  | _ => none

/-- Applies the quantifiers that follow an atom. -/
def quantified (fuel : Nat) (atom : Pattern) (cs : List Char) : Option (Pattern × List Char) :=
  match fuel with
  | 0 => none
  | fuel + 1 =>
    let apply (least : Nat) (more : Option Nat) (rest : List Char) :=
      match rest with
      | '?' :: rest => quantified fuel (.many least more false atom) rest
      | rest => quantified fuel (.many least more true atom) rest
    match cs with
    | '*' :: rest => apply 0 none rest
    | '+' :: rest => apply 1 none rest
    | '?' :: rest => apply 0 (some 1) rest
    | '{' :: rest =>
      match counted? rest with
      | some ((least, more), rest) => apply least more rest
      | none => some (atom, cs)
    | cs => some (atom, cs)

/-- What a backslash and its letter mean outside a class. -/
def escape? (flags : Flags) (cs : List Char) : Option (Pattern × List Char) :=
  match cs with
  | 'b' :: rest => some (.anchor .wordEdge, rest)
  | 'B' :: rest => some (.anchor .notWordEdge, rest)
  | 'A' :: rest => some (.anchor .textStart, rest)
  | 'z' :: rest => some (.anchor .textEnd, rest)
  | cs => (classEscape? cs).map fun r => (flags.set r.1, r.2)

/-- Reads the letters of inline flags up to the character that ends them. -/
def flagLetters (flags : Flags) (on : Bool) : List Char → Option (Flags × Char × List Char)
  | [] => none
  | c :: cs =>
    if c = ':' ∨ c = ')' then some (flags, c, cs)
    else if c = '-' then flagLetters flags false cs
    else if c = 'i' then flagLetters { flags with ignoreCase := on } on cs
    else if c = 'm' then flagLetters { flags with lines := on } on cs
    else if c = 's' then flagLetters { flags with dotAll := on } on cs
    else none

/-- How a group opens. -/
inductive Opening where
  | capturing
  | plain (flags : Flags)
  | look (ahead : Bool)
  | flags (flags : Flags)

/-- Reads what follows the opening parenthesis of a group. -/
def opening? (flags : Flags) : List Char → Option (Opening × List Char)
  | '?' :: '=' :: cs => some (.look true, cs)
  | '?' :: '!' :: cs => some (.look false, cs)
  | '?' :: 'P' :: '<' :: cs | '?' :: '<' :: cs =>
    match cs.dropWhile (· != '>') with
    | _ :: rest =>
      let name := cs.takeWhile (· != '>')
      if name.all Text.isWord && !name.isEmpty then some (.capturing, rest) else none
    | [] => none
  | '?' :: cs => do
    let (inner, stop, rest) ← flagLetters flags true cs
    some (if stop = ':' then .plain inner else .flags inner, rest)
  | cs => some (.capturing, cs)

mutual

/-- Reads alternatives up to a closing parenthesis or the end; `next` numbers the groups. -/
def alternatives (fuel : Nat) (flags : Flags) (next : Nat) (cs : List Char) :
    Option (Pattern × Nat × List Char) :=
  match fuel with
  | 0 => none
  | fuel + 1 => do
    let (p, next, rest) ← sequence fuel flags next .empty cs
    match rest with
    | '|' :: rest => do
      let (q, next, rest) ← alternatives fuel flags next rest
      some (.alt p q, next, rest)
    | rest => some (p, next, rest)

/-- Reads a sequence of quantified atoms after `acc`. -/
def sequence (fuel : Nat) (flags : Flags) (next : Nat) (acc : Pattern) (cs : List Char) :
    Option (Pattern × Nat × List Char) :=
  match fuel with
  | 0 => none
  | fuel + 1 =>
    let continue_ (atom : Pattern) (next : Nat) (rest : List Char) := do
      let (p, rest) ← quantified (rest.length + 1) atom rest
      sequence fuel flags next (.seq acc p) rest
    match cs with
    | [] | '|' :: _ | ')' :: _ => some (acc, next, cs)
    | '(' :: cs => do
      let (how, rest) ← opening? flags cs
      match how with
      | .flags inner => sequence fuel inner next acc rest
      | .capturing => do
        let (p, next', rest) ← alternatives fuel flags (next + 1) rest
        match rest with
        | ')' :: rest => continue_ (.group next p) next' rest
        | _ => none
      | .plain inner => do
        let (p, next, rest) ← alternatives fuel inner next rest
        match rest with
        | ')' :: rest => continue_ p next rest
        | _ => none
      | .look ahead => do
        let (p, next, rest) ← alternatives fuel flags next rest
        match rest with
        | ')' :: rest => continue_ (.look ahead p) next rest
        | _ => none
    | '[' :: '^' :: cs => do
      let (set, rest) ← classBody (cs.length + 1) true .none cs
      continue_ (flags.set (.compl set)) next rest
    | '[' :: cs => do
      let (set, rest) ← classBody (cs.length + 1) true .none cs
      continue_ (flags.set set) next rest
    | '\\' :: cs => do
      let (p, rest) ← escape? flags cs
      continue_ p next rest
    | '^' :: cs => continue_ (.anchor (if flags.lines then .lineStart else .textStart)) next cs
    | '$' :: cs => continue_ (.anchor (if flags.lines then .lineEnd else .textEnd)) next cs
    | '.' :: cs => continue_ (.one (dot flags)) next cs
    | c :: cs =>
      if c = '*' ∨ c = '+' ∨ c = '?' then none
      else continue_ (flags.set (.only c)) next cs

end

/-- The pattern that a text describes, if it describes one. -/
def ofString? (s : String) : Option Pattern := do
  let cs := s.toList
  let (p, _, rest) ← alternatives (2 * cs.length + 2) {} 1 cs
  if rest.isEmpty then some p else none

end StyleContract.Pattern
