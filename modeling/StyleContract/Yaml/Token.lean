/-!
# Yaml — Token

The tokens of YAML text, and places in the text while it is read. The start and the end of a
block's indentation are tokens of their own.
-/

namespace StyleContract.Yaml

/-- How a scalar is written. -/
inductive Style where
  | plain
  | single
  | double
  | literal
  | folded
  deriving DecidableEq, Repr

inductive Token where
  | version (major minor : Nat)
  | handle (name target : String)
  | documentStart
  | documentEnd
  | blockSequenceStart
  | blockMappingStart
  | blockEnd
  | flowSequenceStart
  | flowSequenceEnd
  | flowMappingStart
  | flowMappingEnd
  | blockEntry
  | flowEntry
  | key
  | value
  | alias (name : String)
  | anchor (name : String)
  | tag (handle suffix : String)
  | scalar (text : String) (style : Style)
  deriving DecidableEq, Repr

/-- What is left of the text, and where that is: counted in characters from the start and in
lines and columns, all from zero. -/
structure Place where
  rest : List Char
  index : Nat := 0
  line : Nat := 0
  column : Nat := 0
  deriving DecidableEq, Repr

def isBreak (c : Char) : Bool :=
  c == '\n' || c == '\r' || c == '\u0085' || c == '\u2028' || c == '\u2029'

def isBlank (c : Char) : Bool := c == ' ' || c == '\t'

/-- A letter, digit or one of the two signs that names may hold. -/
def isNameChar (c : Char) : Bool := c.isAlphanum || c == '_' || c == '-'

/-- The characters that YAML text may hold. -/
def isAllowed (c : Char) : Bool :=
  let n := c.toNat
  n == 0x09 || n == 0x0A || n == 0x0D || (0x20 ≤ n && n ≤ 0x7E) || n == 0x85 ||
    (0xA0 ≤ n && n ≤ 0xFFFD) || 0x10000 ≤ n

namespace Place

def head? (p : Place) : Option Char := p.rest.head?

def at? (p : Place) (n : Nat) : Option Char := p.rest[n]?

def is (p : Place) (c : Char) : Bool := p.head? == some c

/-- Whether the `n`-th character from here is a blank, a line break, or past the end. -/
def blankOrEndAt (p : Place) (n : Nat) : Bool := (p.at? n).all fun c => isBlank c || isBreak c

def blankOrEnd (p : Place) : Bool := p.blankOrEndAt 0

def breakOrEnd (p : Place) : Bool := p.head?.all isBreak

def onBlank (p : Place) : Bool := p.head?.any isBlank

def onBreak (p : Place) : Bool := p.head?.any isBreak

def atEnd (p : Place) : Bool := p.rest.isEmpty

/-- One character on, within a line. -/
def next (p : Place) : Place :=
  ⟨p.rest.drop 1, p.index + 1, p.line, p.column + 1⟩

/-- `n` characters on, within a line. -/
def skip (p : Place) (n : Nat) : Place :=
  ⟨p.rest.drop n, p.index + n, p.line, p.column + n⟩

/-- Past a line break, with the text it stands for. -/
def nextLine (p : Place) : Place × List Char :=
  match p.rest with
  | '\r' :: '\n' :: rest => (⟨rest, p.index + 2, p.line + 1, 0⟩, ['\n'])
  | c :: rest =>
    if isBreak c then
      (⟨rest, p.index + 1, p.line + 1, 0⟩,
        [if c == '\u2028' || c == '\u2029' then c else '\n'])
    else (p, [])
  | [] => (p, [])

/-- Past all characters that satisfy a condition, within a line. -/
def skipWhile (p : Place) (cond : Char → Bool) : Place := p.skip (p.rest.takeWhile cond).length

/-- Whether a document marker stands here. -/
def onMarker (p : Place) : Bool :=
  p.column == 0 && (p.rest.take 3 == ['-', '-', '-'] || p.rest.take 3 == ['.', '.', '.']) &&
    p.blankOrEndAt 3

end Place

end StyleContract.Yaml
