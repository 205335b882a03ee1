import StyleContract.Json.Printer
import StyleContract.Yaml.Core

/-!
# Yaml — Printer

Values as YAML text in block style. Each text is written in the plainest style that reads back as
the same text: plain, between single quotes, as a literal block if it has several lines, or
between double quotes if it holds characters that need an escape.
-/

namespace StyleContract.Yaml.Printer

/-- As in JSON, but a positive exponent has no sign. -/
def numberLayout : Decimal.Layout where
  positional := some (-5, 15)
  pointZero := true
  plus := false
  nan := ".nan"
  infinite := ".inf"

/-! ### What a text allows -/

/-- Whether a character can stand unescaped. -/
def isPrintable (c : Char) : Bool :=
  let n := c.toNat
  n == 0x0A || (0x20 ≤ n && n ≤ 0x7E) || (0xA0 ≤ n && n ≤ 0xFFFD && n != 0xFEFF) || 0x10000 ≤ n

/-- Whether a blank, a line break or the end comes first. -/
def blankAhead : List Char → Bool
  | [] => true
  | c :: _ => isBlank c || isBreak c || c == '\x00'

/-- Whether the first characters of a text mean something else than text. -/
def startsMarked : List Char → Bool
  | '-' :: '-' :: '-' :: _ | '.' :: '.' :: '.' :: _ => true
  | c :: cs =>
    "#,[]\x7b\x7d&*!|>'\"%@\x60".toList.contains c || ("?:-".toList.contains c && blankAhead cs)
  | [] => false

/-- Whether a colon or a number sign stands where it ends a plain text; `afterBlank` says what
came before. -/
def holdsMark (afterBlank : Bool) : List Char → Bool
  | [] => false
  | c :: cs =>
    (c == ':' && blankAhead cs) || (c == '#' && afterBlank) || holdsMark (blankAhead [c]) cs

/-- Whether two neighbours satisfy two conditions. -/
def hasPair (p q : Char → Bool) : List Char → Bool
  | a :: b :: cs => (p a && q b) || hasPair p q (b :: cs)
  | _ => false

def isSpace (c : Char) : Bool := c == ' '

def hasLines (cs : List Char) : Bool := cs.any isBreak

/-- Whether a text can only be written with escapes. -/
def needsEscape (cs : List Char) : Bool :=
  cs.any (!isPrintable ·) || hasPair isSpace isBreak cs

/-- Whether a text can be written without quotes. -/
def allowsPlain (cs : List Char) : Bool :=
  !(cs.head?.any isSpace || cs.getLast?.any isSpace || hasLines cs || needsEscape cs ||
    startsMarked cs || holdsMark true cs)

/-- Whether a text can be written between single quotes. -/
def allowsSingle (cs : List Char) : Bool := !(needsEscape cs || hasPair isBreak isSpace cs)

/-- Whether a text can be written as a literal block. -/
def allowsLiteral (cs : List Char) : Bool :=
  !(cs.isEmpty || cs.getLast?.any isSpace || needsEscape cs)

/-- Whether a text without quotes would be read as something else. -/
def readsOtherwise (s : String) : Bool :=
  match Core.of s with
  | .text s => Core.isZeroLed s.toList
  | _ => true

/-- The style in which a text is written. -/
def styleOf (s : String) : Style :=
  let cs := s.toList
  if cs.contains '\n' then (if allowsLiteral cs then .literal else .double)
  else if !readsOtherwise s && allowsPlain cs then .plain
  else if allowsSingle cs then .single
  else .double

/-! ### Scalars -/

def padding (indent : Nat) : List Char := List.replicate indent ' '

/-- The characters with an indentation after each line break, and before the first one if a line
starts there. -/
def indented (indent : Nat) (atStart : Bool) : List Char → List Char
  | [] => []
  | c :: cs =>
    if isBreak c then c :: indented indent true cs
    else (if atStart then padding indent else []) ++ c :: indented indent false cs

def hexPadded (width n : Nat) : List Char :=
  let ds := (Nat.toDigits 16 n).map Char.toUpper
  List.replicate (width - ds.length) '0' ++ ds

/-- A character between double quotes. -/
def escaped (c : Char) : List Char :=
  match c with
  | '\x00' => ['\\', '0']
  | '\x07' => ['\\', 'a']
  | '\x08' => ['\\', 'b']
  | '\t' => ['\\', 't']
  | '\n' => ['\\', 'n']
  | '\x0b' => ['\\', 'v']
  | '\x0c' => ['\\', 'f']
  | '\r' => ['\\', 'r']
  | '\x1b' => ['\\', 'e']
  | '"' => ['\\', '"']
  | '\\' => ['\\', '\\']
  | '\u0085' => ['\\', 'N']
  | '\u2028' => ['\\', 'L']
  | '\u2029' => ['\\', 'P']
  | c =>
    if isPrintable c then [c]
    else if c.toNat ≤ 0xFF then '\\' :: 'x' :: hexPadded 2 c.toNat
    else if c.toNat ≤ 0xFFFF then '\\' :: 'u' :: hexPadded 4 c.toNat
    else '\\' :: 'U' :: hexPadded 8 c.toNat

/-- The signs after the bar of a literal block: its indentation if the text does not show it, and
what becomes of the line ends after it. -/
def literalHints (cs : List Char) : List Char :=
  (if cs.head?.any fun c => isSpace c || isBreak c then ['2'] else []) ++
    match cs.reverse with
    | a :: rest => if isBreak a then (if rest.head?.all isBreak then ['+'] else []) else ['-']
    | [] => ['-']

/-- A text in a style, with the line end after it. -/
def textIn (style : Style) (indent : Nat) (cs : List Char) : List Char :=
  match style with
  | .plain => cs ++ ['\n']
  | .single =>
    let body := indented indent false (cs.flatMap fun c => if c = '\'' then [c, c] else [c])
    '\'' :: body ++ (if cs.getLast?.any isBreak then padding indent else []) ++ ['\'', '\n']
  | .literal | .folded =>
    '|' :: literalHints cs ++ '\n' :: indented indent true cs ++
      (if cs.getLast?.any isBreak then [] else ['\n'])
  | .double => '"' :: cs.flatMap escaped ++ ['"', '\n']

/-- A text below a collection with the given indentation. -/
def textBelow (indent : Nat) (s : String) : String :=
  String.ofList (textIn (styleOf s) (indent + 2) s.toList)

def pad (indent : Nat) : String := String.ofList (padding indent)

def numberText : Json.Number → String
  | .int n => toString n
  | .float x => numberLayout.render x

/-- Whether a key goes on the line of its value. -/
def isShortKey (key : String) : Bool := !hasLines key.toList && key.utf8ByteSize ≤ 128

/-- A key on the line of its value. -/
def keyText (key : String) : String :=
  String.ofList ((textIn (styleOf key) 0 key.toList).dropLast)

/-! ### Collections -/

mutual

/-- What follows the sign of an item, or of a value whose key has lines of its own. -/
def afterSign (indent : Nat) : Json → String
  | .null => "null\n"
  | .bool b => Json.boolText b ++ "\n"
  | .num n => numberText n ++ "\n"
  | .str s => textBelow indent s
  | .arr [] => "[]\n"
  | .arr items => itemsText (indent + 2) true items
  | .obj [] => "\x7b\x7d\n"
  | .obj members => membersText (indent + 2) true members

/-- What follows the colon after a key. -/
def afterKey (indent : Nat) : Json → String
  | .null => " null\n"
  | .bool b => " " ++ Json.boolText b ++ "\n"
  | .num n => " " ++ numberText n ++ "\n"
  | .str s => " " ++ textBelow indent s
  | .arr [] => " []\n"
  | .arr items => "\n" ++ itemsText indent false items
  | .obj [] => " \x7b\x7d\n"
  | .obj members => "\n" ++ membersText (indent + 2) false members

/-- The items of a sequence, the first of which may stand on a line that is begun. -/
def itemsText (indent : Nat) (begun : Bool) : List Json → String
  | [] => ""
  | v :: vs =>
    (if begun then "" else pad indent) ++ "- " ++ afterSign indent v ++ itemsText indent false vs

/-- The entries of a mapping, the first of which may stand on a line that is begun. -/
def membersText (indent : Nat) (begun : Bool) : List (String × Json) → String
  | [] => ""
  | (k, v) :: rest =>
    (if begun then "" else pad indent) ++
      (if isShortKey k then keyText k ++ ":" ++ afterKey indent v
        else "? " ++ textBelow indent k ++ pad indent ++ ": " ++ afterSign indent v) ++
      membersText indent false rest

end

end Printer

/-- A value as a YAML text. -/
def print (v : Json) : String :=
  match v with
  | .arr (x :: xs) => Printer.itemsText 0 false (x :: xs)
  | .obj (m :: ms) => Printer.membersText 0 false (m :: ms)
  | v => Printer.afterSign 0 v

end StyleContract.Yaml
