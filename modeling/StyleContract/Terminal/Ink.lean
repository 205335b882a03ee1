import StyleContract.Contract.Severity

/-!
# Terminal — Ink

Text in bold, dim or a colour. A terminal is told by a code before the text and a reset after it;
without colours the text stands alone, and `paint_plain` says so.
-/

namespace StyleContract.Terminal

/-- The codes of a style, in the order in which a terminal is told them. -/
structure Ink where
  codes : List String
  deriving DecidableEq, Repr

namespace Ink

def dim : Ink := ⟨["2"]⟩
def bold : Ink := ⟨["1"]⟩
def red : Ink := ⟨["31"]⟩
def green : Ink := ⟨["32"]⟩
def yellow : Ink := ⟨["33"]⟩
def blue : Ink := ⟨["34"]⟩
def cyan : Ink := ⟨["36"]⟩

/-- A style in bold. -/
def strong (ink : Ink) : Ink := ⟨bold.codes ++ ink.codes⟩

def reset : List Char := "\x1b[0m".toList

/-- The code that starts a style. -/
def start (ink : Ink) : List Char := ("\x1b[" ++ String.intercalate ";" ink.codes ++ "m").toList

/-- Starts a style again after each reset within a text. -/
def resume (ink : Ink) : List Char → List Char
  | '\x1b' :: '[' :: '0' :: 'm' :: cs => reset ++ ink.start ++ ink.resume cs
  | c :: cs => c :: ink.resume cs
  | [] => []

/-- A text in a style, if colours are on. -/
def paint (coloured : Bool) (ink : Ink) (s : String) : String :=
  if coloured then String.ofList (ink.start ++ ink.resume s.toList ++ reset) else s

theorem paint_plain (ink : Ink) (s : String) : ink.paint false s = s := rfl

end Ink

/-- A text and blanks up to a width. -/
def padded (width : Nat) (s : String) : String :=
  s ++ String.ofList (List.replicate (width - s.length) ' ')

/-- The width of a column of rule ids. -/
def idWidth : Nat := 14

/-- A line of one sign under a heading. -/
def underline (sign : Char) : String := String.ofList (List.replicate 60 sign) ++ "\n"

/-- A heading on a line of its own. -/
def heading (coloured : Bool) (s : String) : String := Ink.cyan.strong.paint coloured s ++ "\n"

/-- A severity in a column of its own. -/
def severityLabel (coloured : Bool) : Severity → String
  | .error => Ink.red.strong.paint coloured "ERROR"
  | .warn => Ink.yellow.strong.paint coloured "WARN "
  | .info => Ink.blue.paint coloured "INFO "

/-- The note that a file has been written. -/
def written (coloured : Bool) (path what : String) : String :=
  Ink.green.paint coloured "+" ++ " Wrote " ++ path ++ " (" ++ what ++ ")\n"

end StyleContract.Terminal
