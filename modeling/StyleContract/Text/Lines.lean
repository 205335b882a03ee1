/-!
# Text — Lines

Texts as lines. A line ends with a line feed, which may follow one carriage return; a text that
ends with a line end has no further, empty line.
-/

namespace StyleContract.Text

/-- The parts of a text between the occurrences of a character. -/
def splitOn (c : Char) : List Char → List (List Char)
  | [] => [[]]
  | x :: xs =>
    if x = c then [] :: splitOn c xs
    else match splitOn c xs with
      | part :: parts => (x :: part) :: parts
      | [] => [[x]]

/-- A line without the carriage return at its end. -/
def dropReturn (cs : List Char) : List Char :=
  if cs.getLast? = some '\r' then cs.dropLast else cs

/-- The lines among the parts between line feeds: the last part is one if it is not empty. -/
def linesOfParts : List (List Char) → List (List Char)
  | [] => []
  | [last] => if last.isEmpty then [] else [last]
  | part :: parts => dropReturn part :: linesOfParts parts

/-- The lines of a text. -/
def lines (s : String) : List String :=
  (linesOfParts (splitOn '\n' s.toList)).map String.ofList

/-- The number of lines of a text, at least one. -/
def lineCount (s : String) : UInt32 := max (UInt32.ofNat (lines s).length) 1

/-- The number of the line that a place in a text belongs to, counted from one. -/
def lineOfPlace (cs : List Char) (place : Nat) : UInt32 :=
  UInt32.ofNat ((cs.take place).count '\n') + 1

/-- The number of the line that a byte of a text belongs to. -/
def lineOfByte (s : String) (offset : Nat) : UInt32 :=
  UInt32.ofNat ((s.toUTF8.toList.take offset).count 10) + 1

theorem splitOn_ne_nil (c : Char) (cs : List Char) : splitOn c cs ≠ [] := by
  cases cs with
  | nil => simp [splitOn]
  | cons x xs =>
    simp only [splitOn]
    split
    · simp
    · split <;> simp

/-- There is one part more than there are occurrences of the character. -/
theorem length_splitOn (c : Char) (cs : List Char) :
    (splitOn c cs).length = cs.count c + 1 := by
  induction cs with
  | nil => simp [splitOn]
  | cons x xs ih =>
    simp only [splitOn]
    split
    · next h => simp [h, ih]
    · next h =>
      rw [List.count_cons_of_ne h, ← ih]
      split
      · next heq => simp [heq]
      · next heq => exact absurd heq (splitOn_ne_nil c xs)

end StyleContract.Text
