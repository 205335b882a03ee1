import StyleContract.Text.LowerCase
import StyleContract.Text.Lines

/-!
# Files — Path

Paths as text: their steps, the directory above, the last name and its extension, and joining.
-/

namespace StyleContract.Path

/-- The parts between the slashes. -/
def parts (path : String) : List (List Char) := Text.splitOn '/' path.toList

/-- The steps of a path, without empty ones and those that stay in place. -/
def steps (path : String) : List String :=
  ((parts path).filter fun p => p ≠ [] ∧ p ≠ ['.']).map String.ofList

def isAbsolute (path : String) : Bool := path.toList.head? == some '/'

/-- Whether the path can only name a directory. -/
def endsInFolder (path : String) : Bool :=
  match (parts path).getLast? with
  | some last => last == [] || last == ['.']
  | none => false

/-- Drops slashes and steps that stay in place from the end; `reversed` is the path backwards. -/
def dropIdle : List Char → List Char
  | '/' :: rest => dropIdle rest
  | ['.'] => ['.']
  | '.' :: '/' :: rest => dropIdle ('/' :: rest)
  | cs => cs
termination_by cs => cs.length

/-- The path of the directory above, if the path has a last step. -/
def parent? (path : String) : Option String :=
  match dropIdle path.toList.reverse with
  | [] => none
  | cs =>
    let above := dropIdle (cs.dropWhile (· != '/'))
    some (if above.isEmpty && isAbsolute path then "/" else String.ofList above.reverse)

/-- The last step, unless it leads upwards. -/
def name? (path : String) : Option String :=
  match (steps path).getLast? with
  | some ".." => none
  | name => name

/-- What follows the last dot of a name, for a dot that is not its first character. -/
def extensionOf? (name : List Char) : Option (List Char) :=
  match name.reverse.dropWhile (· != '.') with
  | _ :: _ :: _ => some (name.reverse.takeWhile (· != '.')).reverse
  | _ => none

/-- The extension of a path's last name. -/
def extension? (path : String) : Option String := do
  let ext ← extensionOf? (← name? path).toList
  some (String.ofList ext)

/-- The extension in lower case. -/
def lowerExtension? (path : String) : Option String := (extension? path).map Text.lower

/-- A path below a directory; an absolute path stays as it is. -/
def join (base path : String) : String :=
  if isAbsolute path || base.isEmpty then path
  else if base.toList.getLast? == some '/' then base ++ path
  else base ++ "/" ++ path

end StyleContract.Path
