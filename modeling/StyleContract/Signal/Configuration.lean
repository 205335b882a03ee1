import StyleContract.Json.Reader
import StyleContract.Pattern.Search
import StyleContract.Power
import StyleContract.Signal.Basic
import StyleContract.Text.Find
import StyleContract.Toml.Reader

/-!
# Signal — Configuration

Signals from the configuration of formatters and compilers at the root of a repository.
-/

namespace StyleContract

open Pattern

namespace Signal

def blackLineLengthKind : String := "config.black.lineLength"

def tsconfigStrictKind : String := "config.tsconfig.strict"

def prettierPresentKind : String := "config.prettier.present"

end Signal

namespace Configuration

/-- A line that sets the line length; the number is the first group. -/
def lineLengthPattern : Pattern :=
  chain [.anchor .lineStart, star (.one (.of [' ', '\t'])), literal "line",
    optional (.one (.of ['-', '_'])), literal "length", blanks, literal "=", blanks,
    .group 1 (plus (.one .decimal))]

def strictPattern : Pattern :=
  chain [literal "\"strict\"", blanks, literal ":", blanks, literal "true"]

/-- The formatter's configuration files, the first one that is there counts. -/
def prettierFiles : List String :=
  [".prettierrc", ".prettierrc.json", ".prettierrc.yaml", ".prettierrc.yml", ".prettierrc.js",
    ".prettierrc.cjs", ".prettierrc.mjs", ".prettierrc.toml", ".prettierrc.json5",
    "prettier.config.js", "prettier.config.cjs", "prettier.config.mjs", "prettier.config.ts"]

/-- The text of a file, if there is such a file. -/
def optionalText (tree : Entry) (root name : String) : Except ScanError (Option String) :=
  let path := Path.join root name
  if tree.isFile path then
    match tree.readText path with
    | .ok s => .ok (some s)
    | .error e => .error (.unreadable name e)
  else .ok none

/-! ### Line length -/

/-- The line length that a tool's section sets. -/
def sectionLength? (document : Option Toml) (tool : String) : Option Nat := do
  let tools ← (← document).get? "tool"
  let table ← tools.get? tool
  let n ← (← table.get? "line-length").int?
  if 0 < n then some n.toNat else none

/-- The line that sets a line length after the header of a section. -/
def sectionLine? (cs : List Char) (header : String) (length : Nat) : Option UInt32 := do
  let start ← Text.placeOf? header.toList cs
  let rest := cs.drop start
  let m ← (lineLengthPattern.findAll rest).find? fun m =>
    m.group? 1 rest == some (toString length).toList
  some (Text.lineOfPlace cs (start + m.start))

/-- The line length set anywhere in a text, with its line. -/
def anyLength? (cs : List Char) : Option (Nat × UInt32) := do
  let m ← lineLengthPattern.find? cs
  let n ← Text.natural? (← m.group? 1 cs)
  if n < twoTo 64 then some (n, Text.lineOfPlace cs m.start) else none

/-- The line length that a project file sets and the line that sets it: one tool's section, else
the other's, else any line that looks like it. -/
def lineLength? (text : String) : Option (Nat × UInt32) :=
  let cs := text.toList
  let document := Toml.ofText? text
  let fromSection (tool : String) : Option (Nat × UInt32) :=
    (sectionLength? document tool).map fun n =>
      (n, (sectionLine? cs ("[tool." ++ tool ++ "]") n).getD 1)
  ((fromSection "black").or (fromSection "ruff")).or (anyLength? cs)

/-! ### Strict mode -/

/-- The line that turns strict mode on. In a text that is no JSON, any line that looks like it. -/
def strictLine? (text : String) : Option UInt32 :=
  let cs := text.toList
  let found := (strictPattern.find? cs).map fun m => Text.lineOfPlace cs m.start
  match Json.read text with
  | .ok document =>
    if ((document.get "compilerOptions").get "strict").bool? = some true then
      some (found.getD 1)
    else none
  | .error _ => found

def signal (kind : String) (value : Json) (path : String) (line : UInt32) : Signal :=
  ⟨kind, value, path, ⟨line, line⟩, 1.0⟩

/-- The signals of one file, if the file is there. -/
def fromFile (tree : Entry) (root name : String) (read : String → Option Signal) :
    Except ScanError (List Signal) := do
  match ← optionalText tree root name with
  | some text => .ok (read text).toList
  | none => .ok []

def scanner : Scanner where
  name := "config"
  scan tree root _ := do
    let lengths ← fromFile tree root "pyproject.toml" fun text =>
      (lineLength? text).map fun (n, line) =>
        signal Signal.blackLineLengthKind (Json.ofNat n) "pyproject.toml" line
    let strict ← fromFile tree root "tsconfig.json" fun text =>
      (strictLine? text).map fun line =>
        signal Signal.tsconfigStrictKind (.bool true) "tsconfig.json" line
    let prettier := (prettierFiles.find? fun name => tree.isFile (Path.join root name)).map
      fun name => signal Signal.prettierPresentKind (.bool true) name 1
    .ok (lengths ++ strict ++ prettier.toList)

end Configuration

end StyleContract
