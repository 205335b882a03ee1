import StyleContract.Contract.Basic
import StyleContract.Json.Printer
import StyleContract.Json.Reader
import StyleContract.Pattern.Search
import StyleContract.Power
import StyleContract.Store

/-!
# Verification — Suggestion

Small changes of configuration files that bring a repository in line with its contract. Only two
rules have a counterpart in configuration; a file that already agrees is left alone.
-/

namespace StyleContract

open Pattern

/-- A new content for a file. -/
structure Suggestion where
  ruleId : String
  path : String
  description : String
  /-- The content so far; absent if the file is new. -/
  before : Option String
  after : String
  deriving DecidableEq, Repr

namespace Suggestion

def toJson (s : Suggestion) : Json :=
  .obj [("ruleId", .str s.ruleId), ("path", .str s.path), ("description", .str s.description),
    ("before", match s.before with
      | some text => .str text
      | none => .null),
    ("after", .str s.after)]

/-- The lines of one text that another one does not have, after a sign. -/
def missingLines (sign : String) (lines others : List String) : String :=
  String.join ((lines.filter (· ∉ others)).map fun l => sign ++ l ++ "\n")

/-- The lines that go and the lines that come. -/
def diff (s : Suggestion) : String :=
  let before := Text.lines (s.before.getD "")
  let after := Text.lines s.after
  let old := if s.before.isSome then "a/" ++ s.path else "/dev/null"
  "--- " ++ old ++ "\n+++ b/" ++ s.path ++ "\n" ++ missingLines "-" before after ++
    missingLines "+" after before

/-! ### Line length -/

def ruffFile : String := "ruff.toml"

/-- A command's flag for the line length. -/
def flagPattern : Pattern :=
  chain [literal "--line-length", .one (.of ['=', ' ']), .group 1 (plus (.one .decimal))]

/-- Two or three digits that stand alone. -/
def numberPattern : Pattern :=
  chain [.anchor .wordEdge, .group 1 (.many 2 (some 1) true (.one .decimal)), .anchor .wordEdge]

/-- A line that sets the line length: what comes before the number, and the number. -/
def settingPattern : Pattern :=
  chain [.anchor .lineStart,
    .group 1 (chain [star (.one (.of [' ', '\t'])), literal "line-length", blanks, literal "=",
      blanks]),
    .group 2 (plus (.one .decimal))]

/-- The text of a group of the leftmost match. -/
def groupIn? (p : Pattern) (index : Nat) (text : String) : Option (List Char) :=
  (p.find? text.toList).bind (·.group? index text.toList)

/-- A number of 32 bits. -/
def natural32? (cs : List Char) : Option Nat := (Text.natural? cs).filter (· < twoTo 32)

/-- The line length that a rule names, in its repair or else in its statement. -/
def lineLength? (r : Rule) : Option Nat :=
  ((r.autofix.bind fun f => groupIn? flagPattern 1 f.details).or
    (groupIn? numberPattern 1 r.statement)).bind natural32?

/-- A configuration with the given line length, unless it has it. -/
def withLineLength? (length : Nat) : Option String → Option String
  | none => some ("line-length = " ++ toString length ++ "\n")
  | some text =>
    let cs := text.toList
    match settingPattern.find? cs with
    | none => some ("line-length = " ++ toString length ++ "\n" ++ text)
    | some m =>
      if (m.group? 2 cs).bind natural32? = some length then none
      else
        some (String.ofList (cs.take m.start ++ (m.group? 1 cs).getD [] ++
          (toString length).toList ++ cs.drop m.stop))

/-- The text of a file, if there is such a file. -/
def optionalText (tree : Entry) (path : String) : Except Error (Option String) :=
  match tree.readText path with
  | .ok text => .ok (some text)
  | .error .notFound => .ok none
  | .error e => .error (.ofFile "Failed to read" path e)

def forLineLength (tree : Entry) (root : String) (r : Rule) : Except Error (Option Suggestion) :=
  match lineLength? r with
  | none => .ok none
  | some length => do
    let before ← optionalText tree (Path.join root ruffFile)
    .ok ((withLineLength? length before).map fun after =>
      ⟨r.id, ruffFile, "Align ruff line-length with Black (" ++ toString length ++ ")", before,
        after⟩)

/-! ### Strict mode -/

def tsconfigFile : String := "tsconfig.json"

/-- A configuration with strict mode on, unless it has it or has no place for it. -/
def withStrict? (document : Json) : Option Json := do
  let members ← document.members?
  let options ← ((Json.Members.get? "compilerOptions" members).getD (.obj [])).members?
  if Json.Members.get? "strict" options = some (.bool true) then none
  else
    some (.obj (members.put "compilerOptions" (.obj (options.put "strict" (.bool true)))))

/-- The text of a configuration with strict mode on; a text that is no JSON is left alone. -/
def strictText? (text : String) : Option String :=
  match Json.read text with
  | .ok document => (withStrict? document).map fun v => v.pretty ++ "\n"
  | .error _ => none

def forStrict (tree : Entry) (root : String) (r : Rule) : Except Error (Option Suggestion) := do
  match ← optionalText tree (Path.join root tsconfigFile) with
  | none => .ok none
  | some before =>
    .ok ((strictText? before).map fun after =>
      ⟨r.id, tsconfigFile, "Enable compilerOptions.strict", some before, after⟩)

/-! ### All rules -/

/-- The suggestion for a rule, if it has a counterpart that does not agree. -/
def forRule (tree : Entry) (root : String) (r : Rule) : Except Error (Option Suggestion) :=
  if r.id = "PY-FMT-001" then forLineLength tree root r
  else if r.id = "TS-TYPE-003" then forStrict tree root r
  else .ok none

/-- The suggestions for a contract, in the order of its rules. -/
def ofContract (c : Contract) (tree : Entry) (root : String) : Except Error (List Suggestion) := do
  .ok ((← c.rules.mapM (forRule tree root)).filterMap id)

/-- Writes all suggestions below a root, up to the first one that cannot be written. -/
def apply (tree : Entry) (root : String) : List Suggestion → Change Error
  | [] => ⟨tree, none⟩
  | s :: more =>
    (tree.writeText (Path.join root s.path) s.after).andThen fun tree => apply tree root more

end Suggestion

end StyleContract
