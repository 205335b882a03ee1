import StyleContract.Files.Write
import StyleContract.Keyed
import StyleContract.Shell.Format
import StyleContract.Shell.Reader
import StyleContract.Text.Digits
import StyleContract.Text.Utf8

/-!
# Shell — Run

Running a command line in a directory. A command changes the state of the shell: its files, its
directory, its variables, what has been printed and how the last command went. A run may stop
early, because the shell exits or because it is killed.
-/

namespace StyleContract.Shell

open Format (Bytes bytesOf)

/-- A program beside the shell's own commands: it prints and exits, whatever its arguments. -/
structure Program where
  exitCode : Nat := 0
  output : String := ""
  errors : String := ""
  deriving DecidableEq, Repr

/-- Where a stream leads. -/
inductive Sink where
  | output
  | errors
  | file (path : String)
  | nowhere
  deriving DecidableEq, Repr

structure Streams where
  output : Sink := .output
  errors : Sink := .errors
  input : Bytes := []
  deriving DecidableEq, Repr

/-- Whether a shell goes on. -/
inductive Flow where
  | goesOn
  | exits
  | killed
  deriving DecidableEq, Repr

structure State where
  tree : Entry
  /-- The directory that the shell is in. -/
  folder : String
  programs : String → Option Program
  assigned : Keyed String := .empty
  output : Bytes := []
  errors : Bytes := []
  status : Nat := 0
  flow : Flow := .goesOn

namespace State

def succeed (s : State) : State := { s with status := 0 }

def fail (s : State) (status : Nat) : State := { s with status := status }

/-- A path as the shell sees it from its directory. -/
def path (s : State) (p : String) : String := Path.join s.folder p

/-- The bytes of the file at a path. -/
def bytesAt (s : State) (p : String) : Except OsError Bytes :=
  match s.tree.find (s.path p) with
  | .ok (.file content) => .ok content.toList
  | .ok _ => .error .isDirectory
  | .error e => .error e

/-- Puts bytes into the file at a path. -/
def put (s : State) (p : String) (bytes : Bytes) : Except OsError State :=
  (s.tree.replace (s.path p) ⟨bytes.toArray⟩).map fun tree => { s with tree := tree }

/-- Prints bytes to where a stream leads. -/
def emit (s : State) (sink : Sink) (bytes : Bytes) : State :=
  match sink with
  | .output => { s with output := s.output ++ bytes }
  | .errors => { s with errors := s.errors ++ bytes }
  | .nowhere => s
  | .file p =>
    match s.bytesAt p with
    | .ok old => (s.put p (old ++ bytes)).toOption.getD s
    | .error _ => s

/-- Complains about something, as the shell does. -/
def complain (s : State) (streams : Streams) (text : String) (status : Nat) : State :=
  (s.emit streams.errors (bytesOf ("sh: 1: " ++ text ++ "\n").toList)).fail status

/-- The value of a variable or sign. -/
def value (s : State) (name : String) : String :=
  if name = "?" then toString s.status
  else if name = "$" then "1"
  else if name = "#" then "0"
  else if name = "0" then "sh"
  else (s.assigned.get? name).getD ""

end State

/-! ### The shell's own commands -/

/-- A decimal number in a command's arguments. -/
def number? (s : String) : Option Int :=
  match s.toList with
  | '-' :: cs => (Text.natural? cs).map fun n => -Int.ofNat n
  | '+' :: cs => (Text.natural? cs).map Int.ofNat
  | cs => (Text.natural? cs).map Int.ofNat

/-- A test of one argument. -/
def testOne? (s : State) (op arg : String) : Option Bool :=
  match op with
  | "-f" => some (s.tree.isFile (s.path arg))
  | "-d" => some (s.tree.isFolder (s.path arg))
  | "-e" | "-r" | "-w" => some (s.tree.find (s.path arg)).toOption.isSome
  | "-s" => some (match s.bytesAt arg with
    | .ok bytes => !bytes.isEmpty
    | .error _ => s.tree.isFolder (s.path arg))
  | "-n" => some (arg != "")
  | "-z" => some (arg == "")
  | _ => none

/-- A test of two arguments. -/
def testTwo? (left op right : String) : Option (Except String Bool) :=
  let compare (holds : Int → Int → Bool) : Option (Except String Bool) :=
    some (match number? left, number? right with
      | some a, some b => .ok (holds a b)
      | none, _ => .error ("Illegal number: " ++ left)
      | _, none => .error ("Illegal number: " ++ right))
  match op with
  | "=" => some (.ok (left == right))
  | "!=" => some (.ok (left != right))
  | "-eq" => compare (· == ·)
  | "-ne" => compare (· != ·)
  | "-lt" => compare (· < ·)
  | "-le" => compare (· ≤ ·)
  | "-gt" => compare (· > ·)
  | "-ge" => compare (· ≥ ·)
  | _ => none

/-- What a test finds, or why it is none. -/
def test (s : State) : List String → Except String Bool
  | [] => .ok false
  | [a] => .ok (a != "")
  | "!" :: args => (test s args).map (!·)
  | [op, a] =>
    match testOne? s op a with
    | some b => .ok b
    | none => .error (op ++ ": unexpected operator")
  | [a, op, b] =>
    match testTwo? a op b with
    | some r => r
    | none => .error (op ++ ": unexpected operator")
  | _ :: op :: _ => .error (op ++ ": unexpected operator")

def runTest (s : State) (streams : Streams) (name : String) (args : List String) : State :=
  match test s args with
  | .ok true => s.succeed
  | .ok false => s.fail 1
  | .error text => s.complain streams (name ++ ": " ++ text) 2

def echo (args : List String) : Bytes :=
  let (words, ending) := match args with
    | "-n" :: rest => (rest, [])
    | args => (args, ['\n'])
  let cs := (String.intercalate " " words).toList ++ ending
  (Format.unescaped (cs.length + 1) cs).1

/-- Whether a signal is only asked about, and not sent. -/
def isProbe (args : List String) : Bool := args.head? == some "-0"

/-- The name and value of an assignment. -/
def assignment? (s : String) : Option (String × String) :=
  let cs := s.toList
  let name := cs.takeWhile isNameChar
  match name, cs.drop name.length with
  | c :: _, '=' :: value =>
    if isNameStart c then some (String.ofList name, String.ofList value) else none
  | _, _ => none

/-- Runs a command that the shell itself knows. -/
def builtin? (s : State) (streams : Streams) (name : String) (args : List String) :
    Option State :=
  match name with
  | "true" | ":" => some s.succeed
  | "false" => some (s.fail 1)
  | "exit" =>
    some (match args with
      | [] => { s with flow := .exits }
      | arg :: _ =>
        match Text.natural? arg.toList with
        | some n => { s with status := n % 256, flow := .exits }
        | none =>
          { s.complain streams ("exit: Illegal number: " ++ arg) 2 with flow := .exits })
  | "return" =>
    some (match args with
      | [] => { s with flow := .exits }
      | arg :: _ => { s with status := (Text.natural? arg.toList).getD 2 % 256, flow := .exits })
  | "export" =>
    some (args.foldl (fun s arg => match assignment? arg with
      | some (name, value) => { s with assigned := s.assigned.insert name value }
      | none => s) s.succeed)
  | "kill" =>
    some (if isProbe args then s.succeed
      else if args.getLast? == some (s.value "$") then { s with flow := .killed }
      else s.complain streams "kill: No such process" 1)
  | "printf" =>
    some (match args with
      | [] => s.complain streams "printf: usage: printf format [arg ...]" 2
      | format :: args =>
        let (bytes, complaints) := Format.print format args
        let s := (s.emit streams.output bytes).succeed
        complaints.foldl (fun s c => s.complain streams ("printf: " ++ c.message) c.status) s)
  | "echo" => some (s.emit streams.output (echo args)).succeed
  | "cd" =>
    some (match args with
      | [] => s.succeed
      | target :: _ =>
        if s.tree.isFolder (s.path target) then { s with folder := s.path target, status := 0 }
        else s.complain streams ("cd: can't cd to " ++ target) 2)
  | "test" => some (runTest s streams "test" args)
  | "[" =>
    some (if args.getLast? == some "]" then runTest s streams "[" args.dropLast
      else s.complain streams "[: missing ]" 2)
  | _ => none

/-- Runs a program by its name. A name with a slash is a path; files there may not be run. -/
def runProgram (s : State) (streams : Streams) (name : String) : State :=
  if name.toList.contains '/' then
    match s.tree.find (s.path name) with
    | .ok _ => s.complain streams (name ++ ": Permission denied") 126
    | .error _ => s.complain streams (name ++ ": not found") 127
  else
    match s.programs name with
    | some p =>
      ((s.emit streams.output (bytesOf p.output.toList)).emit streams.errors
        (bytesOf p.errors.toList)).fail (p.exitCode % 256)
    | none => s.complain streams (name ++ ": not found") 127

/-- Runs a command given by its fields. -/
def runFields (s : State) (streams : Streams) : List String → State
  | [] => s.succeed
  | name :: args =>
    match builtin? s streams name args with
    | some s => s
    | none => runProgram s streams name

/-! ### Words -/

/-- Text of a word, by character: quoted text is kept together. -/
abbrev Marked := List (Char × Bool)

def marked (quoted : Bool) (cs : List Char) : Marked := cs.map (·, quoted)

def isSeparator (c : Char) : Bool := c == ' ' || c == '\t' || c == '\n'

/-- The fields of a word that has no empty ones; `some` stands for a field in the making. -/
def fieldsOf (current : Option (List Char)) : Marked → List String
  | [] => (current.map fun cs => String.ofList cs.reverse).toList
  | (c, quoted) :: rest =>
    if !quoted && isSeparator c then
      (current.map fun cs => String.ofList cs.reverse).toList ++ fieldsOf none rest
    else fieldsOf (some (c :: current.getD [])) rest

/-- Assigns the values at the front of some fields; gives the fields left. -/
def assign (s : State) : List String → State × List String
  | [] => (s, [])
  | f :: fs =>
    match assignment? f with
    | some (name, value) => assign { s with assigned := s.assigned.insert name value } fs
    | none => (s, f :: fs)

/-- Sets up one redirection. -/
def redirect (s : State) (streams : Streams) (stream : Nat) (direction : Direction)
    (target : String) : Except String (State × Streams) :=
  let into (sink : Sink) : Streams :=
    if stream = 2 then { streams with errors := sink } else { streams with output := sink }
  match direction with
  | .join =>
    if target = "1" then .ok (s, into streams.output)
    else if target = "2" then .ok (s, into streams.errors)
    else if target = "-" then .ok (s, into .nowhere)
    else .error ("Syntax error: Bad fd number")
  | .read =>
    match s.bytesAt target with
    | .ok bytes => .ok (s, { streams with input := bytes })
    | .error _ =>
      if target = "/dev/null" then .ok (s, { streams with input := [] })
      else .error ("cannot open " ++ target ++ ": No such file")
  | .write keeping =>
    if target = "/dev/null" then .ok (s, into .nowhere)
    else
      let old := if keeping then (s.bytesAt target).toOption.getD [] else []
      match s.put target old with
      | .ok s => .ok (s, into (.file target))
      | .error .isDirectory => .error ("cannot create " ++ target ++ ": Is a directory")
      | .error _ => .error ("cannot create " ++ target ++ ": Directory nonexistent")

/-- Leaves a shell of its own: its files and what it printed stay, and its exit is not that of
the shell around it. -/
def leave (outer inner : State) : State :=
  { outer with
    tree := inner.tree
    output := inner.output
    errors := inner.errors
    status := inner.status
    flow := if inner.flow = .killed then .killed else outer.flow }

mutual

/-- The characters of a piece. -/
def expandPiece (s : State) (streams : Streams) : Piece → State × Marked
  | .text cs quoted => (s, marked quoted cs)
  | .variable name quoted => (s, marked quoted (s.value name).toList)
  | .default name orEmpty otherwise quoted =>
    let value := s.value name
    if if orEmpty then value = "" else (s.assigned.get? name).isNone then
      let (s, chars, _) := expandWord s streams otherwise
      (s, marked quoted (chars.map (·.1)))
    else (s, marked quoted value.toList)
  | .output c quoted =>
    let inner := runCommand { s with output := [] } { streams with output := .output } c
    let text := Text.ofBytesLossy ⟨inner.output.toArray⟩
    let cs := (text.toList.reverse.dropWhile (· == '\n')).reverse
    ({ leave s inner with output := s.output }, marked quoted cs)

/-- The characters of a word, and whether a part of it is quoted. -/
def expandWord (s : State) (streams : Streams) : Word → State × Marked × Bool
  | .done => (s, [], false)
  | .next p rest =>
    let (s, front) := expandPiece s streams p
    let (s, back, hasQuotes) := expandWord s streams rest
    let quoted := match p with
      | .text _ quoted => quoted
      | .variable _ quoted => quoted
      | .default _ _ _ quoted => quoted
      | .output _ quoted => quoted
    (s, front ++ back, quoted || hasQuotes)

/-- The fields of some words. -/
def expandWords (s : State) (streams : Streams) : Words → State × List String
  | .done => (s, [])
  | .next w rest =>
    let (s, chars, hasQuotes) := expandWord s streams w
    let fields := fieldsOf (if hasQuotes then some [] else none) chars
    let (s, more) := expandWords s streams rest
    (s, fields ++ more)

/-- Sets up redirections in their order. -/
def expandRedirects (s : State) (streams : Streams) :
    Redirects → State × Except String Streams
  | .done => (s, .ok streams)
  | .next stream direction target rest =>
    let (s, chars, _) := expandWord s streams target
    match redirect s streams stream direction (String.ofList (chars.map (·.1))) with
    | .ok (s, streams) => expandRedirects s streams rest
    | .error text => (s, .error text)

/-- Runs a command. -/
def runCommand (s : State) (streams : Streams) : Command → State
  | .nothing => s
  | .simple words redirects =>
    let (s, fields) := expandWords s streams words
    let (s, fields) := assign s fields
    if s.flow ≠ .goesOn then s
    else
      match expandRedirects s streams redirects with
      | (s, .ok inner) => if fields.isEmpty then s else runFields s inner fields
      | (s, .error text) => s.complain streams text 2
  | .group own c redirects =>
    match expandRedirects s streams redirects with
    | (s, .ok inner) =>
      if own then leave s (runCommand s inner c) else runCommand s inner c
    | (s, .error text) => s.complain streams text 2
  | .sequence first second =>
    let s := runCommand s streams first
    if s.flow = .goesOn then runCommand s streams second else s
  | .both first second =>
    let s := runCommand s streams first
    if s.flow = .goesOn ∧ s.status = 0 then runCommand s streams second else s
  | .either first second =>
    let s := runCommand s streams first
    if s.flow = .goesOn ∧ s.status ≠ 0 then runCommand s streams second else s
  | .negation c =>
    let s := runCommand s streams c
    if s.flow = .goesOn then s.fail (if s.status = 0 then 1 else 0) else s
  | .pipe first second =>
    let inner := runCommand { s with output := [] } { streams with output := .output } first
    let after := { leave s inner with output := s.output }
    leave after (runCommand after { streams with input := inner.output } second)
  | .branch condition yes no =>
    let s := runCommand s streams condition
    if s.flow ≠ .goesOn then s
    else if s.status = 0 then runCommand s streams yes
    else runCommand s streams no
  | .each name words body =>
    let (s, fields) := expandWords s streams words
    fields.foldl (fun s field =>
      if s.flow = .goesOn then
        runCommand { s with assigned := s.assigned.insert name field } streams body
      else s) s.succeed

end

/-- How a command line ended. -/
structure Outcome where
  /-- Absent if the shell was killed. -/
  exitCode : Option Nat
  output : Bytes
  errors : Bytes
  deriving DecidableEq, Repr

/-- Runs a command line in a directory. -/
def run (tree : Entry) (folder : String) (programs : String → Option Program) (line : String) :
    Outcome :=
  let start : State := { tree := tree, folder := folder, programs := programs }
  let s := match Command.ofText line with
    | .ok c => runCommand start {} c
    | .error e => start.complain {} e.message 2
  ⟨if s.flow = .killed then none else some s.status, s.output, s.errors⟩

end StyleContract.Shell
