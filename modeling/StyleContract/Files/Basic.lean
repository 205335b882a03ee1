import StyleContract.Files.Path

/-!
# Files — Basic

A directory tree as a value. Paths are looked up from its root. A link holds what it leads to;
looking up a path goes through links.
-/

namespace StyleContract

/-- Why the file system refuses an operation. -/
inductive OsError where
  | notFound
  | exists
  | notDirectory
  | isDirectory
  | notText
  | other (text : String)
  deriving DecidableEq, Repr

def OsError.message : OsError → String
  | .notFound => "No such file or directory (os error 2)"
  | .exists => "File exists (os error 17)"
  | .notDirectory => "Not a directory (os error 20)"
  | .isDirectory => "Is a directory (os error 21)"
  | .notText => "stream did not contain valid UTF-8"
  | .other text => text

inductive Entry where
  | file (content : ByteArray)
  | folder (children : List (String × Entry))
  | link (target : Option Entry)

namespace Entry

def empty : Entry := .folder []

/-- What an entry is once its links are followed. -/
def behind : Entry → Option Entry
  | .link (some e) => e.behind
  | .link none => none
  | e => some e

def child? (name : String) (children : List (String × Entry)) : Option Entry :=
  (children.find? (·.1 == name)).map (·.2)

/-- Follows steps down from an entry; `above` are the directories it lies in. -/
def descend (above : List Entry) (e : Entry) : List String → Except OsError Entry
  | [] => .ok e
  | step :: steps =>
    match e.behind with
    | some (.folder children) =>
      if step = ".." then
        match above with
        | up :: above => descend above up steps
        | [] => .error .notFound
      else
        match child? step children with
        | some c => descend (e :: above) c steps
        | none => .error .notFound
    | some _ => .error .notDirectory
    | none => .error .notFound

/-- What lies at a path, with links followed. -/
def find (root : Entry) (path : String) : Except OsError Entry := do
  if path.isEmpty ∨ Path.isAbsolute path then .error .notFound
  let e ← descend [] root (Path.steps path)
  match e.behind with
  | none => .error .notFound
  | some (.folder children) => .ok (.folder children)
  | some e => if Path.endsInFolder path then .error .notDirectory else .ok e

def isFile (root : Entry) (path : String) : Bool :=
  match root.find path with
  | .ok (.file _) => true
  | _ => false

def isFolder (root : Entry) (path : String) : Bool :=
  match root.find path with
  | .ok (.folder _) => true
  | _ => false

/-- The text of a file's content. -/
def textOf : Entry → Except OsError String
  | .file content =>
    match String.fromUTF8? content with
    | some s => .ok s
    | none => .error .notText
  | .folder _ => .error .isDirectory
  | .link _ => .error .notFound

/-- The text of the file at a path. -/
def readText (root : Entry) (path : String) : Except OsError String := do
  (← root.find path).textOf

end Entry

end StyleContract
