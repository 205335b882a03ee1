import StyleContract.Files.Basic

/-!
# Files — Write

Changing a directory tree: new directories, and a file that takes the place of whatever file was
there. One directory is made, and one file put in place, as a whole or not at all; a change in several
steps that fails keeps the steps before the one that failed.
-/

namespace StyleContract

/-- What comes of changing a tree: the tree afterwards, and the error if there was one. -/
structure Change (ε : Type) where
  tree : Entry
  failure : Option ε := none

namespace Change

variable {ε δ : Type}

/-- A step that leaves the tree as it was if it fails. -/
def step (tree : Entry) : Except ε Entry → Change ε
  | .ok after => ⟨after, none⟩
  | .error e => ⟨tree, some e⟩

/-- Goes on, unless the change has failed. -/
def andThen (c : Change ε) (next : Entry → Change ε) : Change ε :=
  match c.failure with
  | none => next c.tree
  | some _ => c

def mapError (f : ε → δ) (c : Change ε) : Change δ := ⟨c.tree, c.failure.map f⟩

/-- The tree that a change leads to. -/
def toExcept (c : Change ε) : Except ε Entry :=
  match c.failure with
  | none => .ok c.tree
  | some e => .error e

def toOption (c : Change ε) : Option Entry := c.toExcept.toOption

/-- A change stands for the tree that it leads to. -/
instance : Coe (Change ε) (Except ε Entry) := ⟨toExcept⟩

end Change

namespace Entry

abbrev Children := List (String × Entry)

/-- Puts a child into a directory, in place of one of the same name. -/
def putChild (name : String) (e : Entry) : Children → Children
  | [] => [(name, e)]
  | (n, c) :: rest => if n = name then (n, e) :: rest else (n, c) :: putChild name e rest

/-- Changes the children of a directory, through links. -/
def onFolder (change : Children → Except OsError Children) : Entry → Except OsError Entry
  | .folder children => (change children).map .folder
  | .file _ => .error .notDirectory
  | .link (some e) => (onFolder change e).map fun e => .link (some e)
  | .link none => .error .notFound

/-- Changes the children of the directory that steps lead down to. -/
def changeFolder (change : Children → Except OsError Children) :
    List String → Entry → Except OsError Entry
  | [] => onFolder change
  | step :: steps => onFolder fun children =>
    match child? step children with
    | none => .error .notFound
    | some c => (changeFolder change steps c).map fun c => putChild step c children

/-- The steps that are left when each step upwards undoes the one before it. -/
def straighten (done : List String) : List String → Option (List String)
  | [] => some done.reverse
  | step :: steps =>
    if step = ".." then
      match done with
      | _ :: done => straighten done steps
      | [] => none
    else straighten (step :: done) steps

/-- Changes the children of the directory at some steps, which may lead upwards in between. -/
def changeAt (root : Entry) (steps : List String)
    (change : Children → Except OsError Children) : Except OsError Entry := do
  let _ ← descend [] root steps
  match straighten [] steps with
  | some steps => changeFolder change steps root
  | none => .error .notFound

/-- Makes one directory. -/
def makeFolder (root : Entry) (above : List String) (name : String) : Except OsError Entry :=
  changeAt root above fun children =>
    if name = ".." ∨ (child? name children).isSome then .error .exists
    else .ok (putChild name empty children)

def isFolderAt (root : Entry) (steps : List String) : Bool :=
  match (descend [] root steps).map behind with
  | .ok (some (.folder _)) => true
  | _ => false

/-- Makes one directory, unless it is there. -/
def ensureFolder (root : Entry) (above : List String) (name : String) : Change OsError :=
  match makeFolder root above name with
  | .ok root => ⟨root, none⟩
  | .error e => ⟨root, if isFolderAt root (above ++ [name]) then none else some e⟩

/-- Makes the directory at some steps, the last one first, and those above it as needed. -/
def makeFolders (root : Entry) : List String → Change OsError
  | [] => ⟨root, none⟩
  | name :: above =>
    match makeFolder root above.reverse name with
    | .error .notFound =>
      (makeFolders root above).andThen fun root => ensureFolder root above.reverse name
    | _ => ensureFolder root above.reverse name

/-- The error of a file that would take the place of a directory in use. -/
def busy : OsError := .other "Device or resource busy (os error 16)"

/-- Puts a file with the given content at a path, in place of a file or link that is there. -/
def replace (root : Entry) (path : String) (content : ByteArray) : Except OsError Entry :=
  if path.isEmpty ∨ Path.isAbsolute path then .error .notFound
  else
    match (Path.steps path).reverse with
    | [] => .error busy
    | name :: above =>
      changeAt root above.reverse fun children =>
        if name = ".." then .error busy
        else
          match child? name children with
          | some (.folder _) => .error .isDirectory
          | _ =>
            if Path.endsInFolder path then .error .notDirectory
            else .ok (putChild name (.file content) children)

theorem child?_putChild_self (name : String) (e : Entry) (children : Children) :
    child? name (putChild name e children) = some e := by
  induction children with
  | nil => simp [putChild, child?]
  | cons c rest ih =>
    by_cases h : c.1 = name
    · simp [putChild, child?, h]
    · simp only [putChild, h, if_false]
      simpa [child?, h] using ih

theorem child?_putChild_of_ne {name other : String} (h : other ≠ name) (e : Entry)
    (children : Children) : child? other (putChild name e children) = child? other children := by
  induction children with
  | nil => simp [putChild, child?, Ne.symm h]
  | cons c rest ih =>
    by_cases hc : c.1 = name
    · simp [putChild, child?, hc, Ne.symm h]
    · simp only [putChild, hc, if_false]
      by_cases ho : c.1 = other
      · simp [child?, ho]
      · simpa [child?, ho] using ih

end Entry

end StyleContract
