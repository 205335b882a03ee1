import StyleContract.Files.Basic

/-!
# Files — Walk

The files of a directory tree in the order of their paths, without those in directories that
hold dependencies or build products.
-/

namespace StyleContract

/-- Directories that are not entered. -/
def ignoredFolders : List String :=
  [".git", "node_modules", ".venv", "venv", "site-packages", "target", "dist", "build",
    "__pycache__"]

/-- A file with its path from the root of a walk, with slashes between the steps. -/
structure FoundFile where
  path : String
  entry : Entry

/-- A path whose backslashes are slashes. -/
def withSlashes (path : String) : String :=
  String.ofList (path.toList.map fun c => if c = '\\' then '/' else c)

namespace Entry

mutual

/-- The files at and below an entry, whose own path is `path`. Links are left out. -/
def filesBelow (path : String) : Entry → List FoundFile
  | .file content => [⟨withSlashes path, .file content⟩]
  | .folder children => filesAmong path children
  | .link _ => []

def filesAmong (path : String) : List (String × Entry) → List FoundFile
  | [] => []
  | (name, .folder children) :: rest =>
    (if name ∈ ignoredFolders then [] else filesAmong (Path.join path name) children) ++
      filesAmong path rest
  | (name, .file content) :: rest =>
    ⟨withSlashes (Path.join path name), .file content⟩ :: filesAmong path rest
  | (_, .link _) :: rest => filesAmong path rest

end

end Entry

/-- Why a walk fails, in the words of the walk. -/
def walkFault (root : String) (e : OsError) : String :=
  "IO error for operation on " ++ root ++ ": " ++ e.message

/-- The first `most` files below a root that are accepted, in the order of their paths. -/
def collectFiles (tree : Entry) (root : String) (most : Nat) (accept : String → Bool) :
    Except OsError (List FoundFile) := do
  let e ← tree.find root
  let files := (e.filesBelow "").filter fun f => accept f.path
  .ok ((files.mergeSort fun a b => decide (a.path ≤ b.path)).take most)

end StyleContract
