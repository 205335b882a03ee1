import StyleContract.Contract.Basic
import StyleContract.Error
import StyleContract.Files.Basic
import StyleContract.Text.Blank

/-!
# Repository

Where a repository comes from: a directory, or an owner and a name on GitHub. The state of a
directory is what its version control says, or not known.
-/

namespace StyleContract

/-- Where a repository is to be found. -/
inductive Locator where
  | folder (path : String)
  | gitHub (owner repo : String)
  deriving DecidableEq, Repr

namespace Locator

/-- The starts of texts that name a repository on GitHub. -/
def gitHubStarts : List String :=
  ["https://github.com/", "http://github.com/", "github://", "github:"]

/-- The text after the first of several starts that it has. -/
def afterStart? (cs : List Char) : List String → Option (List Char)
  | [] => none
  | start :: starts =>
    if start.toList.isPrefixOf cs then some (cs.drop start.length) else afterStart? cs starts

/-- The characters without repeated occurrences of others at their end. -/
def dropEnds (tail : List Char) : Nat → List Char → List Char
  | 0, cs => cs
  | fuel + 1, cs =>
    if tail.isSuffixOf cs then dropEnds tail fuel (cs.take (cs.length - tail.length)) else cs

/-- The owner and name in what follows the start. -/
def ownerAndRepo? (cs : List Char) : Option (String × String) :=
  let cs := Text.dropTailWhile (· == '/') cs
  let owner := cs.takeWhile (· != '/')
  match cs.drop owner.length with
  | [] => none
  | _ :: rest =>
    let repo := rest.takeWhile (· != '/')
    let repo := dropEnds ".git".toList repo.length repo
    if owner.isEmpty || repo.isEmpty then none
    else some (String.ofList owner, String.ofList repo)

/-- Takes a text as a repository on GitHub if it names one, else as a directory. -/
def ofText (s : String) : Locator :=
  let trimmed := Text.trim s
  match (afterStart? trimmed.toList gitHubStarts).bind ownerAndRepo? with
  | some (owner, repo) => .gitHub owner repo
  | none => .folder trimmed

/-- The address of a repository on GitHub. -/
def remote? : Locator → Option String
  | .gitHub owner repo => some ("https://github.com/" ++ owner ++ "/" ++ repo)
  | .folder _ => none

end Locator

/-- The state of a directory that has no version control. -/
def unknownState : String := "unknown"

/-- A repository that is at hand. -/
structure Checkout where
  root : String
  identity : RepoIdentity
  /-- Whether the directory was made for the occasion. -/
  temporary : Bool := false
  deriving DecidableEq, Repr

/-- A way to ask version control for the state of a directory at a revision, and to fetch a
repository from an address. -/
structure VersionControl where
  state : (folder revision : String) → Except Error String
  fetch : (remote : String) → (revision : Option String) → Except Error Checkout

/-- The version control of a machine that has none. -/
def VersionControl.absent : VersionControl where
  state _ _ := .error (.repository "failed to run git: No such file or directory (os error 2)")
  fetch _ _ := .error (.repository "failed to run git: No such file or directory (os error 2)")

/-- Brings a directory to hand. Only a revision that is asked for has to be known. -/
def Checkout.ofFolder (tree : Entry) (vc : VersionControl) (path : String)
    (revision : Option String) : Except Error Checkout :=
  if tree.isFolder path then
    match vc.state path (revision.getD "HEAD"), revision with
    | .ok sha, _ => .ok ⟨path, ⟨none, sha⟩, false⟩
    | .error e, some _ => .error e
    | .error _, none => .ok ⟨path, ⟨none, unknownState⟩, false⟩
  else .error (.invalidInput ("'" ++ path ++ "' is not a directory or GitHub locator"))

/-- Brings the repository that a text names to hand. -/
def Checkout.ofText (tree : Entry) (vc : VersionControl) (s : String)
    (revision : Option String) : Except Error Checkout :=
  let locator := Locator.ofText s
  match locator, locator.remote? with
  | .folder path, _ => Checkout.ofFolder tree vc path revision
  | .gitHub _ _, some remote => vc.fetch remote revision
  | .gitHub _ _, none => .error (.internal "GitHub locator without remote")

end StyleContract
