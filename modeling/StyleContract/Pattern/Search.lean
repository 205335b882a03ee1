import StyleContract.Pattern.Basic

/-!
# Pattern — Search

Finding a pattern in a text: the leftmost match, and all matches from left to right that do not
overlap. Places count characters.
-/

namespace StyleContract.Pattern

/-- A stretch of text that a pattern matches. -/
structure Match where
  start : Nat
  stop : Nat
  groups : List (Nat × Nat × Nat)
  deriving DecidableEq, Repr

/-- The preferred match that starts at a place, as the place where it ends. -/
def matchAt (p : Pattern) (c : Cursor) : Option Cursor := (p.outcomes c).head?

/-- The first place from `rest` on at which the pattern matches, and the place where it ends. -/
def searchFrom (p : Pattern) (before : List Char) : List Char → Option (Cursor × Cursor)
  | [] => (p.matchAt ⟨before, [], []⟩).map (⟨before, [], []⟩, ·)
  | x :: xs =>
    match p.matchAt ⟨before, x :: xs, []⟩ with
    | some d => some (⟨before, x :: xs, []⟩, d)
    | none => searchFrom p (x :: before) xs

def Match.between (c d : Cursor) : Match := ⟨c.pos, d.pos, d.groups⟩

/-- The leftmost match. -/
def find? (p : Pattern) (cs : List Char) : Option Match :=
  (p.searchFrom [] cs).map fun r => Match.between r.1 r.2

/-- Whether the pattern matches somewhere. -/
def occursIn (p : Pattern) (s : String) : Bool := (p.searchFrom [] s.toList).isSome

/-- The matches from a place on; `fuel` bounds their number. -/
def allFrom (p : Pattern) : Nat → List Char → List Char → List Match
  | 0, _, _ => []
  | fuel + 1, before, rest =>
    match p.searchFrom before rest with
    | none => []
    | some (c, d) =>
      Match.between c d ::
        if d.rest.length < c.rest.length then allFrom p fuel d.before d.rest
        else match d.rest with
          | [] => []
          | x :: xs => allFrom p fuel (x :: d.before) xs

/-- All matches from left to right that do not overlap. -/
def findAll (p : Pattern) (cs : List Char) : List Match := p.allFrom (cs.length + 1) [] cs

/-- The part of a text between two places. -/
def slice (cs : List Char) (start stop : Nat) : List Char := (cs.drop start).take (stop - start)

/-- The text that a group matched last. -/
def Match.group? (m : Match) (index : Nat) (cs : List Char) : Option (List Char) :=
  (m.groups.find? (·.1 == index)).map fun (_, start, stop) => slice cs start stop

end StyleContract.Pattern
