/-!
# Toml — Basic

TOML values, and tables while they are being defined. A header, a key with dots and a value each
close a table to later definitions in their own way.
-/

namespace StyleContract

inductive Toml where
  | text (s : String)
  | int (n : Int)
  | float (x : Float)
  | bool (b : Bool)
  | moment (s : String)
  | array (items : List Toml)
  | table (entries : List (String × Toml))
  deriving Repr, Inhabited

namespace Toml

/-- How a table came about. -/
inductive Origin where
  /-- It has a header of its own. -/
  | header
  /-- It lies above a table that has a header. -/
  | above
  /-- It is named by a key with dots. -/
  | dotted
  deriving DecidableEq, Repr

/-- What a key of an open table leads to. -/
inductive Item where
  | value (v : Toml)
  | table (origin : Origin) (entries : List (String × Item))
  | tables (all : List (List (String × Item)))
  deriving Inhabited

abbrev Entries := List (String × Item)

def Entries.get? (name : String) (entries : Entries) : Option Item :=
  (entries.find? (·.1 == name)).map (·.2)

def Entries.put (name : String) (item : Item) : Entries → Entries
  | [] => [(name, item)]
  | (k, v) :: rest => if k = name then (k, item) :: rest else (k, v) :: Entries.put name item rest

/-- Changes the table that a path leads to from another table, and makes the tables in between as
needed. A path of dotted keys does not enter a table with a header; a header's path enters the
last one of several tables. `origin` is how a new table comes about. -/
def changeAt (origin : Origin) (change : Origin → Entries → Option Entries) :
    (path : List String) → (here : Origin) → Entries → Option Entries
  | [], here, entries => change here entries
  | step :: path, _, entries =>
    match Entries.get? step entries with
    | none => do
      some (Entries.put step (.table origin (← changeAt origin change path origin [])) entries)
    | some (.value _) => none
    | some (.table o inner) =>
      if origin = .dotted ∧ o = .header then none
      else do
        some (Entries.put step (.table o (← changeAt origin change path o inner)) entries)
    | some (.tables all) =>
      match all.reverse with
      | [] => none
      | last :: before => do
        let last ← changeAt origin change path .header last
        some (Entries.put step (.tables (last :: before).reverse) entries)

/-- Sets a key of a table; `dots` says whether the key had dots, which a table has to match. -/
def setKey (dots : Bool) (name : String) (v : Toml) (here : Origin) (entries : Entries) :
    Option Entries :=
  if decide (here = .dotted) = dots ∧ (Entries.get? name entries).isNone then
    some (Entries.put name (.value v) entries)
  else none

/-- Sets a key with or without dots in a table. -/
def define (path : List String) (v : Toml) (here : Origin) (entries : Entries) :
    Option Entries := do
  let name ← path.getLast?
  let above := path.dropLast
  changeAt .dotted (setKey (!above.isEmpty) name v) above here entries

/-- Opens the table of a header. -/
def openTable (path : List String) (entries : Entries) : Option Entries := do
  let name ← path.getLast?
  changeAt .above (fun _ inside =>
    match Entries.get? name inside with
    | none => some (Entries.put name (.table .header []) inside)
    | some (.table .above children) => some (Entries.put name (.table .header children) inside)
    | some _ => none) path.dropLast .header entries

/-- Opens one more table of a list of tables. -/
def openListed (path : List String) (entries : Entries) : Option Entries := do
  let name ← path.getLast?
  changeAt .above (fun _ inside =>
    match Entries.get? name inside with
    | none => some (Entries.put name (.tables [[]]) inside)
    | some (.tables all) => some (Entries.put name (.tables (all ++ [[]])) inside)
    | some _ => none) path.dropLast .header entries

mutual

/-- The value of an item once nothing can be added to it. -/
def Item.closed : Item → Toml
  | .value v => v
  | .table _ entries => .table (closedEntries entries)
  | .tables all => .array (closedTables all)

def closedEntries : List (String × Item) → List (String × Toml)
  | [] => []
  | (k, i) :: rest => (k, i.closed) :: closedEntries rest

def closedTables : List (List (String × Item)) → List Toml
  | [] => []
  | entries :: rest => .table (closedEntries entries) :: closedTables rest

end

/-- The value of a key of a table. -/
def get? (v : Toml) (name : String) : Option Toml :=
  match v with
  | .table entries => (entries.find? (·.1 == name)).map (·.2)
  | _ => none

def int? : Toml → Option Int
  | .int n => some n
  | _ => none

end Toml

end StyleContract
