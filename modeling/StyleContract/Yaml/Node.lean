import StyleContract.Yaml.Lexer

/-!
# Yaml — Node

The node tree of a YAML text. Aliases stand for the node that had their anchor last; a node
cannot hold an alias of itself. A text has one document at most.
-/

namespace StyleContract.Yaml

inductive Node where
  | scalar (tag : Option String) (style : Style) (text : String)
  | sequence (tag : Option String) (items : List Node)
  | mapping (tag : Option String) (entries : List (Node × Node))
  deriving Repr, Inhabited

namespace Node

/-- A plain scalar of no characters, which stands where a node is left out. -/
def empty : Node := .scalar none .plain ""

/-- What is left of the tokens, the handles of tags, and the nodes of the anchors so far. -/
structure State where
  tokens : List Token
  handles : List (String × String) := []
  anchors : List (String × Node) := []

abbrev Parse (α : Type) := State → Option (α × State)

def State.head? (s : State) : Option Token := s.tokens.head?

def State.next (s : State) : State := { s with tokens := s.tokens.drop 1 }

def defaultHandles : List (String × String) := [("!", "!"), ("!!", "tag:yaml.org,2002:")]

/-- The tag that a handle and a suffix stand for. -/
def State.resolve? (s : State) (handle suffix : String) : Option String :=
  if handle.isEmpty then some suffix
  else ((s.handles ++ defaultHandles).find? (·.1 == handle)).map (·.2 ++ suffix)

/-- Reads a tag, if there is one. -/
def takeTag (tag : Option String) (s : State) : Option (Option String × State) :=
  match s.head? with
  | some (.tag handle suffix) => (s.resolve? handle suffix).map fun t => (some t, s.next)
  | _ => some (tag, s)

/-- Reads an anchor, if there is one. -/
def takeAnchor (s : State) : Option String × State :=
  match s.head? with
  | some (.anchor name) => (some name, s.next)
  | _ => (none, s)

/-- Reads the tag and the anchor before a node, in either order. -/
def properties? (s : State) : Option ((Option String × Option String) × State) :=
  match takeAnchor s with
  | (some a, s) => (takeTag none s).map fun (t, s) => ((t, some a), s)
  | (none, s) => do
    let (t, s) ← takeTag none s
    match t with
    | some t =>
      let (a, s) := takeAnchor s
      some ((some t, a), s)
    | none => some ((none, none), s)

/-- A tag that says nothing counts as none. -/
def sayingTag (tag : Option String) : Option String := tag.filter (!·.isEmpty)

def State.define (s : State) (anchor : Option String) (n : Node) : State :=
  match anchor with
  | some a => { s with anchors := (a, n) :: s.anchors }
  | none => s

/-- Forgets an anchor while the node that has it is read. -/
def State.undefine (s : State) (anchor : Option String) : State :=
  match anchor with
  | some a => { s with anchors := s.anchors.filter (·.1 != a) }
  | none => s

def isOneOf (t : Option Token) (tokens : List Token) : Bool := t.any tokens.contains

mutual

/-- Reads a node. `block` says whether blocks may begin here, `hanging` whether a sequence may
stand without an indentation of its own. -/
def node (fuel : Nat) (block hanging : Bool) (s : State) : Option (Node × State) :=
  match fuel with
  | 0 => none
  | fuel + 1 =>
    match s.head? with
    | some (.alias name) => (s.anchors.find? (·.1 == name)).map fun (_, n) => (n, s.next)
    | _ => do
      let ((tag, anchor), s) ← properties? s
      let kept := sayingTag tag
      let finish (r : Node × State) : Node × State := (r.1, r.2.define anchor r.1)
      let inside := s.undefine anchor
      match s.head? with
      | some (.scalar text style) => some (finish (.scalar kept style text, s.next))
      | some .flowSequenceStart => do
        let (items, s) ← flowItems fuel true inside.next
        some (finish (.sequence kept items, s))
      | some .flowMappingStart => do
        let (entries, s) ← flowEntries fuel true inside.next
        some (finish (.mapping kept entries, s))
      | some .blockEntry =>
        if hanging then do
          let (items, s) ← hangingItems fuel inside
          some (finish (.sequence kept items, s))
        else if tag.isSome ∨ anchor.isSome then some (finish (.scalar kept .plain "", s))
        else none
      | some .blockSequenceStart =>
        if block then do
          let (items, s) ← blockItems fuel inside.next
          some (finish (.sequence kept items, s))
        else if tag.isSome ∨ anchor.isSome then some (finish (.scalar kept .plain "", s))
        else none
      | some .blockMappingStart =>
        if block then do
          let (entries, s) ← blockEntries fuel inside.next
          some (finish (.mapping kept entries, s))
        else if tag.isSome ∨ anchor.isSome then some (finish (.scalar kept .plain "", s))
        else none
      | _ =>
        if tag.isSome ∨ anchor.isSome then some (finish (.scalar kept .plain "", s)) else none

/-- Reads a node, or none where one of some tokens follows. -/
def nodeUnless (fuel : Nat) (stops : List Token) (block hanging : Bool) (s : State) :
    Option (Node × State) :=
  match fuel with
  | 0 => none
  | fuel + 1 => if isOneOf s.head? stops then some (empty, s) else node fuel block hanging s

/-- Reads the entries of a block sequence and the end of the block. -/
def blockItems (fuel : Nat) (s : State) : Option (List Node × State) :=
  match fuel with
  | 0 => none
  | fuel + 1 =>
    match s.head? with
    | some .blockEntry => do
      let (n, s) ← nodeUnless fuel [.blockEntry, .blockEnd] true false s.next
      let (ns, s) ← blockItems fuel s
      some (n :: ns, s)
    | some .blockEnd => some ([], s.next)
    | _ => none

/-- Reads the entries of a sequence that has no block of its own. -/
def hangingItems (fuel : Nat) (s : State) : Option (List Node × State) :=
  match fuel with
  | 0 => none
  | fuel + 1 =>
    match s.head? with
    | some .blockEntry => do
      let (n, s) ← nodeUnless fuel [.blockEntry, .key, .value, .blockEnd] true false s.next
      let (ns, s) ← hangingItems fuel s
      some (n :: ns, s)
    | _ => some ([], s)

/-- Reads the entries of a block mapping and the end of the block. -/
def blockEntries (fuel : Nat) (s : State) : Option (List (Node × Node) × State) :=
  match fuel with
  | 0 => none
  | fuel + 1 =>
    match s.head? with
    | some .blockEnd => some ([], s.next)
    | some .key => do
      let (k, s) ← nodeUnless fuel [.key, .value, .blockEnd] true true s.next
      let (v, s) ← blockValue fuel s
      let (es, s) ← blockEntries fuel s
      some ((k, v) :: es, s)
    | some .value => do
      let (v, s) ← blockValue fuel s
      let (es, s) ← blockEntries fuel s
      some ((empty, v) :: es, s)
    | _ => none

/-- Reads the value of an entry of a block mapping, if it has one. -/
def blockValue (fuel : Nat) (s : State) : Option (Node × State) :=
  match fuel with
  | 0 => none
  | fuel + 1 =>
    match s.head? with
    | some .value => nodeUnless fuel [.key, .value, .blockEnd] true true s.next
    | _ => some (empty, s)

/-- Reads the items of a flow sequence and its closing bracket. -/
def flowItems (fuel : Nat) (first : Bool) (s : State) : Option (List Node × State) :=
  match fuel with
  | 0 => none
  | fuel + 1 =>
    if s.head? = some .flowSequenceEnd then some ([], s.next)
    else do
      let s ← if first then some s else if s.head? = some .flowEntry then some s.next else none
      match s.head? with
      | some .flowSequenceEnd => some ([], s.next)
      | some .key => do
        let s := s.next
        let (k, s) ←
          if isOneOf s.head? [.value, .flowEntry, .flowSequenceEnd] then some (empty, s.next)
          else node fuel false false s
        let (v, s) ←
          if s.head? = some .value then
            nodeUnless fuel [.flowEntry, .flowSequenceEnd] false false s.next
          else some (empty, s)
        let (ns, s) ← flowItems fuel false s
        some (.mapping none [(k, v)] :: ns, s)
      | _ => do
        let (n, s) ← node fuel false false s
        let (ns, s) ← flowItems fuel false s
        some (n :: ns, s)

/-- Reads the entries of a flow mapping and its closing brace. -/
def flowEntries (fuel : Nat) (first : Bool) (s : State) : Option (List (Node × Node) × State) :=
  match fuel with
  | 0 => none
  | fuel + 1 =>
    if s.head? = some .flowMappingEnd then some ([], s.next)
    else do
      let s ← if first then some s else if s.head? = some .flowEntry then some s.next else none
      match s.head? with
      | some .flowMappingEnd => some ([], s.next)
      | some .key => do
        let (k, s) ← nodeUnless fuel [.value, .flowEntry, .flowMappingEnd] false false s.next
        let (v, s) ←
          if s.head? = some .value then
            nodeUnless fuel [.flowEntry, .flowMappingEnd] false false s.next
          else some (empty, s)
        let (es, s) ← flowEntries fuel false s
        some ((k, v) :: es, s)
      | _ => do
        let (k, s) ← node fuel false false s
        let (es, s) ← flowEntries fuel false s
        some ((k, empty) :: es, s)

end

/-- Reads the directives before a document: one version at most, and distinct handles. -/
def directives : Bool → List (String × String) → List Token →
    Option (List (String × String) × List Token)
  | versioned, handles, .version major minor :: ts =>
    if versioned ∨ major ≠ 1 ∨ ¬ (minor = 1 ∨ minor = 2) then none
    else directives true handles ts
  | versioned, handles, .handle name target :: ts =>
    if handles.any (·.1 == name) then none else directives versioned ((name, target) :: handles) ts
  | _, handles, ts => some (handles, ts)

/-- Reads a document's content, which may be left out. -/
def content (fuel : Nat) (handles : List (String × String)) (ts : List Token) :
    Option (Node × List Token) :=
  match ts with
  | [] | .documentEnd :: _ | .documentStart :: _ | .version .. :: _ | .handle .. :: _ =>
    some (empty, ts)
  | ts => (node fuel true false { tokens := ts, handles := handles }).map fun r => (r.1, r.2.tokens)

/-- The node of the only document in some tokens, if there is exactly one or none at all. -/
def ofTokens? (ts : List Token) : Option (Option Node) := do
  let fuel := 4 * ts.length + 8
  let rest (r : Node × List Token) : Option (Option Node) :=
    if (r.2.dropWhile (· == .documentEnd)).isEmpty then some (some r.1) else none
  match ts with
  | [] => some none
  | .documentStart :: _ | .version .. :: _ | .handle .. :: _ =>
    let (handles, ts) ← directives false [] ts
    match ts with
    | .documentStart :: ts => do rest (← content fuel handles ts)
    | _ => none
  | ts => do
    let (n, s) ← node fuel true false { tokens := ts }
    rest (n, s.tokens)

mutual

/-- The number of collections around the innermost node. -/
def depth : Node → Nat
  | .scalar .. => 0
  | .sequence _ items => 1 + depthOfItems items
  | .mapping _ entries => 1 + depthOfEntries entries

def depthOfItems : List Node → Nat
  | [] => 0
  | n :: ns => max n.depth (depthOfItems ns)

def depthOfEntries : List (Node × Node) → Nat
  | [] => 0
  | (k, v) :: es => max (max k.depth v.depth) (depthOfEntries es)

end

/-- The number of collections that may lie inside each other. -/
def maxDepth : Nat := 128

/-- The node of the only document in a text; a text without one has none. -/
def ofText? (s : String) : Option (Option Node) := do
  let n ← ofTokens? (← tokens? s)
  if n.all (·.depth ≤ maxDepth) then some n else none

end Node

end StyleContract.Yaml
