import StyleContract.Yaml.ScalarText

/-!
# Yaml — Lexer

From text to tokens. A mapping key is known as one only by the colon after it, so its token is
put in where the key began, together with the start of the mapping's block if the key opens one.
-/

namespace StyleContract.Yaml

/-- A place where a mapping key may have begun. -/
structure KeyStart where
  /-- The number of tokens before it. -/
  tokens : Nat
  /-- Whether only a key can stand there. -/
  needed : Bool
  index : Nat
  line : Nat
  column : Nat

structure Lexer where
  place : Place
  tokens : Array Token := #[]
  /-- The column of the innermost block; below zero outside of all blocks. -/
  indent : Int := -1
  outer : List Int := []
  /-- The possible key of each flow collection around the place, and of the block around them. -/
  keys : List (Option KeyStart) := [none]
  keyAllowed : Bool := true

namespace Lexer

/-- The number of flow collections around the place. -/
def depth (l : Lexer) : Nat := l.keys.length - 1

def inFlow (l : Lexer) : Bool := l.keys.length != 1

def emit (l : Lexer) (t : Token) : Lexer := { l with tokens := l.tokens.push t }

/-- Puts a token in at a place among the tokens. -/
def insert (l : Lexer) (at_ : Nat) (t : Token) : Lexer :=
  { l with tokens := (l.tokens.extract 0 at_).push t ++ l.tokens.extract at_ l.tokens.size }

def moveTo (l : Lexer) (p : Place) : Lexer := { l with place := p }

/-- Passes blanks, comments and line breaks. -/
def skipToToken (l : Lexer) : Nat → Lexer
  | 0 => l
  | fuel + 1 =>
    let p := l.place
    let p := if p.index = 0 ∧ p.is '\ufeff' then p.next else p
    let p := p.skipWhile fun c => c == ' ' || ((l.inFlow || !l.keyAllowed) && c == '\t')
    let p := if p.is '#' then p.skipWhile (!isBreak ·) else p
    if p.onBreak then
      let l := l.moveTo p.nextLine.1
      skipToToken (if l.inFlow then l else { l with keyAllowed := true }) fuel
    else l.moveTo p

/-- Gives up possible keys that lie on an earlier line or too far back. -/
def dropStaleKeys (l : Lexer) : Option Lexer := do
  let keys ← l.keys.mapM fun
    | none => some none
    | some k =>
      if k.line < l.place.line ∨ k.index + 1024 < l.place.index then
        if k.needed then none else some none
      else some (some k)
  some { l with keys := keys }

/-- Closes the blocks that lie further in than a column. -/
def closeBlocks (l : Lexer) (column : Int) : Lexer :=
  if l.inFlow then l
  else
    let rec go (tokens : Array Token) (indent : Int) : List Int → Lexer
      | [] => { l with tokens := tokens, indent := indent, outer := [] }
      | out :: outer =>
        if column < indent then go (tokens.push .blockEnd) out outer
        else { l with tokens := tokens, indent := indent, outer := out :: outer }
    go l.tokens l.indent l.outer

/-- Opens a block at a column, unless there is one; its token goes to the end or to a place. -/
def openBlock (l : Lexer) (column : Nat) (at_ : Option Nat) (t : Token) : Lexer :=
  if !l.inFlow && l.indent < column then
    let l := { l with outer := l.indent :: l.outer, indent := column }
    match at_ with
    | some n => l.insert n t
    | none => l.emit t
  else l

/-- Gives up the innermost possible key. -/
def removeKey (l : Lexer) : Option Lexer :=
  match l.keys with
  | some k :: keys => if k.needed then none else some { l with keys := none :: keys }
  | _ => some l

/-- Notes that a key may begin here. -/
def saveKey (l : Lexer) : Option Lexer :=
  if l.keyAllowed then do
    let needed := !l.inFlow && l.indent == l.place.column
    let l ← l.removeKey
    let p := l.place
    some { l with keys := some ⟨l.tokens.size, needed, p.index, p.line, p.column⟩ :: l.keys.drop 1 }
  else some l

def allowKey (l : Lexer) (allowed : Bool) : Lexer := { l with keyAllowed := allowed }

/-- A token of some characters after which a key may or may not begin. -/
def sign (l : Lexer) (t : Token) (width : Nat) : Lexer :=
  (l.emit t).moveTo (l.place.skip width)

/-! ### Directives, anchors and tags -/

/-- Reads decimal digits. -/
def digits? (p : Place) : Option (Nat × Place) :=
  let ds := p.rest.takeWhile Char.isDigit
  if ds.isEmpty ∨ 9 < ds.length then none
  else some (ds.foldl (fun n d => n * 10 + (d.toNat - 48)) 0, p.skip ds.length)

/-- Reads the name between the marks of a tag handle, with the marks. -/
def handle? (directive : Bool) (p : Place) : Option (List Char × Place) :=
  if p.is '!' then
    let name := (p.rest.drop 1).takeWhile isNameChar
    let q := p.skip (name.length + 1)
    if q.is '!' then some ('!' :: name ++ ['!'], q.next)
    else if directive && !name.isEmpty then none
    else some ('!' :: name, q)
  else none

def isTagChar (verbatim : Bool) (c : Char) : Bool :=
  isNameChar c || ";/?:@&=+$.%!~*'()".toList.contains c || (verbatim && ",[]".toList.contains c)

/-- The bytes that a run of escapes by number stands for; other characters are kept. -/
def unescapeTag : Nat → List Char → Option (List UInt8)
  | 0, _ => none
  | _ + 1, [] => some []
  | fuel + 1, '%' :: a :: b :: cs => do
    let n := (← Text.hexValue? a) * 16 + (← Text.hexValue? b)
    some (UInt8.ofNat n :: (← unescapeTag fuel cs))
  | _ + 1, ['%'] | _ + 1, ['%', _] => none
  | fuel + 1, c :: cs => do some ((String.singleton c).toUTF8.toList ++ (← unescapeTag fuel cs))

/-- Reads the rest of a tag. -/
def tagText? (verbatim : Bool) (p : Place) : Option (List Char × Place) := do
  let cs := p.rest.takeWhile (isTagChar verbatim)
  let bytes ← unescapeTag (cs.length + 1) cs
  let s ← String.fromUTF8? (ByteArray.mk bytes.toArray)
  some (s.toList, p.skip cs.length)

/-- Reads a tag from its mark on. -/
def tag? (inFlow : Bool) (p : Place) : Option (Token × Place) := do
  let (t, q) ←
    if p.at? 1 == some '<' then do
      let (text, q) ← tagText? true (p.skip 2)
      if text.isEmpty ∨ ¬ q.is '>' then none
      some (Token.tag "" (String.ofList text), q.next)
    else do
      let (handle, q) ← handle? false p
      if 1 < handle.length ∧ handle.getLast? = some '!' then do
        let (text, q) ← tagText? false q
        if text.isEmpty then none
        some (Token.tag (String.ofList handle) (String.ofList text), q)
      else do
        let (text, q) ← tagText? false q
        let suffix := handle.drop 1 ++ text
        some (if suffix.isEmpty then Token.tag "" "!"
          else Token.tag "!" (String.ofList suffix), q)
  if (inFlow && q.is ',') || q.blankOrEnd then some (t, q) else none

/-- Reads a directive from its sign on. -/
def directive? (p : Place) : Option (Token × Place) := do
  let name := (p.rest.drop 1).takeWhile isNameChar
  let q := p.skip (name.length + 1)
  if name.isEmpty ∨ ¬ q.blankOrEnd then none
  let (t, q) ←
    if name = "YAML".toList then do
      let (major, q) ← digits? (q.skipWhile isBlank)
      if ¬ q.is '.' then none
      let (minor, q) ← digits? q.next
      some (Token.version major minor, q)
    else if name = "TAG".toList then do
      let (handle, q) ← handle? true (q.skipWhile isBlank)
      if ¬ q.onBlank then none
      let (target, q) ← tagText? true (q.skipWhile isBlank)
      if target.isEmpty ∨ ¬ q.blankOrEnd then none
      some (Token.handle (String.ofList handle) (String.ofList target), q)
    else none
  let q := q.skipWhile isBlank
  let q := if q.is '#' then q.skipWhile (!isBreak ·) else q
  if ¬ q.breakOrEnd then none
  some (t, q.nextLine.1)

/-- Reads the name of an anchor or alias after its sign. -/
def anchorName? (p : Place) : Option (String × Place) :=
  let name := p.rest.takeWhile isNameChar
  let q := p.skip name.length
  if !name.isEmpty && (q.blankOrEnd || q.head?.any ("?:,]\x7d%@\x60".toList.contains ·)) then
    some (String.ofList name, q)
  else none

/-! ### One token -/

def lexDirective (l : Lexer) : Option Lexer := do
  let l ← (l.closeBlocks (-1)).removeKey
  let (t, p) ← directive? l.place
  some (((l.allowKey false).emit t).moveTo p)

def lexMarker (l : Lexer) (t : Token) : Option Lexer := do
  let l ← (l.closeBlocks (-1)).removeKey
  some ((l.allowKey false).sign t 3)

def lexFlowStart (l : Lexer) (t : Token) : Option Lexer := do
  let l ← l.saveKey
  some (({ l with keys := none :: l.keys }.allowKey true).sign t 1)

def lexFlowEnd (l : Lexer) (t : Token) : Option Lexer := do
  let l ← l.removeKey
  let l := if l.inFlow then { l with keys := l.keys.drop 1 } else l
  some ((l.allowKey false).sign t 1)

def lexFlowEntry (l : Lexer) : Option Lexer := do
  let l ← l.removeKey
  some ((l.allowKey true).sign .flowEntry 1)

def lexBlockEntry (l : Lexer) : Option Lexer := do
  if ¬ l.inFlow ∧ ¬ l.keyAllowed then none
  let l ← (l.openBlock l.place.column none .blockSequenceStart).removeKey
  some ((l.allowKey true).sign .blockEntry 1)

def lexKey (l : Lexer) : Option Lexer := do
  if ¬ l.inFlow ∧ ¬ l.keyAllowed then none
  let l ← (l.openBlock l.place.column none .blockMappingStart).removeKey
  some ((l.allowKey (!l.inFlow)).sign .key 1)

def lexValue (l : Lexer) : Option Lexer :=
  match l.keys with
  | some k :: keys =>
    let l := (l.insert k.tokens .key).openBlock k.column (some k.tokens) .blockMappingStart
    some (({ l with keys := none :: keys }.allowKey false).sign .value 1)
  | _ => do
    if ¬ l.inFlow ∧ ¬ l.keyAllowed then none
    let l := l.openBlock l.place.column none .blockMappingStart
    some ((l.allowKey (!l.inFlow)).sign .value 1)

def lexAnchor (l : Lexer) (token : String → Token) : Option Lexer := do
  let l ← l.saveKey
  let (name, p) ← anchorName? l.place.next
  some (((l.allowKey false).emit (token name)).moveTo p)

def lexTag (l : Lexer) : Option Lexer := do
  let l ← l.saveKey
  let (t, p) ← tag? l.inFlow l.place
  some (((l.allowKey false).emit t).moveTo p)

def lexBlockScalar (l : Lexer) (literal : Bool) : Option Lexer := do
  let l ← l.removeKey
  let (text, p) ← blockScalar literal l.indent l.place.next
  let style := if literal then Style.literal else .folded
  some (((l.allowKey true).emit (.scalar (String.ofList text) style)).moveTo p)

def lexQuoted (l : Lexer) (single : Bool) : Option Lexer := do
  let l ← l.saveKey
  let (text, p) ← quotedScalar single l.place.next
  let style := if single then Style.single else .double
  some (((l.allowKey false).emit (.scalar (String.ofList text) style)).moveTo p)

def lexPlain (l : Lexer) : Option Lexer := do
  let l ← l.saveKey
  let (text, p, endsLine) ← plainScalar l.inFlow l.indent l.place
  some (((l.allowKey endsLine).emit (.scalar (String.ofList text) .plain)).moveTo p)

/-- Whether a plain scalar may begin here. -/
def startsPlain (l : Lexer) : Bool :=
  let p := l.place
  match p.head? with
  | none => false
  | some c =>
    if c == '-' then !(p.at? 1).any isBlank
    else if c == '?' || c == ':' then !l.inFlow && !p.blankOrEndAt 1
    else !(isBlank c || isBreak c || ",[]\x7b\x7d#&*!|>'\"%@\x60".toList.contains c)

/-- Reads the token that begins here. -/
def lexToken (l : Lexer) : Option Lexer :=
  let p := l.place
  match p.head? with
  | none => none
  | some c =>
    if p.column = 0 ∧ c = '%' then l.lexDirective
    else if p.onMarker then l.lexMarker (if c = '-' then .documentStart else .documentEnd)
    else if c = '[' then l.lexFlowStart .flowSequenceStart
    else if c = '\x7b' then l.lexFlowStart .flowMappingStart
    else if c = ']' then l.lexFlowEnd .flowSequenceEnd
    else if c = '\x7d' then l.lexFlowEnd .flowMappingEnd
    else if c = ',' then l.lexFlowEntry
    else if c = '-' ∧ p.blankOrEndAt 1 then l.lexBlockEntry
    else if c = '?' ∧ (l.inFlow ∨ p.blankOrEndAt 1) then l.lexKey
    else if c = ':' ∧ (l.inFlow ∨ p.blankOrEndAt 1) then l.lexValue
    else if c = '*' then l.lexAnchor .alias
    else if c = '&' then l.lexAnchor .anchor
    else if c = '!' then l.lexTag
    else if c = '|' ∧ ¬ l.inFlow then l.lexBlockScalar true
    else if c = '>' ∧ ¬ l.inFlow then l.lexBlockScalar false
    else if c = '\'' then l.lexQuoted true
    else if c = '"' then l.lexQuoted false
    else if l.startsPlain then l.lexPlain
    else none

/-- Closes all blocks at the end of the text. -/
def finish (l : Lexer) : Option (Array Token) := do
  let l ← (l.closeBlocks (-1)).removeKey
  some l.tokens

def run : Nat → Lexer → Option (Array Token)
  | 0, _ => none
  | fuel + 1, l => do
    let l ← (l.skipToToken (l.place.rest.length + 1)).dropStaleKeys
    let l := l.closeBlocks l.place.column
    if l.place.atEnd then l.finish else run fuel (← l.lexToken)

end Lexer

/-- A text without the mark of its byte order. -/
def withoutMark : List Char → List Char
  | '\ufeff' :: cs => cs
  | cs => cs

/-- The tokens of a text, if it can be divided into tokens. -/
def tokens? (s : String) : Option (List Token) :=
  let cs := withoutMark s.toList
  if cs.all isAllowed then
    (Lexer.run (cs.length + 2) { place := { rest := cs } }).map Array.toList
  else none

end StyleContract.Yaml
