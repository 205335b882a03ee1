import StyleContract.Pattern.Search
import StyleContract.Signal.Basic

/-!
# Signal — TypeScript

Signals from TypeScript sources: exported declarations that mention the type `any`.
-/

namespace StyleContract

open Pattern

def Signal.exportAnyKind : String := "ts.export.any.count"

namespace TypeScript

def exportPattern : Pattern :=
  chain [.anchor .textStart, blanks, literal "export", someBlanks,
    optional (.seq (literal "default") someBlanks), optional (.seq (literal "async") someBlanks),
    oneOf (["function", "const", "let", "var", "class", "interface", "type"].map literal),
    .anchor .wordEdge]

def anyPattern : Pattern := chain [literal ":", blanks, literal "any", .anchor .wordEdge]

def isSource (path : String) : Bool :=
  (path.endsWith ".ts" || path.endsWith ".tsx") && !path.endsWith ".d.ts"

/-- The numbers of the lines with an exported declaration that mentions `any`. -/
def anyLines (text : String) : List UInt32 :=
  (Text.lines text).zipIdx.filterMap fun (line, index) =>
    if exportPattern.occursIn line && anyPattern.occursIn line then some (UInt32.ofNat index + 1)
    else none

def fileSignal (path text : String) : Option Signal :=
  let lines := anyLines text
  match lines.head?, lines.getLast? with
  | some first, some last =>
    some ⟨Signal.exportAnyKind, Json.ofNat lines.length, path, ⟨first, last⟩, 1.0⟩
  | _, _ => none

def scanner : Scanner where
  name := "typescript"
  scan tree root most := do
    let files ← scannedFiles tree root most isSource
    .ok (files.filterMap fun f => f.text.toOption.bind (fileSignal f.path))

end TypeScript

end StyleContract
