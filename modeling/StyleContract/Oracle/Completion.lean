import StyleContract.Document.JsonReading
import StyleContract.Json.Reader
import StyleContract.Oracle.Basic
import StyleContract.Text.Blank

/-!
# Oracle — Completion

Questions and answers of a chat completion service. A question is a JSON object with the messages
of a conversation; an answer lists choices, the first of which has the text, whole or in parts.
-/

namespace StyleContract

open Document

def Role.name : Role → String
  | .system => "system"
  | .user => "user"
  | .assistant => "assistant"

def Role.all : List Role := [.system, .user, .assistant]

def Role.read {V : Type} (r : Reading V) (v : V) : Fit Role := do
  let name ← r.word (Role.all.map Role.name) v
  match Role.all.find? (·.name == name) with
  | some role => .ok role
  | none => .error (.variant name (Role.all.map Role.name))

namespace ChatMessage

def toJson (m : ChatMessage) : Json :=
  .obj [("role", .str m.role.name), ("content", .str m.content)]

def read {V : Type} (r : Reading V) (v : V) : Fit ChatMessage := do
  let entries ← r.record "ChatMessage" [.needed "role" (Role.read r), .needed "content" r.text] v
  .ok ⟨← required entries "role" (Role.read r), ← required entries "content" r.text⟩

end ChatMessage

/-- What a request to the service comes back with. -/
inductive Exchange where
  /-- No connection, or one that was given up. -/
  | refused (reason : String)
  /-- Nothing within the time for a request. -/
  | late
  | response (status : Nat) (body : String)
  deriving DecidableEq, Repr

namespace Completion

/-- The question that carries some messages. -/
def payload (messages : List ChatMessage) : Json :=
  .obj [("messages", .arr (messages.map ChatMessage.toJson)), ("temperature", Json.ofNat 0)]

/-- The content of a message in an answer. -/
def readMessage {V : Type} (r : Reading V) (v : V) : Fit Json := do
  let entries ← r.record "CompletionMessage" [.free "content" r.value] v
  defaulted entries "content" .null r.value

/-- The content of the message of a choice. -/
def readChoice {V : Type} (r : Reading V) (v : V) : Fit Json := do
  let entries ← r.record "CompletionChoice" [.needed "message" (readMessage r)] v
  required entries "message" (readMessage r)

/-- The contents of the choices of an answer. -/
def readChoices {V : Type} (r : Reading V) (v : V) : Fit (List Json) := do
  let entries ← r.record "CompletionResponse" [.free "choices" (r.list (readChoice r))] v
  defaulted entries "choices" [] (r.list (readChoice r))

/-- The text of one part of a content. -/
def partText? : Json → Option String
  | .obj members =>
    match Json.Members.get? "text" members with
    | some (.str s) => some s
    | _ => none
  | _ => none

/-- The text of a content, its parts on lines of their own. -/
def textOf : Json → String
  | .str s => s
  | .arr parts => String.intercalate "\n" (parts.filterMap partText?)
  | _ => ""

/-- How many characters of a failure's body are kept. -/
def keptLength : Nat := 320

/-- A text, or its start if it is long. -/
def abridged (s : String) : String :=
  if s.length ≤ keptLength then s else String.ofList (s.toList.take keptLength) ++ "..."

/-- The text of an answer that has one. -/
def ofBody (body : String) : Except OracleError String :=
  match (Json.readRaw body).toOption.map (readChoices json) with
  | some (.ok contents) =>
    let text := (contents.head?.map textOf).getD ""
    if Text.trim text = "" then .error .emptyResponse else .ok text
  | some (.error misfit) =>
    .error (.malformedResponse ("invalid completion body: " ++ misfit.message))
  | none => .error (.malformedResponse "invalid completion body: malformed text")

def isSuccess (status : Nat) : Bool := 200 ≤ status && status < 300

/-- What a request amounts to, if one is given up after so many seconds. -/
def ofExchange (seconds : Nat) : Exchange → Except OracleError String
  | .refused reason => .error (.transport reason)
  | .late => .error (.timeout seconds)
  | .response status body =>
    if isSuccess status then ofBody body else .error (.status status (abridged body))

end Completion

end StyleContract
