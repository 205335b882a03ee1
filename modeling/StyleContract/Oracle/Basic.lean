/-!
# Oracle — Basic

The oracle: given the messages of a conversation, it answers with a text, fails, or does not
answer in time. Nothing else is known about it.
-/

namespace StyleContract

/-- Why an oracle has no usable answer. -/
inductive OracleError where
  | notConfigured (missing : String)
  | transport (text : String)
  | status (code : Nat) (body : String)
  | timeout (seconds : Nat)
  | emptyResponse
  | malformedResponse (text : String)
  | invalidCandidate (text : String)
  deriving DecidableEq, Repr

namespace OracleError

def message : OracleError → String
  | .notConfigured missing => "Oracle not configured: missing " ++ missing
  | .transport text => "Oracle transport error: " ++ text
  | .status code body => "Oracle returned HTTP " ++ toString code ++ ": " ++ body
  | .timeout seconds => "Oracle call timed out after " ++ toString seconds ++ "s"
  | .emptyResponse => "Oracle response had no content"
  | .malformedResponse text => "Malformed oracle response: " ++ text
  | .invalidCandidate text => "Invalid rule candidate: " ++ text

/-- Whether the same question would fail again. -/
def isPermanent : OracleError → Bool
  | .status code _ => code ∈ [400, 401, 403, 404, 422]
  | .notConfigured _ | .malformedResponse _ | .invalidCandidate _ => true
  | .transport _ | .timeout _ | .emptyResponse => false

end OracleError

/-- Who says something in a conversation. -/
inductive Role where
  | system
  | user
  | assistant
  deriving DecidableEq, Repr

structure ChatMessage where
  role : Role
  content : String
  deriving DecidableEq, Repr

/-- What comes of a question. -/
inductive Reply where
  | text (s : String)
  | failed (e : OracleError)
  /-- No answer within the time that the asker waits. -/
  | late
  deriving DecidableEq, Repr

structure Oracle where
  name : String
  ask : List ChatMessage → Reply

end StyleContract
