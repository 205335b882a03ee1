import StyleContract.Shell.Run
import StyleContract.Text.Truncate
import StyleContract.Verification.Check

/-!
# Verification — Runner

Running a verifier's command line in the directory of a repository. A directory that is not there
gives a result without an exit code.
-/

namespace StyleContract.Verification

/-- The end of what a command has printed. -/
def outputTail (bytes : List UInt8) : String :=
  Text.lastChars tailLength (Text.ofBytesLossy ⟨bytes.toArray⟩)

/-- A command that has not been started. -/
def notStarted (command : String) (e : OsError) : CommandResult :=
  ⟨command, none, 0, "", "failed to spawn: " ++ e.message⟩

/-- Runs a command in a directory, with some programs at hand. -/
def runIn (tree : Entry) (programs : String → Option Shell.Program) (folder command : String) :
    CommandResult :=
  match tree.find folder with
  | .error e => notStarted command e
  | .ok (.folder _) =>
    let outcome := Shell.run tree folder programs command
    ⟨command, outcome.exitCode.map Int.ofNat, 0, outputTail outcome.output,
      outputTail outcome.errors⟩
  | .ok _ => notStarted command .notDirectory

end StyleContract.Verification
