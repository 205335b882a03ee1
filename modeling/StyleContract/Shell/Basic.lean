/-!
# Shell — Basic

Command lines of a POSIX shell, as far as verifiers use them: simple commands with words and
redirections, and their combination. The only loop is the one over given words, so running a
command line is a recursion on it.
-/

namespace StyleContract.Shell

/-- Where a redirection leads. -/
inductive Direction where
  /-- Into a file, whose content is kept or not. -/
  | write (keeping : Bool)
  | read
  /-- To where another stream leads. -/
  | join
  deriving DecidableEq, Repr

mutual

/-- A part of a word; a part inside double quotes is not split into fields. -/
inductive Piece where
  | text (cs : List Char) (quoted : Bool)
  /-- The value of a variable, or of one of the shell's own signs. -/
  | variable (name : String) (quoted : Bool)
  /-- The value of a variable, or some word for one that is not set; `orEmpty` says whether the
  word also stands for an empty value. -/
  | default (name : String) (orEmpty : Bool) (otherwise : Word) (quoted : Bool)
  /-- What a command prints. -/
  | output (c : Command) (quoted : Bool)

inductive Word where
  | done
  | next (p : Piece) (rest : Word)

inductive Words where
  | done
  | next (w : Word) (rest : Words)

inductive Redirects where
  | done
  | next (stream : Nat) (direction : Direction) (target : Word) (rest : Redirects)

inductive Command where
  | nothing
  | simple (words : Words) (redirects : Redirects)
  /-- A group; one with a state of its own leaves that of the shell as it is. -/
  | group (own : Bool) (c : Command) (redirects : Redirects)
  | sequence (first second : Command)
  /-- The second one runs if the first one succeeds. -/
  | both (first second : Command)
  /-- The second one runs if the first one does not succeed. -/
  | either (first second : Command)
  | negation (c : Command)
  /-- The second one reads what the first one prints. -/
  | pipe (first second : Command)
  /-- One of two commands, by how a condition goes. -/
  | branch (condition yes no : Command)
  /-- A command for each field of some words, as the value of a variable. -/
  | each (name : String) (words : Words) (body : Command)

end

/-- The command that does nothing and succeeds. -/
def Command.success : Command :=
  .simple (.next (.next (.text [':'] false) .done) .done) .done

/-- The word that is made of some pieces. -/
def Word.ofList : List Piece → Word
  | [] => .done
  | p :: ps => .next p (Word.ofList ps)

def Words.ofList : List Word → Words
  | [] => .done
  | w :: ws => .next w (Words.ofList ws)

def Redirects.ofList : List (Nat × Direction × Word) → Redirects
  | [] => .done
  | (stream, direction, target) :: rest => .next stream direction target (Redirects.ofList rest)

end StyleContract.Shell
