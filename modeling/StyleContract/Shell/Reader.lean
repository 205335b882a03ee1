import StyleContract.Shell.Basic

/-!
# Shell — Reader

Reading a command line. Each reader takes characters off the front and gives back the rest; the
fuel that they share is worked out from the length of the line.
-/

namespace StyleContract.Shell

/-- Why a command line is none. -/
inductive ReadError where
  | unfinishedQuote
  | badLoopVariable
  | missingBrace
  /-- What stands where something else was expected. -/
  | unexpected (found : String) (expected : Option String)
  deriving DecidableEq, Repr

def ReadError.message : ReadError → String
  | .unfinishedQuote => "Syntax error: Unterminated quoted string"
  | .badLoopVariable => "Syntax error: Bad for loop variable"
  | .missingBrace => "Syntax error: Missing '\x7d'"
  | .unexpected found expected =>
    "Syntax error: " ++ found ++ " unexpected" ++ (match expected with
      | some sign => " (expecting \"" ++ sign ++ "\")"
      | none => "")

def ReadError.unexpectedEnd : ReadError := .unexpected "end of file" none

/-- Something read, and the characters after it. -/
abbrev Rest (α : Type) := α × List Char

def isBreak (c : Char) : Bool := c == ' ' || c == '\t'

/-- Whether a character ends an unquoted word. -/
def endsWord (c : Char) : Bool :=
  isBreak c || c ∈ ['\n', ';', '&', '|', '(', ')', '<', '>']

/-- Drops blanks, joined lines and comments. -/
def skipBreaks : List Char → List Char
  | '\\' :: '\n' :: cs => skipBreaks cs
  | '#' :: cs => cs.dropWhile (· != '\n')
  | c :: cs => if isBreak c then skipBreaks cs else c :: cs
  | [] => []

/-- Drops blanks and line ends. -/
def skipLines (cs : List Char) : Nat → List Char
  | 0 => cs
  | fuel + 1 =>
    match skipBreaks cs with
    | '\n' :: cs => skipLines cs fuel
    | cs => cs

def isNameStart (c : Char) : Bool := c.isAlpha || c == '_'
def isNameChar (c : Char) : Bool := c.isAlphanum || c == '_'

/-- Text between single quotes, after the opening one. -/
def singleQuoted (cs : List Char) : Except ReadError (Rest Piece) :=
  match cs.dropWhile (· != '\'') with
  | _ :: rest => .ok (.text (cs.takeWhile (· != '\'')) true, rest)
  | [] => .error .unfinishedQuote

/-- The text up to an unescaped backtick, with its escapes undone. -/
def backticked : List Char → List Char → Except ReadError (Rest (List Char))
  | acc, '\\' :: c :: cs =>
    if c == '\x60' || c == '\\' || c == '$' then backticked (c :: acc) cs
    else backticked (c :: '\\' :: acc) cs
  | acc, c :: cs => if c == '\x60' then .ok (acc.reverse, cs) else backticked (c :: acc) cs
  | _, [] => .error .unfinishedQuote

/-- Words that end a list of commands. -/
def closingWords : List String := ["\x7d", "then", "else", "elif", "fi", "do", "done", "esac"]

/-- Words with a meaning of their own where a command is expected. -/
def reservedWords : List String :=
  closingWords ++ ["\x7b", "!", "if", "for", "while", "until", "case", "in"]

/-- The characters of the word at the front. -/
def wordAt (cs : List Char) : List Char := cs.takeWhile fun c => !endsWord c

/-- How a complaint names what stands at the front. -/
def signAt : List Char → String
  | [] => "end of file"
  | '&' :: '&' :: _ => "\"&&\""
  | '|' :: '|' :: _ => "\"||\""
  | ';' :: ';' :: _ => "\";;\""
  | '\n' :: _ => "newline"
  | c :: cs =>
    if endsWord c then "\"" ++ c.toString ++ "\""
    else
      let word := String.ofList (wordAt (c :: cs))
      if word ∈ reservedWords then "\"" ++ word ++ "\"" else "word"

def unexpectedAt (cs : List Char) : ReadError := .unexpected (signAt cs) none

/-- The stream and direction of a redirection at the front. -/
def redirection? (cs : List Char) : Option (Nat × Direction × List Char) :=
  let digits := cs.takeWhile Char.isDigit
  let stream (default : Nat) : Nat :=
    if digits.isEmpty then default
    else digits.foldl (fun n c => n * 10 + (c.toNat - '0'.toNat)) 0
  match cs.drop digits.length with
  | '>' :: '>' :: rest => some (stream 1, .write true, rest)
  | '>' :: '&' :: rest => some (stream 1, .join, rest)
  | '>' :: '|' :: rest => some (stream 1, .write false, rest)
  | '>' :: rest => some (stream 1, .write false, rest)
  | '<' :: '&' :: rest => some (stream 0, .join, rest)
  | '<' :: rest => some (stream 0, .read, rest)
  | _ => none

/-- What follows a word, if the word stands at the front. -/
def reserved? (word : String) (cs : List Char) : Option (List Char) :=
  let found := wordAt cs
  if found = word.toList then some (cs.drop found.length) else none

/-- What follows a sign or word that has to come next. -/
def expect (sign : String) (cs : List Char) : Except ReadError (List Char) :=
  let cs := skipLines cs cs.length
  let after := match sign with
    | ")" => match cs with
      | ')' :: rest => some rest
      | _ => none
    | word => reserved? word cs
  match after with
  | some rest => .ok rest
  | none => .error (.unexpected (signAt cs) (some sign))

/-- Whether nothing but the end of a list of commands stands at the front. -/
def endsList (cs : List Char) : Bool :=
  cs.isEmpty || cs.head? == some ')' || closingWords.contains (String.ofList (wordAt cs))

mutual

/-- What a dollar sign stands for; the sign itself has been taken. -/
def readDollar : Nat → Bool → List Char → Except ReadError (Rest Piece)
  | 0, _, _ => .error .unexpectedEnd
  | fuel + 1, quoted, cs =>
    match cs with
    | '(' :: rest => do
      let (c, rest) ← readList fuel rest
      .ok (.output c quoted, ← expect ")" rest)
    | '\x7b' :: rest =>
      match rest.dropWhile (· != '\x7d') with
      | _ :: after =>
        let inner := rest.takeWhile (· != '\x7d')
        let name := inner.takeWhile isNameChar
        let word (cs : List Char) : Word := .next (.text cs true) .done
        match inner.drop name.length with
        | ':' :: '-' :: cs => .ok (.default (String.ofList name) true (word cs) quoted, after)
        | '-' :: cs => .ok (.default (String.ofList name) false (word cs) quoted, after)
        | _ => .ok (.variable (String.ofList inner) quoted, after)
      | [] => .error .missingBrace
    | c :: rest =>
      if c ∈ ['$', '?', '#', '@', '*', '!', '-'] || c.isDigit then
        .ok (.variable c.toString quoted, rest)
      else if isNameStart c then
        .ok (.variable (String.ofList (cs.takeWhile isNameChar)) quoted, cs.dropWhile isNameChar)
      else .ok (.text ['$'] quoted, cs)
    | [] => .ok (.text ['$'] quoted, [])

/-- Pieces inside double quotes, up to the closing one. -/
def readDoubleQuoted : Nat → List Char → Except ReadError (Rest (List Piece))
  | 0, _ => .error .unfinishedQuote
  | fuel + 1, cs =>
    match cs with
    | [] => .error .unfinishedQuote
    | '"' :: rest => .ok ([], rest)
    | '\\' :: c :: rest => do
      let (ps, rest) ← readDoubleQuoted fuel rest
      if c == '\n' then .ok (ps, rest)
      else if c ∈ ['$', '\x60', '"', '\\'] then .ok (.text [c] true :: ps, rest)
      else .ok (.text ['\\', c] true :: ps, rest)
    | '$' :: rest => do
      let (p, rest) ← readDollar fuel true rest
      let (ps, rest) ← readDoubleQuoted fuel rest
      .ok (p :: ps, rest)
    | '\x60' :: rest => do
      let (script, rest) ← backticked [] rest
      let (c, _) ← readList fuel script
      let (ps, rest) ← readDoubleQuoted fuel rest
      .ok (.output c true :: ps, rest)
    | c :: rest => do
      let (ps, rest) ← readDoubleQuoted fuel rest
      .ok (.text [c] true :: ps, rest)

/-- The pieces of a word, up to its end. -/
def readWord : Nat → List Char → Except ReadError (Rest (List Piece))
  | 0, _ => .error .unexpectedEnd
  | fuel + 1, cs =>
    match cs with
    | [] => .ok ([], [])
    | '\\' :: '\n' :: rest => readWord fuel rest
    | '\\' :: c :: rest => do
      let (ps, rest) ← readWord fuel rest
      .ok (.text [c] true :: ps, rest)
    | '\'' :: rest => do
      let (p, rest) ← singleQuoted rest
      let (ps, rest) ← readWord fuel rest
      .ok (p :: ps, rest)
    | '"' :: rest => do
      let (inner, rest) ← readDoubleQuoted fuel rest
      let (ps, rest) ← readWord fuel rest
      .ok (.text [] true :: (inner ++ ps), rest)
    | '$' :: rest => do
      let (p, rest) ← readDollar fuel false rest
      let (ps, rest) ← readWord fuel rest
      .ok (p :: ps, rest)
    | '\x60' :: rest => do
      let (script, rest) ← backticked [] rest
      let (c, _) ← readList fuel script
      let (ps, rest) ← readWord fuel rest
      .ok (.output c false :: ps, rest)
    | c :: rest =>
      if endsWord c then .ok ([], cs)
      else do
        let (ps, rest) ← readWord fuel rest
        .ok (.text [c] false :: ps, rest)

/-- The words and redirections of a simple command. -/
def readSimple : Nat → List Char →
    Except ReadError (Rest (List Word × List (Nat × Direction × Word)))
  | 0, _ => .error .unexpectedEnd
  | fuel + 1, cs =>
    let cs := skipBreaks cs
    match redirection? cs with
    | some (stream, direction, rest) => do
      let (target, after) ← readWord fuel (skipBreaks rest)
      if target.isEmpty then .error (unexpectedAt after)
      let ((words, redirects), rest) ← readSimple fuel after
      .ok ((words, (stream, direction, Word.ofList target) :: redirects), rest)
    | none =>
      match cs with
      | [] => .ok (([], []), [])
      | c :: _ =>
        if endsWord c then .ok (([], []), cs)
        else do
          let (word, rest) ← readWord fuel cs
          let ((words, redirects), rest) ← readSimple fuel rest
          .ok ((Word.ofList word :: words, redirects), rest)

/-- The commands up to a sign or word that ends them; there has to be one. -/
def readBody : Nat → String → List Char → Except ReadError (Rest Command)
  | 0, _, _ => .error .unexpectedEnd
  | fuel + 1, ending, cs => do
    let start := skipLines cs cs.length
    if endsList start && !start.isEmpty then .error (unexpectedAt start)
    let (c, rest) ← readList fuel start
    .ok (c, ← expect ending rest)

/-- What follows the condition of a branch. -/
def readBranch : Nat → List Char → Except ReadError (Rest Command)
  | 0, _ => .error .unexpectedEnd
  | fuel + 1, cs => do
    let (condition, rest) ← readBody fuel "then" cs
    let start := skipLines rest rest.length
    if endsList start && !start.isEmpty then .error (unexpectedAt start)
    let (yes, rest) ← readList fuel start
    let rest := skipLines rest rest.length
    match reserved? "elif" rest, reserved? "else" rest with
    | some rest, _ => do
      let (no, rest) ← readBranch fuel rest
      .ok (.branch condition yes no, rest)
    | none, some rest => do
      let (no, rest) ← readBody fuel "fi" rest
      .ok (.branch condition yes no, rest)
    | none, none => .ok (.branch condition yes .success, ← expect "fi" rest)

/-- What follows the word that starts a loop. -/
def readEach : Nat → List Char → Except ReadError (Rest Command)
  | 0, _ => .error .unexpectedEnd
  | fuel + 1, cs => do
    let cs := skipBreaks cs
    let name := wordAt cs
    if !(name.head?.any isNameStart && name.all isNameChar) then .error .badLoopVariable
    let rest := skipLines (cs.drop name.length) cs.length
    let (words, rest) ← match reserved? "in" rest with
      | some rest => do
        let ((words, _), rest) ← readSimple fuel rest
        match skipBreaks rest with
        | ';' :: rest => .ok (words, rest)
        | '\n' :: rest => .ok (words, rest)
        | rest => .error (unexpectedAt rest)
      | none => .ok ([], match rest with
        | ';' :: rest => rest
        | rest => rest)
    let (body, rest) ← readBody fuel "done" (← expect "do" rest)
    .ok (.each (String.ofList name) (.ofList words) body, rest)

/-- A command that is made of others, with the redirections after it. -/
def readGroup : Nat → Bool → Command → List Char → Except ReadError (Rest Command)
  | 0, _, _, _ => .error .unexpectedEnd
  | fuel + 1, own, c, cs => do
    let ((words, redirects), rest) ← readSimple fuel cs
    if words.isEmpty then .ok (.group own c (.ofList redirects), rest)
    else .error (unexpectedAt (skipBreaks cs))

/-- One command. -/
def readCommand : Nat → List Char → Except ReadError (Rest Command)
  | 0, _ => .error .unexpectedEnd
  | fuel + 1, cs =>
    let cs := skipBreaks cs
    match cs with
    | '(' :: rest => do
      let (c, rest) ← readBody fuel ")" rest
      readGroup fuel true c rest
    | _ =>
      match reserved? "\x7b" cs, reserved? "if" cs, reserved? "for" cs with
      | some rest, _, _ => do
        let (c, rest) ← readBody fuel "\x7d" rest
        readGroup fuel false c rest
      | none, some rest, _ => do
        let (c, rest) ← readBranch fuel rest
        readGroup fuel false c rest
      | none, none, some rest => do
        let (c, rest) ← readEach fuel rest
        readGroup fuel false c rest
      | none, none, none => do
        if endsList cs then .error (unexpectedAt cs)
        let ((words, redirects), rest) ← readSimple fuel cs
        if words.isEmpty && redirects.isEmpty then .error (unexpectedAt rest)
        else .ok (.simple (.ofList words) (.ofList redirects), rest)

/-- Commands joined by pipes. -/
def readPipe : Nat → List Char → Except ReadError (Rest Command)
  | 0, _ => .error .unexpectedEnd
  | fuel + 1, cs => do
    let (first, rest) ← readCommand fuel cs
    match skipBreaks rest with
    | '|' :: '|' :: rest => .ok (first, '|' :: '|' :: rest)
    | '|' :: rest => do
      let (second, rest) ← readPipe fuel (skipLines rest rest.length)
      .ok (.pipe first second, rest)
    | rest => .ok (first, rest)

/-- A pipe that may be negated. -/
def readNegation : Nat → List Char → Except ReadError (Rest Command)
  | 0, _ => .error .unexpectedEnd
  | fuel + 1, cs =>
    match reserved? "!" (skipBreaks cs) with
    | some rest => do
      let (c, rest) ← readPipe fuel rest
      .ok (.negation c, rest)
    | none => readPipe fuel cs

/-- What follows a command up to the end of a list whose items are tied by success. -/
def readTied : Nat → Command → List Char → Except ReadError (Rest Command)
  | 0, _, _ => .error .unexpectedEnd
  | fuel + 1, first, cs =>
    match skipBreaks cs with
    | '&' :: '&' :: rest => do
      let (second, rest) ← readNegation fuel (skipLines rest rest.length)
      readTied fuel (.both first second) rest
    | '|' :: '|' :: rest => do
      let (second, rest) ← readNegation fuel (skipLines rest rest.length)
      readTied fuel (.either first second) rest
    | rest => .ok (first, rest)

/-- Commands one after the other, up to a closing sign or the end. -/
def readList : Nat → List Char → Except ReadError (Rest Command)
  | 0, _ => .error .unexpectedEnd
  | fuel + 1, cs =>
    let cs := skipLines cs cs.length
    if endsList cs then .ok (.nothing, cs)
    else do
      let (first, rest) ← readNegation fuel cs
      let (first, rest) ← readTied fuel first rest
      match skipBreaks rest with
      | ';' :: ';' :: rest => .error (unexpectedAt (';' :: ';' :: rest))
      | ';' :: rest => do
        let (second, rest) ← readList fuel rest
        .ok (.sequence first second, rest)
      | '\n' :: rest => do
        let (second, rest) ← readList fuel rest
        .ok (.sequence first second, rest)
      | rest => .ok (first, rest)

end

/-- The command line that a text is. -/
def Command.ofText (s : String) : Except ReadError Command := do
  let cs := s.toList
  let (c, rest) ← readList (8 * (cs.length + 2)) cs
  if rest.isEmpty then .ok c else .error (unexpectedAt rest)

end StyleContract.Shell
