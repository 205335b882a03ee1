import StyleContract.Files.Basic
import StyleContract.Oracle.Candidate
import StyleContract.Text.Truncate

/-!
# Synthesis — Extraction

Rules from an oracle, which is asked about one file at a time. Files do not affect each other: one
that cannot be read, or whose reply is of no use, adds a failure and no rules. The order of files
is that of their paths, whatever order they are given in.
-/

namespace StyleContract

/-- How an oracle is asked, and what of its replies is kept. -/
structure ExtractionConfig where
  /-- How many questions may be open at a time. -/
  concurrency : Nat := 4
  /-- How long an answer is waited for, in milliseconds. -/
  timeout : Nat := 60000
  maxFileBytes : Nat := 65536
  minConfidence : Float := 0.55
  maxRulesPerFile : Nat := 10
  deriving DecidableEq, Repr

/-- Why a file has no rules. -/
structure FileFailure where
  path : String
  reason : String
  deriving DecidableEq, Repr

namespace Extraction

/-- What an oracle is told before each question. -/
def instruction : String :=
  "You analyze one source or configuration file from a software repository " ++
    "and infer the coding conventions its authors follow. Respond with ONLY a JSON array (no " ++
    "prose) of 3 to 10 rule objects with the fields: id (uppercase prefixed code such as " ++
    "PY-LOG-001), title, statement (one testable sentence using MUST or SHOULD), rationale, " ++
    "scope (glob patterns), languages, severity (info|warn|error), confidence (0 to 1), " ++
    "evidence (array of \x7bpath, lines: [start, end]\x7d). Emit only generalizable, " ++
    "principle-level rules. Exclude configuration or tooling trivia and one-off details that " ++
    "only apply to this file."

/-- The question about a file. -/
def question (config : ExtractionConfig) (path text : String) : List ChatMessage :=
  let ticks := String.ofList Candidate.fence
  [⟨.system, instruction⟩,
    ⟨.user, "File: " ++ path ++ "\n\n" ++ ticks ++ "\n" ++ Text.truncate config.maxFileBytes text ++
      "\n" ++ ticks⟩]

/-- The files to ask about: distinct paths in ascending order. -/
def order (paths : List String) : List String := sortedDistinct (paths.filter (· != ""))

/-- What one file brings. -/
structure FileRules where
  rules : List Rule
  belowThreshold : Nat
  overCap : Nat
  deriving DecidableEq, Repr

/-- The candidates of a reply that the asker has time for. -/
def candidates (config : ExtractionConfig) : Reply → Except OracleError (List Candidate)
  | .text s => Candidate.ofReply s
  | .failed e => .error e
  | .late => .error (.timeout (config.timeout / 1000))

/-- The rules of a file's candidates: the first ones with enough confidence, if all are sound. -/
def rulesOf (config : ExtractionConfig) (path text : String) (all : List Candidate) :
    Except String FileRules :=
  let confident := all.filter fun c => config.minConfidence ≤ c.confidence
  let rules := (confident.take config.maxRulesPerFile).map fun c =>
    c.toRule path (Text.lineCount text)
  match rules.flatMap Rule.complaints with
  | [] => .ok ⟨rules, all.length - confident.length, confident.length - config.maxRulesPerFile⟩
  | complaints => .error ("schema-violating reply: " ++ String.intercalate "; " complaints)

/-- What comes of the reply about one file. -/
def ofReply (config : ExtractionConfig) (path text : String) (reply : Reply) :
    Except String FileRules :=
  match candidates config reply with
  | .error e => .error e.message
  | .ok all => rulesOf config path text all

/-- What the oracle says about one file. -/
def ofFile (tree : Entry) (root : String) (config : ExtractionConfig) (oracle : Oracle)
    (path : String) : Except String FileRules :=
  match tree.readText (Path.join root path) with
  | .error e => .error ("unreadable: " ++ e.message)
  | .ok text => ofReply config path text (oracle.ask (question config path text))

end Extraction

/-- What an oracle says about all files. -/
structure Extraction where
  rules : List Rule := []
  filesAnalyzed : Nat := 0
  failures : List FileFailure := []
  /-- Candidates left out for low confidence. -/
  belowThreshold : Nat := 0
  /-- Candidates left out because a file had too many. -/
  overCap : Nat := 0
  deriving DecidableEq

namespace Extraction

def add (e : Extraction) (path : String) : Except String FileRules → Extraction
  | .ok f =>
    { e with
      rules := e.rules ++ f.rules
      filesAnalyzed := e.filesAnalyzed + 1
      belowThreshold := e.belowThreshold + f.belowThreshold
      overCap := e.overCap + f.overCap }
  | .error reason =>
    { e with filesAnalyzed := e.filesAnalyzed + 1, failures := e.failures ++ [⟨path, reason⟩] }

/-- What some files bring together, one after the other. -/
def gather (results : List (String × Except String FileRules)) : Extraction :=
  results.foldl (fun e result => e.add result.1 result.2) {}

/-- What comes of the files at some paths below a root, if the oracle is the given one whenever it
is asked about a file. -/
def ofEach (tree : Entry) (root : String) (config : ExtractionConfig) (oracle : String → Oracle)
    (paths : List String) : Extraction :=
  gather ((order paths).map fun path => (path, ofFile tree root config (oracle path) path))

/-- What the oracle says about the files at some paths below a root. -/
def ofPaths (tree : Entry) (root : String) (config : ExtractionConfig) (oracle : Oracle)
    (paths : List String) : Extraction :=
  ofEach tree root config (fun _ => oracle) paths

/-- The question about the file at a path, if it can be read. -/
def question? (tree : Entry) (root : String) (config : ExtractionConfig) (path : String) :
    Option (List ChatMessage) :=
  (tree.readText (Path.join root path)).toOption.map (question config path)

/-- The questions that are asked about the files at some paths. -/
def questions (tree : Entry) (root : String) (config : ExtractionConfig) (paths : List String) :
    List (List ChatMessage) :=
  (order paths).filterMap (question? tree root config)

end Extraction

end StyleContract
