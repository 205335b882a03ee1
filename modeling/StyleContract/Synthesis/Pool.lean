import StyleContract.Synthesis.Extraction

/-!
# Synthesis — Pool

How files are worked on side by side. Calls begin in the order of their paths, and only while there
is room. An open call reads its file, asks the oracle and has a result once there is a reply; which
call is next to move is left open, so replies may come in any order. Results are taken in the order
in which the calls began, and a call holds its room until its result is taken.
-/

namespace StyleContract

/-- How many calls may be open at a time. -/
def ExtractionConfig.room (config : ExtractionConfig) : Nat := max 1 config.concurrency

namespace Extraction

/-- How far the call about a file is. -/
inductive Stage where
  | begun
  /-- The file has been read, and the oracle has been asked about its text. -/
  | asked (text : String)
  | done (result : Except String FileRules)

structure Call where
  path : String
  stage : Stage

structure Pool where
  /-- The paths whose calls have not begun. -/
  waiting : List String
  /-- The open calls, the first one to begin first. -/
  calls : List Call := []
  results : List (String × Except String FileRules) := []
  /-- The questions so far, each with the path that it is about. -/
  asked : List (String × List ChatMessage) := []

namespace Pool

/-- Before anything has begun. -/
def start (paths : List String) : Pool := { waiting := order paths }

/-- One move of a pool. -/
inductive Step (tree : Entry) (root : String) (config : ExtractionConfig)
    (oracle : String → Oracle) : Pool → Pool → Prop where
  | begin {p : Pool} {path : String} {rest : List String}
      (hroom : p.calls.length < config.room) (hwaiting : p.waiting = path :: rest) :
      Step tree root config oracle p
        { p with waiting := rest, calls := p.calls ++ [⟨path, .begun⟩] }
  | unreadable {p : Pool} {before after : List Call} {path : String} {e : OsError}
      (hcalls : p.calls = before ++ ⟨path, .begun⟩ :: after)
      (hread : tree.readText (Path.join root path) = .error e) :
      Step tree root config oracle p
        { p with
          calls := before ++ ⟨path, .done (.error ("unreadable: " ++ e.message))⟩ :: after }
  | ask {p : Pool} {before after : List Call} {path text : String}
      (hcalls : p.calls = before ++ ⟨path, .begun⟩ :: after)
      (hread : tree.readText (Path.join root path) = .ok text) :
      Step tree root config oracle p
        { p with
          calls := before ++ ⟨path, .asked text⟩ :: after
          asked := p.asked ++ [(path, question config path text)] }
  | answer {p : Pool} {before after : List Call} {path text : String}
      (hcalls : p.calls = before ++ ⟨path, .asked text⟩ :: after) :
      Step tree root config oracle p
        { p with
          calls := before ++ ⟨path, .done (ofReply config path text
            ((oracle path).ask (question config path text)))⟩ :: after }
  | take {p : Pool} {after : List Call} {path : String} {result : Except String FileRules}
      (hcalls : p.calls = ⟨path, .done result⟩ :: after) :
      Step tree root config oracle p
        { p with calls := after, results := p.results ++ [(path, result)] }

/-- The pools that some paths can come to. -/
inductive Reach (tree : Entry) (root : String) (config : ExtractionConfig)
    (oracle : String → Oracle) (paths : List String) : Pool → Prop where
  | start : Reach tree root config oracle paths (Pool.start paths)
  | step {p q : Pool} (h : Reach tree root config oracle paths p)
      (hstep : Step tree root config oracle p q) : Reach tree root config oracle paths q

end Pool

end Extraction

end StyleContract
