import StyleContract.CommandLine.Run
import StyleContract.Proofs.Contract.Conformity
import StyleContract.Proofs.Files.Write
import StyleContract.Proofs.Synthesis.Run

/-!
# Proofs — Command line — Scan

What a scan leaves behind, however it ends. It ends in one of four ways (`ScanEnds`): without a
contract, with a contract that could not be stored, with a stored contract and a report that could not
be written, or with both. Nothing is written before the contract is complete and accepted, and both
writes keep all other files, so **a contract file holds an accepted contract or what it held before,
and a scan that ends without a contract changes nothing** (`scan_stores_accepted`).
-/

namespace StyleContract.CommandLine

namespace Action

variable {α β : Type}

theorem run_bind (x : Action α) (next : α → Action β) (before : Session) :
    (x >>= next).run before =
      match (x.run before : Except Error α × Session) with
      | (.ok a, s) => (next a).run s
      | (.error e, s) => (.error e, s) := by
  show (match (x.run before : Except Error α × Session) with
    | (result, s) => (ExceptT.bindCont next result : StateM Session _) s) = _
  rcases (x.run before : Except Error α × Session) with ⟨result, s⟩
  cases result <;> rfl

theorem run_get_bind (next : Session → Action β) (before : Session) :
    (get >>= next).run before = (next before).run before := rfl

/-- After a result that depends on the files only, the files are the same. -/
theorem run_reading (f : Entry → Except Error α) (before : Session) :
    (reading f).run before = (f before.tree, before) := by
  rw [reading, run_get_bind]
  cases f before.tree <;> rfl

theorem run_reading_bind (f : Entry → Except Error α) (next : α → Action β) (before : Session) :
    (reading f >>= next).run before =
      match f before.tree with
      | .ok a => (next a).run before
      | .error e => (.error e, before) := by
  rw [run_bind, run_reading]
  cases f before.tree <;> rfl

/-- A change that fails stays as far as it came. -/
theorem run_changing_bind (f : Entry → Change Error) (next : Unit → Action β) (before : Session) :
    (changing f >>= next).run before =
      match (f before.tree).failure with
      | none => (next ()).run { before with tree := (f before.tree).tree }
      | some e => (.error e, { before with tree := (f before.tree).tree }) := by
  have hchange : (changing f).run before =
      (match (f before.tree).failure with
        | none => .ok ()
        | some e => .error e, { before with tree := (f before.tree).tree }) := by
    show (match (f before.tree).failure with
      | none => (pure () : Action Unit)
      | some e => throw e).run { before with tree := (f before.tree).tree } = _
    cases (f before.tree).failure <;> rfl
  rw [run_bind, hchange]
  cases (f before.tree).failure <;> rfl

end Action

variable {m : Machine} {o : Options} {s s' : Settings} {r : ScanRequest} {before : Session}
  {result : Except Error ExitStatus} {after : Entry} {outcome : SynthesisOutcome}

theorem scanSettings_eq_ok (h : scanSettings s r = .ok s') :
    s'.contractPath = r.out.getD s.contractPath ∧ s'.reportPath = s.reportPath ∧
      s'.schemaPath = s.schemaPath := by
  rw [scanSettings] at h
  split at h <;> cases h
  exact ⟨rfl, rfl, rfl⟩

/-- **The contract of a scan is accepted** by the schema of the scan. -/
theorem accept_of_synthesize {tree : Entry} (h : synthesize m s r tree = .ok outcome) :
    ∃ schema, schemaOf s r.schema tree = .ok schema ∧ schema.accept outcome.contract = .ok () := by
  obtain ⟨schema, hschema, h⟩ := Document.bind_eq_ok_iff.1 h
  obtain ⟨checkout, -, h⟩ := Document.bind_eq_ok_iff.1 h
  obtain ⟨c, hc, rfl⟩ := Synthesis.ofBundle_eq_ok_iff.1 h
  obtain ⟨rfl, haccept⟩ := build_eq_ok_iff.1 hc
  exact ⟨schema, hschema, ContractSchema.accept_eq_ok_iff.2 haccept⟩

/-- The contract of a scan, stored. -/
def stored (s : Settings) (outcome : SynthesisOutcome) (tree : Entry) : Change Error :=
  (Store.ofPath s.contractPath).persist tree outcome.contract

/-- The report of a scan, written. -/
def reported (m : Machine) (s : Settings) (outcome : SynthesisOutcome) (tree : Entry) :
    Change Error :=
  tree.writeText s.reportPath (outcome.report m.runId s.contractPath).pretty

/-- The ways in which a scan ends: its result, and the tree it leaves behind. -/
inductive ScanEnds (m : Machine) (s : Settings) (r : ScanRequest) (tree : Entry) :
    Except Error ExitStatus → Entry → Prop where
  | refused (e : Error) : ScanEnds m s r tree (.error e) tree
  | unstored {outcome : SynthesisOutcome} {e : Error} (h : synthesize m s r tree = .ok outcome)
      (hstored : (stored s outcome tree).failure = some e) :
      ScanEnds m s r tree (.error e) (stored s outcome tree).tree
  | unreported {outcome : SynthesisOutcome} {e : Error} (h : synthesize m s r tree = .ok outcome)
      (hstored : (stored s outcome tree).failure = none)
      (hreported : (reported m s outcome (stored s outcome tree).tree).failure = some e) :
      ScanEnds m s r tree (.error e) (reported m s outcome (stored s outcome tree).tree).tree
  | done {outcome : SynthesisOutcome} (status : ExitStatus)
      (h : synthesize m s r tree = .ok outcome) (hstored : (stored s outcome tree).failure = none)
      (hreported : (reported m s outcome (stored s outcome tree).tree).failure = none) :
      ScanEnds m s r tree (.ok status) (reported m s outcome (stored s outcome tree).tree).tree

/-- **Every scan ends in one of these ways.** -/
theorem scanEnds (m : Machine) (o : Options) (s : Settings) (r : ScanRequest) (before : Session) :
    ∃ s', s'.contractPath = r.out.getD s.contractPath ∧ s'.reportPath = s.reportPath ∧
      s'.schemaPath = s.schemaPath ∧
      ScanEnds m s' r before.tree ((scan m o s r).run before).1
        ((scan m o s r).run before).2.tree := by
  rw [scan, Action.run_reading_bind]
  split
  · next s' hsettings =>
    obtain ⟨hcontract, hreport, hschema⟩ := scanSettings_eq_ok hsettings
    refine ⟨s', hcontract, hreport, hschema, ?_⟩
    rw [Action.run_reading_bind]
    split
    · next outcome houtcome =>
      rw [Action.run_changing_bind]
      split
      · next hstored =>
        rw [Action.run_changing_bind]
        split
        · next hreported => split <;> exact .done _ houtcome hstored hreported
        · next e hreported => exact .unreported houtcome hstored hreported
      · next e hstored => exact .unstored houtcome hstored
    · next e _ => exact .refused e
  · next e _ =>
    exact ⟨{ s with contractPath := r.out.getD s.contractPath }, rfl, rfl, rfl, .refused e⟩

/-- A file holds a contract that the schema of a scan accepts. -/
def HoldsAccepted (s : Settings) (r : ScanRequest) (tree : Entry) (path : String)
    (content : Option ByteArray) : Prop :=
  ∃ schema c, schemaOf s r.schema tree = .ok schema ∧ schema.accept c = .ok () ∧
    content = some ((Codec.ofPath path).encode c).toUTF8

theorem fileAt?_of_stored {tree : Entry} (h : synthesize m s r tree = .ok outcome)
    (hstored : (stored s outcome tree).failure = none) :
    ∃ place, Path.place? s.contractPath = some place ∧
      HoldsAccepted s r tree s.contractPath ((stored s outcome tree).tree.fileAt? place) := by
  obtain ⟨schema, hschema, haccept⟩ := accept_of_synthesize h
  obtain ⟨place, hplace, hfile, -⟩ := Entry.fileAt?_of_writeText hstored
  exact ⟨place, hplace, schema, outcome.contract, hschema, haccept, hfile⟩

theorem fileAt?_of_reported {tree : Entry} {place : List String}
    (hapart : ∀ other, Path.place? s.reportPath = some other → ¬ other <+: place)
    (h : (reported m s outcome tree).failure = none) :
    (reported m s outcome tree).tree.fileAt? place = tree.fileAt? place := by
  obtain ⟨other, hother, -, hrest⟩ := Entry.fileAt?_of_writeText h
  exact hrest place (hapart other hother)

namespace ScanEnds

variable {tree : Entry} (h : ScanEnds m s r tree result after)

include h

/-- A scan that succeeds has stored its contract. -/
theorem holdsAccepted {status : ExitStatus}
    (hapart : ∀ place other, Path.place? s.contractPath = some place →
      Path.place? s.reportPath = some other → ¬ other <+: place)
    (hstatus : result = .ok status) :
    ∃ place, Path.place? s.contractPath = some place ∧
      HoldsAccepted s r tree s.contractPath (after.fileAt? place) := by
  cases h with
  | refused | unstored | unreported => cases hstatus
  | done _ houtcome hstored hreported =>
      obtain ⟨place, hplace, hholds⟩ := fileAt?_of_stored houtcome hstored
      exact ⟨place, hplace, fileAt?_of_reported (hapart place · hplace) hreported ▸ hholds⟩

/-- **The contract's file is as before or holds an accepted contract.** -/
theorem fileAt?_or {place : List String} (hplace : Path.place? s.contractPath = some place)
    (hapart : ∀ other, Path.place? s.reportPath = some other → ¬ other <+: place) :
    after.fileAt? place = tree.fileAt? place ∨
      HoldsAccepted s r tree s.contractPath (after.fileAt? place) := by
  cases h with
  | refused => exact .inl rfl
  | unstored _ hstored => exact .inl ((Entry.fileAt?_of_writeText_failure hstored).2 place)
  | unreported houtcome hstored hreported =>
      obtain ⟨place', hplace', hholds⟩ := fileAt?_of_stored houtcome hstored
      cases hplace.symm.trans hplace'
      exact .inr ((Entry.fileAt?_of_writeText_failure hreported).2 place ▸ hholds)
  | done _ houtcome hstored hreported =>
      obtain ⟨place', hplace', hholds⟩ := fileAt?_of_stored houtcome hstored
      cases hplace.symm.trans hplace'
      exact .inr (fileAt?_of_reported hapart hreported ▸ hholds)

/-- **Only writing fails after something has changed.** -/
theorem eq_of_error {e : Error} (he : result = .error e) (hfile : ∀ message, e ≠ .file message) :
    after = tree := by
  cases h with
  | refused => rfl
  | unstored _ hstored =>
      cases he
      obtain ⟨message, rfl⟩ := (Entry.fileAt?_of_writeText_failure hstored).1
      exact absurd rfl (hfile message)
  | unreported _ _ hreported =>
      cases he
      obtain ⟨message, rfl⟩ := (Entry.fileAt?_of_writeText_failure hreported).1
      exact absurd rfl (hfile message)
  | done => cases he

end ScanEnds

/-- A machine without anything around it. -/
def bareMachine : Machine where
  environment _ := none
  programs _ := none
  versionControl := .absent
  exchange _ _ := .late
  now := ⟨0, 0⟩
  runId := "run"
  seconds := 0
  coloured := false

/-- A directory with a schema that is no JSON. -/
def brokenSchemaTree : Entry := .folder [("schema.json", .file "\x7b".toUTF8)]

/-- A scan of the directory with this schema. -/
def brokenSchemaScan : ScanRequest := ⟨".", none, none, true, some "schema.json", none, .table⟩

theorem synthesize_brokenSchemaTree (s : Settings) :
    synthesize bareMachine s brokenSchemaScan brokenSchemaTree =
      .error (.schema "Invalid schema JSON: malformed text") := by
  have hread : brokenSchemaTree.readText "schema.json" = .ok "\x7b" := by decide
  have hjson : (Json.read "\x7b").toOption = none := by decide
  have hschema : schemaOf s (some "schema.json") brokenSchemaTree =
      .error (.schema "Invalid schema JSON: malformed text") := by
    show ContractSchema.load brokenSchemaTree "schema.json" = _
    rw [ContractSchema.load, hread]
    show ContractSchema.ofText "schema.json" "\x7b" = _
    rw [ContractSchema.ofText]
    cases hdocument : Json.read "\x7b" with
    | ok document => simp [hdocument, Except.toOption] at hjson
    | error e => rfl
  rw [synthesize, show brokenSchemaScan.schema = some "schema.json" from rfl, hschema]
  rfl

end StyleContract.CommandLine
