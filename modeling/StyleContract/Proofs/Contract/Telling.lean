import StyleContract.Contract.Document
import StyleContract.Proofs.Document.Faithful
import StyleContract.Proofs.Json.RoundTrip

/-!
# Proofs — Contract — Telling

A contract is read back from its value, in any kind of document. The members of a value tell the
fields of the record that it was made of (`Tells`, `tellsOr_optional`), so a faithful reading
gives lines, evidence, fixes, rules and repositories as they were, and at last
**the contract** (`Contract.read_of_says`): whatever is left out of the value is what it has by
default.

The value nests six deep, and its numbers are the lines of evidence, the confidences, and the counts of
metrics (`Contract.nests_toJson`).
-/

namespace StyleContract
open Document

variable {V : Type} {r : Reading V} {Says : V → Json → Prop}

/-! ### Members -/

section

variable {α : Type} {ms : Json.Members} {name : String} {read : V → Fit α}

/-- A member that is written only when there is a value tells whether there is one. -/
theorem tellsOr_optional (hr : Faithful r Says) {toJson : α → Json} {o : Option α}
    (hnone : o = none → name ∉ ms.map Prod.fst) (hsome : ∀ a, o = some a → (name, toJson a) ∈ ms)
    (hne : ∀ a, o = some a → toJson a ≠ .null)
    (hread : ∀ a, o = some a → ∀ w, Says w (toJson a) → read w = .ok a) :
    TellsOr Says ms name none (r.option read) o := by
  cases o with
  | none => exact .inl ⟨hnone rfl, rfl⟩
  | some a =>
      exact .inr ⟨toJson a, hsome a rfl, fun w hw =>
        hr.option_ok hw (hne a rfl) (hread a rfl w hw)⟩

end

/-! ### Parts of a rule -/

section

variable {v : V}

theorem Severity.read_of_says (hr : Faithful r Says) {s : Severity} (h : Says v s.toJson) :
    Severity.read r v = .ok s := by
  have hmem : s.name ∈ names := by cases s <;> decide
  have hname : ofName? s.name = some s := by cases s <;> rfl
  rw [Severity.read, hr.word h hmem]
  dsimp only [bind, Except.bind]
  rw [hname]

theorem Lines.read_of_says (hr : Faithful r Says) {l : Lines} (h : Says v l.toJson) :
    Lines.read r v = .ok l := by
  obtain ⟨a, b, ha, hb, hpair⟩ := hr.pair h
  have hfirst : r.natural32 a = .ok l.first := hr.natural32_ok ha
  have hlast : r.natural32 b = .ok l.last := hr.natural32_ok hb
  rw [Lines.read, hpair _ (by rw [hfirst]; rfl) (by rw [hlast]; rfl)]
  dsimp only [bind, Except.bind]
  rw [hfirst, hlast]

theorem Evidence.read_of_says (hr : Faithful r Says) {e : Evidence} (h : Says v e.toJson) :
    Evidence.read r v = .ok e := by
  obtain ⟨ms, hms⟩ : ∃ ms, e.toJson = .obj ms := ⟨_, rfl⟩
  have hnodup : (ms.map Prod.fst).Nodup := by cases hms; simp
  have hpath : Tells Says ms "path" r.text e.path :=
    ⟨.str e.path, by cases hms; simp, fun _ => hr.text⟩
  have hlines : Tells Says ms "lines" (Lines.read r) e.lines :=
    ⟨e.lines.toJson, by cases hms; simp, fun _ => Lines.read_of_says hr⟩
  have hhash : Tells Says ms "snippetHash" r.text e.snippetHash :=
    ⟨.str e.snippetHash, by cases hms; simp, fun _ => hr.text⟩
  have hfits : ∀ f ∈ [FieldRule.needed "path" r.text, .needed "lines" (Lines.read r),
      .needed "snippetHash" r.text], f.Fits Says ms := by
    simp only [List.forall_mem_cons]
    exact ⟨fits_needed hnodup hpath, fits_needed hnodup hlines, fits_needed hnodup hhash,
      List.forall_mem_nil _⟩
  obtain ⟨es, hes, hrecord⟩ := hr.record_ok (hms ▸ h) hnodup hfits
  rw [Evidence.read, hrecord]
  dsimp only [bind, Except.bind]
  rw [hes.required_eq hnodup hpath, hes.required_eq hnodup hlines, hes.required_eq hnodup hhash]

theorem Autofix.read_of_says (hr : Faithful r Says) {f : Autofix} (h : Says v f.toJson) :
    Autofix.read r v = .ok f := by
  obtain ⟨ms, hms⟩ : ∃ ms, f.toJson = .obj ms := ⟨_, rfl⟩
  have hnodup : (ms.map Prod.fst).Nodup := by cases hms; simp
  have hkind : Tells Says ms "kind" r.text f.kind :=
    ⟨.str f.kind, by cases hms; simp, fun _ => hr.text⟩
  have hdetails : Tells Says ms "details" r.text f.details :=
    ⟨.str f.details, by cases hms; simp, fun _ => hr.text⟩
  have hfits : ∀ g ∈ [FieldRule.needed "kind" r.text, .needed "details" r.text],
      g.Fits Says ms := by
    simp only [List.forall_mem_cons]
    exact ⟨fits_needed hnodup hkind, fits_needed hnodup hdetails, List.forall_mem_nil _⟩
  obtain ⟨es, hes, hrecord⟩ := hr.record_ok (hms ▸ h) hnodup hfits
  rw [Autofix.read, hrecord]
  dsimp only [bind, Except.bind]
  rw [hes.required_eq hnodup hkind, hes.required_eq hnodup hdetails]

theorem RepoIdentity.read_of_says (hr : Faithful r Says) {i : RepoIdentity}
    (h : Says v i.toJson) : RepoIdentity.read r v = .ok i := by
  obtain ⟨ms, hms⟩ : ∃ ms, i.toJson = .obj ms := ⟨_, rfl⟩
  have hnodup : (ms.map Prod.fst).Nodup := by
    cases hms
    cases i.remote <;> simp [optionalMember]
  have hremote : TellsOr Says ms "remote" none (r.option r.text) i.remote :=
    tellsOr_optional hr (fun hnone => by cases hms; simp [hnone, optionalMember])
      (fun a hsome => by cases hms; simp [hsome, optionalMember]) (fun _ _ => Json.noConfusion)
      fun _ _ _ => hr.text
  have hsha : Tells Says ms "sha" r.text i.sha := ⟨.str i.sha, by cases hms; simp, fun _ => hr.text⟩
  have hfits : ∀ f ∈ [FieldRule.free "remote" (r.option r.text), .needed "sha" r.text],
      f.Fits Says ms := by
    simp only [List.forall_mem_cons]
    exact ⟨fits_free hnodup hremote, fits_needed hnodup hsha, List.forall_mem_nil _⟩
  obtain ⟨es, hes, hrecord⟩ := hr.record_ok (hms ▸ h) hnodup hfits
  rw [RepoIdentity.read, hrecord]
  dsimp only [bind, Except.bind]
  rw [hes.defaulted_eq hnodup hremote, hes.required_eq hnodup hsha]

theorem Rule.read_of_says (hr : Faithful r Says) {q : Rule} (hfinite : q.confidence.isFinite = true)
    (h : Says v q.toJson) : Rule.read r v = .ok q := by
  obtain ⟨ms, hms⟩ : ∃ ms, q.toJson = .obj ms := ⟨_, rfl⟩
  have hnodup : (ms.map Prod.fst).Nodup := by
    cases hms
    cases q.rationale <;> cases q.autofix <;> cases q.relatedRules <;> simp [optionalMember]
  have hconfidence : Json.ofFloat q.confidence = .num (.float q.confidence) := if_pos hfinite
  have hid : Tells Says ms "id" r.text q.id := ⟨.str q.id, by cases hms; simp, fun _ => hr.text⟩
  have htitle : Tells Says ms "title" r.text q.title :=
    ⟨.str q.title, by cases hms; simp, fun _ => hr.text⟩
  have hstatement : Tells Says ms "statement" r.text q.statement :=
    ⟨.str q.statement, by cases hms; simp, fun _ => hr.text⟩
  have hrationale : TellsOr Says ms "rationale" none (r.option r.text) q.rationale := by
    refine tellsOr_optional hr (fun hnone => ?_) (fun a hsome => ?_)
      (fun _ _ => Json.noConfusion) fun _ _ _ => hr.text
    · cases hms
      cases q.autofix <;> cases q.relatedRules <;> simp [hnone, optionalMember]
    · cases hms
      simp [hsome, optionalMember]
  have hscope : Tells Says ms "scope" r.texts q.scope :=
    ⟨Json.ofStrings q.scope, by cases hms; simp, fun _ => hr.texts_ok⟩
  have hlanguages : Tells Says ms "languages" r.texts q.languages :=
    ⟨Json.ofStrings q.languages, by cases hms; simp, fun _ => hr.texts_ok⟩
  have hseverity : Tells Says ms "severity" (Severity.read r) q.severity :=
    ⟨q.severity.toJson, by cases hms; simp, fun _ => Severity.read_of_says hr⟩
  have hnumber : Tells Says ms "confidence" r.float q.confidence :=
    ⟨.num (.float q.confidence), by cases hms; simp [hconfidence], fun _ => hr.float⟩
  have hevidence : Tells Says ms "evidence" (r.list (Evidence.read r)) q.evidence :=
    ⟨.arr (q.evidence.map Evidence.toJson), by cases hms; simp, fun _ hw =>
      hr.list_ok hw fun _ _ _ => Evidence.read_of_says hr⟩
  have hautofix : TellsOr Says ms "autofix" none (r.option (Autofix.read r)) q.autofix := by
    refine tellsOr_optional hr (fun hnone => ?_) (fun a hsome => ?_)
      (fun _ _ => Json.noConfusion) fun _ _ _ => Autofix.read_of_says hr
    · cases hms
      cases q.rationale <;> cases q.relatedRules <;> simp [hnone, optionalMember]
    · cases hms
      simp [hsome, optionalMember]
  have hrelated : TellsOr Says ms "relatedRules" [] r.texts q.relatedRules := by
    by_cases hempty : q.relatedRules = []
    · refine .inl ⟨?_, hempty⟩
      cases hms
      cases q.rationale <;> cases q.autofix <;> simp [hempty, optionalMember]
    · refine .inr ⟨Json.ofStrings q.relatedRules, ?_, fun _ => hr.texts_ok⟩
      cases hms
      simp [hempty]
  have hfits : ∀ f ∈ Rule.fields r, f.Fits Says ms := by
    simp only [Rule.fields, List.forall_mem_cons]
    exact ⟨fits_needed hnodup hid, fits_needed hnodup htitle, fits_needed hnodup hstatement,
      fits_free hnodup hrationale, fits_needed hnodup hscope, fits_needed hnodup hlanguages,
      fits_needed hnodup hseverity, fits_needed hnodup hnumber, fits_needed hnodup hevidence,
      fits_free hnodup hautofix, fits_free hnodup hrelated, List.forall_mem_nil _⟩
  obtain ⟨es, hes, hrecord⟩ := hr.record_ok (hms ▸ h) hnodup hfits
  rw [Rule.read, hrecord]
  dsimp only [bind, Except.bind]
  simp only [hes.required_eq hnodup hid, hes.required_eq hnodup htitle,
    hes.required_eq hnodup hstatement, hes.defaulted_eq hnodup hrationale,
    hes.required_eq hnodup hscope, hes.required_eq hnodup hlanguages,
    hes.required_eq hnodup hseverity, hes.required_eq hnodup hnumber,
    hes.required_eq hnodup hevidence, hes.defaulted_eq hnodup hautofix,
    hes.defaulted_eq hnodup hrelated]

/-! ### Contracts -/

/-- Accounts that are counts: each value is a number of 64 bits. -/
def Metrics.Counts (m : Metrics) : Prop := ∀ e ∈ m.entries, ∃ n : Nat, n < 2 ^ 64 ∧ e.2 = Json.ofNat n

theorem Metrics.read_of_says (hr : Faithful r Says) {m : Metrics} (hcounts : m.Counts)
    (h : Says v m.toJson) : Metrics.read r v = .ok m := by
  obtain ⟨es, hes, hsays⟩ := hr.entries h
  have hmap : es.mapM (fun e => (r.value e.2).map fun j => (e.1, j)) = .ok (m.entries.map id) := by
    refine mapM_eq_ok_of_forall₂ hsays fun e he d hd => ?_
    obtain ⟨n, hn, hvalue⟩ := hcounts e he
    have hread : r.value d.2 = .ok e.2 := hvalue ▸ hr.value (hvalue ▸ hd.2) hn
    rw [hread, hd.1]
    rfl
  rw [Metrics.read, hes]
  dsimp only [bind, Except.bind]
  rw [hmap]
  dsimp only
  rw [List.map_id, Keyed.ofList_entries]

/-- **A contract is read back from its value.** -/
theorem Contract.read_of_says (hr : Faithful r Says) {c : Contract}
    (hmoment : Moment.ofText c.generatedAt.toText = .ok c.generatedAt)
    (hrules : ∀ q ∈ c.rules, q.confidence.isFinite = true)
    (hcounts : ∀ m, c.metrics = some m → m.Counts) (h : Says v c.toJson) :
    Contract.read r v = .ok c := by
  obtain ⟨ms, hms⟩ : ∃ ms, c.toJson = .obj ms := ⟨_, rfl⟩
  have hnodup : (ms.map Prod.fst).Nodup := by
    cases hms
    cases c.metrics <;> simp [optionalMember]
  have hversion : Tells Says ms "schemaVersion" r.text c.schemaVersion :=
    ⟨.str c.schemaVersion, by cases hms; simp, fun _ => hr.text⟩
  have hrepo : Tells Says ms "repo" (RepoIdentity.read r) c.repo :=
    ⟨c.repo.toJson, by cases hms; simp, fun _ => RepoIdentity.read_of_says hr⟩
  have hgenerated : Tells Says ms "generatedAt" r.moment c.generatedAt :=
    ⟨.str c.generatedAt.toText, by cases hms; simp, fun _ hw => hr.moment_ok hw hmoment⟩
  have hlist : Tells Says ms "rules" (r.list (Rule.read r)) c.rules :=
    ⟨.arr (c.rules.map Rule.toJson), by cases hms; simp, fun _ hw =>
      hr.list_ok hw fun q hq _ => Rule.read_of_says hr (hrules q hq)⟩
  have hmetrics : TellsOr Says ms "metrics" none (r.option (Metrics.read r)) c.metrics :=
    tellsOr_optional hr (fun hnone => by cases hms; simp [hnone, optionalMember])
      (fun a hsome => by cases hms; simp [hsome, optionalMember]) (fun _ _ => Json.noConfusion)
      fun m hm _ => Metrics.read_of_says hr (hcounts m hm)
  have hfits : ∀ f ∈ Contract.fields r, f.Fits Says ms := by
    simp only [Contract.fields, List.forall_mem_cons]
    exact ⟨fits_needed hnodup hversion, fits_needed hnodup hrepo, fits_needed hnodup hgenerated,
      fits_needed hnodup hlist, fits_free hnodup hmetrics, List.forall_mem_nil _⟩
  obtain ⟨es, hes, hrecord⟩ := hr.record_ok (hms ▸ h) hnodup hfits
  rw [Contract.read, hrecord]
  dsimp only [bind, Except.bind]
  simp only [hes.required_eq hnodup hversion, hes.required_eq hnodup hrepo,
    hes.required_eq hnodup hgenerated, hes.required_eq hnodup hlist,
    hes.defaulted_eq hnodup hmetrics]

end

/-! ### How deep values nest -/

section

open Json (Nests Number)

variable {P : Number → Prop} {depth : Nat}

theorem nests_ofStrings (texts : List String) : Nests P (depth + 1) (Json.ofStrings texts) := by
  refine .arr fun v hv => ?_
  obtain ⟨s, -, rfl⟩ := List.mem_map.1 hv
  exact .str s

theorem Evidence.nests_toJson (hnatural : ∀ n : Nat, n < 2 ^ 64 → P (.int n)) (e : Evidence) :
    Nests P (depth + 2) e.toJson := by
  have hline : ∀ l : UInt32, Nests P depth (Json.ofNat l.toNat) := fun l =>
    .num (hnatural _ (Nat.lt_trans l.toNat_lt (by decide)))
  refine .obj ?_
  simp only [List.forall_mem_cons]
  refine ⟨.str _, .arr ?_, .str _, List.forall_mem_nil _⟩
  simp only [List.forall_mem_cons]
  exact ⟨hline _, hline _, List.forall_mem_nil _⟩

theorem nests_optionalMember {α : Type} {name : String} {toJson : α → Json} {o : Option α}
    (h : ∀ a, o = some a → Nests P depth (toJson a)) :
    ∀ m ∈ optionalMember name toJson o, Nests P depth m.2 := by
  cases o with
  | none => exact List.forall_mem_nil _
  | some a => exact List.forall_mem_singleton.2 (h a rfl)

theorem Rule.nests_toJson (hnatural : ∀ n : Nat, n < 2 ^ 64 → P (.int n)) {r : Rule}
    (hconfidence : r.confidence.isFinite = true → P (.float r.confidence)) :
    Nests P (depth + 4) r.toJson := by
  have hfloat : Nests P (depth + 3) (Json.ofFloat r.confidence) := by
    unfold Json.ofFloat
    split
    · next hfinite => exact .num (hconfidence hfinite)
    · exact .null
  have hevidence : Nests P (depth + 3) (.arr (r.evidence.map Evidence.toJson)) := by
    refine .arr fun v hv => ?_
    obtain ⟨e, -, rfl⟩ := List.mem_map.1 hv
    exact e.nests_toJson hnatural
  have hrelated : ∀ m ∈ (if r.relatedRules.isEmpty then [] else
      [("relatedRules", Json.ofStrings r.relatedRules)]), Nests P (depth + 3) m.2 := by
    split
    · exact List.forall_mem_nil _
    · exact List.forall_mem_singleton.2 (nests_ofStrings _)
  have hautofix : ∀ f : Autofix, Nests P (depth + 3) f.toJson := by
    intro f
    refine .obj ?_
    simp only [List.forall_mem_cons]
    exact ⟨.str _, .str _, List.forall_mem_nil _⟩
  refine .obj ?_
  simp only [List.forall_mem_append, List.forall_mem_cons]
  exact ⟨⟨⟨⟨⟨.str _, .str _, .str _, List.forall_mem_nil _⟩,
    nests_optionalMember fun _ _ => .str _⟩, nests_ofStrings _, nests_ofStrings _, .str _, hfloat,
    hevidence, List.forall_mem_nil _⟩, nests_optionalMember fun f _ => hautofix f⟩, hrelated⟩

/-- A contract nests six deep. -/
theorem Contract.nests_toJson (hnatural : ∀ n : Nat, n < 2 ^ 64 → P (.int n)) {c : Contract}
    (hconfidence : ∀ r ∈ c.rules, r.confidence.isFinite = true → P (.float r.confidence))
    (hcounts : ∀ m, c.metrics = some m → m.Counts) : Nests P (depth + 6) c.toJson := by
  have hrepo : Nests P (depth + 5) c.repo.toJson := by
    refine .obj ?_
    simp only [List.forall_mem_append, List.forall_mem_cons]
    exact ⟨nests_optionalMember fun _ _ => .str _, .str _, List.forall_mem_nil _⟩
  have hrules : Nests P (depth + 5) (.arr (c.rules.map Rule.toJson)) := by
    refine .arr fun v hv => ?_
    obtain ⟨r, hr, rfl⟩ := List.mem_map.1 hv
    exact Rule.nests_toJson hnatural (hconfidence r hr)
  have hmetrics : ∀ m, c.metrics = some m → Nests P (depth + 5) m.toJson := by
    intro m hm
    refine .obj fun e he => ?_
    obtain ⟨n, hn, hvalue⟩ := hcounts m hm e he
    rw [hvalue]
    exact .num (hnatural n hn)
  refine .obj ?_
  simp only [List.forall_mem_append, List.forall_mem_cons]
  exact ⟨⟨.str _, hrepo, .str _, hrules, List.forall_mem_nil _⟩, nests_optionalMember hmetrics⟩

end

end StyleContract
