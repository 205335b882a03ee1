import StyleContract.Schema.Check

/-!
# Proofs — Schema — Meaning

What a schema says of a value, apart from how a value is checked. `Meets target s v` reads the
demands of `s` as a statement about `v`, where `target` says what the references mean. Nothing in
it depends on the place of `v` in a document, nor on the order in which findings are reported.

**The check is exact** (`findings_eq_nil_iff`): nothing is found in exactly the values that meet
the schema.

For a document of schemas, a reference means what the schema that it names demands, as far as
references are followed (`Document.MeetsWithin`); `Document.check_eq_nil_iff` carries the
statement over.
-/

namespace StyleContract.Schema

section

variable (target : String → Json → Prop)

mutual

/-- What a schema says of a value; `target` is the meaning of the references. -/
def Meets : Schema → Json → Prop
  | .always, _ => True
  | .never, _ => False
  | .reference name, v => target name v
  | .every demands, v => MeetsAll demands v
  | .type kinds, v => ∃ k ∈ kinds, v.hasKind k
  | .enum options, v => ∃ o ∈ options, v.same o
  | .const value, v => value.same v
  | .required names, v =>
    ∀ members, v = .obj members → ∀ n ∈ names, (Json.Members.get? n members).isSome
  | .properties known, v => MeetsKnown known (membersOf v)
  | .closed known, v => ∀ m ∈ membersOf v, MeetsMember known m.1 m.2
  | .memberless, v => membersOf v = []
  | .others known other, v =>
    ∀ m ∈ membersOf v,
      if known.any (·.1 == m.1) then MeetsMember known m.1 m.2 else Meets other m.2
  | .items item, v => ∀ w ∈ itemsOf v, Meets item w
  | .tuple schemas, v => MeetsTuple schemas (itemsOf v)
  | .minLength least, v => ∀ s, v = .str s → least ≤ s.length
  | .pattern _ p, v => ∀ s, v = .str s → p.occursIn s
  | .minItems least, v => ∀ vs, v = .arr vs → least ≤ vs.length
  | .maxItems most, v => ∀ vs, v = .arr vs → vs.length ≤ most
  | .minimum limit, v => ∀ n, v = .num n → n.lt limit = false
  | .maximum limit, v => ∀ n, v = .num n → limit.lt n = false
  | .dateTime, v => ∀ s, v = .str s → Moment.isStrictText s
  | .oneOf schemas, v => MeetsOne schemas v

def MeetsAll : List Schema → Json → Prop
  | [], _ => True
  | s :: ss, v => Meets s v ∧ MeetsAll ss v

/-- Of the members that a schema knows, those that are there meet their schemas. -/
def MeetsKnown : List (String × Schema) → Json.Members → Prop
  | [], _ => True
  | (name, s) :: rest, members =>
    (∀ v, Json.Members.get? name members = some v → Meets s v) ∧ MeetsKnown rest members

/-- A member's name is known, and its value meets the first schema of that name. -/
def MeetsMember : List (String × Schema) → String → Json → Prop
  | [], _, _ => False
  | (name, s) :: rest, key, v => if name = key then Meets s v else MeetsMember rest key v

def MeetsTuple : List Schema → List Json → Prop
  | s :: ss, v :: vs => Meets s v ∧ MeetsTuple ss vs
  | _, _ => True

/-- Exactly one of the schemas is met. -/
def MeetsOne : List Schema → Json → Prop
  | [], _ => False
  | s :: ss, v => (Meets s v ∧ MeetsNone ss v) ∨ (¬ Meets s v ∧ MeetsOne ss v)

def MeetsNone : List Schema → Json → Prop
  | [], _ => True
  | s :: ss, v => ¬ Meets s v ∧ MeetsNone ss v

end

end

/-! ### The demands that hold a single test -/

theorem onString_eq_nil_iff {v : Json} {path : List Json.Step} {ok : String → Bool}
    {cause : Cause} : onString v path ok cause = [] ↔ ∀ s, v = .str s → ok s := by
  cases v with
  | str s => by_cases h : ok s <;> simp [onString, h]
  | _ => simp [onString]

theorem onItems_eq_nil_iff {v : Json} {path : List Json.Step} {ok : List Json → Bool}
    {cause : Cause} : onItems v path ok cause = [] ↔ ∀ vs, v = .arr vs → ok vs := by
  cases v with
  | arr vs => by_cases h : ok vs <;> simp [onItems, h]
  | _ => simp [onItems]

theorem onNumber_eq_nil_iff {v : Json} {path : List Json.Step} {ok : Json.Number → Bool}
    {cause : Cause} : onNumber v path ok cause = [] ↔ ∀ n, v = .num n → ok n := by
  cases v with
  | num n => by_cases h : ok n <;> simp [onNumber, h]
  | _ => simp [onNumber]

/-- A finding that is there unless a condition holds. -/
theorem unless_eq_nil_iff {c : Prop} [Decidable c] {f : Finding} :
    (if c then [] else [f]) = [] ↔ c := by
  by_cases h : c <;> simp [h]

theorem eachItem_eq_nil_iff {check : List Json.Step → Json → List Finding} {ok : Json → Prop}
    (h : ∀ path v, check path v = [] ↔ ok v) (path : List Json.Step) (vs : List Json) :
    ∀ i, eachItem check path i vs = [] ↔ ∀ w ∈ vs, ok w := by
  induction vs with
  | nil => intro i; simp [eachItem]
  | cons v vs ih =>
      intro i
      rw [eachItem, List.append_eq_nil_iff, h, ih, List.forall_mem_cons]

/-! ### Values of one kind -/

theorem hasKind_null_iff {v : Json} : v.hasKind .null ↔ v = .null := by
  constructor
  · intro h
    cases v with
    | null => rfl
    | _ => cases h
  · rintro rfl
    rfl

theorem hasKind_number_iff {v : Json} : v.hasKind .number ↔ ∃ n, v = .num n := by
  constructor
  · intro h
    cases v with
    | num n => exact ⟨n, rfl⟩
    | _ => cases h
  · rintro ⟨n, rfl⟩
    rfl

theorem hasKind_integer_iff {v : Json} : v.hasKind .integer ↔ ∃ n, v = .num n ∧ n.isWhole := by
  constructor
  · intro h
    cases v with
    | num n => exact ⟨n, rfl, h⟩
    | _ => cases h
  · rintro ⟨n, rfl, h⟩
    exact h

theorem hasKind_string_iff {v : Json} : v.hasKind .string ↔ ∃ s, v = .str s := by
  constructor
  · intro h
    cases v with
    | str s => exact ⟨s, rfl⟩
    | _ => cases h
  · rintro ⟨s, rfl⟩
    rfl

theorem hasKind_array_iff {v : Json} : v.hasKind .array ↔ ∃ vs, v = .arr vs := by
  constructor
  · intro h
    cases v with
    | arr vs => exact ⟨vs, rfl⟩
    | _ => cases h
  · rintro ⟨vs, rfl⟩
    rfl

theorem hasKind_object_iff {v : Json} : v.hasKind .object ↔ ∃ members, v = .obj members := by
  constructor
  · intro h
    cases v with
    | obj members => exact ⟨members, rfl⟩
    | _ => cases h
  · rintro ⟨members, rfl⟩
    rfl

/-! ### The check is exact -/

section

variable {target : String → Json → Prop} {follow : String → List Json.Step → Json → List Finding}

theorem meetsMember_of_known {known : List (String × Schema)} {key : String} {v : Json}
    (h : MeetsMember target known key v) : known.any (·.1 == key) = true := by
  induction known with
  | nil => exact h.elim
  | cons e rest ih =>
      by_cases he : e.1 = key
      · simp [he]
      · rw [MeetsMember, if_neg he] at h
        simp [ih h]

/-- A closed object has no findings when its members have none and all of them are known. -/
theorem closed_eq_nil_iff {known : List (String × Schema)} {path : List Json.Step} {v : Json} :
    findings follow (.closed known) path v = [] ↔
      ∀ m ∈ membersOf v, findingsOfMember follow known m.1 (path ++ [.member m.1]) m.2 = [] ∧
        known.any (·.1 == m.1) = true := by
  rw [findings, List.append_eq_nil_iff, List.flatMap_eq_nil_iff, unless_eq_nil_iff,
    List.isEmpty_iff, List.filter_eq_nil_iff]
  simp only [Bool.not_eq_true', Bool.not_eq_false, ← forall_and]

mutual

/-- **The check is exact.** With references followed as they are meant, a value has no findings
if and only if it meets the schema, wherever it stands. -/
theorem findings_eq_nil_iff (hf : ∀ name path v, follow name path v = [] ↔ target name v) :
    ∀ (s : Schema) (path : List Json.Step) (v : Json),
      findings follow s path v = [] ↔ Meets target s v
  | .always, _, _ => by simp [findings, Meets]
  | .never, _, _ => by simp [findings, Meets]
  | .reference name, path, v => by rw [findings, Meets, hf]
  | .every demands, path, v => by rw [findings, Meets, findingsOfAll_eq_nil_iff hf]
  | .type kinds, path, v => by rw [findings, Meets, unless_eq_nil_iff, List.any_eq_true]
  | .enum options, path, v => by rw [findings, Meets, unless_eq_nil_iff, List.any_eq_true]
  | .const value, path, v => by rw [findings, Meets, unless_eq_nil_iff]
  | .required names, path, v => by
      cases v with
      | obj members => simp [findings, Meets, List.filter_eq_nil_iff, Option.isSome_iff_ne_none]
      | _ => simp [findings, Meets]
  | .properties known, path, v => by rw [findings, Meets, findingsOfKnown_eq_nil_iff hf]
  | .closed known, path, v => by
      rw [closed_eq_nil_iff, Meets]
      refine forall₂_congr fun m _ => ⟨fun h => ?_, fun h => ?_⟩
      · exact (findingsOfMember_eq_nil_iff hf known m.1 _ m.2 h.2).1 h.1
      · -- a member whose schema is met is a known one, so it gives no finding of its own
        have hk := meetsMember_of_known h
        exact ⟨(findingsOfMember_eq_nil_iff hf known m.1 _ m.2 hk).2 h, hk⟩
  | .memberless, path, v => by
      rw [findings, Meets]
      cases membersOf v <;> simp
  | .others known other, path, v => by
      rw [findings, Meets, List.flatMap_eq_nil_iff]
      refine forall₂_congr fun m _ => ?_
      by_cases hk : known.any (·.1 == m.1) = true
      · rw [if_pos hk, if_pos hk, findingsOfMember_eq_nil_iff hf known m.1 _ m.2 hk]
      · rw [if_neg hk, if_neg hk, findings_eq_nil_iff hf other]
  | .items item, path, v => by
      rw [findings, Meets, eachItem_eq_nil_iff fun path v => findings_eq_nil_iff hf item path v]
  | .tuple schemas, path, v => by rw [findings, Meets, findingsOfTuple_eq_nil_iff hf]
  | .minLength least, path, v => by simp [findings, Meets, onString_eq_nil_iff]
  | .pattern source p, path, v => by simp [findings, Meets, onString_eq_nil_iff]
  | .minItems least, path, v => by simp [findings, Meets, onItems_eq_nil_iff]
  | .maxItems most, path, v => by simp [findings, Meets, onItems_eq_nil_iff]
  | .minimum limit, path, v => by simp [findings, Meets, onNumber_eq_nil_iff]
  | .maximum limit, path, v => by simp [findings, Meets, onNumber_eq_nil_iff]
  | .dateTime, path, v => by simp [findings, Meets, onString_eq_nil_iff]
  | .oneOf schemas, path, v => by
      rw [findings, Meets, ← countValid_eq_one_iff hf schemas path v]
      rcases countValid follow schemas path v with _ | _ | n <;> simp

theorem findingsOfAll_eq_nil_iff (hf : ∀ name path v, follow name path v = [] ↔ target name v) :
    ∀ (ss : List Schema) (path : List Json.Step) (v : Json),
      findingsOfAll follow ss path v = [] ↔ MeetsAll target ss v
  | [], _, _ => by simp [findingsOfAll, MeetsAll]
  | s :: ss, path, v => by
      rw [findingsOfAll, MeetsAll, List.append_eq_nil_iff, findings_eq_nil_iff hf s,
        findingsOfAll_eq_nil_iff hf ss]

theorem findingsOfKnown_eq_nil_iff
    (hf : ∀ name path v, follow name path v = [] ↔ target name v) :
    ∀ (known : List (String × Schema)) (path : List Json.Step) (members : Json.Members),
      findingsOfKnown follow known path members = [] ↔ MeetsKnown target known members
  | [], _, _ => by simp [findingsOfKnown, MeetsKnown]
  | (name, s) :: rest, path, members => by
      rw [findingsOfKnown, MeetsKnown, List.append_eq_nil_iff, findingsOfKnown_eq_nil_iff hf rest]
      cases Json.Members.get? name members with
      | none => simp
      | some v => simp [findings_eq_nil_iff hf s]

theorem findingsOfMember_eq_nil_iff
    (hf : ∀ name path v, follow name path v = [] ↔ target name v) :
    ∀ (known : List (String × Schema)) (key : String) (path : List Json.Step) (v : Json),
      known.any (·.1 == key) = true →
        (findingsOfMember follow known key path v = [] ↔ MeetsMember target known key v)
  | [], _, _, _, hk => by simp at hk
  | (name, s) :: rest, key, path, v, hk => by
      rw [findingsOfMember, MeetsMember]
      by_cases h : name = key
      · rw [if_pos h, if_pos h, findings_eq_nil_iff hf s]
      · have hk' : rest.any (·.1 == key) = true := by simpa [h] using hk
        rw [if_neg h, if_neg h, findingsOfMember_eq_nil_iff hf rest key path v hk']

theorem findingsOfTuple_eq_nil_iff
    (hf : ∀ name path v, follow name path v = [] ↔ target name v) :
    ∀ (ss : List Schema) (path : List Json.Step) (i : Nat) (vs : List Json),
      findingsOfTuple follow ss path i vs = [] ↔ MeetsTuple target ss vs
  | [], _, _, _ => by simp [findingsOfTuple, MeetsTuple]
  | _ :: _, _, _, [] => by simp [findingsOfTuple, MeetsTuple]
  | s :: ss, path, i, v :: vs => by
      rw [findingsOfTuple, MeetsTuple, List.append_eq_nil_iff, findings_eq_nil_iff hf s,
        findingsOfTuple_eq_nil_iff hf ss]

theorem countValid_eq_one_iff (hf : ∀ name path v, follow name path v = [] ↔ target name v) :
    ∀ (ss : List Schema) (path : List Json.Step) (v : Json),
      countValid follow ss path v = 1 ↔ MeetsOne target ss v
  | [], _, _ => by simp [countValid, MeetsOne]
  | s :: ss, path, v => by
      have hs := findings_eq_nil_iff hf s path v
      -- either this schema is met and none of the others, or it is not and one of the others is
      have hone := countValid_eq_one_iff hf ss path v
      have hnone := countValid_eq_zero_iff hf ss path v
      rw [countValid, MeetsOne, ← hs, ← hone, ← hnone]
      by_cases h : findings follow s path v = [] <;> simp [h]

theorem countValid_eq_zero_iff (hf : ∀ name path v, follow name path v = [] ↔ target name v) :
    ∀ (ss : List Schema) (path : List Json.Step) (v : Json),
      countValid follow ss path v = 0 ↔ MeetsNone target ss v
  | [], _, _ => by simp [countValid, MeetsNone]
  | s :: ss, path, v => by
      have hs := findings_eq_nil_iff hf s path v
      have hnone := countValid_eq_zero_iff hf ss path v
      rw [countValid, MeetsNone, ← hs, ← hnone]
      by_cases h : findings follow s path v = [] <;> simp [h]

end

end

/-! ### Documents of schemas -/

/-- What a schema of a document says of a value, when `hops` references are followed in a row and
what lies beyond them says nothing. -/
def Document.MeetsWithin (doc : Document) : Nat → Schema → Json → Prop
  | 0 => Meets fun _ _ => True
  | hops + 1 => Meets fun name v => ∀ s, doc.target? name = some s → doc.MeetsWithin hops s v

theorem Document.findingsWithin_eq_nil_iff (doc : Document) (hops : Nat) :
    ∀ (s : Schema) (path : List Json.Step) (v : Json),
      doc.findingsWithin hops s path v = [] ↔ doc.MeetsWithin hops s v := by
  -- the check of one schema is known for any way to follow references; one more hop is one such way
  induction hops with
  | zero => exact findings_eq_nil_iff fun _ _ _ => by simp
  | succ hops ih =>
      refine findings_eq_nil_iff fun name path v => ?_
      cases h : doc.target? name with
      | none => simp
      | some s => simp [ih]

/-- **The check of a whole document.** -/
theorem Document.check_eq_nil_iff (doc : Document) (v : Json) :
    doc.check v = [] ↔
      doc.MeetsWithin ((depth v + 1) * (doc.targets.length + 1)) doc.root v :=
  doc.findingsWithin_eq_nil_iff _ doc.root [] v

theorem Document.accepts_iff (doc : Document) (v : Json) :
    doc.accepts v = true ↔
      doc.MeetsWithin ((depth v + 1) * (doc.targets.length + 1)) doc.root v := by
  rw [accepts, List.isEmpty_iff, check_eq_nil_iff]

/-- References are followed alike whatever the root of the document is. -/
theorem Document.meetsWithin_withRoot (doc : Document) (root : Schema) (hops : Nat) :
    MeetsWithin { doc with root := root } hops = doc.MeetsWithin hops := by
  induction hops with
  | zero => rfl
  | succ hops ih =>
      rw [MeetsWithin, MeetsWithin, ih]
      rfl

theorem Document.accepts_withRoot_iff (doc : Document) (root : Schema) (v : Json) :
    accepts { doc with root := root } v = true ↔
      doc.MeetsWithin ((depth v + 1) * (doc.targets.length + 1)) root v := by
  rw [accepts_iff, meetsWithin_withRoot]

end StyleContract.Schema
