import StyleContract.Proofs.Schema.Meaning

/-!
# Proofs — Schema — Places

Where findings lie. **What is found below a place names a place below it** (`below_findings`):
checking a part of a value extends the path by the step to the part, and nothing takes a step back.

References are followed in place, so the same holds of a whole document (`Document.below_follow`).

A finding about an item of a list is among the findings of the list (`mem_eachItem`), so a part that
fails its schema is named by a finding of the whole.
-/

namespace StyleContract.Schema

/-- All findings lie at a place or further in. -/
def Below (path : List Json.Step) (fs : List Finding) : Prop := ∀ f ∈ fs, path <+: f.path

theorem below_nil (path : List Json.Step) : Below path [] := nofun

theorem below_append_iff {path : List Json.Step} {fs gs : List Finding} :
    Below path (fs ++ gs) ↔ Below path fs ∧ Below path gs := List.forall_mem_append

theorem below_singleton (path : List Json.Step) (v : Json) (cause : Cause) :
    Below path [⟨path, v, cause⟩] := List.forall_mem_singleton.2 (List.prefix_refl path)

theorem below_unless {path : List Json.Step} {c : Prop} [Decidable c] {fs : List Finding}
    (h : Below path fs) : Below path (if c then [] else fs) := by
  split
  · exact below_nil path
  · exact h

/-- What lies below a part lies below the whole. -/
theorem Below.of_step {path : List Json.Step} {step : Json.Step} {fs : List Finding}
    (h : Below (path ++ [step]) fs) : Below path fs :=
  fun f hf => (List.prefix_append path [step]).trans (h f hf)

/-! ### The demands that hold a single test -/

theorem below_onString {v : Json} {path : List Json.Step} {ok : String → Bool} {cause : Cause} :
    Below path (onString v path ok cause) := by
  cases v with
  | str s => exact below_unless (below_singleton _ _ _)
  | _ => exact below_nil path

theorem below_onItems {v : Json} {path : List Json.Step} {ok : List Json → Bool} {cause : Cause} :
    Below path (onItems v path ok cause) := by
  cases v with
  | arr vs => exact below_unless (below_singleton _ _ _)
  | _ => exact below_nil path

theorem below_onNumber {v : Json} {path : List Json.Step} {ok : Json.Number → Bool}
    {cause : Cause} : Below path (onNumber v path ok cause) := by
  cases v with
  | num n => exact below_unless (below_singleton _ _ _)
  | _ => exact below_nil path

theorem below_eachItem {check : List Json.Step → Json → List Finding} {path : List Json.Step}
    (h : ∀ path v, Below path (check path v)) (vs : List Json) :
    ∀ i, Below path (eachItem check path i vs) := by
  induction vs with
  | nil => exact fun _ => below_nil path
  | cons v vs ih => exact fun i => below_append_iff.2 ⟨(h _ v).of_step, ih (i + 1)⟩

/-- The findings about an item are findings about the list. -/
theorem mem_eachItem {check : List Json.Step → Json → List Finding} {path : List Json.Step}
    {vs : List Json} {k i : Nat} {v : Json} {f : Finding} (hv : vs[i]? = some v)
    (hf : f ∈ check (path ++ [.item (k + i)]) v) : f ∈ eachItem check path k vs := by
  induction vs generalizing k i with
  | nil => cases hv
  | cons w vs ih =>
      rw [eachItem, List.mem_append]
      cases i with
      | zero =>
          cases hv
          exact .inl hf
      | succ i =>
          rw [← Nat.add_assoc, Nat.add_right_comm] at hf
          exact .inr (ih hv hf)

/-! ### Whole schemas -/

section

variable {follow : String → List Json.Step → Json → List Finding}

/-- What one of several demands finds is found by all of them. -/
theorem mem_findingsOfAll {ss : List Schema} {s : Schema} {path : List Json.Step} {v : Json}
    {f : Finding} (hs : s ∈ ss) (hf : f ∈ findings follow s path v) :
    f ∈ findingsOfAll follow ss path v := by
  induction hs with
  | head => exact List.mem_append_left _ hf
  | tail _ _ ih => exact List.mem_append_right _ ih

mutual

/-- **What is found below a place names a place below it.** -/
theorem below_findings (hf : ∀ name path v, Below path (follow name path v)) :
    ∀ (s : Schema) (path : List Json.Step) (v : Json), Below path (findings follow s path v)
  | .always, path, _ => below_nil path
  | .never, path, v => below_singleton path v .forbidden
  | .reference name, path, v => hf name path v
  | .every demands, path, v => below_findingsOfAll hf demands path v
  | .type _, path, _ | .enum _, path, _ | .const _, path, _ =>
      below_unless (below_singleton path _ _)
  | .required names, path, v => by
      cases v with
      | obj members =>
          intro f hmem
          obtain ⟨n, -, rfl⟩ := List.mem_map.1 hmem
          exact List.prefix_refl path
      | _ => exact below_nil path
  | .properties known, path, v => below_findingsOfKnown hf known path (membersOf v)
  | .closed known, path, v => by
      refine below_append_iff.2 ⟨fun f hmem => ?_, below_unless (below_singleton path _ _)⟩
      obtain ⟨m, -, hm⟩ := List.mem_flatMap.1 hmem
      exact (below_findingsOfMember hf known m.1 _ m.2).of_step f hm
  | .memberless, path, v => by
      rw [findings]
      split
      · exact below_nil path
      · exact below_singleton path _ _
  | .others known other, path, v => by
      intro f hmem
      obtain ⟨m, -, hm⟩ := List.mem_flatMap.1 hmem
      split at hm
      · exact (below_findingsOfMember hf known m.1 _ m.2).of_step f hm
      · exact (below_findings hf other _ m.2).of_step f hm
  | .items item, path, v => below_eachItem (fun path v => below_findings hf item path v) _ 0
  | .tuple schemas, path, v => below_findingsOfTuple hf schemas path 0 (itemsOf v)
  | .minLength _, _, _ | .pattern _ _, _, _ | .dateTime, _, _ => below_onString
  | .minItems _, _, _ | .maxItems _, _, _ => below_onItems
  | .minimum _, _, _ | .maximum _, _, _ => below_onNumber
  | .oneOf schemas, path, v => by
      rw [findings]
      split
      · exact below_singleton path _ _
      · exact below_nil path
      · exact below_singleton path _ _

theorem below_findingsOfAll (hf : ∀ name path v, Below path (follow name path v)) :
    ∀ (ss : List Schema) (path : List Json.Step) (v : Json),
      Below path (findingsOfAll follow ss path v)
  | [], path, _ => below_nil path
  | s :: ss, path, v =>
      below_append_iff.2 ⟨below_findings hf s path v, below_findingsOfAll hf ss path v⟩

theorem below_findingsOfKnown (hf : ∀ name path v, Below path (follow name path v)) :
    ∀ (known : List (String × Schema)) (path : List Json.Step) (members : Json.Members),
      Below path (findingsOfKnown follow known path members)
  | [], path, _ => below_nil path
  | (name, s) :: rest, path, members => by
      refine below_append_iff.2 ⟨?_, below_findingsOfKnown hf rest path members⟩
      split
      · exact (below_findings hf s _ _).of_step
      · exact below_nil path

theorem below_findingsOfMember (hf : ∀ name path v, Below path (follow name path v)) :
    ∀ (known : List (String × Schema)) (key : String) (path : List Json.Step) (v : Json),
      Below path (findingsOfMember follow known key path v)
  | [], _, path, _ => below_nil path
  | (name, s) :: rest, key, path, v => by
      rw [findingsOfMember]
      split
      · exact below_findings hf s path v
      · exact below_findingsOfMember hf rest key path v

theorem below_findingsOfTuple (hf : ∀ name path v, Below path (follow name path v)) :
    ∀ (ss : List Schema) (path : List Json.Step) (i : Nat) (vs : List Json),
      Below path (findingsOfTuple follow ss path i vs)
  | [], path, _, _ => below_nil path
  | _ :: _, path, _, [] => below_nil path
  | s :: ss, path, i, v :: vs =>
      below_append_iff.2
        ⟨(below_findings hf s _ v).of_step, below_findingsOfTuple hf ss path (i + 1) vs⟩

end

end

/-! ### Documents of schemas -/

/-- What is found through a reference, when so many may be followed in a row. -/
def Document.follow (doc : Document) : Nat → String → List Json.Step → Json → List Finding
  | 0, _, _, _ => []
  | hops + 1, name, path, v =>
    match doc.target? name with
    | some s => doc.findingsWithin hops s path v
    | none => []

theorem Document.findingsWithin_eq (doc : Document) (hops : Nat) :
    doc.findingsWithin hops = findings (doc.follow hops) := by
  cases hops <;> rfl

theorem Document.follow_eq {doc : Document} {name : String} {s : Schema}
    (h : doc.target? name = some s) (hops : Nat) :
    doc.follow (hops + 1) name = doc.findingsWithin hops s := by
  funext path v
  rw [follow, h]

/-- **What is found through references** lies below the place where they were followed. -/
theorem Document.below_follow (doc : Document) (hops : Nat) :
    ∀ (name : String) (path : List Json.Step) (v : Json), Below path (doc.follow hops name path v) := by
  induction hops with
  | zero => exact fun _ path _ => below_nil path
  | succ hops ih =>
      intro name path v
      rw [follow]
      split
      · rw [findingsWithin_eq]
        exact below_findings ih _ path v
      · exact below_nil path

end StyleContract.Schema
