import StyleContract.Document.JsonReading

/-!
# Proofs — Document — JSON

What a successful reading says about the JSON that was read. A leaf that was read as a text is that
text, one that was read as a float is a number, and so on; a list was read item by item
(`exists_of_mem_mapM`, `map_eq_of_mapM`).

**A record is an object or a list** (`lookup?_of_record`): what counts for a field is the member of
its name or the item at its place. In an object no field occurs twice, so **each member of a known
name is what was read for it** (`read_of_required`, `read_of_defaulted`).
-/

namespace StyleContract.Document

theorem bind_eq_ok_iff {ε α β : Type} {x : Except ε α} {f : α → Except ε β} {b : β} :
    (x >>= f) = .ok b ↔ ∃ a, x = .ok a ∧ f a = .ok b := by
  cases x <;> simp [bind, Except.bind]

theorem map_eq_ok_iff {ε α β : Type} {x : Except ε α} {f : α → β} {b : β} :
    x.map f = .ok b ↔ ∃ a, x = .ok a ∧ f a = b := by
  cases x <;> simp [Except.map]

theorem toOption_eq_some_iff {ε α : Type} {x : Except ε α} {a : α} :
    x.toOption = some a ↔ x = .ok a := by
  cases x <;> simp [Except.toOption]

/-! ### Lists -/

section

variable {ε α β : Type} {read : α → Except ε β} {vs : List α} {xs : List β}

theorem mapM_cons_eq_ok {v : α} (h : (v :: vs).mapM read = .ok xs) :
    ∃ x rest, read v = .ok x ∧ vs.mapM read = .ok rest ∧ xs = x :: rest := by
  rw [List.mapM_cons, bind_eq_ok_iff] at h
  obtain ⟨x, hx, h⟩ := h
  obtain ⟨rest, hrest, h⟩ := bind_eq_ok_iff.1 h
  cases h
  exact ⟨x, rest, hx, hrest, rfl⟩

theorem exists_of_mem_mapM (h : vs.mapM read = .ok xs) {v : α} (hv : v ∈ vs) :
    ∃ x ∈ xs, read v = .ok x := by
  induction vs generalizing xs with
  | nil => cases hv
  | cons w ws ih =>
      obtain ⟨x, rest, hx, hrest, rfl⟩ := mapM_cons_eq_ok h
      rcases List.mem_cons.1 hv with rfl | hv
      · exact ⟨x, List.mem_cons_self, hx⟩
      · obtain ⟨y, hy, hread⟩ := ih hrest hv
        exact ⟨y, List.mem_cons_of_mem _ hy, hread⟩

theorem exists_read_of_mem_mapM (h : vs.mapM read = .ok xs) {x : β} (hx : x ∈ xs) :
    ∃ v ∈ vs, read v = .ok x := by
  induction vs generalizing xs with
  | nil =>
      cases h
      cases hx
  | cons v vs ih =>
      obtain ⟨y, rest, hy, hrest, rfl⟩ := mapM_cons_eq_ok h
      rcases List.mem_cons.1 hx with rfl | hx
      · exact ⟨v, List.mem_cons_self, hy⟩
      · obtain ⟨w, hw, hread⟩ := ih hrest hx
        exact ⟨w, List.mem_cons_of_mem _ hw, hread⟩

/-- What can be told of each item from what was read can be told of all of them. -/
theorem map_eq_of_mapM {γ : Type} {f : α → γ} {g : β → γ} (h : vs.mapM read = .ok xs)
    (heq : ∀ v x, read v = .ok x → f v = g x) : vs.map f = xs.map g := by
  induction vs generalizing xs with
  | nil =>
      cases h
      rfl
  | cons v vs ih =>
      obtain ⟨x, rest, hx, hrest, rfl⟩ := mapM_cons_eq_ok h
      rw [List.map_cons, List.map_cons, heq v x hx, ih hrest]

end

/-! ### Leaves -/

section

variable {α : Type} {v : Json}

theorem text_eq_ok_iff {s : String} : json.text v = .ok s ↔ v = .str s := by
  cases v <;> simp [json, unexpected]

theorem list_eq_ok {read : Json → Fit α} {xs : List α} (h : json.list read v = .ok xs) :
    ∃ vs, v = .arr vs ∧ vs.mapM read = .ok xs := by
  obtain ⟨vs, hvs, hmap⟩ := bind_eq_ok_iff.1 h
  cases v with
  | arr items =>
      cases hvs
      exact ⟨vs, rfl, hmap⟩
  | _ => cases hvs

theorem texts_eq_ok {items : List String} (h : json.texts v = .ok items) :
    v = Json.ofStrings items := by
  obtain ⟨vs, rfl, hmap⟩ := list_eq_ok h
  have heq : vs.map id = items.map Json.str :=
    map_eq_of_mapM hmap fun _ _ hread => text_eq_ok_iff.1 hread
  rw [List.map_id] at heq
  rw [heq, Json.ofStrings]

/-- What may be left out is null, or read as if it had to be there. -/
theorem option_eq_ok {read : Json → Fit α} {o : Option α} (h : json.option read v = .ok o) :
    v = .null ∧ o = none ∨ ∃ a, read v = .ok a ∧ o = some a := by
  by_cases hnull : v = .null
  · subst hnull
    cases h
    exact .inl ⟨rfl, rfl⟩
  · have hnot : json.isNull v = .ok false := congrArg Except.ok (beq_false_of_ne hnull)
    rw [Reading.option, hnot] at h
    obtain ⟨a, ha, rfl⟩ := map_eq_ok_iff.1 h
    exact .inr ⟨a, ha, rfl⟩

theorem float_eq_ok {x : Float} (h : json.float v = .ok x) : ∃ n, v = .num n ∧ x = n.toFloat := by
  cases v with
  | num n =>
      cases h
      exact ⟨n, rfl, rfl⟩
  | _ => cases h

theorem natural32_eq_ok {n : UInt32} (h : json.natural32 v = .ok n) :
    ∃ k : Nat, v = .num (.int k) := by
  obtain ⟨k, hk, -⟩ := map_eq_ok_iff.1 h
  have hint : jsonInt "u32" 0 (twoTo 32 - 1) v = .ok k := hk
  unfold jsonInt at hint
  split at hint
  · next n =>
    split at hint
    · next hbounds => exact ⟨n.toNat, by rw [Int.toNat_of_nonneg hbounds.1]⟩
    · cases hint
  · cases hint

theorem moment_eq_ok {m : Moment} (h : json.moment v = .ok m) : ∃ s, v = .str s := by
  obtain ⟨s, hs, -⟩ := bind_eq_ok_iff.1 h
  exact ⟨s, text_eq_ok_iff.1 hs⟩

theorem entries_eq_ok {entries : List (String × Json)} (h : json.entries v = .ok entries) :
    v = .obj entries := by
  cases v with
  | obj members =>
      cases h
      rfl
  | _ => cases h

end

/-! ### Records -/

section

variable {struct : String} {fields : List (FieldRule Json)}

/-- What a value holds for a field of a record, by its name or by its place among the names. -/
def fieldOf? (names : List String) (name : String) : Json → Option Json
  | .obj members => lookup? name members
  | .arr items => lookup? name (names.zip items)
  | _ => none

theorem named_eq_ok {members entries : List (String × Json)}
    (h : named fields members = .ok entries) :
    entries = members ∧ checkEntries fields [] members = .ok () := by
  obtain ⟨⟨⟩, hentries, h⟩ := bind_eq_ok_iff.1 h
  obtain ⟨⟨⟩, -, h⟩ := bind_eq_ok_iff.1 h
  cases h
  exact ⟨rfl, hentries⟩

theorem placed_eq_ok {total index : Nat} {items : List Json} {entries : List (String × Json)}
    (h : placed struct total index fields items = .ok entries) :
    entries = (fields.map (·.name)).zip items := by
  -- fields and items are gone through together; fields that are left over are trailing ones
  induction fields generalizing items index entries with
  | nil =>
      cases items with
      | nil =>
          cases h
          rfl
      | cons v vs => cases h
  | cons f fs ih =>
      cases items with
      | nil =>
          rw [placed] at h
          split at h
          · rw [ih h, List.zip_nil_right, List.zip_nil_right]
          · cases h
      | cons v vs =>
          obtain ⟨⟨⟩, -, h⟩ := bind_eq_ok_iff.1 h
          obtain ⟨rest, hrest, h⟩ := bind_eq_ok_iff.1 h
          cases h
          rw [ih hrest, List.map_cons, List.zip_cons_cons]

/-- **The fields of a record** are those of an object or of a list. -/
theorem lookup?_of_record {v : Json} {entries : List (String × Json)}
    (h : json.record struct fields v = .ok entries) (name : String) :
    lookup? name entries = fieldOf? (fields.map (·.name)) name v := by
  cases v with
  | obj members => rw [(named_eq_ok h).1, fieldOf?]
  | arr items => rw [placed_eq_ok h, fieldOf?]
  | _ => cases h

/-- No known name occurs twice, so what is found for it is the value of each of its members. -/
theorem lookup?_of_checkEntries {seen : List String} {members : List (String × Json)}
    (h : checkEntries fields seen members = .ok ()) {name : String} {v : Json}
    (hknown : name ∈ fields.map (·.name)) (hmem : (name, v) ∈ members) :
    name ∉ seen ∧ lookup? name members = some v := by
  induction members generalizing seen with
  | nil => cases hmem
  | cons m rest ih =>
      obtain ⟨other, w⟩ := m
      rw [checkEntries] at h
      split at h
      · next hfind =>
        -- an unknown name is passed over
        have hne : other ≠ name := by
          rintro rfl
          obtain ⟨f, hf, hname⟩ := List.mem_map.1 hknown
          exact absurd (List.find?_eq_none.1 hfind f hf) (by simp [hname])
        have hrest : (name, v) ∈ rest := by
          simpa [Ne.symm hne] using hmem
        obtain ⟨hseen, hlookup⟩ := ih h hrest
        exact ⟨hseen, by simpa [lookup?, hne] using hlookup⟩
      · next f hfind =>
        split at h
        · cases h
        · next hseen =>
          obtain ⟨⟨⟩, -, h⟩ := bind_eq_ok_iff.1 h
          by_cases hname : other = name
          · subst hname
            refine ⟨by simpa using hseen, ?_⟩
            rcases List.mem_cons.1 hmem with heq | hrest
            · cases heq
              simp [lookup?]
            · -- from here on the name has been seen
              exact absurd List.mem_cons_self (ih h hrest).1
          · have hrest : (name, v) ∈ rest := by
              simpa [Ne.symm hname] using hmem
            obtain ⟨hnot, hlookup⟩ := ih h hrest
            refine ⟨fun hin => hnot (List.mem_cons_of_mem _ hin), ?_⟩
            simpa [lookup?, hname] using hlookup

end

section

variable {α : Type} {fields : List (FieldRule Json)} {members : List (String × Json)}
  {name : String} {read : Json → Fit α} {a : α}

theorem required_eq_ok_iff :
    required members name read = .ok a ↔ ∃ v, lookup? name members = some v ∧ read v = .ok a := by
  rw [required]
  cases lookup? name members <;> simp

theorem isSome_of_required (h : required members name read = .ok a) :
    (Json.Members.get? name members).isSome := by
  obtain ⟨v, hv, -⟩ := required_eq_ok_iff.1 h
  exact Option.isSome_iff_exists.2 ⟨v, hv⟩

/-- **Each member of a field that has to be there** is what was read for it. -/
theorem read_of_required (hcheck : checkEntries fields [] members = .ok ())
    (h : required members name read = .ok a) (hknown : name ∈ fields.map (·.name)) {v : Json}
    (hmem : (name, v) ∈ members) : read v = .ok a := by
  rw [required, (lookup?_of_checkEntries hcheck hknown hmem).2] at h
  exact h

/-- **Each member of a field with a default** is what was read for it. -/
theorem read_of_defaulted {default : α} (hcheck : checkEntries fields [] members = .ok ())
    (h : defaulted members name default read = .ok a) (hknown : name ∈ fields.map (·.name))
    {v : Json} (hmem : (name, v) ∈ members) : read v = .ok a := by
  rw [defaulted, (lookup?_of_checkEntries hcheck hknown hmem).2] at h
  exact h

end

end StyleContract.Document
