/-!
# Keyed

Values by name, in ascending order of the names and each name once. `get?_insert_self` and
`get?_insert_of_ne` say what setting a value does.
-/

namespace StyleContract

structure Keyed (α : Type) where
  entries : List (String × α)
  sorted : entries.Pairwise (·.1 < ·.1)
  deriving DecidableEq

namespace Keyed

variable {α : Type}

def empty : Keyed α := ⟨[], .nil⟩

/-- Sets a value at its place in the order. -/
def insertEntry (name : String) (value : α) : List (String × α) → List (String × α)
  | [] => [(name, value)]
  | (k, v) :: rest =>
    if name < k then (name, value) :: (k, v) :: rest
    else if k < name then (k, v) :: insertEntry name value rest
    else (name, value) :: rest

theorem mem_insertEntry {name : String} {value : α} {entries : List (String × α)}
    {m : String × α} (h : m ∈ insertEntry name value entries) :
    m = (name, value) ∨ m ∈ entries := by
  induction entries with
  | nil => simpa [insertEntry] using h
  | cons e rest ih =>
    simp only [insertEntry] at h
    split at h
    · simpa using h
    · split at h
      · rcases List.mem_cons.1 h with h | h
        · exact .inr (by simp [h])
        · exact (ih h).imp id (List.mem_cons_of_mem _)
      · rcases List.mem_cons.1 h with h | h
        · exact .inl h
        · exact .inr (List.mem_cons_of_mem _ h)

theorem eq_of_not_lt {a b : String} (h : ¬ a < b) (h' : ¬ b < a) : a = b :=
  String.le_antisymm (String.not_lt.1 h') (String.not_lt.1 h)

theorem sorted_insertEntry (name : String) (value : α) {entries : List (String × α)}
    (h : entries.Pairwise (·.1 < ·.1)) :
    (insertEntry name value entries).Pairwise (·.1 < ·.1) := by
  induction entries with
  | nil => simp [insertEntry]
  | cons e rest ih =>
    obtain ⟨he, hrest⟩ := List.pairwise_cons.1 h
    simp only [insertEntry]
    split
    · next hlt =>
      refine List.pairwise_cons.2 ⟨fun m hm => ?_, h⟩
      rcases List.mem_cons.1 hm with rfl | hm
      · exact hlt
      · exact String.lt_trans hlt (he m hm)
    · next hnlt =>
      split
      · next hlt =>
        refine List.pairwise_cons.2 ⟨fun m hm => ?_, ih hrest⟩
        rcases mem_insertEntry hm with rfl | hm
        · exact hlt
        · exact he m hm
      · next hngt =>
        have heq : name = e.1 := eq_of_not_lt hnlt hngt
        exact List.pairwise_cons.2 ⟨fun m hm => heq ▸ he m hm, hrest⟩

/-- Sets a value. -/
def insert (m : Keyed α) (name : String) (value : α) : Keyed α :=
  ⟨insertEntry name value m.entries, sorted_insertEntry name value m.sorted⟩

/-- The values of a list; of two entries of a name, the later one counts. -/
def ofList (entries : List (String × α)) : Keyed α :=
  entries.foldl (fun acc m => acc.insert m.1 m.2) empty

/-- A name above all others goes to the end. -/
theorem insertEntry_of_forall_lt {name : String} {value : α} {entries : List (String × α)}
    (h : ∀ e ∈ entries, e.1 < name) :
    insertEntry name value entries = entries ++ [(name, value)] := by
  induction entries with
  | nil => rfl
  | cons e rest ih =>
    obtain ⟨he, hrest⟩ := List.forall_mem_cons.1 h
    have hnot : ¬ name < e.1 := String.lt_asymm he
    rw [insertEntry, if_neg hnot, if_pos he, ih hrest, List.cons_append]

theorem foldl_insert_eq {m : Keyed α} {entries rest : List (String × α)}
    (hm : m.entries = entries) (hsorted : (entries ++ rest).Pairwise (·.1 < ·.1)) :
    (rest.foldl (fun acc e => acc.insert e.1 e.2) m).entries = entries ++ rest := by
  induction rest generalizing m entries with
  | nil => rw [List.foldl_nil, hm, List.append_nil]
  | cons e rest ih =>
    have hlast : (m.insert e.1 e.2).entries = entries ++ [e] := by
      refine (congrArg (insertEntry e.1 e.2) hm).trans (insertEntry_of_forall_lt fun d hd => ?_)
      exact (List.pairwise_append.1 hsorted).2.2 d hd e List.mem_cons_self
    rw [List.foldl_cons, ih hlast (by simpa using hsorted), List.append_assoc,
      List.singleton_append]

/-- Values by name are what their entries give. -/
theorem ofList_entries (m : Keyed α) : ofList m.entries = m := by
  have h : (ofList m.entries).entries = [] ++ m.entries := foldl_insert_eq rfl m.sorted
  cases m
  cases hkeyed : ofList _ with
  | mk entries sorted =>
    rw [hkeyed] at h
    cases h
    rfl

def get? (m : Keyed α) (name : String) : Option α :=
  (m.entries.find? (·.1 == name)).map (·.2)

theorem get?_insert_self (m : Keyed α) (name : String) (value : α) :
    (m.insert name value).get? name = some value := by
  obtain ⟨entries, _⟩ := m
  show Option.map _ (List.find? _ (insertEntry name value entries)) = _
  induction entries with
  | nil => simp [insertEntry]
  | cons e rest ih =>
    simp only [insertEntry]
    split
    · simp
    · split
      · next hlt =>
        have : e.1 ≠ name := fun h => String.lt_irrefl _ (h ▸ hlt)
        simpa [this] using ih (List.pairwise_cons.1 ‹_›).2
      · simp

theorem get?_insert_of_ne {name other : String} (h : other ≠ name) (m : Keyed α) (value : α) :
    (m.insert name value).get? other = m.get? other := by
  obtain ⟨entries, _⟩ := m
  show Option.map _ (List.find? _ (insertEntry name value entries)) =
    Option.map _ (List.find? _ entries)
  induction entries with
  | nil => simp [insertEntry, Ne.symm h]
  | cons e rest ih =>
    simp only [insertEntry]
    split
    · simp [Ne.symm h]
    · split
      · by_cases he : e.1 = other
        · simp [he]
        · simpa [he] using ih (List.pairwise_cons.1 ‹_›).2
      · next hn hn' =>
        have heq : name = e.1 := eq_of_not_lt hn hn'
        have : e.1 ≠ other := fun h' => h (h'.symm.trans heq.symm)
        simp [this, Ne.symm h]

end Keyed

end StyleContract
