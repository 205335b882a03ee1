import Mathlib.Data.List.Induction
import Mathlib.Data.List.Nodup
import StyleContract.Keyed

/-!
# Proofs — Keyed

Items with keys of their own. Where no two items of a list have one key, an item is what is found by its
key (`find?_of_nodup_keys`), and all that there is of it (`filter_of_nodup_keys`). Among values by name, a
name that is new adds one entry to those that were there (`Keyed.perm_insert`), and entries of different
names are all kept (`Keyed.get?_ofList_eq_some_iff`).
-/

namespace StyleContract

section

variable {α : Type} {key : α → String} {items : List α} {a : α}

/-- An item with a key of its own is found by it. -/
theorem find?_of_nodup_keys (h : (items.map key).Nodup) (ha : a ∈ items) :
    items.find? (key · == key a) = some a := by
  cases hfind : items.find? (key · == key a) with
  | none => simpa using List.find?_eq_none.1 hfind a ha
  | some b =>
      have hkey : key b = key a := by simpa using List.find?_some hfind
      rw [List.inj_on_of_nodup_map h (List.mem_of_find?_eq_some hfind) ha hkey]

theorem find?_reverse_of_nodup_keys (h : (items.map key).Nodup) (ha : a ∈ items) :
    items.reverse.find? (key · == key a) = some a :=
  find?_of_nodup_keys (List.map_reverse ▸ List.nodup_reverse.2 h) (List.mem_reverse.2 ha)

/-- The items of a key are the one that is found by it, if any. -/
theorem filter_of_nodup_keys (h : (items.map key).Nodup) (k : String) :
    items.filter (key · == k) = (items.find? (key · == k)).toList := by
  induction items with
  | nil => rfl
  | cons a items ih =>
      obtain ⟨hnew, hitems⟩ := List.nodup_cons.1 h
      by_cases ha : key a = k
      · have hnone : items.filter (key · == k) = [] := by
          refine List.filter_eq_nil_iff.2 fun b hb hk => hnew ?_
          rw [ha, ← beq_iff_eq.1 hk]
          exact List.mem_map_of_mem hb
        rw [List.filter_cons_of_pos (by simpa using ha), List.find?_cons_of_pos (by simpa using ha), hnone]
        rfl
      · rw [List.filter_cons_of_neg (by simpa using ha), List.find?_cons_of_neg (by simpa using ha),
          ih hitems]

end

namespace Keyed

variable {α : Type} {m : Keyed α} {name : String} {value : α} {entries : List (String × α)}

theorem get?_eq_none_iff : m.get? name = none ↔ ∀ e ∈ m.entries, e.1 ≠ name := by
  rw [get?, Option.map_eq_none_iff, List.find?_eq_none]
  simp

theorem perm_insertEntry (h : ∀ e ∈ entries, e.1 ≠ name) :
    (insertEntry name value entries).Perm ((name, value) :: entries) := by
  induction entries with
  | nil => exact .refl _
  | cons e rest ih =>
      obtain ⟨he, hrest⟩ := List.forall_mem_cons.1 h
      rw [insertEntry]
      split
      · exact .refl _
      · next hnot =>
        rw [if_pos (Decidable.byContradiction fun hlt => he (eq_of_not_lt hlt hnot))]
        exact ((ih hrest).cons e).trans (.swap _ _ _)

/-- A name that is new adds one entry. -/
theorem perm_insert (h : m.get? name = none) :
    (m.insert name value).entries.Perm ((name, value) :: m.entries) :=
  perm_insertEntry (get?_eq_none_iff.1 h)

/-- Among entries of a name, the last one counts. -/
theorem get?_ofList (entries : List (String × α)) (name : String) :
    (ofList entries).get? name = (entries.reverse.find? (·.1 == name)).map Prod.snd := by
  induction entries using List.reverseRecOn with
  | nil => rfl
  | append_singleton entries e ih =>
      have hlast : ofList (entries ++ [e]) = (ofList entries).insert e.1 e.2 := by
        rw [ofList, List.foldl_append]
        rfl
      rw [hlast, List.reverse_append, List.reverse_singleton, List.singleton_append]
      by_cases he : e.1 = name
      · rw [List.find?_cons_of_pos (by simpa using he), ← he, get?_insert_self]
        rfl
      · rw [List.find?_cons_of_neg (by simpa using he), get?_insert_of_ne (Ne.symm he), ih]

/-- Entries of different names are all there is. -/
theorem get?_ofList_eq_some_iff (h : (entries.map Prod.fst).Nodup) :
    (ofList entries).get? name = some value ↔ (name, value) ∈ entries := by
  rw [get?_ofList, Option.map_eq_some_iff]
  constructor
  · rintro ⟨e, hfind, rfl⟩
    obtain rfl : e.1 = name := by simpa using List.find?_some hfind
    exact List.mem_reverse.1 (List.mem_of_find?_eq_some hfind)
  · intro hmem
    exact ⟨(name, value), find?_reverse_of_nodup_keys h hmem, rfl⟩

end Keyed

end StyleContract
