import Mathlib.Data.List.Basic
import StyleContract.Json.Basic

/-!
# Proofs — Json — Merged

Members whose names are distinct. Merging leaves no name twice (`distinct_merged`), setting a member
does not bring one back (`Members.nodup_put`), and **where no name occurs twice, merging takes nothing
away**: a member of the merged value is the merged member (`get?_merged`).
-/

namespace StyleContract.Json

variable {name : String} {value v o : Json} {members acc : Members} {m : String × Json}

namespace Members

/-- The names of some members, in order. -/
def names (members : Members) : List String := members.map Prod.fst

theorem names_put (name : String) (value : Json) (members : Members) :
    names (put name value members) =
      if name ∈ names members then names members else names members ++ [name] := by
  induction members with
  | nil => simp [put, names]
  | cons m rest ih =>
      by_cases hm : m.1 = name
      · simp [put, names, hm]
      · simp only [put, hm, if_false, names, List.map_cons, List.mem_cons, Ne.symm hm, false_or] at ih ⊢
        rw [ih]
        by_cases hrest : name ∈ rest.map Prod.fst <;> simp [hrest]

theorem nodup_put (h : (names members).Nodup) : (names (put name value members)).Nodup := by
  rw [names_put]
  split
  · exact h
  · next hnew =>
    refine List.nodup_append.2 ⟨h, List.pairwise_singleton _ _, ?_⟩
    rintro a ha b hb rfl
    exact hnew (List.mem_singleton.1 hb ▸ ha)

theorem nodup_merged (members : Members) : (names (merged members)).Nodup := by
  have hfold : ∀ acc : Members, (names acc).Nodup →
      (names (members.foldl (fun acc m => put m.1 m.2 acc) acc)).Nodup := by
    induction members with
    | nil => exact fun _ h => h
    | cons m rest ih => exact fun acc h => ih _ (nodup_put h)
  exact hfold [] List.nodup_nil

theorem put_of_not_mem (h : name ∉ names members) :
    put name value members = members ++ [(name, value)] := by
  induction members with
  | nil => rfl
  | cons m rest ih =>
      rw [names, List.map_cons, List.mem_cons, not_or] at h
      rw [put, if_neg (Ne.symm h.1), ih h.2, List.cons_append]

/-- Merging leaves members alone whose names are distinct. -/
theorem merged_of_nodup (h : (names members).Nodup) : merged members = members := by
  have hfold : ∀ acc : Members, (names (acc ++ members)).Nodup →
      members.foldl (fun acc m => put m.1 m.2 acc) acc = acc ++ members := by
    clear h
    induction members with
    | nil => exact fun acc _ => (List.append_nil acc).symm
    | cons m rest ih =>
        intro acc h
        have hnew : m.1 ∉ names acc := by
          rw [names, List.map_append, List.map_cons, List.nodup_append] at h
          exact fun hm => h.2.2 _ hm _ List.mem_cons_self rfl
        have hstep : acc ++ m :: rest = acc ++ [m] ++ rest := by simp
        rw [List.foldl_cons, put_of_not_mem hnew, ih _ (hstep ▸ h), hstep]
  exact hfold [] h

theorem exists_of_mem_put (h : m ∈ put name value members) : m.2 = value ∨ m ∈ members := by
  induction members with
  | nil =>
      cases List.mem_singleton.1 h
      exact .inl rfl
  | cons n rest ih =>
      rw [put] at h
      split at h
      · rcases List.mem_cons.1 h with rfl | h
        · exact .inl rfl
        · exact .inr (List.mem_cons_of_mem _ h)
      · rcases List.mem_cons.1 h with rfl | h
        · exact .inr List.mem_cons_self
        · exact (ih h).imp_right (List.mem_cons_of_mem _)

/-- Merged members have values that were there before. -/
theorem exists_of_mem_merged (h : m ∈ merged members) : ∃ m' ∈ members, m'.2 = m.2 := by
  have hfold : ∀ acc : Members, m ∈ members.foldl (fun acc m => put m.1 m.2 acc) acc →
      (∃ m' ∈ acc, m'.2 = m.2) ∨ ∃ m' ∈ members, m'.2 = m.2 := by
    clear h
    induction members with
    | nil => exact fun acc h => .inl ⟨m, h, rfl⟩
    | cons n rest ih =>
        intro acc h
        rcases ih _ h with ⟨m', hm', heq⟩ | ⟨m', hm', heq⟩
        · rcases exists_of_mem_put hm' with hn | hacc
          · exact .inr ⟨n, List.mem_cons_self, hn.symm.trans heq⟩
          · exact .inl ⟨m', hacc, heq⟩
        · exact .inr ⟨m', List.mem_cons_of_mem _ hm', heq⟩
  exact (hfold [] h).resolve_left fun ⟨_, hm, _⟩ => nomatch hm

theorem get?_map (f : Json → Json) (name : String) (members : Members) :
    get? name (members.map fun m => (m.1, f m.2)) = (get? name members).map f := by
  simp [get?, List.find?_map, Function.comp_def]

theorem mem_of_get? (h : get? name members = some value) : ∃ m ∈ members, m.2 = value := by
  obtain ⟨m, hm, rfl⟩ := Option.map_eq_some_iff.1 h
  exact ⟨m, List.mem_of_find?_eq_some hm, rfl⟩

/-- **The last member of a name** is the one that is left of it. -/
theorem get?_merged_last {front back : Members} (h : name ∉ names back) :
    get? name (merged (front ++ (name, value) :: back)) = some value := by
  have hfold : ∀ acc : Members, get? name acc = some value →
      get? name (back.foldl (fun acc m => put m.1 m.2 acc) acc) = some value := by
    induction back with
    | nil => exact fun _ hacc => hacc
    | cons m rest ih =>
        intro acc hacc
        rw [names, List.map_cons, List.mem_cons, not_or] at h
        exact ih h.2 _ ((get?_put_of_ne h.1 m.2 acc).trans hacc)
  rw [merged, List.foldl_append, List.foldl_cons]
  exact hfold _ (get?_put_self name value _)

/-- A member is set, and every other one stays where it was: at the first place of its name, else behind
all others. -/
inductive Sets (name : String) (value : Json) : Members → Members → Prop
  | replaced (front back : Members) (old : Json) (h : name ∉ names front) :
      Sets name value (front ++ (name, old) :: back) (front ++ (name, value) :: back)
  | added (members : Members) (h : name ∉ names members) :
      Sets name value members (members ++ [(name, value)])

theorem Sets.cons {other : Members} (hm : m.1 ≠ name) (h : Sets name value members other) :
    Sets name value (m :: members) (m :: other) := by
  cases h with
  | replaced front back old h =>
      exact .replaced (m :: front) back old (List.not_mem_cons_of_ne_of_not_mem (Ne.symm hm) h)
  | added members h =>
      exact .added (m :: members) (List.not_mem_cons_of_ne_of_not_mem (Ne.symm hm) h)

theorem sets_put (name : String) (value : Json) (members : Members) :
    Sets name value members (put name value members) := by
  induction members with
  | nil => exact .added [] List.not_mem_nil
  | cons m rest ih =>
      by_cases hm : m.1 = name
      · rw [put, if_pos hm]
        subst hm
        exact .replaced [] rest m.2 List.not_mem_nil
      · rw [put, if_neg hm]
        exact ih.cons hm

end Members

/-! ### Values -/

/-- A value that has no member twice, if it is an object. -/
def Distinct (v : Json) : Prop := ∀ members, v = .obj members → (Members.names members).Nodup

theorem mergedItems_eq (items : List Json) : mergedItems items = items.map Json.merged := by
  induction items with
  | nil => rfl
  | cons v vs ih => rw [mergedItems, ih, List.map_cons]

theorem mergedMembers_eq (members : Members) :
    mergedMembers members = members.map fun m => (m.1, m.2.merged) := by
  induction members with
  | nil => rfl
  | cons m rest ih => rw [mergedMembers, ih, List.map_cons]

theorem names_mergedMembers (members : Members) :
    Members.names (mergedMembers members) = Members.names members := by
  rw [mergedMembers_eq, Members.names, Members.names, List.map_map]
  rfl

theorem map_eq_self_iff {α : Type} {f : α → α} {as : List α} : as.map f = as ↔ ∀ a ∈ as, f a = a := by
  have hid : as.map f = as.map id ↔ ∀ a ∈ as, f a = a := List.map_inj_left
  rwa [List.map_id] at hid

/-- Merging leaves an object alone if no name occurs twice in it, and if it leaves the members alone. -/
theorem merged_obj_eq_iff :
    (obj members).merged = obj members ↔
      (Members.names members).Nodup ∧ ∀ m ∈ members, m.2.merged = m.2 := by
  rw [merged, obj.injEq]
  constructor
  · intro h
    have hnodup : (Members.names members).Nodup := h ▸ Members.nodup_merged _
    rw [Members.merged_of_nodup (names_mergedMembers members ▸ hnodup), mergedMembers_eq] at h
    refine ⟨hnodup, fun m hm => ?_⟩
    exact congrArg Prod.snd (map_eq_self_iff.1 h m hm)
  · rintro ⟨hnodup, hmembers⟩
    rw [Members.merged_of_nodup (names_mergedMembers members ▸ hnodup), mergedMembers_eq]
    exact map_eq_self_iff.2 fun m hm => by rw [hmembers m hm]

mutual

/-- **Merging twice is merging once.** -/
theorem merged_merged : ∀ v : Json, v.merged.merged = v.merged
  | .null => rfl
  | .bool _ => rfl
  | .num _ => rfl
  | .str _ => rfl
  | .arr items => by
    rw [merged, merged, mergedItems_eq, mergedItems_eq, arr.injEq]
    exact map_eq_self_iff.2 (List.forall_mem_map.2 (merged_merged_items items))
  | .obj members => by
    rw [merged, merged_obj_eq_iff]
    refine ⟨Members.nodup_merged _, fun m hm => ?_⟩
    obtain ⟨m', hm', heq⟩ := Members.exists_of_mem_merged hm
    rw [mergedMembers_eq] at hm'
    obtain ⟨n, hn, rfl⟩ := List.mem_map.1 hm'
    exact heq ▸ merged_merged_members members n hn

theorem merged_merged_items : ∀ items : List Json, ∀ v ∈ items, v.merged.merged = v.merged
  | [] => fun _ h => nomatch h
  | v :: vs => List.forall_mem_cons.2 ⟨merged_merged v, merged_merged_items vs⟩

theorem merged_merged_members :
    ∀ members : Members, ∀ m ∈ members, m.2.merged.merged = m.2.merged
  | [] => fun _ h => nomatch h
  | (_, v) :: rest => List.forall_mem_cons.2 ⟨merged_merged v, merged_merged_members rest⟩

end

/-- Setting a member brings nothing to merge if there was nothing in the object and the value. -/
theorem merged_put (h : (obj members).merged = obj members) (hvalue : value.merged = value) :
    (obj (members.put name value)).merged = obj (members.put name value) := by
  obtain ⟨hnodup, hmembers⟩ := merged_obj_eq_iff.1 h
  refine merged_obj_eq_iff.2 ⟨Members.nodup_put hnodup, fun m hm => ?_⟩
  rcases Members.exists_of_mem_put hm with heq | hm
  · rw [heq, hvalue]
  · exact hmembers m hm

theorem distinct_merged (v : Json) : v.merged.Distinct := by
  intro members h
  cases v with
  | obj members' =>
      rw [merged] at h
      cases h
      exact Members.nodup_merged _
  | null | bool | num | str | arr => simp [merged] at h

/-- What is a member of a merged value has no member twice either. -/
theorem distinct_of_get?_merged (h : v.merged.get? name = some o) : o.Distinct := by
  cases v with
  | obj members =>
      rw [merged] at h
      obtain ⟨m, hm, rfl⟩ := Members.mem_of_get? h
      obtain ⟨m', hm', heq⟩ := Members.exists_of_mem_merged hm
      rw [mergedMembers_eq] at hm'
      obtain ⟨n, -, rfl⟩ := List.mem_map.1 hm'
      exact heq ▸ distinct_merged n.2
  | null | bool | num | str | arr => simp [merged, get?] at h

/-- **A member of a merged value** is the merged member, if no name occurs twice. -/
theorem get?_merged (h : v.Distinct) : v.merged.get? name = (v.get? name).map merged := by
  cases v with
  | obj members =>
      have hnodup : (Members.names (mergedMembers members)).Nodup :=
        names_mergedMembers members ▸ h members rfl
      rw [merged, Members.merged_of_nodup hnodup, mergedMembers_eq]
      exact Members.get?_map merged name members
  | null | bool | num | str | arr => simp [merged, get?]

end StyleContract.Json
