import StyleContract.Proofs.Json.Merged
import StyleContract.Proofs.Json.Shape
import StyleContract.Verification.Suggestion

/-!
# Proofs — Verification — Strict

Strict mode is a member of a member (`HasStrict`), and neither of the two is a number, so it is told by
the shape of a document (`exists_get?_of_shape`). A document that strict mode was put into has it, and it
is printed without a member that occurs twice (`withStrict?_eq_some`). So the text, if it is read again,
has it too, and **a configuration that was made strict is left alone**: `strictText?_settled`.
-/

namespace StyleContract
open Document (map_eq_ok_iff)

namespace Json

variable {v w : Json} {name : String} {members : Members}

theorem shapeMembers_eq (members : Members) :
    shapeMembers members = members.map fun m => (m.1, m.2.shape) := by
  induction members with
  | nil => rfl
  | cons m rest ih => rw [shapeMembers, ih, List.map_cons]

theorem get?_shape (v : Json) (name : String) : v.shape.get? name = (v.get? name).map shape := by
  cases v with
  | obj members =>
      rw [shape, shapeMembers_eq]
      exact Members.get?_map shape name members
  | null | bool | num | str | arr => simp [shape, get?]

theorem Distinct.of_shape (h : v.Distinct) (hshape : w.shape = v.shape) : w.Distinct := by
  rintro members rfl
  cases v with
  | obj members' =>
      rw [shape, shape, obj.injEq, shapeMembers_eq, shapeMembers_eq] at hshape
      have hnames := congrArg (List.map Prod.fst) hshape
      simp only [List.map_map] at hnames
      exact (show Members.names members = Members.names members' from hnames) ▸ h members' rfl
  | null | bool | num | str | arr => simp [shape] at hshape

/-- Strict mode is on. -/
def HasStrict (v : Json) : Prop :=
  ∃ options, v.get? "compilerOptions" = some options ∧ options.get? "strict" = some (.bool true)

theorem bool?_get_eq_some_iff {b : Bool} : (v.get name).bool? = some b ↔ v.get? name = some (.bool b) := by
  rw [get]
  cases v.get? name with
  | none => simp [bool?]
  | some o => cases o <;> simp [bool?]

theorem hasStrict_iff_get : v.HasStrict ↔ ((v.get "compilerOptions").get "strict").bool? = some true := by
  rw [bool?_get_eq_some_iff, get, HasStrict]
  cases v.get? "compilerOptions" with
  | none => simp [get?]
  | some options => simp

theorem eq_bool_of_shape {b : Bool} (h : v.shape = .bool b) : v = .bool b := by
  cases v with
  | bool => exact h
  | null | num | str | arr | obj => simp [shape] at h

theorem eq_obj_of_members? (h : v.members? = some members) : v = .obj members := by
  cases v with
  | obj => exact congrArg Json.obj (Option.some.inj h)
  | null | bool | num | str | arr => cases h

theorem distinct_obj (h : (Members.names members).Nodup) : (Json.obj members).Distinct := by
  rintro _ ⟨⟩
  exact h

theorem exists_get?_of_shape {o : Json} (h : w.shape = v.shape) (hv : v.get? name = some o) :
    ∃ o', w.get? name = some o' ∧ o'.shape = o.shape := by
  have hget : (w.get? name).map shape = some o.shape := by
    rw [← get?_shape, h, get?_shape, hv, Option.map_some]
  obtain ⟨o', ho', hshape⟩ := Option.map_eq_some_iff.1 hget
  exact ⟨o', ho', hshape⟩

end Json

namespace Suggestion

open Json

variable {document v : Json}

theorem withStrict?_eq_none (h : document.HasStrict) : withStrict? document = none := by
  obtain ⟨options, hoptions, hstrict⟩ := h
  cases document with
  | obj members =>
      cases options with
      | obj options =>
          have hoptions : Members.get? "compilerOptions" members = some (.obj options) := hoptions
          have hstrict : Members.get? "strict" options = some (.bool true) := hstrict
          simp [withStrict?, members?, hoptions, hstrict]
      | null | bool | num | str | arr => simp [get?] at hstrict
  | null | bool | num | str | arr => simp [get?] at hoptions

/-- A document with strict mode put in, and without a member that occurs twice if there was none. -/
theorem withStrict?_eq_some (h : withStrict? document.merged = some v) :
    v.Distinct ∧ ∃ options, v.get? "compilerOptions" = some options ∧ options.Distinct ∧
      options.get? "strict" = some (.bool true) := by
  obtain ⟨members, hmembers, h⟩ := Option.bind_eq_some_iff.1 h
  obtain ⟨options, hoptions, h⟩ := Option.bind_eq_some_iff.1 h
  obtain ⟨-, h⟩ := Option.ite_none_left_eq_some.1 h
  cases h
  have hmembers := eq_obj_of_members? hmembers
  have hinner : (Members.names options).Nodup := by
    cases hget : Members.get? "compilerOptions" members with
    | none =>
        rw [hget] at hoptions
        cases hoptions
        exact List.nodup_nil
    | some o =>
        rw [hget] at hoptions
        have hmember : document.merged.get? "compilerOptions" = some o := by
          rw [hmembers]
          exact hget
        exact distinct_of_get?_merged hmember options (eq_obj_of_members? hoptions)
  exact ⟨distinct_obj (Members.nodup_put (distinct_merged document members hmembers)), _,
    Members.get?_put_self _ _ _, distinct_obj (Members.nodup_put hinner), Members.get?_put_self _ _ _⟩

/-- **A configuration that was made strict is left alone**, be it that its text cannot be read again. -/
theorem strictText?_settled {before after : String} (h : strictText? before = some after) :
    strictText? after = none := by
  rw [strictText?] at h ⊢
  split at h
  · next document hread =>
    obtain ⟨raw, -, rfl⟩ := map_eq_ok_iff.1 hread
    obtain ⟨v, hv, rfl⟩ := Option.map_eq_some_iff.1 h
    obtain ⟨hdistinct, options, hoptions, hinner, hstrict⟩ := withStrict?_eq_some hv
    split
    · next document' hread' =>
      obtain ⟨raw', hraw', rfl⟩ := map_eq_ok_iff.1 hread'
      have hshape := shape_of_readRaw_pretty hraw'
      obtain ⟨options', hoptions', hshape'⟩ := exists_get?_of_shape hshape hoptions
      obtain ⟨b, hb, hbool⟩ := exists_get?_of_shape hshape' hstrict
      have houter : raw'.merged.get? "compilerOptions" = some options'.merged := by
        rw [get?_merged (hdistinct.of_shape hshape), hoptions', Option.map_some]
      have hmode : options'.merged.get? "strict" = some (.bool true) := by
        rw [get?_merged (hinner.of_shape hshape'), hb, eq_bool_of_shape hbool]
        simp [merged]
      rw [withStrict?_eq_none ⟨_, houter, hmode⟩, Option.map_none]
    · rfl
  · cases h

end Suggestion

end StyleContract
