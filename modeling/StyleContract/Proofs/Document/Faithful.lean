import Mathlib.Algebra.Ring.Nat
import Mathlib.Data.List.Forall2
import Mathlib.Data.List.Nodup
import StyleContract.Document.JsonReading

/-!
# Proofs — Document — Faithful

Reading what a document says. A document says a value tree in its own way (`Says`), and its reading
is faithful (`Faithful`) if it takes the leaves, lists and records of that tree as they are. From
these laws alone, once for every kind of document: a list that says some values is read item by
item (`Faithful.list_ok`), and **a record is read if each of its fields is** (`Faithful.record_ok`),
where a field is told by a member of its name (`Tells`), or is left out and has its default
(`TellsOr`).
-/

namespace StyleContract.Document

variable {V : Type} {r : Reading V} {Says : V → Json → Prop}

/-- Entries that say the members of an object, one after the other. -/
def SaysMembers (Says : V → Json → Prop) : List (String × V) → Json.Members → Prop :=
  List.Forall₂ fun e m => e.1 = m.1 ∧ Says e.2 m.2

/-- A reading that takes what a document says. -/
structure Faithful (r : Reading V) (Says : V → Json → Prop) : Prop where
  notNull {v : V} {j : Json} (h : Says v j) (hne : j ≠ .null) : r.isNull v = .ok false
  text {v : V} {s : String} (h : Says v (.str s)) : r.text v = .ok s
  float {v : V} {x : Float} (h : Says v (.num (.float x))) : r.float v = .ok x
  int {v : V} {n least greatest : Int} (name : String) (h : Says v (.num (.int n)))
    (hleast : least ≤ n) (hgreatest : n ≤ greatest) : r.int name least greatest v = .ok n
  word {v : V} {s : String} {options : List String} (h : Says v (.str s)) (hmem : s ∈ options) :
    r.word options v = .ok s
  items {v : V} {js : List Json} (h : Says v (.arr js)) :
    ∃ vs, r.items v = .ok vs ∧ List.Forall₂ Says vs js
  pair {v : V} {j k : Json} (h : Says v (.arr [j, k])) :
    ∃ a b, Says a j ∧ Says b k ∧
      ∀ check, check a = .ok () → check b = .ok () → r.pair check v = .ok (a, b)
  entries {v : V} {ms : Json.Members} (h : Says v (.obj ms)) :
    ∃ es, r.entries v = .ok es ∧ SaysMembers Says es ms
  record {v : V} {ms : Json.Members} (h : Says v (.obj ms)) :
    ∃ es, SaysMembers Says es ms ∧ ∀ struct fields, r.record struct fields v = named fields es
  value {v : V} {n : Nat} (h : Says v (Json.ofNat n)) (hn : n < 2 ^ 64) :
    r.value v = .ok (Json.ofNat n)

/-! ### Lists -/

theorem mapM_eq_ok_of_forall₂ {α β γ : Type} {read : α → Fit γ} {Rel : α → β → Prop} {f : β → γ}
    {as : List α} {bs : List β} (h : List.Forall₂ Rel as bs)
    (hread : ∀ b ∈ bs, ∀ a, Rel a b → read a = .ok (f b)) : as.mapM read = .ok (bs.map f) := by
  induction h with
  | nil => rfl
  | @cons a b as bs hab _ ih =>
      obtain ⟨hb, hbs⟩ := List.forall_mem_cons.1 hread
      rw [List.mapM_cons, hb a hab, ih hbs]
      rfl

theorem forall₂_map_right {α β γ : Type} {Rel : α → γ → Prop} {f : β → γ} {as : List α}
    {bs : List β} (h : List.Forall₂ Rel as (bs.map f)) :
    List.Forall₂ (fun a b => Rel a (f b)) as bs := by
  induction bs generalizing as with
  | nil =>
      cases h
      exact .nil
  | cons b bs ih =>
      cases h with
      | cons hab hrest => exact .cons hab (ih hrest)

namespace Faithful

theorem list_ok {α : Type} (hr : Faithful r Says) {toJson : α → Json} {read : V → Fit α} {v : V}
    {items : List α} (h : Says v (.arr (items.map toJson)))
    (hread : ∀ a ∈ items, ∀ w, Says w (toJson a) → read w = .ok a) :
    r.list read v = .ok items := by
  obtain ⟨vs, hvs, hsays⟩ := hr.items h
  have hmap : vs.mapM read = .ok (items.map id) :=
    mapM_eq_ok_of_forall₂ (forall₂_map_right hsays) hread
  rw [Reading.list, hvs]
  rw [List.map_id] at hmap
  exact hmap

theorem texts_ok (hr : Faithful r Says) {v : V} {items : List String}
    (h : Says v (Json.ofStrings items)) : r.texts v = .ok items :=
  hr.list_ok h fun _ _ _ hw => hr.text hw

/-! ### Leaves -/

theorem option_ok {α : Type} (hr : Faithful r Says) {read : V → Fit α} {v : V} {j : Json} {a : α}
    (h : Says v j) (hne : j ≠ .null) (hread : read v = .ok a) :
    r.option read v = .ok (some a) := by
  rw [Reading.option, hr.notNull h hne]
  dsimp only
  rw [hread]
  rfl

theorem natural32_ok (hr : Faithful r Says) {v : V} {n : UInt32}
    (h : Says v (Json.ofNat n.toNat)) : r.natural32 v = .ok n := by
  have hlt : n.toNat < twoTo 32 := n.toNat_lt
  have hint : r.int "u32" 0 (twoTo 32 - 1) v = .ok (n.toNat : Int) :=
    hr.int "u32" h (Int.natCast_nonneg _) (by omega)
  rw [Reading.natural32, hint]
  simp [Except.map]

theorem moment_ok (hr : Faithful r Says) {v : V} {m : Moment} (h : Says v (.str m.toText))
    (hm : Moment.ofText m.toText = .ok m) : r.moment v = .ok m := by
  rw [Reading.moment, hr.text h]
  dsimp only [bind, Except.bind]
  rw [hm]

end Faithful

/-! ### Records -/

section

variable {α : Type} {ms : Json.Members} {es : List (String × V)} {name : String}
  {read : V → Fit α} {a default : α}

/-- The member of a name tells a value, however it is said. -/
def Tells (Says : V → Json → Prop) (ms : Json.Members) (name : String) (read : V → Fit α)
    (a : α) : Prop :=
  ∃ j, (name, j) ∈ ms ∧ ∀ w, Says w j → read w = .ok a

/-- The member of a name tells a value, or there is none and the value is the default. -/
def TellsOr (Says : V → Json → Prop) (ms : Json.Members) (name : String) (default : α)
    (read : V → Fit α) (a : α) : Prop :=
  (name ∉ ms.map Prod.fst ∧ a = default) ∨ Tells Says ms name read a

theorem SaysMembers.names_eq (h : SaysMembers Says es ms) : es.map Prod.fst = ms.map Prod.fst := by
  induction h with
  | nil => rfl
  | cons hm _ ih => rw [List.map_cons, List.map_cons, hm.1, ih]

/-- The member of a name is said by the entry of that name. -/
theorem SaysMembers.exists_lookup? (h : SaysMembers Says es ms) (hnodup : (ms.map Prod.fst).Nodup)
    {j : Json} (hmem : (name, j) ∈ ms) : ∃ w, lookup? name es = some w ∧ Says w j := by
  induction h with
  | nil => cases hmem
  | @cons e m es ms hm _ ih =>
      obtain ⟨hne, hrest⟩ := List.nodup_cons.1 hnodup
      rcases List.mem_cons.1 hmem with rfl | hmem
      · exact ⟨e.2, by simp [lookup?, hm.1], hm.2⟩
      · obtain ⟨w, hw, hsays⟩ := ih hrest hmem
        have hother : e.1 ≠ name := by
          rintro rfl
          exact hne (hm.1 ▸ List.mem_map_of_mem hmem)
        exact ⟨w, by simpa [lookup?, hother] using hw, hsays⟩

/-- What an entry says is the member of its name. -/
theorem SaysMembers.exists_mem (h : SaysMembers Says es ms) {e : String × V} (he : e ∈ es) :
    ∃ j, (e.1, j) ∈ ms ∧ Says e.2 j := by
  induction h with
  | nil => cases he
  | @cons d m es ms hm _ ih =>
      rcases List.mem_cons.1 he with rfl | he
      · exact ⟨m.2, hm.1 ▸ List.mem_cons_self, hm.2⟩
      · obtain ⟨j, hmem, hsays⟩ := ih he
        exact ⟨j, List.mem_cons_of_mem _ hmem, hsays⟩

theorem SaysMembers.required_eq (h : SaysMembers Says es ms) (hnodup : (ms.map Prod.fst).Nodup)
    (ht : Tells Says ms name read a) : required es name read = .ok a := by
  obtain ⟨j, hmem, hread⟩ := ht
  obtain ⟨w, hw, hsays⟩ := h.exists_lookup? hnodup hmem
  rw [required, hw]
  exact hread w hsays

theorem SaysMembers.defaulted_eq (h : SaysMembers Says es ms) (hnodup : (ms.map Prod.fst).Nodup)
    (ht : TellsOr Says ms name default read a) : defaulted es name default read = .ok a := by
  rcases ht with ⟨hnone, rfl⟩ | ⟨j, hmem, hread⟩
  · have hlookup : lookup? name es = none := by
      rw [lookup?, Option.map_eq_none_iff, List.find?_eq_none]
      intro e he heq
      rw [beq_iff_eq] at heq
      exact hnone (h.names_eq ▸ heq ▸ List.mem_map_of_mem he)
    rw [defaulted, hlookup]
  · obtain ⟨w, hw, hsays⟩ := h.exists_lookup? hnodup hmem
    rw [defaulted, hw]
    exact hread w hsays

/-- A field for which a record has what it takes. -/
structure FieldRule.Fits (f : FieldRule V) (Says : V → Json → Prop) (ms : Json.Members) :
    Prop where
  there : f.optional = true ∨ f.name ∈ ms.map Prod.fst
  check : ∀ j, (f.name, j) ∈ ms → ∀ w, Says w j → f.check w = .ok ()

/-- In members of distinct names there is one value for a name. -/
theorem eq_of_mem_of_nodup {j k : Json} (hnodup : (ms.map Prod.fst).Nodup) (hj : (name, j) ∈ ms)
    (hk : (name, k) ∈ ms) : j = k := by
  have hpair : (name, j) = (name, k) := List.inj_on_of_nodup_map hnodup hj hk rfl
  exact (Prod.mk.inj hpair).2

theorem fits_needed (hnodup : (ms.map Prod.fst).Nodup) (ht : Tells Says ms name read a) :
    (FieldRule.needed name read).Fits Says ms := by
  obtain ⟨j, hmem, hread⟩ := ht
  refine ⟨.inr (List.mem_map_of_mem hmem), fun k hk w hw => ?_⟩
  cases eq_of_mem_of_nodup hnodup hmem hk
  exact congrArg (Except.map _) (hread w hw)

theorem fits_free (hnodup : (ms.map Prod.fst).Nodup)
    (ht : TellsOr Says ms name default read a) : (FieldRule.free name read).Fits Says ms := by
  refine ⟨.inl rfl, fun k hk w hw => ?_⟩
  rcases ht with ⟨hnone, -⟩ | ⟨j, hmem, hread⟩
  · exact absurd (List.mem_map_of_mem hk) hnone
  · cases eq_of_mem_of_nodup hnodup hmem hk
    exact congrArg (Except.map _) (hread w hw)

end

theorem checkEntries_eq_ok {fields : List (FieldRule V)} {seen : List String}
    {es : List (String × V)} (hnodup : (es.map Prod.fst).Nodup)
    (hseen : ∀ e ∈ es, e.1 ∉ seen)
    (hcheck : ∀ e ∈ es, ∀ f ∈ fields, f.name = e.1 → f.check e.2 = .ok ()) :
    checkEntries fields seen es = .ok () := by
  -- none of the names to come was seen, and each is new to those that follow
  induction es generalizing seen with
  | nil => rfl
  | cons e es ih =>
      obtain ⟨hne, hnodup⟩ := List.nodup_cons.1 hnodup
      obtain ⟨hfresh, hseen⟩ := List.forall_mem_cons.1 hseen
      obtain ⟨hfirst, hcheck⟩ := List.forall_mem_cons.1 hcheck
      rw [checkEntries]
      split
      · exact ih hnodup hseen hcheck
      · next f hfind =>
        have hname : f.name = e.1 := by simpa using List.find?_some hfind
        have hnot : seen.contains e.1 = false := by simpa using hfresh
        rw [hnot, hfirst f (List.mem_of_find?_eq_some hfind) hname]
        refine ih hnodup (fun d hd hmem => ?_) hcheck
        rcases List.mem_cons.1 hmem with heq | hmem
        · exact hne (heq ▸ List.mem_map_of_mem hd)
        · exact hseen d hd hmem

theorem named_eq_ok_of_fits {fields : List (FieldRule V)} {ms : Json.Members}
    {es : List (String × V)} (h : SaysMembers Says es ms) (hnodup : (ms.map Prod.fst).Nodup)
    (hfits : ∀ f ∈ fields, f.Fits Says ms) : named fields es = .ok es := by
  have hcheck : checkEntries fields [] es = .ok () := by
    refine checkEntries_eq_ok (h.names_eq ▸ hnodup) (fun _ _ => List.not_mem_nil) ?_
    intro e he f hf hname
    obtain ⟨j, hmem, hsays⟩ := h.exists_mem he
    exact (hfits f hf).check j (hname ▸ hmem) e.2 hsays
  have hpresent : checkPresent fields es = .ok () := by
    have hnone : (fields.find? fun f => !f.optional && !(es.any (·.1 == f.name))) = none := by
      refine List.find?_eq_none.2 fun f hf => ?_
      rcases (hfits f hf).there with hoptional | hthere
      · simp [hoptional]
      · rw [← h.names_eq, List.mem_map] at hthere
        obtain ⟨e, he, hname⟩ := hthere
        simp only [Bool.and_eq_true, Bool.not_eq_true', not_and, Bool.not_eq_false]
        exact fun _ => List.any_eq_true.2 ⟨e, he, beq_iff_eq.2 hname⟩
    rw [checkPresent, hnone]
  rw [named, hcheck]
  dsimp only [bind, Except.bind]
  rw [hpresent]

/-- **A record is read if each of its fields is.** -/
theorem Faithful.record_ok (hr : Faithful r Says) {struct : String} {fields : List (FieldRule V)}
    {v : V} {ms : Json.Members} (h : Says v (.obj ms)) (hnodup : (ms.map Prod.fst).Nodup)
    (hfits : ∀ f ∈ fields, f.Fits Says ms) :
    ∃ es, SaysMembers Says es ms ∧ r.record struct fields v = .ok es := by
  obtain ⟨es, hes, hrecord⟩ := hr.record h
  exact ⟨es, hes, (hrecord _ _).trans (named_eq_ok_of_fits hes hnodup hfits)⟩

/-! ### JSON -/

theorem forall₂_eq_self {α : Type} (as : List α) : List.Forall₂ (· = ·) as as :=
  List.forall₂_eq_eq_eq ▸ rfl

theorem saysMembers_eq_self (ms : Json.Members) : SaysMembers (· = ·) ms ms := by
  induction ms with
  | nil => exact .nil
  | cons m ms ih => exact .cons ⟨rfl, rfl⟩ ih

/-- **JSON is read as the value that it is.** -/
theorem faithful_json : Faithful json (· = ·) where
  notNull h hne := by
    subst h
    exact congrArg Except.ok (beq_eq_false_iff_ne.2 hne)
  text h := by subst h; rfl
  float h := by subst h; rfl
  int name h hleast hgreatest := by
    subst h
    exact if_pos ⟨hleast, hgreatest⟩
  word h hmem := by
    subst h
    exact if_pos (List.contains_iff_mem.2 hmem)
  items h := by
    subst h
    exact ⟨_, rfl, forall₂_eq_self _⟩
  pair h := by
    subst h
    refine ⟨_, _, rfl, rfl, fun check hj hk => ?_⟩
    simp [json, jsonPair, hj, hk, bind, Except.bind, pure, Except.pure]
  entries h := by
    subst h
    exact ⟨_, rfl, saysMembers_eq_self _⟩
  record h := by
    subst h
    exact ⟨_, saysMembers_eq_self _, fun _ _ => rfl⟩
  value h _ := by subst h; rfl

end StyleContract.Document
