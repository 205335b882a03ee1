import StyleContract.Proofs.Decimal.Numeral
import StyleContract.Proofs.Json.RoundTrip

/-!
# Proofs — Json — Shape

What is left of a value when its numbers are forgotten (`shape`). A float may be printed with more digits
than a reader keeps, or with an exponent that it refuses, so a printed value need not be read as itself;
but **if it is read at all, it is read as a value of the same shape** (`shape_of_readRaw_pretty`): each
reader that succeeds on a printed part stops where the part ends.
-/

namespace StyleContract.Json
open Document (map_eq_ok_iff)

/-! ### Numbers -/

/-- Whatever a reader makes of a text, it leaves what follows it. -/
def Leaves {α : Type} (f : Reader α) (cs : List Char) : Prop :=
  ∀ rest, Closes rest → ∀ x r, f (cs ++ rest) = .ok (x, r) → r = rest

section

open Decimal

variable {α β : Type} {f : Reader α} {cs ds : List Char} {negative : Bool} {significand : Nat}
  {base : Int}

theorem Leaves.map (h : Leaves f cs) (g : α → β) :
    Leaves (fun cs => (f cs).map fun r => (g r.1, r.2)) cs := by
  intro rest hrest x r hr
  obtain ⟨y, hy, heq⟩ := map_eq_ok_iff.1 hr
  cases heq
  exact h rest hrest y.1 y.2 hy

theorem eq_of_map_eq_ok {x : Except ReadError α} {rest r : List Char} {y : α}
    (h : x.map (·, rest) = .ok (y, r)) : r = rest := by
  obtain ⟨a, -, heq⟩ := map_eq_ok_iff.1 h
  exact (congrArg Prod.snd heq).symm

theorem span_digits {rest : List Char} (hds : IsDigits ds)
    (hrest : rest.head?.all fun c => !c.isDigit) :
    (ds ++ rest).takeWhile Char.isDigit = ds ∧ (ds ++ rest).dropWhile Char.isDigit = rest := by
  rw [List.takeWhile_append_of_pos hds, List.dropWhile_append_of_pos hds]
  cases rest with
  | nil => simp
  | cons c rest =>
      have hc : c.isDigit = false := by simpa using hrest
      simp [hc]

theorem Closes.no_digit {rest : List Char} (h : Closes rest) :
    rest.head?.all fun c => !c.isDigit := by
  cases rest with
  | nil => rfl
  | cons c rest =>
      simp only [Closes, List.head?_cons, Option.all_some, Bool.not_eq_true',
        Bool.or_eq_false_iff] at h
      simp [h.1.1.1]

theorem IsExponent.no_digit {rest : List Char} (h : IsExponent cs) (hrest : Closes rest) :
    (cs ++ rest).head?.all fun c => !c.isDigit := by
  cases h with
  | none => exact hrest.no_digit
  | some => rfl

theorem IsFraction.no_digit {rest : List Char} (h : IsFraction cs) (hrest : Closes rest) :
    (cs ++ rest).head?.all fun c => !c.isDigit := by
  cases h with
  | none h => exact IsExponent.no_digit h hrest
  | some => rfl

theorem splitSign_digits {rest : List Char} (hds : IsDigits ds) (hne : ds ≠ []) :
    splitSign (ds ++ rest) = (false, ds ++ rest) := by
  obtain ⟨d, ds, rfl⟩ := List.exists_cons_of_ne_nil hne
  have hd := hds d List.mem_cons_self
  have hplus : d ≠ '+' := by rintro rfl; cases hd
  have hminus : d ≠ '-' := by rintro rfl; cases hd
  simp [splitSign, hplus, hminus]

theorem leaves_exponentPart {sign : List Char} (hsign : sign = [] ∨ sign = ['+'] ∨ sign = ['-'])
    (hds : IsDigits ds) (hne : ds ≠ []) :
    Leaves (exponentPart negative significand base) (sign ++ ds) := by
  intro rest hrest x r h
  have hsplit : (splitSign (sign ++ ds ++ rest)).2 = ds ++ rest := by
    rcases hsign with rfl | rfl | rfl
    · exact congrArg Prod.snd (splitSign_digits hds hne)
    · rfl
    · rfl
  obtain ⟨htake, hdrop⟩ := span_digits hds hrest.no_digit
  rw [exponentPart_eq, exponentDigits, hsplit, htake, hdrop, if_neg (by simpa using hne)] at h
  exact eq_of_map_eq_ok h

theorem leaves_afterFraction (h : IsExponent cs) :
    Leaves (afterFraction negative significand base) cs := by
  intro rest hrest x r hr
  cases h with
  | none =>
      rw [afterFraction_of_not hrest.startsExponent] at hr
      exact eq_of_map_eq_ok hr
  | some hsign hds hne => exact leaves_exponentPart hsign hds hne rest hrest x r hr

theorem leaves_fractionPart (hds : IsDigits ds) (h : IsExponent cs) :
    Leaves (fractionPart negative significand base) (ds ++ cs) := by
  intro rest hrest x r hr
  obtain ⟨htake, hdrop⟩ := span_digits hds (IsExponent.no_digit h hrest)
  rw [List.append_assoc, fractionPart, htake, hdrop] at hr
  split at hr
  · cases hr
  · exact leaves_afterFraction h rest hrest x r hr

theorem leaves_afterWhole {left : Nat} (h : IsFraction cs) :
    Leaves (afterWhole negative significand left) cs := by
  cases h with
  | some hds h => exact (leaves_fractionPart hds h).map Number.float
  | none h =>
      cases h with
      | none =>
          intro rest hrest x r hr
          rw [afterWhole_of_not hrest.head_ne_point hrest.startsExponent] at hr
          exact eq_of_map_eq_ok hr
      | some hsign hds hne => exact (leaves_exponentPart hsign hds hne).map Number.float

theorem leaves_numberBody (h : IsNumeral cs) : Leaves (numberBody negative) cs := by
  intro rest hrest x r hr
  cases h with
  | intro hds hne h =>
      obtain ⟨htake, hdrop⟩ := span_digits hds (IsFraction.no_digit h hrest)
      rw [List.append_assoc, numberBody_eq (htake.symm ▸ hne), htake, hdrop] at hr
      unfold afterDigits at hr
      split at hr
      · cases hr
      · exact leaves_afterWhole h rest hrest x r hr

end

/-! ### Shapes -/

mutual

/-- A value with its numbers forgotten. -/
def shape : Json → Json
  | .num _ => .null
  | .arr items => .arr (shapeItems items)
  | .obj members => .obj (shapeMembers members)
  | v => v

def shapeItems : List Json → List Json
  | [] => []
  | v :: vs => v.shape :: shapeItems vs

def shapeMembers : Members → Members
  | [] => []
  | (k, v) :: rest => (k, v.shape) :: shapeMembers rest

end

section

variable {depth k : Nat} {cs : List Char}

/-- A text that is read, in front of whatever closes it, is read as a value of some shape. -/
def ReadLike (depth : Nat) (text : List Char) (s : Json) : Prop :=
  ∀ rest, Closes rest → ∀ w r, value depth (text ++ rest) = .ok (w, r) → r = rest ∧ w.shape = s

theorem ReadAs.readLike {v : Json} (h : ReadAs depth cs v) : ReadLike depth cs v.shape := by
  intro rest hrest w r hw
  rw [h rest hrest] at hw
  cases hw
  exact ⟨rfl, rfl⟩

/-- What is written after a sign is read as a number, if it is read at all. -/
theorem readLike_of_numberBody {negative : Bool} (h : Leaves (numberBody negative) cs)
    (hvalue : ∀ inner rest, valueWith inner ((Decimal.signText negative).toList ++ cs ++ rest) =
      (numberBody negative (cs ++ rest)).map fun r => (.num r.1, r.2)) :
    ReadLike depth ((Decimal.signText negative).toList ++ cs) .null := by
  intro rest hrest w r hw
  obtain ⟨inner, hinner⟩ := value_eq depth
  rw [hinner, hvalue] at hw
  obtain ⟨n, hn, heq⟩ := map_eq_ok_iff.1 hw
  cases heq
  exact ⟨h rest hrest n.1 n.2 hn, rfl⟩

theorem readLike_numeral {negative : Bool} (h : Decimal.IsNumeral cs) :
    ReadLike depth ((Decimal.signText negative).toList ++ cs) .null := by
  refine readLike_of_numberBody (leaves_numberBody h) fun inner rest => ?_
  cases negative with
  | true => rfl
  | false =>
      cases h with
      | @intro ds cs hds hne h =>
          obtain ⟨d, ds, rfl⟩ := List.exists_cons_of_ne_nil hne
          exact valueWith_digit (hds d List.mem_cons_self)

theorem readLike_null : ReadLike depth ['n', 'u', 'l', 'l'] .null :=
  (readAs_of_word fun _ _ => rfl : ReadAs depth ['n', 'u', 'l', 'l'] .null).readLike

theorem render_cases (n : Number) :
    n.render.toList = ['n', 'u', 'l', 'l'] ∨ n.render.toList = ['-', 'n', 'u', 'l', 'l'] ∨
      ∃ negative cs, n.render.toList = (Decimal.signText negative).toList ++ cs ∧
        Decimal.IsNumeral cs := by
  cases n with
  | int i =>
      cases i with
      | ofNat m =>
          exact .inr (.inr ⟨false, _, toList_render_natural, Decimal.isNumeral_toDigits m⟩)
      | negSucc m =>
          refine .inr (.inr ⟨true, Nat.toDigits 10 (m + 1), ?_, Decimal.isNumeral_toDigits (m + 1)⟩)
          show ("-" ++ Nat.repr (m + 1)).toList = _
          rw [String.toList_append]
          exact congrArg (['-'] ++ ·) String.toList_ofList
  | float x =>
      rw [Number.render]
      rcases Decimal.render_cases numberLayout x with h | ⟨negative, h⟩ | ⟨negative, text, h, htext⟩
      · exact .inl (congrArg String.toList h)
      · cases negative with
        | false => exact .inl (congrArg String.toList h)
        | true => exact .inr (.inl (congrArg String.toList h))
      · exact .inr (.inr ⟨negative, text.toList, by rw [h, String.toList_append], htext⟩)

theorem readLike_number (n : Number) : ReadLike depth n.render.toList .null := by
  rcases render_cases n with h | h | ⟨negative, cs, h, hcs⟩
  · rw [h]
    exact readLike_null
  · -- the word for what is not finite is no number after a sign
    have hnone : Leaves (numberBody true) ['n', 'u', 'l', 'l'] := fun _ _ _ _ h => nomatch h
    rw [h]
    exact readLike_of_numberBody hnone fun _ _ => rfl
  · rw [h]
    exact readLike_numeral hcs

theorem exists_cons_block (left right : Char) (entries : List String) :
    ∃ cs, (block k (String.singleton left) (String.singleton right) entries).toList = left :: cs := by
  rw [block]
  split
  · exact ⟨[right], by simp⟩
  · exact ⟨_, by simp only [String.toList_append, String.toList_singleton, List.append_assoc]; rfl⟩

/-- A printed value begins with no space and not with the end of a list. -/
theorem exists_head_prettyAt (v : Json) (k : Nat) :
    ∃ c cs, (v.prettyAt k).toList = c :: cs ∧ isSpace c = false ∧ c ≠ ']' := by
  cases v with
  | null => exact ⟨'n', ['u', 'l', 'l'], by rw [prettyAt]; rfl, rfl, by decide⟩
  | bool b =>
      cases b with
      | true => exact ⟨'t', ['r', 'u', 'e'], by rw [prettyAt]; rfl, rfl, by decide⟩
      | false => exact ⟨'f', ['a', 'l', 's', 'e'], by rw [prettyAt]; rfl, rfl, by decide⟩
  | str s => exact ⟨'"', _, by rw [prettyAt, quote, String.toList_ofList]; rfl, rfl, by decide⟩
  | num n =>
      rw [prettyAt]
      cases htext : n.render.toList with
      | nil =>
          rcases render_cases n with h | h | ⟨negative, _, h, hds, hne, _⟩
          · cases htext.symm.trans h
          · cases htext.symm.trans h
          · obtain ⟨-, hnil⟩ := List.append_eq_nil_iff.1 (htext.symm.trans h).symm
            exact absurd (List.append_eq_nil_iff.1 hnil).1 hne
      | cons c cs =>
          have hc : isNumberChar c = true :=
            isNumberChar_of_mem_render (htext ▸ List.mem_cons_self)
          exact ⟨c, cs, rfl, not_isSpace_of_isNumberChar hc, by rintro rfl; cases hc⟩
  | arr items =>
      obtain ⟨cs, hcs⟩ := exists_cons_block '[' ']' (prettyItems (k + 1) items)
      exact ⟨'[', cs, hcs, rfl, by decide⟩
  | obj members =>
      obtain ⟨cs, hcs⟩ := exists_cons_block '\x7b' '\x7d' (prettyMembers (k + 1) members)
      exact ⟨'\x7b', cs, hcs, rfl, by decide⟩

theorem ReadLike.writesOnly {v : Json} (h : ReadLike depth cs v.shape) :
    WritesOnly (value depth) (fun w v => w.shape = v.shape) cs v := by
  intro rest hrest w r hw
  rw [value_skipSpace] at hw
  exact h rest hrest w r hw

theorem writesOnly_memberText {m : String × Json}
    (h : ReadLike depth (m.2.prettyAt k).toList m.2.shape) :
    WritesOnly (memberBody (value depth)) (fun m' m => m'.1 = m.1 ∧ m'.2.shape = m.2.shape)
      (memberText k m) m := by
  intro rest hrest m' r hm
  rw [memberText_eq, skipSpace_of_not_isSpace rfl] at hm
  obtain ⟨_, _, _, _, heq, hname, hcolon, hvalue, hm⟩ := memberBody_eq_ok_iff.1 hm
  cases heq
  cases (stringBody_escaped _).symm.trans hname
  cases hcolon
  rw [value_blank] at hvalue
  obtain ⟨hr, hshape⟩ := h rest hrest _ _ hvalue
  exact ⟨hr, hm.trans String.ofList_toList, hshape⟩

theorem shapeItems_eq_of_forall₂ {ws vs : List Json}
    (h : List.Forall₂ (fun w v : Json => w.shape = v.shape) ws vs) : shapeItems ws = shapeItems vs := by
  induction h with
  | nil => rfl
  | cons hshape _ ih => rw [shapeItems, shapeItems, hshape, ih]

theorem shapeMembers_eq_of_forall₂ {ws vs : Members}
    (h : List.Forall₂ (fun w v : String × Json => w.1 = v.1 ∧ w.2.shape = v.2.shape) ws vs) :
    shapeMembers ws = shapeMembers vs := by
  induction h with
  | nil => rfl
  | cons hm _ ih => rw [shapeMembers, shapeMembers, hm.1, hm.2, ih]

theorem readLike_arr {items : List Json}
    (h : ∀ v ∈ items, ∀ depth, ReadLike depth (v.prettyAt (k + 1)).toList v.shape) :
    ReadLike depth ((Json.arr items).prettyAt k).toList (Json.arr items).shape := by
  intro rest _ w r hw
  rw [prettyAt, prettyItems_eq] at hw
  cases depth with
  | zero =>
      -- no container may stand here
      obtain ⟨cs, hcs⟩ : ∃ cs, (block k "[" "]" (items.map (prettyAt (k + 1)))).toList = '[' :: cs :=
        exists_cons_block '[' ']' _
      rw [hcs] at hw
      cases hw
  | succ depth =>
      by_cases hne : items = []
      · subst hne
        cases (congrArg (value (depth + 1)) (toList_block_nil '[' ']')).symm.trans hw
        exact ⟨rfl, rfl⟩
      · have hentries : items.map (prettyAt (k + 1)) ≠ [] := by simpa using hne
        have hbody := (congrArg (value (depth + 1)) (toList_block '[' ']' hentries)).symm.trans hw
        rw [List.map_map] at hbody
        obtain ⟨rfl, ws, rfl, hws⟩ := (encloses_list depth).of_whole_written
          (fun _ => isSpace_of_mem_breakText) (fun _ => isSpace_of_mem_breakText) hne
          (fun v _ => exists_head_prettyAt v (k + 1)) (fun v hv => (h v hv depth).writesOnly) hbody
        exact ⟨rfl, by rw [shape, shape, shapeItems_eq_of_forall₂ hws]⟩

theorem readLike_obj {members : Members}
    (h : ∀ m ∈ members, ∀ depth, ReadLike depth (m.2.prettyAt (k + 1)).toList m.2.shape) :
    ReadLike depth ((Json.obj members).prettyAt k).toList (Json.obj members).shape := by
  intro rest _ w r hw
  rw [prettyAt, prettyMembers_eq] at hw
  cases depth with
  | zero =>
      obtain ⟨cs, hcs⟩ : ∃ cs, (block k "\x7b" "\x7d" (members.map fun m =>
          quote m.1 ++ ": " ++ m.2.prettyAt (k + 1))).toList = '\x7b' :: cs :=
        exists_cons_block '\x7b' '\x7d' _
      rw [hcs] at hw
      cases hw
  | succ depth =>
      by_cases hne : members = []
      · subst hne
        cases (congrArg (value (depth + 1)) (toList_block_nil '\x7b' '\x7d')).symm.trans hw
        exact ⟨rfl, rfl⟩
      · have hentries : (members.map fun m => quote m.1 ++ ": " ++ m.2.prettyAt (k + 1)) ≠ [] := by
          simpa using hne
        have hbody :=
          (congrArg (value (depth + 1)) (toList_block '\x7b' '\x7d' hentries)).symm.trans hw
        rw [List.map_map] at hbody
        obtain ⟨rfl, ms, rfl, hms⟩ := (encloses_object (value depth)).of_whole_written
          (fun _ => isSpace_of_mem_breakText) (fun _ => isSpace_of_mem_breakText) hne
          (fun m _ => ⟨'"', _, (List.append_nil _).symm.trans memberText_eq, rfl, by decide⟩)
          (fun m hm => writesOnly_memberText (h m hm depth)) hbody
        exact ⟨rfl, by rw [shape, shape, shapeMembers_eq_of_forall₂ hms]⟩

mutual

/-- **A printed value is read as one of the same shape**, if it is read at all. -/
theorem readLike_prettyAt :
    ∀ (v : Json) (k depth : Nat), ReadLike depth (v.prettyAt k).toList v.shape
  | .null, _, _ => by
      rw [prettyAt]
      exact readLike_null
  | .bool true, _, _ => by
      rw [prettyAt]
      exact ReadAs.readLike (readAs_of_word fun _ _ => rfl)
  | .bool false, _, _ => by
      rw [prettyAt]
      exact ReadAs.readLike (readAs_of_word fun _ _ => rfl)
  | .str s, _, _ => by
      rw [prettyAt]
      exact (readAs_quote s).readLike
  | .num n, _, _ => by
      rw [prettyAt]
      exact readLike_number n
  | .arr items, k, _ => readLike_arr fun v hv => readLike_items items v hv (k + 1)
  | .obj members, k, _ => readLike_obj fun m hm => readLike_members members m hm (k + 1)

theorem readLike_items : ∀ items : List Json, ∀ v ∈ items, ∀ k depth,
    ReadLike depth (v.prettyAt k).toList v.shape
  | v :: vs, w, hw, k, depth => by
      rcases List.mem_cons.1 hw with heq | hw
      · rw [heq]
        exact readLike_prettyAt v k depth
      · exact readLike_items vs w hw k depth

theorem readLike_members : ∀ members : Members, ∀ m ∈ members, ∀ k depth,
    ReadLike depth (m.2.prettyAt k).toList m.2.shape
  | (_, v) :: ms, m, hm, k, depth => by
      rcases List.mem_cons.1 hm with heq | hm
      · rw [heq]
        exact readLike_prettyAt v k depth
      · exact readLike_members ms m hm k depth

end

/-- **What is printed is read as a value of the same shape**, if it is read at all. -/
theorem shape_of_readRaw_pretty {v w : Json} (h : readRaw (v.pretty ++ "\n") = .ok w) :
    w.shape = v.shape := by
  obtain ⟨_, -, hvalue⟩ := readRaw_eq_ok_iff.1 h
  rw [pretty, String.toList_append] at hvalue
  exact (readLike_prettyAt v 0 maxDepth ['\n'] rfl w _ hvalue).2

end

end StyleContract.Json
