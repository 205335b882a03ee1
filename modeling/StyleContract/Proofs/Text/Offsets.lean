import StyleContract.Proofs.Text.ByteOrder
import StyleContract.Proofs.Text.Lines
import StyleContract.Text.Find
import StyleContract.Text.Utf8

/-!
# Proofs — Text — Offsets

Places in a text, counted in characters and in bytes. The place behind some characters has as its offset the
bytes of these characters (`offsetOf`), and the boundaries of characters are the offsets of places
(`isValid_iff`).

**A text occurs in another one at boundaries only** (`OccursAt.isValid`), since its first byte is the
first one of a character, and it occurs at the offset of a place if and only if its characters stand there
(`occursAt_offsetOf_iff`). Therefore the first place where characters stand is the first offset where bytes
occur (`firstOffset?_offsetOf`), and the line of a place is that of its offset (`lineOfByte_offsetOf`).
-/

namespace StyleContract.Text

variable {s needle : String} {cs ds : List Char} {c d : Char} {offset place start n : Nat}

/-! ### Bytes of characters -/

theorem length_flatMap_utf8EncodeChar (cs : List Char) :
    (cs.flatMap String.utf8EncodeChar).length = size cs := by
  induction cs with
  | nil => rfl
  | cons c cs ih =>
      rw [List.flatMap_cons, List.length_append, String.length_utf8EncodeChar, ih]
      rfl

theorem length_bytes (s : String) : (bytes s).length = s.utf8ByteSize := by
  rw [← String.size_toByteArray, ← String.toUTF8_eq_toByteArray]
  rfl

theorem size_toList (s : String) : size s.toList = s.utf8ByteSize := by
  rw [← length_flatMap_utf8EncodeChar, ← bytes_eq, length_bytes]

theorem utf8ByteSize_ofList (cs : List Char) : (String.ofList cs).utf8ByteSize = size cs := by
  rw [← size_toList, String.toList_ofList]

theorem size_append (cs ds : List Char) : size (cs ++ ds) = size cs + size ds := by
  simp only [← length_flatMap_utf8EncodeChar, List.flatMap_append, List.length_append]

theorem size_pos (h : cs ≠ []) : 0 < size cs := by
  obtain ⟨c, cs, rfl⟩ := List.exists_cons_of_ne_nil h
  exact Nat.lt_of_lt_of_le c.utf8Size_pos (Nat.le_add_right _ _)

/-- Characters are told apart by their bytes, whatever follows. -/
theorem eq_of_utf8EncodeChar_append {x y : List UInt8}
    (h : String.utf8EncodeChar c ++ x = String.utf8EncodeChar d ++ y) : c = d := by
  by_contra hne
  rcases Nat.lt_or_gt_of_ne fun hval => hne (Char.toNat_inj.1 hval) with hlt | hlt
  · exact List.lt_irrefl _ (h ▸ utf8EncodeChar_append_lt hlt x y)
  · exact List.lt_irrefl _ (h ▸ utf8EncodeChar_append_lt hlt y x)

/-- **Bytes begin with those of other characters** if and only if the characters do. -/
theorem flatMap_utf8EncodeChar_prefix_iff :
    cs.flatMap String.utf8EncodeChar <+: ds.flatMap String.utf8EncodeChar ↔ cs <+: ds := by
  induction cs generalizing ds with
  | nil => exact iff_of_true List.nil_prefix List.nil_prefix
  | cons c cs ih =>
      cases ds with
      | nil =>
          refine iff_of_false (fun h => ?_) fun h => ?_
          · exact String.utf8EncodeChar_ne_nil
              (List.append_eq_nil_iff.1 (List.prefix_nil.1 h)).1
          · exact List.cons_ne_nil _ _ (List.prefix_nil.1 h)
      | cons d ds =>
          rw [List.flatMap_cons, List.flatMap_cons, List.cons_prefix_cons, ← ih]
          constructor
          · rintro ⟨more, h⟩
            rw [List.append_assoc] at h
            cases eq_of_utf8EncodeChar_append h
            exact ⟨rfl, more, List.append_cancel_left h⟩
          · rintro ⟨rfl, h⟩
            exact (List.prefix_append_right_inj _).2 h

/-! ### Offsets -/

/-- The offset of a place. -/
def offsetOf (cs : List Char) (place : Nat) : Nat := size (cs.take place)

theorem offsetOf_add (cs : List Char) (place more : Nat) :
    offsetOf cs (place + more) = offsetOf cs place + offsetOf (cs.drop place) more := by
  rw [offsetOf, List.take_add, size_append]
  rfl

theorem offsetOf_length_of_prefix (h : ds <+: cs) : offsetOf cs ds.length = size ds := by
  obtain ⟨rest, rfl⟩ := h
  rw [offsetOf, List.take_left]

theorem offsetOf_lt {more : Nat} (h : place < more) (hmore : more ≤ cs.length) :
    offsetOf cs place < offsetOf cs more := by
  obtain ⟨n, rfl⟩ := Nat.exists_eq_add_of_lt h
  rw [Nat.add_assoc, offsetOf_add]
  refine Nat.lt_add_of_pos_right (size_pos fun hnil => ?_)
  have hlength := congrArg List.length hnil
  rw [List.length_take, List.length_drop, List.length_nil] at hlength
  omega

theorem offsetOf_le_iff {more : Nat} (hplace : place ≤ cs.length) (hmore : more ≤ cs.length) :
    offsetOf cs place ≤ offsetOf cs more ↔ place ≤ more := by
  constructor
  · intro h
    by_contra hlt
    exact absurd (offsetOf_lt (Nat.lt_of_not_le hlt) hplace) (Nat.not_lt_of_le h)
  · intro h
    rcases Nat.eq_or_lt_of_le h with rfl | hlt
    · exact Nat.le_refl _
    · exact Nat.le_of_lt (offsetOf_lt hlt hmore)

/-- The bytes in front of an offset, and those behind it. -/
theorem bytes_eq_append (s : String) (place : Nat) :
    bytes s = (s.toList.take place).flatMap String.utf8EncodeChar ++
      (s.toList.drop place).flatMap String.utf8EncodeChar := by
  rw [← List.flatMap_append, List.take_append_drop, bytes_eq]

theorem take_bytes (s : String) (place : Nat) :
    (bytes s).take (offsetOf s.toList place) =
      (s.toList.take place).flatMap String.utf8EncodeChar := by
  rw [bytes_eq_append s place, offsetOf, ← length_flatMap_utf8EncodeChar, List.take_left]

theorem drop_bytes (s : String) (place : Nat) :
    (bytes s).drop (offsetOf s.toList place) =
      (s.toList.drop place).flatMap String.utf8EncodeChar := by
  rw [bytes_eq_append s place, offsetOf, ← length_flatMap_utf8EncodeChar, List.drop_left]

/-- **The boundaries of characters are the offsets of places.** -/
theorem isValid_iff :
    String.Pos.Raw.IsValid s ⟨offset⟩ ↔ ∃ place ≤ s.toList.length, offset = offsetOf s.toList place := by
  rw [String.Pos.Raw.isValid_iff_exists_take_toList]
  constructor
  · rintro ⟨n, hn⟩
    refine ⟨min n s.toList.length, Nat.min_le_right _ _, ?_⟩
    rw [offsetOf, ← List.take_eq_take_min]
    exact hn.trans (utf8ByteSize_ofList _)
  · rintro ⟨place, -, rfl⟩
    exact ⟨place, (utf8ByteSize_ofList _).symm⟩

/-! ### Occurrences -/

/-- The bytes of a text stand in another text at an offset. -/
def OccursAt (needle s : String) (offset : Nat) : Prop := bytes needle <+: (bytes s).drop offset

instance (needle s : String) (offset : Nat) : Decidable (OccursAt needle s offset) :=
  inferInstanceAs (Decidable (_ <+: _))

theorem occursAt_offsetOf_iff :
    OccursAt needle s (offsetOf s.toList place) ↔ needle.toList <+: s.toList.drop place := by
  rw [OccursAt, drop_bytes, bytes_eq, flatMap_utf8EncodeChar_prefix_iff]

theorem OccursAt.add_le (h : OccursAt needle s offset) (hne : needle ≠ "") :
    offset + needle.utf8ByteSize ≤ s.utf8ByteSize := by
  have hpos : needle.utf8ByteSize ≠ 0 := fun h => hne (String.utf8ByteSize_eq_zero_iff.1 h)
  have hle := h.length_le
  rw [List.length_drop, length_bytes, length_bytes] at hle
  omega

theorem getElem?_bytes (s : String) (offset : Nat) (h : offset < s.utf8ByteSize) :
    (bytes s)[offset]? = some (s.getUTF8Byte ⟨offset⟩ h) := by
  have hlength : offset < (bytes s).length := length_bytes s ▸ h
  rw [List.getElem?_eq_getElem hlength]
  rfl

/-- **A text occurs at boundaries only**, since its first byte is the first one of a character. -/
theorem OccursAt.isValid (h : OccursAt needle s offset) (hne : needle ≠ "") :
    String.Pos.Raw.IsValid s ⟨offset⟩ := by
  have hsize : 0 < needle.utf8ByteSize :=
    Nat.pos_of_ne_zero fun h => hne (String.utf8ByteSize_eq_zero_iff.1 h)
  have hle := h.add_le hne
  have hlt : offset < s.utf8ByteSize := by omega
  obtain ⟨more, hmore⟩ := h
  have hbyte : (bytes s)[offset]? = (bytes needle)[0]? := by
    have hhead := congrArg (·[0]?) hmore
    rw [List.getElem?_drop, Nat.add_zero] at hhead
    rw [← hhead, List.getElem?_append_left (by rw [length_bytes]; exact hsize)]
  rw [getElem?_bytes s offset hlt, getElem?_bytes needle 0 hsize, Option.some.injEq] at hbyte
  refine String.Pos.Raw.isValid_iff_isUTF8FirstByte.2 (.inr ⟨hlt, ?_⟩)
  rw [hbyte]
  rcases String.Pos.Raw.isValid_iff_isUTF8FirstByte.1 (String.Pos.Raw.isValid_zero (s := needle)) with
    hend | ⟨_, hfirst⟩
  · exact absurd (congrArg String.Pos.Raw.byteIdx hend) (Nat.ne_of_lt hsize)
  · exact hfirst

theorem OccursAt.exists_place (h : OccursAt needle s offset) (hne : needle ≠ "") :
    ∃ place ≤ s.toList.length, offset = offsetOf s.toList place ∧
      needle.toList <+: s.toList.drop place := by
  obtain ⟨place, hplace, rfl⟩ := isValid_iff.1 (h.isValid hne)
  exact ⟨place, hplace, rfl, occursAt_offsetOf_iff.1 h⟩

/-- The place behind a text that stands at a place. -/
theorem offsetOf_add_length (h : needle.toList <+: s.toList.drop place) :
    offsetOf s.toList (place + needle.length) = offsetOf s.toList place + needle.utf8ByteSize := by
  rw [offsetOf_add, ← String.length_toList, offsetOf_length_of_prefix h, size_toList]

theorem add_length_le (h : needle.toList <+: s.toList.drop place) (hplace : place ≤ s.toList.length) :
    place + needle.length ≤ s.toList.length := by
  have hle := h.length_le
  rw [List.length_drop, String.length_toList] at hle
  omega

theorem OccursAt.isValid_add (h : OccursAt needle s offset) (hne : needle ≠ "") :
    String.Pos.Raw.IsValid s ⟨offset + needle.utf8ByteSize⟩ := by
  obtain ⟨place, hplace, rfl, hstands⟩ := h.exists_place hne
  exact isValid_iff.2 ⟨_, add_length_le hstands hplace, (offsetOf_add_length hstands).symm⟩

/-! ### First occurrences -/

/-- The first offset, from one on, at which a text occurs in another. -/
def firstOffset? (needle s : String) (start : Nat) : Option Nat :=
  (List.range' start ((bytes s).length + 1 - start)).find? fun offset =>
    decide (OccursAt needle s offset)

theorem firstOffset?_eq_some_iff : firstOffset? needle s start = some offset ↔
    start ≤ offset ∧ offset ≤ s.utf8ByteSize ∧ OccursAt needle s offset ∧
      ∀ other, start ≤ other → other < offset → ¬ OccursAt needle s other := by
  rw [firstOffset?, List.find?_range'_eq_some, List.mem_range'_1, decide_eq_true_eq,
    length_bytes]
  simp only [Bool.not_eq_true', decide_eq_false_iff_not]
  constructor
  · rintro ⟨hoccurs, ⟨hstart, hend⟩, hbefore⟩
    exact ⟨hstart, by omega, hoccurs, hbefore⟩
  · rintro ⟨hstart, hend, hoccurs, hbefore⟩
    exact ⟨hoccurs, ⟨hstart, by omega⟩, hbefore⟩

theorem firstOffset?_eq_none_iff (hne : needle ≠ "") : firstOffset? needle s start = none ↔
    ∀ other, start ≤ other → ¬ OccursAt needle s other := by
  rw [firstOffset?, List.find?_eq_none]
  simp only [List.mem_range'_1, decide_eq_true_eq, length_bytes]
  refine forall_congr' fun other => ⟨fun h hstart hoccurs => ?_, fun h hother => h hother.1⟩
  have hle := hoccurs.add_le hne
  exact h ⟨hstart, by omega⟩ hoccurs

/-- An occurrence is never missed: what is found stands at it or before it. -/
theorem exists_firstOffset?_le (h : OccursAt needle s offset) (hne : needle ≠ "")
    (hstart : start ≤ offset) : ∃ first ≤ offset, firstOffset? needle s start = some first := by
  cases hfirst : firstOffset? needle s start with
  | none => exact absurd h ((firstOffset?_eq_none_iff hne).1 hfirst offset hstart)
  | some first =>
      refine ⟨first, Nat.le_of_not_lt fun hlt => ?_, rfl⟩
      exact (firstOffset?_eq_some_iff.1 hfirst).2.2.2 offset hstart hlt h

theorem placeOf?_eq_find? (ds cs : List Char) :
    placeOf? ds cs = (List.range (cs.length + 1)).find? fun n => ds.isPrefixOf (cs.drop n) := by
  induction cs with
  | nil => cases ds <;> rfl
  | cons c cs ih =>
      rw [placeOf?, List.length_cons, List.range_succ_eq_map, List.find?_cons, List.find?_map, ih,
        List.drop_zero]
      cases ds.isPrefixOf (c :: cs) <;> rfl

theorem placeOf?_eq_some_iff : placeOf? ds cs = some n ↔
    ds <+: cs.drop n ∧ n ≤ cs.length ∧ ∀ m < n, ¬ ds <+: cs.drop m := by
  rw [placeOf?_eq_find?, List.find?_range_eq_some, List.mem_range, Nat.lt_succ_iff]
  simp only [List.isPrefixOf_iff_prefix, Bool.not_eq_true', ← Bool.not_eq_true]

theorem placeOf?_eq_none_iff (hne : ds ≠ []) : placeOf? ds cs = none ↔ ∀ m, ¬ ds <+: cs.drop m := by
  rw [placeOf?_eq_find?, List.find?_range_eq_none]
  simp only [Bool.not_eq_true', ← Bool.not_eq_true, List.isPrefixOf_iff_prefix]
  refine forall_congr' fun m => ⟨fun h hstands => h (Nat.lt_of_not_le fun hle => hne ?_) hstands,
    fun h _ => h⟩
  rw [List.drop_of_length_le (Nat.le_of_succ_le hle)] at hstands
  exact List.prefix_nil.1 hstands

theorem exists_placeOf?_le {m : Nat} (hne : ds ≠ []) (h : ds <+: cs.drop m) :
    ∃ n ≤ m, placeOf? ds cs = some n := by
  cases hn : placeOf? ds cs with
  | none => exact absurd h ((placeOf?_eq_none_iff hne).1 hn m)
  | some n => exact ⟨n, Nat.le_of_not_lt fun hlt => (placeOf?_eq_some_iff.1 hn).2.2 m hlt h, rfl⟩

/-- **The first place where characters stand is the first offset where bytes occur.** -/
theorem firstOffset?_offsetOf (hne : needle ≠ "") (hplace : place ≤ s.toList.length) :
    firstOffset? needle s (offsetOf s.toList place) =
      (placeOf? needle.toList (s.toList.drop place)).map fun n =>
        offsetOf s.toList (place + n) := by
  have hneedle : needle.toList ≠ [] := fun h => hne (String.toList_inj.1 h)
  have hdrop : ∀ m, OccursAt needle s (offsetOf s.toList (place + m)) ↔
      needle.toList <+: (s.toList.drop place).drop m := fun m => by
    rw [occursAt_offsetOf_iff, List.drop_drop]
  cases hfound : placeOf? needle.toList (s.toList.drop place) with
  | some n =>
      obtain ⟨hstands, hn, hbefore⟩ := placeOf?_eq_some_iff.1 hfound
      rw [List.length_drop] at hn
      have hoccurs := (hdrop n).2 hstands
      have hend := Nat.le_of_add_right_le (hoccurs.add_le hne)
      refine firstOffset?_eq_some_iff.2 ⟨?_, hend, hoccurs, fun other hstart hlt hother => ?_⟩
      · exact (offsetOf_le_iff hplace (by omega)).2 (Nat.le_add_right _ _)
      · obtain ⟨early, hearly, rfl, -⟩ := hother.exists_place hne
        obtain ⟨m, rfl⟩ := Nat.exists_eq_add_of_le ((offsetOf_le_iff hplace hearly).1 hstart)
        have hm : ¬ place + n ≤ place + m := fun h =>
          absurd ((offsetOf_le_iff (by omega) hearly).2 h) (Nat.not_le_of_lt hlt)
        exact hbefore m (by omega) ((hdrop m).1 hother)
  | none =>
      refine (firstOffset?_eq_none_iff hne).2 fun other hstart hother => ?_
      obtain ⟨early, hearly, rfl, -⟩ := hother.exists_place hne
      obtain ⟨m, rfl⟩ := Nat.exists_eq_add_of_le ((offsetOf_le_iff hplace hearly).1 hstart)
      exact (placeOf?_eq_none_iff hneedle).1 hfound m ((hdrop m).1 hother)

/-! ### Lines of offsets -/

theorem toList_toUTF8 (s : String) : s.toUTF8.toList = bytes s := by
  have hloop : ∀ (b : ByteArray) (i : Nat) (r : List UInt8),
      ByteArray.toList.loop b i r = r.reverse ++ b.data.toList.drop i := fun b i r => by
    induction i, r using ByteArray.toList.loop.induct b with
    | case1 i r hlt ih =>
        have hdata : i < b.data.toList.length := hlt
        have hget : b.get! i = b.data.toList[i] := by
          show b.data[i]! = _
          rw [getElem!_pos b.data i hlt, Array.getElem_toList]
        rw [ByteArray.toList.loop, if_pos hlt, ih, List.reverse_cons, List.append_assoc,
          List.singleton_append, hget, List.cons_getElem_drop_succ]
    | case2 i r hge =>
        rw [ByteArray.toList.loop, if_neg hge, List.drop_of_length_le (Nat.le_of_not_lt hge),
          List.append_nil]
  exact hloop s.toUTF8 0 []

theorem ten_eq_ofNat_iff (hn : n < 256) : (10 : UInt8) = UInt8.ofNat n ↔ n = 10 := by
  rw [← UInt8.toNat_inj, UInt8.toNat_ofNat_of_lt' hn]
  exact eq_comm

theorem count_utf8EncodeChar (c : Char) :
    (String.utf8EncodeChar c).count 10 = if c = '\n' then 1 else 0 := by
  have hfeed : c = '\n' ↔ c.val.toNat = 10 := Char.toNat_inj.symm
  have hhigh : ∀ {m k : Nat}, 128 ≤ k → m + k < 256 → ¬ (10 : UInt8) = UInt8.ofNat (m + k) :=
    fun hk hm h => absurd ((ten_eq_ofNat_iff hm).1 h) (by omega)
  simp only [hfeed, String.utf8EncodeChar]
  split
  · next hone =>
    rw [List.count_singleton, Bool.beq_comm]
    simp only [beq_iff_eq, ten_eq_ofNat_iff (Nat.lt_of_le_of_lt hone (by decide))]
  · -- a character of several bytes has only bytes from 128 on
    rw [if_neg (show ¬ c.val.toNat = 10 by omega), List.count_eq_zero]
    split
    · simp only [List.mem_cons, List.not_mem_nil, or_false, not_or]
      exact ⟨hhigh (by decide) (by omega), hhigh (by decide) (by omega)⟩
    · split
      · simp only [List.mem_cons, List.not_mem_nil, or_false, not_or]
        exact ⟨hhigh (by decide) (by omega), hhigh (by decide) (by omega),
          hhigh (by decide) (by omega)⟩
      · simp only [List.mem_cons, List.not_mem_nil, or_false, not_or]
        exact ⟨hhigh (by decide) (by omega), hhigh (by decide) (by omega),
          hhigh (by decide) (by omega), hhigh (by decide) (by omega)⟩

theorem count_flatMap_utf8EncodeChar (cs : List Char) :
    (cs.flatMap String.utf8EncodeChar).count 10 = cs.count '\n' := by
  induction cs with
  | nil => rfl
  | cons c cs ih =>
      rw [List.flatMap_cons, List.count_append, count_utf8EncodeChar, ih, List.count_cons,
        Nat.add_comm]
      simp only [beq_iff_eq]

/-- The number of the line that an offset belongs to, as it is without a limit. -/
def lineNumber (s : String) (offset : Nat) : Nat := ((bytes s).take offset).count 10 + 1

theorem lineNumber_mono {offset later : Nat} (h : offset ≤ later) :
    lineNumber s offset ≤ lineNumber s later :=
  Nat.succ_le_succ ((List.take_prefix_take_left h).sublist.count_le _)

theorem lineNumber_offsetOf (s : String) (place : Nat) :
    lineNumber s (offsetOf s.toList place) = (s.toList.take place).count '\n' + 1 := by
  rw [lineNumber, take_bytes, count_flatMap_utf8EncodeChar]

theorem lineOfByte_eq (s : String) (offset : Nat) :
    lineOfByte s offset = UInt32.ofNat (lineNumber s offset) := by
  rw [lineOfByte, toList_toUTF8, lineNumber, UInt32.ofNat_add]
  rfl

/-- **An occurrence begins on a line of the text.** -/
theorem OccursAt.lineNumber_le (h : OccursAt needle s offset) (hne : needle ≠ "") :
    lineNumber s offset ≤ (lines s).length := by
  obtain ⟨place, -, rfl, hstands⟩ := h.exists_place hne
  have hpos : needle.toList.length ≠ 0 := fun hzero =>
    hne (String.toList_inj.1 (List.eq_nil_of_length_eq_zero hzero))
  have hle := hstands.length_le
  rw [List.length_drop] at hle
  rw [lineNumber_offsetOf, length_lines]
  exact count_take_lt_lineTotal (by omega)

/-- **The line of a place is the line of its offset.** -/
theorem lineOfByte_offsetOf (s : String) (place : Nat) :
    lineOfByte s (offsetOf s.toList place) = lineOfPlace s.toList place := by
  rw [lineOfByte_eq, lineNumber_offsetOf, lineOfPlace, UInt32.ofNat_add]
  rfl

end StyleContract.Text
