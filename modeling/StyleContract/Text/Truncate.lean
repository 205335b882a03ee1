import StyleContract.Text.Utf8

/-!
# Text — Truncate

Cutting a text to a number of bytes without cutting a character in two, and keeping only the end
of a text.

A text that is too long is cut at its last boundary of characters within the limit, which is looked
for a byte at a time, from the limit downwards (`lastBoundary?`). A boundary is told by the byte
behind it (`isBoundary_iff`). **A text can always be cut** (`isSome_truncate?`): the search stops at
the start of the text at the latest, and the bytes in front of a boundary are a text.
-/

namespace StyleContract.Text

variable {s : String} {c : Char} {offset stop : Nat}

/-! ### Boundaries of characters -/

/-- Whether a text may be cut at an offset in bytes: at its two ends, and in front of a byte that
is no continuation of a character. -/
def isBoundary (s : String) (offset : Nat) : Bool :=
  offset == 0 ||
    if h : offset < s.utf8ByteSize then !isContinuation (s.getUTF8Byte ⟨offset⟩ h).toNat
    else offset == s.utf8ByteSize

theorem isBoundary_zero (s : String) : isBoundary s 0 = true := rfl

theorem isBoundary_iff_of_le (h : s.utf8ByteSize ≤ offset) :
    isBoundary s offset = true ↔ offset = s.utf8ByteSize := by
  rw [isBoundary, dif_neg (Nat.not_lt_of_le h), Bool.or_eq_true, beq_iff_eq, beq_iff_eq]
  omega

theorem isBoundary_iff_of_lt (hpos : offset ≠ 0) (h : offset < s.toByteArray.size) :
    isBoundary s offset = true ↔ isContinuation s.toByteArray[offset].toNat = false := by
  have hlt : offset < s.utf8ByteSize := h
  rw [isBoundary, dif_pos hlt, beq_false_of_ne hpos, Bool.false_or, Bool.not_eq_true']
  rfl

theorem isBoundary_push_iff : isBoundary (s.push c) offset = true ↔
    isBoundary s offset = true ∨ offset = (s.push c).utf8ByteSize := by
  obtain ⟨first, rest, hbytes, hfirst, hrest⟩ := isContinuation_utf8EncodeChar c
  have hpush : (s.push c).toByteArray = s.toByteArray ++ (first :: rest).toByteArray := by
    rw [String.toByteArray_push, List.utf8Encode_singleton, hbytes]
  have hsize : (s.push c).utf8ByteSize = s.utf8ByteSize + (rest.length + 1) := by
    rw [String.utf8ByteSize_push, ← String.length_utf8EncodeChar, hbytes, List.length_cons]
  by_cases hend : (s.push c).utf8ByteSize ≤ offset
  · rw [isBoundary_iff_of_le hend, isBoundary_iff_of_le (by omega)]
    omega
  · by_cases hpos : offset = 0
    · subst hpos
      exact iff_of_true (isBoundary_zero _) (.inl (isBoundary_zero _))
    have hlt : offset < (s.push c).toByteArray.size := Nat.lt_of_not_le hend
    rw [isBoundary_iff_of_lt hpos hlt, or_iff_left fun heq => hend (Nat.le_of_eq heq.symm)]
    by_cases hs : offset < s.toByteArray.size
    · rw [isBoundary_iff_of_lt hpos hs]
      simp only [hpush, ByteArray.getElem_append_left hs]
    · -- the byte is one of the character's, and the first one stands right behind the text
      have hle : s.toByteArray.size ≤ offset := Nat.le_of_not_lt hs
      rw [isBoundary_iff_of_le hle]
      simp only [hpush, ByteArray.getElem_append_right hle, List.getElem_toByteArray]
      obtain ⟨n, rfl⟩ := Nat.exists_eq_add_of_le hle
      simp only [Nat.add_sub_cancel_left]
      cases n with
      | zero => exact iff_of_true hfirst rfl
      | succ n =>
        rw [List.getElem_cons_succ, hrest _ (List.getElem_mem _)]
        exact iff_of_false Bool.noConfusion (by rw [String.size_toByteArray]; omega)

/-- **The boundaries that bytes tell are those of characters.** -/
theorem isBoundary_iff : isBoundary s offset = true ↔ String.Pos.Raw.IsValid s ⟨offset⟩ := by
  induction s using String.push_induction with
  | empty =>
    rw [isBoundary_iff_of_le (Nat.zero_le _), String.Pos.Raw.isValid_empty_iff,
      String.Pos.Raw.ext_iff]
    rfl
  | push s c ih =>
    rw [isBoundary_push_iff, ih, String.Pos.Raw.isValid_push, String.Pos.Raw.ext_iff,
      String.utf8ByteSize_push]
    rfl

/-! ### Cutting at a boundary -/

/-- The last boundary at an offset or in front of it, looked for a byte at a time; none if that
would go below zero. -/
def lastBoundary? (s : String) (offset : Nat) : Option Nat :=
  if isBoundary s offset then some offset
  else
    match offset with
    | 0 => none
    | before + 1 => lastBoundary? s before

theorem exists_lastBoundary? (s : String) (offset : Nat) :
    ∃ stop, lastBoundary? s offset = some stop := by
  induction offset with
  | zero => exact ⟨0, by rw [lastBoundary?, if_pos (isBoundary_zero s)]⟩
  | succ before ih =>
    rw [lastBoundary?]
    split
    · exact ⟨_, rfl⟩
    · exact ih

theorem isBoundary_of_lastBoundary? (h : lastBoundary? s offset = some stop) :
    isBoundary s stop = true := by
  induction offset with
  | zero =>
    rw [lastBoundary?, if_pos (isBoundary_zero s)] at h
    cases h
    exact isBoundary_zero s
  | succ before ih =>
    rw [lastBoundary?] at h
    split at h
    · next hoffset => cases h; exact hoffset
    · exact ih h

/-- The text in front of an offset; none if a character is cut in two there. -/
def front? (s : String) (offset : Nat) : Option String :=
  if isBoundary s offset then String.fromUTF8? (s.toUTF8.extract 0 offset) else none

theorem exists_front? (h : isBoundary s offset = true) : ∃ front, front? s offset = some front ∧
    front.toByteArray = s.toByteArray.extract 0 offset := by
  have hvalid := (isBoundary_iff.1 h).isValidUTF8_extract_zero
  refine ⟨⟨_, hvalid⟩, ?_, rfl⟩
  rw [front?, if_pos h]
  exact dif_pos hvalid

/-- A text cut to at most so many bytes; none if there is no place for the cut. -/
def truncate? (most : Nat) (s : String) : Option String :=
  if s.utf8ByteSize ≤ most then some s else (lastBoundary? s most).bind (front? s)

theorem isSome_truncate? (most : Nat) (s : String) : (truncate? most s).isSome = true := by
  rw [truncate?]
  split
  · rfl
  · obtain ⟨stop, hstop⟩ := exists_lastBoundary? s most
    obtain ⟨front, hfront, -⟩ := exists_front? (isBoundary_of_lastBoundary? hstop)
    rw [hstop, Option.bind_some, hfront]
    rfl

/-- The longest start of a text that has at most so many bytes in UTF-8. -/
def truncate (most : Nat) (s : String) : String :=
  (truncate? most s).get (isSome_truncate? most s)

/-! ### The end of a text -/

/-- The last `most` characters of a text. -/
def lastChars (most : Nat) (s : String) : String :=
  String.ofList (s.toList.drop (s.length - most))

end StyleContract.Text
