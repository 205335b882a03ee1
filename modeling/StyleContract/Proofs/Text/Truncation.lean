import Mathlib.Data.Nat.Find
import StyleContract.Proofs.Text.Offsets
import StyleContract.Text.Truncate

/-!
# Proofs — Text — Truncation

What a text is cut to: **its longest front within a limit of bytes that ends at a boundary of
characters** (`truncate_longest`). The search for a boundary, from the limit downwards, finds the greatest
one (`lastBoundary?_eq`), and of two fronts of a text the shorter one is a front of the other.

Since a character has at most four bytes, the next boundary is never further away than that
(`exists_boundary_behind`): the cut loses at most three bytes against the limit.
-/

namespace StyleContract.Text

variable {s : String} {front : List UInt8} {offset stop most : Nat}

/-- The bytes in front of a boundary of characters, within a limit. -/
structure FrontWithin (most : Nat) (s : String) (front : List UInt8) : Prop where
  isPrefix : front <+: bytes s
  length_le : front.length ≤ most
  ends : String.Pos.Raw.IsValid s ⟨front.length⟩

theorem length_take_bytes (h : String.Pos.Raw.IsValid s ⟨stop⟩) :
    ((bytes s).take stop).length = stop := by
  rw [List.length_take, length_bytes]
  exact Nat.min_eq_left h.le_utf8ByteSize

theorem frontWithin_take (h : String.Pos.Raw.IsValid s ⟨stop⟩) (hstop : stop ≤ most) :
    FrontWithin most s ((bytes s).take stop) where
  isPrefix := List.take_prefix _ _
  length_le := (length_take_bytes h).trans_le hstop
  ends := by rwa [length_take_bytes h]

theorem frontWithin_bytes (h : s.utf8ByteSize ≤ most) : FrontWithin most s (bytes s) where
  isPrefix := List.prefix_rfl
  length_le := (length_bytes s).trans_le h
  ends := by
    rw [length_bytes]
    exact String.Pos.Raw.isValid_rawEndPos

/-! ### The search -/

/-- **The search finds the greatest boundary** that is not behind the offset. -/
theorem lastBoundary?_eq (s : String) (offset : Nat) :
    lastBoundary? s offset = some (Nat.findGreatest (fun n => isBoundary s n = true) offset) := by
  induction offset with
  | zero => rw [lastBoundary?, if_pos (isBoundary_zero s), Nat.findGreatest_zero]
  | succ before ih =>
      rw [lastBoundary?, Nat.findGreatest_succ]
      split
      · rfl
      · exact ih

theorem le_of_lastBoundary? (h : lastBoundary? s offset = some stop) : stop ≤ offset := by
  rw [lastBoundary?_eq, Option.some.injEq] at h
  exact h ▸ Nat.findGreatest_le offset

theorem le_lastBoundary? {other : Nat} (h : lastBoundary? s offset = some stop)
    (hother : other ≤ offset) (hvalid : String.Pos.Raw.IsValid s ⟨other⟩) : other ≤ stop := by
  rw [lastBoundary?_eq, Option.some.injEq] at h
  exact h ▸ Nat.le_findGreatest hother (isBoundary_iff.2 hvalid)

/-- Behind a boundary the next one follows after one character. -/
theorem exists_boundary_behind (h : String.Pos.Raw.IsValid s ⟨stop⟩) (hlt : stop < s.utf8ByteSize) :
    ∃ next, stop < next ∧ next ≤ stop + 4 ∧ String.Pos.Raw.IsValid s ⟨next⟩ := by
  obtain ⟨place, hplace, rfl⟩ := isValid_iff.1 h
  have hmore : place < s.toList.length := by
    refine Nat.lt_of_le_of_ne hplace fun heq => ?_
    rw [heq, offsetOf, List.take_length, size_toList] at hlt
    exact Nat.lt_irrefl _ hlt
  refine ⟨offsetOf s.toList (place + 1), offsetOf_lt (Nat.lt_succ_self _) hmore, ?_,
    isValid_iff.2 ⟨_, hmore, rfl⟩⟩
  rw [offsetOf_add, List.drop_eq_getElem_cons hmore]
  exact Nat.add_le_add_left (Char.utf8Size_le_four _) _

theorem le_lastBoundary?_add_three (h : lastBoundary? s offset = some stop)
    (hlt : offset < s.utf8ByteSize) : offset ≤ stop + 3 := by
  have hvalid := isBoundary_iff.1 (isBoundary_of_lastBoundary? h)
  obtain ⟨next, hnext, hle, hboundary⟩ :=
    exists_boundary_behind hvalid (Nat.lt_of_le_of_lt (le_of_lastBoundary? h) hlt)
  by_contra hfar
  have := le_lastBoundary? h (by omega) hboundary
  omega

/-! ### The cut -/

theorem truncate?_eq (most : Nat) (s : String) : truncate? most s = some (truncate most s) :=
  (Option.some_get _).symm

theorem truncate_of_le (h : s.utf8ByteSize ≤ most) : truncate most s = s := by
  have heq := truncate?_eq most s
  rw [truncate?, if_pos h, Option.some.injEq] at heq
  exact heq.symm

theorem exists_lastBoundary?_of_lt (h : most < s.utf8ByteSize) :
    ∃ stop, lastBoundary? s most = some stop ∧
      (truncate most s).toByteArray = s.toByteArray.extract 0 stop := by
  obtain ⟨stop, hstop⟩ := exists_lastBoundary? s most
  obtain ⟨front, hfront, hbytes⟩ := exists_front? (isBoundary_of_lastBoundary? hstop)
  have heq := truncate?_eq most s
  rw [truncate?, if_neg (Nat.not_le_of_lt h), hstop, Option.bind_some, hfront,
    Option.some.injEq] at heq
  exact ⟨stop, hstop, heq ▸ hbytes⟩

theorem bytes_eq_take {t : String} (h : t.toByteArray = s.toByteArray.extract 0 stop) :
    bytes t = (bytes s).take stop := by
  rw [bytes, bytes, String.toUTF8_eq_toByteArray, String.toUTF8_eq_toByteArray, h,
    ByteArray.data_extract, Array.toList_extract, List.extract_eq_take_drop, List.drop_zero]
  rfl

/-- **A text is cut to its longest front within the limit** that ends at a boundary of characters.
For a text that is too long the search ends at a boundary, the bytes in front of it are a text, and
it is at most three bytes in front of the limit. -/
theorem truncate_longest (most : Nat) (s : String) :
    truncate? most s = some (truncate most s) ∧
      FrontWithin most s (bytes (truncate most s)) ∧
      (∀ front, FrontWithin most s front → front <+: bytes (truncate most s)) ∧
      (most < s.utf8ByteSize → ∃ stop, lastBoundary? s most = some stop ∧
        (s.toByteArray.extract 0 stop).IsValidUTF8 ∧
        (truncate most s).toByteArray = s.toByteArray.extract 0 stop ∧ most ≤ stop + 3) := by
  refine ⟨truncate?_eq most s, ?_⟩
  rcases Nat.lt_or_ge most s.utf8ByteSize with hlt | hle
  · obtain ⟨stop, hstop, hbytes⟩ := exists_lastBoundary?_of_lt hlt
    have hvalid := isBoundary_iff.1 (isBoundary_of_lastBoundary? hstop)
    have hlast := le_lastBoundary?_add_three hstop hlt
    rw [bytes_eq_take hbytes]
    refine ⟨frontWithin_take hvalid (le_of_lastBoundary? hstop), fun front h => ?_, fun _ =>
      ⟨stop, hstop, hvalid.isValidUTF8_extract_zero, hbytes, hlast⟩⟩
    -- both are fronts of the text, and no boundary within the limit is behind the cut
    refine List.prefix_of_prefix_length_le h.isPrefix (List.take_prefix _ _) ?_
    rw [length_take_bytes hvalid]
    exact le_lastBoundary? hstop h.length_le h.ends
  · rw [truncate_of_le hle]
    exact ⟨frontWithin_bytes hle, fun front h => h.isPrefix, fun hlt =>
      absurd hlt (Nat.not_lt_of_le hle)⟩

/-- All three bytes of a character that are within the limit are lost with the fourth. -/
theorem truncate_longest_halved :
    (FrontWithin 4 "a😀" [97] ∧ 4 < "a😀".utf8ByteSize) ∧
      [97] <+: bytes (truncate 4 "a😀") ∧
      ∃ stop, lastBoundary? "a😀" 4 = some stop ∧
        ("a😀".toByteArray.extract 0 stop).IsValidUTF8 ∧
        (truncate 4 "a😀").toByteArray = "a😀".toByteArray.extract 0 stop ∧ 4 ≤ stop + 3 := by
  have hfront : FrontWithin 4 "a😀" [97] := ⟨by decide, by decide, isBoundary_iff.1 (by decide)⟩
  have hlong : 4 < "a😀".utf8ByteSize := by decide
  obtain ⟨-, -, hlongest, hcut⟩ := truncate_longest 4 "a😀"
  exact ⟨⟨hfront, hlong⟩, hlongest _ hfront, hcut hlong⟩

example : truncate 2 "aé" = "a" := by decide

end StyleContract.Text
