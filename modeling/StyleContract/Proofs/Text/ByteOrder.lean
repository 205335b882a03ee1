/-!
# Proofs — Text — Byte order

The order of texts, which compares characters, is the order of their bytes: **`lt_iff_bytes_lt`**.
A character with more bytes starts with a greater byte, and of characters with equally many bytes
the greater one has the greater byte at the first place where they differ
(`utf8EncodeChar_append_lt`).
-/

namespace StyleContract.Text

/-- The bytes of a text. -/
def bytes (s : String) : List UInt8 := s.toUTF8.data.toList

theorem bytes_eq (s : String) : bytes s = s.toList.flatMap String.utf8EncodeChar := by
  have hbytes : s.toUTF8 = (String.ofList s.toList).toByteArray := by
    rw [String.ofList_toList, String.toUTF8_eq_toByteArray]
  rw [bytes, hbytes, String.toByteArray_ofList, List.utf8Encode, List.data_toByteArray]

theorem ofNat_cons_lt {m n : Nat} {as bs : List UInt8} (hn : n < 256) (hle : m ≤ n)
    (hrest : m = n → as < bs) : UInt8.ofNat m :: as < UInt8.ofNat n :: bs := by
  rw [List.cons_lt_cons_iff]
  rcases Nat.lt_or_eq_of_le hle with hlt | heq
  · refine .inl (UInt8.lt_iff_toNat_lt.2 ?_)
    rwa [UInt8.toNat_ofNat_of_lt' (Nat.lt_of_le_of_lt hle hn), UInt8.toNat_ofNat_of_lt' hn]
  · exact .inr ⟨congrArg UInt8.ofNat heq, hrest heq⟩

/-- **A smaller character has smaller bytes**, whatever follows. -/
theorem utf8EncodeChar_append_lt {c d : Char} (h : c < d) (x y : List UInt8) :
    String.utf8EncodeChar c ++ x < String.utf8EncodeChar d ++ y := by
  obtain ⟨m, hm⟩ : ∃ m, m = c.val.toNat := ⟨_, rfl⟩
  obtain ⟨n, hn⟩ : ∃ n, n = d.val.toNat := ⟨_, rfl⟩
  have hlt : m < n := by rw [hm, hn]; exact h
  have hmax : n < 0x110000 := by
    rw [hn]
    rcases d.valid with hlow | hhigh
    · exact Nat.lt_trans hlow (by decide)
    · exact hhigh.2
  have hone : ∀ {m n : Nat} {as bs : List UInt8}, n < 256 → m < n →
      UInt8.ofNat m :: as < UInt8.ofNat n :: bs := fun hn hlt =>
    ofNat_cons_lt hn (Nat.le_of_lt hlt) fun heq => absurd heq (Nat.ne_of_lt hlt)
  simp only [String.utf8EncodeChar, ← hm, ← hn]
  -- by the number of bytes of the greater character, then of the smaller one
  by_cases hn₁ : n ≤ 0x7f
  · rw [if_pos (show m ≤ 0x7f by omega), if_pos hn₁]
    exact hone (by omega) hlt
  · rw [if_neg hn₁]
    by_cases hn₂ : n ≤ 0x7ff
    · rw [if_pos hn₂]
      split
      · exact hone (by omega) (by omega)
      · rw [if_pos (show m ≤ 0x7ff by omega)]
        exact ofNat_cons_lt (by omega) (by omega) fun _ => hone (by omega) (by omega)
    · rw [if_neg hn₂]
      by_cases hn₃ : n ≤ 0xffff
      · rw [if_pos hn₃]
        split
        · exact hone (by omega) (by omega)
        · split
          · exact hone (by omega) (by omega)
          · rw [if_pos (show m ≤ 0xffff by omega)]
            exact ofNat_cons_lt (by omega) (by omega) fun _ =>
              ofNat_cons_lt (by omega) (by omega) fun _ => hone (by omega) (by omega)
      · rw [if_neg hn₃]
        split
        · exact hone (by omega) (by omega)
        · split
          · exact hone (by omega) (by omega)
          · split
            · exact hone (by omega) (by omega)
            · exact ofNat_cons_lt (by omega) (by omega) fun _ =>
                ofNat_cons_lt (by omega) (by omega) fun _ =>
                  ofNat_cons_lt (by omega) (by omega) fun _ => hone (by omega) (by omega)

theorem flatMap_utf8EncodeChar_lt {cs ds : List Char} (h : cs < ds) :
    cs.flatMap String.utf8EncodeChar < ds.flatMap String.utf8EncodeChar := by
  induction cs generalizing ds with
  | nil =>
      cases ds with
      | nil => exact absurd h (List.not_lt_nil _)
      | cons d ds =>
          rw [List.flatMap_nil, List.flatMap_cons]
          cases hd : String.utf8EncodeChar d with
          | nil => exact absurd hd String.utf8EncodeChar_ne_nil
          | cons b bs => exact List.nil_lt_cons _ _
  | cons c cs ih =>
      cases ds with
      | nil => exact absurd h (List.not_lt_nil _)
      | cons d ds =>
          rw [List.flatMap_cons, List.flatMap_cons]
          -- the first characters that differ decide, and so do their bytes
          rcases List.cons_lt_cons_iff.1 h with hlt | ⟨rfl, hlt⟩
          · exact utf8EncodeChar_append_lt hlt _ _
          · exact List.append_left_lt (ih hlt)

/-- **The order of texts is that of their bytes.** -/
theorem lt_iff_bytes_lt {s t : String} : s < t ↔ bytes s < bytes t := by
  have hmono : ∀ {s t : String}, s < t → bytes s < bytes t := fun h => by
    rw [bytes_eq, bytes_eq]
    exact flatMap_utf8EncodeChar_lt h
  refine ⟨hmono, fun h => Decidable.byContradiction fun hnot => ?_⟩
  have hle : t ≤ s := String.not_lt.1 hnot
  by_cases heq : t = s
  · subst heq
    exact List.lt_irrefl _ h
  · exact List.lt_asymm h (hmono (Std.lt_of_le_of_ne hle heq))

end StyleContract.Text
