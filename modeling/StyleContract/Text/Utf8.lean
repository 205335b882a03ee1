/-!
# Text — UTF-8

The bytes of characters, and bytes as text where they may not be valid UTF-8: each longest start of
a character that breaks off becomes one replacement character.
-/

namespace StyleContract.Text

/-- The number of bytes of characters in UTF-8. -/
def size : List Char → Nat
  | [] => 0
  | c :: cs => c.utf8Size + size cs

def replacement : Char := '\ufffd'

def isContinuation (b : Nat) : Bool := 0x80 ≤ b && b ≤ 0xBF

/-- The first byte of a character continues none, and all its other bytes do. -/
theorem isContinuation_utf8EncodeChar (c : Char) : ∃ first rest,
    String.utf8EncodeChar c = first :: rest ∧ isContinuation first.toNat = false ∧
      ∀ b ∈ rest, isContinuation b.toNat = true := by
  have hfirst : ∀ {n : Nat}, n < 128 ∨ 191 < n → n < 256 →
      isContinuation (UInt8.ofNat n).toNat = false := fun {n} h hn => by
    rw [UInt8.toNat_ofNat_of_lt' hn]
    simp only [isContinuation, Bool.and_eq_false_iff, decide_eq_false_iff_not]
    omega
  have hmore : ∀ n : Nat, isContinuation (UInt8.ofNat (n % 64 + 128)).toNat = true := fun n => by
    rw [UInt8.toNat_ofNat_of_lt' (Nat.lt_trans (by omega) (show 192 < 256 by decide))]
    simp only [isContinuation, Bool.and_eq_true, decide_eq_true_eq]
    omega
  simp only [String.utf8EncodeChar]
  -- by the number of bytes of the character
  split
  · exact ⟨_, _, rfl, hfirst (by omega) (by omega), fun _ hb => absurd hb List.not_mem_nil⟩
  · split
    · exact ⟨_, _, rfl, hfirst (by omega) (by omega), List.forall_mem_singleton.2 (hmore _)⟩
    · split
      · exact ⟨_, _, rfl, hfirst (by omega) (by omega),
          List.forall_mem_cons.2 ⟨hmore _, List.forall_mem_singleton.2 (hmore _)⟩⟩
      · exact ⟨_, _, rfl, hfirst (by omega) (by omega),
          List.forall_mem_cons.2 ⟨hmore _,
            List.forall_mem_cons.2 ⟨hmore _, List.forall_mem_singleton.2 (hmore _)⟩⟩⟩

/-- The range of the second byte of a character, by its first byte, and how many bytes follow
the first. -/
def leadByte? (b : Nat) : Option (Nat × Nat × Nat) :=
  if 0xC2 ≤ b ∧ b ≤ 0xDF then some (0x80, 0xBF, 1)
  else if b = 0xE0 then some (0xA0, 0xBF, 2)
  else if b = 0xED then some (0x80, 0x9F, 2)
  else if 0xE1 ≤ b ∧ b ≤ 0xEF then some (0x80, 0xBF, 2)
  else if b = 0xF0 then some (0x90, 0xBF, 3)
  else if 0xF1 ≤ b ∧ b ≤ 0xF3 then some (0x80, 0xBF, 3)
  else if b = 0xF4 then some (0x80, 0x8F, 3)
  else none

/-- The bits that a first byte of a longer character contributes. -/
def leadBits (b follow : Nat) : Nat :=
  if follow = 1 then b % 32 else if follow = 2 then b % 16 else b % 8

/-- Takes up to `n` more continuation bytes; says whether all were there. -/
def continuation (acc : Nat) : Nat → List Nat → Nat × Bool × List Nat
  | 0, bs => (acc, true, bs)
  | n + 1, b :: bs =>
    if isContinuation b then continuation (acc * 64 + b % 64) n bs else (acc, false, b :: bs)
  | _ + 1, [] => (acc, false, [])

/-- Reads characters off bytes; `fuel` bounds their number. -/
def decodeLossy : Nat → List Nat → List Char
  | 0, _ | _, [] => []
  | fuel + 1, b :: bs =>
    if b < 0x80 then Char.ofNat b :: decodeLossy fuel bs
    else
      match leadByte? b with
      | none => replacement :: decodeLossy fuel bs
      | some (low, high, follow) =>
        match bs with
        | c :: rest =>
          if low ≤ c ∧ c ≤ high then
            let (n, whole, rest) := continuation (leadBits b follow * 64 + c % 64) (follow - 1) rest
            (if whole then Char.ofNat n else replacement) :: decodeLossy fuel rest
          else replacement :: decodeLossy fuel bs
        | [] => [replacement]

/-- The text of bytes, with replacement characters where they are not valid. -/
def ofBytesLossy (bytes : ByteArray) : String :=
  match String.fromUTF8? bytes with
  | some s => s
  | none => String.ofList (decodeLossy bytes.size (bytes.toList.map UInt8.toNat))

end StyleContract.Text
