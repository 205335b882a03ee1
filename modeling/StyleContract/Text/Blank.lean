/-!
# Text — Blank

White space as Unicode's `White_Space` property has it, and the trimming of text by it.
`trim_eq_empty_iff` says which texts are blank throughout.
-/

namespace StyleContract.Text

/-- The characters with the property `White_Space`. -/
def isBlank (c : Char) : Bool :=
  let n := c.toNat
  (9 ≤ n && n ≤ 13) || n == 0x20 || n == 0x85 || n == 0xA0 || n == 0x1680 ||
    (0x2000 ≤ n && n ≤ 0x200A) || n == 0x2028 || n == 0x2029 || n == 0x202F || n == 0x205F ||
    n == 0x3000

/-- Drops the longest tail of characters that satisfy `p`. -/
def dropTailWhile (p : Char → Bool) (cs : List Char) : List Char :=
  (cs.reverse.dropWhile p).reverse

/-- The characters between the first and the last that fail `p`. -/
def trimChars (p : Char → Bool) (cs : List Char) : List Char :=
  dropTailWhile p (cs.dropWhile p)

/-- A text without the white space at its two ends. -/
def trim (s : String) : String := String.ofList (trimChars isBlank s.toList)

/-- A text without the white space at its end. -/
def trimEnd (s : String) : String := String.ofList (dropTailWhile isBlank s.toList)

/-- A text without the white space at its start. -/
def trimStart (s : String) : String := String.ofList (s.toList.dropWhile isBlank)

theorem dropWhile_eq_nil_iff {p : Char → Bool} {cs : List Char} :
    cs.dropWhile p = [] ↔ ∀ c ∈ cs, p c := by
  induction cs with
  | nil => simp
  | cons c cs ih => by_cases h : p c <;> simp [h, ih]

theorem dropTailWhile_eq_nil_iff {p : Char → Bool} {cs : List Char} :
    dropTailWhile p cs = [] ↔ ∀ c ∈ cs, p c := by
  rw [dropTailWhile, List.reverse_eq_nil_iff, dropWhile_eq_nil_iff]
  simp only [List.mem_reverse]

theorem forall_mem_of_forall_mem_dropWhile {p : Char → Bool} {cs : List Char}
    (h : ∀ c ∈ cs.dropWhile p, p c) : ∀ c ∈ cs, p c := by
  induction cs with
  | nil => simp
  | cons c cs ih =>
    by_cases hc : p c
    · simp only [List.dropWhile_cons, hc, if_true] at h
      simpa [hc] using ih h
    · simp only [List.dropWhile_cons, hc] at h
      simpa using h

theorem trimChars_eq_nil_iff {p : Char → Bool} {cs : List Char} :
    trimChars p cs = [] ↔ ∀ c ∈ cs, p c := by
  refine ⟨fun h => forall_mem_of_forall_mem_dropWhile (dropTailWhile_eq_nil_iff.1 h), fun h => ?_⟩
  rw [trimChars, dropWhile_eq_nil_iff.2 h]
  rfl

/-- Trimming leaves nothing exactly of the texts that hold nothing but white space. -/
theorem trim_eq_empty_iff {s : String} : trim s = "" ↔ ∀ c ∈ s.toList, isBlank c := by
  rw [← trimChars_eq_nil_iff, trim]
  constructor
  · intro h
    simpa using congrArg String.toList h
  · intro h
    simp [h]

end StyleContract.Text
