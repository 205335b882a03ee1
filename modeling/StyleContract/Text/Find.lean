/-!
# Text — Find

The first place of one text in another. `isPrefixOf_of_placeOf?` says that the text does stand there.
-/

namespace StyleContract.Text

/-- The first place at which some characters stand in others. -/
def placeOf? (needle : List Char) : List Char → Option Nat
  | [] => if needle.isEmpty then some 0 else none
  | c :: cs =>
    if needle.isPrefixOf (c :: cs) then some 0 else (placeOf? needle cs).map (· + 1)

theorem isPrefixOf_of_placeOf? {needle : List Char} {cs : List Char} {n : Nat}
    (h : placeOf? needle cs = some n) : needle.isPrefixOf (cs.drop n) := by
  induction cs generalizing n with
  | nil =>
    simp only [placeOf?] at h
    split at h
    · simp_all
    · simp at h
  | cons c cs ih =>
    simp only [placeOf?] at h
    split at h
    · next hp => simp only [Option.some.injEq] at h; subst h; simpa using hp
    · obtain ⟨m, hm, rfl⟩ := Option.map_eq_some_iff.1 h
      simpa using ih hm

end StyleContract.Text
