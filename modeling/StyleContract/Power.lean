/-!
# Power

Powers of two, which bound the words of a machine, and powers of ten, which are the places of a
decimal. They are functions on natural numbers of their own, so their meaning hangs on no choice
of a power operation.
-/

namespace StyleContract

/-- How many words of `n` bits there are. -/
def twoTo (n : Nat) : Nat := Nat.pow 2 n

/-- What the place `n` of a decimal is worth. -/
def tenTo (n : Nat) : Nat := Nat.pow 10 n

theorem twoTo_succ (n : Nat) : twoTo (n + 1) = twoTo n * 2 := rfl

theorem tenTo_succ (n : Nat) : tenTo (n + 1) = tenTo n * 10 := rfl

theorem twoTo_pos (n : Nat) : 0 < twoTo n := Nat.pow_pos (by decide)

theorem tenTo_pos (n : Nat) : 0 < tenTo n := Nat.pow_pos (by decide)

end StyleContract
