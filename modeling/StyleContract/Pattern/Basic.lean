import StyleContract.Text.Blank
import StyleContract.Text.WordChar

/-!
# Pattern — Basic

Patterns over text and the ways they match. `Pattern.outcomes` lists where a match that starts
at a given place may end, the preferred way first: a greedy repetition prefers more, a lazy one
less, an alternative its left side. `advances_outcomes` says that matching only moves forward.
-/

namespace StyleContract

/-- A set of characters. -/
inductive CharSet where
  | only (c : Char)
  | range (first last : Char)
  | blank
  | word
  | decimal
  | none
  | union (a b : CharSet)
  | inter (a b : CharSet)
  | compl (a : CharSet)
  deriving DecidableEq, Repr

def CharSet.has : CharSet → Char → Bool
  | .only a, c => c == a
  | .range first last, c => first ≤ c && c ≤ last
  | .blank, c => Text.isBlank c
  | .word, c => Text.isWord c
  | .decimal, c => Text.isDecimal c
  | .none, _ => false
  | .union a b, c => a.has c || b.has c
  | .inter a b, c => a.has c && b.has c
  | .compl a, c => !a.has c

/-- The set of the given characters. -/
def CharSet.of : List Char → CharSet
  | [] => .none
  | [c] => .only c
  | c :: cs => .union (.only c) (CharSet.of cs)

/-- Conditions on a place in the text. -/
inductive Anchor where
  | textStart
  | textEnd
  | lineStart
  | lineEnd
  | wordEdge
  | notWordEdge
  deriving DecidableEq, Repr

inductive Pattern where
  | empty
  | one (set : CharSet)
  | seq (p q : Pattern)
  | alt (p q : Pattern)
  /-- At least `least` repetitions, and `more` beyond them at most. -/
  | many (least : Nat) (more : Option Nat) (greedy : Bool) (p : Pattern)
  | group (index : Nat) (p : Pattern)
  | anchor (a : Anchor)
  | look (ahead : Bool) (p : Pattern)
  deriving DecidableEq, Repr

namespace Pattern

/-- A place in the text, with what the groups have matched so far: the span of each as a pair of
places counted in characters, the latest one first. -/
structure Cursor where
  /-- The characters before the place, the nearest first. -/
  before : List Char
  rest : List Char
  groups : List (Nat × Nat × Nat) := []
  deriving DecidableEq, Repr

def Cursor.start (cs : List Char) : Cursor := ⟨[], cs, []⟩

def Cursor.pos (c : Cursor) : Nat := c.before.length

/-- Whether there are word characters on exactly one side of the place. -/
def Cursor.atWordEdge (c : Cursor) : Bool :=
  c.before.head?.any Text.isWord != c.rest.head?.any Text.isWord

def Cursor.satisfies (c : Cursor) : Anchor → Bool
  | .textStart => c.before.isEmpty
  | .textEnd => c.rest.isEmpty
  | .lineStart => c.before.head?.all (· == '\n')
  | .lineEnd => c.rest.head?.all (· == '\n')
  | .wordEdge => c.atWordEdge
  | .notWordEdge => !c.atWordEdge

/-- Exactly `n` steps in a row. -/
def times (step : Cursor → List Cursor) : Nat → Cursor → List Cursor
  | 0, c => [c]
  | n + 1, c => (step c).flatMap (times step n)

/-- Up to `n` steps in a row, each of which moves on. -/
def upTo (step : Cursor → List Cursor) (greedy : Bool) : Nat → Cursor → List Cursor
  | 0, c => [c]
  | n + 1, c =>
    let longer := ((step c).filter (·.rest.length < c.rest.length)).flatMap (upTo step greedy n)
    if greedy then longer ++ [c] else c :: longer

/-- Where a match from `c` on may end, the preferred way first. -/
def outcomes : Pattern → Cursor → List Cursor
  | .empty, c => [c]
  | .one set, c =>
    match c.rest with
    | x :: xs => if set.has x then [{ c with before := x :: c.before, rest := xs }] else []
    | [] => []
  | .seq p q, c => (p.outcomes c).flatMap q.outcomes
  | .alt p q, c => p.outcomes c ++ q.outcomes c
  | .many least more greedy p, c =>
    (times p.outcomes least c).flatMap fun c' =>
      upTo p.outcomes greedy (more.getD c'.rest.length) c'
  | .group index p, c =>
    (p.outcomes c).map fun c' => { c' with groups := (index, c.pos, c'.pos) :: c'.groups }
  | .anchor a, c => if c.satisfies a then [c] else []
  | .look ahead p, c => if (p.outcomes c).isEmpty == ahead then [] else [c]

/-! ### Ways to write patterns -/

/-- The given characters in order. -/
def literal (s : String) : Pattern :=
  s.toList.foldr (fun c p => .seq (.one (.only c)) p) .empty

/-- The given patterns in order. -/
def chain : List Pattern → Pattern
  | [] => .empty
  | [p] => p
  | p :: ps => .seq p (chain ps)

/-- One of the given patterns, the earlier the better. -/
def oneOf : List Pattern → Pattern
  | [] => .one .none
  | [p] => p
  | p :: ps => .alt p (oneOf ps)

def star (p : Pattern) : Pattern := .many 0 .none true p

def plus (p : Pattern) : Pattern := .many 1 .none true p

def optional (p : Pattern) : Pattern := .many 0 (some 1) true p

def blanks : Pattern := star (.one .blank)

def someBlanks : Pattern := plus (.one .blank)

/-! ### Matching moves forward -/

/-- `d` lies at or after `c` in the same text. -/
def Cursor.Advances (c d : Cursor) : Prop :=
  ∃ cs : List Char, c.rest = cs ++ d.rest ∧ d.before = cs.reverse ++ c.before

theorem Cursor.Advances.refl (c : Cursor) : c.Advances c := ⟨[], rfl, rfl⟩

theorem Cursor.Advances.trans {c d e : Cursor} (h : c.Advances d) (h' : d.Advances e) :
    c.Advances e := by
  obtain ⟨as, ha, ha'⟩ := h
  obtain ⟨bs, hb, hb'⟩ := h'
  exact ⟨as ++ bs, by simp [ha, hb], by simp [ha', hb']⟩

theorem advances_times {step : Cursor → List Cursor}
    (hs : ∀ c, ∀ d ∈ step c, c.Advances d) (n : Nat) (c : Cursor) :
    ∀ d ∈ times step n c, c.Advances d := by
  induction n generalizing c with
  | zero => simp [times, Cursor.Advances.refl]
  | succ n ih =>
    intro d hd
    obtain ⟨e, he, hd⟩ := List.mem_flatMap.1 hd
    exact (hs c e he).trans (ih e d hd)

theorem advances_upTo {step : Cursor → List Cursor} {greedy : Bool}
    (hs : ∀ c, ∀ d ∈ step c, c.Advances d) (n : Nat) (c : Cursor) :
    ∀ d ∈ upTo step greedy n c, c.Advances d := by
  induction n generalizing c with
  | zero => simp [upTo, Cursor.Advances.refl]
  | succ n ih =>
    intro d hd
    have hlonger : ∀ d ∈ ((step c).filter (·.rest.length < c.rest.length)).flatMap
        (upTo step greedy n), c.Advances d := by
      intro d hd
      obtain ⟨e, he, hd⟩ := List.mem_flatMap.1 hd
      exact (hs c e (List.mem_filter.1 he).1).trans (ih e d hd)
    cases greedy with
    | true =>
      simp only [upTo, if_true, List.mem_append, List.mem_singleton] at hd
      rcases hd with hd | rfl
      · exact hlonger d hd
      · exact .refl _
    | false =>
      simp only [upTo, Bool.false_eq_true, if_false, List.mem_cons] at hd
      rcases hd with rfl | hd
      · exact .refl _
      · exact hlonger d hd

theorem advances_outcomes (p : Pattern) (c : Cursor) : ∀ d ∈ p.outcomes c, c.Advances d := by
  induction p generalizing c with
  | empty => simp [outcomes, Cursor.Advances.refl]
  | one set =>
    intro d hd
    simp only [outcomes] at hd
    split at hd
    · next x xs h =>
      split at hd
      · rw [List.mem_singleton] at hd
        subst hd
        exact ⟨[x], by simp [h], by simp⟩
      · simp at hd
    · simp at hd
  | seq p q ihp ihq =>
    intro d hd
    obtain ⟨e, he, hd⟩ := List.mem_flatMap.1 hd
    exact (ihp c e he).trans (ihq e d hd)
  | alt p q ihp ihq =>
    intro d hd
    rcases List.mem_append.1 hd with hd | hd
    · exact ihp c d hd
    · exact ihq c d hd
  | many least more greedy p ih =>
    intro d hd
    obtain ⟨e, he, hd⟩ := List.mem_flatMap.1 hd
    exact (advances_times ih _ _ e he).trans (advances_upTo ih _ _ d hd)
  | group index p ih =>
    intro d hd
    obtain ⟨e, he, rfl⟩ := List.mem_map.1 hd
    obtain ⟨cs, h, h'⟩ := ih c e he
    exact ⟨cs, h, h'⟩
  | anchor a =>
    intro d hd
    simp only [outcomes] at hd
    split at hd
    · rw [List.mem_singleton] at hd; exact hd ▸ .refl _
    · simp at hd
  | look ahead p _ =>
    intro d hd
    simp only [outcomes] at hd
    split at hd
    · simp at hd
    · rw [List.mem_singleton] at hd; exact hd ▸ .refl _

end Pattern

end StyleContract
