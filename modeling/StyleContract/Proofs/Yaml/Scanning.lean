import Mathlib
import StyleContract.Yaml.Lexer

/-!
# Proofs — Yaml — Scanning

How the lexer goes from token to token outside of flow collections. Before each token it passes
blanks and line ends, gives up possible keys on earlier lines and closes the blocks that end
(`Lexer.settle`). What it closes is a matter of the blocks around the place alone (`Block.close`), so
the lexer between two tokens is its blocks, its place, and whether a key may begin there
(`Block.lexer`).

**A chain of steps to the end of the text is a run** (`Leads.run_eq_finish`): each step takes something
off the text, so there is fuel for all of them.
-/

namespace StyleContract.Yaml

/-! ### Blocks -/

/-- The blocks around a place, with the tokens up to there. -/
structure Block where
  tokens : List Token
  indent : Int
  outer : List Int

namespace Block

def closeFrom (column : Int) (tokens : List Token) (indent : Int) : List Int → Block
  | [] => ⟨tokens, indent, []⟩
  | out :: outer =>
    if column < indent then closeFrom column (tokens ++ [.blockEnd]) out outer
    else ⟨tokens, indent, out :: outer⟩

/-- Closes the blocks that lie further in than a column. -/
def close (b : Block) (column : Int) : Block := closeFrom column b.tokens b.indent b.outer

def add (b : Block) (ts : List Token) : Block := { b with tokens := b.tokens ++ ts }

/-- Opens a block at a column, unless there is one. -/
def enter (b : Block) (column : Nat) (t : Token) : Block :=
  if b.indent < column then ⟨b.tokens ++ [t], column, b.indent :: b.outer⟩ else b

/-- The lexer at a place in a block, with a place where a key may have begun. -/
def lexerAfter (b : Block) (p : Place) (key : Option KeyStart) (allowed : Bool) : Lexer :=
  ⟨p, b.tokens.toArray, b.indent, b.outer, [key], allowed⟩

/-- The lexer at a place in a block. -/
def lexer (b : Block) (p : Place) (allowed : Bool) : Lexer := b.lexerAfter p none allowed

variable {b : Block} {column : Nat} {t : Token} {ts us : List Token}

@[simp] theorem place_lexerAfter {p : Place} {key : Option KeyStart} {allowed : Bool} :
    (b.lexerAfter p key allowed).place = p := rfl

@[simp] theorem place_lexer {p : Place} {allowed : Bool} : (b.lexer p allowed).place = p := rfl

theorem close_of_le {column : Int} (h : b.indent ≤ column) : b.close column = b := by
  obtain ⟨tokens, indent, outer⟩ := b
  cases outer with
  | nil => rfl
  | cons out outer => exact if_neg (Int.not_lt.2 h)

theorem add_add : (b.add ts).add us = b.add (ts ++ us) := by
  rw [add, add, add, List.append_assoc]

theorem enter_of_lt (h : b.indent < column) :
    b.enter column t = ⟨b.tokens ++ [t], column, b.indent :: b.outer⟩ := if_pos h

theorem enter_of_eq (h : b.indent = column) : b.enter column t = b :=
  if_neg (Int.not_lt.2 (Int.le_of_eq h.symm))

theorem indent_enter (h : b.indent ≤ column) : (b.enter column t).indent = column := by
  rcases Int.lt_or_eq_of_le h with hlt | heq
  · rw [enter_of_lt hlt]
  · rw [enter_of_eq heq, heq]

/-- A block stays open from its own column on. -/
theorem close_enter_add {k : Nat} (h : b.indent ≤ column) (hk : column ≤ k) :
    ((b.enter column t).add ts).close k = (b.enter column t).add ts :=
  close_of_le (Int.le_trans (Int.le_of_eq (indent_enter h)) (Int.ofNat_le.2 hk))

theorem enter_enter_add {t' : Token} (h : b.indent ≤ column) :
    ((b.enter column t).add ts).enter column t' = (b.enter column t).add ts :=
  enter_of_eq (indent_enter h)

/-- A block that was opened further in ends at a column before it. -/
theorem close_add_enter {k : Int} (h : b.indent < column) (hk : k < column) :
    ((b.enter column t).add ts).close k = (b.add (t :: (ts ++ [.blockEnd]))).close k := by
  rw [enter_of_lt h]
  refine (if_pos hk).trans ?_
  simp [close, add]

end Block

namespace Lexer

variable {b : Block} {p : Place} {key : Option KeyStart} {allowed : Bool} {k : Nat}
  {rest : List Char}

theorem closeBlocks_go_eq (l : Lexer) (column : Int) (ts : List Token) (indent : Int)
    (outer : List Int) :
    closeBlocks.go l column ts.toArray indent outer =
      { l with
        tokens := (Block.closeFrom column ts indent outer).tokens.toArray
        indent := (Block.closeFrom column ts indent outer).indent
        outer := (Block.closeFrom column ts indent outer).outer } := by
  induction outer generalizing ts indent with
  | nil => rfl
  | cons out outer ih =>
      rw [closeBlocks.go, Block.closeFrom]
      split
      · rw [List.push_toArray, ih]
      · rfl

theorem closeBlocks_lexerAfter (column : Int) :
    (b.lexerAfter p key allowed).closeBlocks column = (b.close column).lexerAfter p key allowed :=
  closeBlocks_go_eq _ column b.tokens b.indent b.outer

/-! ### Between two tokens -/

/-- What the lexer does before it reads a token. -/
def settle (l : Lexer) : Option Lexer :=
  (l.skipToToken (l.place.rest.length + 1)).dropStaleKeys.map fun l => l.closeBlocks l.place.column

theorem run_succ (fuel : Nat) (l : Lexer) :
    run (fuel + 1) l =
      l.settle.bind fun l => if l.place.atEnd then l.finish else l.lexToken.bind (run fuel) := by
  rw [run, settle]
  cases (l.skipToToken (l.place.rest.length + 1)).dropStaleKeys <;> rfl

/-- Where a token begins, or the text ends. -/
def Begins (rest : List Char) : Prop :=
  rest.head?.all fun c => !(c == ' ' || c == '\t' || c == '#' || c == '\ufeff' || isBreak c)

theorem begins_nil : Begins [] := rfl

theorem begins_cons {c : Char} {cs : List Char} :
    Begins (c :: cs) ↔
      c ≠ ' ' ∧ c ≠ '\t' ∧ c ≠ '#' ∧ c ≠ '\ufeff' ∧ isBreak c = false := by
  simp [Begins, and_assoc]

/-- The columns before a token, or before the end of the text. -/
def spaces (k : Nat) : List Char := List.replicate k ' '

theorem takeWhile_spaces (cond : Char → Bool) (hspace : cond ' ' = true)
    (hother : ∀ c, cond c = true → c = ' ' ∨ c = '\t') (h : Begins rest) :
    (spaces k ++ rest).takeWhile cond = spaces k := by
  have hrest : rest.takeWhile cond = [] := by
    cases rest with
    | nil => rfl
    | cons c cs =>
        obtain ⟨hne, htab, -⟩ := begins_cons.1 h
        have hc : cond c = false := by
          by_contra hcond
          rcases hother c (Bool.eq_true_of_not_eq_false hcond) with rfl | rfl
          · exact hne rfl
          · exact htab rfl
        rw [List.takeWhile_cons, hc]
        rfl
  have hspaces : ∀ c ∈ spaces k, cond c = true := fun c hc => List.eq_of_mem_replicate hc ▸ hspace
  rw [List.takeWhile_append_of_pos hspaces, hrest, List.append_nil]

theorem not_is_mark_spaces (h : Begins rest) (i line column : Nat) :
    (Place.mk (spaces k ++ rest) i line column).is '\ufeff' = false := by
  cases k with
  | succ k => rfl
  | zero =>
      cases rest with
      | nil => rfl
      | cons c cs =>
          obtain ⟨-, -, -, hmark, -⟩ := begins_cons.1 h
          simpa [spaces, Place.is, Place.head?] using hmark

/-- Spaces before a token are passed. -/
theorem skipToToken_spaces {l : Lexer} {i line column : Nat}
    (hplace : l.place = ⟨spaces k ++ rest, i, line, column⟩) (h : Begins rest) (fuel : Nat) :
    l.skipToToken (fuel + 1) = l.moveTo ⟨rest, i + k, line, column + k⟩ := by
  have hmark : l.place.is '\ufeff' = false := hplace ▸ not_is_mark_spaces h i line column
  have hskip : l.place.skipWhile (fun c => c == ' ' ||
      ((l.inFlow || !l.keyAllowed) && c == '\t')) = ⟨rest, i + k, line, column + k⟩ := by
    have htake := takeWhile_spaces (k := k) (fun c => c == ' ' ||
      ((l.inFlow || !l.keyAllowed) && c == '\t')) rfl (fun c hc => by
        simp only [Bool.or_eq_true, Bool.and_eq_true, beq_iff_eq] at hc
        exact hc.imp_right And.right) h
    rw [Place.skipWhile, hplace, htake, Place.skip]
    simp [spaces]
  have hnumber : (Place.mk rest (i + k) line (column + k)).is '#' = false := by
    cases rest with
    | nil => rfl
    | cons c cs => simpa [Place.is, Place.head?] using (begins_cons.1 h).2.2.1
  have hbreak : (Place.mk rest (i + k) line (column + k)).onBreak = false := by
    cases rest with
    | nil => rfl
    | cons c cs => simpa [Place.onBreak, Place.head?] using (begins_cons.1 h).2.2.2.2
  rw [skipToToken]
  simp only [hmark, Bool.false_eq_true, and_false, if_false, hskip, hnumber, hbreak]

/-- A line end is passed with the spaces after it. -/
theorem skipToToken_line {l : Lexer} {i line column : Nat} (hflow : l.inFlow = false)
    (hplace : l.place = ⟨'\n' :: (spaces k ++ rest), i, line, column⟩) (h : Begins rest)
    (fuel : Nat) :
    l.skipToToken (fuel + 2) =
      { l with place := ⟨rest, i + 1 + k, line + 1, k⟩, keyAllowed := true } := by
  have hskip : l.place.skipWhile (fun c => c == ' ' ||
      ((l.inFlow || !l.keyAllowed) && c == '\t')) = l.place := by
    rw [hplace]
    simp [Place.skipWhile, Place.skip]
  have hmark : l.place.is '\ufeff' = false := by rw [hplace]; rfl
  have hnumber : l.place.is '#' = false := by rw [hplace]; rfl
  have hbreak : l.place.onBreak = true := by rw [hplace]; rfl
  have hnext : l.place.nextLine.1 = ⟨spaces k ++ rest, i + 1, line + 1, 0⟩ := by rw [hplace]; rfl
  rw [skipToToken]
  simp only [hmark, Bool.false_eq_true, and_false, if_false, hskip, hnumber, hbreak, if_true]
  have hpast : (l.moveTo l.place.nextLine.1).inFlow = false := hflow
  rw [hpast, hnext]
  refine (skipToToken_spaces rfl h fuel).trans ?_
  rw [Nat.zero_add]
  rfl

/-! ### Possible keys -/

/-- A possible key is given up on a later line. -/
def IsGone (key : Option KeyStart) (line : Nat) : Prop :=
  ∀ start, key = some start → start.needed = false ∧ start.line < line

theorem isGone_none (line : Nat) : IsGone none line := nofun

theorem dropStaleKeys_of_isGone (h : IsGone key p.line) :
    (b.lexerAfter p key allowed).dropStaleKeys = some (b.lexer p allowed) := by
  cases key with
  | none => rfl
  | some start =>
      obtain ⟨hneeded, hline⟩ := h start rfl
      simp [Block.lexer, Block.lexerAfter, dropStaleKeys, hneeded, hline]

theorem dropStaleKeys_of_near {start : KeyStart} (hline : start.line = p.line)
    (hnear : p.index ≤ start.index + 1024) :
    (b.lexerAfter p (some start) allowed).dropStaleKeys =
      some (b.lexerAfter p (some start) allowed) := by
  have hnot : ¬ (start.line < p.line ∨ start.index + 1024 < p.index) := by omega
  simp [Block.lexerAfter, dropStaleKeys, hnot]

/-! ### Settling -/

theorem settle_of_skip {l : Lexer} {key' : Option KeyStart}
    (hskip : l.skipToToken (l.place.rest.length + 1) = b.lexerAfter p key allowed)
    (hdrop : (b.lexerAfter p key allowed).dropStaleKeys = some (b.lexerAfter p key' allowed)) :
    l.settle = some ((b.close p.column).lexerAfter p key' allowed) := by
  rw [settle, hskip, hdrop, Option.map_some, closeBlocks_lexerAfter]
  rfl

/-- After a sign, the lexer settles behind the space. -/
theorem settle_spaces {i line column : Nat} (h : Begins rest) (hgone : IsGone key line) :
    (b.lexerAfter ⟨spaces k ++ rest, i, line, column⟩ key allowed).settle =
      some ((b.close (column + k : Nat)).lexer ⟨rest, i + k, line, column + k⟩ allowed) :=
  settle_of_skip (skipToToken_spaces rfl h _) (dropStaleKeys_of_isGone hgone)

/-- At the end of a line, the lexer settles on the next one. -/
theorem settle_line {i line column : Nat} (h : Begins rest) (hgone : IsGone key (line + 1)) :
    (b.lexerAfter ⟨'\n' :: (spaces k ++ rest), i, line, column⟩ key allowed).settle =
      some ((b.close k).lexer ⟨rest, i + 1 + k, line + 1, k⟩ true) :=
  settle_of_skip (skipToToken_line rfl rfl h _) (dropStaleKeys_of_isGone hgone)

/-- Where a token follows at once, a possible key on the line stays one. -/
theorem settle_near {start : KeyStart} (h : Begins p.rest) (hline : start.line = p.line)
    (hnear : p.index ≤ start.index + 1024) (hindent : b.indent ≤ p.column) :
    (b.lexerAfter p (some start) allowed).settle = some (b.lexerAfter p (some start) allowed) := by
  have hskip : (b.lexerAfter p (some start) allowed).skipToToken (p.rest.length + 1) =
      b.lexerAfter p (some start) allowed := skipToToken_spaces (k := 0) rfl h _
  have hsettle := settle_of_skip hskip (dropStaleKeys_of_near hline hnear)
  rwa [Block.close_of_le hindent] at hsettle

/-! ### Runs -/

/-- From one token to the next. -/
def Step (l l' : Lexer) : Prop :=
  l'.place.rest.length < l.place.rest.length ∧ ∃ m, l.lexToken = some m ∧ m.settle = some l'

abbrev Steps : Lexer → Lexer → Prop := Relation.ReflTransGen Step

/-- From a place before the next token, over some tokens. -/
def Leads (l l' : Lexer) : Prop :=
  ∃ m, l.settle = some m ∧ m.place.rest.length ≤ l.place.rest.length ∧ Steps m l'

/-- The steps over one token and from there on. -/
theorem Leads.steps {l m l' : Lexer} (htoken : l.lexToken = some m)
    (hlength : m.place.rest.length < l.place.rest.length) (h : Leads m l') : Steps l l' := by
  obtain ⟨n, hsettle, hle, hsteps⟩ := h
  exact .head ⟨Nat.lt_of_le_of_lt hle hlength, m, htoken, hsettle⟩ hsteps

theorem leads_spaces {l' : Lexer} {i line column : Nat} (h : Begins rest) (hgone : IsGone key line)
    (hsteps : Steps ((b.close (column + k : Nat)).lexer ⟨rest, i + k, line, column + k⟩ allowed) l') :
    Leads (b.lexerAfter ⟨spaces k ++ rest, i, line, column⟩ key allowed) l' := by
  refine ⟨_, settle_spaces h hgone, ?_, hsteps⟩
  show rest.length ≤ (spaces k ++ rest).length
  rw [List.length_append]
  exact Nat.le_add_left _ _

theorem leads_line {l' : Lexer} {i line column : Nat} (h : Begins rest)
    (hgone : IsGone key (line + 1))
    (hsteps : Steps ((b.close k).lexer ⟨rest, i + 1 + k, line + 1, k⟩ true) l') :
    Leads (b.lexerAfter ⟨'\n' :: (spaces k ++ rest), i, line, column⟩ key allowed) l' := by
  refine ⟨_, settle_line h hgone, ?_, hsteps⟩
  show rest.length ≤ ('\n' :: (spaces k ++ rest)).length
  rw [List.length_cons, List.length_append]
  omega

theorem steps_finish {l l' : Lexer} (h : Steps l l') (hend : l'.place.atEnd = true) {fuel : Nat}
    (hfuel : l.place.rest.length ≤ fuel) :
    (if l.place.atEnd then l.finish else l.lexToken.bind (run fuel)) = l'.finish := by
  -- the fuel counts characters: a step leaves a shorter text, so one unit of fuel pays for it
  induction h using Relation.ReflTransGen.head_induction_on generalizing fuel with
  | refl => rw [if_pos hend]
  | @head l _ hstep _ ih =>
      obtain ⟨hlength, m, hm, hsettle⟩ := hstep
      obtain ⟨fuel, rfl⟩ : ∃ n, fuel = n + 1 := Nat.exists_eq_add_of_le' (by omega)
      have hnot : ¬ l.place.atEnd = true := fun h => by
        rw [List.isEmpty_iff.1 h] at hlength
        exact Nat.not_lt_zero _ hlength
      rw [if_neg hnot, hm, Option.bind_some, run_succ, hsettle, Option.bind_some]
      exact ih (by omega)

/-- **Steps to the end of the text are a run.** -/
theorem Leads.run_eq_finish {l l' : Lexer} (h : Leads l l') (hend : l'.place.atEnd = true)
    {fuel : Nat} (hfuel : l.place.rest.length ≤ fuel) : run (fuel + 1) l = l'.finish := by
  obtain ⟨m, hsettle, hle, hsteps⟩ := h
  rw [run_succ, hsettle, Option.bind_some]
  exact steps_finish hsteps hend (Nat.le_trans hle hfuel)

end Lexer

end StyleContract.Yaml
