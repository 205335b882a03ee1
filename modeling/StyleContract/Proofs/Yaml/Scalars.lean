import StyleContract.Proofs.Yaml.Literal

/-!
# Proofs — Yaml — Scalars

One scalar is one token: a text in a style that suits it is read as that text in that style, up to the
place where the next token begins (`Suits.steps_textIn`).
-/

namespace StyleContract.Yaml
open Printer (textIn styleOf)

variable {i line column k : Nat} {cs rest tail : List Char} {style : Style}

/-! ### Styles -/

/-- A style in which a text can be written. -/
def Suits : Style → List Char → Prop
  | .plain, cs => Printer.allowsPlain cs = true ∧ cs ≠ []
  | .single, cs => Printer.allowsSingle cs = true ∧ '\n' ∉ cs
  | .double, _ => True
  | .literal, cs => Printer.allowsLiteral cs = true
  | .folded, _ => False

/-- The printer writes a text in a style that suits it. -/
theorem suits_styleOf (s : String) : Suits (styleOf s) s.toList := by
  unfold styleOf
  dsimp only
  split
  · split
    · assumption
    · trivial
  · next hline =>
    split
    · next hplain =>
      obtain ⟨hreads, hplain⟩ := Bool.and_eq_true_iff.1 hplain
      refine ⟨hplain, fun hnil => ?_⟩
      obtain rfl : s = "" := String.toList_eq_nil_iff.1 hnil
      exact absurd hreads (by decide)
    · split
      · next hsingle => exact ⟨hsingle, by simpa using hline⟩
      · trivial

theorem of_not_startsMarked {c : Char} (h : Printer.startsMarked (c :: cs) = false) :
    c ∉ ['#', ',', '[', ']', '\x7b', '\x7d', '&', '*', '!', '|', '>', '\'', '"', '%', '@', '\x60'] ∧
      (c = '?' ∨ c = ':' ∨ c = '-' → Printer.blankAhead cs = false) := by
  unfold Printer.startsMarked at h
  split at h
  · cases h
  · cases h
  · next heq =>
    cases heq
    simp only [Bool.or_eq_false_iff] at h
    refine ⟨by simpa using h.1, fun hc => ?_⟩
    by_contra hblank
    simp [hblank] at h
    grind
  · next heq => cases heq

/-- A text without quotes begins where a token does. -/
theorem begins_of_allowsPlain (h : Printer.allowsPlain cs = true) (hne : cs ≠ []) :
    Lexer.Begins (cs ++ rest) := by
  obtain ⟨-, hsolid, hnumber, -⟩ := tame_of_allowsPlain h
  simp only [Printer.allowsPlain, Printer.needsEscape, Bool.not_eq_true', Bool.or_eq_false_iff] at h
  obtain ⟨c, cs, rfl⟩ := List.exists_cons_of_ne_nil hne
  have hc : isBlank c = false ∧ isBreak c = false := by simpa [Solid] using hsolid
  have hprintable : Printer.isPrintable c = true := by
    simpa using List.any_eq_false.1 h.1.1.2.1 c List.mem_cons_self
  refine Lexer.begins_cons.2 ⟨?_, ?_, by simpa using hnumber, ?_, hc.2⟩
  all_goals
    rintro rfl
    revert hprintable hc
    decide

/-- What is written of a text begins where a token does. -/
theorem Suits.begins (h : Suits style cs) (indent : Nat) :
    Lexer.Begins (textIn style indent cs ++ rest) := by
  cases style with
  | plain =>
      rw [textIn, List.append_assoc]
      exact begins_of_allowsPlain h.1 h.2
  | single => exact Lexer.begins_cons.2 (by decide)
  | double => exact Lexer.begins_cons.2 (by decide)
  | literal => exact Lexer.begins_cons.2 (by decide)
  | folded => exact h.elim

/-! ### Characters -/

theorem isAllowed_of_isPrintable {c : Char} (h : Printer.isPrintable c = true) : isAllowed c = true := by
  simp only [Printer.isPrintable, isAllowed, Bool.or_eq_true, Bool.and_eq_true, beq_iff_eq,
    decide_eq_true_eq] at h ⊢
  omega

theorem isAllowed_of_mem_hexPadded {c : Char} {width n : Nat} (h : c ∈ Printer.hexPadded width n) :
    isAllowed c = true := by
  have hdigit : ∀ d : Fin 16, isAllowed d.val.digitChar.toUpper = true := by decide
  have hdigits : ∀ d ∈ Nat.toDigits 16 n, isAllowed d.toUpper = true := by
    clear h
    induction n using Nat.strong_induction_on with
    | _ n ih =>
        rw [Nat.toDigits_eq_if (by decide)]
        split
        · next hlt => simpa using hdigit ⟨n, hlt⟩
        · next hle =>
          intro d hd
          rcases List.mem_append.1 hd with hd | hd
          · exact ih (n / 16) (Nat.div_lt_self (by omega) (by decide)) d hd
          · rw [List.mem_singleton.1 hd]
            exact hdigit ⟨n % 16, Nat.mod_lt n (by decide)⟩
  simp only [Printer.hexPadded, List.mem_append, List.mem_map] at h
  rcases h with h | ⟨d, hd, rfl⟩
  · rw [List.eq_of_mem_replicate h]
    rfl
  · exact hdigits d hd

theorem isAllowed_of_mem_escaped {c d : Char} (h : c ∈ Printer.escaped d) : isAllowed c = true := by
  have hnumber : ∀ (letter : Char) (width : Nat), isAllowed letter = true →
      c ∈ '\\' :: letter :: Printer.hexPadded width d.toNat → isAllowed c = true := by
    intro letter width hletter hc
    rcases List.mem_cons.1 hc with rfl | hc
    · rfl
    · rcases List.mem_cons.1 hc with rfl | hc
      · exact hletter
      · exact isAllowed_of_mem_hexPadded hc
  unfold Printer.escaped at h
  split at h
  case h_15 =>
    split at h
    · next hprintable =>
      rw [List.mem_singleton.1 h]
      exact isAllowed_of_isPrintable hprintable
    · split at h
      · exact hnumber 'x' 2 rfl h
      · split at h
        · exact hnumber 'u' 4 rfl h
        · exact hnumber 'U' 8 rfl h
  all_goals
    simp only [List.mem_cons, List.not_mem_nil, or_false] at h
    rcases h with rfl | rfl <;> rfl

theorem mem_indented {c : Char} {indent : Nat} {atStart : Bool}
    (h : c ∈ Printer.indented indent atStart cs) : c ∈ cs ∨ c = ' ' := by
  induction cs generalizing atStart with
  | nil => cases h
  | cons d ds ih =>
      have hrest : ∀ atStart, c ∈ Printer.indented indent atStart ds → c ∈ d :: ds ∨ c = ' ' :=
        fun atStart hc => (ih hc).imp_left (List.mem_cons_of_mem d)
      rw [Printer.indented] at h
      split at h
      · rcases List.mem_cons.1 h with rfl | h
        · exact .inl List.mem_cons_self
        · exact hrest true h
      · rcases List.mem_append.1 h with h | h
        · split at h
          · exact .inr (List.eq_of_mem_replicate h)
          · cases h
        · rcases List.mem_cons.1 h with rfl | h
          · exact .inl List.mem_cons_self
          · exact hrest false h

theorem isAllowed_of_mem_indented {c : Char} {indent : Nat} {atStart : Bool}
    (hcs : ∀ c ∈ cs, isAllowed c = true) (h : c ∈ Printer.indented indent atStart cs) :
    isAllowed c = true := by
  rcases mem_indented h with hc | rfl
  · exact hcs c hc
  · rfl

theorem isAllowed_of_mem_literalHints {c : Char} (h : c ∈ Printer.literalHints cs) :
    isAllowed c = true := by
  rw [literalHints_eq] at h
  have hsigns : c ∈ ['2', '-', '+'] := by
    rcases List.mem_append.1 h with h | h <;> split at h <;> simp_all
  revert hsigns
  simp only [List.mem_cons, List.not_mem_nil, or_false]
  rintro (rfl | rfl | rfl) <;> rfl

theorem isAllowed_of_needsEscape (h : Printer.needsEscape cs = false) :
    ∀ c ∈ cs, isAllowed c = true := fun c hc =>
  isAllowed_of_isPrintable (by simpa using List.any_eq_false.1 (Bool.or_eq_false_iff.1 h).1 c hc)

/-- What is written of a text holds only characters that a document may hold. -/
theorem Suits.allowed (h : Suits style cs) (indent : Nat) :
    ∀ c ∈ textIn style indent cs, isAllowed c = true := by
  cases style with
  | plain =>
      have hplain := h.1
      simp only [Printer.allowsPlain, Bool.not_eq_true', Bool.or_eq_false_iff] at hplain
      simp only [textIn, List.forall_mem_append, List.forall_mem_singleton]
      exact ⟨isAllowed_of_needsEscape hplain.1.1.2, rfl⟩
  | single =>
      have hsingle := h.1
      simp only [Printer.allowsSingle, Bool.not_eq_true', Bool.or_eq_false_iff] at hsingle
      have hcs : ∀ c ∈ cs.flatMap fun c => if c = '\'' then [c, c] else [c],
          isAllowed c = true := by
        intro c hc
        obtain ⟨d, hd, hc⟩ := List.mem_flatMap.1 hc
        have hcd : c = d := by
          split at hc
          · simpa using hc
          · exact List.mem_singleton.1 hc
        exact hcd ▸ isAllowed_of_needsEscape hsingle.1 d hd
      have hpadding : ∀ c ∈ (if cs.getLast?.any isBreak then Printer.padding indent else []),
          isAllowed c = true := by
        split
        · intro c hc
          rw [List.eq_of_mem_replicate hc]
          rfl
        · exact List.forall_mem_nil _
      simp only [textIn, List.forall_mem_append, List.forall_mem_cons]
      exact ⟨⟨⟨rfl, fun _ => isAllowed_of_mem_indented hcs⟩, hpadding⟩, rfl, rfl,
        List.forall_mem_nil _⟩
  | double =>
      simp only [textIn, List.forall_mem_append, List.forall_mem_cons, List.forall_mem_flatMap]
      exact ⟨⟨rfl, fun _ _ _ => isAllowed_of_mem_escaped⟩, rfl, rfl, List.forall_mem_nil _⟩
  | literal =>
      have hliteral : Printer.allowsLiteral cs = true := h
      simp only [Printer.allowsLiteral, Bool.not_eq_true', Bool.or_eq_false_iff] at hliteral
      have hend : ∀ c ∈ (if cs.getLast?.any isBreak then [] else ['\n']), isAllowed c = true := by
        split
        · exact List.forall_mem_nil _
        · exact List.forall_mem_singleton.2 rfl
      simp only [textIn, List.forall_mem_append, List.forall_mem_cons]
      exact ⟨⟨⟨rfl, fun _ => isAllowed_of_mem_literalHints⟩, rfl,
        fun _ => isAllowed_of_mem_indented (isAllowed_of_needsEscape hliteral.2)⟩, hend⟩
  | folded => exact h.elim

/-! ### Tokens -/

namespace Lexer

variable {b : Block} {p : Place} {key : Option KeyStart} {allowed : Bool} {t : Token}

theorem push_lexerAfter (allowed' : Bool) (q : Place) :
    (((b.lexerAfter p key allowed).allowKey allowed').emit t).moveTo q =
      (b.add [t]).lexerAfter q key allowed' := by
  simp [Block.lexerAfter, allowKey, emit, moveTo, Block.add]

end Lexer

/-- The key that may begin at a place. -/
def Block.keyAt (b : Block) (p : Place) (allowed : Bool) : Option KeyStart :=
  if allowed then some ⟨b.tokens.length, b.indent == p.column, p.index, p.line, p.column⟩ else none

namespace Lexer

variable {b : Block} {p : Place} {key : Option KeyStart} {allowed : Bool} {t : Token}

theorem saveKey_lexer :
    (b.lexer p allowed).saveKey = some (b.lexerAfter p (b.keyAt p allowed) allowed) := by
  cases allowed with
  | false => rfl
  | true =>
      simp [saveKey, removeKey, Block.lexer, Block.lexerAfter, Block.keyAt, inFlow]

theorem isGone_keyAt {line' : Nat} (hindent : b.indent < p.column) (hline : p.line < line') :
    IsGone (b.keyAt p allowed) line' := by
  intro start hstart
  cases allowed with
  | false => cases hstart
  | true =>
      cases hstart
      exact ⟨by simpa using Int.ne_of_lt hindent, hline⟩

/-- Where a text that can stand without quotes begins, it is read as such. -/
theorem lexToken_plain {x : Char} (hplain : Printer.allowsPlain cs = true) (hne : cs ≠ [])
    (hx : x ≠ '-' ∧ x ≠ '.') :
    (b.lexer ⟨cs ++ x :: tail, i, line, column⟩ allowed).lexToken =
      (b.lexer ⟨cs ++ x :: tail, i, line, column⟩ allowed).lexPlain := by
  obtain ⟨-, -, -, hmarked⟩ := tame_of_allowsPlain hplain
  have hmarker : (Place.mk (cs ++ x :: tail) i line column).onMarker = false :=
    not_onMarker_of_not_startsMarked hmarked hne hx
  obtain ⟨c, cs, rfl⟩ := List.exists_cons_of_ne_nil hne
  obtain ⟨hsigns, hahead⟩ := of_not_startsMarked hmarked
  have hc : isBlank c = false ∧ isBreak c = false := by
    simpa [Solid] using (tame_of_allowsPlain hplain).2.1
  have hnext : c = '?' ∨ c = ':' ∨ c = '-' →
      ∃ d ds, cs ++ x :: tail = d :: ds ∧ isBlank d = false ∧ isBreak d = false := by
    intro hsign
    cases cs with
    | nil => cases hahead hsign
    | cons d ds =>
        have hd := hahead hsign
        simp only [Printer.blankAhead, Bool.or_eq_false_iff] at hd
        exact ⟨d, ds ++ x :: tail, rfl, hd.1.1, hd.1.2⟩
  simp only [List.mem_cons, not_or, List.not_mem_nil, not_false_eq_true, and_true] at hsigns
  rw [List.cons_append] at hmarker ⊢
  have hflow : ∀ p : Place, (b.lexer p allowed).inFlow = false := fun _ => rfl
  rw [lexToken]
  by_cases hsign : c = '?' ∨ c = ':' ∨ c = '-'
  · obtain ⟨d, ds, htail, hblank, hbreak⟩ := hnext hsign
    rw [htail] at hmarker ⊢
    simp only [Block.place_lexer, hflow, Place.head?, List.head?_cons, hmarker]
    rcases hsign with rfl | rfl | rfl <;>
      simp [startsPlain, hflow, Place.head?, Place.blankOrEndAt, Place.at?, hblank, hbreak]
  · rw [not_or, not_or] at hsign
    simp only [Block.place_lexer, hflow, Place.head?, List.head?_cons, hmarker]
    simp [startsPlain, Place.head?, hsigns, hsign, hc]

theorem lexToken_quoted {single : Bool} :
    (b.lexer ⟨quoteOf single :: tail, i, line, column⟩ allowed).lexToken =
      (b.lexer ⟨quoteOf single :: tail, i, line, column⟩ allowed).lexQuoted single := by
  cases single <;>
    simp [lexToken, Block.lexer, Block.lexerAfter, Place.head?, Place.onMarker, quoteOf]

theorem lexToken_literal :
    (b.lexer ⟨'|' :: tail, i, line, column⟩ allowed).lexToken =
      (b.lexer ⟨'|' :: tail, i, line, column⟩ allowed).lexBlockScalar true := by
  simp [lexToken, Block.lexer, Block.lexerAfter, Place.head?, Place.onMarker, inFlow]

theorem lexPlain_eq {text : List Char} {q : Place} {ends : Bool}
    (h : plainScalar false b.indent p = some (text, q, ends)) :
    (b.lexer p allowed).lexPlain = some ((b.add [.scalar (String.ofList text) .plain]).lexerAfter q
      (b.keyAt p allowed) ends) := by
  have hplain : plainScalar (b.lexerAfter p (b.keyAt p allowed) allowed).inFlow
      (b.lexerAfter p (b.keyAt p allowed) allowed).indent
      (b.lexerAfter p (b.keyAt p allowed) allowed).place = some (text, q, ends) := h
  simp only [lexPlain, saveKey_lexer, Option.bind_eq_bind, Option.bind_some, hplain, push_lexerAfter]

theorem lexQuoted_eq {single : Bool} {text : List Char} {q : Place}
    (h : quotedScalar single p.next = some (text, q)) :
    (b.lexer p allowed).lexQuoted single =
      some ((b.add [.scalar (String.ofList text) (quotedStyle single)]).lexerAfter q
        (b.keyAt p allowed) false) := by
  have hquoted : quotedScalar single (b.lexerAfter p (b.keyAt p allowed) allowed).place.next =
      some (text, q) := h
  simp only [lexQuoted, saveKey_lexer, Option.bind_eq_bind, Option.bind_some, hquoted,
    push_lexerAfter, quotedStyle]

theorem lexBlockScalar_eq {text : List Char} {q : Place}
    (h : blockScalar true b.indent p.next = some (text, q)) :
    (b.lexer p allowed).lexBlockScalar true =
      some ((b.add [.scalar (String.ofList text) .literal]).lexer q true) := by
  have hblock : blockScalar true (b.lexerAfter p none allowed).indent
      (b.lexerAfter p none allowed).place.next = some (text, q) := h
  have hkey : (b.lexerAfter p none allowed).removeKey = some (b.lexerAfter p none allowed) := rfl
  simp only [lexBlockScalar, Block.lexer, hkey, Option.bind_eq_bind, Option.bind_some, hblock,
    push_lexerAfter, if_true]

end Lexer

open Lexer (Begins Leads Steps)

/-- A text in quotes is read as one token. -/
theorem steps_quoted {b : Block} {indent : Nat} {allowed single : Bool} (h : Quotable single cs)
    (hindent : b.indent < column) (hrest : Begins rest) :
    ∃ i' line', Steps (b.lexer ⟨textIn (quotedStyle single) (indent + 2) cs ++
        (Lexer.spaces k ++ rest), i, line, column⟩ allowed)
      (((b.add [.scalar (String.ofList cs) (quotedStyle single)]).close k).lexer
        ⟨rest, i', line', k⟩ true) := by
  have htext : textIn (quotedStyle single) (indent + 2) cs ++ (Lexer.spaces k ++ rest) =
      quoteOf single :: (inner single (indent + 2) cs ++
        quoteOf single :: '\n' :: (Lexer.spaces k ++ rest)) := by
    rw [textIn_quotedStyle, List.cons_append, List.append_assoc]
    rfl
  obtain ⟨i', line', column', hscalar, hline, -⟩ := @quotedScalar_inner (i + 1) line
    (column + 1) cs ('\n' :: (Lexer.spaces k ++ rest)) single (indent + 2) h
    (fun _ _ => Nat.succ_pos _) (fun _ => by simp) (Nat.succ_pos column)
  have htoken := Lexer.lexToken_quoted.trans (@Lexer.lexQuoted_eq b
    ⟨quoteOf single :: (inner single (indent + 2) cs ++
      quoteOf single :: '\n' :: (Lexer.spaces k ++ rest)), i, line, column⟩ allowed _ _ _ hscalar)
  rw [htext]
  refine ⟨_, _, Leads.steps htoken ?_ (Lexer.leads_line hrest
    (Lexer.isGone_keyAt hindent (Nat.lt_succ_of_le hline)) .refl)⟩
  simp only [Block.place_lexer, Block.place_lexerAfter, List.length_cons, List.length_append]
  omega

/-- A literal block is read as one token. -/
theorem steps_literal {b : Block} {indent : Nat} {allowed : Bool} (h : Printer.allowsLiteral cs = true)
    (hindent : b.indent = indent) (hk : k ≤ indent) (hrest : Begins rest) :
    ∃ i' line', Steps (b.lexer ⟨textIn .literal (indent + 2) cs ++ (Lexer.spaces k ++ rest), i, line,
        column⟩ allowed)
      (((b.add [.scalar (String.ofList cs) .literal]).close k).lexer ⟨rest, i', line', k⟩ true) := by
  have htext : textIn .literal (indent + 2) cs ++ (Lexer.spaces k ++ rest) =
      '|' :: (Printer.literalHints cs ++ '\n' ::
        (Printer.indented (indent + 2) true (ended cs) ++ (Lexer.spaces k ++ rest))) := by
    rw [textIn, ← indented_ended]
    simp
  obtain ⟨i', line', hscalar⟩ := @blockScalar_literal (i + 1) line (column + 1) k cs rest
    indent h hrest hk
  rw [← hindent] at hscalar
  have htoken := Lexer.lexToken_literal.trans (@Lexer.lexBlockScalar_eq b
    ⟨'|' :: (Printer.literalHints cs ++ '\n' ::
      (Printer.indented (indent + 2) true (ended cs) ++ (Lexer.spaces k ++ rest))), i, line, column⟩
    allowed _ _ hscalar)
  rw [htext]
  refine ⟨_, _, Leads.steps htoken ?_ (Lexer.leads_spaces (k := 0) hrest (Lexer.isGone_none _) .refl)⟩
  simp only [Block.place_lexer, List.length_cons, List.length_append]
  omega

/-- A text without quotes is read as one token, up to the end of its line. -/
theorem steps_plain {b : Block} {indent : Nat} {allowed : Bool} (hplain : Printer.allowsPlain cs = true)
    (hne : cs ≠ []) (hindent : b.indent = indent) (hcolumn : indent < column) (hk : k ≤ indent)
    (hrest : Begins rest) :
    ∃ i' line', Steps (b.lexer ⟨textIn .plain (indent + 2) cs ++ (Lexer.spaces k ++ rest), i, line,
        column⟩ allowed)
      (((b.add [.scalar (String.ofList cs) .plain]).close k).lexer ⟨rest, i', line', k⟩ true) := by
  have hbelow : b.indent < (column : Int) := by
    rw [hindent]
    exact Int.ofNat_lt.2 hcolumn
  have hscalar := @plainScalar_line i line column k cs rest indent hplain hne hrest hk
    (Nat.le_of_lt hcolumn)
  rw [← hindent] at hscalar
  have htoken := (Lexer.lexToken_plain hplain hne (by decide)).trans
    (@Lexer.lexPlain_eq b _ allowed _ _ _ hscalar)
  rw [textIn, List.append_assoc, List.singleton_append]
  refine ⟨_, _, Leads.steps htoken ?_ (Lexer.leads_spaces (k := 0) hrest
    (Lexer.isGone_keyAt hbelow (Nat.lt_succ_self line)) .refl)⟩
  simp only [Block.place_lexer, Block.place_lexerAfter, List.length_cons, List.length_append]
  omega

/-- **What is written of a text in a style that suits it is read as one token**, up to the place where
the next token begins. -/
theorem Suits.steps_textIn {b : Block} {indent : Nat} {allowed : Bool} (h : Suits style cs)
    (hindent : b.indent = indent) (hcolumn : indent < column) (hk : k ≤ indent) (hrest : Begins rest) :
    ∃ i' line', Steps (b.lexer ⟨textIn style (indent + 2) cs ++ (Lexer.spaces k ++ rest), i, line,
        column⟩ allowed)
      (((b.add [.scalar (String.ofList cs) style]).close k).lexer ⟨rest, i', line', k⟩ true) := by
  have hbelow : b.indent < (column : Int) := by
    rw [hindent]
    exact Int.ofNat_lt.2 hcolumn
  cases style with
  | plain => exact steps_plain h.1 h.2 hindent hcolumn hk hrest
  | single => exact steps_quoted (quotable_of_allowsSingle h.1 h.2) hbelow hrest
  | double => exact steps_quoted quotable_double hbelow hrest
  | literal => exact steps_literal h hindent hk hrest
  | folded => exact h.elim

end StyleContract.Yaml
