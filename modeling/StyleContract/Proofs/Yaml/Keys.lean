import StyleContract.Proofs.Yaml.Scalars

/-!
# Proofs — Yaml — Keys

A key on the line of its value is known as one by the colon after it: its tokens are then put in where
it began, which is not too far back (`length_keyText`).
-/

namespace StyleContract.Yaml
open Printer (styleOf keyText isShortKey)
open Lexer (Begins Leads Steps)

variable {i line column k : Nat} {cs rest tail : List Char} {key : String} {b : Block} {t : Token}

/-! ### The text of a key -/

/-- How a key is written. -/
theorem exists_keyText (h : isShortKey key = true) :
    (styleOf key = .plain ∧ Printer.allowsPlain key.toList = true ∧ key.toList ≠ [] ∧
        (keyText key).toList = key.toList) ∨
      ∃ single, styleOf key = quotedStyle single ∧ Quotable single key.toList ∧
        (keyText key).toList = quoteOf single :: (inner single 0 key.toList ++ [quoteOf single]) := by
  have hbreaks : key.toList.any isBreak = false := by
    simpa [Printer.hasLines] using (Bool.and_eq_true_iff.1 h).1
  have hline : '\n' ∉ key.toList := fun hline => by
    simpa [isBreak] using List.any_eq_false.1 hbreaks _ hline
  have hquoted : ∀ single, (Printer.textIn (quotedStyle single) 0 key.toList).dropLast =
      quoteOf single :: (inner single 0 key.toList ++ [quoteOf single]) := by
    intro single
    rw [textIn_quotedStyle, show [quoteOf single, '\n'] = [quoteOf single] ++ ['\n'] from rfl,
      ← List.append_assoc, ← List.cons_append, List.dropLast_concat]
  have hsuits := suits_styleOf key
  have hkey : (keyText key).toList = (Printer.textIn (styleOf key) 0 key.toList).dropLast := by
    rw [keyText, String.toList_ofList]
  have hstyle : styleOf key ≠ .literal := by
    unfold styleOf
    dsimp only
    rw [if_neg (by simpa using hline)]
    split
    · decide
    · split <;> decide
  cases hcase : styleOf key with
  | plain =>
      rw [hcase] at hsuits
      refine .inl ⟨rfl, hsuits.1, hsuits.2, ?_⟩
      rw [hkey, hcase, Printer.textIn, List.dropLast_concat]
  | single =>
      rw [hcase] at hsuits
      refine .inr ⟨true, rfl, quotable_of_allowsSingle hsuits.1 hline, ?_⟩
      rw [hkey, hcase]
      exact hquoted true
  | double =>
      refine .inr ⟨false, rfl, quotable_double, ?_⟩
      rw [hkey, hcase]
      exact hquoted false
  | literal => exact absurd hcase hstyle
  | folded =>
      rw [hcase] at hsuits
      exact hsuits.elim

theorem utf8Size_eq (c : Char) :
    c.utf8Size = if c.toNat ≤ 0x7F then 1 else if c.toNat ≤ 0x7FF then 2
      else if c.toNat ≤ 0xFFFF then 3 else 4 := by
  simp only [Char.utf8Size, UInt32.le_iff_toNat_le]
  rfl

theorem length_escaped_le (c : Char) : (Printer.escaped c).length ≤ 4 * c.utf8Size := by
  have hpos : 0 < c.utf8Size := c.utf8Size_pos
  unfold Printer.escaped
  split
  case h_15 =>
    split
    · rw [List.length_singleton]
      omega
    · split
      · next hle =>
        have hlength : (Printer.hexPadded 2 c.toNat).length = 2 :=
          (hexPadded_spec (by decide) (by omega)).1
        simp only [List.length_cons, hlength]
        omega
      · next hone =>
        split
        · next hle =>
          have hlength : (Printer.hexPadded 4 c.toNat).length = 4 :=
            (hexPadded_spec (by decide) (by omega)).1
          have hsize : 2 ≤ c.utf8Size := by
            rw [utf8Size_eq]
            split_ifs <;> omega
          simp only [List.length_cons, hlength]
          omega
        · next htwo =>
          have hvalid : c.toNat < 0xD800 ∨ 0xDFFF < c.toNat ∧ c.toNat < 0x110000 := c.valid
          have hlength : (Printer.hexPadded 8 c.toNat).length = 8 :=
            (hexPadded_spec (by decide) (by omega)).1
          have hsize : 4 ≤ c.utf8Size := by
            rw [utf8Size_eq]
            split_ifs <;> omega
          simp only [List.length_cons, hlength]
          omega
  all_goals
    simp only [List.length_cons, List.length_nil]
    omega

theorem length_encoded_le (single : Bool) (c : Char) :
    (encoded single c).length ≤ 4 * c.utf8Size := by
  cases single with
  | false => exact length_escaped_le c
  | true =>
      have hpos : 0 < c.utf8Size := c.utf8Size_pos
      have hlength : (encoded true c).length ≤ 2 := by
        rw [encoded, if_pos rfl]
        split <;> simp
      omega

theorem length_inner_le {single : Bool} (hline : ∀ c ∈ cs, isBreak c = false) :
    (inner single 0 cs).length ≤ 4 * (String.ofList cs).utf8ByteSize := by
  induction cs with
  | nil =>
      rw [inner_nil]
      exact Nat.zero_le _
  | cons c cs ih =>
      have hc : (single && isBreak c) = false := by
        rw [hline c List.mem_cons_self, Bool.and_false]
      have hlength := length_encoded_le single c
      have hrest := ih fun d hd => hline d (List.mem_cons_of_mem c hd)
      rw [inner_cons hc, List.length_append, String.ofList_cons, String.utf8ByteSize_append,
        String.utf8ByteSize_singleton]
      omega

/-- The text of a key is short. -/
theorem length_keyText (h : isShortKey key = true) : (keyText key).toList.length ≤ 1024 := by
  obtain ⟨hbreaks, hsize⟩ := Bool.and_eq_true_iff.1 h
  have hline : ∀ c ∈ key.toList, isBreak c = false := by
    simpa [Printer.hasLines] using hbreaks
  have hbytes : (String.ofList key.toList).utf8ByteSize ≤ 128 := by simpa using hsize
  rcases exists_keyText h with ⟨-, -, -, htext⟩ | ⟨single, -, -, htext⟩
  · have hlength := @length_inner_le _ false hline
    have hshorter := @length_le_inner false 0 key.toList
    rw [htext]
    omega
  · have hlength := @length_inner_le _ single hline
    rw [htext]
    simp only [List.length_cons, List.length_append, List.length_nil]
    omega

/-- How a key begins. -/
theorem begins_keyText (h : isShortKey key = true) : Begins ((keyText key).toList ++ rest) := by
  rcases exists_keyText h with ⟨-, hplain, hne, htext⟩ | ⟨single, -, -, htext⟩
  · rw [htext]
    exact begins_of_allowsPlain hplain hne
  · rw [htext]
    cases single <;> exact Lexer.begins_cons.2 (by decide)

/-! ### The tokens of a key -/

/-- What follows the colon of a key. -/
def FollowsColon (tail : List Char) : Prop :=
  tail.head?.all (fun c => isBlank c || isBreak c) = true

/-- The text of a key is read as one token, up to the colon. -/
theorem lexToken_keyText {allowed : Bool} (h : isShortKey key = true) (hindent : b.indent ≤ column)
    (htail : FollowsColon tail) :
    (b.lexer ⟨(keyText key).toList ++ ':' :: tail, i, line, column⟩ allowed).lexToken =
      some ((b.add [.scalar key (styleOf key)]).lexerAfter
        ⟨':' :: tail, i + (keyText key).toList.length, line,
          column + (keyText key).toList.length⟩
        (b.keyAt ⟨(keyText key).toList ++ ':' :: tail, i, line, column⟩ allowed) false) := by
  have hkey : String.ofList key.toList = key := String.ofList_toList
  rcases exists_keyText h with ⟨hstyle, hplain, hne, htext⟩ | ⟨single, hstyle, hquotable, htext⟩
  · rw [htext, hstyle, Lexer.lexToken_plain hplain hne (by decide),
      Lexer.lexPlain_eq (plainScalar_key hplain hne hindent htail), hkey]
  · have hbreaks : key.toList.any isBreak = false := by
      simpa [Printer.hasLines] using (Bool.and_eq_true_iff.1 h).1
    obtain ⟨i', line', column', hscalar, -, hexact⟩ := @quotedScalar_inner (i + 1) line
      (column + 1) key.toList (':' :: tail) single 0 hquotable
      (fun _ hbreak => by rw [hbreaks] at hbreak; cases hbreak) (fun _ => by simp) (Nat.succ_pos column)
    obtain ⟨hi, hl, hc⟩ := hexact fun _ => hbreaks
    have hrest : (keyText key).toList ++ ':' :: tail =
        quoteOf single :: (inner single 0 key.toList ++ quoteOf single :: ':' :: tail) := by
      rw [htext, List.cons_append, List.append_assoc]
      rfl
    have hlength : (keyText key).toList.length = (inner single 0 key.toList).length + 2 := by
      rw [htext]
      simp
    have hplace : ∀ n, n + 1 + ((inner single 0 key.toList).length + 1) =
        n + (keyText key).toList.length := by omega
    rw [hi, hl, hc, hplace, hplace] at hscalar
    rw [hrest, hstyle, Lexer.lexToken_quoted, Lexer.lexQuoted_eq (p := ⟨quoteOf single ::
      (inner single 0 key.toList ++ quoteOf single :: ':' :: tail), i, line, column⟩) hscalar, hkey]

/-- The colon after a key puts the key's tokens in where it began. -/
theorem lexToken_colon {needed allowed : Bool} {start c : Nat} (htail : FollowsColon tail) :
    ((b.add [t]).lexerAfter ⟨':' :: tail, i, line, column⟩
        (some ⟨b.tokens.length, needed, start, line, c⟩) allowed).lexToken =
      some (((b.enter c .blockMappingStart).add [.key, t, .value]).lexer
        ⟨tail, i + 1, line, column + 1⟩ false) := by
  have hend : (Place.mk (':' :: tail) i line column).blankOrEndAt 1 = true := by
    cases tail <;> exact htail
  have htoken : ((b.add [t]).lexerAfter ⟨':' :: tail, i, line, column⟩
      (some ⟨b.tokens.length, needed, start, line, c⟩) allowed).lexToken =
      ((b.add [t]).lexerAfter ⟨':' :: tail, i, line, column⟩
        (some ⟨b.tokens.length, needed, start, line, c⟩) allowed).lexValue := by
    simp [Lexer.lexToken, Block.place_lexerAfter, Place.head?, Place.onMarker, hend]
  rw [htoken]
  obtain ⟨ts, indent, outer⟩ := b
  by_cases hlt : indent < (c : Int) <;>
    simp [Lexer.lexValue, Lexer.openBlock, Lexer.insert, Lexer.inFlow, Lexer.allowKey, Lexer.sign,
      Lexer.emit, Lexer.moveTo, Place.skip, Block.lexer, Block.lexerAfter, Block.add, Block.enter, hlt]

/-- **A short key is known as one by its colon**, and may open the block of its mapping. -/
theorem steps_key {l : Lexer} (h : isShortKey key = true) (hindent : b.indent ≤ column)
    (htail : FollowsColon tail)
    (hleads : Leads (((b.enter column .blockMappingStart).add
      [.key, .scalar key (styleOf key), .value]).lexer ⟨tail, i + (keyText key).toList.length + 1, line,
        column + (keyText key).toList.length + 1⟩ false) l) :
    Steps (b.lexer ⟨(keyText key).toList ++ ':' :: tail, i, line, column⟩ true) l := by
  have hlength := length_keyText h
  have htoken := @lexToken_keyText i line column tail key b true h hindent htail
  have hnear := @Lexer.settle_near (b.add [.scalar key (styleOf key)])
    ⟨':' :: tail, i + (keyText key).toList.length, line, column + (keyText key).toList.length⟩ false
    ⟨b.tokens.length, b.indent == column, i, line, column⟩
    (Lexer.begins_cons.2 (by decide)) rfl (Nat.add_le_add_left hlength i)
    (Int.le_trans hindent (Int.ofNat_le.2 (Nat.le_add_right _ _)))
  refine Leads.steps htoken ?_ ⟨_, hnear, Nat.le_refl _, Leads.steps (lexToken_colon htail) ?_ hleads⟩
  · have hpos : 0 < (keyText key).toList.length := by
      rcases exists_keyText h with ⟨-, -, hne, htext⟩ | ⟨single, -, -, htext⟩
      · rw [htext]
        exact List.length_pos_iff.2 hne
      · rw [htext]
        exact Nat.succ_pos _
    simp only [Block.place_lexer, Block.place_lexerAfter, List.length_append]
    omega
  · exact Nat.lt_succ_self _

end StyleContract.Yaml
