import StyleContract.Proofs.Yaml.Quoted

/-!
# Proofs — Yaml — Literal

A literal block is read as the text that was written. Its lines are read one after another
(`blockLines_indented`): what was read is a text that ends within a line, the end of that line, and the
empty lines after it. The signs after the bar say which of these count.
-/

namespace StyleContract.Yaml
open Printer (indented literalHints)

variable {i line column k : Nat} {cs ds rest tail : List Char}

/-! ### Lines -/

/-- A line break that a literal block keeps. -/
def IsLine (c : Char) : Prop := c = '\n' ∨ IsKept c

theorem IsLine.isBreak {c : Char} (h : IsLine c) : isBreak c = true := by
  rcases h with rfl | h
  · rfl
  · exact h.isBreak

theorem IsLine.not_space {c : Char} (h : IsLine c) : c ≠ ' ' ∧ c ≠ '\t' := by
  rcases h with rfl | rfl | rfl <;> decide

theorem nextLine_line {c : Char} (h : IsLine c) :
    (Place.mk (c :: rest) i line column).nextLine = (⟨rest, i + 1, line + 1, 0⟩, [c]) := by
  rcases h with rfl | h
  · rfl
  · exact nextLine_kept h

theorem isLine_of_isPrintable {c : Char} (h : Printer.isPrintable c = true)
    (hbreak : isBreak c = true) : IsLine c := by
  simp only [isBreak, Bool.or_eq_true, beq_iff_eq, or_assoc] at hbreak
  rcases hbreak with rfl | rfl | rfl | hkept
  · exact .inl rfl
  · exact absurd h (by decide)
  · exact absurd h (by decide)
  · exact .inr hkept

/-! ### Empty lines -/

theorem length_takeWhile_spaces :
    ((Lexer.spaces k ++ rest).takeWhile (· == ' ')).length =
      k + (rest.takeWhile (· == ' ')).length := by
  have hspaces : ∀ c ∈ Lexer.spaces k, (c == ' ') = true := fun c hc =>
    beq_iff_eq.2 (List.eq_of_mem_replicate hc)
  rw [List.takeWhile_append_of_pos hspaces, List.length_append, Lexer.spaces, List.length_replicate]

/-- How far empty lines lead: up to the indentation, or to what stands before it. -/
def Reaches (indent k : Nat) (rest : List Char) : Prop :=
  0 < indent ∧ k = indent ∨ rest.head? ≠ some ' ' ∧ (indent = 0 ∨ k ≤ indent)

theorem Reaches.skipped {indent : Nat} (h : Reaches indent k rest) :
    (if indent = 0 then ((Lexer.spaces k ++ rest).takeWhile (· == ' ')).length
      else min ((Lexer.spaces k ++ rest).takeWhile (· == ' ')).length indent) = k := by
  rw [length_takeWhile_spaces]
  rcases h with ⟨hpos, rfl⟩ | ⟨hrest, hindent⟩
  · rw [if_neg (Nat.ne_of_gt hpos)]
    exact Nat.min_eq_right (Nat.le_add_right _ _)
  · have hnone : rest.takeWhile (· == ' ') = [] := by
      cases rest with
      | nil => rfl
      | cons c cs =>
          have hc : (c == ' ') = false := by simpa using hrest
          rw [List.takeWhile_cons, hc]
          rfl
    rw [hnone, List.length_nil, Nat.add_zero]
    split
    · rfl
    · exact Nat.min_eq_left (hindent.resolve_left ‹_›)

theorem reaches_of_begins {indent : Nat} (h : Lexer.Begins rest) (hk : k ≤ indent) :
    Reaches indent k rest ∧ ∀ c, rest.head? = some c → c ≠ '\t' ∧ isBreak c = false := by
  refine ⟨.inr ⟨fun hspace => ?_, .inr hk⟩, fun c hc => ?_⟩
  · obtain ⟨cs, rfl⟩ := List.head?_eq_some_iff.1 hspace
    exact (Lexer.begins_cons.1 h).1 rfl
  · obtain ⟨cs, rfl⟩ := List.head?_eq_some_iff.1 hc
    obtain ⟨-, htab, -, -, hbreak⟩ := Lexer.begins_cons.1 h
    exact ⟨htab, hbreak⟩

theorem blockBreaks_lines {indent widest fuel : Nat} {g acc : List Char} (hg : ∀ c ∈ g, IsLine c)
    (hrest : ∀ c, rest.head? = some c → c ≠ '\t' ∧ isBreak c = false)
    (hreach : Reaches indent k rest) (hfuel : g.length < fuel) :
    blockBreaks fuel indent widest ⟨g ++ (Lexer.spaces k ++ rest), i, line, 0⟩ acc =
      some (⟨rest, i + g.length + k, line + g.length, k⟩, max widest k, acc ++ g) := by
  obtain ⟨fuel, rfl⟩ : ∃ n, fuel = n + 1 := Nat.exists_eq_add_of_le' (Nat.one_le_of_lt hfuel)
  -- one more unit of fuel than there are empty lines: the last one sees that no other follows
  induction g generalizing i line widest acc fuel with
  | nil =>
      have hplace : (Place.mk (Lexer.spaces k ++ rest) i line 0).skip k =
          ⟨rest, i + k, line, k⟩ := by
        simp [Place.skip, Lexer.spaces]
      have htab : (Place.mk rest (i + k) line k).is '\t' = false := by
        cases rest with
        | nil => rfl
        | cons c cs => simpa [Place.is, Place.head?] using (hrest c rfl).1
      have hbreak : (Place.mk rest (i + k) line k).onBreak = false := by
        cases rest with
        | nil => rfl
        | cons c cs => exact (hrest c rfl).2
      simp only [List.nil_append, blockBreaks, Nat.sub_zero, hreach.skipped, hplace, htab, hbreak]
      simp
  | cons c g ih =>
      obtain ⟨fuel, rfl⟩ : ∃ n, fuel = n + 1 := Nat.exists_eq_add_of_le' (by simp at hfuel; omega)
      have hc : IsLine c := hg c List.mem_cons_self
      obtain ⟨hspace, htab⟩ := hc.not_space
      have hstep : blockBreaks (fuel + 1 + 1) indent widest
          ⟨c :: (g ++ (Lexer.spaces k ++ rest)), i, line, 0⟩ acc =
          blockBreaks (fuel + 1) indent (max widest 0)
            ⟨g ++ (Lexer.spaces k ++ rest), i + 1, line + 1, 0⟩ (acc ++ [c]) := by
        rw [blockBreaks]
        simp [Place.skip, hspace, htab, Place.is, Place.onBreak, Place.head?, hc.isBreak,
          nextLine_line hc]
      rw [List.cons_append, hstep, ih (fun d hd => hg d (List.mem_cons_of_mem _ hd)) fuel
        (by simpa using hfuel)]
      simp [Nat.add_assoc, Nat.add_comm 1]

/-! ### Lines with text -/

theorem blockLines_line {indent fuel : Nat} {b : BlockText} {w : List Char} {x : Char}
    (hne : w ≠ []) (hw : ∀ c ∈ w, isBreak c = false) (hx : IsLine x) :
    blockLines true indent (fuel + 1) ⟨w ++ x :: tail, i, line, indent⟩ b =
      (blockBreaks (tail.length + 1) indent 0 ⟨tail, i + w.length + 1, line + 1, 0⟩ []).bind fun r =>
        blockLines true indent fuel r.1
          ⟨b.text ++ b.lineEnd ++ b.emptyLines ++ w, [x], r.2.2, w.head?.any isBlank⟩ := by
  have hword : ∀ c ∈ w, (!isBreak c) = true := fun c hc => by simp [hw c hc]
  have htake : (w ++ x :: tail).takeWhile (!isBreak ·) = w := by
    rw [List.takeWhile_append_of_pos hword, List.takeWhile_cons, hx.isBreak]
    simp
  have hskip : (Place.mk (w ++ x :: tail) i line indent).skip w.length =
      ⟨x :: tail, i + w.length, line, indent + w.length⟩ := by
    simp [Place.skip]
  have hend : (Place.mk (w ++ x :: tail) i line indent).atEnd = false := by
    simp [Place.atEnd]
  have hblank : (Place.mk (w ++ x :: tail) i line indent).onBlank = w.head?.any isBlank := by
    cases w with
    | nil => exact absurd rfl hne
    | cons c w => rfl
  rw [blockLines]
  simp only [hend, htake, hskip, nextLine_line hx, hblank]
  cases blockBreaks (tail.length + 1) indent 0 ⟨tail, i + w.length + 1, line + 1, 0⟩ [] <;> simp

/-- A block ends where something does not stand at its indentation. -/
theorem blockLines_off {indent fuel : Nat} {b : BlockText} (h : column ≠ indent) :
    blockLines true indent fuel ⟨rest, i, line, column⟩ b =
      some (⟨rest, i, line, column⟩, b) := by
  cases fuel with
  | zero => rfl
  | succ fuel => exact if_neg fun hcolumn => h hcolumn.1

theorem indented_word {indent : Nat} {w : List Char} (hw : ∀ c ∈ w, isBreak c = false) :
    indented indent false (w ++ cs) = w ++ indented indent false cs := by
  induction w with
  | nil => rfl
  | cons c w ih =>
      rw [List.cons_append, indented, hw c List.mem_cons_self,
        ih fun d hd => hw d (List.mem_cons_of_mem _ hd)]
      rfl

/-- What stands of a line behind its indentation. -/
theorem head?_indented {indent : Nat} {c d : Char} (hc : isBreak c = false) (htab : c ≠ '\t')
    (h : (indented indent false (c :: cs) ++ tail).head? = some d) :
    d ≠ '\t' ∧ isBreak d = false := by
  rw [indented, hc] at h
  cases h
  exact ⟨htab, hc⟩

theorem indented_line {indent : Nat} {c : Char} (hc : isBreak c = false) :
    indented indent true (c :: cs) ++ tail =
      Lexer.spaces indent ++ (indented indent false (c :: cs) ++ tail) := by
  rw [indented_start hc, List.append_assoc]
  rfl

/-- Lines with text are one line with its end, empty lines, and more lines with text. -/
theorem exists_line (hlines : ∀ c ∈ ds, isBreak c = true → IsLine c) (hne : ds ≠ [])
    (hhead : ∀ c, ds.head? = some c → isBreak c = false) (hlast : ds.getLast?.any isBreak = true) :
    ∃ w x g more, ds = w ++ x :: (g ++ more) ∧ w ≠ [] ∧ (∀ c ∈ w, isBreak c = false) ∧ IsLine x ∧
      (∀ c ∈ g, IsLine c) ∧ (∀ c, more.head? = some c → isBreak c = false) ∧
      (more ≠ [] → more.getLast?.any isBreak = true) := by
  obtain ⟨w, s, rfl, hw, hs⟩ := exists_split isBreak ds
  have hwne : w ≠ [] := by
    rintro rfl
    obtain ⟨c, more, rfl⟩ := List.exists_cons_of_ne_nil hne
    exact absurd (hs c rfl) (by simpa using hhead c rfl)
  have hsne : s ≠ [] := by
    rintro rfl
    rw [List.append_nil, List.getLast?_eq_some_getLast hwne] at hlast
    exact absurd hlast (by simpa using hw _ (List.getLast_mem hwne))
  obtain ⟨x, s, rfl⟩ := List.exists_cons_of_ne_nil hsne
  obtain ⟨g, more, rfl, hg, hmore⟩ := exists_split (!isBreak ·) s
  refine ⟨w, x, g, more, rfl, hwne, hw, hlines x (by simp) (hs x rfl),
    fun c hc => hlines c (by simp [hc]) (by simpa using hg c hc),
    fun c hc => by simpa using hmore c hc, fun hmorene => ?_⟩
  rwa [List.getLast?_append_of_ne_nil w (List.cons_ne_nil x _), ← List.cons_append,
    List.getLast?_append_of_ne_nil _ hmorene] at hlast

/-- **The lines of a literal block are read as the text that they were written from**: the text up
to the end of its last line, that line's end, and empty lines. -/
theorem blockLines_indented {indent fuel : Nat} {b : BlockText} (hk : k < indent)
    (hrest : Lexer.Begins rest) (htab : '\t' ∉ ds)
    (hlines : ∀ c ∈ ds, isBreak c = true → IsLine c) (hne : ds ≠ [])
    (hhead : ∀ c, ds.head? = some c → isBreak c = false) (hlast : ds.getLast?.any isBreak = true)
    (hfuel : ds.length < fuel) :
    ∃ i' line' t x g flag, ds = t ++ x :: g ∧ isBreak x = true ∧ (∀ c ∈ g, isBreak c = true) ∧
      blockLines true indent fuel ⟨indented indent false ds ++ (Lexer.spaces k ++ rest), i, line,
        indent⟩ b = some (⟨rest, i', line', k⟩,
          ⟨b.text ++ b.lineEnd ++ b.emptyLines ++ t, [x], g, flag⟩) := by
  -- one line at a time: the end of the last line that was read is kept apart from the text
  induction hlength : ds.length using Nat.strong_induction_on generalizing ds i line b fuel with
  | _ n ih =>
      obtain ⟨fuel, rfl⟩ : ∃ n, fuel = n + 1 := Nat.exists_eq_add_of_le' (Nat.one_le_of_lt hfuel)
      obtain ⟨w, x, g, more, rfl, hwne, hw, hx, hg, hmore, hmorelast⟩ :=
        exists_line hlines hne hhead hlast
      have hbreaks : ∀ c ∈ x :: g, isBreak c = true :=
        List.forall_mem_cons.2 ⟨hx.isBreak, fun c hc => (hg c hc).isBreak⟩
      have htext : indented indent false (w ++ x :: (g ++ more)) =
          w ++ x :: (g ++ indented indent true more) := by
        rw [indented_word hw]
        exact congrArg (w ++ ·) (indented_breaks (List.cons_ne_nil x g) hbreaks)
      rw [htext, List.append_assoc, List.cons_append, List.append_assoc, blockLines_line hwne hw hx]
      cases more with
      | nil =>
          -- the lines end where the next token begins, which is not at their indentation
          obtain ⟨hreach, hnext⟩ := reaches_of_begins hrest (Nat.le_of_lt hk)
          have hempty := @blockBreaks_lines (i + w.length + 1) (line + 1) k rest indent 0
            ((g ++ (Lexer.spaces k ++ rest)).length + 1) g [] hg hnext hreach
            (Nat.lt_succ_of_le (by simp))
          rw [indented, List.nil_append, hempty, Option.bind_some, blockLines_off (Nat.ne_of_lt hk)]
          exact ⟨_, _, w, x, g, _, by rw [List.append_nil], hx.isBreak,
            fun c hc => (hg c hc).isBreak, rfl⟩
      | cons c more =>
          have hc : isBreak c = false := hmore c rfl
          have hempty := @blockBreaks_lines (i + w.length + 1) (line + 1) indent
            (indented indent false (c :: more) ++ (Lexer.spaces k ++ rest)) indent 0
            ((g ++ (Lexer.spaces indent ++
              (indented indent false (c :: more) ++ (Lexer.spaces k ++ rest)))).length + 1) g []
            hg (fun d => head?_indented hc fun hd => htab (by simp [hd]))
            (.inl ⟨Nat.lt_of_le_of_lt (Nat.zero_le k) hk, rfl⟩) (Nat.lt_succ_of_le (by simp))
          have hshort : (c :: more).length < n := by
            simp only [← hlength, List.length_append, List.length_cons]
            omega
          obtain ⟨i', line', t, x', g', flag, hmoreEq, hx', hg', hread⟩ :=
            @ih (c :: more).length hshort (i + w.length + 1 + g.length + indent)
              (line + 1 + g.length) (c :: more) fuel
              (⟨b.text ++ b.lineEnd ++ b.emptyLines ++ w, [x], g, w.head?.any isBlank⟩)
              (fun h => htab (by simp [h])) (fun d hd => hlines d (by simp [hd]))
              (List.cons_ne_nil c more) hmore (hmorelast (List.cons_ne_nil c more)) (by omega) rfl
          refine ⟨i', line', w ++ x :: (g ++ t), x', g', flag, ?_, hx', hg', ?_⟩
          · rw [hmoreEq]
            simp
          · rw [indented_line hc, hempty, Option.bind_some]
            refine hread.trans ?_
            simp

/-! ### The signs after the bar -/

/-- Whether the indentation of a text is written after the bar. -/
def isHinted (cs : List Char) : Bool := cs.head?.any fun c => Printer.isSpace c || isBreak c

/-- What the signs after the bar say of the line ends after a text. -/
def chompOf (cs : List Char) : Chomp :=
  if cs.getLast?.any isBreak then (if cs.dropLast.getLast?.all isBreak then .keep else .clip)
  else .strip

theorem literalHints_eq :
    literalHints cs = (if isHinted cs then ['2'] else []) ++
      match chompOf cs with
      | .strip => ['-']
      | .clip => []
      | .keep => ['+'] := by
  rw [literalHints]
  refine congrArg ((if isHinted cs then ['2'] else []) ++ ·) ?_
  cases cs using List.reverseRecOn with
  | nil => rfl
  | append_singleton cs a =>
      rw [List.reverse_append, chompOf, List.getLast?_concat, List.dropLast_concat]
      simp only [List.reverse_cons, List.reverse_nil, List.nil_append, List.singleton_append,
        List.head?_reverse, Option.any_some]
      by_cases ha : isBreak a = true
      · by_cases hcs : cs.getLast?.all isBreak = true <;> simp [ha, hcs]
      · simp [ha]

theorem blockHeader_literalHints :
    blockHeader ⟨literalHints cs ++ '\n' :: tail, i, line, column⟩ =
      some (chompOf cs, if isHinted cs then 2 else 0, ⟨'\n' :: tail, i + (literalHints cs).length, line,
        column + (literalHints cs).length⟩) := by
  rw [literalHints_eq]
  cases isHinted cs <;> cases chompOf cs <;> cases tail <;> rfl

/-! ### Whole texts -/

/-- A text with the line end after it. -/
def ended (cs : List Char) : List Char := cs ++ if cs.getLast?.any isBreak then [] else ['\n']

theorem getLast?_ended : (ended cs).getLast?.any isBreak = true := by
  rw [ended]
  split
  · next h => rwa [List.append_nil]
  · rw [List.getLast?_concat]
    rfl

theorem indented_ended {indent : Nat} :
    indented indent true cs ++ (if cs.getLast?.any isBreak then [] else ['\n']) =
      indented indent true (ended cs) := by
  have hline : ∀ atStart, indented indent atStart (cs ++ ['\n']) =
      indented indent atStart cs ++ ['\n'] := by
    induction cs with
    | nil => intro atStart; rfl
    | cons c cs ih =>
        intro atStart
        rw [List.cons_append, indented, indented, ih, ih]
        split <;> simp
  rw [ended]
  split
  · rw [List.append_nil, List.append_nil]
  · exact (hline true).symm

theorem indented_start_breaks {indent : Nat} {g : List Char} (hg : ∀ c ∈ g, isBreak c = true) :
    indented indent true (g ++ cs) = g ++ indented indent true cs := by
  by_cases hne : g = []
  · rw [hne]
    rfl
  · exact indented_breaks hne hg

/-- No empty lines were read after a text with one line end: a break before it would be among them. -/
theorem eq_nil_of_unbroken {t g : List Char} {x a : Char} (h : cs ++ [a] = t ++ x :: g)
    (hx : isBreak x = true) (hg : ∀ c ∈ g, isBreak c = true)
    (hcs : ∀ c, cs.getLast? = some c → isBreak c = false) : g = [] := by
  by_contra hgne
  obtain ⟨g', y, rfl⟩ : ∃ g' y, g = g' ++ [y] :=
    ⟨g.dropLast, g.getLast hgne, (List.dropLast_append_getLast hgne).symm⟩
  have hinit : cs = t ++ x :: g' := by
    have hends : cs ++ [a] = (t ++ x :: g') ++ [y] := by
      rw [h, List.append_assoc, List.cons_append]
    exact (List.append_inj' hends rfl).1
  have hbreaks : ∀ c ∈ x :: g', isBreak c = true :=
    List.forall_mem_cons.2 ⟨hx, fun c hc => hg c (List.mem_append_left _ hc)⟩
  have hlast := hcs ((x :: g').getLast (List.cons_ne_nil x g')) (by
    rw [hinit, List.getLast?_append_of_ne_nil t (List.cons_ne_nil x g'),
      List.getLast?_eq_some_getLast])
  rw [hbreaks _ (List.getLast_mem _)] at hlast
  cases hlast

/-- Of what was read, the signs after the bar keep what was written. -/
theorem chomp_eq {t g : List Char} {x : Char} (hne : cs ≠ []) (h : ended cs = t ++ x :: g)
    (hx : isBreak x = true) (hg : ∀ c ∈ g, isBreak c = true) :
    t ++ (if chompOf cs = .strip then [] else [x]) ++ (if chompOf cs = .keep then g else []) = cs := by
  obtain ⟨cs, a, rfl⟩ : ∃ cs' a, cs = cs' ++ [a] :=
    ⟨cs.dropLast, cs.getLast hne, (List.dropLast_append_getLast hne).symm⟩
  simp only [ended, chompOf, List.getLast?_concat, Option.any_some, List.dropLast_concat] at h ⊢
  by_cases ha : isBreak a = true
  · simp only [ha, if_true, List.append_nil] at h ⊢
    by_cases hall : cs.getLast?.all isBreak = true
    · simp [hall, h]
    · have hgnil : g = [] := eq_nil_of_unbroken h hx hg fun c hc => by simpa [hc] using hall
      simp [hall, h, hgnil]
  · have hended : cs ++ [a] ++ ['\n'] = t ++ x :: g := by simpa [ha] using h
    have hgnil : g = [] := eq_nil_of_unbroken hended hx hg fun c hc => by
      rw [List.getLast?_concat] at hc
      cases hc
      simpa using ha
    have htext : cs ++ [a] = t := by
      rw [hgnil] at hended
      exact (List.append_inj' hended rfl).1
    simp [ha, htext]

/-- What a block scalar is read as, from its signs, its first empty lines and its lines. -/
theorem blockScalar_eq {parent : Int} {increment given widest : Nat} {chomp : Chomp} {p q r : Place}
    {g : List Char} {b : BlockText}
    (hheader : blockHeader p = some (chomp, increment, ⟨'\n' :: tail, i, line, column⟩))
    (hgiven : given = if increment = 0 then 0 else (max parent 0).toNat + increment)
    (hbreaks : blockBreaks (tail.length + 1) given 0 ⟨tail, i + 1, line + 1, 0⟩ [] =
      some (q, widest, g))
    (hlines : blockLines true (if given = 0 then max (max widest (parent + 1).toNat) 1 else given)
      (q.rest.length + 1) q { emptyLines := g } = some (r, b)) :
    blockScalar true parent p = some (b.text ++ (if chomp = .strip then [] else b.lineEnd) ++
      (if chomp = .keep then b.emptyLines else []), r) := by
  have hskip : (Place.mk ('\n' :: tail) i line column).skipWhile isBlank =
      ⟨'\n' :: tail, i, line, column⟩ := rfl
  have hnumber : (Place.mk ('\n' :: tail) i line column).is '#' = false := rfl
  have hend : (Place.mk ('\n' :: tail) i line column).breakOrEnd = true := rfl
  have hnext : (Place.mk ('\n' :: tail) i line column).nextLine.1 = ⟨tail, i + 1, line + 1, 0⟩ := rfl
  subst hgiven
  simp only [blockScalar, hheader, Option.bind_eq_bind, Option.bind_some, hskip, hnumber, hend, hnext,
    hbreaks, hlines, not_true_eq_false, if_false, Bool.false_eq_true]

/-- A text of line breaks alone is kept as its empty lines. -/
theorem chompOf_breaks (hne : cs ≠ []) (h : ∀ c ∈ cs, isBreak c = true) :
    isHinted cs = true ∧ chompOf cs = .keep ∧ ended cs = cs := by
  have hlast : cs.getLast?.any isBreak = true := by
    rw [List.getLast?_eq_some_getLast hne]
    exact h _ (List.getLast_mem hne)
  have hbefore : cs.dropLast.getLast?.all isBreak = true := by
    cases hinit : cs.dropLast.getLast? with
    | none => rfl
    | some c => exact h c (List.dropLast_subset _ (List.mem_of_getLast? hinit))
  refine ⟨?_, by rw [chompOf, if_pos hlast, if_pos hbefore], by
    rw [ended, if_pos hlast, List.append_nil]⟩
  obtain ⟨c, cs, rfl⟩ := List.exists_cons_of_ne_nil hne
  simp [isHinted, h c List.mem_cons_self]

/-- The characters of a text that can be written as a literal block, and of the line end after it. -/
structure IsLiteral (cs : List Char) : Prop where
  ne_nil : cs ≠ []
  no_tab : '\t' ∉ ended cs
  isLine : ∀ c ∈ ended cs, isBreak c = true → IsLine c

theorem isLiteral_of_allowsLiteral (h : Printer.allowsLiteral cs = true) : IsLiteral cs := by
  simp only [Printer.allowsLiteral, Printer.needsEscape, Bool.not_eq_true', Bool.or_eq_false_iff,
    List.isEmpty_eq_false_iff] at h
  obtain ⟨⟨hne, -⟩, hprintable, -⟩ := h
  have hchars : ∀ c ∈ ended cs, Printer.isPrintable c = true := by
    intro c hc
    rcases List.mem_append.1 hc with hc | hc
    · simpa using List.any_eq_false.1 hprintable c hc
    · split at hc
      · cases hc
      · rw [List.mem_singleton.1 hc]
        rfl
  exact ⟨hne, fun hc => absurd (hchars _ hc) (by decide),
    fun c hc => isLine_of_isPrintable (hchars c hc)⟩

/-- The indentation that is written after the bar, or zero. -/
def givenIndent (parent : Nat) (cs : List Char) : Nat := if isHinted cs then parent + 2 else 0

theorem givenIndent_eq (parent : Nat) (cs : List Char) :
    givenIndent parent cs = if (if isHinted cs then 2 else 0) = 0 then 0
      else (max (parent : Int) 0).toNat + if isHinted cs then 2 else 0 := by
  rw [givenIndent, Int.max_eq_left (Int.natCast_nonneg parent), Int.toNat_natCast]
  split <;> rfl

/-- The lines of a block stand two columns further in, whether this is written or seen. -/
theorem indent_eq (parent : Nat) (cs : List Char) :
    (if givenIndent parent cs = 0 then max (max (max 0 (parent + 2)) ((parent : Int) + 1).toNat) 1
      else givenIndent parent cs) = parent + 2 := by
  rw [givenIndent]
  cases isHinted cs with
  | true => exact if_neg (Nat.succ_ne_zero _)
  | false =>
      show max (max (max 0 (parent + 2)) ((parent : Int) + 1).toNat) 1 = parent + 2
      omega

/-- The empty lines at the beginning lead to the first line with text. If the indentation is not
written, this line shows it, since it begins with no space. -/
theorem reaches_line {parent : Nat} {g more : List Char} {c : Char} (hne : cs ≠ [])
    (hends : ended cs = g ++ c :: more) (hg : ∀ d ∈ g, isBreak d = true) (hc : isBreak c = false) :
    Reaches (givenIndent parent cs) (parent + 2) (indented (parent + 2) false (c :: more) ++ tail) := by
  rw [givenIndent]
  by_cases hhinted : isHinted cs = true
  · rw [if_pos hhinted]
    exact .inl ⟨Nat.succ_pos _, rfl⟩
  · rw [if_neg hhinted]
    refine .inr ⟨?_, .inl rfl⟩
    obtain ⟨a, cs, rfl⟩ := List.exists_cons_of_ne_nil hne
    have ha : a ≠ ' ' ∧ isBreak a = false := by
      simpa [isHinted, Printer.isSpace] using hhinted
    rw [ended, List.cons_append] at hends
    rw [indented, hc]
    rintro ⟨⟩
    cases g with
    | nil => exact ha.1 (List.cons.inj hends).1
    | cons b g =>
        have hb : isBreak b = true := hg b List.mem_cons_self
        rw [← (List.cons.inj hends).1, ha.2] at hb
        cases hb

/-- A text of line breaks alone is read as the empty lines that it is. -/
theorem blockScalar_breaks {parent : Nat} (hcs : IsLiteral cs)
    (hbreaks : ∀ c ∈ ended cs, isBreak c = true) (hrest : Lexer.Begins rest) (hk : k ≤ parent) :
    ∃ i' line', blockScalar true parent
        ⟨literalHints cs ++ '\n' :: (ended cs ++ (Lexer.spaces k ++ rest)), i, line, column⟩ =
      some (cs, ⟨rest, i', line', k⟩) := by
  obtain ⟨hhinted, hchomp, hended⟩ := chompOf_breaks hcs.ne_nil fun c hc =>
    hbreaks c (List.mem_append_left _ hc)
  obtain ⟨hreach, hnext⟩ := @reaches_of_begins k rest (parent + 2) hrest (by omega)
  have hempty := @blockBreaks_lines (i + (literalHints cs).length + 1) (line + 1) k rest
    (parent + 2) 0 ((ended cs ++ (Lexer.spaces k ++ rest)).length + 1) (ended cs) []
    (fun c hc => hcs.isLine c hc (hbreaks c hc)) hnext hreach (Nat.lt_succ_of_le (by simp))
  have hgiven : parent + 2 = _ := (if_pos hhinted).symm.trans (givenIndent_eq parent cs)
  have hheader := @blockHeader_literalHints i line column cs (ended cs ++ (Lexer.spaces k ++ rest))
  have hscalar := blockScalar_eq hheader hgiven hempty (blockLines_off (by simp; omega))
  have hread : [] ++ (if chompOf cs = .strip then [] else []) ++
      (if chompOf cs = .keep then [] ++ ended cs else []) = cs := by
    rw [hchomp, hended]
    rfl
  rw [hscalar]
  exact ⟨_, _, congrArg (fun text => some (text, _)) hread⟩

/-- A text that has a line is read with the empty lines before it. -/
theorem blockScalar_lines {parent : Nat} {g more : List Char} {c : Char} (hcs : IsLiteral cs)
    (hends : ended cs = g ++ c :: more) (hg : ∀ d ∈ g, isBreak d = true) (hc : isBreak c = false)
    (hrest : Lexer.Begins rest) (hk : k ≤ parent) :
    ∃ i' line', blockScalar true parent ⟨literalHints cs ++ '\n' :: (g ++
        (indented (parent + 2) true (c :: more) ++ (Lexer.spaces k ++ rest))), i, line, column⟩ =
      some (cs, ⟨rest, i', line', k⟩) := by
  have hkept : ∀ d ∈ g, IsLine d := fun d hd => hcs.isLine d (by simp [hends, hd]) (hg d hd)
  have htab : '\t' ∉ c :: more := fun h => hcs.no_tab (hends ▸ List.mem_append_right g h)
  have hempty := @blockBreaks_lines (i + (literalHints cs).length + 1) (line + 1) (parent + 2)
    (indented (parent + 2) false (c :: more) ++ (Lexer.spaces k ++ rest)) _ 0
    ((g ++ (Lexer.spaces (parent + 2) ++
      (indented (parent + 2) false (c :: more) ++ (Lexer.spaces k ++ rest)))).length + 1) g []
    hkept (fun d => head?_indented hc fun hd => htab (by simp [hd]))
    (reaches_line hcs.ne_nil hends hg hc) (Nat.lt_succ_of_le (by simp))
  have hlast : (c :: more).getLast?.any isBreak = true := by
    rw [← List.getLast?_append_of_ne_nil g (List.cons_ne_nil c more), ← hends]
    exact getLast?_ended
  obtain ⟨i', line', t, x, g', flag, hmore, hx, hg', hlines⟩ := @blockLines_indented
    (i + (literalHints cs).length + 1 + g.length + (parent + 2))
    (line + 1 + g.length) k (c :: more) rest (parent + 2)
    ((indented (parent + 2) false (c :: more) ++ (Lexer.spaces k ++ rest)).length + 1)
    { emptyLines := g } (by omega) hrest htab
    (fun d hd => hcs.isLine d (by rw [hends]; simp [hd])) (List.cons_ne_nil c more)
    (by rintro d ⟨⟩; exact hc) hlast (by
      have hlength := length_le_indented (parent + 2) false (c :: more)
      rw [List.length_append]
      omega)
  have hheader := @blockHeader_literalHints i line column cs (g ++ (Lexer.spaces (parent + 2) ++
    (indented (parent + 2) false (c :: more) ++ (Lexer.spaces k ++ rest))))
  have hscalar := blockScalar_eq hheader (givenIndent_eq parent cs) hempty
    (by rw [indent_eq]; exact hlines)
  have hread : g ++ t ++ (if chompOf cs = .strip then [] else [x]) ++
      (if chompOf cs = .keep then g' else []) = cs :=
    chomp_eq hcs.ne_nil (by rw [hends, hmore, List.append_assoc]) hx hg'
  rw [indented_line hc, hscalar]
  exact ⟨i', line', by simpa using hread⟩

/-- **A literal block is read as the text it was written from.** -/
theorem blockScalar_literal {parent : Nat} (h : Printer.allowsLiteral cs = true)
    (hrest : Lexer.Begins rest) (hk : k ≤ parent) :
    ∃ i' line', blockScalar true parent ⟨literalHints cs ++ '\n' ::
        (indented (parent + 2) true (ended cs) ++ (Lexer.spaces k ++ rest)), i, line, column⟩ =
      some (cs, ⟨rest, i', line', k⟩) := by
  have hcs : IsLiteral cs := isLiteral_of_allowsLiteral h
  obtain ⟨g, more, hends, hg, hmore⟩ := exists_split (!isBreak ·) (ended cs)
  have hbreaks : ∀ c ∈ g, isBreak c = true := fun c hc => by simpa using hg c hc
  rw [hends, indented_start_breaks hbreaks, List.append_assoc]
  cases more with
  | nil =>
      rw [List.append_nil] at hends
      subst hends
      exact blockScalar_breaks hcs hbreaks hrest hk
  | cons c more =>
      exact blockScalar_lines hcs hends hbreaks (by simpa using hmore c rfl) hrest hk

end StyleContract.Yaml
