import StyleContract.Proofs.Yaml.Scanning
import StyleContract.Yaml.Printer

/-!
# Proofs — Yaml — Plain

A text without quotes is read up to its end, word by word (`plainBody_eq`): no word holds what ends
a scalar, and the blanks between two words are kept. It ends with its line, or before the colon of a
key.
-/

namespace StyleContract.Yaml
open Printer (holdsMark blankAhead)

variable {i line column k : Nat} {cs rest tail : List Char}

/-! ### Blanks -/

/-- The fold with blanks after it, which count only on the first line. -/
def Fold.addBlanks (f : Fold) (cs : List Char) : Fold :=
  if f.broken then f else { f with blanks := f.blanks ++ cs }

/-- What is neither a blank nor a line break comes next, or the end. -/
def Solid (rest : List Char) : Prop := rest.head?.all fun c => !(isBlank c || isBreak c)

theorem foldSpace_solid {indent : Option Nat} (h : Solid rest) (fuel : Nat) (f : Fold) :
    foldSpace indent fuel ⟨rest, i, line, column⟩ f = some (⟨rest, i, line, column⟩, f) := by
  cases fuel with
  | zero => rfl
  | succ fuel =>
      cases rest with
      | nil => rfl
      | cons c cs =>
          have hc : isBlank c = false ∧ isBreak c = false := by simpa [Solid] using h
          simp [foldSpace, Place.onBlank, Place.onBreak, Place.head?, hc.1, hc.2]

theorem foldSpace_spaces {indent : Option Nat} {fuel : Nat} (h : Solid rest) (f : Fold)
    (hfuel : k ≤ fuel) :
    foldSpace indent fuel ⟨Lexer.spaces k ++ rest, i, line, column⟩ f =
      some (⟨rest, i + k, line, column + k⟩, f.addBlanks (Lexer.spaces k)) := by
  induction k generalizing i column f fuel with
  | zero =>
      have hnone : f.addBlanks (Lexer.spaces 0) = f := by
        simp [Fold.addBlanks, Lexer.spaces]
      rw [hnone]
      exact foldSpace_solid h fuel f
  | succ k ih =>
      obtain ⟨fuel, rfl⟩ : ∃ n, fuel = n + 1 := Nat.exists_eq_add_of_le' (by omega)
      have hstep : foldSpace indent (fuel + 1)
          ⟨Lexer.spaces (k + 1) ++ rest, i, line, column⟩ f =
          foldSpace indent fuel ⟨Lexer.spaces k ++ rest, i + 1, line, column + 1⟩
            (f.addBlanks [' ']) := by
        cases hbroken : f.broken <;>
          simp [foldSpace, Lexer.spaces, List.replicate_succ, Place.onBlank, Place.is,
            Place.head?, Place.next, isBlank, Fold.addBlanks, hbroken]
      -- whether the spaces are kept depends only on a break before them, and a space is no break
      have hblanks : (f.addBlanks [' ']).addBlanks (Lexer.spaces k) =
          f.addBlanks (Lexer.spaces (k + 1)) := by
        cases hbroken : f.broken <;>
          simp [Fold.addBlanks, Lexer.spaces, List.replicate_succ, hbroken]
      rw [hstep, ih _ (by omega), hblanks]
      congr 3 <;> omega

/-- A line end is folded with the spaces after it. -/
theorem foldSpace_line {indent : Option Nat} {fuel : Nat} (h : Solid rest) (hfuel : k + 1 ≤ fuel) :
    foldSpace indent fuel ⟨'\n' :: (Lexer.spaces k ++ rest), i, line, column⟩ {} =
      some (⟨rest, i + 1 + k, line + 1, k⟩, { broken := true, first := ['\n'] }) := by
  obtain ⟨fuel, rfl⟩ : ∃ n, fuel = n + 1 := Nat.exists_eq_add_of_le' (by omega)
  have hstep : foldSpace indent (fuel + 1) ⟨'\n' :: (Lexer.spaces k ++ rest), i, line, column⟩ {} =
      foldSpace indent fuel ⟨Lexer.spaces k ++ rest, i + 1, line + 1, 0⟩
        { broken := true, first := ['\n'] } := rfl
  rw [hstep, foldSpace_spaces h _ (by omega), Nat.zero_add]
  rfl

/-! ### Words -/

theorem blankAhead_eq_false (h : blankAhead cs = false) :
    ∃ c more, cs = c :: more ∧ isBlank c = false ∧ isBreak c = false := by
  cases cs with
  | nil => cases h
  | cons c more =>
      have hc : (isBlank c = false ∧ isBreak c = false) ∧ c ≠ '\x00' := by
        simpa [blankAhead, not_or] using h
      exact ⟨c, more, rfl, hc.1⟩

/-- A word is read up to where it stops. -/
theorem plainRun_word {w s : List Char} {afterBlank : Bool} {acc : List Char} {fuel : Nat}
    (hw : ∀ c ∈ w, isBlank c = false ∧ isBreak c = false)
    (hmark : holdsMark afterBlank (w ++ s) = false)
    (hstop : ∀ fuel i column acc, plainRun false fuel ⟨s ++ tail, i, line, column⟩ acc =
      some (⟨s ++ tail, i, line, column⟩, acc)) (hfuel : w.length ≤ fuel) :
    plainRun false fuel ⟨w ++ (s ++ tail), i, line, column⟩ acc =
      some (⟨s ++ tail, i + w.length, line, column + w.length⟩, w.reverse ++ acc) := by
  induction w generalizing i column acc fuel afterBlank with
  | nil => exact hstop fuel i column acc
  | cons c w ih =>
      obtain ⟨fuel, rfl⟩ : ∃ n, fuel = n + 1 :=
        Nat.exists_eq_add_of_le' (Nat.le_trans (Nat.succ_le_succ (Nat.zero_le _)) hfuel)
      obtain ⟨hblank, hbreak⟩ := hw c List.mem_cons_self
      rw [List.cons_append, holdsMark, Bool.or_eq_false_iff, Bool.or_eq_false_iff] at hmark
      obtain ⟨⟨hcolon, -⟩, hmark⟩ := hmark
      -- a colon within a word has a character of the word behind it
      have hinside : (c == ':' && (Place.mk (c :: (w ++ (s ++ tail))) i line column).blankOrEndAt 1) =
          false := by
        by_cases hc : c = ':'
        · rw [hc] at hcolon
          obtain ⟨d, more, heq, hd⟩ := blankAhead_eq_false (by simpa using hcolon)
          rw [← List.append_assoc, heq]
          simp [Place.blankOrEndAt, Place.at?, hd.1, hd.2]
        · simp [hc]
      have hstep : plainRun false (fuel + 1) ⟨c :: (w ++ (s ++ tail)), i, line, column⟩ acc =
          plainRun false fuel ⟨w ++ (s ++ tail), i + 1, line, column + 1⟩ (c :: acc) := by
        simp [plainRun, hblank, hbreak, hinside, Place.next]
      rw [List.cons_append, hstep, ih (fun d hd => hw d (List.mem_cons_of_mem _ hd)) hmark
        (Nat.le_of_succ_le_succ hfuel)]
      simp [Nat.add_assoc, Nat.add_comm 1]

/-! ### Texts -/

/-- A text that can stand without quotes, after a blank or not. -/
structure Tame (afterBlank : Bool) (cs : List Char) : Prop where
  chars : ∀ c ∈ cs, c ≠ '\t' ∧ isBreak c = false
  last : cs.getLast? ≠ some ' '
  mark : holdsMark afterBlank cs = false

/-- What a plain scalar does behind a word. -/
def plainEnd (indent fuel : Nat) (q : Place) (pending : Fold) (text : List Char) :
    Option (List Char × Place × Bool) :=
  if q.onBlank || q.onBreak then
    (foldSpace (some indent) (q.rest.length + 1) q pending).bind fun r =>
      if r.1.column < indent then some (text.reverse, r.1, r.2.broken)
      else plainBody false indent fuel r.1 r.2 text
  else some (text.reverse, q, pending.broken)

theorem plainBody_succ {indent fuel : Nat} {p q : Place} {pending : Fold} {text run : List Char}
    (hmarker : p.onMarker = false) (hnumber : p.is '#' = false)
    (hrun : plainRun false (p.rest.length + 1) p [] = some (q, run)) (hne : run ≠ []) :
    plainBody false indent (fuel + 1) p pending text =
      plainEnd indent fuel q {} (run ++ pending.text.reverse ++ text) := by
  simp only [plainBody, hmarker, hnumber, hrun, plainEnd]
  simp [hne]

theorem holdsMark_of_append {afterBlank : Bool} {w : List Char}
    (h : holdsMark afterBlank (w ++ cs) = false) : ∃ flag, holdsMark flag cs = false := by
  induction w generalizing afterBlank with
  | nil => exact ⟨afterBlank, h⟩
  | cons c w ih =>
      rw [List.cons_append, holdsMark, Bool.or_eq_false_iff] at h
      exact ih h.2

theorem holdsMark_of_spaces {afterBlank : Bool} (hk : 0 < k)
    (h : holdsMark afterBlank (Lexer.spaces k ++ cs) = false) : holdsMark true cs = false := by
  induction k generalizing afterBlank with
  | zero => cases hk
  | succ k ih =>
      rw [Lexer.spaces, List.replicate_succ, List.cons_append, holdsMark,
        Bool.or_eq_false_iff] at h
      rcases Nat.eq_zero_or_pos k with rfl | hpos
      · exact h.2
      · exact ih hpos h.2

theorem exists_gap (cs : List Char) :
    ∃ k rest, cs = Lexer.spaces k ++ rest ∧ rest.head? ≠ some ' ' := by
  induction cs with
  | nil => exact ⟨0, [], rfl, nofun⟩
  | cons c cs ih =>
      by_cases hc : c = ' '
      · obtain ⟨k, rest, rfl, hrest⟩ := ih
        exact ⟨k + 1, rest, by rw [hc, Lexer.spaces, Lexer.spaces, List.replicate_succ]; rfl, hrest⟩
      · exact ⟨0, c :: cs, rfl, by simpa using hc⟩

/-- The first word of a text, with the spaces after it. -/
theorem exists_word (h : '\t' ∉ cs) :
    ∃ w k rest, cs = w ++ (Lexer.spaces k ++ rest) ∧ (∀ c ∈ w, isBlank c = false) ∧
      rest.head? ≠ some ' ' ∧ (k = 0 → rest = []) := by
  induction cs with
  | nil => exact ⟨[], 0, [], rfl, List.forall_mem_nil _, nofun, fun _ => rfl⟩
  | cons c cs ih =>
      by_cases hc : c = ' '
      · obtain ⟨k, rest, rfl, hrest⟩ := exists_gap cs
        refine ⟨[], k + 1, rest, ?_, List.forall_mem_nil _, hrest, nofun⟩
        rw [hc, Lexer.spaces, Lexer.spaces, List.replicate_succ]
        rfl
      · obtain ⟨htab, hcs⟩ := not_or.1 (List.mem_cons.not.1 h)
        obtain ⟨w, k, rest, rfl, hw, hrest, hnone⟩ := ih hcs
        have hblank : isBlank c = false := by simp [isBlank, hc, Ne.symm htab]
        exact ⟨c :: w, k, rest, rfl, List.forall_mem_cons.2 ⟨hblank, hw⟩, hrest, hnone⟩

theorem not_onMarker_of_pos {p : Place} (h : 0 < p.column) : p.onMarker = false := by
  have hcolumn : (p.column == 0) = false := by simpa using Nat.ne_of_gt h
  rw [Place.onMarker, hcolumn]
  rfl

theorem solid_append (hne : cs ≠ []) (h : Solid cs) : Solid (cs ++ tail) := by
  cases cs with
  | nil => exact absurd rfl hne
  | cons c cs => exact h

/-- A text that can stand without quotes is a word, or a word before such a text. -/
theorem Tame.exists_word {afterBlank : Bool} (htame : Tame afterBlank cs) (hsolid : Solid cs)
    (hne : cs ≠ []) :
    ∃ w k more, cs = w ++ (Lexer.spaces k ++ more) ∧ w ≠ [] ∧
      (∀ c ∈ w, isBlank c = false ∧ isBreak c = false) ∧
      (k = 0 ∧ more = [] ∨
        0 < k ∧ more ≠ [] ∧ Tame true more ∧ Solid more ∧ more.head? ≠ some '#') := by
  obtain ⟨w, k, more, rfl, hw, hmore, hnone⟩ :=
    Yaml.exists_word fun htab => (htame.chars _ htab).1 rfl
  have hword : ∀ c ∈ w, isBlank c = false ∧ isBreak c = false := fun c hc =>
    ⟨hw c hc, (htame.chars c (List.mem_append_left _ hc)).2⟩
  rcases Nat.eq_zero_or_pos k with rfl | hk
  · obtain rfl := hnone rfl
    exact ⟨w, 0, [], rfl, by rintro rfl; exact hne rfl, hword, .inl ⟨rfl, rfl⟩⟩
  · obtain ⟨k, rfl⟩ := Nat.exists_eq_succ_of_ne_zero (Nat.ne_of_gt hk)
    have hmorene : more ≠ [] := by
      rintro rfl
      refine htame.last ?_
      simp [Lexer.spaces, List.replicate_succ']
    have hsolidMore : Solid more := by
      cases more with
      | nil => exact absurd rfl hmorene
      | cons d ds =>
          obtain ⟨htab, hbreak⟩ := htame.chars d (by simp)
          have hd : d ≠ ' ' := by simpa using hmore
          simp [Solid, isBlank, htab, hbreak, hd]
    obtain ⟨_, hmark⟩ := holdsMark_of_append htame.mark
    have hmark : holdsMark true more = false := holdsMark_of_spaces hk hmark
    have hnumber : more.head? ≠ some '#' := by
      intro hnumber
      obtain ⟨ds, rfl⟩ := List.head?_eq_some_iff.1 hnumber
      simp [holdsMark] at hmark
    have hlast : more.getLast? ≠ some ' ' := by
      have hlast := htame.last
      rwa [← List.append_assoc, List.getLast?_append_of_ne_nil _ hmorene] at hlast
    refine ⟨w, k + 1, more, rfl, ?_, hword, .inr ⟨hk, hmorene, ?_, hsolidMore, hnumber⟩⟩
    · rintro rfl
      cases hsolid
    · exact ⟨fun c hc => htame.chars c (by simp [hc]), hlast, hmark⟩

/-- A word is read, and then what stops it. -/
theorem plainBody_word {indent fuel : Nat} {w s : List Char} {afterBlank : Bool} {pending : Fold}
    {text : List Char} (hword : ∀ c ∈ w, isBlank c = false ∧ isBreak c = false) (hne : w ≠ [])
    (hmark : holdsMark afterBlank (w ++ s) = false)
    (hmarker : (Place.mk (w ++ (s ++ tail)) i line column).onMarker = false)
    (hnumber : w.head? ≠ some '#')
    (hstop : ∀ fuel i column acc, plainRun false fuel ⟨s ++ tail, i, line, column⟩ acc =
      some (⟨s ++ tail, i, line, column⟩, acc)) :
    plainBody false indent (fuel + 1) ⟨w ++ (s ++ tail), i, line, column⟩ pending text =
      plainEnd indent fuel ⟨s ++ tail, i + w.length, line, column + w.length⟩ {}
        (w.reverse ++ pending.text.reverse ++ text) := by
  have hlead : (Place.mk (w ++ (s ++ tail)) i line column).is '#' = false := by
    cases w with
    | nil => exact absurd rfl hne
    | cons c w => simpa [Place.is, Place.head?] using hnumber
  have hrun := @plainRun_word i line column tail w s afterBlank []
    ((w ++ (s ++ tail)).length + 1) hword hmark hstop (by simp; omega)
  rw [List.append_nil] at hrun
  exact plainBody_succ hmarker hlead hrun (by simpa using hne)

theorem plainRun_spaces (fuel i column : Nat) (acc : List Char) :
    plainRun false fuel ⟨Lexer.spaces (k + 1) ++ rest, i, line, column⟩ acc =
      some (⟨Lexer.spaces (k + 1) ++ rest, i, line, column⟩, acc) := by
  cases fuel with
  | zero => rfl
  | succ fuel => simp [plainRun, Lexer.spaces, List.replicate_succ, isBlank]

/-- Spaces within a text are kept for what follows them. -/
theorem plainEnd_spaces {indent fuel : Nat} {text : List Char} (hrest : Solid rest)
    (hindent : indent ≤ column + (k + 1)) :
    plainEnd indent fuel ⟨Lexer.spaces (k + 1) ++ rest, i, line, column⟩ {} text =
      plainBody false indent fuel ⟨rest, i + (k + 1), line, column + (k + 1)⟩
        { blanks := Lexer.spaces (k + 1) } text := by
  have hfold : foldSpace (some indent) ((Lexer.spaces (k + 1) ++ rest).length + 1)
      ⟨Lexer.spaces (k + 1) ++ rest, i, line, column⟩ {} =
      some (⟨rest, i + (k + 1), line, column + (k + 1)⟩, { blanks := Lexer.spaces (k + 1) }) :=
    foldSpace_spaces hrest {} (by simp [Lexer.spaces]; omega)
  rw [plainEnd, if_pos (by rfl), hfold, Option.bind_some]
  exact if_neg (Nat.not_lt.2 hindent)

/-- A text that can stand without quotes is read up to its end. -/
theorem plainBody_eq {indent fuel e f : Nat} {q : Place} {flag afterBlank : Bool} {pending : Fold}
    {text : List Char} (htame : Tame afterBlank cs) (hsolid : Solid cs) (hne : cs ≠ [])
    (hmarker : (Place.mk (cs ++ tail) i line column).onMarker = false)
    (hnumber : cs.head? ≠ some '#') (hindent : indent ≤ column + 1)
    (hstop : ∀ fuel i column acc, plainRun false fuel ⟨tail, i, line, column⟩ acc =
      some (⟨tail, i, line, column⟩, acc))
    (hend : ∀ fuel text, plainEnd indent fuel ⟨tail, e, line, f⟩ {} text =
      some (text.reverse, q, flag))
    (he : i + cs.length = e) (hf : column + cs.length = f) (hfuel : cs.length < fuel) :
    plainBody false indent fuel ⟨cs ++ tail, i, line, column⟩ pending text =
      some (text.reverse ++ pending.text ++ cs, q, flag) := by
  -- on the length of the text: the part behind a word and its spaces is a tame text again, read
  -- with that word in front of it
  induction hlength : cs.length using Nat.strong_induction_on
    generalizing cs i column pending text fuel afterBlank with
  | _ n ih =>
      obtain ⟨fuel, rfl⟩ : ∃ n, fuel = n + 1 :=
        Nat.exists_eq_add_of_le' (Nat.le_trans (Nat.succ_le_succ (Nat.zero_le _)) hfuel)
      obtain ⟨w, k, more, rfl, hwne, hword, hmore⟩ := htame.exists_word hsolid hne
      have hlead : w.head? ≠ some '#' := by
        rwa [List.head?_append_of_ne_nil w hwne] at hnumber
      have hlengths : (w ++ (Lexer.spaces k ++ more)).length = w.length + k + more.length := by
        simp [Lexer.spaces, Nat.add_assoc]
      rw [hlengths] at he hf hfuel hlength
      rw [List.append_assoc] at hmarker ⊢
      rcases hmore with ⟨rfl, rfl⟩ | ⟨hk, hmorene, hmoreTame, hmoreSolid, hmoreNumber⟩
      · have hread := @plainBody_word i line column tail indent fuel w [] _ pending text hword hwne
          htame.mark hmarker hlead hstop
        have hends : plainEnd indent fuel ⟨tail, i + w.length, line, column + w.length⟩ {}
            (w.reverse ++ pending.text.reverse ++ text) = _ := he ▸ hf ▸ hend fuel _
        refine (hread.trans hends).trans ?_
        simp [Lexer.spaces]
      · -- the spaces are folded into the text, and the rest is a text of the same kind
        obtain ⟨k, rfl⟩ := Nat.exists_eq_succ_of_ne_zero (Nat.ne_of_gt hk)
        have hwpos : 0 < w.length := List.length_pos_iff.2 hwne
        have hread := @plainBody_word i line column tail indent fuel w (Lexer.spaces (k + 1) ++ more)
          _ pending text hword hwne htame.mark hmarker hlead fun fuel i column acc => by
            rw [List.append_assoc]
            exact plainRun_spaces fuel i column acc
        rw [hread, List.append_assoc, plainEnd_spaces (solid_append hmorene hmoreSolid) (by omega),
          ih more.length (by omega) hmoreTame hmoreSolid hmorene (not_onMarker_of_pos (by simp))
            hmoreNumber (by omega) (by omega) (by omega) (by omega) rfl]
        have hblanks : ({ blanks := Lexer.spaces (k + 1) } : Fold).text = Lexer.spaces (k + 1) := rfl
        simp [hblanks]

/-! ### Scalars -/

theorem not_onMarker_of_not_startsMarked {t : Char} (h : Printer.startsMarked cs = false)
    (hne : cs ≠ []) (ht : t ≠ '-' ∧ t ≠ '.') :
    (Place.mk (cs ++ t :: tail) i line column).onMarker = false := by
  have hmark : ∀ d : Char, d = '-' ∨ d = '.' → (cs ++ t :: tail).take 3 ≠ [d, d, d] := by
    intro d hd htake
    have htd : t ≠ d := by
      rintro rfl
      exact hd.elim ht.1 ht.2
    match cs, hne with
    | [a], _ => simp [htd] at htake
    | [a, b], _ => simp [htd] at htake
    | a :: b :: c :: more, _ =>
        obtain ⟨rfl, rfl, rfl⟩ : a = d ∧ b = d ∧ c = d := by simpa using htake
        rcases hd with rfl | rfl
        · cases h
        · cases h
  have hdash : ((cs ++ t :: tail).take 3 == ['-', '-', '-']) = false := by
    simpa using hmark '-' (.inl rfl)
  have hpoint : ((cs ++ t :: tail).take 3 == ['.', '.', '.']) = false := by
    simpa using hmark '.' (.inr rfl)
  rw [Place.onMarker, hdash, hpoint]
  simp

/-- What the printer leaves without quotes can stand so. -/
theorem tame_of_allowsPlain (h : Printer.allowsPlain cs = true) :
    Tame true cs ∧ Solid cs ∧ cs.head? ≠ some '#' ∧ Printer.startsMarked cs = false := by
  simp only [Printer.allowsPlain, Bool.not_eq_true', Bool.or_eq_false_iff] at h
  obtain ⟨⟨⟨⟨⟨hhead, hlast⟩, hlines⟩, hescape⟩, hmarked⟩, hmark⟩ := h
  have hchars : ∀ c ∈ cs, c ≠ '\t' ∧ isBreak c = false := by
    intro c hc
    refine ⟨?_, by simpa using List.any_eq_false.1 hlines c hc⟩
    rintro rfl
    have hprintable := List.any_eq_false.1 (Bool.or_eq_false_iff.1 hescape).1 _ hc
    exact absurd hprintable (by decide)
  refine ⟨⟨hchars, ?_, hmark⟩, ?_, ?_, hmarked⟩
  · intro hspace
    rw [hspace] at hlast
    cases hlast
  · cases cs with
    | nil => rfl
    | cons c cs =>
        obtain ⟨htab, hbreak⟩ := hchars c List.mem_cons_self
        have hspace : c ≠ ' ' := by simpa [Printer.isSpace] using hhead
        simp [Solid, isBlank, htab, hbreak, hspace]
  · intro hnumber
    obtain ⟨more, rfl⟩ := List.head?_eq_some_iff.1 hnumber
    simp [Printer.startsMarked] at hmarked

theorem solid_of_begins (h : Lexer.Begins rest) : Solid rest := by
  cases rest with
  | nil => rfl
  | cons c cs =>
      obtain ⟨hspace, htab, -, -, hbreak⟩ := Lexer.begins_cons.1 h
      simp [Solid, isBlank, hspace, htab, hbreak]

/-- A text that the printer leaves without quotes, up to the end of its line. -/
theorem plainScalar_line {parent : Nat} (hplain : Printer.allowsPlain cs = true) (hne : cs ≠ [])
    (hrest : Lexer.Begins rest) (hk : k ≤ parent) (hcolumn : parent ≤ column) :
    plainScalar false parent ⟨cs ++ '\n' :: (Lexer.spaces k ++ rest), i, line, column⟩ =
      some (cs, ⟨rest, i + cs.length + 1 + k, line + 1, k⟩, true) := by
  obtain ⟨htame, hsolid, hnumber, hmarked⟩ := tame_of_allowsPlain hplain
  have hparent : ((parent : Int) + 1).toNat = parent + 1 := by omega
  have hstop : ∀ fuel i column acc,
      plainRun false fuel ⟨'\n' :: (Lexer.spaces k ++ rest), i, line, column⟩ acc =
        some (⟨'\n' :: (Lexer.spaces k ++ rest), i, line, column⟩, acc) := by
    intro fuel i column acc
    cases fuel <;> rfl
  have hend : ∀ fuel text, plainEnd (parent + 1) fuel
      ⟨'\n' :: (Lexer.spaces k ++ rest), i + cs.length, line, column + cs.length⟩ {} text =
        some (text.reverse, ⟨rest, i + cs.length + 1 + k, line + 1, k⟩, true) := by
    intro fuel text
    rw [plainEnd, if_pos (by rfl), foldSpace_line (solid_of_begins hrest)
      (by simp [Lexer.spaces]; omega), Option.bind_some]
    exact if_pos (Nat.lt_succ_of_le hk)
  rw [plainScalar, hparent, plainBody_eq htame hsolid hne
    (not_onMarker_of_not_startsMarked hmarked hne (by decide)) hnumber (by omega) hstop hend rfl rfl
    (by simp; omega)]
  simp [Fold.text]

/-- A text that the printer leaves without quotes, up to the colon after it. -/
theorem plainScalar_key {parent : Int} (hplain : Printer.allowsPlain cs = true) (hne : cs ≠ [])
    (hcolumn : parent ≤ column) (hcolon : tail.head?.all (fun c => isBlank c || isBreak c) = true) :
    plainScalar false parent ⟨cs ++ ':' :: tail, i, line, column⟩ =
      some (cs, ⟨':' :: tail, i + cs.length, line, column + cs.length⟩, false) := by
  obtain ⟨htame, hsolid, hnumber, hmarked⟩ := tame_of_allowsPlain hplain
  have hstop : ∀ fuel i column acc, plainRun false fuel ⟨':' :: tail, i, line, column⟩ acc =
      some (⟨':' :: tail, i, line, column⟩, acc) := by
    intro fuel i column acc
    have hend : (Place.mk (':' :: tail) i line column).blankOrEndAt 1 = true := by
      cases tail <;> exact hcolon
    cases fuel with
    | zero => rfl
    | succ fuel => simp [plainRun, hend]
  have hend : ∀ fuel text, plainEnd (parent + 1).toNat fuel
      ⟨':' :: tail, i + cs.length, line, column + cs.length⟩ {} text =
        some (text.reverse, ⟨':' :: tail, i + cs.length, line, column + cs.length⟩, false) :=
    fun _ _ => rfl
  rw [plainScalar, plainBody_eq htame hsolid hne
    (not_onMarker_of_not_startsMarked hmarked hne (by decide)) hnumber (by omega) hstop hend rfl rfl
    (by simp; omega)]
  simp [Fold.text]

end StyleContract.Yaml
