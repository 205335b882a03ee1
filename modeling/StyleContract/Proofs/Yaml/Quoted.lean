import StyleContract.Proofs.Yaml.Plain

/-!
# Proofs — Yaml — Quoted

A text between quotes is read as it was. Its characters are read from what they are written as
(`quotedRun_encoded`), the spaces between them as spaces, and in single quotes the line breaks as line
breaks: the indentation after them is passed.

**Both kinds of quotes** are one induction (`quotedBody_inner`) over the runs of characters that are
written on their own and the gaps between them.
-/

namespace StyleContract.Yaml
open Printer (escaped isPrintable)

variable {i line column k : Nat} {cs rest tail : List Char} {single : Bool}

/-! ### Escapes -/

theorem escape?_letter {e x : Char} (h : escapeLetter? e = some x) :
    escape? ⟨e :: rest, i, line, column⟩ = some (x, ⟨rest, i + 1, line, column + 1⟩) := by
  simp [escape?, Place.head?, Place.next, h]

/-- The number that hexadecimal digits write, after the digits of a number. -/
def hexFrom (n : Nat) (ds : List Char) : Option Nat :=
  ds.foldlM (fun n d => (Text.hexValue? d).map (n * 16 + ·)) n

theorem hexFrom_upper_toDigits (n : Nat) :
    hexFrom 0 ((Nat.toDigits 16 n).map Char.toUpper) = some n := by
  have hdigit : ∀ d : Fin 16, Text.hexValue? d.val.digitChar.toUpper = some d.val := by decide
  -- the digits of a number are those of its sixteenth part and one more
  induction n using Nat.strong_induction_on with
  | _ n ih =>
      rw [Nat.toDigits_eq_if (by decide)]
      split
      · next hlt => simp [hexFrom, hdigit ⟨n, hlt⟩]
      · next hle =>
        have hprefix := ih (n / 16) (Nat.div_lt_self (by omega) (by decide))
        have hlast := hdigit ⟨n % 16, Nat.mod_lt n (by decide)⟩
        dsimp only at hlast
        rw [hexFrom] at hprefix
        rw [List.map_append, hexFrom, List.foldlM_append, hprefix]
        simp only [Option.bind_eq_bind, Option.bind_some, List.map_cons, List.map_nil,
          List.foldlM_cons, List.foldlM_nil, hlast, Option.map_some]
        exact congrArg some (Nat.div_add_mod' n 16)

theorem hexPadded_spec {width n : Nat} (hwidth : 0 < width) (h : n < 16 ^ width) :
    (Printer.hexPadded width n).length = width ∧ hexFrom 0 (Printer.hexPadded width n) = some n := by
  have hle : (Nat.toDigits 16 n).length ≤ width :=
    (Nat.length_toDigits_le_iff (by decide) hwidth).2 h
  have hzeros : ∀ k, hexFrom 0 (List.replicate k '0') = some 0 := by
    intro k
    induction k with
    | zero => rfl
    | succ k ih => exact ih
  refine ⟨?_, ?_⟩
  · simp only [Printer.hexPadded, List.length_append, List.length_replicate, List.length_map]
    omega
  · have hprefix := hzeros (width - ((Nat.toDigits 16 n).map Char.toUpper).length)
    have hdigits := hexFrom_upper_toDigits n
    rw [hexFrom] at hprefix hdigits
    simp only [Printer.hexPadded]
    rw [hexFrom, List.foldlM_append, hprefix]
    exact hdigits

/-- A character is read from its number. -/
theorem escape?_number {letter c : Char} {width : Nat} (hletter : escapeLetter? letter = none)
    (hwidth : escapeWidth? letter = some width) (hpos : 0 < width) (h : c.toNat < 16 ^ width) :
    escape? ⟨letter :: (Printer.hexPadded width c.toNat ++ rest), i, line, column⟩ =
      some (c, ⟨rest, i + (width + 1), line, column + (width + 1)⟩) := by
  obtain ⟨hlength, hvalue⟩ := hexPadded_spec hpos h
  have htake : (Printer.hexPadded width c.toNat ++ rest).take width =
      Printer.hexPadded width c.toNat := List.take_left' hlength
  have hdrop : (Printer.hexPadded width c.toNat ++ rest).drop width = rest :=
    List.drop_left' hlength
  rw [hexFrom] at hvalue
  have hvalid : c.toNat.isValidChar := c.valid
  simp only [escape?, Place.head?, List.head?_cons, Option.bind_eq_bind, Option.bind_some, hletter,
    hwidth, List.drop_succ_cons, List.drop_zero, htake, hlength, Nat.lt_irrefl, if_false, hvalue,
    hvalid, if_true, Place.skip, hdrop, Char.ofNat_toNat]

/-! ### Characters -/

/-- What a character may be written as between double quotes. -/
theorem escaped_spec (c : Char) :
    escaped c = [c] ∧ isBreak c = false ∧ c ≠ '\t' ∧ c ≠ '"' ∧ c ≠ '\\' ∨
      ∃ e es, escaped c = '\\' :: e :: es ∧ isBreak e = false ∧ ∀ rest i line column,
        escape? ⟨e :: (es ++ rest), i, line, column⟩ =
          some (c, ⟨rest, i + (es.length + 1), line, column + (es.length + 1)⟩) := by
  have hletter : ∀ e x : Char, isBreak e = false → escapeLetter? e = some x →
      ∃ e' es, ['\\', e] = '\\' :: e' :: es ∧ isBreak e' = false ∧ ∀ rest i line column,
        escape? ⟨e' :: (es ++ rest), i, line, column⟩ =
          some (x, ⟨rest, i + (es.length + 1), line, column + (es.length + 1)⟩) :=
    fun e x hbreak h => ⟨e, [], rfl, hbreak, fun _ _ _ _ => escape?_letter h⟩
  have hnumber : ∀ (letter : Char) (width : Nat), isBreak letter = false →
      escapeLetter? letter = none → escapeWidth? letter = some width → 0 < width →
      c.toNat < 16 ^ width →
      ∃ e' es, '\\' :: letter :: Printer.hexPadded width c.toNat = '\\' :: e' :: es ∧
        isBreak e' = false ∧ ∀ rest i line column,
          escape? ⟨e' :: (es ++ rest), i, line, column⟩ =
            some (c, ⟨rest, i + (es.length + 1), line, column + (es.length + 1)⟩) := by
    intro letter width hbreak hnone hwidth hpos hc
    refine ⟨letter, _, rfl, hbreak, fun _ _ _ _ => ?_⟩
    rw [(hexPadded_spec hpos hc).1]
    exact escape?_number hnone hwidth hpos hc
  unfold escaped
  split
  case h_15 =>
    split
    · next hprintable =>
      refine .inl ⟨rfl, ?_⟩
      simp_all [isBreak]
    · refine .inr ?_
      split
      · exact hnumber 'x' 2 rfl rfl rfl (by decide) (by omega)
      · split
        · exact hnumber 'u' 4 rfl rfl rfl (by decide) (by omega)
        · have hvalid : c.toNat < 0xD800 ∨ 0xDFFF < c.toNat ∧ c.toNat < 0x110000 := c.valid
          exact hnumber 'U' 8 rfl rfl rfl (by decide) (by omega)
  all_goals exact .inr (hletter _ _ rfl rfl)

/-- What a character is written as between quotes, if no line ends there. -/
def encoded (single : Bool) (c : Char) : List Char :=
  if single then (if c = '\'' then [c, c] else [c]) else escaped c

/-- Whether a text between quotes is broken at a character. -/
def isGap (single : Bool) (c : Char) : Bool := c == ' ' || (single && isBreak c)

/-- The quote around a text. -/
def quoteOf (single : Bool) : Char := if single then '\'' else '"'

theorem quotedRun_slash {e : Char} {fuel : Nat} {acc : List Char} (hbreak : isBreak e = false) :
    quotedRun false (fuel + 1) ⟨'\\' :: e :: rest, i, line, column⟩ acc =
      (escape? ⟨e :: rest, i + 1, line, column + 1⟩).bind fun r =>
        quotedRun false fuel r.2 (r.1 :: acc) := by
  have hblank : isBlank '\\' = false := rfl
  have hline : isBreak '\\' = false := rfl
  simp [quotedRun, hblank, hline, hbreak, Place.next]

/-- A character is read from what it is written as. -/
theorem quotedRun_encoded {c : Char} {fuel : Nat} {acc : List Char} (hgap : isGap single c = false)
    (htab : single = true → c ≠ '\t') :
    quotedRun single (fuel + 1) ⟨encoded single c ++ rest, i, line, column⟩ acc =
      quotedRun single fuel ⟨rest, i + (encoded single c).length, line,
        column + (encoded single c).length⟩ (c :: acc) := by
  have hspace : c ≠ ' ' := by
    rintro rfl
    cases hgap
  cases single with
  | true =>
      have hbreak : isBreak c = false := by simpa [isGap, hspace] using hgap
      have hblank : isBlank c = false := by simp [isBlank, hspace, htab rfl]
      by_cases hquote : c = '\''
      · subst hquote
        simp [encoded, quotedRun, isBlank, isBreak, Place.skip]
      · simp [encoded, quotedRun, hquote, hbreak, hblank, Place.next]
  | false =>
      rcases escaped_spec c with ⟨hself, hbreak, htab, hquote, hslash⟩ | ⟨e, es, hescaped, hbreak, hread⟩
      · have hblank : isBlank c = false := by simp [isBlank, hspace, htab]
        simp [encoded, hself, quotedRun, hquote, hslash, hbreak, hblank, Place.next]
      · have hlength : (encoded false c).length = es.length + 2 := by
          simp [encoded, hescaped]
        have htext : encoded false c ++ rest = '\\' :: e :: (es ++ rest) := by
          simp [encoded, hescaped]
        have hshift : ∀ n, n + 1 + (es.length + 1) = n + (es.length + 2) := by omega
        rw [htext, hlength, quotedRun_slash hbreak, hread, Option.bind_some, hshift, hshift]

theorem quotedRun_word {w : List Char} {fuel : Nat} {acc : List Char}
    (hw : ∀ c ∈ w, isGap single c = false ∧ (single = true → c ≠ '\t'))
    (hstop : ∀ fuel i column acc, quotedRun single fuel ⟨rest, i, line, column⟩ acc =
      some (⟨rest, i, line, column⟩, acc, false)) (hfuel : w.length ≤ fuel) :
    quotedRun single fuel ⟨w.flatMap (encoded single) ++ rest, i, line, column⟩ acc =
      some (⟨rest, i + (w.flatMap (encoded single)).length, line,
        column + (w.flatMap (encoded single)).length⟩, w.reverse ++ acc, false) := by
  induction w generalizing i column acc fuel with
  | nil => exact hstop fuel i column acc
  | cons c w ih =>
      obtain ⟨fuel, rfl⟩ : ∃ n, fuel = n + 1 :=
        Nat.exists_eq_add_of_le' (Nat.le_trans (Nat.succ_le_succ (Nat.zero_le _)) hfuel)
      obtain ⟨hgap, htab⟩ := hw c List.mem_cons_self
      rw [List.flatMap_cons, List.append_assoc, quotedRun_encoded hgap htab,
        ih (fun d hd => hw d (List.mem_cons_of_mem _ hd)) (Nat.le_of_succ_le_succ hfuel)]
      simp [Nat.add_assoc]

/-! ### The text between the quotes -/

/-- What stands between the quotes. -/
def inner (single : Bool) (indent : Nat) (cs : List Char) : List Char :=
  if single then
    Printer.indented indent false (cs.flatMap fun c => if c = '\'' then [c, c] else [c]) ++
      (if cs.getLast?.any isBreak then Printer.padding indent else [])
  else cs.flatMap escaped

theorem inner_nil (indent : Nat) : inner single indent [] = [] := by
  cases single <;> rfl

theorem inner_cons {indent : Nat} {c : Char} (h : (single && isBreak c) = false) :
    inner single indent (c :: cs) = encoded single c ++ inner single indent cs := by
  cases single with
  | false => rfl
  | true =>
      have hbreak : isBreak c = false := h
      have hlast : (c :: cs).getLast?.any isBreak = cs.getLast?.any isBreak := by
        cases cs with
        | nil => simp [hbreak]
        | cons d ds => rw [List.getLast?_cons_cons]
      have htext : Printer.indented indent false ((c :: cs).flatMap
          fun c => if c = '\'' then [c, c] else [c]) = encoded true c ++
          Printer.indented indent false (cs.flatMap fun c => if c = '\'' then [c, c] else [c]) := by
        by_cases hquote : c = '\''
        · subst hquote
          simp [encoded, Printer.indented, hbreak]
        · simp [encoded, Printer.indented, hbreak, hquote]
      simp only [inner, if_true, hlast, htext, List.append_assoc]

theorem inner_append {indent : Nat} {w : List Char} (h : ∀ c ∈ w, (single && isBreak c) = false) :
    inner single indent (w ++ cs) = w.flatMap (encoded single) ++ inner single indent cs := by
  induction w with
  | nil => rfl
  | cons c w ih =>
      rw [List.cons_append, inner_cons (h c List.mem_cons_self),
        ih fun d hd => h d (List.mem_cons_of_mem _ hd), List.flatMap_cons, List.append_assoc]

theorem indented_breaks {indent : Nat} {atStart : Bool} {g : List Char} (hne : g ≠ [])
    (hg : ∀ c ∈ g, isBreak c = true) :
    Printer.indented indent atStart (g ++ cs) = g ++ Printer.indented indent true cs := by
  induction g generalizing atStart with
  | nil => exact absurd rfl hne
  | cons c g ih =>
      rw [List.cons_append, Printer.indented, if_pos (hg c List.mem_cons_self), List.cons_append]
      by_cases hnil : g = []
      · rw [hnil]
        rfl
      · rw [ih hnil fun d hd => hg d (List.mem_cons_of_mem _ hd)]

theorem indented_start {indent : Nat} {c : Char} (h : isBreak c = false) :
    Printer.indented indent true (c :: cs) =
      Printer.padding indent ++ Printer.indented indent false (c :: cs) := by
  simp [Printer.indented, h]

/-- In single quotes, line breaks stand for themselves, with an indentation after them. -/
theorem inner_breaks {indent : Nat} {g : List Char} (hne : g ≠ [])
    (hg : ∀ c ∈ g, isBreak c = true) (hcs : cs.head?.all (!isBreak ·) = true) :
    inner true indent (g ++ cs) = g ++ (Lexer.spaces indent ++ inner true indent cs) := by
  have hquotes : g.flatMap (fun c => if c = '\'' then [c, c] else [c]) = g := by
    have hself : ∀ c ∈ g, (if c = '\'' then [c, c] else [c]) = [c] := by
      intro c hc
      refine if_neg ?_
      rintro rfl
      exact absurd (hg _ hc) (by decide)
    rw [List.flatMap_congr hself, List.flatMap_singleton']
  simp only [inner, if_true, List.flatMap_append, hquotes]
  rw [indented_breaks hne hg, List.append_assoc]
  refine congrArg (g ++ ·) ?_
  cases cs with
  | nil =>
      have hlast : (g ++ []).getLast?.any isBreak = true := by
        rw [List.append_nil, List.getLast?_eq_some_getLast hne]
        exact hg _ (List.getLast_mem hne)
      rw [hlast]
      simp [Printer.indented, Printer.padding, Lexer.spaces]
  | cons d ds =>
      have hd : isBreak d = false := by simpa using hcs
      have hlast : (g ++ d :: ds).getLast? = (d :: ds).getLast? :=
        List.getLast?_append_of_ne_nil g (List.cons_ne_nil d ds)
      have htext : ∃ more, (d :: ds).flatMap (fun c => if c = '\'' then [c, c] else [c]) = d :: more := by
        by_cases hquote : d = '\''
        · exact ⟨_, by rw [List.flatMap_cons, if_pos hquote]; rfl⟩
        · exact ⟨_, by rw [List.flatMap_cons, if_neg hquote]; rfl⟩
      obtain ⟨more, hmore⟩ := htext
      rw [hlast, hmore, indented_start hd, List.append_assoc]
      rfl

theorem length_le_flatMap {f : Char → List Char} (h : ∀ c, 0 < (f c).length) (cs : List Char) :
    cs.length ≤ (cs.flatMap f).length := by
  induction cs with
  | nil => exact Nat.le_refl 0
  | cons c cs ih =>
      have hc : 0 < (f c).length := h c
      rw [List.flatMap_cons, List.length_append, List.length_cons]
      omega

theorem length_le_indented (indent : Nat) (atStart : Bool) (cs : List Char) :
    cs.length ≤ (Printer.indented indent atStart cs).length := by
  induction cs generalizing atStart with
  | nil => exact Nat.le_refl 0
  | cons c cs ih =>
      rw [Printer.indented]
      split
      · simpa using ih true
      · have hrest := ih false
        simp only [List.length_append, List.length_cons]
        omega

theorem length_le_inner (indent : Nat) (cs : List Char) :
    cs.length ≤ (inner single indent cs).length := by
  cases single with
  | true =>
      have hquotes : cs.length ≤ (cs.flatMap fun c => if c = '\'' then [c, c] else [c]).length :=
        length_le_flatMap (fun c => by split <;> simp) cs
      have hlines := length_le_indented indent false
        (cs.flatMap fun c => if c = '\'' then [c, c] else [c])
      simp only [inner, if_true, List.length_append]
      omega
  | false =>
      refine length_le_flatMap (fun c => ?_) cs
      rcases escaped_spec c with ⟨h, -⟩ | ⟨e, es, h, -⟩ <;> simp [h]

/-! ### Gaps -/

/-- A line break that single quotes keep. -/
def IsKept (c : Char) : Prop := c = '\u2028' ∨ c = '\u2029'

theorem IsKept.isBreak {c : Char} (h : IsKept c) : isBreak c = true := by
  rcases h with rfl | rfl <;> rfl

theorem nextLine_kept {c : Char} (h : IsKept c) :
    (Place.mk (c :: rest) i line column).nextLine = (⟨rest, i + 1, line + 1, 0⟩, [c]) := by
  rcases h with rfl | rfl <;> rfl

theorem foldSpace_breaks {indent : Option Nat} {g : List Char} {fuel : Nat} {f : Fold}
    (hg : ∀ c ∈ g, IsKept c) (hrest : Solid rest) (hbroken : f.broken = true)
    (hfuel : g.length + k ≤ fuel) :
    foldSpace indent fuel ⟨g ++ (Lexer.spaces k ++ rest), i, line, 0⟩ f =
      some (⟨rest, i + g.length + k, line + g.length, k⟩, { f with later := f.later ++ g }) := by
  -- after the first break each other one is kept, and the spaces at the end are dropped
  induction g generalizing i line f fuel with
  | nil =>
      have hsame : f.addBlanks (Lexer.spaces k) = { f with later := f.later ++ [] } := by
        rw [Fold.addBlanks, if_pos hbroken, List.append_nil]
      rw [← hsame]
      refine (foldSpace_spaces hrest f (by simpa using hfuel)).trans ?_
      rw [Nat.zero_add]
      rfl
  | cons c g ih =>
      obtain ⟨fuel, rfl⟩ : ∃ n, fuel = n + 1 := Nat.exists_eq_add_of_le'
        (Nat.le_trans (by simp; omega) hfuel)
      have hc : IsKept c := hg c List.mem_cons_self
      have hblank : isBlank c = false := by rcases hc with rfl | rfl <;> rfl
      have hstep : foldSpace indent (fuel + 1) ⟨c :: (g ++ (Lexer.spaces k ++ rest)), i, line, 0⟩ f =
          foldSpace indent fuel ⟨g ++ (Lexer.spaces k ++ rest), i + 1, line + 1, 0⟩
            { f with later := f.later ++ [c] } := by
        simp [foldSpace, Place.onBlank, Place.onBreak, Place.head?, hblank, hc.isBreak,
          nextLine_kept hc, hbroken]
      rw [List.cons_append, hstep]
      refine (ih (f := { f with later := f.later ++ [c] })
        (fun d hd => hg d (List.mem_cons_of_mem _ hd)) hbroken (by simp at hfuel; omega)).trans ?_
      simp [Nat.add_assoc, Nat.add_comm 1]

/-! ### Runs and gaps -/

section

variable {p q : Char → Bool}

theorem hasPair_of_append {as : List Char} (h : Printer.hasPair p q (as ++ cs) = false) :
    Printer.hasPair p q cs = false := by
  induction as with
  | nil => exact h
  | cons a as ih =>
      refine ih ?_
      cases hrest : as ++ cs with
      | nil => rfl
      | cons b bs =>
          rw [List.cons_append, hrest, Printer.hasPair, Bool.or_eq_false_iff] at h
          exact h.2

theorem not_pair_of_append {as : List Char} {a b : Char}
    (h : Printer.hasPair p q (as ++ a :: b :: cs) = false) (ha : p a = true) : q b = false := by
  have hpair := hasPair_of_append h
  rw [Printer.hasPair, Bool.or_eq_false_iff, ha, Bool.true_and] at hpair
  exact hpair.1

theorem exists_split (p : Char → Bool) (cs : List Char) :
    ∃ w s, cs = w ++ s ∧ (∀ c ∈ w, p c = false) ∧ ∀ c, s.head? = some c → p c = true := by
  induction cs with
  | nil => exact ⟨[], [], rfl, List.forall_mem_nil _, nofun⟩
  | cons c cs ih =>
      by_cases hc : p c = true
      · refine ⟨[], c :: cs, rfl, List.forall_mem_nil _, ?_⟩
        rintro d ⟨⟩
        exact hc
      · obtain ⟨w, s, rfl, hw, hs⟩ := ih
        exact ⟨c :: w, s, rfl, List.forall_mem_cons.2 ⟨by simpa using hc, hw⟩, hs⟩

end

theorem spaces_append_space : Lexer.spaces k ++ ' ' :: cs = ' ' :: (Lexer.spaces k ++ cs) := by
  induction k with
  | zero => rfl
  | succ k ih =>
      rw [Lexer.spaces, List.replicate_succ, List.cons_append]
      exact congrArg (' ' :: ·) ih

/-- A text that can stand between quotes of a kind. -/
structure Quotable (single : Bool) (cs : List Char) : Prop where
  chars : single = true → ∀ c ∈ cs, c ≠ '\t' ∧ (isBreak c = true → IsKept c)
  apart : single = true → Printer.hasPair Printer.isSpace isBreak cs = false ∧
    Printer.hasPair isBreak Printer.isSpace cs = false

theorem Quotable.of_append {w : List Char} (h : Quotable single (w ++ cs)) : Quotable single cs :=
  ⟨fun hs c hc => h.chars hs c (List.mem_append_right _ hc), fun hs =>
    ⟨hasPair_of_append (h.apart hs).1, hasPair_of_append (h.apart hs).2⟩⟩

/-- A gap in a text between quotes: spaces, or in single quotes line breaks. -/
def GapOf (single : Bool) (g : List Char) : Prop :=
  (∃ k, 0 < k ∧ g = Lexer.spaces k) ∨ single = true ∧ g ≠ [] ∧ ∀ c ∈ g, IsKept c

/-- A text between quotes is a run of characters, or one before a gap and such a text. -/
theorem Quotable.exists_gap (h : Quotable single cs) :
    ∃ w g more, cs = w ++ (g ++ more) ∧
      (∀ c ∈ w, isGap single c = false ∧ (single = true → c ≠ '\t')) ∧
      (g = [] ∧ more = [] ∨
        GapOf single g ∧ ∀ c, more.head? = some c → isGap single c = false) := by
  obtain ⟨w, s, rfl, hw, hs⟩ := exists_split (isGap single) cs
  have hword : ∀ c ∈ w, isGap single c = false ∧ (single = true → c ≠ '\t') := fun c hc =>
    ⟨hw c hc, fun hsingle => (h.chars hsingle c (List.mem_append_left _ hc)).1⟩
  cases s with
  | nil => exact ⟨w, [], [], rfl, hword, .inl ⟨rfl, rfl⟩⟩
  | cons c s =>
      by_cases hc : c = ' '
      · obtain ⟨k, more, heq, hmore⟩ := Yaml.exists_gap s
        refine ⟨w, Lexer.spaces (k + 1), more, ?_, hword, .inr ⟨.inl ⟨k + 1, Nat.succ_pos k, rfl⟩, ?_⟩⟩
        · rw [hc, heq, Lexer.spaces, Lexer.spaces, List.replicate_succ]
          rfl
        · intro d hd
          obtain ⟨ds, rfl⟩ := List.head?_eq_some_iff.1 hd
          have hspace : d ≠ ' ' := by simpa using hmore
          have hbreak : single = true → isBreak d = false := by
            intro hsingle
            have hpair := (h.apart hsingle).1
            rw [hc, heq, show w ++ ' ' :: (Lexer.spaces k ++ d :: ds) =
              (w ++ Lexer.spaces k) ++ ' ' :: d :: ds by
                rw [List.append_assoc, spaces_append_space]] at hpair
            exact not_pair_of_append hpair rfl
          simpa [isGap, hspace] using hbreak
      · -- only single quotes have gaps of another kind, and these are line breaks
        obtain ⟨rfl, hbreak⟩ : single = true ∧ isBreak c = true := by
          simpa [isGap, hc] using hs c rfl
        obtain ⟨g, more, heq, hg, hmore⟩ := exists_split (!isBreak ·) (c :: s)
        have hkept : ∀ d ∈ g, IsKept d := by
          intro d hd
          refine (h.chars rfl d ?_).2 (by simpa using hg d hd)
          rw [heq]
          simp [hd]
        have hne : g ≠ [] := by
          rintro rfl
          have hhead := hmore c (by rw [← List.nil_append more, ← heq]; rfl)
          simp [hbreak] at hhead
        refine ⟨w, g, more, by rw [heq], hword, .inr ⟨.inr ⟨rfl, hne, hkept⟩, ?_⟩⟩
        intro d hd
        obtain ⟨ds, rfl⟩ := List.head?_eq_some_iff.1 hd
        have hline : isBreak d = false := by simpa using hmore d rfl
        have hspace : d ≠ ' ' := by
          rintro rfl
          have hpair := (h.apart rfl).2
          obtain ⟨g', b, rfl⟩ : ∃ g' b, g = g' ++ [b] :=
            ⟨g.dropLast, g.getLast hne, (List.dropLast_append_getLast hne).symm⟩
          rw [heq, show w ++ (g' ++ [b] ++ ' ' :: ds) = (w ++ g') ++ b :: ' ' :: ds by simp] at hpair
          have hbad := not_pair_of_append hpair (hkept b (by simp)).isBreak
          cases hbad
        simp [isGap, hline, hspace]

/-! ### Whole texts -/

theorem quotedBody_succ {fuel : Nat} {p q : Place} {text acc : List Char}
    (hmarker : p.onMarker = false) (hend : p.atEnd = false)
    (hrun : quotedRun single (p.rest.length + 1) p text = some (q, acc, false)) :
    quotedBody single (fuel + 1) p text =
      if q.is (quoteOf single) then some (acc.reverse, q.next)
      else (foldSpace none (q.rest.length + 1) q {}).bind fun r =>
        quotedBody single fuel r.1 (r.2.text.reverse ++ acc) := by
  simp only [quotedBody, hmarker, hend, hrun, quoteOf]
  simp
  rfl

theorem quotedRun_closing (hclose : single = true → tail.head? ≠ some '\'') (fuel i column : Nat)
    (acc : List Char) :
    quotedRun single fuel ⟨quoteOf single :: tail, i, line, column⟩ acc =
      some (⟨quoteOf single :: tail, i, line, column⟩, acc, false) := by
  cases fuel with
  | zero => rfl
  | succ fuel =>
      cases single with
      | true =>
          have hnot : (tail.head? == some '\'') = false := by simpa using hclose rfl
          simp [quotedRun, quoteOf, isBlank, isBreak, hnot]
      | false => simp [quotedRun, quoteOf, isBlank, isBreak]

theorem inner_spaces (indent : Nat) :
    inner single indent (Lexer.spaces k ++ cs) = Lexer.spaces k ++ inner single indent cs := by
  have hspace : ∀ c ∈ Lexer.spaces k, c = ' ' := fun _ => List.eq_of_mem_replicate
  have hself : ∀ c ∈ Lexer.spaces k, encoded single c = [c] := by
    intro c hc
    rw [hspace c hc]
    cases single <;> rfl
  have hbreak : ∀ c ∈ Lexer.spaces k, (single && isBreak c) = false := by
    intro c hc
    rw [hspace c hc]
    cases single <;> rfl
  rw [inner_append hbreak, List.flatMap_congr hself, List.flatMap_singleton']

/-- A gap is folded into itself, with the indentation after its lines. -/
theorem foldSpace_gap {g : List Char} {indent fuel : Nat} (hgap : GapOf single g)
    (hcs : single = true → cs.head?.all (!isBreak ·) = true)
    (hrest : Solid (inner single indent cs ++ rest))
    (hindent : (g.any isBreak) = true → 0 < indent) (hcolumn : 0 < column)
    (hfuel : (inner single indent (g ++ cs)).length ≤ fuel) :
    ∃ i' line' column' fold,
      foldSpace none fuel ⟨inner single indent (g ++ cs) ++ rest, i, line, column⟩ {} =
        some (⟨inner single indent cs ++ rest, i', line', column'⟩, fold) ∧
      fold.text = g ∧ line ≤ line' ∧ 0 < column' ∧ (g.any isBreak = false →
        (inner single indent (g ++ cs)).length = g.length + (inner single indent cs).length ∧
        i' = i + g.length ∧ line' = line ∧ column' = column + g.length) := by
  rcases hgap with ⟨k, hk, rfl⟩ | ⟨rfl, hne, hkept⟩
  · have hlength : (Lexer.spaces k).length = k := List.length_replicate
    rw [inner_spaces, List.append_assoc]
    rw [inner_spaces, List.length_append, hlength] at hfuel
    refine ⟨_, _, _, _, foldSpace_spaces hrest {} (by omega), rfl, Nat.le_refl _, ?_, fun _ => ?_⟩
    · exact Nat.add_pos_left hcolumn k
    · rw [List.length_append, hlength]
      exact ⟨rfl, rfl, rfl, rfl⟩
  · cases g with
    | nil => exact absurd rfl hne
    | cons c g =>
        have hc : IsKept c := hkept c List.mem_cons_self
        have hblank : isBlank c = false := by rcases hc with rfl | rfl <;> rfl
        have hbreaks : inner true indent (c :: g ++ cs) =
            c :: g ++ (Lexer.spaces indent ++ inner true indent cs) :=
          inner_breaks hne (fun d hd => (hkept d hd).isBreak) (hcs rfl)
        rw [hbreaks] at hfuel ⊢
        obtain ⟨fuel, rfl⟩ : ∃ n, fuel = n + 1 := Nat.exists_eq_add_of_le'
          (Nat.le_trans (by simp) hfuel)
        have hstep : foldSpace none (fuel + 1) ⟨c :: (g ++ (Lexer.spaces indent ++
            (inner true indent cs ++ rest))), i, line, column⟩ {} =
            foldSpace none fuel ⟨g ++ (Lexer.spaces indent ++ (inner true indent cs ++ rest)), i + 1,
              line + 1, 0⟩ { broken := true, first := [c] } := by
          simp [foldSpace, Place.onBlank, Place.onBreak, Place.head?, hblank, hc.isBreak,
            nextLine_kept hc]
        have hfold : foldSpace none fuel ⟨g ++ (Lexer.spaces indent ++ (inner true indent cs ++ rest)),
            i + 1, line + 1, 0⟩ { broken := true, first := [c] } =
            some (⟨inner true indent cs ++ rest, i + 1 + g.length + indent, line + 1 + g.length,
              indent⟩, { broken := true, first := [c], later := [] ++ g }) :=
          foldSpace_breaks (fun d hd => hkept d (List.mem_cons_of_mem _ hd)) hrest rfl (by
            simp [Lexer.spaces] at hfuel
            omega)
        simp only [List.cons_append, List.append_assoc]
        refine ⟨_, _, _, _, hstep.trans hfold, ?_, ?_, ?_, ?_⟩
        · have hc' : c ≠ '\n' := by rcases hc with rfl | rfl <;> decide
          simp [Fold.text, hc']
        · show line ≤ line + 1 + g.length
          omega
        · exact hindent (by simp [hc.isBreak])
        · intro hnone
          simp [hc.isBreak] at hnone

theorem GapOf.exists_cons {g : List Char} (h : GapOf single g) :
    ∃ c g', g = c :: g' ∧ (isBlank c || isBreak c) = true ∧ c ≠ quoteOf single := by
  rcases h with ⟨k, hk, rfl⟩ | ⟨rfl, hne, hkept⟩
  · obtain ⟨k, rfl⟩ := Nat.exists_eq_succ_of_ne_zero (Nat.ne_of_gt hk)
    exact ⟨' ', Lexer.spaces k, List.replicate_succ, rfl, by cases single <;> decide⟩
  · obtain ⟨c, g, rfl⟩ := List.exists_cons_of_ne_nil hne
    have hc : IsKept c := hkept c List.mem_cons_self
    refine ⟨c, g, rfl, by simp [hc.isBreak], ?_⟩
    rcases hc with rfl | rfl <;> decide

/-- What is written of a text with a gap in front begins with the gap. -/
theorem head?_inner_gap {g : List Char} {indent : Nat} (h : GapOf single g)
    (hcs : single = true → cs.head?.all (!isBreak ·) = true) :
    (inner single indent (g ++ cs)).head? = g.head? := by
  obtain ⟨c, g', hg, -⟩ := h.exists_cons
  rcases h with ⟨k, -, rfl⟩ | ⟨rfl, hne, hkept⟩
  · rw [inner_spaces, hg]
    rfl
  · rw [inner_breaks hne (fun d hd => (hkept d hd).isBreak) (hcs rfl), hg]
    rfl

theorem quotedRun_gap {fuel : Nat} {acc : List Char}
    (h : ∃ c, rest.head? = some c ∧ (isBlank c || isBreak c) = true) :
    quotedRun single fuel ⟨rest, i, line, column⟩ acc =
      some (⟨rest, i, line, column⟩, acc, false) := by
  obtain ⟨c, hc, hgap⟩ := h
  obtain ⟨more, rfl⟩ := List.head?_eq_some_iff.1 hc
  cases fuel with
  | zero => rfl
  | succ fuel => simp [quotedRun, hgap]

theorem solid_quoteOf : Solid (quoteOf single :: tail) := by
  cases single <;> rfl

/-- What does not begin with a gap is written without one. -/
theorem solid_inner {indent : Nat} (h : Quotable single cs)
    (hcs : ∀ c, cs.head? = some c → isGap single c = false) :
    Solid (inner single indent cs ++ quoteOf single :: tail) := by
  cases cs with
  | nil =>
      rw [inner_nil]
      exact solid_quoteOf
  | cons c cs =>
      have hgap : isGap single c = false := hcs c rfl
      have hspace : c ≠ ' ' := by
        rintro rfl
        cases hgap
      cases single with
      | true =>
          have hbreak : isBreak c = false := by simpa [isGap, hspace] using hgap
          have htab : c ≠ '\t' := (h.chars rfl c List.mem_cons_self).1
          rw [inner_cons (by simpa using hbreak)]
          by_cases hquote : c = '\''
          · subst hquote
            rfl
          · simp [encoded, hquote, Solid, isBlank, hspace, htab, hbreak]
      | false =>
          rw [inner_cons rfl]
          rcases escaped_spec c with ⟨hself, hbreak, htab, -⟩ | ⟨e, es, hescaped, -⟩
          · simp [encoded, hself, Solid, isBlank, hspace, htab, hbreak]
          · simp [encoded, hescaped, Solid, isBlank, isBreak]

theorem quotedBody_word {fuel : Nat} {w text : List Char} (hcolumn : 0 < column) (hne : rest ≠ [])
    (hw : ∀ c ∈ w, isGap single c = false ∧ (single = true → c ≠ '\t'))
    (hstop : ∀ fuel i column acc, quotedRun single fuel ⟨rest, i, line, column⟩ acc =
      some (⟨rest, i, line, column⟩, acc, false)) :
    quotedBody single (fuel + 1) ⟨w.flatMap (encoded single) ++ rest, i, line, column⟩ text =
      if rest.head? = some (quoteOf single) then
        some (text.reverse ++ w, ⟨rest.drop 1, i + ((w.flatMap (encoded single)).length + 1), line,
          column + ((w.flatMap (encoded single)).length + 1)⟩)
      else
        (foldSpace none (rest.length + 1) ⟨rest, i + (w.flatMap (encoded single)).length, line,
          column + (w.flatMap (encoded single)).length⟩ {}).bind fun r =>
            quotedBody single fuel r.1 (r.2.text.reverse ++ (w.reverse ++ text)) := by
  have hend : (Place.mk (w.flatMap (encoded single) ++ rest) i line column).atEnd = false := by
    simp [Place.atEnd, hne]
  have hlength : w.length ≤ (w.flatMap (encoded single) ++ rest).length := by
    have hwbreak : ∀ c ∈ w, (single && isBreak c) = false := fun c hc =>
      (Bool.or_eq_false_iff.1 (hw c hc).1).2
    have hinner := @length_le_inner single 0 (w ++ [])
    rw [inner_append hwbreak, inner_nil] at hinner
    simp only [List.append_nil] at hinner
    rw [List.length_append]
    omega
  have hrun := @quotedRun_word i line column rest single w _ text hw hstop
    (Nat.le_succ_of_le hlength)
  rw [quotedBody_succ (not_onMarker_of_pos hcolumn) hend hrun]
  simp only [Place.is, Place.head?, beq_iff_eq, Place.next, List.reverse_append, List.reverse_reverse,
    Nat.add_assoc]

/-- Only single quotes have gaps with line breaks. -/
theorem GapOf.single_of_break {g : List Char} (h : GapOf single g) (hbreak : g.any isBreak = true) :
    single = true := by
  rcases h with ⟨k, -, rfl⟩ | ⟨hsingle, -⟩
  · simp [Lexer.spaces, isBreak] at hbreak
  · exact hsingle

theorem head?_unbroken (h : ∀ c, cs.head? = some c → isGap single c = false) :
    single = true → cs.head?.all (!isBreak ·) = true := by
  rintro rfl
  cases cs with
  | nil => rfl
  | cons c cs =>
      have hc : isGap true c = false := h c rfl
      simpa using (Bool.or_eq_false_iff.1 hc).2

/-- A run of characters and the gap after it are read, up to a text of the same kind. -/
theorem quotedBody_gap {indent fuel : Nat} {w g text : List Char}
    (hw : ∀ c ∈ w, isGap single c = false ∧ (single = true → c ≠ '\t')) (hgap : GapOf single g)
    (h : Quotable single cs) (hcs : ∀ c, cs.head? = some c → isGap single c = false)
    (hindent : g.any isBreak = true → 0 < indent) (hcolumn : 0 < column) :
    ∃ i' line' column', line ≤ line' ∧ 0 < column' ∧
      quotedBody single (fuel + 1) ⟨w.flatMap (encoded single) ++
          (inner single indent (g ++ cs) ++ quoteOf single :: tail), i, line, column⟩ text =
        quotedBody single fuel ⟨inner single indent cs ++ quoteOf single :: tail, i', line', column'⟩
          (g.reverse ++ (w.reverse ++ text)) ∧
      (g.any isBreak = false →
        (inner single indent (g ++ cs)).length = g.length + (inner single indent cs).length ∧
        i' = i + (w.flatMap (encoded single)).length + g.length ∧ line' = line ∧
        column' = column + (w.flatMap (encoded single)).length + g.length) := by
  have hunbroken := head?_unbroken hcs
  obtain ⟨c, g', hg, hc, hquote⟩ := hgap.exists_cons
  have hhead : (inner single indent (g ++ cs) ++ quoteOf single :: tail).head? = some c := by
    rw [List.head?_append, head?_inner_gap hgap hunbroken, hg]
    rfl
  have hnotclosed : (inner single indent (g ++ cs) ++ quoteOf single :: tail).head? ≠
      some (quoteOf single) := fun hclosed => hquote (Option.some.inj (hhead.symm.trans hclosed))
  have hne : inner single indent (g ++ cs) ++ quoteOf single :: tail ≠ [] :=
    List.append_ne_nil_of_right_ne_nil _ (List.cons_ne_nil _ _)
  obtain ⟨i', line', column', fold, hfold, htext, hline, hpos, hexact⟩ := @foldSpace_gap
    (i + (w.flatMap (encoded single)).length) line
    (column + (w.flatMap (encoded single)).length) cs (quoteOf single :: tail) single g indent
    ((inner single indent (g ++ cs) ++ quoteOf single :: tail).length + 1)
    hgap hunbroken (solid_inner h hcs) hindent (by omega) (by simp; omega)
  refine ⟨i', line', column', hline, hpos, ?_, hexact⟩
  rw [quotedBody_word hcolumn hne hw fun _ _ _ _ => quotedRun_gap ⟨c, hhead, hc⟩,
    if_neg hnotclosed, hfold, Option.bind_some, htext]

/-- **A text between quotes is read as it was.** -/
theorem quotedBody_inner {indent fuel : Nat} {text : List Char} (h : Quotable single cs)
    (hindent : single = true → cs.any isBreak = true → 0 < indent)
    (hclose : single = true → tail.head? ≠ some '\'') (hcolumn : 0 < column)
    (hfuel : cs.length < fuel) :
    ∃ i' line' column',
      quotedBody single fuel ⟨inner single indent cs ++ quoteOf single :: tail, i, line, column⟩
        text = some (text.reverse ++ cs, ⟨tail, i', line', column'⟩) ∧ line ≤ line' ∧
      ((single = true → cs.any isBreak = false) →
        i' = i + ((inner single indent cs).length + 1) ∧ line' = line ∧
        column' = column + ((inner single indent cs).length + 1)) := by
  -- on the length of the text, one word and one gap at a time
  induction hlength : cs.length using Nat.strong_induction_on
    generalizing cs i line column text fuel with
  | _ n ih =>
      obtain ⟨fuel, rfl⟩ : ∃ n, fuel = n + 1 :=
        Nat.exists_eq_add_of_le' (Nat.le_trans (Nat.succ_le_succ (Nat.zero_le _)) hfuel)
      obtain ⟨w, g, more, rfl, hw, hrest⟩ := h.exists_gap
      have hwbreak : ∀ c ∈ w, (single && isBreak c) = false := fun c hc =>
        (Bool.or_eq_false_iff.1 (hw c hc).1).2
      rw [inner_append hwbreak, List.append_assoc]
      rcases hrest with ⟨rfl, rfl⟩ | ⟨hgap, hmore⟩
      · simp only [List.append_nil, inner_nil, List.nil_append]
        exact ⟨_, _, _, (quotedBody_word hcolumn (List.cons_ne_nil _ _) hw
          fun fuel i column acc => quotedRun_closing hclose fuel i column acc).trans (if_pos rfl),
          Nat.le_refl _, fun _ => ⟨rfl, rfl, rfl⟩⟩
      · -- the gap is folded into itself, and the rest is a text of the same kind
        have hmoreQuotable : Quotable single more := h.of_append.of_append
        obtain ⟨i', line', column', hline, hpos, hstep, hexact⟩ :=
          @quotedBody_gap i line column more tail single indent fuel w g text hw hgap hmoreQuotable
            hmore (fun hbreak => hindent (hgap.single_of_break hbreak) (by simp [hbreak])) hcolumn
        have hglength : 0 < g.length := by
          obtain ⟨c, g', rfl, -⟩ := hgap.exists_cons
          exact Nat.succ_pos _
        simp only [List.length_append] at hlength hfuel
        obtain ⟨i'', line'', column'', hbody, hline', hexact'⟩ := @ih more.length (by omega)
          i' line' column' more fuel (g.reverse ++ (w.reverse ++ text)) hmoreQuotable
          (fun hsingle hbreak => hindent hsingle (by simp [hbreak])) hpos (by omega) rfl
        refine ⟨i'', line'', column'', ?_, Nat.le_trans hline hline', fun hnone => ?_⟩
        · rw [hstep, hbody]
          simp
        · have hall : single = true → g.any isBreak = false ∧ more.any isBreak = false := by
            intro hsingle
            have hall := hnone hsingle
            simp only [List.any_append, Bool.or_eq_false_iff] at hall
            exact hall.2
          have hgnone : g.any isBreak = false := Bool.eq_false_iff.2 fun hbreak =>
            Bool.false_ne_true ((hall (hgap.single_of_break hbreak)).1.symm.trans hbreak)
          obtain ⟨hinner, rfl, rfl, rfl⟩ := hexact hgnone
          obtain ⟨rfl, rfl, rfl⟩ := hexact' fun hsingle => (hall hsingle).2
          rw [List.length_append, hinner]
          omega

/-! ### Scalars -/

/-- What the printer leaves in single quotes can stand so. -/
theorem quotable_of_allowsSingle (h : Printer.allowsSingle cs = true) (hline : '\n' ∉ cs) :
    Quotable true cs := by
  simp only [Printer.allowsSingle, Printer.needsEscape, Bool.not_eq_true', Bool.or_eq_false_iff] at h
  obtain ⟨⟨hprintable, hblanks⟩, hbreaks⟩ := h
  have hchars : ∀ c ∈ cs, Printer.isPrintable c = true := fun c hc => by
    simpa using List.any_eq_false.1 hprintable c hc
  refine ⟨fun _ c hc => ⟨?_, fun hbreak => ?_⟩, fun _ => ⟨hblanks, hbreaks⟩⟩
  · rintro rfl
    exact absurd (hchars _ hc) (by decide)
  · simp only [isBreak, Bool.or_eq_true, beq_iff_eq, or_assoc] at hbreak
    rcases hbreak with rfl | rfl | rfl | hkept
    · exact absurd hc hline
    · exact absurd (hchars _ hc) (by decide)
    · exact absurd (hchars _ hc) (by decide)
    · exact hkept

theorem quotable_double : Quotable false cs := ⟨nofun, nofun⟩

/-- The style of quotes of a kind. -/
def quotedStyle (single : Bool) : Style := if single then .single else .double

theorem textIn_quotedStyle (indent : Nat) :
    Printer.textIn (quotedStyle single) indent cs =
      quoteOf single :: (inner single indent cs ++ [quoteOf single, '\n']) := by
  cases single with
  | true => simp [quotedStyle, Printer.textIn, inner, quoteOf]
  | false => rfl

/-- **A text in quotes is read as it was**, and on one line its end is known. -/
theorem quotedScalar_inner {indent : Nat} (h : Quotable single cs)
    (hindent : single = true → cs.any isBreak = true → 0 < indent)
    (hclose : single = true → tail.head? ≠ some '\'') (hcolumn : 0 < column) :
    ∃ i' line' column',
      quotedScalar single ⟨inner single indent cs ++ quoteOf single :: tail, i, line, column⟩ =
        some (cs, ⟨tail, i', line', column'⟩) ∧ line ≤ line' ∧
      ((single = true → cs.any isBreak = false) →
        i' = i + ((inner single indent cs).length + 1) ∧ line' = line ∧
        column' = column + ((inner single indent cs).length + 1)) := by
  refine quotedBody_inner h hindent hclose hcolumn ?_
  have hlength := @length_le_inner single indent cs
  rw [List.length_append]
  omega

end StyleContract.Yaml
