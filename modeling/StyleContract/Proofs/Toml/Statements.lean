import StyleContract.Proofs.Toml.Values

/-!
# Proofs — Toml — Statements

A document is read one statement after the other: the header of a table, or a key with its value
(`lines_succ`). What a statement is, is told by its own lines alone: it is the same one in front of any other
text (`exists_taken_of_statement`). So whatever a reader has passed on its way to some place of a document,
it passes in the same way in front of any other text (`Steps.exists_passed`).
-/

namespace StyleContract.Toml

variable {cs more rest front : List Char} {header header' : List String} {root root' : Entries}
  {fuel : Nat}

/-! ### Ends of lines -/

/-- A text in front of which it does not matter what comes next, as a line of it ends. -/
def EndsLine (front : List Char) : Prop := ∀ more more', SameLine (front ++ more) (front ++ more')

theorem IsNewline.endsLine (h : IsNewline front) : EndsLine front := by
  intro more more'
  rcases h with rfl | rfl
  · exact .ended more more'
  · exact .cons '\r' (.ended more more')

theorem EndsLine.ne_nil (h : EndsLine front) : front ≠ [] := by
  rintro rfl
  cases h ['a'] ['b']

theorem EndsLine.append (h : EndsLine front) (before : List Char) : EndsLine (before ++ front) := by
  intro more more'
  rw [List.append_assoc, List.append_assoc]
  exact (h more more').append before

theorem afterLine?_of_nil (h : lineEnd cs = []) : afterLine? cs = some [] := by
  rw [afterLine?]
  split
  · rfl
  · next hne => exact absurd h hne

theorem afterLine?_of_ne_nil (h : lineEnd cs ≠ []) : afterLine? cs = afterNewline? (lineEnd cs) := by
  rw [afterLine?]
  split
  · next heq => exact absurd heq h
  · rfl

/-- A line is passed, with its end or as the last one. -/
theorem exists_taken_of_afterLine? (h : afterLine? cs = some rest) :
    rest = [] ∨ ∃ front, cs = front ++ rest ∧ EndsLine front ∧
      ∀ more, afterLine? (front ++ more) = some more := by
  by_cases hnil : lineEnd cs = []
  · rw [afterLine?_of_nil hnil] at h
    cases h
    exact .inl rfl
  · rw [afterLine?_of_ne_nil hnil] at h
    obtain ⟨a, ha, hskip⟩ := skips_lineEnd cs
    obtain ⟨b, hb, heq⟩ := exists_of_afterNewline? h
    refine .inr ⟨a ++ b, by rw [List.append_assoc, ← heq, ← ha], hb.endsLine.append a, fun more => ?_⟩
    have hsame : SameLine (lineEnd cs) (b ++ more) := heq ▸ hb.endsLine rest more
    have hend : lineEnd (a ++ (b ++ more)) = b ++ more := hskip _ hsame
    have hne : lineEnd (a ++ (b ++ more)) ≠ [] := by
      rw [hend]
      exact List.append_ne_nil_of_left_ne_nil hb.endsLine.ne_nil more
    rw [List.append_assoc, afterLine?_of_ne_nil hne, hend, hb.afterNewline?]

/-- What stands before the rest of a line does so in front of any text, once that line has ended. -/
theorem exists_taken_of_line {α : Type} {f : Reader α} {x : α} (hf : Local f)
    (h : ((f cs).bind fun r => (afterLine? r.2).map fun cs => (r.1, cs)) = some (x, rest)) :
    rest = [] ∨ ∃ front, cs = front ++ rest ∧ EndsLine front ∧ ∀ more,
      ((f (front ++ more)).bind fun r => (afterLine? r.2).map fun cs => (r.1, cs)) = some (x, more) := by
  obtain ⟨⟨x, r⟩, hx, h⟩ := Option.bind_eq_some_iff.1 h
  obtain ⟨r', hr', heq⟩ := Option.map_eq_some_iff.1 h
  cases heq
  refine (exists_taken_of_afterLine? hr').imp_right ?_
  rintro ⟨b, rfl, hb, hafter⟩
  obtain ⟨a, rfl, ha⟩ := hf _ _ _ hx
  refine ⟨a ++ b, (List.append_assoc ..).symm, hb.append a, fun more => ?_⟩
  rw [List.append_assoc, ha _ (hb rest more), Option.bind_some, hafter more, Option.map_some]

/-! ### Statements -/

inductive Statement where
  /-- The header of a table. -/
  | table (path : List String)
  /-- The header of one more table of a list. -/
  | listed (path : List String)
  /-- A key with its value. -/
  | keyed (path : List String) (v : Toml)

/-- The table that the statements behind a statement belong to. -/
def Statement.target (header : List String) : Statement → List String
  | .table path | .listed path => path
  | .keyed _ _ => header

/-- What a statement makes of the root table. -/
def Statement.apply (header : List String) : Statement → Entries → Option Entries
  | .table path => openTable path
  | .listed path => openListed path
  | .keyed path v => changeAt .above (fun here inside => define path v here inside) header .header

/-- The brackets that close a header. -/
def brackets (count : Nat) (cs : List Char) : Option (List Char) :=
  if (skipSpace cs).take count = List.replicate count ']' then some ((skipSpace cs).drop count)
  else none

/-- A header behind its opening brackets. -/
def headerPart (count : Nat) : Reader (List String) := fun cs =>
  (key cs).bind fun r => (brackets count r.2).map fun cs => (r.1, cs)

/-- A key with its value. -/
def keyedPart : Reader (List String × Toml) := fun cs =>
  (keyEquals cs).bind fun r => (value depthLimit (r.2.length + 1) r.2).map fun s => ((r.1, s.1), s.2)

/-- What a line holds, without its end. -/
def content : Reader Statement
  | '[' :: '[' :: cs => (headerPart 2 cs).map fun r => (.listed r.1, r.2)
  | '[' :: cs => (headerPart 1 cs).map fun r => (.table r.1, r.2)
  | cs => (keyedPart cs).map fun r => (.keyed r.1.1 r.1.2, r.2)

/-- A statement and the end of its line. -/
def statement : Reader Statement := fun cs =>
  (content cs).bind fun r => (afterLine? r.2).map fun cs => (r.1, cs)

theorem content_of_ne (h : cs.head? ≠ some '[') :
    content cs = (keyedPart cs).map fun r => (.keyed r.1.1 r.1.2, r.2) := by
  unfold content
  split
  · exact absurd rfl h
  · exact absurd rfl h
  · rfl

theorem content_of_bracket (h : cs.head? ≠ some '[') :
    content ('[' :: cs) = (headerPart 1 cs).map fun r => (.table r.1, r.2) := by
  cases cs with
  | nil => rfl
  | cons c cs =>
      have hc : c ≠ '[' := fun hc => h (congrArg some hc)
      simp [content, hc]

theorem closeHeader?_eq (count : Nat) (cs : List Char) :
    closeHeader? count cs = (brackets count cs).bind afterLine? := by
  rw [closeHeader?, brackets]
  split <;> rfl

theorem lines_succ : lines header root (fuel + 1) cs =
    if skipAll cs = [] then some root
    else (statement (skipAll cs)).bind fun r =>
      (r.1.apply header root).bind fun root => lines (r.1.target header) root fuel r.2 := by
  have hskip : skipLines (cs.length + 1) cs = skipAll cs := rfl
  rw [lines, hskip]
  generalize skipAll cs = cs
  by_cases hcs : cs.head? = some '['
  · obtain ⟨cs, rfl⟩ := List.head?_eq_some_iff.1 hcs
    rw [if_neg (List.cons_ne_nil _ _)]
    by_cases hlisted : cs.head? = some '['
    · obtain ⟨cs, rfl⟩ := List.head?_eq_some_iff.1 hlisted
      simp only [statement, content, headerPart, closeHeader?_eq, Option.bind_eq_bind, Option.bind_map,
        Option.map_bind, Option.bind_assoc, Function.comp_def]
      rfl
    · split
      · next heq => cases heq
      · next heq => exact absurd (congrArg List.head? (List.cons.inj heq).2) hlisted
      · next heq =>
        cases heq
        simp only [statement, content_of_bracket hlisted, headerPart, closeHeader?_eq,
          Option.bind_eq_bind, Option.bind_map, Option.map_bind, Option.bind_assoc, Function.comp_def]
        rfl
      · next hno => exact absurd rfl (hno cs)
  · split
    · rfl
    · exact absurd rfl hcs
    · exact absurd rfl hcs
    · next hne _ _ =>
      rw [if_neg fun heq => hne heq]
      simp only [statement, content_of_ne hcs, keyedPart, keyEquals, Option.bind_eq_bind,
        Option.bind_map, Option.map_bind, Option.bind_assoc, Function.comp_def]
      refine Option.bind_congr fun path _ => Option.bind_congr fun more _ =>
        Option.bind_congr fun v _ => ?_
      exact Option.bind_comm ..

theorem local_headerPart (count : Nat) : Local (headerPart count) := by
  intro cs path rest h
  obtain ⟨⟨path, r⟩, hkey, h⟩ := Option.bind_eq_some_iff.1 h
  obtain ⟨more, hmore, heq⟩ := Option.map_eq_some_iff.1 h
  cases heq
  obtain ⟨htake, hdrop⟩ := Option.ite_none_right_eq_some.1 hmore
  obtain ⟨a, rfl, ha⟩ := local_key _ _ _ hkey
  obtain ⟨b, hb, hskip⟩ := skips_skipSpace r
  have hr : skipSpace r = List.replicate count ']' ++ rest := by
    rw [← htake, ← Option.some.inj hdrop, List.take_append_drop]
  rw [hr] at hb hskip
  refine ⟨a ++ (b ++ List.replicate count ']'), by rw [hb]; simp, fun rest' hrest => ?_⟩
  have hline : SameLine (List.replicate count ']' ++ rest) (List.replicate count ']' ++ rest') :=
    hrest.append _
  have hread : key (a ++ (b ++ (List.replicate count ']' ++ rest'))) =
      some (path, b ++ (List.replicate count ']' ++ rest')) :=
    ha _ (hb ▸ hline.append b)
  have hbrackets : brackets count (b ++ (List.replicate count ']' ++ rest')) = some rest' := by
    rw [brackets, hskip _ hline, List.take_left' List.length_replicate,
      List.drop_left' List.length_replicate, if_pos rfl]
  simp only [headerPart, List.append_assoc, hread, Option.bind_some, hbrackets, Option.map_some]

theorem local_keyedPart : Local keyedPart :=
  LocalIn.toLocal (local_keyEquals.pair ((LocalIn.full (localIn_value depthLimit)).toLocalIn 0))

theorem local_content : Local content := by
  intro cs st rest h
  by_cases hcs : cs.head? = some '['
  · obtain ⟨cs, rfl⟩ := List.head?_eq_some_iff.1 hcs
    by_cases hlisted : cs.head? = some '['
    · obtain ⟨cs, rfl⟩ := List.head?_eq_some_iff.1 hlisted
      obtain ⟨a, rfl, ha⟩ := (local_headerPart 2).map Statement.listed _ _ _ h
      exact ⟨'[' :: '[' :: a, rfl, ha⟩
    · rw [content_of_bracket hlisted] at h
      obtain ⟨a, rfl, ha⟩ := (local_headerPart 1).map Statement.table _ _ _ h
      refine ⟨'[' :: a, rfl, fun rest' hrest => ?_⟩
      rw [List.cons_append, content_of_bracket ((hrest.append a).head?_eq ▸ hlisted)]
      exact ha rest' hrest
  · rw [content_of_ne hcs] at h
    obtain ⟨a, rfl, ha⟩ := (local_keyedPart.map fun r => Statement.keyed r.1 r.2) _ _ _ h
    refine ⟨a, rfl, fun rest' hrest => ?_⟩
    rw [content_of_ne ((hrest.append a).head?_eq ▸ hcs)]
    exact ha rest' hrest

/-- **A statement is the same one in front of any text**, unless it ends with its text. -/
theorem exists_taken_of_statement {st : Statement} (h : statement cs = some (st, rest)) :
    rest = [] ∨ ∃ front, cs = front ++ rest ∧ EndsLine front ∧
      ∀ more, statement (front ++ more) = some (st, more) :=
  exists_taken_of_line local_content h

/-! ### Reading -/

theorem skipLines_eq (h : cs.length < fuel) : skipLines fuel cs = skipAll cs := by
  obtain ⟨front, hcs, hfront⟩ :=
    exists_skipped_lines (f := skipLines) (fun _ _ => rfl) skips_lineEnd h
  have hfull := hfront _ (cs.length + 1) (.refl _) (hcs ▸ Nat.lt_succ_self _)
  rw [← hcs] at hfull
  exact hfull.symm

theorem length_skipAll (cs : List Char) : (skipAll cs).length ≤ cs.length := by
  obtain ⟨front, hcs, -⟩ := skips_skipAll cs
  have hlength := congrArg List.length hcs
  rw [List.length_append] at hlength
  omega

theorem length_lt_of_statement {st : Statement} (hne : cs ≠ [])
    (h : statement cs = some (st, rest)) : rest.length < cs.length := by
  rcases exists_taken_of_statement h with rfl | ⟨front, rfl, hends, -⟩
  · exact List.length_pos_of_ne_nil hne
  · have hfront := List.length_pos_of_ne_nil hends.ne_nil
    rw [List.length_append]
    omega

/-- Any fuel that exceeds the text will do. -/
theorem lines_fuel {fuel' : Nat} (hfuel : cs.length < fuel) (hfuel' : cs.length < fuel') :
    lines header root fuel cs = lines header root fuel' cs := by
  induction fuel generalizing header root cs fuel' with
  | zero => exact absurd hfuel (Nat.not_lt_zero _)
  | succ fuel ih =>
      obtain ⟨fuel', rfl⟩ := Nat.exists_eq_succ_of_ne_zero (Nat.ne_zero_of_lt hfuel')
      rw [lines_succ, lines_succ]
      split
      · rfl
      · next hne =>
        refine Option.bind_congr fun r hr => Option.bind_congr fun root _ => ?_
        have hshort := length_lt_of_statement hne hr
        have hskip := length_skipAll cs
        exact ih (by omega) (by omega)

/-- A place of a document from which reading goes on. -/
structure Place where
  /-- The path of the table that keys are set in. -/
  header : List String
  /-- The root table so far. -/
  root : Entries
  text : List Char

/-- The root table in the end. -/
def Place.read (σ : Place) : Option Entries := lines σ.header σ.root (σ.text.length + 1) σ.text

theorem Place.read_eq (σ : Place) :
    σ.read = if skipAll σ.text = [] then some σ.root
      else (statement (skipAll σ.text)).bind fun r => (r.1.apply σ.header σ.root).bind fun root =>
        Place.read ⟨r.1.target σ.header, root, r.2⟩ := by
  rw [read, lines_succ]
  split
  · rfl
  · next hne =>
    refine Option.bind_congr fun r hr => Option.bind_congr fun root _ => ?_
    have hshort := length_lt_of_statement hne hr
    have hskip := length_skipAll σ.text
    exact lines_fuel (by omega) (Nat.lt_succ_self _)

/-- From one place to the next: a line with nothing on it is passed, or a statement is read. -/
inductive Step : Place → Place → Prop
  | blank {header : List String} {root : Entries} {cs rest : List Char}
      (h : afterLine? cs = some rest) : Step ⟨header, root, cs⟩ ⟨header, root, rest⟩
  | statement {header : List String} {root root' : Entries} {cs rest : List Char} {st : Statement}
      (h : statement (skipAll cs) = some (st, rest)) (happly : st.apply header root = some root') :
      Step ⟨header, root, cs⟩ ⟨st.target header, root', rest⟩

inductive Steps : Place → Place → Prop
  | refl (σ : Place) : Steps σ σ
  | more {σ τ υ : Place} (h : Step σ τ) (t : Steps τ υ) : Steps σ υ

theorem skipAll_of_afterLine? (h : afterLine? cs = some rest) : skipAll cs = skipAll rest := by
  have hend : skipComment (skipSpace cs) = lineEnd cs := rfl
  rw [skipAll, skipLines, hend]
  by_cases hnil : lineEnd cs = []
  · rw [afterLine?_of_nil hnil] at h
    cases h
    rw [hnil]
    rfl
  · rw [afterLine?_of_ne_nil hnil] at h
    rw [h]
    obtain ⟨a, ha, -⟩ := skips_lineEnd cs
    obtain ⟨b, hb, heq⟩ := exists_of_afterNewline? h
    have hshort := List.length_pos_of_ne_nil hb.endsLine.ne_nil
    have hlength := congrArg List.length ha
    rw [heq, List.length_append, List.length_append] at hlength
    exact skipLines_eq (by omega)

theorem ne_nil_of_statement {st : Statement} (h : statement cs = some (st, rest)) : cs ≠ [] := by
  rintro rfl
  cases h

/-- Reading goes on from the next place. -/
theorem Step.read_eq {σ τ : Place} (h : Step σ τ) : σ.read = τ.read := by
  cases h with
  | blank h => rw [Place.read_eq, Place.read_eq, skipAll_of_afterLine? h]
  | statement h happly =>
      rw [Place.read_eq, if_neg (ne_nil_of_statement h), h, Option.bind_some]
      exact (congrArg (Option.bind · _) happly).trans (Option.bind_some ..)

/-- **Reading goes on from any place on the way.** -/
theorem Steps.read_eq {σ τ : Place} (h : Steps σ τ) : σ.read = τ.read := by
  induction h with
  | refl => rfl
  | more h _ ih => exact h.read_eq.trans ih

theorem Step.exists_passed {σ τ : Place} (h : Step σ τ) (hne : τ.text ≠ []) :
    ∃ front, σ.text = front ++ τ.text ∧
      ∀ more, Step ⟨σ.header, σ.root, front ++ more⟩ ⟨τ.header, τ.root, more⟩ := by
  cases h with
  | blank h =>
      obtain ⟨front, hcs, -, hafter⟩ := (exists_taken_of_afterLine? h).resolve_left hne
      exact ⟨front, hcs, fun more => .blank (hafter more)⟩
  | @statement header root root' cs rest st h happly =>
      obtain ⟨b, hb, hends, htakes⟩ := (exists_taken_of_statement h).resolve_left hne
      obtain ⟨a, ha, hskip⟩ := skips_skipAll cs
      refine ⟨a ++ b, by rw [List.append_assoc, ← hb, ← ha], fun more => .statement ?_ happly⟩
      have hline : SameLine (skipAll cs) (b ++ more) := hb ▸ hends rest more
      rw [List.append_assoc, hskip _ hline, htakes]

/-- **What was passed on the way to a place** is passed in the same way in front of any other text. -/
theorem Steps.exists_passed {σ τ : Place} (h : Steps σ τ) (hne : τ.text ≠ []) :
    ∃ front, σ.text = front ++ τ.text ∧
      ∀ more, Steps ⟨σ.header, σ.root, front ++ more⟩ ⟨τ.header, τ.root, more⟩ := by
  induction h with
  | refl σ => exact ⟨[], rfl, fun more => .refl _⟩
  | @more σ τ υ h _ ih =>
      obtain ⟨b, hb, htail⟩ := ih hne
      have hτ : τ.text ≠ [] := by
        rw [hb]
        exact List.append_ne_nil_of_right_ne_nil b hne
      obtain ⟨a, ha, hhead⟩ := h.exists_passed hτ
      refine ⟨a ++ b, by rw [List.append_assoc, ← hb, ← ha], fun more => ?_⟩
      rw [List.append_assoc]
      exact .more (hhead (b ++ more)) (htail more)

/-! ### Starts of lines -/

theorem exists_line_of_afterLine? (h : afterLine? cs = some rest) :
    rest = [] ∨ ∃ front, cs = front ++ '\n' :: rest := by
  by_cases hnil : lineEnd cs = []
  · rw [afterLine?_of_nil hnil] at h
    cases h
    exact .inl rfl
  · rw [afterLine?_of_ne_nil hnil] at h
    obtain ⟨a, ha, -⟩ := skips_lineEnd cs
    obtain ⟨b, hb, heq⟩ := exists_of_afterNewline? h
    rw [ha, heq]
    rcases hb with rfl | rfl
    · exact .inr ⟨a, rfl⟩
    · exact .inr ⟨a ++ ['\r'], by simp⟩

theorem Step.exists_line {σ τ : Place} (h : Step σ τ) (hne : τ.text ≠ []) :
    ∃ front, σ.text = front ++ '\n' :: τ.text := by
  cases h with
  | blank h => exact (exists_line_of_afterLine? h).resolve_left hne
  | @statement header root root' cs rest st h happly =>
      obtain ⟨⟨st, r⟩, hcontent, h⟩ := Option.bind_eq_some_iff.1 h
      obtain ⟨rest, hrest, heq⟩ := Option.map_eq_some_iff.1 h
      cases heq
      obtain ⟨a, ha, -⟩ := skips_skipAll cs
      obtain ⟨b, hb, -⟩ := local_content _ _ _ hcontent
      obtain ⟨front, rfl⟩ := (exists_line_of_afterLine? hrest).resolve_left hne
      exact ⟨a ++ (b ++ front), by rw [ha, hb]; simp⟩

/-- **Reading arrives at places where a line starts.** -/
theorem Steps.exists_line {σ τ : Place} (h : Steps σ τ) (hne : τ.text ≠ []) :
    σ = τ ∨ ∃ front, σ.text = front ++ '\n' :: τ.text := by
  induction h with
  | refl => exact .inl rfl
  | more h _ ih =>
      right
      rcases ih hne with rfl | ⟨front, hfront⟩
      · exact h.exists_line hne
      · obtain ⟨before, hbefore⟩ := h.exists_line (by rw [hfront]; simp)
        exact ⟨before ++ '\n' :: front, by rw [hbefore, hfront]; simp⟩

end StyleContract.Toml
