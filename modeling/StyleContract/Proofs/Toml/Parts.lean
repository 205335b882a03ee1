import StyleContract.Proofs.Toml.Local

/-!
# Proofs — Toml — Parts

The parts of a TOML text that hold no other parts are read locally: strings in their four forms, keys, and
what is written with scalar characters. A string over several lines, or a key with dots, goes on as before
behind each part that it takes off (`GoesOn`); what stops it is on its last line.
-/

namespace StyleContract.Toml

variable {cs cs' rest rest' front : List Char} {c : Char}

/-! ### Strings -/

theorem local_coded (width : Nat) : Local (escape.coded width) := by
  intro cs x rest h
  rw [escape.coded] at h
  split at h
  · cases h
  · next hwidth =>
    obtain ⟨n, hn, h⟩ := Option.bind_eq_some_iff.1 h
    obtain ⟨c, hc, h⟩ := Option.bind_eq_some_iff.1 h
    cases h
    refine ⟨cs.take width, (List.take_append_drop width cs).symm, fun rest' _ => ?_⟩
    have hlength : (cs.take width).length = width := List.length_take_of_le (Nat.not_lt.1 hwidth)
    have hlong : ¬ (cs.take width ++ rest').length < width := by
      rw [List.length_append]
      omega
    have htake : (cs.take width ++ rest').take width = cs.take width := List.take_left' hlength
    have hdrop : (cs.take width ++ rest').drop width = rest' := List.drop_left' hlength
    rw [escape.coded, if_neg hlong, htake, hdrop]
    exact Option.bind_eq_some_iff.2 ⟨n, hn, Option.bind_eq_some_iff.2 ⟨x, hc, rfl⟩⟩

theorem local_escape : Local escape := by
  intro cs x rest h
  unfold escape at h
  split at h
  all_goals first
    | cases h
      exact ⟨[_], rfl, fun _ _ => rfl⟩
    | obtain ⟨front, hcs, hfront⟩ := local_coded _ _ _ _ h
      exact ⟨_ :: front, congrArg _ hcs, hfront⟩
    | cases h

theorem localIn_basicString (fuel : Nat) : LocalIn basicString fuel := by
  induction fuel with
  | zero => exact fun _ _ _ h => nomatch h
  | succ fuel ih =>
      intro cs s rest h
      cases cs with
      | nil => cases h
      | cons c cs =>
          have hread := h
          rw [basicString] at h
          split at h
          · next hquote =>
            cases h
            refine ⟨[c], rfl, .of_succ fun fuel' _ rest' _ => ?_⟩
            rw [List.singleton_append, basicString, if_pos hquote]
          · next hquote =>
            split at h
            · next hslash =>
              obtain ⟨⟨x, more⟩, hescape, h⟩ := Option.bind_eq_some_iff.1 h
              obtain ⟨a, rfl, ha⟩ := local_escape _ _ _ hescape
              have hpart : GoesOn basicString (c :: a) more (x :: ·) := by
                refine ⟨List.cons_ne_nil c a, fun fuel more' hmore => ?_⟩
                rw [List.cons_append, basicString, if_neg hquote, if_pos hslash, ha _ hmore]
                simp only [Option.bind_eq_bind, Option.bind_some]
                cases basicString fuel more' <;> rfl
              exact hpart.localIn ih hread
            · next hslash =>
              split at h
              · next hplain =>
                have hpart : GoesOn basicString [c] cs (c :: ·) := by
                  refine ⟨List.cons_ne_nil c [], fun fuel more' _ => ?_⟩
                  rw [List.singleton_append, basicString, if_neg hquote, if_neg hslash, if_pos hplain]
                exact hpart.localIn ih hread
              · cases h

/-- Characters of a string without escapes. -/
def isLiteral (c : Char) : Bool := isPlain c && c != '\''

theorem local_literalString : Local literalString := by
  intro cs s rest h
  have hdrop (cs : List Char) : cs.drop (cs.takeWhile fun c => isPlain c && c != '\'').length =
      cs.dropWhile isLiteral := Text.drop_length_takeWhile isLiteral cs
  rw [literalString, hdrop] at h
  split at h
  · next more hmore =>
    cases h
    have hbody : ∀ c ∈ cs.takeWhile isLiteral, isLiteral c = true := fun c => List.mem_takeWhile_imp
    refine ⟨cs.takeWhile isLiteral ++ ['\''], ?_, fun rest' _ => ?_⟩
    · rw [List.append_assoc, List.singleton_append, ← hmore, List.takeWhile_append_dropWhile]
    · have hquote : ('\'' :: rest').head?.all fun c => !isLiteral c := rfl
      rw [List.append_assoc, List.singleton_append, literalString, hdrop,
        Text.dropWhile_append_of_head hbody hquote]
      exact congrArg (fun body => some (body, rest')) (Text.takeWhile_append_of_head hbody hquote)
  · cases h

theorem exists_joined {fuel : Nat} (hfuel : cs.length < fuel) (h : afterJoin? fuel cs = some rest) :
    ∃ front, cs = front ++ rest ∧ ∀ rest' fuel', SameLine rest rest' →
      (front ++ rest').length < fuel' → afterJoin? fuel' (front ++ rest') = some rest' := by
  obtain ⟨more, hmore, rfl⟩ := Option.map_eq_some_iff.1 h
  obtain ⟨a, ha, hskipa⟩ := skips_skipSpace cs
  obtain ⟨b, hb, heq⟩ := exists_of_afterNewline? hmore
  have hcs : cs = a ++ (b ++ more) := heq ▸ ha
  have hlength := congrArg List.length hcs
  simp only [List.length_append] at hlength
  have hmore : more.length < fuel := by omega
  obtain ⟨d, hd, hskipd⟩ := exists_skipped_lines (f := afterJoin?.skipBlankLines) (fun _ _ => rfl)
    skips_skipSpace hmore
  refine ⟨a ++ (b ++ d), ?_, fun rest' fuel' hrest hfuel' => ?_⟩
  · rw [List.append_assoc, List.append_assoc, ← hd, ← hcs]
  have hline : SameLine (skipSpace cs) (b ++ (d ++ rest')) := by
    rw [heq, hd]
    exact (hrest.append d).append b
  simp only [List.append_assoc, List.length_append] at hfuel' ⊢
  rw [afterJoin?, hskipa _ hline, hb.afterNewline?, Option.map_some,
    hskipd rest' fuel' hrest (by simp only [List.length_append]; omega)]

theorem SameLine.afterJoin?_eq_none {fuel fuel' : Nat} (h : SameLine cs cs')
    (hnone : afterJoin? fuel cs = none) : afterJoin? fuel' cs' = none := by
  have hline : SameLine (skipSpace cs) (skipSpace cs') := h.dropWhile rfl
  rw [afterJoin?, hline.afterNewline?_eq_none (Option.map_eq_none_iff.1 hnone), Option.map_none]

/-- The closing quotes of a string over several lines, and the ones right before them. -/
theorem takesIn_closing {quote : Char} {escapes : Bool} {run : List Char}
    (hrun : ∀ c ∈ run, c = quote) (hlong : 3 ≤ run.length) (hmost : run.length ≤ 5)
    (hrest : rest.head? ≠ some quote) :
    TakesIn (longString quote escapes) run (List.replicate (run.length - 3) quote) rest := by
  refine .of_succ fun fuel _ rest' h => ?_
  have htake : (run ++ rest').takeWhile (· == quote) = run := by
    refine Text.takeWhile_append_of_head (fun c hc => by simpa using hrun c hc) ?_
    rw [h.head?_eq]
    cases hhead : rest.head? with
    | none => rfl
    | some c => simpa using fun heq => hrest (hhead.trans (congrArg some heq))
  cases run with
  | nil => cases hlong
  | cons c run =>
      rw [List.cons_append] at htake ⊢
      rw [longString, if_pos (hrun c List.mem_cons_self)]
      simp only [htake, if_neg (Nat.not_lt.2 hlong), if_pos hmost]
      rw [← List.cons_append, List.drop_left]

section LongString

variable {quote : Char} {escapes : Bool} {more : List Char} {fuel : Nat}

/-- Less than three quotes are part of the string. -/
theorem goesOn_quote (hquote : quote ≠ '\n')
    (hshort : ((quote :: more).takeWhile (· == quote)).length < 3) :
    GoesOn (longString quote escapes) [quote] more (quote :: ·) where
  ne_nil := List.cons_ne_nil _ _
  step fuel more' hmore := by
    have hnewline : ('\n' == quote) = false := by simpa using Ne.symm hquote
    have hrun := (hmore.cons quote).takeWhile_eq (f := (· == quote)) hnewline
    rw [List.singleton_append, longString, if_pos rfl]
    simp only [hrun, hshort, if_true]

/-- A line goes on behind its blanks and those of the lines below it. -/
theorem exists_goesOn_join (hc : c ≠ quote) (hslash : c = '\\' ∧ escapes)
    (hjoin : afterJoin? (cs.length + 1) cs = some more) :
    ∃ a, cs = a ++ more ∧ GoesOn (longString quote escapes) (c :: a) more id := by
  obtain ⟨a, rfl, ha⟩ := exists_joined (Nat.lt_succ_self _) hjoin
  refine ⟨a, rfl, List.cons_ne_nil c a, fun fuel more' hmore => ?_⟩
  rw [List.cons_append, longString, if_neg hc, if_pos hslash, ha _ _ hmore (Nat.lt_succ_self _)]
  show longString quote escapes fuel more' = _
  cases longString quote escapes fuel more' <;> rfl

theorem exists_goesOn_escape {x : Char} (hc : c ≠ quote) (hslash : c = '\\' ∧ escapes)
    (hjoin : afterJoin? (cs.length + 1) cs = none) (hescape : escape cs = some (x, more)) :
    ∃ a, cs = a ++ more ∧ GoesOn (longString quote escapes) (c :: a) more (x :: ·) := by
  obtain ⟨a, rfl, ha⟩ := local_escape _ _ _ hescape
  refine ⟨a, rfl, List.cons_ne_nil c a, fun fuel more' hmore => ?_⟩
  rw [List.cons_append, longString, if_neg hc, if_pos hslash,
    (hmore.append a).afterJoin?_eq_none hjoin, ha _ hmore]
  simp only [Option.bind_eq_bind, Option.bind_some]
  cases longString quote escapes fuel more' <;> rfl

theorem exists_goesOn_newline (hc : c ≠ quote) (hslash : ¬ (c = '\\' ∧ escapes))
    (hnewline : afterNewline? (c :: cs) = some more) :
    ∃ a, c :: cs = c :: a ++ more ∧ GoesOn (longString quote escapes) (c :: a) more ('\n' :: ·) := by
  obtain ⟨a, ha, hcs⟩ := exists_of_afterNewline? hnewline
  obtain ⟨a, rfl⟩ : ∃ a', a = c :: a' := by
    rcases ha with rfl | rfl <;> cases hcs <;> exact ⟨_, rfl⟩
  refine ⟨a, hcs, List.cons_ne_nil c a, fun fuel more' _ => ?_⟩
  have hend : afterNewline? (c :: (a ++ more')) = some more' := ha.afterNewline?
  rw [List.cons_append, longString, if_neg hc, if_neg hslash, hend]

theorem goesOn_plain (hc : c ≠ quote) (hslash : ¬ (c = '\\' ∧ escapes))
    (hnewline : afterNewline? (c :: more) = none) (hplain : isPlain c) :
    GoesOn (longString quote escapes) [c] more (c :: ·) where
  ne_nil := List.cons_ne_nil _ _
  step fuel more' hmore := by
    rw [List.singleton_append, longString, if_neg hc, if_neg hslash,
      (hmore.cons c).afterNewline?_eq_none hnewline]
    exact if_pos hplain

/-- A string over several lines goes on, or ends with its closing quotes. -/
theorem longString_cases (hquote : quote ≠ '\n') {s : List Char}
    (h : longString quote escapes (fuel + 1) cs = some (s, rest)) :
    (∃ part more g, cs = part ++ more ∧ GoesOn (longString quote escapes) part more g) ∨
      ∃ run, cs = run ++ rest ∧ TakesIn (longString quote escapes) run s rest := by
  cases cs with
  | nil => cases h
  | cons c cs =>
      by_cases hc : c = quote
      · subst hc
        rw [longString, if_pos rfl] at h
        dsimp only at h
        by_cases hshort : ((c :: cs).takeWhile (· == c)).length < 3
        · exact .inl ⟨[c], cs, _, rfl, goesOn_quote hquote hshort⟩
        rw [if_neg hshort] at h
        obtain ⟨hmost, h⟩ := Option.ite_none_right_eq_some.1 h
        cases h
        rw [Text.drop_length_takeWhile]
        refine .inr ⟨_, List.takeWhile_append_dropWhile.symm,
          takesIn_closing (fun d hd => by simpa using List.mem_takeWhile_imp hd)
            (Nat.not_lt.1 hshort) hmost fun hhead => ?_⟩
        have hend := Text.all_head?_dropWhile (· == c) (c :: cs)
        rw [hhead] at hend
        simp at hend
      rw [longString, if_neg hc] at h
      refine .inl ?_
      by_cases hslash : c = '\\' ∧ escapes
      · rw [if_pos hslash] at h
        cases hjoin : afterJoin? (cs.length + 1) cs with
        | some more =>
            obtain ⟨a, rfl, ha⟩ := exists_goesOn_join hc hslash hjoin
            exact ⟨c :: a, more, _, rfl, ha⟩
        | none =>
            rw [hjoin] at h
            obtain ⟨⟨x, more⟩, hescape, -⟩ := Option.bind_eq_some_iff.1 h
            obtain ⟨a, rfl, ha⟩ := exists_goesOn_escape hc hslash hjoin hescape
            exact ⟨c :: a, more, _, rfl, ha⟩
      · rw [if_neg hslash] at h
        cases hnewline : afterNewline? (c :: cs) with
        | some more =>
            obtain ⟨a, hcs, ha⟩ := exists_goesOn_newline hc hslash hnewline
            exact ⟨c :: a, more, _, hcs, ha⟩
        | none =>
            rw [hnewline] at h
            obtain ⟨hplain, -⟩ := Option.ite_none_right_eq_some.1 h
            exact ⟨[c], cs, _, rfl, goesOn_plain hc hslash hnewline hplain⟩

theorem localIn_longString (hquote : quote ≠ '\n') (fuel : Nat) :
    LocalIn (longString quote escapes) fuel := by
  induction fuel with
  | zero => exact fun _ _ _ h => nomatch h
  | succ fuel ih =>
      intro cs s rest h
      obtain ⟨part, more, g, rfl, hpart⟩ | hclosing := longString_cases hquote h
      · exact hpart.localIn ih h
      · exact hclosing

end LongString

theorem string_quote (h : ∀ more, cs ≠ '"' :: '"' :: more) :
    string ('"' :: cs) = basicString (cs.length + 1) cs := by
  unfold string
  split
  · next heq => exact absurd (List.cons.inj heq).2 (h _)
  · next heq => cases heq
  · next heq => rw [(List.cons.inj heq).2]
  · next heq => cases heq
  · next hno _ => exact absurd rfl (hno cs)

theorem string_apostrophe (h : ∀ more, cs ≠ '\'' :: '\'' :: more) :
    string ('\'' :: cs) = literalString cs := by
  unfold string
  split
  · next heq => cases heq
  · next heq => exact absurd (List.cons.inj heq).2 (h _)
  · next heq => cases heq
  · next heq => rw [(List.cons.inj heq).2]
  · next _ hno => exact absurd rfl (hno cs)

theorem local_string : Local string := by
  have hlong {quote : Char} {escapes : Bool} (hquote : quote ≠ '\n') (cs : List Char) :
      ∀ s rest, longString quote escapes (cs.length + 1) (skipNewline cs) = some (s, rest) →
        ∃ front, cs = front ++ rest ∧ ∀ rest', SameLine rest rest' →
          longString quote escapes ((front ++ rest').length + 1) (skipNewline (front ++ rest')) =
            some (s, rest') := by
    intro s rest h
    obtain ⟨a, ha, hskip⟩ := skips_skipNewline cs
    obtain ⟨b, hb, htakes⟩ := localIn_longString hquote _ _ _ _ h
    refine ⟨a ++ b, by rw [List.append_assoc, ← hb, ← ha], fun rest' hrest => ?_⟩
    have hline : SameLine (skipNewline cs) (b ++ rest') := by
      rw [hb]
      exact hrest.append b
    rw [List.append_assoc, hskip _ hline]
    exact htakes _ (by simp only [List.length_append]; omega) rest' hrest
  intro cs s rest h
  unfold string at h
  split at h
  · next cs =>
    obtain ⟨front, rfl, hfront⟩ := hlong (by decide) cs s rest h
    exact ⟨'"' :: '"' :: '"' :: front, rfl, hfront⟩
  · next cs =>
    obtain ⟨front, rfl, hfront⟩ := hlong (by decide) cs s rest h
    exact ⟨'\'' :: '\'' :: '\'' :: front, rfl, hfront⟩
  · next cs hthree =>
    obtain ⟨front, rfl, hfront⟩ := LocalIn.full localIn_basicString _ _ _ h
    refine ⟨'"' :: front, rfl, fun rest' hrest => ?_⟩
    have hquotes (more : List Char) : front ++ rest' ≠ '"' :: '"' :: more := fun heq => by
      obtain ⟨_, hmore, h⟩ := (heq ▸ hrest.append front).exists_cons (by decide)
      obtain ⟨more, rfl, -⟩ := h.exists_cons (by decide)
      exact hthree more hmore
    rw [List.cons_append, string_quote hquotes]
    exact hfront rest' hrest
  · next cs hthree =>
    obtain ⟨front, rfl, hfront⟩ := local_literalString _ _ _ h
    refine ⟨'\'' :: front, rfl, fun rest' hrest => ?_⟩
    have hquotes (more : List Char) : front ++ rest' ≠ '\'' :: '\'' :: more := fun heq => by
      obtain ⟨_, hmore, h⟩ := (heq ▸ hrest.append front).exists_cons (by decide)
      obtain ⟨more, rfl, -⟩ := h.exists_cons (by decide)
      exact hthree more hmore
    rw [List.cons_append, string_apostrophe hquotes]
    exact hfront rest' hrest
  · cases h

/-! ### Keys -/

def bareKey : Reader String := fun cs =>
  if (cs.takeWhile isKeyChar).isEmpty then none
  else some (String.ofList (cs.takeWhile isKeyChar), cs.dropWhile isKeyChar)

theorem simpleKey_eq_bareKey (hquote : cs.head? ≠ some '"') (hapostrophe : cs.head? ≠ some '\'') :
    simpleKey cs = bareKey cs := by
  unfold simpleKey
  split
  · exact absurd rfl hquote
  · exact absurd rfl hapostrophe
  · simp only [Text.drop_length_takeWhile]
    rfl

theorem local_bareKey : Local bareKey := by
  intro cs name rest h
  obtain ⟨hempty, h⟩ := Option.ite_none_left_eq_some.1 h
  cases h
  have hname : ∀ c ∈ cs.takeWhile isKeyChar, isKeyChar c = true := fun c => List.mem_takeWhile_imp
  refine ⟨_, List.takeWhile_append_dropWhile.symm, fun rest' hrest => ?_⟩
  have hend : rest'.head?.all fun c => !isKeyChar c := by
    rw [hrest.head?_eq]
    exact Text.all_head?_dropWhile isKeyChar cs
  rw [bareKey, Text.takeWhile_append_of_head hname hend, Text.dropWhile_append_of_head hname hend,
    if_neg hempty]

theorem local_simpleKey : Local simpleKey := by
  intro cs name rest h
  by_cases hquote : cs.head? = some '"'
  · obtain ⟨cs, rfl⟩ : ∃ more, cs = '"' :: more := by
      cases cs <;> cases hquote
      exact ⟨_, rfl⟩
    obtain ⟨front, rfl, hfront⟩ := ((LocalIn.full localIn_basicString).map String.ofList) _ _ _ h
    exact ⟨'"' :: front, rfl, hfront⟩
  by_cases hapostrophe : cs.head? = some '\''
  · obtain ⟨cs, rfl⟩ : ∃ more, cs = '\'' :: more := by
      cases cs <;> cases hapostrophe
      exact ⟨_, rfl⟩
    obtain ⟨front, rfl, hfront⟩ := (local_literalString.map String.ofList) _ _ _ h
    exact ⟨'\'' :: front, rfl, hfront⟩
  · rw [simpleKey_eq_bareKey hquote hapostrophe] at h
    obtain ⟨front, rfl, hfront⟩ := local_bareKey _ _ _ h
    refine ⟨front, rfl, fun rest' hrest => ?_⟩
    have hhead := (hrest.append front).head?_eq
    rw [simpleKey_eq_bareKey (hhead ▸ hquote) (hhead ▸ hapostrophe)]
    exact hfront rest' hrest

/-- One part of a key, and the blanks around it. -/
def keyPart : Reader String := fun cs => (simpleKey (skipSpace cs)).map fun r => (r.1, skipSpace r.2)

theorem local_keyPart : Local keyPart :=
  (local_simpleKey.behind skips_skipSpace).ahead skips_skipSpace

theorem dottedKey_succ (fuel : Nat) (cs : List Char) :
    dottedKey (fuel + 1) cs = (keyPart cs).bind fun r => match r.2 with
      | '.' :: cs => (dottedKey fuel cs).map fun rs => (r.1 :: rs.1, rs.2)
      | cs => some ([r.1], cs) := by
  rw [dottedKey, keyPart, Option.bind_map]
  rfl

theorem localIn_dottedKey (fuel : Nat) : LocalIn dottedKey fuel := by
  induction fuel with
  | zero => exact fun _ _ _ h => nomatch h
  | succ fuel ih =>
      intro cs parts rest h
      have hread := h
      rw [dottedKey_succ] at h
      obtain ⟨⟨part, more⟩, hpart, hmore⟩ := Option.bind_eq_some_iff.1 h
      obtain ⟨a, rfl, ha⟩ := local_keyPart _ _ _ hpart
      dsimp only at hmore
      split at hmore
      · next more =>
        rw [List.append_cons] at hread ⊢
        have hkey : GoesOn dottedKey (a ++ ['.']) more (part :: ·) := by
          refine ⟨by simp, fun fuel more' hmore => ?_⟩
          rw [dottedKey_succ, List.append_assoc, List.singleton_append, ha _ (hmore.cons '.')]
          rfl
        exact hkey.localIn ih hread
      · next hdot =>
        cases hmore
        refine ⟨a, rfl, .of_succ fun fuel' _ rest' hrest => ?_⟩
        rw [dottedKey_succ, ha _ hrest, Option.bind_some]
        dsimp only
        split
        · obtain ⟨more, hmore, -⟩ := hrest.exists_cons (by decide)
          exact absurd hmore (hdot more)
        · rfl

theorem local_key : Local key := by
  intro cs parts rest h
  obtain ⟨⟨parts, more⟩, hparts, h⟩ := Option.bind_eq_some_iff.1 h
  obtain ⟨hlimit, h⟩ := Option.ite_none_right_eq_some.1 h
  cases h
  obtain ⟨front, rfl, hfront⟩ := LocalIn.full localIn_dottedKey _ _ _ hparts
  refine ⟨front, rfl, fun rest' hrest => ?_⟩
  exact Option.bind_eq_some_iff.2 ⟨_, hfront rest' hrest, if_pos hlimit⟩

/-! ### Scalars -/

/-- A time of day, or what looks like it, that stands behind a blank. -/
def blankTime : List Char → List Char
  | ' ' :: more => if more.head?.any Char.isDigit then ' ' :: more.takeWhile isScalarChar else []
  | _ => []

/-- The time of day that goes with a day. -/
def timePart (day rest : List Char) : List Char :=
  match day? day with
  | some (_, []) => blankTime rest
  | _ => []

theorem scalar_eq (cs : List Char) :
    scalar cs = (scalarOf? (cs.takeWhile isScalarChar ++
      timePart (cs.takeWhile isScalarChar) (cs.dropWhile isScalarChar))).map
        (·, (cs.dropWhile isScalarChar).drop
          (timePart (cs.takeWhile isScalarChar) (cs.dropWhile isScalarChar)).length) := by
  unfold scalar
  dsimp only
  rw [Text.drop_length_takeWhile]
  split
  · next more hday hrest =>
    have htime : timePart (cs.takeWhile isScalarChar) (cs.dropWhile isScalarChar) =
        if more.head?.any Char.isDigit then ' ' :: more.takeWhile isScalarChar else [] := by
      rw [timePart, hday, hrest]
      rfl
    rw [htime]
  · next hother =>
    have htime : timePart (cs.takeWhile isScalarChar) (cs.dropWhile isScalarChar) = [] := by
      unfold timePart
      split
      · next hday =>
        unfold blankTime
        split
        · next hrest => exact (hother _ _ hday hrest).elim
        · rfl
      · rfl
    rw [htime]

theorem blankTime_append_drop (rest : List Char) :
    blankTime rest ++ rest.drop (blankTime rest).length = rest := by
  unfold blankTime
  split
  · split
    · rw [List.cons_append, List.length_cons, List.drop_succ_cons, Text.drop_length_takeWhile,
        List.takeWhile_append_dropWhile]
    · rfl
  · rfl

theorem timePart_append_drop (day rest : List Char) :
    timePart day rest ++ rest.drop (timePart day rest).length = rest := by
  unfold timePart
  split
  · exact blankTime_append_drop rest
  · rfl

theorem SameLine.blankTime_eq (h : SameLine cs cs') : blankTime cs' = blankTime cs := by
  cases h with
  | refl => rfl
  | ended => rfl
  | cons c h =>
      by_cases hc : c = ' '
      · subst hc
        rw [blankTime, blankTime, h.head?_eq, h.takeWhile_eq rfl]
      · simp [blankTime, hc]

theorem SameLine.timePart_eq (day : List Char) (h : SameLine cs cs') :
    timePart day cs' = timePart day cs := by
  rw [timePart, timePart, h.blankTime_eq]

theorem local_scalar : Local scalar := by
  intro cs v rest h
  rw [scalar_eq] at h
  obtain ⟨v, hv, heq⟩ := Option.map_eq_some_iff.1 h
  cases heq
  have hsplit := timePart_append_drop (cs.takeWhile isScalarChar) (cs.dropWhile isScalarChar)
  have hend := Text.all_head?_dropWhile isScalarChar cs
  have hcs : cs.takeWhile isScalarChar ++ cs.dropWhile isScalarChar = cs :=
    List.takeWhile_append_dropWhile
  have hfirst : ∀ c ∈ cs.takeWhile isScalarChar, isScalarChar c = true := fun c =>
    List.mem_takeWhile_imp
  generalize cs.takeWhile isScalarChar = first at hv hsplit hcs hfirst ⊢
  generalize cs.dropWhile isScalarChar = more at hv hsplit hend hcs ⊢
  generalize htime : timePart first more = time at hv hsplit ⊢
  refine ⟨first ++ time, by rw [List.append_assoc, hsplit, hcs], fun rest' hrest => ?_⟩
  have hline : SameLine more (time ++ rest') := by
    rw [← hsplit] 
    exact hrest.append time
  have hstop : (time ++ rest').head?.all fun c => !isScalarChar c := by rwa [hline.head?_eq]
  rw [List.append_assoc, scalar_eq, Text.takeWhile_append_of_head hfirst hstop,
    Text.dropWhile_append_of_head hfirst hstop, hline.timePart_eq, htime, hv, Option.map_some,
    List.drop_left]

end StyleContract.Toml
