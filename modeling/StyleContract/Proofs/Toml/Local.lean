import Mathlib.Data.List.TakeWhile
import StyleContract.Proofs.Text.Spans
import StyleContract.Toml.Reader

/-!
# Proofs — Toml — Local

A reader looks no further than to the end of the line on which it stops: what it takes off a text, it takes
off in front of any text with the same line (`SameLine`). So it is with what is skipped (`Skips`) and with
what is read (`Local`; `LocalIn` for a reader with fuel, of which any amount does that exceeds what is
taken). Both are closed under doing one thing behind the other.
-/

namespace StyleContract.Toml

variable {α β : Type} {cs cs' rest rest' front : List Char} {c : Char}

/-! ### Lines -/

/-- Two texts whose first lines are the same and end, unless the texts are the same from some place of
that line on. -/
inductive SameLine : List Char → List Char → Prop
  | refl (cs : List Char) : SameLine cs cs
  | ended (more more' : List Char) : SameLine ('\n' :: more) ('\n' :: more')
  | cons (c : Char) {cs cs' : List Char} (h : SameLine cs cs') : SameLine (c :: cs) (c :: cs')

namespace SameLine

theorem append (h : SameLine rest rest') (front : List Char) :
    SameLine (front ++ rest) (front ++ rest') := by
  induction front with
  | nil => exact h
  | cons c front ih => exact .cons c ih

theorem head?_eq (h : SameLine cs cs') : cs'.head? = cs.head? := by
  cases h <;> rfl

theorem exists_cons (hc : c ≠ '\n') (h : SameLine cs (c :: cs')) :
    ∃ more, cs = c :: more ∧ SameLine more cs' := by
  cases h with
  | refl => exact ⟨cs', rfl, .refl cs'⟩
  | ended => exact absurd rfl hc
  | cons _ h => exact ⟨_, rfl, h⟩

theorem takeWhile_eq {f : Char → Bool} (hf : f '\n' = false) (h : SameLine cs cs') :
    cs'.takeWhile f = cs.takeWhile f := by
  induction h with
  | refl => rfl
  | ended => simp [hf]
  | cons c _ ih => rw [List.takeWhile_cons, List.takeWhile_cons, ih]

theorem dropWhile {f : Char → Bool} (hf : f '\n' = false) (h : SameLine cs cs') :
    SameLine (cs.dropWhile f) (cs'.dropWhile f) := by
  induction h with
  | refl cs => exact .refl _
  | ended more more' =>
      rw [List.dropWhile_cons_of_neg (by simp [hf]), List.dropWhile_cons_of_neg (by simp [hf])]
      exact .ended more more'
  | @cons c cs cs' h ih =>
      by_cases hc : f c = true
      · rw [List.dropWhile_cons_of_pos hc, List.dropWhile_cons_of_pos hc]
        exact ih
      · rw [List.dropWhile_cons_of_neg hc, List.dropWhile_cons_of_neg hc]
        exact .cons c h

theorem afterNewline?_eq_none (h : SameLine cs cs') (hnone : afterNewline? cs = none) :
    afterNewline? cs' = none := by
  cases h with
  | refl => exact hnone
  | ended => cases hnone
  | cons c h =>
      by_cases hn : c = '\n'
      · subst hn
        cases hnone
      by_cases hr : c = '\r'
      · subst hr
        cases h with
        | refl => exact hnone
        | ended => cases hnone
        | cons d h =>
            by_cases hd : d = '\n'
            · subst hd
              cases hnone
            · simp [afterNewline?, hd]
      · simp [afterNewline?, hn, hr]

end SameLine

/-- A line end. -/
def IsNewline (cs : List Char) : Prop := cs = ['\n'] ∨ cs = ['\r', '\n']

theorem exists_of_afterNewline? (h : afterNewline? cs = some rest) :
    ∃ front, IsNewline front ∧ cs = front ++ rest := by
  unfold afterNewline? at h
  split at h
  · cases h
    exact ⟨['\n'], .inl rfl, rfl⟩
  · cases h
    exact ⟨['\r', '\n'], .inr rfl, rfl⟩
  · cases h

theorem IsNewline.afterNewline? (h : IsNewline front) : afterNewline? (front ++ rest) = some rest := by
  rcases h with rfl | rfl <;> rfl

/-! ### What is skipped -/

/-- A part of a text is skipped, and would be in front of any text with the same line. -/
def Skips (f : List Char → List Char) : Prop :=
  ∀ cs, ∃ front, cs = front ++ f cs ∧ ∀ rest, SameLine (f cs) rest → f (front ++ rest) = rest

theorem skips_dropWhile (f : Char → Bool) : Skips (List.dropWhile f) := by
  intro cs
  refine ⟨cs.takeWhile f, List.takeWhile_append_dropWhile.symm, fun rest h => ?_⟩
  refine Text.dropWhile_append_of_head (fun c hc => List.mem_takeWhile_imp hc) ?_
  rw [h.head?_eq]
  exact Text.all_head?_dropWhile f cs

/-- One thing after the other is skipped. -/
theorem Skips.comp {f g : List Char → List Char} (hf : Skips f) (hg : Skips g) :
    Skips fun cs => g (f cs) := by
  intro cs
  obtain ⟨a, ha, hfa⟩ := hf cs
  obtain ⟨b, hb, hgb⟩ := hg (f cs)
  refine ⟨a ++ b, by rw [List.append_assoc, ← hb, ← ha], fun rest h => ?_⟩
  have hline : SameLine (f cs) (b ++ rest) := by
    rw [hb]
    exact h.append b
  simp only [List.append_assoc, hfa _ hline]
  exact hgb rest h

theorem skips_skipSpace : Skips skipSpace := skips_dropWhile isSpace

theorem skips_skipComment : Skips skipComment := by
  intro cs
  by_cases hcs : cs.head? = some '#'
  · obtain ⟨front, hfront, hskip⟩ := skips_dropWhile isPlain cs
    rw [skipComment, if_pos hcs]
    refine ⟨front, hfront, fun rest h => ?_⟩
    have hhead : (front ++ rest).head? = some '#' := by
      rw [← hcs, (h.append front).head?_eq, ← hfront]
    rw [skipComment, if_pos hhead, hskip rest h]
  · rw [skipComment, if_neg hcs]
    refine ⟨[], rfl, fun rest h => ?_⟩
    rw [List.nil_append, skipComment, if_neg (h.head?_eq ▸ hcs)]

/-- What is left of a line after its blanks and its comment. -/
def lineEnd (cs : List Char) : List Char := skipComment (skipSpace cs)

theorem skips_lineEnd : Skips lineEnd := skips_skipSpace.comp skips_skipComment

theorem skips_skipNewline : Skips skipNewline := by
  intro cs
  cases hcs : afterNewline? cs with
  | none =>
      rw [skipNewline, hcs, Option.getD_none]
      refine ⟨[], rfl, fun rest h => ?_⟩
      rw [List.nil_append, skipNewline, h.afterNewline?_eq_none hcs, Option.getD_none]
  | some more =>
      rw [skipNewline, hcs, Option.getD_some]
      obtain ⟨front, hfront, heq⟩ := exists_of_afterNewline? hcs
      refine ⟨front, heq, fun rest _ => ?_⟩
      rw [skipNewline, hfront.afterNewline?, Option.getD_some]

section

variable {f : Nat → List Char → List Char} {skip : List Char → List Char}

/-- Lines are skipped, each of them with its end, as long as there is nothing else on them. -/
theorem exists_skipped_lines (hf : ∀ fuel cs, f (fuel + 1) cs = match afterNewline? (skip cs) with
      | some cs => f fuel cs
      | none => skip cs) (hskip : Skips skip) {fuel : Nat} (hfuel : cs.length < fuel) :
    ∃ front, cs = front ++ f fuel cs ∧ ∀ rest fuel', SameLine (f fuel cs) rest →
      (front ++ rest).length < fuel' → f fuel' (front ++ rest) = rest := by
  induction fuel generalizing cs with
  | zero => exact absurd hfuel (Nat.not_lt_zero _)
  | succ fuel ih =>
      obtain ⟨a, ha, hskipa⟩ := hskip cs
      rw [hf]
      cases hend : afterNewline? (skip cs) with
      | none =>
          refine ⟨a, ha, fun rest fuel' h hfuel' => ?_⟩
          obtain ⟨fuel', rfl⟩ := Nat.exists_eq_succ_of_ne_zero (Nat.ne_zero_of_lt hfuel')
          rw [hf, hskipa rest h, h.afterNewline?_eq_none hend]
      | some more =>
          obtain ⟨b, hb, heq⟩ := exists_of_afterNewline? hend
          have hcs : cs = a ++ (b ++ more) := heq ▸ ha
          have hshort : 0 < b.length := by rcases hb with rfl | rfl <;> exact Nat.succ_pos _
          have hlength := congrArg List.length hcs
          simp only [List.length_append] at hlength
          have hmore : more.length < fuel := by omega
          obtain ⟨d, hd, hskipd⟩ := ih hmore
          refine ⟨a ++ (b ++ d), ?_, fun rest fuel' h hfuel' => ?_⟩
          · rw [List.append_assoc, List.append_assoc, ← hd, ← hcs]
          obtain ⟨fuel', rfl⟩ := Nat.exists_eq_succ_of_ne_zero (Nat.ne_zero_of_lt hfuel')
          have hline : SameLine (skip cs) (b ++ (d ++ rest)) := by
            rw [heq, hd]
            exact (h.append d).append b
          simp only [List.append_assoc, List.length_append] at hfuel' ⊢
          rw [hf, hskipa _ hline, hb.afterNewline?]
          exact hskipd rest fuel' h (by simp only [List.length_append]; omega)

theorem skips_of_lines (hf : ∀ fuel cs, f (fuel + 1) cs = match afterNewline? (skip cs) with
      | some cs => f fuel cs
      | none => skip cs) (hskip : Skips skip) : Skips fun cs => f (cs.length + 1) cs := by
  intro cs
  obtain ⟨front, hcs, hfront⟩ := exists_skipped_lines hf hskip (Nat.lt_succ_self cs.length)
  exact ⟨front, hcs, fun rest h => hfront rest _ h (Nat.lt_succ_self _)⟩

end

theorem skips_skipLines : Skips fun cs => skipLines (cs.length + 1) cs :=
  skips_of_lines (fun _ _ => rfl) skips_lineEnd

/-! ### What is read -/

/-- A reader takes the front of a text off, and would in front of any text with the same line. -/
def Takes (f : Reader α) (front : List Char) (x : α) (rest : List Char) : Prop :=
  ∀ rest', SameLine rest rest' → f (front ++ rest') = some (x, rest')

/-- A reader does so with any fuel that exceeds what it takes. -/
def TakesIn (f : Nat → Reader α) (front : List Char) (x : α) (rest : List Char) : Prop :=
  ∀ fuel, front.length < fuel → Takes (f fuel) front x rest

/-- A reader takes the front of every text off that it reads. -/
def Local (f : Reader α) : Prop :=
  ∀ cs x rest, f cs = some (x, rest) → ∃ front, cs = front ++ rest ∧ Takes f front x rest

/-- The same for what is read with some fuel. -/
def LocalIn (f : Nat → Reader α) (fuel : Nat) : Prop :=
  ∀ cs x rest, f fuel cs = some (x, rest) → ∃ front, cs = front ++ rest ∧ TakesIn f front x rest

variable {f : Reader α} {x : α} {fuel : Nat}

theorem TakesIn.of_succ {f : Nat → Reader α}
    (h : ∀ fuel, front.length ≤ fuel → Takes (f (fuel + 1)) front x rest) : TakesIn f front x rest := by
  intro fuel hfuel
  obtain ⟨fuel, rfl⟩ := Nat.exists_eq_succ_of_ne_zero (Nat.ne_zero_of_lt hfuel)
  exact h fuel (Nat.le_of_lt_succ hfuel)

theorem TakesIn.mono {f : Nat → Reader α} (h : TakesIn f front x rest) {fuel : Nat} {longer : List Char}
    (hfuel : longer.length < fuel) (hfront : front.Sublist longer) : Takes (f fuel) front x rest :=
  h fuel (Nat.lt_of_le_of_lt hfront.length_le hfuel)

/-- A reader that gets as much fuel as there is text. -/
theorem LocalIn.full {f : Nat → Reader α} (h : ∀ fuel, LocalIn f fuel) :
    Local fun cs => f (cs.length + 1) cs := by
  intro cs x rest hread
  obtain ⟨front, hcs, hfront⟩ := h _ cs x rest hread
  refine ⟨front, hcs, fun rest' hrest => hfront _ ?_ rest' hrest⟩
  rw [List.length_append]
  omega

theorem Local.toLocalIn (h : Local f) (fuel : Nat) : LocalIn (fun _ => f) fuel := by
  intro cs x rest hread
  obtain ⟨front, hcs, hfront⟩ := h cs x rest hread
  exact ⟨front, hcs, fun _ _ => hfront⟩

theorem LocalIn.toLocal (h : LocalIn (fun _ => f) fuel) : Local f := by
  intro cs x rest hread
  obtain ⟨front, hcs, hfront⟩ := h cs x rest hread
  exact ⟨front, hcs, hfront (front.length + 1) (Nat.lt_succ_self _)⟩

theorem Takes.map (h : Takes f front x rest) (g : α → β) :
    Takes (fun cs => (f cs).map fun r => (g r.1, r.2)) front (g x) rest := fun rest' hrest =>
  Option.map_eq_some_iff.2 ⟨_, h rest' hrest, rfl⟩

theorem Local.map (h : Local f) (g : α → β) :
    Local fun cs => (f cs).map fun r => (g r.1, r.2) := by
  intro cs y rest hread
  obtain ⟨⟨x, r⟩, hx, heq⟩ := Option.map_eq_some_iff.1 hread
  cases heq
  obtain ⟨front, hcs, hfront⟩ := h cs x r hx
  exact ⟨front, hcs, hfront.map g⟩

theorem LocalIn.map {f : Nat → Reader α} (h : LocalIn f fuel) (g : α → β) :
    LocalIn (fun fuel cs => (f fuel cs).map fun r => (g r.1, r.2)) fuel := by
  intro cs y rest hread
  obtain ⟨⟨x, r⟩, hx, heq⟩ := Option.map_eq_some_iff.1 hread
  cases heq
  obtain ⟨front, hcs, hfront⟩ := h cs x r hx
  exact ⟨front, hcs, fun fuel hfuel => (hfront fuel hfuel).map g⟩

/-- What is skipped in front of what is read. -/
theorem Local.behind {g : List Char → List Char} (h : Local f) (hg : Skips g) :
    Local fun cs => f (g cs) := by
  intro cs x rest hread
  obtain ⟨a, ha, hskip⟩ := hg cs
  obtain ⟨b, hb, htakes⟩ := h _ _ _ hread
  refine ⟨a ++ b, by rw [List.append_assoc, ← hb, ← ha], fun rest' hrest => ?_⟩
  have hline : SameLine (g cs) (b ++ rest') := by
    rw [hb]
    exact hrest.append b
  simp only [List.append_assoc, hskip _ hline]
  exact htakes rest' hrest

/-- What is skipped behind what is read. -/
theorem LocalIn.ahead {f : Nat → Reader α} {g : List Char → List Char} (h : LocalIn f fuel)
    (hg : Skips g) : LocalIn (fun fuel cs => (f fuel cs).map fun r => (r.1, g r.2)) fuel := by
  intro cs x rest hread
  obtain ⟨⟨x, r⟩, hx, heq⟩ := Option.map_eq_some_iff.1 hread
  cases heq
  obtain ⟨a, rfl, htakes⟩ := h _ _ _ hx
  obtain ⟨b, hb, hskip⟩ := hg r
  refine ⟨a ++ b, by rw [List.append_assoc, ← hb], fun fuel' hfuel rest' hrest => ?_⟩
  have hline : SameLine r (b ++ rest') := by
    rw [hb]
    exact hrest.append b
  have hread := htakes.mono hfuel (List.sublist_append_left a b) _ hline
  simp only [List.append_assoc, hread, Option.map_some, hskip rest' hrest]

theorem Local.ahead {g : List Char → List Char} (h : Local f) (hg : Skips g) :
    Local fun cs => (f cs).map fun r => (r.1, g r.2) :=
  LocalIn.toLocal ((h.toLocalIn 0).ahead hg)

/-- One thing is read behind the other. -/
theorem Local.pair {g : Nat → Reader β} (hf : Local f) (hg : LocalIn g fuel) :
    LocalIn (fun fuel cs => (f cs).bind fun r => (g fuel r.2).map fun s => ((r.1, s.1), s.2)) fuel := by
  intro cs xy rest hread
  obtain ⟨⟨x, r⟩, hx, hread⟩ := Option.bind_eq_some_iff.1 hread
  obtain ⟨⟨y, r'⟩, hy, heq⟩ := Option.map_eq_some_iff.1 hread
  cases heq
  obtain ⟨a, rfl, ha⟩ := hf _ _ _ hx
  obtain ⟨b, rfl, hb⟩ := hg _ _ _ hy
  refine ⟨a ++ b, (List.append_assoc ..).symm, fun fuel' hfuel rest' hrest => ?_⟩
  have hread := hb.mono hfuel (List.sublist_append_right a b) rest' hrest
  simp only [List.append_assoc, ha _ (hrest.append b), Option.bind_some, hread, Option.map_some]

/-- A reader goes on, as the same or as another one, behind a part that it takes off. -/
theorem TakesIn.of_part {f : Nat → Reader β} {f' : Nat → Reader α} {part : List Char} (g : α → β)
    (h : TakesIn f' front x rest) (hpart : part ≠ []) (hstep : ∀ fuel more, part.length ≤ fuel →
      SameLine (front ++ rest) more →
      f (fuel + 1) (part ++ more) = (f' fuel more).map fun r => (g r.1, r.2)) :
    TakesIn f (part ++ front) (g x) rest := by
  refine .of_succ fun fuel hfuel rest' hrest => ?_
  have hshort := List.length_pos_of_ne_nil hpart
  rw [List.length_append] at hfuel
  rw [List.append_assoc, hstep fuel _ (by omega) (hrest.append front),
    h fuel (by omega) rest' hrest]
  rfl

/-- A reader goes on as before behind a part, in front of any text with the line of what follows. -/
structure GoesOn (f : Nat → Reader α) (part more : List Char) (g : α → α) : Prop where
  ne_nil : part ≠ []
  step : ∀ fuel more', SameLine more more' →
    f (fuel + 1) (part ++ more') = (f fuel more').map fun r => (g r.1, r.2)

theorem GoesOn.localIn {f : Nat → Reader α} {part more : List Char} {g : α → α}
    (hpart : GoesOn f part more g) (ih : LocalIn f fuel)
    (h : f (fuel + 1) (part ++ more) = some (x, rest)) :
    ∃ front, part ++ more = front ++ rest ∧ TakesIn f front x rest := by
  rw [hpart.step fuel more (.refl more)] at h
  obtain ⟨⟨y, r⟩, hy, heq⟩ := Option.map_eq_some_iff.1 h
  cases heq
  obtain ⟨b, rfl, hb⟩ := ih _ _ _ hy
  exact ⟨part ++ b, (List.append_assoc ..).symm,
    hb.of_part g hpart.ne_nil fun fuel more' _ => hpart.step fuel more'⟩

end StyleContract.Toml
