import StyleContract.Proofs.Toml.Parts

/-!
# Proofs — Toml — Values

Values are read locally, though lists and tables lie inside each other (`localIn_value`). The three
readers call one another, so this is one induction over their fuel; each call leaves an opening bracket, a
comma or an equals sign behind, which is why what is taken bounds the fuel that is needed.
-/

namespace StyleContract.Toml

variable {cs more rest : List Char} {room fuel : Nat} {entries : Entries}

/-! ### Parts of lists and tables -/

/-- Blanks, comments and line ends, as many as there are. -/
def skipAll (cs : List Char) : List Char := skipLines (cs.length + 1) cs

theorem skips_skipAll : Skips skipAll := skips_skipLines

theorem expect?_eq_some {c : Char} (h : expect? cs c = some rest) : cs = c :: rest := by
  obtain ⟨hhead, h⟩ := Option.ite_none_right_eq_some.1 h
  cases h
  cases cs with
  | nil => cases hhead
  | cons d cs => rw [Option.some.inj hhead, List.drop_one, List.tail_cons]

theorem expect?_cons (c : Char) (cs : List Char) : expect? (c :: cs) c = some cs := if_pos rfl

/-- A key, its equals sign and the blanks behind that. -/
def keyEquals : Reader (List String) := fun cs =>
  (key cs).bind fun r => (expect? r.2 '=').map fun cs => (r.1, skipSpace cs)

theorem local_keyEquals : Local keyEquals := by
  intro cs path rest h
  obtain ⟨⟨path, r⟩, hkey, h⟩ := Option.bind_eq_some_iff.1 h
  obtain ⟨more, hequals, heq⟩ := Option.map_eq_some_iff.1 h
  cases heq
  obtain ⟨a, rfl, ha⟩ := local_key _ _ _ hkey
  cases expect?_eq_some hequals
  obtain ⟨b, hb, hskip⟩ := skips_skipSpace more
  refine ⟨a ++ '=' :: b, by rw [List.append_assoc, List.cons_append, ← hb], fun rest' hrest => ?_⟩
  have hline : SameLine ('=' :: more) ('=' :: (b ++ rest')) := by
    conv => arg 1; rw [hb]
    exact (hrest.append b).cons '='
  have hread := ha _ hline
  simp only [keyEquals, List.append_assoc, List.cons_append, hread, Option.bind_some, expect?_cons,
    Option.map_some, hskip rest' hrest]

/-- A value, and what may be skipped behind it. -/
def valueAnd (skip : List Char → List Char) (room fuel : Nat) : Reader Toml := fun cs =>
  (value room fuel cs).map fun r => (r.1, skip r.2)

/-- A key with its value, and the blanks behind it. -/
def pairPart (room fuel : Nat) : Reader (List String × Toml) := fun cs =>
  (keyEquals cs).bind fun r => (valueAnd skipSpace room fuel r.2).map fun s => ((r.1, s.1), s.2)

/-- The end of a container, or a comma and what comes next. -/
def endOr {α : Type} (closing : Char) (done : α) (next : Reader α) : Reader α
  | c :: cs => if c = closing then some (done, cs) else if c = ',' then next cs else none
  | [] => none

section

variable {α : Type} {closing : Char} {done : α} {next : Reader α}

theorem endOr_closing : endOr closing done next (closing :: cs) = some (done, cs) := if_pos rfl

theorem endOr_comma (h : ',' ≠ closing) : endOr closing done next (',' :: cs) = next cs := by
  rw [endOr, if_neg h, if_pos rfl]

theorem endOr_eq_none (hclosing : ∀ more, cs ≠ closing :: more) (hcomma : ∀ more, cs ≠ ',' :: more) :
    endOr closing done next cs = none := by
  cases cs with
  | nil => rfl
  | cons c cs =>
      have hc : c ≠ closing := fun heq => hclosing cs (heq ▸ rfl)
      have hd : c ≠ ',' := fun heq => hcomma cs (heq ▸ rfl)
      rw [endOr, if_neg hc, if_neg hd]

end

theorem exists_taken_of_endOr {α : Type} {closing : Char} {done x : α} {next : Nat → Reader α}
    (h : LocalIn next fuel) (hread : endOr closing done (next fuel) cs = some (x, rest)) :
    ∃ front, front ≠ [] ∧ cs = front ++ rest ∧ ∀ fuel, front.length ≤ fuel →
      Takes (endOr closing done (next fuel)) front x rest := by
  cases cs with
  | nil => cases hread
  | cons c cs =>
      rw [endOr] at hread
      split at hread
      · next hc =>
        cases hread
        exact ⟨[c], List.cons_ne_nil c [], rfl, fun _ _ _ _ => if_pos hc⟩
      · next hc =>
        obtain ⟨hcomma, hread⟩ := Option.ite_none_right_eq_some.1 hread
        obtain ⟨b, rfl, hb⟩ := h _ _ _ hread
        refine ⟨c :: b, List.cons_ne_nil c b, rfl, fun fuel' hfuel rest' hrest => ?_⟩
        rw [List.cons_append, endOr, if_neg hc, if_pos hcomma, hb fuel' hfuel rest' hrest]

theorem items_of_closing (h : skipAll cs = ']' :: more) : items room (fuel + 1) cs = some ([], more) := by
  rw [skipAll] at h
  simp only [items, h]

theorem items_of_ne (h : ∀ more, skipAll cs ≠ ']' :: more) :
    items room (fuel + 1) cs = (valueAnd skipAll room fuel (skipAll cs)).bind fun r =>
      endOr ']' [r.1] (fun cs => (items room fuel cs).map fun rs => (r.1 :: rs.1, rs.2)) r.2 := by
  rw [items]
  split
  · next heq => exact absurd heq (h _)
  · rw [valueAnd, Option.bind_map]
    refine Option.bind_congr fun r _ => ?_
    dsimp only [skipAll, Function.comp_apply]
    split
    · next heq => rw [heq, endOr_closing]
    · next heq => rw [heq, endOr_comma (by decide)]
    · next hclosing hcomma => rw [endOr_eq_none hclosing hcomma]

theorem pairs_succ :
    pairs room (fuel + 1) entries cs = (pairPart room fuel cs).bind fun r =>
      (define r.1.1 r.1.2 .header entries).bind fun entries =>
        endOr '\x7d' entries (pairs room fuel entries) r.2 := by
  rw [pairs, pairPart, keyEquals]
  simp only [Option.bind_eq_bind, Option.bind_assoc, Option.bind_map, Function.comp_def, valueAnd]
  refine Option.bind_congr fun _ _ => Option.bind_congr fun _ _ => Option.bind_congr fun _ _ =>
    Option.bind_congr fun entries _ => ?_
  split
  · next heq => rw [heq, endOr_closing]
  · next heq => rw [heq, endOr_comma (by decide)]
  · next hclosing hcomma => rw [endOr_eq_none hclosing hcomma]

theorem value_of_quote {c : Char} (hc : c = '"' ∨ c = '\'') (h : cs.head? = some c) :
    value room (fuel + 1) cs = (string cs).map fun r => (.text (String.ofList r.1), r.2) := by
  cases cs with
  | nil => cases h
  | cons d cs =>
      cases Option.some.inj h
      rcases hc with rfl | rfl <;> rfl

theorem value_of_scalar (h : ∀ c ∈ ['"', '\'', '[', '\x7b'], cs.head? ≠ some c) :
    value room (fuel + 1) cs = scalar cs := by
  have hno (c : Char) (hc : c ∈ ['"', '\'', '[', '\x7b']) (more : List Char) : cs ≠ c :: more := by
    rintro rfl
    exact h c hc rfl
  rw [value]
  · exact hno '"' (by simp)
  · exact hno '\'' (by simp)
  · exact hno '[' (by simp)
  · exact hno '\x7b' (by simp)

theorem value_of_brace (hroom : room ≠ 0) (h : ∀ more, skipSpace cs ≠ '\x7d' :: more) :
    value room (fuel + 1) ('\x7b' :: cs) =
      (pairs (room - 1) fuel [] (skipSpace cs)).map fun r => (.table (closedEntries r.1), r.2) := by
  rw [value, if_neg hroom]
  split
  · next heq => exact absurd heq (h _)
  · rfl

theorem value_of_braces (hroom : room ≠ 0) (h : skipSpace cs = '\x7d' :: more) :
    value room (fuel + 1) ('\x7b' :: cs) = some (.table [], more) := by
  rw [value, if_neg hroom, h]
  rfl

/-! ### Values -/

/-- What is not closed behind what is skipped is not closed in front of another text with its line. -/
theorem stays_open {skip : List Char → List Char} {a b : List Char} {c : Char} (hc : c ≠ '\n')
    (hskip : ∀ rest', SameLine (skip cs) rest' → skip (a ++ rest') = rest')
    (hb : skip cs = b ++ rest) (hne : ∀ more, skip cs ≠ c :: more) (hrest : SameLine rest rest') :
    skip (a ++ (b ++ rest')) = b ++ rest' ∧ ∀ more, skip (a ++ (b ++ rest')) ≠ c :: more := by
  have hline : SameLine (skip cs) (b ++ rest') := by
    rw [hb]
    exact hrest.append b
  have hstart := hskip _ hline
  refine ⟨hstart, fun more heq => ?_⟩
  rw [hstart] at heq
  obtain ⟨more, hmore, -⟩ := (heq ▸ hline).exists_cons hc
  exact hne more hmore

theorem localIn_items_succ (hvalue : LocalIn (value room) fuel) (hitems : LocalIn (items room) fuel) :
    LocalIn (items room) (fuel + 1) := by
  intro cs vs rest h
  obtain ⟨a, ha, hskip⟩ := skips_skipAll cs
  by_cases hclosing : ∃ more, skipAll cs = ']' :: more
  · obtain ⟨more, hmore⟩ := hclosing
    rw [items_of_closing hmore] at h
    cases h
    rw [hmore] at ha hskip
    refine ⟨a ++ [']'], by rw [ha, List.append_assoc]; rfl, .of_succ fun fuel' _ rest' hrest => ?_⟩
    rw [List.append_assoc]
    exact items_of_closing (hskip _ (hrest.cons ']'))
  · have hne (more : List Char) : skipAll cs ≠ ']' :: more := fun heq => hclosing ⟨more, heq⟩
    rw [items_of_ne hne] at h
    obtain ⟨⟨v, more⟩, hv, hmore⟩ := Option.bind_eq_some_iff.1 h
    obtain ⟨b, hb, htakes⟩ := (hvalue.ahead skips_skipAll) _ _ _ hv
    obtain ⟨d, hd, rfl, hend⟩ := exists_taken_of_endOr (hitems.map (v :: ·)) hmore
    refine ⟨a ++ (b ++ d), by rw [List.append_assoc, List.append_assoc, ← hb, ← ha],
      .of_succ fun fuel' hfuel rest' hrest => ?_⟩
    have hshort := List.length_pos_of_ne_nil hd
    simp only [List.length_append] at hfuel
    obtain ⟨hstart, hne'⟩ := stays_open (by decide) hskip hb hne (hrest.append d)
    rw [List.append_assoc, List.append_assoc, items_of_ne hne', hstart]
    exact Option.bind_eq_some_iff.2 ⟨_, htakes fuel' (by omega) _ (hrest.append d),
      hend fuel' (by omega) rest' hrest⟩

theorem localIn_pairs_succ (hvalue : LocalIn (value room) fuel)
    (hpairs : ∀ entries, LocalIn (pairs room · entries) fuel) :
    LocalIn (pairs room · entries) (fuel + 1) := by
  intro cs es rest h
  dsimp only at h
  rw [pairs_succ] at h
  obtain ⟨⟨⟨path, v⟩, more⟩, hpair, h⟩ := Option.bind_eq_some_iff.1 h
  obtain ⟨entries', hdefine, hmore⟩ := Option.bind_eq_some_iff.1 h
  obtain ⟨b, rfl, htakes⟩ := (local_keyEquals.pair (hvalue.ahead skips_skipSpace)) _ _ _ hpair
  obtain ⟨d, hd, rfl, hend⟩ := exists_taken_of_endOr (hpairs entries') hmore
  refine ⟨b ++ d, (List.append_assoc ..).symm, .of_succ fun fuel' hfuel rest' hrest => ?_⟩
  have hshort := List.length_pos_of_ne_nil hd
  rw [List.length_append] at hfuel
  rw [List.append_assoc, pairs_succ]
  exact Option.bind_eq_some_iff.2 ⟨_, htakes fuel' (by omega) _ (hrest.append d),
    Option.bind_eq_some_iff.2 ⟨_, hdefine, hend fuel' (by omega) rest' hrest⟩⟩

theorem exists_takesIn_table (hpairs : LocalIn (pairs (room - 1) · []) fuel) {v : Toml}
    (h : value room (fuel + 1) ('\x7b' :: cs) = some (v, rest)) :
    ∃ front, '\x7b' :: cs = front ++ rest ∧ TakesIn (value room) front v rest := by
  have hroom : room ≠ 0 := fun hroom => by
    rw [value, if_pos hroom] at h
    cases h
  obtain ⟨a, ha, hskip⟩ := skips_skipSpace cs
  by_cases hclosing : ∃ more, skipSpace cs = '\x7d' :: more
  · obtain ⟨more, hmore⟩ := hclosing
    rw [value_of_braces hroom hmore] at h
    cases h
    rw [hmore] at ha hskip
    refine ⟨'\x7b' :: (a ++ ['\x7d']), by rw [ha, List.cons_append, List.append_assoc]; rfl,
      .of_succ fun fuel' _ rest' hrest => ?_⟩
    rw [List.cons_append, List.append_assoc]
    exact value_of_braces hroom (hskip _ (hrest.cons '\x7d'))
  · have hne (more : List Char) : skipSpace cs ≠ '\x7d' :: more := fun heq => hclosing ⟨more, heq⟩
    rw [value_of_brace hroom hne] at h
    obtain ⟨b, hb, hfront⟩ := (hpairs.map fun es => Toml.table (closedEntries es)) _ _ _ h
    refine ⟨'\x7b' :: (a ++ b), by rw [List.cons_append, List.append_assoc, ← hb, ← ha],
      .of_succ fun fuel' hfuel rest' hrest => ?_⟩
    obtain ⟨hstart, hne'⟩ := stays_open (by decide) hskip hb hne hrest
    rw [List.cons_append, List.append_assoc, value_of_brace hroom hne', hstart]
    simp only [List.length_cons, List.length_append] at hfuel
    exact hfront fuel' (by omega) rest' hrest

theorem localIn_value_succ (hitems : ∀ room, LocalIn (items room) fuel)
    (hpairs : ∀ room, LocalIn (pairs room · []) fuel) : LocalIn (value room) (fuel + 1) := by
  intro cs v rest h
  by_cases hstring : ∃ c, (c = '"' ∨ c = '\'') ∧ cs.head? = some c
  · obtain ⟨c, hc, hhead⟩ := hstring
    rw [value_of_quote hc hhead] at h
    obtain ⟨front, rfl, hfront⟩ := (local_string.map fun s => Toml.text (String.ofList s)) _ _ _ h
    refine ⟨front, rfl, .of_succ fun fuel' _ rest' hrest => ?_⟩
    rw [value_of_quote hc ((hrest.append front).head?_eq.trans hhead)]
    exact hfront rest' hrest
  by_cases hlist : cs.head? = some '['
  · obtain ⟨cs, rfl⟩ := List.head?_eq_some_iff.1 hlist
    obtain ⟨hroom, h⟩ := Option.ite_none_left_eq_some.1 h
    obtain ⟨front, rfl, hfront⟩ := ((hitems (room - 1)).map Toml.array) _ _ _ h
    refine ⟨'[' :: front, rfl, .of_succ fun fuel' hfuel rest' hrest => ?_⟩
    exact (if_neg hroom).trans (hfront fuel' hfuel rest' hrest)
  by_cases htable : cs.head? = some '\x7b'
  · obtain ⟨cs, rfl⟩ := List.head?_eq_some_iff.1 htable
    exact exists_takesIn_table (hpairs (room - 1)) h
  · have hscalar : ∀ c ∈ ['"', '\'', '[', '\x7b'], cs.head? ≠ some c := by
      simp only [List.forall_mem_cons]
      exact ⟨fun h => hstring ⟨_, .inl rfl, h⟩, fun h => hstring ⟨_, .inr rfl, h⟩, hlist, htable,
        fun _ h => nomatch h⟩
    rw [value_of_scalar hscalar] at h
    obtain ⟨front, rfl, hfront⟩ := local_scalar _ _ _ h
    refine ⟨front, rfl, .of_succ fun fuel' _ rest' hrest => ?_⟩
    rw [value_of_scalar fun c hc => (hrest.append front).head?_eq ▸ hscalar c hc]
    exact hfront rest' hrest

/-- **Values, items and pairs are read locally.** -/
theorem localIn_all (fuel : Nat) : (∀ room, LocalIn (value room) fuel) ∧
    (∀ room, LocalIn (items room) fuel) ∧ ∀ room entries, LocalIn (pairs room · entries) fuel := by
  induction fuel with
  | zero =>
      refine ⟨fun room cs x rest h => ?_, fun room cs x rest h => ?_, fun room es cs x rest h => ?_⟩
      · cases h
      · cases h
      · cases h
  | succ fuel ih =>
      obtain ⟨hvalue, hitems, hpairs⟩ := ih
      exact ⟨fun _ => localIn_value_succ hitems fun room => hpairs room [],
        fun room => localIn_items_succ (hvalue room) (hitems room),
        fun room _ => localIn_pairs_succ (hvalue room) (hpairs room)⟩

theorem localIn_value (room fuel : Nat) : LocalIn (value room) fuel := (localIn_all fuel).1 room

end StyleContract.Toml
