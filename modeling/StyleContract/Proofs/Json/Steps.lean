import StyleContract.Proofs.Json.Leaves

/-!
# Proofs — Json — Steps

What each reader does first, and what is left to do then. Readers pass the blanks before a value
(`value_skipSpace`). A text is read a piece at a time, up to its quote (`takenTo_of_stringBody`), a member
as a name and a value (`memberBody_eq_ok_iff`); a value is read by its first character (`ValueReads`): it
begins a list or an object, or it has no parts and is read alike whatever reads parts (`valueWith_cases`).
-/

namespace StyleContract.Json
open Document (bind_eq_ok_iff map_eq_ok_iff)

/-- A value whose numbers all have a property, with at most so many containers around any part. -/
inductive Nests (P : Number → Prop) : Nat → Json → Prop
  | null {depth : Nat} : Nests P depth .null
  | bool {depth : Nat} (b : Bool) : Nests P depth (.bool b)
  | num {depth : Nat} {n : Number} (h : P n) : Nests P depth (.num n)
  | str {depth : Nat} (s : String) : Nests P depth (.str s)
  | arr {depth : Nat} {items : List Json} (h : ∀ v ∈ items, Nests P depth v) :
      Nests P (depth + 1) (.arr items)
  | obj {depth : Nat} {members : Members} (h : ∀ m ∈ members, Nests P depth m.2) :
      Nests P (depth + 1) (.obj members)

variable {depth : Nat} {c : Char} {cs r space rest text : List Char} {v : Json} {item : Reader Json}
  {inner inner' : Option (Reader Json)}

/-! ### Blanks -/

theorem skipSpace_append (h : ∀ c ∈ space, isSpace c = true) :
    skipSpace (space ++ cs) = skipSpace cs := List.dropWhile_append_of_pos h

theorem skipSpace_skipSpace : skipSpace (skipSpace cs) = skipSpace cs := by
  rw [skipSpace, skipSpace, List.dropWhile_idempotent]

theorem value_skipSpace (cs : List Char) : value depth (skipSpace cs) = value depth cs := by
  obtain ⟨inner, hinner⟩ := value_eq depth
  rw [hinner, valueWith, valueWith, skipSpace_skipSpace]

theorem value_blank (cs : List Char) : value depth (' ' :: cs) = value depth cs := by
  rw [← value_skipSpace, ← value_skipSpace cs]
  rfl

/-- What is read as a value begins as none of the two ends of a container. -/
theorem exists_cons_of_value {v : Json} (h : value depth cs = .ok (v, rest)) :
    ∃ c more, skipSpace cs = c :: more ∧ c ≠ ']' ∧ c ≠ '\x7d' := by
  obtain ⟨inner, hinner⟩ := value_eq depth
  rw [hinner, valueWith] at h
  cases hcs : skipSpace cs with
  | nil =>
      rw [hcs] at h
      cases h
  | cons c more =>
      rw [hcs] at h
      refine ⟨c, more, rfl, ?_, ?_⟩
      · rintro rfl
        cases h
      · rintro rfl
        cases h

theorem closes_of_isSpace (h : isSpace c = true) : Closes (c :: cs) := by
  have hsigns : c = ' ' ∨ c = '\n' ∨ c = '\t' ∨ c = '\r' := by
    simpa [isSpace, or_assoc] using h
  rcases hsigns with rfl | rfl | rfl | rfl <;> rfl

theorem closes_append (hspace : ∀ c ∈ space, isSpace c = true) (h : Closes cs) :
    Closes (space ++ cs) := by
  cases space with
  | nil => exact h
  | cons c space => exact closes_of_isSpace (hspace c List.mem_cons_self)

theorem closes_comma (cs : List Char) : Closes (',' :: cs) := rfl

/-- Blanks are passed before what is not blank. -/
theorem exists_of_skipSpace (h : skipSpace cs = c :: rest) :
    ∃ space, (∀ c ∈ space, isSpace c = true) ∧ cs = space ++ c :: rest ∧ isSpace c = false := by
  refine ⟨cs.takeWhile isSpace, fun _ => List.mem_takeWhile_imp, ?_, ?_⟩
  · rw [← h, skipSpace, List.takeWhile_append_dropWhile]
  · have hc := Text.all_head?_dropWhile isSpace cs
    rw [← skipSpace, h] at hc
    simpa using hc

theorem skipSpace_blanks (hspace : ∀ c ∈ space, isSpace c = true) (hc : isSpace c = false)
    (more : List Char) : skipSpace (space ++ c :: more) = c :: more := by
  rw [skipSpace_append hspace, skipSpace_of_not_isSpace hc]

theorem value_append (hspace : ∀ c ∈ space, isSpace c = true) (cs : List Char) :
    value depth (space ++ cs) = value depth cs := by
  rw [← value_skipSpace, skipSpace_append hspace, value_skipSpace]

theorem Taken.append_space (hspace : ∀ c ∈ space, isSpace c = true) (h : Taken (value depth) cs v r) :
    Taken (value depth) (space ++ cs) v r := by
  obtain ⟨front, rfl, hmore⟩ := h
  refine ⟨space ++ front, by rw [List.append_assoc], fun rest hrest => ?_⟩
  rw [List.append_assoc, value_append hspace]
  exact hmore rest hrest

/-- The front of a text is read as a value up to a character, whatever follows that character. -/
def TakenTo {α : Type} (close : Char) (f : Reader α) (cs : List Char) (x : α) (r : List Char) : Prop :=
  ∃ front, cs = front ++ close :: r ∧ ∀ rest, f (front ++ close :: rest) = .ok (x, rest)

theorem TakenTo.taken {α : Type} {close : Char} {f : Reader α} {x : α} (h : TakenTo close f cs x r) :
    Taken f cs x r := by
  obtain ⟨front, rfl, hmore⟩ := h
  refine ⟨front ++ [close], by simp, fun rest _ => ?_⟩
  rw [List.append_assoc]
  exact hmore rest

/-! ### Texts and words -/

/-- A character that is read from a piece of a text is taken off with what is taken off behind it. -/
theorem TakenTo.piece (h : TakenTo '"' stringBody cs text r) (piece : List Char)
    (hpiece : ∀ more, stringBody (piece ++ more) = (stringBody more).map (front c)) :
    TakenTo '"' stringBody (piece ++ cs) (c :: text) r := by
  obtain ⟨literal, rfl, hmore⟩ := h
  refine ⟨piece ++ literal, by rw [List.append_assoc], fun rest => ?_⟩
  rw [List.append_assoc, hpiece, hmore]
  rfl

theorem takenTo_of_stringBody (h : stringBody cs = .ok (text, r)) :
    TakenTo '"' stringBody cs text r := by
  fun_induction stringBody cs generalizing text r
  all_goals try cases h
  case case2.refl => exact ⟨[], rfl, fun _ => by rw [stringBody.eq_def]; rfl⟩
  case case9 hunit hnot hhigh _ _ hmark _ _ _ _ _ _ hunit' hlow _ ih =>
    obtain ⟨rfl, rfl⟩ := hmark
    obtain ⟨⟨_, _⟩, hrest, heq⟩ := bind_eq_ok_iff.1 h
    cases heq
    exact (ih hrest).piece ['\\', 'u', _, _, _, _, '\\', 'u', _, _, _, _] fun _ =>
      stringBody_pair hunit (by simpa using hnot) hhigh hunit' hlow
  case case13 hunit hlow hhigh _ ih =>
    obtain ⟨⟨_, _⟩, hrest, heq⟩ := bind_eq_ok_iff.1 h
    cases heq
    exact (ih hrest).piece ['\\', 'u', _, _, _, _] fun _ =>
      stringBody_unit hunit (by simpa using hlow) (by simpa using hhigh)
  case case16 hu _ hletter _ ih =>
    obtain ⟨⟨_, _⟩, hrest, heq⟩ := bind_eq_ok_iff.1 h
    cases heq
    exact (ih hrest).piece ['\\', _] fun _ => stringBody_letter hu hletter
  case case18 hquote hslash hcontrol ih =>
    obtain ⟨⟨_, _⟩, hrest, heq⟩ := bind_eq_ok_iff.1 h
    cases heq
    exact (ih hrest).piece [_] fun _ => stringBody_self hquote hslash hcontrol

theorem local_stringBody : Local stringBody := fun _ _ _ h => (takenTo_of_stringBody h).taken

theorem local_word {α : Type} (letters : List Char) (a : α) : Local (word letters a) := by
  induction letters with
  | nil =>
      intro cs x r h
      cases h
      exact ⟨[], rfl, fun _ _ => rfl⟩
  | cons letter letters ih =>
      intro cs x r h
      cases cs with
      | nil => cases h
      | cons d cs =>
          rw [word] at h
          split at h
          · next hd => exact (ih _ _ _ h).cons fun more => by rw [word, if_pos hd]
          · cases h

/-! ### Members -/

/-- A member is a name, a colon and a value. -/
theorem memberBody_eq_ok_iff {m : String × Json} :
    memberBody item cs = .ok (m, r) ↔ ∃ literal name more next, cs = '"' :: literal ∧
      stringBody literal = .ok (name, more) ∧ skipSpace more = ':' :: next ∧
        item next = .ok (m.2, r) ∧ m.1 = String.ofList name := by
  unfold memberBody
  constructor
  · intro h
    split at h
    · next literal =>
      obtain ⟨⟨name, more⟩, hname, h⟩ := bind_eq_ok_iff.1 h
      dsimp only at h
      split at h
      · cases h
      · next hcolon =>
        obtain ⟨⟨v, end'⟩, hv, heq⟩ := bind_eq_ok_iff.1 h
        cases heq
        exact ⟨literal, name, more, _, rfl, hname, hcolon, hv, rfl⟩
      · cases h
    · cases h
    · cases h
  · obtain ⟨name', v⟩ := m
    rintro ⟨literal, name, more, next, rfl, hname, hcolon, hv, rfl⟩
    refine bind_eq_ok_iff.2 ⟨(name, more), hname, ?_⟩
    simp only [hcolon]
    exact bind_eq_ok_iff.2 ⟨(v, r), hv, rfl⟩

/-! ### Values -/

theorem taken_of_digit (hc : c.isDigit = true) (h : valueWith inner (c :: cs) = .ok (v, r)) :
    Taken (valueWith inner') (c :: cs) v r := by
  rw [valueWith_digit hc] at h
  obtain ⟨front, hfront, hmore⟩ := local_numberBody.map Json.num _ _ _ h
  -- a number has digits, and they stay when what is behind them is replaced
  obtain ⟨back, rfl⟩ : ∃ back, front = c :: back := by
    cases front with
    | nil => cases hmore [] (.inl rfl)
    | cons _ back => exact ⟨back, by rw [(List.cons.inj hfront).1]⟩
  refine ⟨c :: back, hfront, fun rest hrest => ?_⟩
  rw [List.cons_append, valueWith_digit hc]
  exact hmore rest hrest

/-- The words that are values, by their first characters. -/
def keywords : List (Char × List Char × Json) :=
  [('n', ['u', 'l', 'l'], .null), ('t', ['r', 'u', 'e'], .bool true),
    ('f', ['a', 'l', 's', 'e'], .bool false)]

/-- How a value is read, by its first character. -/
inductive ValueReads (inner : Option (Reader Json)) (cs r : List Char) : Char → Json → Prop
  | list {item : Reader Json} {v : Json} (hitem : item ∈ inner) (h : listBody item cs = .ok (v, r)) :
      ValueReads inner cs r '[' v
  | object {item : Reader Json} {v : Json} (hitem : item ∈ inner)
      (h : objectBody item cs = .ok (v, r)) : ValueReads inner cs r '\x7b' v
  | string {text : List Char} (h : stringBody cs = .ok (text, r)) :
      ValueReads inner cs r '"' (.str (String.ofList text))
  | word {c : Char} {letters : List Char} {v : Json} (hword : (c, letters, v) ∈ keywords)
      (h : word letters v cs = .ok (v, r)) : ValueReads inner cs r c v
  | negative {n : Number} (h : numberBody true cs = .ok (n, r)) : ValueReads inner cs r '-' (.num n)
  | number {c : Char} {n : Number} (hdigit : c.isDigit = true)
      (h : numberBody false (c :: cs) = .ok (n, r)) : ValueReads inner cs r c (.num n)

theorem valueReads_of_valueWith (hc : isSpace c = false)
    (h : valueWith inner (c :: cs) = .ok (v, r)) : ValueReads inner cs r c v := by
  have hkeyword : ∀ {letters : List Char} {w : Json}, (c, letters, w) ∈ keywords →
      Json.word letters w cs = .ok (v, r) → ValueReads inner cs r c v := fun hword h => by
    cases word_eq_ok h
    exact .word hword h
  rw [valueWith, skipSpace_of_not_isSpace hc] at h
  dsimp only at h
  split at h
  · next hquote =>
    subst hquote
    obtain ⟨_, htext, ⟨⟩⟩ := map_eq_ok_iff.1 h
    exact .string htext
  split at h
  · next hlist =>
    subst hlist
    cases inner with
    | none => cases h
    | some item => exact .list rfl h
  split at h
  · next hobject =>
    subst hobject
    cases inner with
    | none => cases h
    | some item => exact .object rfl h
  split at h
  · next hword => exact hkeyword (by simp [keywords, hword]) h
  split at h
  · next hword => exact hkeyword (by simp [keywords, hword]) h
  split at h
  · next hword => exact hkeyword (by simp [keywords, hword]) h
  split at h
  · next hsign =>
    subst hsign
    obtain ⟨_, hnumber, ⟨⟩⟩ := map_eq_ok_iff.1 h
    exact .negative hnumber
  split at h
  · next hdigit =>
    obtain ⟨_, hnumber, ⟨⟩⟩ := map_eq_ok_iff.1 h
    exact .number hdigit hnumber
  · cases h

/-- A value begins a list or an object, or it has no parts and is read alike whatever reads parts. -/
theorem valueWith_cases (hc : isSpace c = false) (h : valueWith inner (c :: cs) = .ok (v, r)) :
    (∃ item ∈ inner, c = '[' ∧ listBody item cs = .ok (v, r)) ∨
      (∃ item ∈ inner, c = '\x7b' ∧ objectBody item cs = .ok (v, r)) ∨
        Nests (fun _ => True) 0 v ∧ ∀ inner', Taken (valueWith inner') (c :: cs) v r := by
  cases valueReads_of_valueWith hc h with
  | list hitem h => exact .inl ⟨_, hitem, rfl, h⟩
  | object hitem h => exact .inr (.inl ⟨_, hitem, rfl, h⟩)
  | string htext =>
      have htaken := local_stringBody.map (fun s => Json.str (String.ofList s)) _ _ _
        (map_eq_ok_iff.2 ⟨_, htext, rfl⟩)
      exact .inr (.inr ⟨.str _, fun _ => htaken.cons fun _ => rfl⟩)
  | word hword h =>
      have htaken := local_word _ _ _ _ _ h
      simp only [keywords, List.mem_cons, List.not_mem_nil, or_false, Prod.mk.injEq] at hword
      rcases hword with ⟨rfl, rfl, rfl⟩ | ⟨rfl, rfl, rfl⟩ | ⟨rfl, rfl, rfl⟩
      · exact .inr (.inr ⟨.null, fun _ => htaken.cons fun _ => rfl⟩)
      · exact .inr (.inr ⟨.bool _, fun _ => htaken.cons fun _ => rfl⟩)
      · exact .inr (.inr ⟨.bool _, fun _ => htaken.cons fun _ => rfl⟩)
  | negative hnumber =>
      have htaken := local_numberBody.map Json.num _ _ _ (map_eq_ok_iff.2 ⟨_, hnumber, rfl⟩)
      exact .inr (.inr ⟨.num trivial, fun _ => htaken.cons fun _ => rfl⟩)
  | number hdigit _ => exact .inr (.inr ⟨.num trivial, fun _ => taken_of_digit hdigit h⟩)

end StyleContract.Json
