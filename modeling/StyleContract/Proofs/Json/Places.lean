import StyleContract.Proofs.Json.Containers

/-!
# Proofs — Json — Places

What stands at a place of a JSON text, between its strings. A place is between strings if the quotes before
it are in pairs, where a quote behind a backslash does not count (`Mode.run`).

**Between strings stands no slash, and no comma in front of a bracket; a quote with a colon behind its
string begins the name of a member** (`Fits`, `settled_value`). The induction is on the levels of a value:
what is true of each element is true of the container (`Encloses.settled_whole`), which also tells what follows
an element.
-/

namespace StyleContract.Json
open Document (bind_eq_ok_iff map_eq_ok_iff)

variable {α : Type} {name' : String} {depth fuel : Nat} {c d close : Char} {a b cs p q r rest front name text : List Char}
  {v w : Json} {f : Reader α}

/-! ### Between strings -/

/-- Where a place lies: between strings, in one, or behind a backslash in one. -/
inductive Mode where
  | code
  | text
  | escape
  deriving DecidableEq

def Mode.next : Mode → Char → Mode
  | .code, c => if c = '"' then .text else .code
  | .text, c => if c = '"' then .code else if c = '\\' then .escape else .text
  | .escape, _ => .text

def Mode.run (m : Mode) (cs : List Char) : Mode := cs.foldl Mode.next m

variable {m : Mode} {P Q : Char → List Char → Prop}

@[simp] theorem Mode.run_nil : m.run [] = m := rfl

@[simp] theorem Mode.run_cons : m.run (c :: cs) = (m.next c).run cs := rfl

@[simp] theorem Mode.run_append : m.run (p ++ q) = (m.run p).run q := List.foldl_append

/-- At each place of a front that is between strings, something is true of the character there and of all
that is behind it. -/
def Each (P : Char → List Char → Prop) (m : Mode) (front r : List Char) : Prop :=
  ∀ a c b, front = a ++ c :: b → m.run a = .code → P c (b ++ r)

theorem each_nil : Each P m [] r := fun a c b h => by simp at h

theorem each_cons : Each P m (c :: front) r ↔
    (m = .code → P c (front ++ r)) ∧ Each P (m.next c) front r := by
  constructor
  · intro h
    refine ⟨fun hm => h [] c front rfl hm, fun a d b heq hcode => ?_⟩
    exact h (c :: a) d b (by rw [heq]; rfl) hcode
  · rintro ⟨hfirst, hmore⟩ a d b heq hcode
    cases a with
    | nil =>
        cases heq
        exact hfirst hcode
    | cons _ a =>
        cases heq
        exact hmore a d b rfl hcode

theorem each_append : Each P m (p ++ q) r ↔ Each P m p (q ++ r) ∧ Each P (m.run p) q r := by
  induction p generalizing m with
  | nil => simp [each_nil]
  | cons c p ih => rw [List.cons_append, each_cons, each_cons, ih, List.append_assoc, and_assoc, Mode.run_cons]

theorem Each.imp (h : Each P m front r) (hPQ : ∀ c b, P c b → Q c b) : Each Q m front r :=
  fun a c b heq hcode => hPQ _ _ (h a c b heq hcode)

/-- A front that begins between strings and ends there, with something that is true at its places. -/
structure Between (P : Char → List Char → Prop) (front r : List Char) : Prop where
  run_eq : Mode.code.run front = .code
  each : Each P .code front r

theorem Between.append (hp : Between P p (q ++ r)) (hq : Between P q r) : Between P (p ++ q) r where
  run_eq := by rw [Mode.run_append, hp.run_eq, hq.run_eq]
  each := each_append.2 ⟨hp.each, by rw [hp.run_eq]; exact hq.each⟩

theorem Between.imp (h : Between P front r) (hPQ : ∀ c b, P c b → Q c b) : Between Q front r :=
  ⟨h.run_eq, h.each.imp hPQ⟩

theorem between_self (hc : c ≠ '"') (h : P c r) : Between P [c] r :=
  ⟨if_neg hc, each_cons.2 ⟨fun _ => h, each_nil⟩⟩

/-! ### What is between strings -/

/-- What may stand between strings when a value or a member is read, with `r` left behind it. -/
structure Fits (has : String → Json → Prop) (r : List Char) (c : Char) (b : List Char) : Prop where
  slash : c ≠ '/'
  comma : c = ',' → ∀ d ∈ (skipSpace b).head?, d ≠ ']' ∧ d ≠ '\x7d'
  blank : Text.isBlank c = true → isSpace c = true
  quote : c = '"' → ∀ name more next, stringBody b = .ok (name, more) → skipSpace more = ':' :: next →
    more = r ∨ ∃ depth w rest, value depth next = .ok (w, rest) ∧ has (String.ofList name) w

/-- A character that begins no string and is no comma, no slash and no blank of another kind. -/
structure IsPlain (c : Char) : Prop where
  ne_quote : c ≠ '"'
  ne_slash : c ≠ '/'
  ne_comma : c ≠ ','
  isSpace : Text.isBlank c = true → isSpace c = true

/-- What is taken off is settled: it does not end within a string, and all of it fits. -/
def Settled (f : Reader α) (has : α → String → Json → Prop) : Prop :=
  ∀ cs x r, f cs = .ok (x, r) → ∃ front, cs = front ++ r ∧ Between (Fits (has x) r) front r

theorem IsPlain.fits {has : String → Json → Prop} (h : IsPlain c) (b : List Char) : Fits has r c b where
  slash := h.ne_slash
  comma heq := absurd heq h.ne_comma
  blank := h.isSpace
  quote heq := absurd heq h.ne_quote

theorem fits_quote {has : String → Json → Prop} (h : ∀ name more next, stringBody b = .ok (name, more) →
    skipSpace more = ':' :: next →
    more = r ∨ ∃ depth w rest, value depth next = .ok (w, rest) ∧ has (String.ofList name) w) :
    Fits has r '"' b where
  slash := by decide
  comma heq := absurd heq (by decide)
  blank hblank := absurd hblank (by decide)
  quote _ := h

theorem Fits.imp {has has' : String → Json → Prop} (h : Fits has r c b)
    (hhas : ∀ name w, has name w → has' name w) : Fits has' r c b where
  slash := h.slash
  comma := h.comma
  blank := h.blank
  quote hquote name more next hname hcolon :=
    (h.quote hquote name more next hname hcolon).imp_right
      fun ⟨depth, w, rest, hw, h⟩ => ⟨depth, w, rest, hw, hhas _ _ h⟩

theorem run_code (h : ∀ c ∈ front, c ≠ '"') : Mode.code.run front = .code := by
  induction front with
  | nil => rfl
  | cons c front ih =>
      rw [List.forall_mem_cons] at h
      rw [Mode.run_cons, Mode.next, if_neg h.1, ih h.2]

theorem run_plain (h : ∀ c ∈ front, IsPlain c) : Mode.code.run front = .code :=
  run_code fun c hc => (h c hc).ne_quote

theorem between_plain {has : String → Json → Prop} (h : ∀ c ∈ front, IsPlain c) :
    Between (Fits has r) front rest :=
  ⟨run_plain h, fun _ _ _ heq _ => (h _ (by rw [heq]; simp)).fits _⟩

theorem isPlain_of_isSpace (h : isSpace c = true) : IsPlain c := by
  refine ⟨?_, ?_, ?_, fun _ => h⟩ <;> rintro rfl <;> exact absurd h (by decide)

theorem isPlain_of_isDigit (h : c.isDigit = true) : IsPlain c where
  ne_quote := Text.ne_of_isDigit h rfl
  ne_slash := Text.ne_of_isDigit h rfl
  ne_comma := Text.ne_of_isDigit h rfl
  isSpace hblank := by
    rw [Text.isBlank_of_isDigit h] at hblank
    cases hblank

/-- The characters of brackets, words and numbers, other than digits. -/
def marks : List Char :=
  ['[', ']', '\x7b', '\x7d', ':', '+', '-', '.', 'e', 'E', 'n', 'u', 'l', 't', 'r', 'f', 'a', 's']

theorem isPlain_of_mem (h : c ∈ marks) : IsPlain c := by
  have hne : '"' ∉ marks ∧ '/' ∉ marks ∧ ',' ∉ marks := by decide
  have hblank : marks.all (fun c => !Text.isBlank c) = true := by decide
  exact {
    ne_quote := fun heq => hne.1 (heq ▸ h)
    ne_slash := fun heq => hne.2.1 (heq ▸ h)
    ne_comma := fun heq => hne.2.2 (heq ▸ h)
    isSpace := fun hc => by
      rw [List.all_eq_true] at hblank
      simpa [hc] using hblank c h }

theorem plain_of_subset {letters : List Char} (h : letters ⊆ marks) : ∀ c ∈ letters, IsPlain c :=
  fun _ hc => isPlain_of_mem (h hc)

theorem marks_of_mem_keywords {letters : List Char} (h : (c, letters, v) ∈ keywords) :
    c ∈ marks ∧ letters ⊆ marks := by
  simp only [keywords, List.mem_cons, List.not_mem_nil, or_false, Prod.mk.injEq] at h
  rcases h with ⟨rfl, rfl, -⟩ | ⟨rfl, rfl, -⟩ | ⟨rfl, rfl, -⟩ <;> decide

/-! ### Strings -/

/-- A front that begins in a string and ends in it, with no place between strings. -/
structure Inside (front : List Char) : Prop where
  run_eq : Mode.text.run front = .text
  none (r : List Char) : Each (fun _ _ => False) .text front r

theorem Inside.append (hp : Inside p) (hq : Inside q) : Inside (p ++ q) where
  run_eq := by rw [Mode.run_append, hp.run_eq, hq.run_eq]
  none r := each_append.2 ⟨hp.none _, by rw [hp.run_eq]; exact hq.none r⟩

theorem inside_nil : Inside [] := ⟨rfl, fun _ => each_nil⟩

theorem inside_self (hquote : c ≠ '"') (hslash : c ≠ '\\') : Inside [c] := by
  have hnext : Mode.text.next c = .text := by rw [Mode.next, if_neg hquote, if_neg hslash]
  exact ⟨by rw [Mode.run_cons, hnext]; rfl, fun r => each_cons.2 ⟨nofun, each_nil⟩⟩

theorem inside_letter (c : Char) : Inside ['\\', c] :=
  ⟨rfl, fun _ => each_cons.2 ⟨nofun, each_cons.2 ⟨nofun, each_nil⟩⟩⟩

theorem inside_of_hexValue {n : Nat} (h : Text.hexValue? c = some n) : Inside [c] := by
  have hquote : Text.hexValue? '"' = none := by decide
  have hslash : Text.hexValue? '\\' = none := by decide
  apply inside_self
  · rintro rfl
    cases h.symm.trans hquote
  · rintro rfl
    cases h.symm.trans hslash

theorem inside_unit {a b c d : Char} {n : Nat} (h : hexUnit? a b c d = some n) :
    Inside ['\\', 'u', a, b, c, d] := by
  obtain ⟨_, ha, h⟩ := Option.bind_eq_some_iff.1 h
  obtain ⟨_, hb, h⟩ := Option.bind_eq_some_iff.1 h
  obtain ⟨_, hc, h⟩ := Option.bind_eq_some_iff.1 h
  obtain ⟨_, hd, -⟩ := Option.bind_eq_some_iff.1 h
  exact (inside_letter 'u').append ((inside_of_hexValue ha).append ((inside_of_hexValue hb).append
    ((inside_of_hexValue hc).append (inside_of_hexValue hd))))

/-- A string that is read ends at a quote, and in front of it all places are in the string. -/
theorem inside_of_stringBody (h : stringBody cs = .ok (text, r)) :
    ∃ front, cs = front ++ '"' :: r ∧ Inside front := by
  fun_induction stringBody cs generalizing text r
  all_goals try cases h
  case case2.refl => exact ⟨[], rfl, inside_nil⟩
  case case9 hunit _ _ _ _ hmark _ _ _ _ _ _ hunit' _ _ ih =>
    obtain ⟨rfl, rfl⟩ := hmark
    obtain ⟨⟨_, _⟩, hrest, heq⟩ := bind_eq_ok_iff.1 h
    cases heq
    obtain ⟨front, rfl, hinside⟩ := ih hrest
    exact ⟨_, rfl, ((inside_unit hunit).append (inside_unit hunit')).append hinside⟩
  case case13 hunit _ _ _ ih =>
    obtain ⟨⟨_, _⟩, hrest, heq⟩ := bind_eq_ok_iff.1 h
    cases heq
    obtain ⟨front, rfl, hinside⟩ := ih hrest
    exact ⟨_, rfl, (inside_unit hunit).append hinside⟩
  case case16 ih =>
    obtain ⟨⟨_, _⟩, hrest, heq⟩ := bind_eq_ok_iff.1 h
    cases heq
    obtain ⟨front, rfl, hinside⟩ := ih hrest
    exact ⟨_, rfl, (inside_letter _).append hinside⟩
  case case18 hquote hslash _ ih =>
    obtain ⟨⟨_, _⟩, hrest, heq⟩ := bind_eq_ok_iff.1 h
    cases heq
    obtain ⟨front, rfl, hinside⟩ := ih hrest
    exact ⟨_, rfl, (inside_self hquote hslash).append hinside⟩

/-- A string that is read, from its first quote on. -/
theorem settled_string {has : String → Json → Prop} (h : stringBody cs = .ok (text, r))
    (hfirst : Fits has rest '"' cs) : ∃ front, cs = front ++ '"' :: r ∧
      Between (Fits has rest) ('"' :: (front ++ ['"'])) r := by
  obtain ⟨front, rfl, hinside⟩ := inside_of_stringBody h
  have hopen : Mode.code.next '"' = .text := rfl
  refine ⟨front, rfl, ?_, ?_⟩
  · rw [Mode.run_cons, hopen, Mode.run_append, hinside.run_eq]
    rfl
  · rw [each_cons, each_append, hopen, hinside.run_eq]
    exact ⟨fun _ => by simpa using hfirst, (hinside.none _).imp fun _ _ h => h.elim,
      each_cons.2 ⟨nofun, each_nil⟩⟩

/-! ### Numbers and words -/

/-- The front of a text up to `r` has plain characters alone. -/
def PlainTo (cs r : List Char) : Prop := ∃ front, cs = front ++ r ∧ ∀ c ∈ front, IsPlain c

/-- Whatever is taken off has plain characters alone. -/
def TakesPlain (f : Reader α) : Prop := ∀ cs x r, f cs = .ok (x, r) → PlainTo cs r

theorem PlainTo.cons (h : PlainTo cs r) (hc : IsPlain c) : PlainTo (c :: cs) r := by
  obtain ⟨front, rfl, hplain⟩ := h
  exact ⟨c :: front, rfl, List.forall_mem_cons.2 ⟨hc, hplain⟩⟩

theorem takesPlain_map {β : Type} (x : Except ReadError α) (g : α → β) :
    TakesPlain fun cs => x.map fun a => (g a, cs) := by
  intro cs b r h
  obtain ⟨_, -, heq⟩ := map_eq_ok_iff.1 h
  cases heq
  exact ⟨[], rfl, List.forall_mem_nil _⟩

theorem TakesPlain.map {β : Type} (hf : TakesPlain f) (g : α → β) :
    TakesPlain fun cs => (f cs).map fun r => (g r.1, r.2) := by
  intro cs x r h
  obtain ⟨_, hr, heq⟩ := map_eq_ok_iff.1 h
  cases heq
  exact hf _ _ _ hr

theorem takesPlain_of_digits (next : List Char → Reader α) (hnext : ∀ ds, TakesPlain (next ds))
    (hf : ∀ cs, cs.takeWhile Char.isDigit ≠ [] →
      f cs = next (cs.takeWhile Char.isDigit) (cs.dropWhile Char.isDigit))
    (hnone : ∀ cs, cs.takeWhile Char.isDigit = [] → ∀ r, f cs ≠ .ok r) : TakesPlain f := by
  intro cs x r h
  by_cases hdigits : cs.takeWhile Char.isDigit = []
  · exact absurd h (hnone cs hdigits (x, r))
  · rw [hf cs hdigits] at h
    obtain ⟨front, hfront, hplain⟩ := hnext _ _ _ _ h
    refine ⟨cs.takeWhile Char.isDigit ++ front, ?_, List.forall_mem_append.2 ⟨?_, hplain⟩⟩
    · rw [List.append_assoc, ← hfront, List.takeWhile_append_dropWhile]
    · exact fun c hc => isPlain_of_isDigit (List.mem_takeWhile_imp hc)

section

variable {negative : Bool} {significand : Nat} {base : Int}

theorem takesPlain_exponentPart : TakesPlain (exponentPart negative significand base) := by
  have hdigits : ∀ down, TakesPlain (exponentDigits negative significand base down) := fun down => by
    refine takesPlain_of_digits (fun ds cs =>
      (exponentValue negative significand base down ds).map (·, cs)) (fun ds => takesPlain_map _ id)
      (fun cs h => if_neg (by simpa using h)) fun cs h r hr => ?_
    rw [exponentDigits, h] at hr
    cases hr
  intro cs x r h
  rw [exponentPart_eq] at h
  have hplain := hdigits _ _ _ _ h
  unfold splitSign at hplain
  split at hplain
  · exact hplain.cons (isPlain_of_mem (by decide))
  · exact hplain.cons (isPlain_of_mem (by decide))
  · exact hplain

theorem takesPlain_afterFraction : TakesPlain (afterFraction negative significand base) := by
  intro cs x r h
  cases hstart : startsExponent cs with
  | true =>
      obtain ⟨c, more, rfl, rfl | rfl⟩ := exists_of_startsExponent hstart
      · exact (takesPlain_exponentPart _ _ _ h).cons (isPlain_of_mem (by decide))
      · exact (takesPlain_exponentPart _ _ _ h).cons (isPlain_of_mem (by decide))
  | false =>
      rw [afterFraction_of_not hstart] at h
      exact takesPlain_map (floatOf negative significand base) id _ _ _ h

theorem takesPlain_fractionPart : TakesPlain (fractionPart negative significand base) := by
  refine takesPlain_of_digits (fun ds => afterFraction negative
    (accumulate wordLimit significand ds).1
    (base - (ds.length - (accumulate wordLimit significand ds).2 : Nat)))
    (fun ds => takesPlain_afterFraction) (fun cs h => if_neg (by simpa using h)) fun cs h r hr => ?_
  rw [fractionPart, h] at hr
  cases hr

theorem takesPlain_afterWhole {left : Nat} : TakesPlain (afterWhole negative significand left) := by
  intro cs x r h
  by_cases hpoint : cs.head? = some '.'
  · obtain ⟨more, rfl⟩ := List.head?_eq_some_iff.1 hpoint
    exact (takesPlain_fractionPart.map Number.float _ _ _ h).cons (isPlain_of_mem (by decide))
  · cases hstart : startsExponent cs with
    | true =>
        obtain ⟨c, more, rfl, rfl | rfl⟩ := exists_of_startsExponent hstart
        · exact (takesPlain_exponentPart.map Number.float _ _ _ h).cons (isPlain_of_mem (by decide))
        · exact (takesPlain_exponentPart.map Number.float _ _ _ h).cons (isPlain_of_mem (by decide))
    | false =>
        rw [afterWhole_of_not hpoint hstart] at h
        exact takesPlain_map (wholeValue negative significand left) id _ _ _ h

theorem takesPlain_numberBody : TakesPlain (numberBody negative) := by
  refine takesPlain_of_digits (afterDigits negative) (fun digits => ?_) (fun cs h => numberBody_eq h)
    fun cs h r hr => ?_
  · unfold afterDigits
    split
    · intro cs x r h
      cases h
    · exact takesPlain_afterWhole
  · rw [numberBody, h] at hr
    cases hr

end

theorem takesPlain_word (letters : List Char) (x : α) (hletters : ∀ c ∈ letters, IsPlain c) :
    TakesPlain (word letters x) := by
  induction letters with
  | nil =>
      intro cs y r h
      cases h
      exact ⟨[], rfl, List.forall_mem_nil _⟩
  | cons letter letters ih =>
      intro cs y r h
      rw [List.forall_mem_cons] at hletters
      cases cs with
      | nil => cases h
      | cons d cs =>
          rw [word] at h
          split at h
          · next hd => exact (ih hletters.2 _ _ _ h).cons (hd ▸ hletters.1)
          · cases h

/-! ### Members -/

/-- Somewhere in a value, an object has a member. -/
inductive HasMember (name : String) (w : Json) : Json → Prop
  | here {members : Members} (h : (name, w) ∈ members) : HasMember name w (.obj members)
  | item {items : List Json} {i : Json} (h : i ∈ items) (hi : HasMember name w i) :
      HasMember name w (.arr items)
  | member {members : Members} {m : String × Json} (h : m ∈ members) (hm : HasMember name w m.2) :
      HasMember name w (.obj members)

/-- A member is one with some name and value, or such a member is in its value. -/
def memberHas (m : String × Json) (name : String) (w : Json) : Prop :=
  m = (name, w) ∨ HasMember name w m.2

theorem isPlain_of_forall_isSpace (h : ∀ c ∈ front, isSpace c = true) : ∀ c ∈ front, IsPlain c :=
  fun c hc => isPlain_of_isSpace (h c hc)

/-- The name of a member is told by the quote that it begins with. -/
theorem settled_member {depth : Nat} (hitem : Settled (value depth) fun v name w => HasMember name w v) :
    Settled (memberBody (value depth)) memberHas := by
  intro cs m r h
  obtain ⟨literal, name, more, next, rfl, hname, hcolon, hv, heq⟩ := memberBody_eq_ok_iff.1 h
  have hfirst : Fits (memberHas m) r '"' literal := by
    refine fits_quote fun name' more' next' hname' hcolon' => ?_
    obtain ⟨rfl, rfl⟩ := Prod.mk.inj (Except.ok.inj (hname.symm.trans hname'))
    obtain ⟨-, rfl⟩ := List.cons.inj (hcolon.symm.trans hcolon')
    exact .inr ⟨depth, m.2, r, hv, Or.inl (by rw [← heq])⟩
  obtain ⟨p, rfl, hquoted⟩ := settled_string hname hfirst
  obtain ⟨space, hspace, rfl, -⟩ := exists_of_skipSpace hcolon
  obtain ⟨q, rfl, hvalue⟩ := hitem _ _ _ hv
  have hplain : ∀ c ∈ space ++ [':'], IsPlain c := List.forall_mem_append.2
    ⟨isPlain_of_forall_isSpace hspace, List.forall_mem_singleton.2 (isPlain_of_mem (by decide))⟩
  refine ⟨'"' :: (p ++ ['"']) ++ ((space ++ [':']) ++ q), by simp, .append ?_ (.append (between_plain hplain) ?_)⟩
  · simpa using hquoted
  · exact hvalue.imp fun c b hfits => hfits.imp fun _ _ hhas => Or.inr hhas

/-! ### Containers -/

section

variable {elem : Reader α} {body : Nat → Reader (List α)} {whole : Reader Json} {make : List α → Json}
  {as : List α} {hasElem : α → String → Json → Prop}

/-- What fits in an element fits in its container, where a bracket or a comma is behind the element. -/
theorem Fits.of_elem {x : α} (hx : x ∈ as) (hd : d ≠ ':') (hmore : skipSpace p = d :: q)
    (h : Fits (hasElem x) p c b) : Fits (fun name w => ∃ a ∈ as, hasElem a name w) r c b where
  slash := h.slash
  comma := h.comma
  blank := h.blank
  quote hquote name more next hname hcolon := by
    rcases h.quote hquote name more next hname hcolon with rfl | ⟨depth, w, rest, hw, hhas⟩
    · exact absurd (List.cons.inj (hmore.symm.trans hcolon)).1 hd
    · exact .inr ⟨depth, w, rest, hw, x, hx, hhas⟩

variable (h : Encloses close elem body whole make) (hclose : close ≠ ':') (helem : Settled elem hasElem)
  (hhead : ∀ cs x r, elem cs = .ok (x, r) → ∀ d ∈ (skipSpace cs).head?, d ≠ ']' ∧ d ≠ '\x7d')

include h hclose helem hhead

theorem Encloses.settled_body (rest : List Char) (hbody : body fuel cs = .ok (as, r)) :
    ∃ front, cs = front ++ close :: r ∧
      Between (Fits (fun name w => ∃ a ∈ as, hasElem a name w) rest) front (close :: r) := by
  induction fuel generalizing cs as with
  | zero => exact absurd hbody (h.body_zero _ _)
  | succ fuel ih =>
      obtain ⟨x, more, hx, ⟨hend, rfl⟩ | ⟨next, as, hcomma, has, rfl⟩⟩ := (h.body_succ _ _ _ _).1 hbody
      · obtain ⟨p, rfl, hfirst⟩ := helem _ _ _ hx
        have hfirst' := hfirst.imp fun c b => Fits.of_elem (r := rest) (List.mem_singleton_self x) hclose hend
        obtain ⟨space, hspace, rfl, -⟩ := exists_of_skipSpace hend
        exact ⟨p ++ space, by rw [List.append_assoc],
          hfirst'.append (between_plain (isPlain_of_forall_isSpace hspace))⟩
      · obtain ⟨p, rfl, hfirst⟩ := helem _ _ _ hx
        have hfirst' := hfirst.imp fun c b => Fits.of_elem (r := rest) (List.mem_cons_self (l := as))
          (by decide) hcomma
        obtain ⟨space, hspace, rfl, -⟩ := exists_of_skipSpace hcomma
        obtain ⟨q, hq, hothers⟩ := ih has
        have hnext : next = next.takeWhile isSpace ++ (q ++ close :: r) := by
          rw [← hq, skipSpace, List.takeWhile_append_dropWhile]
        have hfits : Fits (fun name w => ∃ a ∈ x :: as, hasElem a name w) rest ',' next := by
          refine ⟨by decide, fun _ => ?_, fun hblank => absurd hblank (by decide),
            fun hquote => absurd hquote (by decide)⟩
          cases fuel with
          | zero => exact absurd has (h.body_zero _ _)
          | succ fuel =>
              obtain ⟨y, _, hy, -⟩ := (h.body_succ _ _ _ _).1 has
              have hnext := hhead _ _ _ hy
              rwa [skipSpace_skipSpace] at hnext
        refine ⟨p ++ (space ++ ([','] ++ (next.takeWhile isSpace ++ q))), ?_, ?_⟩
        · simpa using hnext
        · refine .append ?_ (.append (between_plain (isPlain_of_forall_isSpace hspace))
            (.append (between_self (by decide) ?_) (.append (between_plain fun c hc =>
              isPlain_of_isSpace (List.mem_takeWhile_imp hc)) ?_)))
          · simpa [← hnext] using hfirst'
          · simpa [← hnext] using hfits
          · exact hothers.imp fun c b hb => hb.imp fun _ _ hhas => hhas.imp fun _ h =>
              ⟨List.mem_cons_of_mem _ h.1, h.2⟩

/-- **A container is settled if its elements are**, from its first bracket to its last one. -/
theorem Encloses.settled_whole (hopen : IsPlain c) (hplain : IsPlain close) {has : String → Json → Prop}
    (hhas : ∀ a ∈ as, ∀ name w, hasElem a name w → has name w)
    (hwhole : whole cs = .ok (make as, r)) :
    ∃ front, c :: cs = front ++ r ∧ Between (Fits has rest) front r := by
  have hclosing : ∀ c ∈ [close], IsPlain c := List.forall_mem_singleton.2 hplain
  rcases (h.whole_iff _ _ _).1 hwhole with ⟨hend, heq⟩ | ⟨_, hbody, heq⟩
  · obtain ⟨space, hspace, rfl, -⟩ := exists_of_skipSpace hend
    have hall : ∀ d ∈ c :: (space ++ [close]), IsPlain d := List.forall_mem_cons.2
      ⟨hopen, List.forall_mem_append.2 ⟨isPlain_of_forall_isSpace hspace, hclosing⟩⟩
    exact ⟨c :: (space ++ [close]), by simp, between_plain hall⟩
  · cases h.make_injective heq
    obtain ⟨p, hp, hbetween⟩ := h.settled_body hclose helem hhead rest hbody
    have hcs : cs = cs.takeWhile isSpace ++ (p ++ close :: r) := by
      rw [← hp, skipSpace, List.takeWhile_append_dropWhile]
    have hfirst : ∀ d ∈ c :: cs.takeWhile isSpace, IsPlain d := List.forall_mem_cons.2
      ⟨hopen, fun d hd => isPlain_of_isSpace (List.mem_takeWhile_imp hd)⟩
    refine ⟨(c :: cs.takeWhile isSpace) ++ (p ++ [close]), ?_,
      .append (between_plain hfirst) (.append ?_ (between_plain hclosing))⟩
    · simpa using hcs
    · exact hbetween.imp fun _ _ hfits =>
        hfits.imp fun name w hin => hin.elim fun a h => hhas a h.1 name w h.2

end

/-! ### Values -/

/-- A value is a container, a string or plain. -/
theorem valueWith_places {inner : Option (Reader Json)} (hc : isSpace c = false)
    (h : valueWith inner (c :: cs) = .ok (v, r)) :
    (∃ item ∈ inner, c = '[' ∧ listBody item cs = .ok (v, r)) ∨
      (∃ item ∈ inner, c = '\x7b' ∧ objectBody item cs = .ok (v, r)) ∨
        (∃ text, c = '"' ∧ stringBody cs = .ok (text, r)) ∨ PlainTo (c :: cs) r := by
  cases valueReads_of_valueWith hc h with
  | list hitem h => exact .inl ⟨_, hitem, rfl, h⟩
  | object hitem h => exact .inr (.inl ⟨_, hitem, rfl, h⟩)
  | string htext => exact .inr (.inr (.inl ⟨_, rfl, htext⟩))
  | word hword h =>
      obtain ⟨hfirst, hletters⟩ := marks_of_mem_keywords hword
      have hplain := takesPlain_word _ v (plain_of_subset hletters) _ _ _ h
      exact .inr (.inr (.inr (hplain.cons (isPlain_of_mem hfirst))))
  | negative hnumber =>
      have hplain := takesPlain_numberBody _ _ _ hnumber
      exact .inr (.inr (.inr (hplain.cons (isPlain_of_mem (by decide)))))
  | number _ hnumber => exact .inr (.inr (.inr (takesPlain_numberBody _ _ _ hnumber)))

theorem hasMember_of_memberHas {members : Members} {m : String × Json} (hm : m ∈ members)
    (h : memberHas m name' w) : HasMember name' w (.obj members) := by
  rcases h with rfl | h
  · exact .here hm
  · exact .member hm h

theorem head_of_value (h : value depth cs = .ok (v, r)) :
    ∀ d ∈ (skipSpace cs).head?, d ≠ ']' ∧ d ≠ '\x7d' := by
  obtain ⟨c, more, hcs, hc⟩ := exists_cons_of_value h
  rw [hcs]
  rintro d ⟨⟩
  exact hc

theorem head_of_memberBody {item : Reader Json} {m : String × Json}
    (h : memberBody item cs = .ok (m, r)) : ∀ d ∈ (skipSpace cs).head?, d ≠ ']' ∧ d ≠ '\x7d' := by
  obtain ⟨literal, -, -, -, rfl, -⟩ := memberBody_eq_ok_iff.1 h
  rintro d ⟨⟩
  decide

/-- **What fits where a value is read.** -/
theorem settled_value (depth : Nat) : Settled (value depth) fun v name w => HasMember name w v := by
  induction depth using Nat.strongRecOn with
  | ind depth ih =>
      intro cs v r h
      obtain ⟨c, tail, hcs, -⟩ := exists_cons_of_value h
      obtain ⟨space, hspace, rfl, hc⟩ := exists_of_skipSpace hcs
      have hblank := isPlain_of_forall_isSpace hspace
      obtain ⟨inner, hinner, hparts⟩ := exists_inner depth
      rw [value_append hspace, hinner] at h
      suffices hvalue : ∃ front, c :: tail = front ++ r ∧
          Between (Fits (fun name w => HasMember name w v) r) front r by
        obtain ⟨front, hfront, hbetween⟩ := hvalue
        exact ⟨space ++ front, by rw [hfront, List.append_assoc], (between_plain hblank).append hbetween⟩
      rcases valueWith_places hc h with
        ⟨item, hitem, rfl, h⟩ | ⟨item, hitem, rfl, h⟩ | ⟨text, rfl, htext⟩ | hplain
      · obtain ⟨k, rfl, rfl⟩ := hparts item hitem
        obtain ⟨items, rfl⟩ := (encloses_list k).exists_of_whole h
        exact (encloses_list k).settled_whole (by decide) (ih k k.lt_succ_self)
          (fun _ _ _ => head_of_value) (isPlain_of_mem (by decide)) (isPlain_of_mem (by decide))
          (fun _ hi _ _ => .item hi) h
      · obtain ⟨k, rfl, rfl⟩ := hparts item hitem
        obtain ⟨members, rfl⟩ := (encloses_object (value k)).exists_of_whole h
        exact (encloses_object (value k)).settled_whole (by decide) (settled_member (ih k k.lt_succ_self))
          (fun _ _ _ => head_of_memberBody) (isPlain_of_mem (by decide))
          (isPlain_of_mem (by decide))
          (fun _ hm _ _ => hasMember_of_memberHas hm) h
      · have hfirst : Fits (fun name w => HasMember name w v) r '"' tail := fits_quote fun _ _ _ htext' _ =>
          .inl (Prod.mk.inj (Except.ok.inj (htext'.symm.trans htext))).2
        obtain ⟨front, rfl, hquoted⟩ := settled_string htext hfirst
        exact ⟨'"' :: (front ++ ['"']), by simp, hquoted⟩
      · obtain ⟨front, hfront, hplain⟩ := hplain
        exact ⟨front, hfront, between_plain hplain⟩

/-! ### Whole texts -/

section

variable {s : String} (h : readRaw s = .ok v)

include h

theorem each_of_readRaw : ∃ space, (∀ c ∈ space, isSpace c = true) ∧
    ∀ a c b, s.toList = a ++ c :: b → Mode.code.run a = .code →
      Fits (fun name w => HasMember name w v) space c b := by
  obtain ⟨space, hspace, hvalue⟩ := readRaw_eq_ok_iff.1 h
  obtain ⟨front, hfront, hbetween⟩ := settled_value _ _ _ _ hvalue
  have hblank := isPlain_of_forall_isSpace hspace
  have hall : Between (Fits (fun name w => HasMember name w v) space) (front ++ space) [] :=
    .append (by simpa using hbetween) (between_plain hblank)
  exact ⟨space, hspace, fun a c b hs hcode => by simpa using hall.each a c b (hfront ▸ hs) hcode⟩

/-- **No slash stands between the strings of a JSON text.** -/
theorem ne_slash_of_readRaw (hs : s.toList = a ++ c :: b) (hcode : Mode.code.run a = .code) : c ≠ '/' := by
  obtain ⟨_, -, hfits⟩ := each_of_readRaw h
  exact (hfits a c b hs hcode).slash

/-- **No comma stands in front of a bracket.** -/
theorem ne_bracket_of_readRaw (hs : s.toList = a ++ ',' :: b) (hcode : Mode.code.run a = .code) :
    ∀ d ∈ (skipSpace b).head?, d ≠ ']' ∧ d ≠ '\x7d' := by
  obtain ⟨_, -, hfits⟩ := each_of_readRaw h
  exact (hfits a ',' b hs hcode).comma rfl

/-- **Blanks between the strings are of the four kinds that JSON knows.** -/
theorem forall_isSpace_of_readRaw (hs : s.toList = a ++ (p ++ b)) (hcode : Mode.code.run a = .code)
    (hblank : ∀ c ∈ p, Text.isBlank c = true) : ∀ c ∈ p, isSpace c = true := by
  intro c hc
  obtain ⟨x, y, rfl⟩ := List.append_of_mem hc
  have hx : Mode.code.run x = .code := run_code fun c hc => by
    rintro rfl
    exact absurd (hblank '"' (List.mem_append_left _ hc)) (by decide)
  obtain ⟨_, -, hfits⟩ := each_of_readRaw h
  refine (hfits (a ++ x) c (y ++ b) ?_ ?_).blank (hblank c hc)
  · rw [hs]
    simp
  · rw [Mode.run_append, hcode, hx]

/-- **A string with a colon behind it is the name of a member.** -/
theorem hasMember_of_readRaw (hs : s.toList = a ++ '"' :: b) (hcode : Mode.code.run a = .code)
    (hname : stringBody b = .ok (name, p)) (hcolon : skipSpace p = ':' :: q) :
    ∃ depth w rest, value depth q = .ok (w, rest) ∧ HasMember (String.ofList name) w v := by
  obtain ⟨space, hspace, hfits⟩ := each_of_readRaw h
  rcases (hfits a '"' b hs hcode).quote rfl name p q hname hcolon with rfl | hmember
  · have hnone : skipSpace p = [] := Text.dropWhile_eq_nil_iff.2 hspace
    rw [hnone] at hcolon
    cases hcolon
  · exact hmember

end

end StyleContract.Json
