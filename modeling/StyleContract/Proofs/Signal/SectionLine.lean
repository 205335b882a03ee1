import StyleContract.Proofs.Pattern.All
import StyleContract.Proofs.Signal.Sources
import StyleContract.Proofs.Text.Offsets
import StyleContract.Proofs.Verification.Aligned

/-!
# Proofs — Signal — Section line

The line that is cited for the line length of Black. The length is read from the document, its line is searched
for in the text: from the first place on at which `[tool.black]` stands, it is the first line that looks like a
setting of this length (`LooksAt`, `sectionLine?_of_looksAt`). No such line is passed over, since a match that
starts above it does not reach over its start (`length_le_of_begins`).

The line of the setting is one of these lines (`SetsLength.looksAt`). So a line is found, and none below the
setting, and **it is the line of the setting if and only if no line above looks like it**
(`cites_first_lookalike`). The text of a document has more lines that look like it than the document has
settings: in other sections, in strings, or with an underscore in the name. The first `[tool.black]` of a text
need not be the header either, and so the setting of another section can be cited (`other_line_cited`).
-/

namespace StyleContract

namespace Configuration

open Pattern

variable {cs rest lead digits tail u v x y : List Char} {n place : Nat} {c d e : Cursor} {m : Match}
  {header : String}

/-! ### Leads -/

/-- What may stand before the number in a line that looks like a setting. -/
def looseLeads : Language Char :=
  run (.of [' ', '\t']) * ({"line".toList} *
    (atMostOne (.of ['-', '_']) * ({"length".toList} *
      (run .blank * ({"=".toList} * run .blank)))))

def leadPattern : Pattern :=
  chain [star (.one (.of [' ', '\t'])), literal "line", optional (.one (.of ['-', '_'])),
    literal "length", blanks, literal "=", blanks]

theorem takes_leadPattern : leadPattern.Takes looseLeads :=
  takes_star_one.seq ((takes_literal _).seq (takes_optional_one.seq ((takes_literal _).seq
    (takes_star_one.seq ((takes_literal _).seq takes_star_one)))))

/-- Blanks, a name, and an equals sign between blanks of any kind. -/
theorem exists_parts (h : lead ∈ looseLeads) : ∃ as name bs es,
    lead = as ++ ('l' :: (name ++ (bs ++ '=' :: es))) ∧ (∀ c ∈ as, c = ' ' ∨ c = '\t') ∧
      (∀ c ∈ name, c ≠ '\n' ∧ Text.isDecimal c = false) ∧ (∀ c ∈ bs, Text.isBlank c = true) ∧
      ∀ c ∈ es, Text.isBlank c = true := by
  obtain ⟨as, has, _, h₁, rfl⟩ := Language.mem_mul.1 h
  obtain ⟨_, rfl, _, h₂, rfl⟩ := Language.mem_mul.1 h₁
  obtain ⟨mark, hmark, _, h₃, rfl⟩ := Language.mem_mul.1 h₂
  obtain ⟨_, rfl, _, h₄, rfl⟩ := Language.mem_mul.1 h₃
  obtain ⟨bs, hbs, _, h₅, rfl⟩ := Language.mem_mul.1 h₄
  obtain ⟨_, rfl, es, hes, rfl⟩ := Language.mem_mul.1 h₅
  refine ⟨as, "ine".toList ++ (mark ++ "length".toList), bs, es, by simp, fun c hc => ?_, ?_, hbs, hes⟩
  · simpa [CharSet.of, CharSet.has] using has c hc
  · rcases hmark with rfl | ⟨c, hc, rfl⟩
    · simp [Text.isDecimal]
    · have hc : c = '-' ∨ c = '_' := by simpa [CharSet.of, CharSet.has] using hc
      rcases hc with rfl | rfl <;> simp [Text.isDecimal]

theorem not_isDecimal_of_mem_looseLeads (h : lead ∈ looseLeads) :
    ∀ c ∈ lead, Text.isDecimal c = false := by
  obtain ⟨as, name, bs, es, rfl, has, hname, hbs, hes⟩ := exists_parts h
  have hequals : Text.isDecimal '=' = false ∧ Text.isDecimal 'l' = false := by decide
  simp only [List.forall_mem_append, List.forall_mem_cons]
  refine ⟨fun c hc => ?_, hequals.2, fun c hc => (hname c hc).2,
    fun c hc => Text.not_isDecimal_of_isBlank (hbs c hc), hequals.1,
    fun c hc => Text.not_isDecimal_of_isBlank (hes c hc)⟩
  rcases has c hc with rfl | rfl <;> decide

/-! ### Matches -/

/-- A text begins like a setting of a line length. -/
abbrev Begins := RunBehind looseLeads .decimal

theorem matchAt_lineLength :
    lineLengthPattern.matchAt c = if c.satisfies .lineStart then
      (Pattern.seq leadPattern (.group 1 (plus (.one .decimal)))).matchAt c else none := by
  rw [matchAt, matchAt]
  simp only [lineLengthPattern, leadPattern, chain, outcomes, List.flatMap_assoc]
  split
  · rw [List.flatMap_singleton]
  · rfl

theorem consumes_lineLengthPattern : lineLengthPattern.consumes = true := by decide

/-- Where a match ends, with its number as the group. -/
def matchEnd (u lead digits tail : List Char) : Cursor :=
  ⟨(lead ++ digits).reverse ++ u.reverse, tail,
    [(1, u.length + lead.length, u.length + lead.length + digits.length)]⟩

theorem begins_of_matchAt (h : lineLengthPattern.matchAt (Pattern.place [] u v) = some d) :
    (u.getLast?.all (· == '\n')) = true ∧
      ∃ lead digits tail, Begins v lead digits tail ∧ d = matchEnd u lead digits tail := by
  rw [matchAt_lineLength] at h
  obtain ⟨hstart, h⟩ := Option.ite_none_right_eq_some.1 h
  obtain ⟨lead, digits, tail, hbegins, rfl⟩ := exists_runBehind_of_matchAt takes_leadPattern h
  refine ⟨?_, lead, digits, tail, hbegins, ?_⟩
  · simpa [Pattern.place, Cursor.satisfies] using hstart
  · simp [matchEnd, Pattern.place, Cursor.after, Cursor.pos]

theorem matchAt_of_begins (hstart : (u.getLast?.all (· == '\n')) = true) (h : Begins v lead digits tail) :
    ∃ lead tail, Begins v lead digits tail ∧
      lineLengthPattern.matchAt (Pattern.place [] u v) = some (matchEnd u lead digits tail) := by
  have hsatisfies : (Pattern.place [] u v).satisfies .lineStart = true := by
    simpa [Pattern.place, Cursor.satisfies] using hstart
  obtain ⟨d, hd⟩ : ∃ d, (Pattern.seq leadPattern (.group 1 (plus (.one .decimal)))).matchAt
      (Pattern.place [] u v) = some d := exists_matchAt_of_runBehind takes_leadPattern h
  have hmatch : lineLengthPattern.matchAt (Pattern.place [] u v) = some d := by
    rw [matchAt_lineLength, if_pos hsatisfies, hd]
  obtain ⟨-, lead, digits', tail, hbegins, rfl⟩ := begins_of_matchAt hmatch
  -- what was matched is what the text begins with, as no lead has a digit
  have hdigits : digits = digits' :=
    (h.run_eq fun _ => not_isDecimal_of_mem_looseLeads).trans
      (hbegins.run_eq fun _ => not_isDecimal_of_mem_looseLeads).symm
  subst hdigits
  exact ⟨lead, tail, hbegins, hmatch⟩

theorem group?_matchEnd (u : List Char) (h : Begins v lead digits tail) :
    (Match.between (Pattern.place [] u v) (matchEnd u lead digits tail)).group? 1 (u ++ v) =
      some digits := by
  have hslice := Suggestion.slice_append (u ++ lead) digits tail
  rw [List.length_append, List.append_assoc, ← h.eq_append] at hslice
  simp [Match.group?, Match.between, matchEnd, hslice]

theorem start_matchEnd (u v : List Char) (d : Cursor) :
    (Match.between (Pattern.place [] u v) d).start = u.length := by
  simp [Match.between, Pattern.place, Cursor.pos]

/-! ### All matches -/

/-- What ends with a line feed reaches into the second of two parts, if the first one does not go on
behind it. -/
theorem split_behind_feed {as r : List Char} (h : y ++ v = as ++ r) (hy : y.getLast? = some '\n') :
    (∃ more, as = y ++ more ∧ v = more ++ r) ∨
      ∃ z, y = as ++ z ∧ z.getLast? = some '\n' ∧ z ++ v = r := by
  rcases List.append_eq_append_iff.1 h with ⟨more, has, hv⟩ | ⟨z, hyz, hr⟩
  · exact .inl ⟨more, has, hv⟩
  · by_cases hz : z = []
    · subst hz
      exact .inl ⟨[], by simpa using hyz.symm, hr.symm⟩
    · rw [hyz, List.getLast?_append_of_ne_nil _ hz] at hy
      exact .inr ⟨z, hyz, hy, hr.symm⟩

theorem head?_behind_blanks {bs : List Char} {c : Char} (hbs : ∀ b ∈ bs, Text.isBlank b = true)
    (hc : Text.isBlank c = false) : ((bs ++ c :: cs).dropWhile Text.isBlank).head? = some c := by
  rw [Text.dropWhile_append_of_head hbs (by simp [hc])]
  rfl

theorem head?_of_begins (h : Begins v lead digits tail) :
    (v.dropWhile Text.isBlank).head? = some 'l' := by
  obtain ⟨as, name, bs, es, rfl, has, -⟩ := exists_parts h.lead_mem
  rw [h.eq_append, List.append_assoc]
  exact head?_behind_blanks (fun c hc => by rcases has c hc with rfl | rfl <;> decide) (by decide)

/-- **No match reaches over the start of a later line that looks like a setting.** Behind a line feed a
match has only blanks in front of its equals sign or its number, and that line begins with a name. -/
theorem length_le_of_begins {lead' digits' tail' : List Char} (h : Begins (y ++ v) lead digits tail)
    (hy : y.getLast? = some '\n') (hv : Begins v lead' digits' tail') : v.length ≤ tail.length := by
  by_contra hlt
  have hname := head?_of_begins hv
  have hfeed : ∀ {z more as : List Char}, z.getLast? = some '\n' → as = z ++ more → '\n' ∈ as :=
    fun hz has => has ▸ List.mem_append_left _ (List.mem_of_getLast? hz)
  obtain ⟨as, name, bs, es, rfl, has, hnames, hbs, hes⟩ := exists_parts h.lead_mem
  have htext : y ++ v = (as ++ 'l' :: name) ++ (bs ++ (['='] ++ (es ++ (digits ++ tail)))) := by
    rw [h.eq_append]
    simp
  rcases split_behind_feed htext hy with ⟨more, heq, -⟩ | ⟨z, -, hz, htext⟩
  · rcases List.mem_append.1 (hfeed hy heq) with hmem | hmem
    · rcases has _ hmem with hc | hc <;> cases hc
    · rcases List.mem_cons.1 hmem with hc | hmem
      · cases hc
      · exact (hnames _ hmem).1 rfl
  rcases split_behind_feed htext hz with ⟨more, rfl, hv⟩ | ⟨z, -, hz, htext⟩
  · rw [hv, List.singleton_append, head?_behind_blanks
      (fun c hc => hbs c (List.mem_append_right _ hc)) (by decide)] at hname
    cases hname
  rcases split_behind_feed htext hz with ⟨more, heq, -⟩ | ⟨z, -, hz, htext⟩
  · cases List.mem_singleton.1 (hfeed hz heq)
  rcases split_behind_feed htext hz with ⟨more, rfl, hv⟩ | ⟨z, -, hz, htext⟩
  · obtain ⟨x, xs, hdigits⟩ := List.exists_cons_of_ne_nil h.ne_nil
    have hx : Text.isDecimal x = true := h.has x (hdigits ▸ List.mem_cons_self)
    have hblank : Text.isBlank x = false := Bool.eq_false_iff.2 fun hblank => by
      rw [Text.not_isDecimal_of_isBlank hblank] at hx
      cases hx
    rw [hv, hdigits, List.cons_append, head?_behind_blanks
      (fun c hc => hes c (List.mem_append_right _ hc)) hblank] at hname
    cases hname
    cases hx
  rcases split_behind_feed htext hz with ⟨more, heq, -⟩ | ⟨z, -, -, htext⟩
  · cases h.has _ (hfeed hz heq)
  · rw [← htext, List.length_append] at hlt
    omega

theorem exists_of_begins (hstart : (u.getLast?.all (· == '\n')) = true)
    (h : Begins v lead digits tail) : ∃ m ∈ lineLengthPattern.findAll (u ++ v),
      m.start = u.length ∧ m.group? 1 (u ++ v) = some digits := by
  obtain ⟨lead', tail', hbegins, hmatch⟩ := matchAt_of_begins hstart h
  refine ⟨_, mem_findAll_of_apart consumes_lineLengthPattern hmatch ?_, start_matchEnd u v _,
    group?_matchEnd u hbegins⟩
  intro x y e hu hy hearlier
  obtain ⟨-, _, _, _, hpassed, rfl⟩ := begins_of_matchAt hearlier
  rw [hu, List.getLast?_append_of_ne_nil _ hy] at hstart
  have hfeed : y.getLast? = some '\n' := by
    rw [List.getLast?_eq_some_getLast hy] at hstart ⊢
    simpa using hstart
  exact length_le_of_begins hpassed hfeed h

theorem begins_of_mem_findAll (h : m ∈ lineLengthPattern.findAll cs)
    (hgroup : m.group? 1 cs = some digits) : ∃ u v lead tail, cs = u ++ v ∧ m.start = u.length ∧
      (u.getLast?.all (· == '\n')) = true ∧ Begins v lead digits tail := by
  obtain ⟨u, v, d, rfl, hmatch, rfl⟩ := exists_of_mem_findAll consumes_lineLengthPattern h
  obtain ⟨hstart, lead, digits', tail, hbegins, rfl⟩ := begins_of_matchAt hmatch
  rw [group?_matchEnd u hbegins, Option.some.injEq] at hgroup
  exact ⟨u, v, lead, tail, rfl, start_matchEnd u v _, hstart, hgroup ▸ hbegins⟩

/-! ### The line of a section -/

/-- Behind the first occurrence of a header, a line begins that looks as if it set a line length. -/
structure LooksAt (cs : List Char) (header : String) (n place : Nat) : Prop where
  behind : ∃ start ≤ place, Text.placeOf? header.toList cs = some start
  lineStart : (cs.take place).getLast? = some '\n'
  begins : ∃ lead tail, Begins (cs.drop place) lead (Nat.toDigits 10 n) tail

theorem LooksAt.place_lt (h : LooksAt cs header n place) : place < cs.length := by
  obtain ⟨lead, tail, hbegins⟩ := h.begins
  by_contra hge
  have hnil := hbegins.eq_append
  rw [List.drop_of_length_le (Nat.le_of_not_lt hge)] at hnil
  simp [hbegins.ne_nil] at hnil

theorem not_begins_of_bracket {bs : List Char} (hbs : ∀ c ∈ bs, Text.isBlank c = true)
    (h : v = bs ++ '[' :: rest) : ¬ Begins v lead digits tail := fun hbegins => by
  have hname := head?_of_begins hbegins
  rw [h, head?_behind_blanks hbs (by decide)] at hname
  cases hname

section

variable {start : Nat}

/-- A line behind the header that looks like the setting is found. -/
theorem LooksAt.exists_match (h : LooksAt cs header n place)
    (hstart : Text.placeOf? header.toList cs = some start) :
    ∃ m ∈ lineLengthPattern.findAll (cs.drop start), start + m.start = place ∧
      m.group? 1 (cs.drop start) = some (Nat.toDigits 10 n) := by
  obtain ⟨start, hle, hbehind⟩ := h.behind
  cases hbehind.symm.trans hstart
  obtain ⟨k, rfl⟩ := Nat.exists_eq_add_of_le hle
  obtain ⟨lead, tail, hbegins⟩ := h.begins
  have hfeed := h.lineStart
  rw [List.take_add] at hfeed
  rw [← List.drop_drop] at hbegins
  have hall : (((cs.drop start).take k).getLast?.all (· == '\n')) = true := by
    by_cases hnil : (cs.drop start).take k = []
    · rw [hnil]
      rfl
    · rw [List.getLast?_append_of_ne_nil _ hnil] at hfeed
      rw [hfeed]
      rfl
  have hlength : ((cs.drop start).take k).length = k := by
    have hlt := h.place_lt
    exact List.length_take_of_le (by rw [List.length_drop]; omega)
  obtain ⟨m, hm, hplace, hgroup⟩ := exists_of_begins hall hbegins
  rw [List.take_append_drop] at hm hgroup
  exact ⟨m, hm, by rw [hplace, hlength], hgroup⟩

/-- What is found is a line that looks like the setting; at the header there is none. -/
theorem looksAt_of_mem (hstart : Text.placeOf? header.toList cs = some start)
    (hbracket : (cs.drop start).head? = some '[') (hm : m ∈ lineLengthPattern.findAll (cs.drop start))
    (hgroup : m.group? 1 (cs.drop start) = some (Nat.toDigits 10 n)) :
    LooksAt cs header n (start + m.start) := by
  obtain ⟨u, v, lead, tail, hcs, hplace, hall, hbegins⟩ := begins_of_mem_findAll hm hgroup
  have hu : u ≠ [] := fun hnil => by
    rw [hcs, hnil] at hbracket
    obtain ⟨more, hmore⟩ := List.head?_eq_some_iff.1 hbracket
    exact not_begins_of_bracket (List.forall_mem_nil _) hmore hbegins
  rw [hplace]
  refine ⟨⟨start, Nat.le_add_right _ _, hstart⟩, ?_, lead, tail, ?_⟩
  · rw [List.take_add, hcs, List.take_left, List.getLast?_append_of_ne_nil _ hu]
    rw [List.getLast?_eq_some_getLast hu] at hall ⊢
    simpa using hall
  · rwa [← List.drop_drop, hcs, List.drop_left]

end

/-- **The line that is cited for a section is the first one that looks like its setting.** -/
theorem sectionLine?_of_looksAt (hheader : header.toList.head? = some '[')
    (h : LooksAt cs header n place) : ∃ first ≤ place, LooksAt cs header n first ∧
      (∀ earlier < first, ¬ LooksAt cs header n earlier) ∧
      sectionLine? cs header n = some (Text.lineOfPlace cs first) := by
  obtain ⟨start, -, hstart⟩ := h.behind
  have hbracket : (cs.drop start).head? = some '[' := by
    obtain ⟨⟨more, hmore⟩, -⟩ := Text.placeOf?_eq_some_iff.1 hstart
    rw [← hmore, List.head?_append, hheader]
    rfl
  have hkept : ∀ m : Match, (m.group? 1 (cs.drop start) == some (toString n).toList) = true ↔
      m.group? 1 (cs.drop start) = some (Nat.toDigits 10 n) := fun m => by
    rw [beq_iff_eq, Suggestion.toList_toString]
  obtain ⟨m, hm, rfl, hgroup⟩ := h.exists_match hstart
  obtain ⟨first, hfirst⟩ : ∃ first, (lineLengthPattern.findAll (cs.drop start)).find?
      (fun m => m.group? 1 (cs.drop start) == some (toString n).toList) = some first :=
    Option.isSome_iff_exists.1 (List.find?_isSome.2 ⟨m, hm, (hkept m).2 hgroup⟩)
  have hmem := List.mem_of_find?_eq_some hfirst
  have hnumber := List.find?_some hfirst
  have hleast : ∀ {m}, m ∈ lineLengthPattern.findAll (cs.drop start) →
      m.group? 1 (cs.drop start) = some (Nat.toDigits 10 n) → first.start ≤ m.start :=
    fun hm hgroup => start_le_of_find?_findAll consumes_lineLengthPattern hfirst hm ((hkept _).2 hgroup)
  refine ⟨start + first.start, Nat.add_le_add_left (hleast hm hgroup) _,
    looksAt_of_mem hstart hbracket hmem ((hkept first).1 hnumber),
    fun earlier hlt hlooks => ?_, ?_⟩
  · obtain ⟨m, hm, rfl, hgroup⟩ := hlooks.exists_match hstart
    have hle := hleast hm hgroup
    omega
  · simp only [sectionLine?, hstart, Option.bind_eq_bind, Option.bind_some, hfirst]

/-! ### Settings of a document -/

variable {text : String}

/-- A text is a document with a line length for Black, which is set in a line of its own that begins at a
place. Reading comes through the header `[tool.black]` and arrives at this line in the section. -/
structure SetsLength (text : String) (n place : Nat) : Prop where
  length_eq : sectionLength? (Toml.ofText? text) "black" = some n
  reached : ∃ above before indent rest root lead tail,
    Toml.Steps ⟨[], [], Toml.unmarked text.toList⟩
        ⟨above, before, indent ++ ("[tool.black]".toList ++ rest)⟩ ∧
      (∀ c ∈ indent, Toml.isSpace c = true) ∧
      Toml.Steps ⟨above, before, indent ++ ("[tool.black]".toList ++ rest)⟩
        ⟨["tool", "black"], root, lead ++ (Nat.toDigits 10 n ++ tail)⟩ ∧
      lead ∈ Suggestion.assignments ∧ (Toml.afterLine? tail).isSome = true ∧
      text.toList.drop place = lead ++ (Nat.toDigits 10 n ++ tail)

theorem isBlank_of_isSpace {c : Char} (h : Toml.isSpace c = true) : Text.isBlank c = true := by
  have hc : c = ' ' ∨ c = '\t' := by simpa [Toml.isSpace] using h
  rcases hc with rfl | rfl <;> decide

/-- A setting of a document looks like one. -/
theorem mem_looseLeads_of_assignment (h : lead ∈ Suggestion.assignments) : lead ∈ looseLeads := by
  have hblank : ∀ {bs : List Char}, bs ∈ run (.of [' ', '\t']) → bs ∈ run .blank := fun hbs c hc =>
    isBlank_of_isSpace (Suggestion.isSpace_of_mem_run hbs c hc)
  obtain ⟨as, has, _, h₁, rfl⟩ := Language.mem_mul.1 h
  obtain ⟨_, rfl, _, h₂, rfl⟩ := Language.mem_mul.1 h₁
  obtain ⟨bs, hbs, _, h₃, rfl⟩ := Language.mem_mul.1 h₂
  obtain ⟨_, rfl, es, hes, rfl⟩ := Language.mem_mul.1 h₃
  have hname : "line-length".toList ++ (bs ++ ("=".toList ++ es)) =
      "line".toList ++ (['-'] ++ ("length".toList ++ (bs ++ ("=".toList ++ es)))) := by simp
  rw [hname]
  have hmark : ['-'] ∈ atMostOne (.of ['-', '_']) := .inr ⟨'-', by decide, rfl⟩
  exact Language.append_mem_mul has <| Language.append_mem_mul rfl <|
    Language.append_mem_mul hmark <| Language.append_mem_mul rfl <|
      Language.append_mem_mul (hblank hbs) <| Language.append_mem_mul rfl (hblank hes)

theorem begins_of_assignment (hlead : lead ∈ Suggestion.assignments)
    (htail : (Toml.afterLine? tail).isSome = true) :
    Begins (lead ++ (Nat.toDigits 10 n ++ tail)) lead (Nat.toDigits 10 n) tail where
  eq_append := rfl
  lead_mem := mem_looseLeads_of_assignment hlead
  ne_nil := Nat.toDigits_ne_nil
  has _ hx := Text.isDecimal_of_isDigit (Text.isDigit_of_mem_toDigits hx)
  tail_head := by
    cases tail with
    | nil => rfl
    | cons c tail =>
        by_contra hc
        have hc : Text.isDecimal c = true := by simpa [CharSet.has] using hc
        have hnone : Toml.afterLine? (c :: tail) = none := Toml.afterLine?_eq_none fun hmem => by
          simp only [List.mem_cons, List.not_mem_nil, or_false] at hmem
          rcases hmem with rfl | rfl | rfl | rfl | rfl <;> cases hc
        rw [hnone] at htail
        cases htail

theorem exists_unmarked (cs : List Char) : ∃ mark, cs = mark ++ Toml.unmarked cs := by
  unfold Toml.unmarked
  split
  · exact ⟨['\ufeff'], rfl⟩
  · exact ⟨[], rfl⟩

/-- **The line of a setting looks like one**, and stands behind the header. -/
theorem SetsLength.looksAt (h : SetsLength text n place) :
    LooksAt text.toList "[tool.black]" n place := by
  obtain ⟨above, before, indent, rest, root, lead, tail, hheader, hindent, hsetting, hlead, htail,
    hdrop⟩ := h.reached
  have hbegins : Begins _ lead (Nat.toDigits 10 n) tail := begins_of_assignment hlead htail
  have hne : lead ++ (Nat.toDigits 10 n ++ tail) ≠ [] := by simp [hbegins.ne_nil]
  obtain ⟨mark, hmark⟩ := exists_unmarked text.toList
  obtain ⟨front, hfront, -⟩ := hheader.exists_passed (by simp)
  dsimp only at hfront
  rcases hsetting.exists_line hne with heq | ⟨passed, hpassed⟩
  · have hsame : lead ++ (Nat.toDigits 10 n ++ tail) =
        indent ++ '[' :: ("tool.black]".toList ++ rest) := (congrArg Toml.Place.text heq).symm
    exact absurd hbegins (not_begins_of_bracket (fun c hc => isBlank_of_isSpace (hindent c hc)) hsame)
  · dsimp only at hpassed
    have htext : text.toList =
        (mark ++ front ++ (passed ++ ['\n'])) ++ (lead ++ (Nat.toDigits 10 n ++ tail)) := by
      rw [hmark, hfront, hpassed]
      simp
    have htake : text.toList.take place = mark ++ front ++ (passed ++ ['\n']) := by
      have hsplit := List.take_append_drop place text.toList
      rw [hdrop] at hsplit
      exact List.append_cancel_right (hsplit.trans htext)
    have hplace : (mark ++ front ++ (passed ++ ['\n'])).length ≤ place :=
      htake ▸ List.length_take_le _ _
    have hindented : indent.length ≤ (passed ++ ['\n']).length := by
      have hsame : (passed ++ ['\n']) ++ (lead ++ (Nat.toDigits 10 n ++ tail)) =
          indent ++ ("[tool.black]".toList ++ rest) := by
        rw [hpassed]
        simp
      rcases split_behind_feed hsame (by simp) with ⟨more, hmore, -⟩ | ⟨z, hz, -⟩
      · have hfeed : '\n' ∈ indent := by simp [hmore]
        cases hindent _ hfeed
      · simp [hz]
    have hstands : "[tool.black]".toList <+: text.toList.drop (mark ++ front ++ indent).length := by
      refine ⟨rest, ?_⟩
      rw [hmark, hfront, ← List.append_assoc, ← List.append_assoc, List.drop_left]
    obtain ⟨start, hle, hstart⟩ := Text.exists_placeOf?_le (by simp) hstands
    refine ⟨⟨start, ?_, hstart⟩, by rw [htake]; simp, lead, tail, hdrop ▸ hbegins⟩
    simp only [List.length_append] at hle hplace hindented
    omega

/-- Of two starts of lines, the later one is on a later line. -/
theorem lineOfPlace_eq_iff {first : Nat} (hshort : Text.IsShort text) (hle : first ≤ place)
    (hplace : place < text.toList.length) (hfeed : (text.toList.take place).getLast? = some '\n') :
    Text.lineOfPlace text.toList first = Text.lineOfPlace text.toList place ↔ first = place := by
  refine ⟨fun hline => ?_, fun h => h ▸ rfl⟩
  have hnumber : ∀ {q}, q < text.toList.length →
      (Text.lineOfPlace text.toList q).toNat = (text.toList.take q).count '\n' + 1 := fun hq =>
    Text.toNat_lineNumber (Text.length_lines text ▸ Text.count_take_lt_lineTotal hq) hshort
  have hcount := congrArg UInt32.toNat hline
  rw [hnumber (Nat.lt_of_le_of_lt hle hplace), hnumber hplace] at hcount
  obtain ⟨k, rfl⟩ := Nat.exists_eq_add_of_le hle
  rw [List.take_add, List.count_append] at hcount
  by_contra hne
  have hbetween : (text.toList.drop first).take k ≠ [] := fun hnil => by
    have hlength := congrArg List.length hnil
    rw [List.length_take, List.length_drop, List.length_nil] at hlength
    omega
  rw [List.take_add, List.getLast?_append_of_ne_nil _ hbetween] at hfeed
  have hpos := List.count_pos_iff.2 (List.mem_of_getLast? hfeed)
  omega

/-- **The line that is cited for a line length.** It is the line of the first place, from the first text that
reads like the header on, that looks like the setting; that is the line of the setting if and only if no such
place comes before it. -/
theorem cites_first_lookalike (h : SetsLength text n place) :
    ∃ first ≤ place, LooksAt text.toList "[tool.black]" n first ∧
      (∀ earlier < first, ¬ LooksAt text.toList "[tool.black]" n earlier) ∧
      lineLength? text = some (n, Text.lineOfPlace text.toList first) ∧
      (Text.IsShort text →
        (lineLength? text = some (n, Text.lineOfPlace text.toList place) ↔
          ∀ earlier < place, ¬ LooksAt text.toList "[tool.black]" n earlier)) := by
  have hlooks := h.looksAt
  obtain ⟨first, hle, hfirst, hleast, hline⟩ := sectionLine?_of_looksAt (by simp) hlooks
  have hlength : lineLength? text = some (n, Text.lineOfPlace text.toList first) := by
    have hheader : "[tool." ++ "black" ++ "]" = "[tool.black]" := by decide
    simp only [lineLength?, h.length_eq, Option.map_some, hheader, hline, Option.getD_some]
    rfl
  refine ⟨first, hle, hfirst, hleast, hlength, fun hshort => ?_⟩
  rw [hlength, Option.some.injEq, Prod.mk.injEq, eq_self_iff_true, true_and,
    lineOfPlace_eq_iff hshort hle hlooks.place_lt hlooks.lineStart]
  constructor
  · rintro rfl
    exact hleast
  · intro hnone
    exact Nat.le_antisymm hle (Nat.le_of_not_lt fun hlt => hnone first hlt hfirst)

/-! ### Two documents -/

theorem statement_of_header {cs more rest : List Char} {path : List String} (hcs : cs.head? ≠ some '[')
    (hpath : Toml.headerPart 1 cs = some (path, more)) (hrest : Toml.afterLine? more = some rest) :
    Toml.statement ('[' :: cs) = some (.table path, rest) := by
  simp only [Toml.statement, Toml.content_of_bracket hcs, hpath, Option.map_some, Option.bind_some,
    hrest]

/-- A document with nothing but the setting. -/
def plainText : String := "[tool.black]\nline-length = 88\n"

/-- A document that sets the same length in another section, below a comment that names the header. -/
def namedAbove : String :=
  "# [tool.black] follows ruff\n[tool.ruff]\nline-length = 88\n\n" ++ plainText

/-- Both set the length, and both have a line that is cited for it. -/
theorem lengths_of_both :
    (sectionLength? (Toml.ofText? plainText) "black" = some 88 ∧
        lineLength? plainText = some (88, 2)) ∧
      sectionLength? (Toml.ofText? namedAbove) "black" = some 88 ∧
        lineLength? namedAbove = some (88, 3) := by
  decide +kernel

theorem step_plainText (header : List String) {root opened : Toml.Entries}
    (hroot : (Toml.Statement.table ["tool", "black"]).apply header root = some opened) :
    Toml.Step ⟨header, root, plainText.toList⟩
      ⟨["tool", "black"], opened, "line-length = ".toList ++ (Nat.toDigits 10 88 ++ ['\n'])⟩ := by
  have hskip : Toml.skipAll plainText.toList = '[' :: "tool.black]\nline-length = 88\n".toList := by
    decide
  have hpath : Toml.headerPart 1 "tool.black]\nline-length = 88\n".toList =
      some (["tool", "black"], "\nline-length = 88\n".toList) := by decide
  have hstatement : Toml.statement (Toml.skipAll plainText.toList) = some (.table ["tool", "black"],
      "line-length = ".toList ++ (Nat.toDigits 10 88 ++ ['\n'])) := by
    rw [hskip]
    exact statement_of_header (by decide) hpath (by decide)
  exact .statement hstatement hroot

theorem setsLength_plainText : SetsLength plainText 88 13 :=
  ⟨lengths_of_both.1.1, [], [], [], "\nline-length = 88\n".toList,
    [("tool", .table .above [("black", .table .header [])])], "line-length = ".toList, ['\n'],
    .refl _, List.forall_mem_nil _, .more (step_plainText [] rfl) (.refl _),
    Suggestion.lead_mem_assignments, rfl, by decide⟩

theorem cites_first_lookalike_plainText :
    SetsLength plainText 88 13 ∧ Text.IsShort plainText ∧ lineLength? plainText = some (88, 2) ∧
      ∀ earlier < 13, ¬ LooksAt plainText.toList "[tool.black]" 88 earlier := by
  have hshort : Text.IsShort plainText := show (Text.lines plainText).length < 2 ^ 32 by decide
  obtain ⟨-, -, -, -, -, hiff⟩ := cites_first_lookalike setsLength_plainText
  exact ⟨setsLength_plainText, hshort, lengths_of_both.1.2, (hiff hshort).1 lengths_of_both.1.2⟩

/-- Reading comes through the other section and a line with nothing on it. -/
theorem setsLength_namedAbove : SetsLength namedAbove 88 71 := by
  have hruff : Toml.statement (Toml.skipAll namedAbove.toList) =
      some (.table ["tool", "ruff"],
        "line-length = ".toList ++ (Nat.toDigits 10 88 ++ '\n' :: '\n' :: plainText.toList)) := by
    have hskip : Toml.skipAll namedAbove.toList =
        '[' :: "tool.ruff]\nline-length = 88\n\n".toList ++ plainText.toList := by decide
    have hpath : Toml.headerPart 1 ("tool.ruff]\nline-length = 88\n\n".toList ++ plainText.toList) =
        some (["tool", "ruff"], "\nline-length = 88\n\n".toList ++ plainText.toList) := by
      decide
    rw [hskip]
    exact statement_of_header (by decide) hpath (by decide)
  have hother : Toml.statement (Toml.skipAll
      ("line-length = ".toList ++ (Nat.toDigits 10 88 ++ '\n' :: '\n' :: plainText.toList))) =
      some (.keyed ["line-length"] (.int 88), '\n' :: plainText.toList) :=
    Suggestion.statement_in_front (by decide) _
  have hblank : Toml.afterLine? ('\n' :: plainText.toList) = some plainText.toList := rfl
  refine ⟨lengths_of_both.2.1, ["tool", "ruff"],
    [("tool", .table .above [("ruff", .table .header [("line-length", .value (.int 88))])])], [],
    "\nline-length = 88\n".toList,
    [("tool", .table .above [("ruff", .table .header [("line-length", .value (.int 88))]),
      ("black", .table .header [])])], "line-length = ".toList, ['\n'], ?_, List.forall_mem_nil _,
    .more (step_plainText _ rfl) (.refl _), Suggestion.lead_mem_assignments, rfl, by decide⟩
  exact .more (.statement hruff rfl) (.more (.statement hother rfl) (.more (.blank hblank) (.refl _)))

/-- **A line of another section is cited**, three lines above the setting: the comment reads like the header,
and that line like the setting. -/
theorem other_line_cited :
    SetsLength namedAbove 88 71 ∧ lineLength? namedAbove = some (88, 3) ∧
      Text.lineOfPlace namedAbove.toList 71 = 6 :=
  ⟨setsLength_namedAbove, lengths_of_both.2.2, by decide⟩

end Configuration

end StyleContract
