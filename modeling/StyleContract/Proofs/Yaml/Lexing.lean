import StyleContract.Proofs.Yaml.Keys
import StyleContract.Proofs.Yaml.Parsing

/-!
# Proofs — Yaml — Lexing

What is printed of a value is divided into the tokens of the value, behind a sign and behind a key
(`lexes_of_nests`). The statement for a value leaves open what follows it: what matters is only the
column at which the next token begins, which decides which blocks end there. The items of a list and
the entries of a mapping stand at one column, so they are divided into their tokens one after the other,
in the block that the first one opens (`LexesEntries.append`).
-/

namespace StyleContract.Yaml
open Printer (afterSign afterKey itemsText membersText isShortKey keyText numberText styleOf textIn)
open Lexer (Begins Leads Steps spaces)
open Node (entryTokens memberTokens_cons)

variable {i line column indent k : Nat} {cs rest tail : List Char} {b : Block} {l : Lexer}
  {allowed : Bool}

/-! ### Signs -/

/-- A sign before a value, with the token that opens its block and its own. -/
def IsSign (x : Char) (start t : Token) : Prop :=
  (x, start, t) ∈ [('-', .blockSequenceStart, .blockEntry), ('?', .blockMappingStart, .key),
    (':', .blockMappingStart, Token.value)]

theorem isSign_item : IsSign '-' .blockSequenceStart .blockEntry := by simp [IsSign]

theorem isSign_key : IsSign '?' .blockMappingStart .key := by simp [IsSign]

theorem isSign_value : IsSign ':' .blockMappingStart .value := by simp [IsSign]

theorem lexToken_sign {x : Char} {start t : Token} (h : IsSign x start t) :
    (b.lexer ⟨x :: ' ' :: rest, i, line, column⟩ true).lexToken =
      some (((b.enter column start).add [t]).lexer ⟨' ' :: rest, i + 1, line, column + 1⟩ true) := by
  simp only [IsSign, List.mem_cons, Prod.mk.injEq, List.not_mem_nil, or_false] at h
  rcases h with ⟨rfl, rfl, rfl⟩ | ⟨rfl, rfl, rfl⟩ | ⟨rfl, rfl, rfl⟩ <;>
    by_cases hlt : b.indent < (column : Int) <;>
    simp [Lexer.lexToken, Lexer.lexBlockEntry, Lexer.lexKey, Lexer.lexValue, Lexer.openBlock,
      Lexer.removeKey, Lexer.inFlow, Lexer.allowKey, Lexer.sign, Lexer.emit, Lexer.moveTo,
      Place.head?, Place.onMarker, Place.blankOrEndAt, Place.at?, Place.skip, isBlank, Block.lexer,
      Block.lexerAfter, Block.add, Block.enter, hlt]

/-- A sign leads to the value after it. -/
theorem steps_sign {x : Char} {start t : Token} (hsign : IsSign x start t) (hindent : b.indent ≤ column)
    (hrest : Begins rest)
    (h : Steps (((b.enter column start).add [t]).lexer ⟨rest, i + 2, line, column + 2⟩ true) l) :
    Steps (b.lexer ⟨x :: ' ' :: rest, i, line, column⟩ true) l := by
  refine Leads.steps (lexToken_sign hsign) (Nat.lt_succ_self _) (Lexer.leads_spaces (k := 1) hrest
    (Lexer.isGone_none _) ?_)
  rw [Block.close_enter_add hindent (by omega)]
  exact h

/-! ### Empty collections -/

/-- The marks of a collection, with their tokens. -/
def IsPair (opening closing : Char) (start stop : Token) : Prop :=
  (opening, closing, start, stop) ∈ [('[', ']', .flowSequenceStart, .flowSequenceEnd),
    ('\x7b', '\x7d', .flowMappingStart, Token.flowMappingEnd)]

theorem isPair_list : IsPair '[' ']' .flowSequenceStart .flowSequenceEnd := by simp [IsPair]

theorem isPair_mapping : IsPair '\x7b' '\x7d' .flowMappingStart .flowMappingEnd := by simp [IsPair]

/-- The lexer behind the first mark of a collection. -/
def Block.lexerWithin (b : Block) (start : Token) (p : Place) (key : Option KeyStart) : Lexer where
  place := p
  tokens := (b.tokens ++ [start]).toArray
  indent := b.indent
  outer := b.outer
  keys := [none, key]

theorem lexToken_opening {opening closing : Char} {start stop : Token}
    (h : IsPair opening closing start stop) {p : Place} (hp : p.rest = opening :: tail) :
    (b.lexer p allowed).lexToken = some (b.lexerWithin start p.next (b.keyAt p allowed)) := by
  have hsave := @Lexer.saveKey_lexer b p allowed
  obtain ⟨_, i, line, column⟩ := p
  subst hp
  simp only [IsPair, List.mem_cons, Prod.mk.injEq, List.not_mem_nil, or_false] at h
  rcases h with ⟨rfl, rfl, rfl, rfl⟩ | ⟨rfl, rfl, rfl, rfl⟩ <;>
    simp [Lexer.lexToken, Place.head?, Place.onMarker, Lexer.lexFlowStart, hsave, Lexer.allowKey,
      Lexer.sign, Lexer.emit, Lexer.moveTo, Block.lexerAfter, Block.lexerWithin, Place.skip, Place.next]

theorem lexToken_closing {opening closing : Char} {start stop : Token} {key : Option KeyStart}
    (h : IsPair opening closing start stop) {p : Place} (hp : p.rest = closing :: tail) :
    (b.lexerWithin start p key).lexToken = some ((b.add [start, stop]).lexerAfter p.next key false) := by
  obtain ⟨_, i, line, column⟩ := p
  subst hp
  simp only [IsPair, List.mem_cons, Prod.mk.injEq, List.not_mem_nil, or_false] at h
  rcases h with ⟨rfl, rfl, rfl, rfl⟩ | ⟨rfl, rfl, rfl, rfl⟩ <;>
    simp [Lexer.lexToken, Place.head?, Place.onMarker, Lexer.lexFlowEnd, Lexer.removeKey,
      Lexer.inFlow, Lexer.allowKey, Lexer.sign, Lexer.emit, Lexer.moveTo, Block.lexerAfter,
      Block.lexerWithin, Block.add, Place.skip, Place.next]

theorem settle_within {start : Token} {p q : Place} (hp : Begins p.rest) (hindex : p.index = q.index + 1)
    (hline : p.line = q.line) :
    (b.lexerWithin start p (b.keyAt q allowed)).settle =
      some (b.lexerWithin start p (b.keyAt q allowed)) := by
  have hskip : (b.lexerWithin start p (b.keyAt q allowed)).skipToToken (p.rest.length + 1) =
      b.lexerWithin start p (b.keyAt q allowed) := Lexer.skipToToken_spaces (k := 0) rfl hp _
  have hdrop : (b.lexerWithin start p (b.keyAt q allowed)).dropStaleKeys =
      some (b.lexerWithin start p (b.keyAt q allowed)) := by
    cases allowed with
    | false => rfl
    | true =>
        have hnot : ¬ (q.line < p.line ∨ q.index + 1024 < p.index) := by omega
        simp [Block.lexerWithin, Lexer.dropStaleKeys, Block.keyAt, hnot]
  have hplace : (b.lexerWithin start p (b.keyAt q allowed)).place = p := rfl
  rw [Lexer.settle, hplace, hskip, hdrop]
  rfl

/-- An empty collection is two tokens. -/
theorem steps_empty {opening closing : Char} {start stop : Token}
    (h : IsPair opening closing start stop) (hindent : b.indent < column) (hrest : Begins rest) :
    ∃ i' line', Steps (b.lexer ⟨opening :: closing :: '\n' :: (spaces k ++ rest), i, line, column⟩
        allowed) (((b.add [start, stop]).close k).lexer ⟨rest, i', line', k⟩ true) := by
  have hclosing : Begins (closing :: '\n' :: (spaces k ++ rest)) := by
    simp only [IsPair, List.mem_cons, Prod.mk.injEq, List.not_mem_nil, or_false] at h
    rcases h with ⟨-, rfl, -⟩ | ⟨-, rfl, -⟩ <;> exact Lexer.begins_cons.2 (by decide)
  refine ⟨_, _, Leads.steps (lexToken_opening h rfl) (Nat.lt_succ_self _)
    ⟨_, settle_within hclosing rfl rfl, Nat.le_refl _, Leads.steps (lexToken_closing h rfl)
      (Nat.lt_succ_self _) (Lexer.leads_line hrest (Lexer.isGone_keyAt hindent ?_) .refl)⟩⟩
  exact Nat.lt_succ_self line

/-! ### The text of a value -/

theorem itemsText_cons (begun : Bool) (v : Json) (vs : List Json) :
    (itemsText indent begun (v :: vs)).toList = (if begun then [] else spaces indent) ++
      '-' :: ' ' :: ((afterSign indent v).toList ++ (itemsText indent false vs).toList) := by
  rw [itemsText]
  cases begun <;> simp [Printer.pad, Printer.padding, spaces]

/-- The text of an entry, behind its indentation. -/
def entryText (indent : Nat) (key : String) (v : Json) : List Char :=
  if isShortKey key then (keyText key).toList ++ ':' :: (afterKey indent v).toList
  else '?' :: ' ' :: ((Printer.textBelow indent key).toList ++
    (spaces indent ++ ':' :: ' ' :: (afterSign indent v).toList))

theorem membersText_cons (begun : Bool) (key : String) (v : Json) (members : Json.Members) :
    (membersText indent begun ((key, v) :: members)).toList = (if begun then [] else spaces indent) ++
      (entryText indent key v ++ (membersText indent false members).toList) := by
  rw [membersText, entryText]
  by_cases hshort : isShortKey key = true <;>
    cases begun <;> simp [hshort, Printer.pad, Printer.padding, spaces]

/-! ### Filled collections -/

theorem itemsText_false {items : List Json} (hne : items ≠ []) :
    (itemsText indent false items).toList = spaces indent ++ (itemsText indent true items).toList := by
  obtain ⟨v, vs, rfl⟩ := List.exists_cons_of_ne_nil hne
  rw [itemsText_cons, itemsText_cons]
  rfl

theorem membersText_false {members : Json.Members} (hne : members ≠ []) :
    (membersText indent false members).toList =
      spaces indent ++ (membersText indent true members).toList := by
  obtain ⟨⟨key, v⟩, ms, rfl⟩ := List.exists_cons_of_ne_nil hne
  rw [membersText_cons, membersText_cons]
  rfl

theorem afterSign_arr {items : List Json} (hne : items ≠ []) :
    afterSign indent (.arr items) = itemsText (indent + 2) true items := by
  rw [afterSign]
  exact hne

theorem afterSign_obj {members : Json.Members} (hne : members ≠ []) :
    afterSign indent (.obj members) = membersText (indent + 2) true members := by
  rw [afterSign]
  exact hne

theorem afterKey_arr {items : List Json} (hne : items ≠ []) :
    afterKey indent (.arr items) = "\n" ++ itemsText indent false items := by
  rw [afterKey]
  exact hne

theorem afterKey_obj {members : Json.Members} (hne : members ≠ []) :
    afterKey indent (.obj members) = "\n" ++ membersText (indent + 2) false members := by
  rw [afterKey]
  exact hne

theorem signTokens_arr {items : List Json} (hne : items ≠ []) :
    signTokens (.arr items) = .blockSequenceStart :: (itemTokens items ++ [.blockEnd]) := by
  obtain ⟨v, vs, rfl⟩ := List.exists_cons_of_ne_nil hne
  rw [signTokens]

theorem signTokens_obj {members : Json.Members} (hne : members ≠ []) :
    signTokens (.obj members) = .blockMappingStart :: (memberTokens members ++ [.blockEnd]) := by
  obtain ⟨m, ms, rfl⟩ := List.exists_cons_of_ne_nil hne
  rw [signTokens]

theorem isFilledList_arr {items : List Json} (hne : items ≠ []) :
    isFilledList (.arr items) = true := by
  obtain ⟨v, vs, rfl⟩ := List.exists_cons_of_ne_nil hne
  rfl

theorem begins_entryText {key : String} {v : Json} : Begins (entryText indent key v ++ rest) := by
  rw [entryText]
  split
  · next hshort =>
    rw [List.append_assoc]
    exact begins_keyText hshort
  · exact Lexer.begins_cons.2 (by decide)

theorem followsColon_afterKey (v : Json) : FollowsColon ((afterKey indent v).toList ++ rest) := by
  have hspace : ∀ cs, FollowsColon (' ' :: cs) := fun _ => rfl
  have hline : ∀ cs, FollowsColon ('\n' :: cs) := fun _ => rfl
  cases v with
  | arr items => cases items <;> simp [afterKey, hspace, hline]
  | obj members => cases members <;> simp [afterKey, hspace, hline]
  | _ => simp [afterKey, hspace]

/-- A value is divided into its tokens, behind a sign and behind a short key. -/
structure Lexes (v : Json) : Prop where
  begins : ∀ indent rest, Begins ((afterSign indent v).toList ++ rest)
  sign : ∀ {b : Block} {indent i line k : Nat} {rest : List Char}, b.indent = indent → k ≤ indent →
    Begins rest → ∃ i' line', Steps
      (b.lexer ⟨(afterSign indent v).toList ++ (spaces k ++ rest), i, line, indent + 2⟩ true)
      (((b.add (signTokens v)).close k).lexer ⟨rest, i', line', k⟩ true)
  key : ∀ {b : Block} {indent i line column k : Nat} {rest : List Char}, b.indent = indent →
    indent < column → k ≤ indent → Begins rest → ∃ i' line', Leads
      (b.lexer ⟨(afterKey indent v).toList ++ (spaces k ++ rest), i, line, column⟩ false)
      (((b.add (entryTokens true v)).close k).lexer ⟨rest, i', line', k⟩ true)

/-! ### Entries -/

/-- Some entries at a column are divided into their tokens, in the block that the first one may open. -/
structure LexesEntries (indent : Nat) (start : Token) (text : List Char) (ts : List Token) : Prop where
  begins : ∀ rest, Begins (text ++ rest)
  steps : ∀ {b : Block} {i line k : Nat} {rest : List Char}, b.indent ≤ indent → k ≤ indent →
    Begins rest → ∃ i' line', Steps (b.lexer ⟨text ++ (spaces k ++ rest), i, line, indent⟩ true)
      ((((b.enter indent start).add ts).close k).lexer ⟨rest, i', line', k⟩ true)

/-- The entries after others stand in the same block. -/
theorem LexesEntries.append {start : Token} {text text' : List Char} {ts ts' : List Token}
    (h : LexesEntries indent start text ts) (h' : LexesEntries indent start text' ts') :
    LexesEntries indent start (text ++ (spaces indent ++ text')) (ts ++ ts') where
  begins rest := by
    rw [List.append_assoc]
    exact h.begins _
  steps {b i line k rest} hindent hk hrest := by
    obtain ⟨i₁, line₁, hfirst⟩ := @LexesEntries.steps _ _ _ _ h b i line indent _ hindent
      (Nat.le_refl indent) (h'.begins (spaces k ++ rest))
    rw [Block.close_enter_add hindent (Nat.le_refl indent)] at hfirst
    have hinner : ((b.enter indent start).add ts).indent ≤ indent :=
      Int.le_of_eq (Block.indent_enter hindent)
    obtain ⟨i', line', hmore⟩ := @LexesEntries.steps _ _ _ _ h' _ i₁ line₁ k rest hinner hk hrest
    rw [Block.enter_enter_add hindent, Block.add_add] at hmore
    refine ⟨i', line', ?_⟩
    rw [List.append_assoc, List.append_assoc]
    exact hfirst.trans hmore

theorem lexesEntries_item {v : Json} (hv : Lexes v) :
    LexesEntries indent .blockSequenceStart ('-' :: ' ' :: (afterSign indent v).toList)
      (.blockEntry :: signTokens v) where
  begins _ := Lexer.begins_cons.2 (by decide)
  steps {b i line k rest} hindent hk hrest := by
    have hinner : ((b.enter indent .blockSequenceStart).add [.blockEntry]).indent = indent :=
      Block.indent_enter hindent
    obtain ⟨i', line', hsteps⟩ := @Lexes.sign _ hv _ _ (i + 2) line _ _ hinner hk hrest
    rw [Block.add_add] at hsteps
    exact ⟨i', line', steps_sign isSign_item hindent (hv.begins indent _) hsteps⟩

/-- An entry is divided into its tokens, whether its key is on the line of its value or not. -/
theorem lexesEntries_member {key : String} {v : Json} (hv : Lexes v) :
    LexesEntries indent .blockMappingStart (entryText indent key v)
      (.key :: .scalar key (styleOf key) :: .value :: entryTokens (isShortKey key) v) where
  begins _ := begins_entryText
  steps {b i line k rest} hindent hk hrest := by
    have hinner : ∀ ts, ((b.enter indent .blockMappingStart).add ts).indent = indent := fun _ =>
      Block.indent_enter hindent
    rw [entryText]
    by_cases hshort : isShortKey key = true
    · obtain ⟨i', line', hleads⟩ := @Lexes.key _ hv _ _ (i + (keyText key).toList.length + 1) line
        (indent + (keyText key).toList.length + 1) _ _
        (hinner [.key, .scalar key (styleOf key), .value]) (by omega) hk hrest
      rw [Block.add_add] at hleads
      rw [if_pos hshort, List.append_assoc, List.cons_append, hshort]
      exact ⟨i', line', steps_key hshort hindent (followsColon_afterKey v) hleads⟩
    · have hsuits : Suits (styleOf key) key.toList := suits_styleOf key
      obtain ⟨i₁, line₁, hkey⟩ := @Suits.steps_textIn (i + 2) line (indent + 2) indent _
        (':' :: ' ' :: ((afterSign indent v).toList ++ (spaces k ++ rest))) _ _ _ true hsuits
        (hinner [.key]) (by omega) (Nat.le_refl indent) (Lexer.begins_cons.2 (by decide))
      rw [Block.add_add, Block.close_enter_add hindent (Nat.le_refl indent),
        String.ofList_toList] at hkey
      obtain ⟨i', line', hsteps⟩ := @Lexes.sign _ hv _ _ (i₁ + 2) line₁ _ _
        (hinner [.key, .scalar key (styleOf key), .value]) hk hrest
      rw [Block.add_add] at hsteps
      have htokens : entryTokens (isShortKey key) v = signTokens v := by
        rw [Bool.eq_false_iff.2 hshort, entryTokens, Bool.false_and, if_neg Bool.false_ne_true]
      have htext : '?' :: ' ' :: ((Printer.textBelow indent key).toList ++
            (spaces indent ++ ':' :: ' ' :: (afterSign indent v).toList)) ++ (spaces k ++ rest) =
          '?' :: ' ' :: (textIn (styleOf key) (indent + 2) key.toList ++
            (spaces indent ++ ':' :: ' ' :: ((afterSign indent v).toList ++ (spaces k ++ rest)))) := by
        simp [Printer.textBelow]
      rw [if_neg hshort, htext, htokens]
      refine ⟨i', line', steps_sign isSign_key hindent (hsuits.begins _) (hkey.trans ?_)⟩
      refine steps_sign isSign_value (Int.le_of_eq (hinner _)) (hv.begins indent _) ?_
      rw [Block.enter_enter_add hindent, Block.add_add]
      exact hsteps

/-- The items of a list are divided into their tokens. -/
theorem lexesEntries_items {items : List Json} (hitems : ∀ v ∈ items, Lexes v) (hne : items ≠ []) :
    LexesEntries indent .blockSequenceStart (itemsText indent true items).toList
      (itemTokens items) := by
  induction items with
  | nil => exact absurd rfl hne
  | cons v vs ih =>
      have hv : LexesEntries indent .blockSequenceStart _ _ :=
        lexesEntries_item (hitems v List.mem_cons_self)
      rw [itemsText_cons, itemTokens]
      cases vs with
      | nil => simpa [itemsText, itemTokens] using hv
      | cons w ws =>
          have hws := hv.append (ih (fun u hu => hitems u (List.mem_cons_of_mem v hu))
            (List.cons_ne_nil w ws))
          rw [itemsText_cons] at hws ⊢
          simpa using hws

/-- The entries of a mapping are divided into their tokens. -/
theorem lexesEntries_members {members : Json.Members} (hmembers : ∀ m ∈ members, Lexes m.2)
    (hne : members ≠ []) :
    LexesEntries indent .blockMappingStart (membersText indent true members).toList
      (memberTokens members) := by
  induction members with
  | nil => exact absurd rfl hne
  | cons m ms ih =>
      obtain ⟨key, v⟩ := m
      have hv : LexesEntries indent .blockMappingStart _ _ :=
        @lexesEntries_member _ key _ (hmembers _ List.mem_cons_self)
      rw [membersText_cons, memberTokens_cons]
      cases ms with
      | nil => simpa [membersText, memberTokens] using hv
      | cons n ns =>
          have hns := hv.append (ih (fun m hm => hmembers m (List.mem_cons_of_mem _ hm))
            (List.cons_ne_nil n ns))
          rw [membersText_cons] at hns ⊢
          simpa using hns

/-! ### Values -/

/-- A value that stands on the line of its key is divided into its tokens, if it is wherever it
begins further in than its block. -/
theorem lexes_inline {v : Json} (hkey : ∀ indent, afterKey indent v = " " ++ afterSign indent v)
    (hfilled : isFilledList v = false)
    (hbegins : ∀ indent rest, Begins ((afterSign indent v).toList ++ rest))
    (hsteps : ∀ (b : Block) (indent i line column k : Nat) (rest : List Char) (allowed : Bool),
      b.indent = indent → indent < column → k ≤ indent → Begins rest → ∃ i' line', Steps
        (b.lexer ⟨(afterSign indent v).toList ++ (spaces k ++ rest), i, line, column⟩ allowed)
        (((b.add (signTokens v)).close k).lexer ⟨rest, i', line', k⟩ true)) : Lexes v where
  begins := hbegins
  sign {_ indent _ _ _ _} hindent hk hrest :=
    hsteps _ _ _ _ _ _ _ _ hindent (Nat.lt_add_of_pos_right Nat.two_pos) hk hrest
  key {b indent i line column k rest} hindent hcolumn hk hrest := by
    obtain ⟨i', line', h⟩ := hsteps b indent (i + 1) line (column + 1) k rest false hindent
      (Nat.lt_succ_of_lt hcolumn) hk hrest
    have htokens : entryTokens true v = signTokens v := by rw [entryTokens, hfilled]; rfl
    have hopen : b.indent ≤ (column + 1 : Nat) := by omega
    refine ⟨i', line', ?_⟩
    rw [hkey, String.toList_append, List.append_assoc, htokens]
    refine Lexer.leads_spaces (k := 1) (hbegins _ _) (Lexer.isGone_none _) ?_
    rw [Block.close_of_le hopen]
    exact h

theorem lexes_scalar {v : Json} {style : Style} (hsuits : Suits style cs)
    (hsign : ∀ indent, (afterSign indent v).toList = textIn style (indent + 2) cs)
    (hkey : ∀ indent, afterKey indent v = " " ++ afterSign indent v)
    (htokens : signTokens v = [.scalar (String.ofList cs) style])
    (hfilled : isFilledList v = false) : Lexes v := by
  refine lexes_inline hkey hfilled (fun indent rest => ?_) ?_
  · rw [hsign]
    exact hsuits.begins _
  · intro b indent i line column k rest allowed hindent hcolumn hk hrest
    rw [hsign, htokens]
    exact hsuits.steps_textIn hindent hcolumn hk hrest

theorem lexes_empty {v : Json} {opening closing : Char} {start stop : Token}
    (h : IsPair opening closing start stop)
    (hsign : ∀ indent, (afterSign indent v).toList = [opening, closing, '\n'])
    (hkey : ∀ indent, afterKey indent v = " " ++ afterSign indent v)
    (htokens : signTokens v = [start, stop]) (hfilled : isFilledList v = false) : Lexes v := by
  refine lexes_inline hkey hfilled (fun indent rest => ?_) ?_
  · rw [hsign]
    simp only [IsPair, List.mem_cons, Prod.mk.injEq, List.not_mem_nil, or_false] at h
    rcases h with ⟨rfl, -⟩ | ⟨rfl, -⟩ <;> exact Lexer.begins_cons.2 (by decide)
  · intro b indent i line column k rest allowed hindent hcolumn hk hrest
    rw [hsign, htokens]
    exact steps_empty h (by omega) hrest

/-- Entries further in than their block are a collection of their own. -/
theorem LexesEntries.steps_within {start : Token} {text : List Char} {ts : List Token}
    (h : LexesEntries (indent + 2) start text ts) (hindent : b.indent = indent) (hk : k ≤ indent)
    (hrest : Begins rest) :
    ∃ i' line', Steps (b.lexer ⟨text ++ (spaces k ++ rest), i, line, indent + 2⟩ true)
      (((b.add (start :: (ts ++ [.blockEnd]))).close k).lexer ⟨rest, i', line', k⟩ true) := by
  obtain ⟨i', line', hsteps⟩ := @LexesEntries.steps _ _ _ _ h b i line k rest (by omega) (by omega)
    hrest
  rw [Block.close_add_enter (by omega) (by omega)] at hsteps
  exact ⟨i', line', hsteps⟩

/-- Entries may begin on the line after their key. -/
theorem LexesEntries.leads {start : Token} {text : List Char} {ts : List Token}
    (h : LexesEntries indent start text ts) (hindent : b.indent ≤ indent) (hk : k ≤ indent)
    (hrest : Begins rest) :
    ∃ i' line', Leads
      (b.lexer ⟨'\n' :: (spaces indent ++ (text ++ (spaces k ++ rest))), i, line, column⟩ allowed)
      ((((b.enter indent start).add ts).close k).lexer ⟨rest, i', line', k⟩ true) := by
  obtain ⟨i', line', hsteps⟩ := @LexesEntries.steps _ _ _ _ h b (i + 1 + indent) (line + 1) k rest
    hindent hk hrest
  refine ⟨i', line', Lexer.leads_line (h.begins _) (Lexer.isGone_none _) ?_⟩
  rw [Block.close_of_le hindent]
  exact hsteps

theorem lexes_arr {items : List Json} (hitems : ∀ v ∈ items, Lexes v) (hne : items ≠ []) :
    Lexes (.arr items) := by
  have hlexes : ∀ indent, LexesEntries indent .blockSequenceStart
      (itemsText indent true items).toList (itemTokens items) := fun _ =>
    lexesEntries_items hitems hne
  refine ⟨fun indent rest => ?_, ?_, ?_⟩
  · rw [afterSign_arr hne]
    exact (hlexes _).begins rest
  · intro b indent i line k rest hindent hk hrest
    rw [afterSign_arr hne, signTokens_arr hne]
    exact (hlexes _).steps_within hindent hk hrest
  · intro b indent i line column k rest hindent hcolumn hk hrest
    obtain ⟨i', line', hleads⟩ := @LexesEntries.leads i line column indent k rest b false _ _ _
      (hlexes indent) (Int.le_of_eq hindent) hk hrest
    -- The items stand at the column of their key, where a block is open already.
    rw [Block.enter_of_eq hindent] at hleads
    have htext : (afterKey indent (.arr items)).toList ++ (spaces k ++ rest) = '\n' ::
        (spaces indent ++ ((itemsText indent true items).toList ++ (spaces k ++ rest))) := by
      rw [afterKey_arr hne, String.toList_append, itemsText_false hne]
      simp
    have hentry : entryTokens true (.arr items) = itemTokens items := by
      rw [entryTokens, isFilledList_arr hne, signTokens_arr hne]
      exact List.dropLast_concat
    rw [htext, hentry]
    exact ⟨i', line', hleads⟩

theorem lexes_obj {members : Json.Members} (hmembers : ∀ m ∈ members, Lexes m.2)
    (hne : members ≠ []) : Lexes (.obj members) := by
  have hlexes : ∀ indent, LexesEntries indent .blockMappingStart
      (membersText indent true members).toList (memberTokens members) := fun _ =>
    lexesEntries_members hmembers hne
  refine ⟨fun indent rest => ?_, ?_, ?_⟩
  · rw [afterSign_obj hne]
    exact (hlexes _).begins rest
  · intro b indent i line k rest hindent hk hrest
    rw [afterSign_obj hne, signTokens_obj hne]
    exact (hlexes _).steps_within hindent hk hrest
  · intro b indent i line column k rest hindent hcolumn hk hrest
    obtain ⟨i', line', hleads⟩ := @LexesEntries.leads i line column (indent + 2) k rest b false _ _ _
      (hlexes (indent + 2)) (by omega) (by omega) hrest
    rw [Block.close_add_enter (by omega) (by omega)] at hleads
    have htext : (afterKey indent (.obj members)).toList ++ (spaces k ++ rest) = '\n' ::
        (spaces (indent + 2) ++ ((membersText (indent + 2) true members).toList ++
          (spaces k ++ rest))) := by
      rw [afterKey_obj hne, String.toList_append, membersText_false hne]
      simp
    have hentry : entryTokens true (.obj members) = signTokens (.obj members) := rfl
    rw [htext, hentry, signTokens_obj hne]
    exact ⟨i', line', hleads⟩

theorem lexes_word {v : Json} {word : String} (hsuits : Suits .plain word.toList)
    (hsign : ∀ indent, afterSign indent v = word ++ "\n")
    (hkey : ∀ indent, afterKey indent v = " " ++ afterSign indent v)
    (htokens : signTokens v = [.scalar word .plain]) (hfilled : isFilledList v = false) :
    Lexes v := by
  refine lexes_scalar hsuits (fun indent => ?_) hkey ?_ hfilled
  · rw [hsign, String.toList_append]
    rfl
  · rw [htokens, String.ofList_toList]

/-- **A value is divided into its tokens.** -/
theorem lexes_of_nests {P : Json.Number → Prop} {depth : Nat} {v : Json} (h : Json.Nests P depth v)
    (hplain : ∀ n, P n → Suits .plain (numberText n).toList) : Lexes v := by
  induction h with
  | null =>
      exact @lexes_word _ "null" ⟨by decide, by decide⟩ (fun _ => by rw [afterSign]; rfl)
        (fun _ => by rw [afterKey, afterSign]; rfl) (by rw [signTokens]) rfl
  | bool b =>
      have hsuits : Suits .plain (Json.boolText b).toList := by
        cases b <;> exact ⟨by decide, by decide⟩
      exact lexes_word hsuits (fun _ => by rw [afterSign])
        (fun _ => by rw [afterKey, afterSign, String.append_assoc]) (by rw [signTokens]) rfl
  | num hn =>
      exact lexes_word (hplain _ hn) (fun _ => by rw [afterSign])
        (fun _ => by rw [afterKey, afterSign, String.append_assoc]) (by rw [signTokens]) rfl
  | str s =>
      exact lexes_scalar (suits_styleOf s) (fun _ => by rw [afterSign]; exact String.toList_ofList)
        (fun _ => by rw [afterKey, afterSign]) (by rw [signTokens, String.ofList_toList]) rfl
  | @arr _ items h ih =>
      by_cases hne : items = []
      · subst hne
        exact lexes_empty isPair_list (fun _ => by rw [afterSign]; rfl)
          (fun _ => by rw [afterKey, afterSign]; rfl) (by rw [signTokens]) rfl
      · exact lexes_arr ih hne
  | @obj _ members h ih =>
      by_cases hne : members = []
      · subst hne
        exact lexes_empty isPair_mapping (fun _ => by rw [afterSign]; rfl)
          (fun _ => by rw [afterKey, afterSign]; rfl) (by rw [signTokens]) rfl
      · exact lexes_obj ih hne

end StyleContract.Yaml
