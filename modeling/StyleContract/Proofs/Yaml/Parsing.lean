import StyleContract.Proofs.Document.YamlReading
import StyleContract.Proofs.Json.RoundTrip
import StyleContract.Yaml.Printer

/-!
# Proofs — Yaml — Parsing

The tokens of a value that is printed, and the node that they make. A list whose key is on a line
of its own opens no block (`memberTokens`), so the parser finds its items hanging there.

**Tokens make the node of their value** (`parses_of_nests`).
-/

namespace StyleContract.Yaml
open Json (Nests Number)

/-- Whether a value is a list with items. -/
def isFilledList : Json → Bool
  | .arr (_ :: _) => true
  | _ => false

mutual

/-- The tokens of a value after the sign of an item. -/
def signTokens : Json → List Token
  | .null => [.scalar "null" .plain]
  | .bool b => [.scalar (Json.boolText b) .plain]
  | .num n => [.scalar (Printer.numberText n) .plain]
  | .str s => [.scalar s (Printer.styleOf s)]
  | .arr [] => [.flowSequenceStart, .flowSequenceEnd]
  | .arr (v :: vs) => .blockSequenceStart :: (itemTokens (v :: vs) ++ [.blockEnd])
  | .obj [] => [.flowMappingStart, .flowMappingEnd]
  | .obj (m :: ms) => .blockMappingStart :: (memberTokens (m :: ms) ++ [.blockEnd])

def itemTokens : List Json → List Token
  | [] => []
  | v :: vs => .blockEntry :: (signTokens v ++ itemTokens vs)

/-- The tokens of the entries of a mapping. A list below a short key has no block of its own. -/
def memberTokens : List (String × Json) → List Token
  | [] => []
  | (k, v) :: rest =>
    .key :: .scalar k (Printer.styleOf k) :: .value ::
      ((if Printer.isShortKey k && isFilledList v then (signTokens v).tail.dropLast
        else signTokens v) ++ memberTokens rest)

end

mutual

/-- The node that a printed value is read as. -/
def nodeOf : Json → Node
  | .null => .scalar none .plain "null"
  | .bool b => .scalar none .plain (Json.boolText b)
  | .num n => .scalar none .plain (Printer.numberText n)
  | .str s => .scalar none (Printer.styleOf s) s
  | .arr items => .sequence none (nodesOf items)
  | .obj members => .mapping none (entriesOf members)

def nodesOf : List Json → List Node
  | [] => []
  | v :: vs => nodeOf v :: nodesOf vs

def entriesOf : List (String × Json) → List (Node × Node)
  | [] => []
  | (k, v) :: rest => (.scalar none (Printer.styleOf k) k, nodeOf v) :: entriesOf rest

end

namespace Node

variable {P : Number → Prop} {depth fuel : Nat} {block hanging : Bool} {ts rest : List Token}
  {hs : List (String × String)} {as : List (String × Node)}

/-! ### One node -/

theorem node_scalar {text : String} {style : Style} :
    node (fuel + 1) block hanging ⟨.scalar text style :: rest, hs, as⟩ =
      some (.scalar none style text, ⟨rest, hs, as⟩) := rfl

theorem node_flowSequence :
    node (fuel + 2) block hanging ⟨.flowSequenceStart :: .flowSequenceEnd :: rest, hs, as⟩ =
      some (.sequence none [], ⟨rest, hs, as⟩) := rfl

theorem node_flowMapping :
    node (fuel + 2) block hanging ⟨.flowMappingStart :: .flowMappingEnd :: rest, hs, as⟩ =
      some (.mapping none [], ⟨rest, hs, as⟩) := rfl

theorem node_blockSequence :
    node (fuel + 1) true hanging ⟨.blockSequenceStart :: ts, hs, as⟩ =
      (blockItems fuel ⟨ts, hs, as⟩).map fun r => (.sequence none r.1, r.2) := by
  cases h : blockItems fuel ⟨ts, hs, as⟩ <;>
    simp [node, State.head?, State.next, properties?, takeAnchor, takeTag, sayingTag,
      State.undefine, State.define, h]

theorem node_blockMapping :
    node (fuel + 1) true hanging ⟨.blockMappingStart :: ts, hs, as⟩ =
      (blockEntries fuel ⟨ts, hs, as⟩).map fun r => (.mapping none r.1, r.2) := by
  cases h : blockEntries fuel ⟨ts, hs, as⟩ <;>
    simp [node, State.head?, State.next, properties?, takeAnchor, takeTag, sayingTag,
      State.undefine, State.define, h]

theorem node_hanging :
    node (fuel + 1) block true ⟨.blockEntry :: ts, hs, as⟩ =
      (hangingItems fuel ⟨.blockEntry :: ts, hs, as⟩).map fun r => (.sequence none r.1, r.2) := by
  cases h : hangingItems fuel ⟨.blockEntry :: ts, hs, as⟩ <;>
    simp [node, State.head?, properties?, takeAnchor, takeTag, sayingTag, State.undefine,
      State.define, h]

/-! ### What begins a value -/

/-- The tokens that end something in a block. -/
def stops : List Token := [.blockEntry, .key, .value, .blockEnd]

theorem exists_signTokens_eq (v : Json) : ∃ t us, signTokens v = t :: us ∧ t ∉ stops := by
  cases v with
  | null => exact ⟨_, [], by rw [signTokens], by simp [stops]⟩
  | bool b => exact ⟨_, [], by rw [signTokens], by simp [stops]⟩
  | num n => exact ⟨_, [], by rw [signTokens], by simp [stops]⟩
  | str s => exact ⟨_, [], by rw [signTokens], by simp [stops]⟩
  | arr items =>
      cases items with
      | nil => exact ⟨_, _, by rw [signTokens], by simp [stops]⟩
      | cons v vs => exact ⟨_, _, by rw [signTokens], by simp [stops]⟩
  | obj members =>
      cases members with
      | nil => exact ⟨_, _, by rw [signTokens], by simp [stops]⟩
      | cons m ms => exact ⟨_, _, by rw [signTokens], by simp [stops]⟩

/-- Where a value begins, a node is not left out. -/
theorem nodeUnless_signTokens {v : Json} {tokens : List Token} (htokens : tokens ⊆ stops) :
    nodeUnless (fuel + 1) tokens block hanging ⟨signTokens v ++ rest, hs, as⟩ =
      node fuel block hanging ⟨signTokens v ++ rest, hs, as⟩ := by
  obtain ⟨t, us, heq, ht⟩ := exists_signTokens_eq v
  have hnot : isOneOf (State.mk (signTokens v ++ rest) hs as).head? tokens = false := by
    rw [heq]
    have hmem : t ∉ tokens := fun hmem => ht (htokens hmem)
    simpa [isOneOf, State.head?] using hmem
  rw [nodeUnless, hnot]
  rfl

/-! ### Collections -/

/-- A value is read as its node from its tokens. -/
def ReadAs (v : Json) : Prop :=
  ∀ fuel hanging rest hs as, 2 * (signTokens v).length ≤ fuel →
    node fuel true hanging ⟨signTokens v ++ rest, hs, as⟩ = some (nodeOf v, ⟨rest, hs, as⟩)

theorem blockItems_entry :
    blockItems (fuel + 1) ⟨.blockEntry :: ts, hs, as⟩ =
      (nodeUnless fuel [.blockEntry, .blockEnd] true false ⟨ts, hs, as⟩).bind fun n =>
        (blockItems fuel n.2).bind fun ns => some (n.1 :: ns.1, ns.2) := rfl

theorem hangingItems_entry :
    hangingItems (fuel + 1) ⟨.blockEntry :: ts, hs, as⟩ =
      (nodeUnless fuel [.blockEntry, .key, .value, .blockEnd] true false ⟨ts, hs, as⟩).bind
        fun n => (hangingItems fuel n.2).bind fun ns => some (n.1 :: ns.1, ns.2) := rfl

theorem blockItems_itemTokens {items : List Json} (hitems : ∀ v ∈ items, ReadAs v)
    (hfuel : 2 * (itemTokens items).length + 1 ≤ fuel) :
    blockItems fuel ⟨itemTokens items ++ .blockEnd :: rest, hs, as⟩ =
      some (nodesOf items, ⟨rest, hs, as⟩) := by
  induction items generalizing fuel with
  | nil =>
      obtain ⟨fuel, rfl⟩ := Nat.exists_eq_add_of_le' hfuel
      rfl
  | cons v vs ih =>
      rw [itemTokens, List.length_cons, List.length_append] at hfuel
      obtain ⟨fuel, rfl⟩ : ∃ n, fuel = n + 2 := Nat.exists_eq_add_of_le' (by omega)
      have hv : node fuel true false ⟨signTokens v ++ (itemTokens vs ++ .blockEnd :: rest), hs, as⟩ =
          some (nodeOf v, ⟨itemTokens vs ++ .blockEnd :: rest, hs, as⟩) :=
        hitems v List.mem_cons_self fuel false _ hs as (by omega)
      have hvs : blockItems (fuel + 1) ⟨itemTokens vs ++ .blockEnd :: rest, hs, as⟩ =
          some (nodesOf vs, ⟨rest, hs, as⟩) :=
        ih (fun v hv => hitems v (List.mem_cons_of_mem _ hv)) (by omega)
      rw [itemTokens, List.cons_append, List.append_assoc, nodesOf, blockItems_entry,
        nodeUnless_signTokens (by simp [stops]), hv, Option.bind_some, hvs, Option.bind_some]

theorem hangingItems_itemTokens {items : List Json} (hitems : ∀ v ∈ items, ReadAs v)
    (hrest : rest.head? ≠ some .blockEntry) (hfuel : 2 * (itemTokens items).length + 1 ≤ fuel) :
    hangingItems fuel ⟨itemTokens items ++ rest, hs, as⟩ =
      some (nodesOf items, ⟨rest, hs, as⟩) := by
  induction items generalizing fuel with
  | nil =>
      obtain ⟨fuel, rfl⟩ := Nat.exists_eq_add_of_le' hfuel
      simp only [hangingItems, State.head?, itemTokens, List.nil_append, nodesOf]
  | cons v vs ih =>
      rw [itemTokens, List.length_cons, List.length_append] at hfuel
      obtain ⟨fuel, rfl⟩ : ∃ n, fuel = n + 2 := Nat.exists_eq_add_of_le' (by omega)
      have hv : node fuel true false ⟨signTokens v ++ (itemTokens vs ++ rest), hs, as⟩ =
          some (nodeOf v, ⟨itemTokens vs ++ rest, hs, as⟩) :=
        hitems v List.mem_cons_self fuel false _ hs as (by omega)
      have hvs : hangingItems (fuel + 1) ⟨itemTokens vs ++ rest, hs, as⟩ =
          some (nodesOf vs, ⟨rest, hs, as⟩) :=
        ih (fun v hv => hitems v (List.mem_cons_of_mem _ hv)) (by omega)
      rw [itemTokens, List.cons_append, List.append_assoc, nodesOf, hangingItems_entry,
        nodeUnless_signTokens (by simp [stops]), hv, Option.bind_some, hvs, Option.bind_some]

theorem blockEntries_key :
    blockEntries (fuel + 1) ⟨.key :: ts, hs, as⟩ =
      (nodeUnless fuel [.key, .value, .blockEnd] true true ⟨ts, hs, as⟩).bind fun k =>
        (blockValue fuel k.2).bind fun v =>
          (blockEntries fuel v.2).bind fun es => some ((k.1, v.1) :: es.1, es.2) := rfl

theorem blockValue_value :
    blockValue (fuel + 1) ⟨.value :: ts, hs, as⟩ =
      nodeUnless fuel [.key, .value, .blockEnd] true true ⟨ts, hs, as⟩ := rfl

theorem nodeUnless_scalar {text : String} {style : Style} {tokens : List Token}
    (htokens : tokens ⊆ stops) :
    nodeUnless (fuel + 2) tokens block hanging ⟨.scalar text style :: rest, hs, as⟩ =
      some (.scalar none style text, ⟨rest, hs, as⟩) := by
  have hmem : Token.scalar text style ∉ tokens := fun hmem => by
    have hstop : Token.scalar text style ∈ stops := htokens hmem
    simp [stops] at hstop
  have hnot : isOneOf (State.mk (.scalar text style :: rest) hs as).head? tokens = false := by
    simpa [isOneOf, State.head?] using hmem
  rw [nodeUnless, hnot]
  exact node_scalar

/-- Items that hang below a key are the node of their list. -/
theorem nodeUnless_hanging {items : List Json} (hne : items ≠ []) (hitems : ∀ v ∈ items, ReadAs v)
    (hrest : rest.head? ≠ some .blockEntry) (hfuel : 2 * (itemTokens items).length + 3 ≤ fuel) :
    nodeUnless fuel [.key, .value, .blockEnd] true true ⟨itemTokens items ++ rest, hs, as⟩ =
      some (nodeOf (.arr items), ⟨rest, hs, as⟩) := by
  obtain ⟨fuel, rfl⟩ : ∃ n, fuel = n + 2 := Nat.exists_eq_add_of_le' (by omega)
  obtain ⟨us, hus⟩ : ∃ us, itemTokens items ++ rest = .blockEntry :: us := by
    cases items with
    | nil => exact absurd rfl hne
    | cons v vs => exact ⟨_, by rw [itemTokens, List.cons_append]⟩
  have hhanging := @hangingItems_itemTokens fuel rest hs as items hitems hrest (by omega)
  rw [hus] at hhanging ⊢
  have hnode : nodeUnless (fuel + 2) [.key, .value, .blockEnd] true true
      ⟨.blockEntry :: us, hs, as⟩ = node (fuel + 1) true true ⟨.blockEntry :: us, hs, as⟩ := rfl
  rw [hnode, node_hanging, hhanging, nodeOf]
  rfl

/-- The tokens of a value in an entry with a key of a kind. -/
def entryTokens (short : Bool) (v : Json) : List Token :=
  if short && isFilledList v then (signTokens v).tail.dropLast else signTokens v

theorem memberTokens_cons {key : String} {v : Json} {members : Json.Members} :
    memberTokens ((key, v) :: members) =
      .key :: .scalar key (Printer.styleOf key) :: .value ::
        (entryTokens (Printer.isShortKey key) v ++ memberTokens members) := by
  rw [memberTokens, entryTokens]

/-- A value is read as its node behind a sign and behind any key. -/
structure Parses (v : Json) : Prop where
  readAs : ReadAs v
  items : ∀ items, v = .arr items → ∀ w ∈ items, ReadAs w

theorem nodeUnless_entryTokens {short : Bool} {v : Json} (h : Parses v)
    (hrest : rest.head? ≠ some .blockEntry)
    (hfuel : 2 * (entryTokens short v).length + 3 ≤ fuel) :
    nodeUnless fuel [.key, .value, .blockEnd] true true ⟨entryTokens short v ++ rest, hs, as⟩ =
      some (nodeOf v, ⟨rest, hs, as⟩) := by
  by_cases hlist : (short && isFilledList v) = true
  · have hfilled : isFilledList v = true := (Bool.and_eq_true_iff.1 hlist).2
    unfold isFilledList at hfilled
    split at hfilled
    · next w ws =>
      have htokens : entryTokens short (.arr (w :: ws)) = itemTokens (w :: ws) := by
        rw [entryTokens, if_pos hlist, signTokens, List.tail_cons, List.dropLast_concat]
      rw [htokens] at hfuel ⊢
      exact nodeUnless_hanging (List.cons_ne_nil w ws) (h.items _ rfl) hrest hfuel
    · cases hfilled
  · have htokens : entryTokens short v = signTokens v := if_neg hlist
    rw [htokens] at hfuel ⊢
    obtain ⟨fuel, rfl⟩ : ∃ n, fuel = n + 1 := Nat.exists_eq_add_of_le' (by omega)
    rw [nodeUnless_signTokens (by simp [stops])]
    exact h.readAs fuel true rest hs as (by omega)

theorem blockEntries_memberTokens {members : Json.Members}
    (hmembers : ∀ m ∈ members, Parses m.2)
    (hfuel : 2 * (memberTokens members).length + 1 ≤ fuel) :
    blockEntries fuel ⟨memberTokens members ++ .blockEnd :: rest, hs, as⟩ =
      some (entriesOf members, ⟨rest, hs, as⟩) := by
  induction members generalizing fuel with
  | nil =>
      obtain ⟨fuel, rfl⟩ := Nat.exists_eq_add_of_le' hfuel
      rfl
  | cons m ms ih =>
      obtain ⟨key, v⟩ := m
      rw [memberTokens_cons] at hfuel ⊢
      simp only [List.length_cons, List.length_append] at hfuel
      obtain ⟨fuel, rfl⟩ : ∃ n, fuel = n + 3 := Nat.exists_eq_add_of_le' (by omega)
      -- a list that hangs below this key ends here, since no item can follow
      have hrest : (memberTokens ms ++ .blockEnd :: rest).head? ≠ some .blockEntry := by
        cases ms with
        | nil => rw [memberTokens]; simp
        | cons m ms => rw [memberTokens_cons]; simp
      have hv : nodeUnless (fuel + 1) [.key, .value, .blockEnd] true true
          ⟨entryTokens (Printer.isShortKey key) v ++ (memberTokens ms ++ .blockEnd :: rest), hs, as⟩ =
          some (nodeOf v, ⟨memberTokens ms ++ .blockEnd :: rest, hs, as⟩) :=
        nodeUnless_entryTokens (hmembers _ List.mem_cons_self) hrest (by omega)
      have hms : blockEntries (fuel + 2) ⟨memberTokens ms ++ .blockEnd :: rest, hs, as⟩ =
          some (entriesOf ms, ⟨rest, hs, as⟩) :=
        ih (fun m hm => hmembers m (List.mem_cons_of_mem _ hm)) (by omega)
      simp only [List.cons_append, List.append_assoc]
      rw [blockEntries_key, nodeUnless_scalar (by simp [stops]), Option.bind_some,
        blockValue_value, hv, Option.bind_some, hms, entriesOf]
      rfl

/-! ### Values -/

theorem parses_scalar {v : Json} {text : String} {style : Style}
    (htokens : signTokens v = [.scalar text style]) (hnode : nodeOf v = .scalar none style text) :
    Parses v := by
  constructor
  · intro fuel hanging rest hs as hfuel
    rw [htokens] at hfuel ⊢
    obtain ⟨fuel, rfl⟩ : ∃ n, fuel = n + 1 := Nat.exists_eq_add_of_le' (Nat.le_of_succ_le hfuel)
    rw [hnode]
    exact node_scalar
  · rintro items rfl
    rw [nodeOf] at hnode
    cases hnode

theorem readAs_arr {items : List Json} (hitems : ∀ w ∈ items, ReadAs w) : ReadAs (.arr items) := by
  intro fuel hanging rest hs as hfuel
  cases items with
  | nil =>
      rw [signTokens] at hfuel ⊢
      obtain ⟨fuel, rfl⟩ : ∃ n, fuel = n + 2 := Nat.exists_eq_add_of_le' (Nat.le_of_succ_le
        (Nat.le_of_succ_le hfuel))
      rw [nodeOf]
      exact node_flowSequence
  | cons w ws =>
      rw [signTokens] at hfuel ⊢
      simp only [List.length_cons, List.length_append] at hfuel
      obtain ⟨fuel, rfl⟩ : ∃ n, fuel = n + 1 := Nat.exists_eq_add_of_le' (by omega)
      rw [List.cons_append, List.append_assoc, node_blockSequence, List.singleton_append,
        blockItems_itemTokens hitems (by omega), nodeOf]
      rfl

theorem readAs_obj {members : Json.Members} (hmembers : ∀ m ∈ members, Parses m.2) :
    ReadAs (.obj members) := by
  intro fuel hanging rest hs as hfuel
  cases members with
  | nil =>
      rw [signTokens] at hfuel ⊢
      obtain ⟨fuel, rfl⟩ : ∃ n, fuel = n + 2 := Nat.exists_eq_add_of_le' (Nat.le_of_succ_le
        (Nat.le_of_succ_le hfuel))
      rw [nodeOf]
      exact node_flowMapping
  | cons m ms =>
      rw [signTokens] at hfuel ⊢
      simp only [List.length_cons, List.length_append] at hfuel
      obtain ⟨fuel, rfl⟩ : ∃ n, fuel = n + 1 := Nat.exists_eq_add_of_le' (by omega)
      rw [List.cons_append, List.append_assoc, node_blockMapping, List.singleton_append,
        blockEntries_memberTokens hmembers (by omega), nodeOf]
      rfl

/-- **Tokens make the node of their value.** -/
theorem parses_of_nests {v : Json} (h : Nests P depth v) : Parses v := by
  -- a list below a key has no tokens around its items, so the items must be known as well
  induction h with
  | null => exact parses_scalar (by rw [signTokens]) (by rw [nodeOf])
  | bool b => exact parses_scalar (by rw [signTokens]) (by rw [nodeOf])
  | num h => exact parses_scalar (by rw [signTokens]) (by rw [nodeOf])
  | str s => exact parses_scalar (by rw [signTokens]) (by rw [nodeOf])
  | arr h ih =>
      refine ⟨readAs_arr fun w hw => (ih w hw).readAs, ?_⟩
      rintro items ⟨⟩ w hw
      exact (ih w hw).readAs
  | obj h ih => exact ⟨readAs_obj ih, fun _ => nofun⟩

end Node

end StyleContract.Yaml
