import StyleContract.Proofs.Yaml.Lexing
import StyleContract.Proofs.Yaml.Numbers

/-!
# Proofs — Yaml — Round trip

The text of a collection is divided into the collection's tokens (`tokens?_print`), which make a node
(`ofTokens?_signTokens`) that says the collection (`says_nodeOf`).

**What is printed of a collection is read as a node that says it** (`ofText?_print`), if its numbers
are read back and it does not nest deeper than texts may.
-/

namespace StyleContract.Yaml
open Json (Nests Number)
open Lexer (Begins Leads Steps spaces)
open Printer (afterSign afterKey itemsText membersText isShortKey keyText numberText styleOf textIn)

variable {P : Number → Prop} {depth indent : Nat} {v : Json} {cs : List Char}

/-! ### Characters -/

/-- Whether a document may hold a text. -/
def isWritable (s : String) : Bool := s.toList.all isAllowed

@[simp] theorem isWritable_append {s t : String} :
    isWritable (s ++ t) = (isWritable s && isWritable t) := by
  rw [isWritable, String.toList_append, List.all_append]
  rfl

theorem isWritable_textBelow (indent : Nat) (s : String) :
    isWritable (Printer.textBelow indent s) = true := by
  rw [isWritable, Printer.textBelow, String.toList_ofList]
  exact List.all_eq_true.2 ((suits_styleOf s).allowed _)

theorem isWritable_keyText (key : String) : isWritable (keyText key) = true := by
  rw [isWritable, keyText, String.toList_ofList]
  exact List.all_eq_true.2 fun c hc =>
    (suits_styleOf key).allowed 0 c (List.mem_of_mem_dropLast hc)

theorem isWritable_pad (indent : Nat) : isWritable (Printer.pad indent) = true := by
  rw [isWritable, Printer.pad, String.toList_ofList]
  exact List.all_eq_true.2 fun c hc => by
    rw [List.eq_of_mem_replicate hc]
    rfl

theorem isWritable_of_suits {s : String} (h : Suits .plain s.toList) : isWritable s = true :=
  List.all_eq_true.2 fun c hc => h.allowed 0 c (List.mem_append_left _ hc)

/-- Whether a document may hold what is printed of a value. -/
structure Writable (v : Json) : Prop where
  sign : ∀ indent, isWritable (afterSign indent v) = true
  key : ∀ indent, isWritable (afterKey indent v) = true

theorem Writable.itemsText {items : List Json} (h : ∀ v ∈ items, Writable v) (begun : Bool) :
    isWritable (itemsText indent begun items) = true := by
  induction items generalizing begun with
  | nil => rfl
  | cons v vs ih =>
      have hv : isWritable (afterSign indent v) = true := (h v List.mem_cons_self).sign indent
      have hvs : isWritable (Printer.itemsText indent false vs) = true :=
        ih (fun w hw => h w (List.mem_cons_of_mem v hw)) false
      rw [Printer.itemsText]
      cases begun <;> simp [hv, hvs, isWritable_pad] <;> decide

theorem Writable.membersText {members : Json.Members} (h : ∀ m ∈ members, Writable m.2)
    (begun : Bool) : isWritable (membersText indent begun members) = true := by
  induction members generalizing begun with
  | nil => rfl
  | cons m ms ih =>
      obtain ⟨key, v⟩ := m
      have hv : Writable v := h _ List.mem_cons_self
      have hms : isWritable (Printer.membersText indent false ms) = true :=
        ih (fun m hm => h m (List.mem_cons_of_mem _ hm)) false
      rw [Printer.membersText]
      cases begun <;> cases hshort : isShortKey key <;>
        simp [hv.sign indent, hv.key indent, hms, isWritable_pad, isWritable_keyText,
          isWritable_textBelow] <;> decide

/-- A value on the line of its key. -/
theorem writable_inline (hsign : ∀ indent, isWritable (afterSign indent v) = true)
    (hkey : ∀ indent, afterKey indent v = " " ++ afterSign indent v) : Writable v where
  sign := hsign
  key indent := by
    rw [hkey, isWritable_append, hsign, Bool.and_true]
    rfl

/-- What is printed of a value holds only characters that a document may hold. -/
theorem writable_of_nests (h : Nests P depth v)
    (hplain : ∀ n, P n → Suits .plain (numberText n).toList) : Writable v := by
  -- on the value, both for a value behind a sign and for one below its key
  induction h with
  | null =>
      exact writable_inline (fun _ => by rw [afterSign]; rfl) fun _ => by rw [afterKey, afterSign]; rfl
  | bool b =>
      refine writable_inline (fun _ => ?_) fun _ => by rw [afterKey, afterSign, String.append_assoc]
      rw [afterSign]
      cases b <;> rfl
  | num hn =>
      refine writable_inline (fun _ => ?_) fun _ => by rw [afterKey, afterSign, String.append_assoc]
      rw [afterSign, isWritable_append, isWritable_of_suits (hplain _ hn)]
      rfl
  | str s =>
      refine writable_inline (fun _ => ?_) fun _ => by rw [afterKey, afterSign]
      rw [afterSign]
      exact isWritable_textBelow _ s
  | @arr _ items h ih =>
      by_cases hne : items = []
      · subst hne
        exact writable_inline (fun _ => by rw [afterSign]; rfl) fun _ => by
          rw [afterKey, afterSign]
          rfl
      · constructor <;> intro indent
        · rw [afterSign_arr hne]
          exact Writable.itemsText ih true
        · rw [afterKey_arr hne, isWritable_append, Writable.itemsText ih]
          rfl
  | @obj _ members h ih =>
      by_cases hne : members = []
      · subst hne
        exact writable_inline (fun _ => by rw [afterSign]; rfl) fun _ => by
          rw [afterKey, afterSign]
          rfl
      · constructor <;> intro indent
        · rw [afterSign_obj hne]
          exact Writable.membersText ih true
        · rw [afterKey_obj hne, isWritable_append, Writable.membersText ih]
          rfl

/-! ### Tokens -/

/-- The beginning of a text, outside of all blocks. -/
def Block.outside : Block := ⟨[], -1, []⟩

/-- The end of a text ends its only block. -/
theorem finish_lexer {start : Token} {ts : List Token} {p : Place} {allowed : Bool} :
    (((Block.outside.enter 0 start).add ts).lexer p allowed).finish =
      some (start :: (ts ++ [.blockEnd])).toArray := by
  rw [Lexer.finish, Block.lexer, Lexer.closeBlocks_lexerAfter]
  rfl

/-- The text of some entries at the beginning of lines is divided into their tokens. -/
theorem LexesEntries.tokens?_eq {s : String} {start : Token} {ts : List Token}
    (h : LexesEntries 0 start s.toList ts) (hwritable : isWritable s = true) :
    tokens? s = some (start :: (ts ++ [.blockEnd])) := by
  have hbegins : Begins s.toList := by simpa using h.begins []
  have hmark : withoutMark s.toList = s.toList := by
    unfold withoutMark
    split
    · next heq =>
      rw [heq, Lexer.begins_cons] at hbegins
      exact absurd rfl hbegins.2.2.2.1
    · rfl
  have hoff : Block.outside.indent ≤ (0 : Nat) := by decide
  obtain ⟨i', line', hsteps⟩ := @LexesEntries.steps _ _ _ _ h .outside 0 0 0 [] hoff
    (Nat.le_refl 0) Lexer.begins_nil
  have htext : s.toList ++ (spaces 0 ++ []) = s.toList := List.append_nil _
  rw [Block.close_enter_add hoff (Nat.le_refl 0), htext] at hsteps
  have hleads : Leads (Block.outside.lexer { rest := s.toList } true)
      (((Block.outside.enter 0 start).add ts).lexer ⟨[], i', line', 0⟩ true) :=
    @Lexer.leads_spaces .outside none true 0 _ _ 0 0 0 hbegins (Lexer.isGone_none 0) hsteps
  have hrun := hleads.run_eq_finish rfl (Nat.le_succ s.toList.length)
  rw [finish_lexer] at hrun
  have hlexer : Block.outside.lexer { rest := s.toList } true = { place := { rest := s.toList } } := rfl
  have hall : s.toList.all isAllowed = true := hwritable
  simp only [tokens?, hmark, hall, if_true, ← hlexer, hrun, Option.map_some]

/-- A collection that is not empty. -/
def IsFilled : Json → Prop
  | .arr items => items ≠ []
  | .obj members => members ≠ []
  | _ => False

theorem print_arr {items : List Json} (hne : items ≠ []) :
    print (.arr items) = itemsText 0 false items := by
  obtain ⟨v, vs, rfl⟩ := List.exists_cons_of_ne_nil hne
  rfl

theorem print_obj {members : Json.Members} (hne : members ≠ []) :
    print (.obj members) = membersText 0 false members := by
  obtain ⟨m, ms, rfl⟩ := List.exists_cons_of_ne_nil hne
  rfl

/-- The text of a collection is divided into the tokens of the collection. -/
theorem tokens?_print (h : Nests P depth v) (hplain : ∀ n, P n → Suits .plain (numberText n).toList)
    (hfilled : IsFilled v) : tokens? (print v) = some (signTokens v) := by
  cases h with
  | null => exact hfilled.elim
  | bool b => exact hfilled.elim
  | num hn => exact hfilled.elim
  | str s => exact hfilled.elim
  | @arr _ items h =>
      have hne : items ≠ [] := hfilled
      have hitems : ∀ v ∈ items, Lexes v := fun v hv => lexes_of_nests (h v hv) hplain
      have hwritable : isWritable (itemsText 0 false items) = true :=
        Writable.itemsText (fun v hv => writable_of_nests (h v hv) hplain) false
      have hlexes : LexesEntries 0 .blockSequenceStart (itemsText 0 false items).toList
          (itemTokens items) := by
        rw [itemsText_false hne]
        exact lexesEntries_items hitems hne
      rw [print_arr hne, signTokens_arr hne]
      exact hlexes.tokens?_eq hwritable
  | @obj _ members h =>
      have hne : members ≠ [] := hfilled
      have hmembers : ∀ m ∈ members, Lexes m.2 := fun m hm => lexes_of_nests (h m hm) hplain
      have hwritable : isWritable (membersText 0 false members) = true :=
        Writable.membersText (fun m hm => writable_of_nests (h m hm) hplain) false
      have hlexes : LexesEntries 0 .blockMappingStart (membersText 0 false members).toList
          (memberTokens members) := by
        rw [membersText_false hne]
        exact lexesEntries_members hmembers hne
      rw [print_obj hne, signTokens_obj hne]
      exact hlexes.tokens?_eq hwritable

/-! ### Nodes -/

theorem ofTokens?_signTokens (h : Nests P depth v) (hfilled : IsFilled v) :
    Node.ofTokens? (signTokens v) = some (some (nodeOf v)) := by
  have hnode : Node.node (4 * (signTokens v).length + 8) true false ⟨signTokens v, [], []⟩ =
      some (nodeOf v, ⟨[], [], []⟩) := by
    have hread := (Node.parses_of_nests h).readAs (4 * (signTokens v).length + 8) false [] [] []
      (by omega)
    rwa [List.append_nil] at hread
  have hstart : ∃ t us, signTokens v = t :: us ∧
      (t = .blockSequenceStart ∨ t = .blockMappingStart) := by
    cases h with
    | arr h => exact ⟨_, _, signTokens_arr hfilled, .inl rfl⟩
    | obj h => exact ⟨_, _, signTokens_obj hfilled, .inr rfl⟩
    | _ => exact hfilled.elim
  obtain ⟨t, us, htokens, ht⟩ := hstart
  rw [htokens] at hnode ⊢
  rcases ht with rfl | rfl
  all_goals
    simp only [Node.ofTokens?, hnode, Option.bind_eq_bind, Option.bind_some]
    rfl

theorem depthOfItems_le {items : List Json} (h : ∀ v ∈ items, (nodeOf v).depth ≤ depth) :
    Node.depthOfItems (nodesOf items) ≤ depth := by
  induction items with
  | nil => exact Nat.zero_le _
  | cons v vs ih =>
      rw [nodesOf, Node.depthOfItems]
      exact Nat.max_le.2 ⟨h v List.mem_cons_self, ih fun w hw => h w (List.mem_cons_of_mem v hw)⟩

theorem depthOfEntries_le {members : Json.Members} (h : ∀ m ∈ members, (nodeOf m.2).depth ≤ depth) :
    Node.depthOfEntries (entriesOf members) ≤ depth := by
  induction members with
  | nil => exact Nat.zero_le _
  | cons m ms ih =>
      rw [entriesOf, Node.depthOfEntries]
      exact Nat.max_le.2 ⟨Nat.max_le.2 ⟨Nat.zero_le _, h m List.mem_cons_self⟩,
        ih fun w hw => h w (List.mem_cons_of_mem m hw)⟩

theorem depth_nodeOf_le (h : Nests P depth v) : (nodeOf v).depth ≤ depth := by
  induction h with
  | null => exact Nat.zero_le _
  | bool b => exact Nat.zero_le _
  | num h => exact Nat.zero_le _
  | str s => exact Nat.zero_le _
  | arr h ih =>
      rw [nodeOf, Node.depth, Nat.add_comm]
      exact Nat.succ_le_succ (depthOfItems_le ih)
  | obj h ih =>
      rw [nodeOf, Node.depth, Nat.add_comm]
      exact Nat.succ_le_succ (depthOfEntries_le ih)

/-- A text stands for itself in the style that it is written in. -/
theorem ofStyle_styleOf (s : String) : Core.ofStyle (styleOf s) s = .text s := by
  rw [Core.ofStyle]
  split
  · next hplain =>
    have hreads : Printer.readsOtherwise s = false := by
      unfold styleOf at hplain
      dsimp only at hplain
      split_ifs at hplain with _ _ hallowed
      simpa using (Bool.and_eq_true_iff.1 hallowed).1
    have hfits : Core.Fits s (.of s) := Core.fits_of s
    rw [Printer.readsOtherwise] at hreads
    split at hreads
    · next t ht =>
      rw [ht] at hfits ⊢
      rw [hfits.1]
    · cases hreads
  · rfl

theorem saysItems_nodesOf {items : List Json} (h : ∀ v ∈ items, (nodeOf v).Says v) :
    Node.SaysItems (nodesOf items) items := by
  induction items with
  | nil => rw [nodesOf, Node.SaysItems]
  | cons v vs ih =>
      rw [nodesOf, Node.SaysItems]
      exact ⟨_, _, rfl, h v List.mem_cons_self, ih fun w hw => h w (List.mem_cons_of_mem v hw)⟩

theorem saysEntries_entriesOf {members : Json.Members} (h : ∀ m ∈ members, (nodeOf m.2).Says m.2) :
    Node.SaysEntries (entriesOf members) members := by
  induction members with
  | nil => rw [entriesOf, Node.SaysEntries]
  | cons m ms ih =>
      rw [entriesOf, Node.SaysEntries]
      exact ⟨_, _, _, rfl, ⟨_, rfl⟩, h m List.mem_cons_self,
        ih fun w hw => h w (List.mem_cons_of_mem m hw)⟩

/-- The node of a value says the value. -/
theorem says_nodeOf (h : Nests ReadsBack depth v) : (nodeOf v).Says v := by
  induction h with
  | null => exact ⟨_, _, by rw [nodeOf], by decide⟩
  | bool b => exact ⟨_, _, by rw [nodeOf], by cases b <;> decide⟩
  | @num _ n hn =>
      have hleaf : (nodeOf (.num n)).SaysLeaf (.ofNumber n) :=
        ⟨.plain, _, by rw [nodeOf], of_numberText hn⟩
      cases n <;> exact hleaf
  | str s => exact ⟨_, _, by rw [nodeOf], ofStyle_styleOf s⟩
  | arr h ih =>
      rw [nodeOf, Node.Says]
      exact ⟨_, rfl, saysItems_nodesOf ih⟩
  | obj h ih =>
      rw [nodeOf, Node.Says]
      exact ⟨_, rfl, saysEntries_entriesOf ih⟩

/-- **What is printed of a collection is read as a node that says it.** -/
theorem ofText?_print (h : Nests ReadsBack depth v) (hdepth : depth ≤ Node.maxDepth)
    (hfilled : IsFilled v) : ∃ n, Node.ofText? (print v) = some (some n) ∧ n.Says v := by
  refine ⟨nodeOf v, ?_, says_nodeOf h⟩
  have hle : (nodeOf v).depth ≤ Node.maxDepth := Nat.le_trans (depth_nodeOf_le h) hdepth
  rw [Node.ofText?, tokens?_print h (fun _ => suits_numberText) hfilled, Option.bind_eq_bind,
    Option.bind_some, ofTokens?_signTokens h hfilled]
  simp [hle]

end StyleContract.Yaml
