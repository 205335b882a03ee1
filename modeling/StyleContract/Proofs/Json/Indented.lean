import StyleContract.Proofs.Json.RoundTrip

/-!
# Proofs — Json — Indented

A value that is printed over several lines breaks them between its parts only: a string has its line
breaks escaped. So **what follows a line break is a blank or a closing bracket** (`indented_pretty`), whatever
the strings of the value are.
-/

namespace StyleContract.Json

variable {k : Nat} {cs as bs : List Char}

/-- A character that a line can start with that is not the first one. -/
def startsInner (c : Char) : Bool := c == ' ' || c == ']' || c == '\x7d'

/-- Behind each line break there is a blank or a closing bracket. -/
def Indented (cs : List Char) : Prop :=
  ∀ pre post, cs = pre ++ '\n' :: post → post.head?.any startsInner = true

theorem indented_of_not_mem (h : '\n' ∉ cs) : Indented cs := by
  rintro pre post rfl
  exact absurd (by simp) h

theorem Indented.append (ha : Indented as) (hb : Indented bs) : Indented (as ++ bs) := by
  intro pre post h
  obtain ⟨more, rfl, hmore⟩ | ⟨more, rfl, hmore⟩ := List.append_eq_append_iff.1 h
  · exact hb more post hmore
  · cases more with
    | nil => exact hb [] post hmore.symm
    | cons c more =>
        obtain ⟨rfl, rfl⟩ := List.cons.inj hmore
        have hhead := ha pre more rfl
        cases more with
        | nil => cases hhead
        | cons d more => exact hhead

theorem indented_feed (h : '\n' ∉ cs) (hhead : cs.head?.any startsInner = true) :
    Indented ('\n' :: cs) := by
  intro pre post heq
  cases pre with
  | nil =>
      cases heq
      exact hhead
  | cons c pre =>
      rw [List.cons_append, List.cons.injEq] at heq
      exact absurd (heq.2 ▸ by simp) h

theorem indented_intercalate {sep : List Char} (hsep : Indented sep) {parts : List (List Char)}
    (h : ∀ part ∈ parts, Indented part) : Indented (sep.intercalate parts) := by
  induction parts with
  | nil => exact indented_of_not_mem List.not_mem_nil
  | cons part parts ih =>
      obtain ⟨hpart, hparts⟩ := List.forall_mem_cons.1 h
      cases parts with
      | nil => rwa [List.intercalate_singleton]
      | cons next rest =>
          rw [List.intercalate_cons_cons]
          exact (hpart.append hsep).append (ih hparts)

theorem not_mem_replicate_blank (n : Nat) : '\n' ∉ List.replicate n ' ' := fun h =>
  absurd (List.eq_of_mem_replicate h) (by decide)

theorem indented_breakText (k : Nat) : Indented (breakText (k + 1)) :=
  indented_feed (not_mem_replicate_blank _) rfl

theorem indented_breakText_append {right : Char} (hright : startsInner right = true) :
    Indented (breakText k ++ [right]) := by
  refine indented_feed (fun hmem => ?_) ?_
  · rcases List.mem_append.1 hmem with hmem | hmem
    · exact not_mem_replicate_blank _ hmem
    · rw [← List.mem_singleton.1 hmem] at hright
      cases hright
  · cases k with
    | zero => simpa using hright
    | succ k => rfl

theorem indented_block (left right : Char) {entries : List String} (hleft : left ≠ '\n')
    (hright : startsInner right = true) (h : ∀ e ∈ entries, Indented e.toList) :
    Indented (block k (String.singleton left) (String.singleton right) entries).toList := by
  have hopen : Indented [left] := indented_of_not_mem (by simpa using hleft.symm)
  rw [← List.append_nil (String.toList _)]
  by_cases hne : entries = []
  · have hclose : Indented [right] := indented_of_not_mem fun hmem => by
      rw [← List.mem_singleton.1 hmem] at hright
      cases hright
    rw [hne, toList_block_nil]
    exact hopen.append hclose
  · have hcomma : Indented [','] := indented_of_not_mem (by decide)
    have hparts : ∀ part ∈ entries.map String.toList, Indented part := by simpa using h
    rw [toList_block left right hne]
    exact hopen.append ((indented_breakText k).append
      ((indented_intercalate (hcomma.append (indented_breakText k)) hparts).append
        (indented_breakText_append hright)))

theorem not_mem_hex4 : ∀ n : Fin 32, '\n' ∉ hex4 n := by decide

theorem not_mem_escapeChar (c : Char) : '\n' ∉ escapeChar c := by
  by_cases hfeed : c = '\n'
  · rw [hfeed]
    decide
  · rw [escapeChar, if_neg hfeed]
    split_ifs with _ _ _ _ _ _ hcontrol
    · decide
    · decide
    · decide
    · decide
    · decide
    · decide
    · simpa using not_mem_hex4 ⟨c.toNat, hcontrol⟩
    · simpa using Ne.symm hfeed

theorem not_mem_quote (s : String) : '\n' ∉ (quote s).toList := by
  rw [quote, String.toList_ofList]
  simp [not_mem_escapeChar]

theorem not_mem_render (n : Number) : '\n' ∉ n.render.toList := fun h =>
  absurd (isNumberChar_of_mem_render h) (by decide)

mutual

theorem indented_prettyAt (k : Nat) : ∀ v : Json, Indented (v.prettyAt k).toList
  | .null => by
      rw [prettyAt]
      exact indented_of_not_mem (by decide)
  | .bool b => by
      rw [prettyAt]
      exact indented_of_not_mem (by cases b <;> decide)
  | .num n => by
      rw [prettyAt]
      exact indented_of_not_mem (not_mem_render n)
  | .str s => by
      rw [prettyAt]
      exact indented_of_not_mem (not_mem_quote s)
  | .arr items => by
      rw [prettyAt]
      exact indented_block '[' ']' (by decide) rfl
        (indented_prettyItems (k + 1) items)
  | .obj members => by
      rw [prettyAt]
      exact indented_block '\x7b' '\x7d' (by decide) rfl
        (indented_prettyMembers (k + 1) members)

theorem indented_prettyItems (k : Nat) :
    ∀ items : List Json, ∀ e ∈ prettyItems k items, Indented e.toList
  | [] => by
      rw [prettyItems]
      exact fun e he => (List.not_mem_nil he).elim
  | v :: vs => by
      rw [prettyItems]
      exact List.forall_mem_cons.2 ⟨indented_prettyAt k v, indented_prettyItems k vs⟩

theorem indented_prettyMembers (k : Nat) :
    ∀ members : Members, ∀ e ∈ prettyMembers k members, Indented e.toList
  | [] => by
      rw [prettyMembers]
      exact fun e he => (List.not_mem_nil he).elim
  | (key, v) :: rest => by
      rw [prettyMembers]
      refine List.forall_mem_cons.2 ⟨?_, indented_prettyMembers k rest⟩
      rw [String.toList_append, String.toList_append]
      exact ((indented_of_not_mem (not_mem_quote key)).append
        (indented_of_not_mem (by decide))).append (indented_prettyAt k v)

end

/-- **Lines of a printed value that are not the first one are indented or close a bracket.** -/
theorem indented_pretty (v : Json) : Indented v.pretty.toList := indented_prettyAt 0 v

end StyleContract.Json
