import StyleContract.Proofs.Json.Containers

/-!
# Proofs — Json — Round trip

A value is read back from its text over several lines (`ReadAs`): its container's elements are written one
after the other, each as it is read (`ReadAs.writes`, `writes_memberText`), by induction over its levels
(`Nests.readAs`).

**What is printed is read back** (`readRaw_pretty`), if its numbers are and it does not nest deeper
than texts may.
-/

namespace StyleContract.Json

variable {depth : Nat} {c : Char} {cs rest : List Char}

/-! ### What is read in front of anything -/

/-- A text is read as a value in front of whatever closes it. -/
def ReadAs (depth : Nat) (text : List Char) (v : Json) : Prop :=
  ∀ rest, Closes rest → value depth (text ++ rest) = .ok (v, rest)

theorem ReadAs.writes {text : List Char} {v : Json} (h : ReadAs depth text v) :
    Writes (value depth) text v := by
  intro rest hrest
  refine ⟨[], List.forall_mem_nil _, ?_⟩
  rw [value_skipSpace]
  exact h rest hrest

theorem readAs_of_word {text : List Char} {v : Json}
    (h : ∀ inner rest, valueWith inner (text ++ rest) = .ok (v, rest)) : ReadAs depth text v := by
  intro rest _
  obtain ⟨inner, hinner⟩ := value_eq depth
  rw [hinner, h]

theorem readAs_quote (s : String) : ReadAs depth (quote s).toList (.str s) := by
  intro rest _
  obtain ⟨inner, hinner⟩ := value_eq depth
  have hbody : stringBody (s.toList.flatMap escapeChar ++ '"' :: rest) = .ok (s.toList, rest) :=
    stringBody_escaped s.toList
  rw [hinner, quote, String.toList_ofList, List.cons_append, List.cons_append, List.append_assoc]
  have hvalue : valueWith inner ('"' :: (s.toList.flatMap escapeChar ++ '"' :: rest)) =
      (stringBody (s.toList.flatMap escapeChar ++ '"' :: rest)).map
        fun r => (.str (String.ofList r.1), r.2) := rfl
  rw [List.singleton_append, hvalue, hbody]
  exact congrArg (fun text => Except.ok (Json.str text, rest)) String.ofList_toList

/-! ### Containers as they are printed -/

section

variable {k : Nat}

/-- The text of a member. -/
def memberText (k : Nat) (m : String × Json) : List Char :=
  (quote m.1 ++ ": " ++ m.2.prettyAt k).toList

theorem memberText_eq {m : String × Json} :
    memberText k m ++ cs = '"' :: (m.1.toList.flatMap escapeChar ++
      '"' :: ':' :: ' ' :: ((m.2.prettyAt k).toList ++ cs)) := by
  simp [memberText, quote]

theorem writes_memberText {m : String × Json} (h : ReadAs depth (m.2.prettyAt k).toList m.2) :
    Writes (memberBody (value depth)) (memberText k m) m := by
  intro rest hrest
  have hvalue : value depth (' ' :: ((m.2.prettyAt k).toList ++ rest)) = .ok (m.2, rest) := by
    rw [value_blank, h rest hrest]
  refine ⟨[], List.forall_mem_nil _, ?_⟩
  rw [memberText_eq, skipSpace_of_not_isSpace rfl]
  exact memberBody_eq_ok_iff.2
    ⟨_, m.1.toList, _, _, rfl, stringBody_escaped _, rfl, hvalue, String.ofList_toList.symm⟩

/-- A line break and the blanks before an entry. -/
def breakText (k : Nat) : List Char := '\n' :: List.replicate (2 * k) ' '

theorem isSpace_of_mem_breakText (h : c ∈ breakText k) : isSpace c = true := by
  rcases List.mem_cons.1 h with rfl | h
  · rfl
  · rw [List.eq_of_mem_replicate h]
    rfl

theorem toList_block (left right : Char) {entries : List String} (hne : entries ≠ []) :
    (block k (String.singleton left) (String.singleton right) entries).toList ++ rest =
      left :: (breakText (k + 1) ++ ((',' :: breakText (k + 1)).intercalate
        (entries.map String.toList) ++ (breakText k ++ right :: rest))) := by
  rw [block, if_neg (by simpa using hne)]
  simp [breakText, indentation, String.toList_intercalate]

theorem toList_block_nil (left right : Char) :
    (block k (String.singleton left) (String.singleton right) []).toList ++ rest =
      left :: right :: rest := by
  simp [block]

theorem prettyItems_eq (items : List Json) : prettyItems k items = items.map (prettyAt k) := by
  induction items with
  | nil => rfl
  | cons v vs ih => rw [prettyItems, ih, List.map_cons]

theorem prettyMembers_eq (members : Members) :
    prettyMembers k members = members.map fun m => quote m.1 ++ ": " ++ m.2.prettyAt k := by
  induction members with
  | nil => rfl
  | cons m ms ih => rw [prettyMembers, ih, List.map_cons]

end

/-! ### Values -/

/-- A value is read back wherever it is printed. -/
theorem Nests.readAs {v : Json} (h : Nests Number.ReadsBack depth v) (k : Nat) :
    ReadAs depth (v.prettyAt k).toList v := by
  -- the indentation grows with each level, while the depth that is allowed shrinks
  induction h generalizing k with
  | null =>
      rw [prettyAt]
      exact readAs_of_word fun _ _ => rfl
  | bool b =>
      rw [prettyAt]
      cases b with
      | true => exact readAs_of_word fun _ _ => rfl
      | false => exact readAs_of_word fun _ _ => rfl
  | num h =>
      rw [prettyAt]
      exact fun rest hrest => value_number h hrest
  | str s =>
      rw [prettyAt]
      exact readAs_quote s
  | @arr depth items h ih =>
      rw [prettyAt, prettyItems_eq]
      intro rest _
      by_cases hne : items = []
      · subst hne
        exact congrArg (value (depth + 1)) (toList_block_nil '[' ']')
      · refine (congrArg (value (depth + 1)) (toList_block '[' ']' (by simpa using hne))).trans ?_
        rw [List.map_map]
        have htexts : List.Forall₂ (Writes (value depth))
            (items.map (String.toList ∘ prettyAt (k + 1))) items :=
          List.forall₂_map_left_iff.2 (List.forall₂_same.2 fun v hv => (ih v hv (k + 1)).writes)
        exact (encloses_list depth).whole_written rest (fun _ => isSpace_of_mem_breakText)
          (fun _ => isSpace_of_mem_breakText) (by simpa using hne) htexts
  | @obj depth members h ih =>
      rw [prettyAt, prettyMembers_eq]
      intro rest _
      by_cases hne : members = []
      · subst hne
        exact congrArg (value (depth + 1)) (toList_block_nil '\x7b' '\x7d')
      · refine (congrArg (value (depth + 1))
          (toList_block '\x7b' '\x7d' (by simpa using hne))).trans ?_
        rw [List.map_map]
        have htexts : List.Forall₂ (Writes (memberBody (value depth)))
            (members.map (memberText (k + 1))) members :=
          List.forall₂_map_left_iff.2
            (List.forall₂_same.2 fun m hm => writes_memberText (ih m hm (k + 1)))
        exact (encloses_object (value depth)).whole_written rest (fun _ => isSpace_of_mem_breakText)
          (fun _ => isSpace_of_mem_breakText) (by simpa using hne) htexts

/-- **What is printed is read back.** -/
theorem readRaw_pretty {v : Json} (h : Nests Number.ReadsBack maxDepth v) :
    readRaw (v.pretty ++ "\n") = .ok v := by
  refine readRaw_eq_ok_iff.2 ⟨['\n'], List.forall_mem_singleton.2 rfl, ?_⟩
  rw [pretty, String.toList_append]
  exact h.readAs 0 ['\n'] rfl

end StyleContract.Json
