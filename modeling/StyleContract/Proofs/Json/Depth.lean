import StyleContract.Proofs.Json.Merged
import StyleContract.Proofs.Json.RoundTrip

/-!
# Proofs — Json — Depth

What was read does not nest deeper than texts may (`nests_of_readRaw`): a part of a container is read with
one level less, by induction over the levels. Nesting is told of each part alone, so it outlives merging
(`Nests.merged`), and what is asked of the numbers can be added to it (`Nests.within`).

So **a document is read back from its text over several lines**, if its numbers are and no object has a
name twice (`read_pretty`).

A text that is read as a value by itself is read as that value inside an object. A list and an object end
with their brackets, so nothing depends on what follows them if nothing does for their parts; by induction
over the levels, **a value is read alike in front of whatever closes it**, within as few levels as it has
itself (`carries_value`). An object's text is made of its members' (`objectText`), with blanks and names as they
may be written; if each of them is read by itself, **the object is read as all of them** (`readRaw_objectText`).
-/

namespace StyleContract.Json

variable {depth k : Nat} {item : Reader Json} {v : Json} {members : Members} {m : String × Json}
  {P Q : Number → Prop}

theorem Nests.mono (h : Nests P depth v) (hk : depth ≤ k) : Nests P k v := by
  induction h generalizing k with
  | null => exact .null
  | bool b => exact .bool b
  | num h => exact .num h
  | str s => exact .str s
  | arr h ih =>
      obtain ⟨k, rfl⟩ := Nat.exists_eq_add_of_le' hk
      exact .arr fun v hv => ih v hv (Nat.le_add_left _ k)
  | obj h ih =>
      obtain ⟨k, rfl⟩ := Nat.exists_eq_add_of_le' hk
      exact .obj fun m hm => ih m hm (Nat.le_add_left _ k)

/-! ### What is read -/

/-- Whatever is read as a value has a property. -/
def Reads (item : Reader Json) (holds : Json → Prop) : Prop :=
  ∀ cs v rest, item cs = .ok (v, rest) → holds v

theorem Reads.member {holds : Json → Prop} (hitem : Reads item holds) (cs : List Char)
    (m : String × Json) (rest : List Char) (h : memberBody item cs = .ok (m, rest)) : holds m.2 := by
  obtain ⟨_, _, _, _, -, -, -, hvalue, -⟩ := memberBody_eq_ok_iff.1 h
  exact hitem _ _ _ hvalue

/-- **A value that is read within some levels** has no more of them. -/
theorem nests_of_value (depth : Nat) : Reads (value depth) (Nests (fun _ => True) depth) := by
  induction depth using Nat.strongRecOn with
  | ind depth ih =>
      intro cs v rest h
      obtain ⟨_, _, -, ⟨d, _, rfl, -, rfl, hlist⟩ | ⟨d, _, rfl, -, rfl, hobject⟩ | ⟨_, -, hleaf, -⟩⟩ :=
        value_cases h
      · exact .arr ((encloses_list d).forall_mem_whole (ih d d.lt_succ_self) hlist)
      · exact .obj ((encloses_object (value d)).forall_mem_whole (ih d d.lt_succ_self).member hobject)
      · exact hleaf.mono (Nat.zero_le depth)

theorem nests_of_readRaw {s : String} (h : readRaw s = .ok v) :
    Nests (fun _ => True) maxDepth v := by
  obtain ⟨_, -, hvalue⟩ := readRaw_eq_ok_iff.1 h
  exact nests_of_value _ _ _ _ hvalue

/-! ### What nests -/

/-- A value with a bound on its levels, and with a property of its numbers, has both at once. -/
theorem Nests.within {k : Nat} (h : Nests P k v) (hdepth : Nests Q depth v) : Nests P depth v := by
  induction h generalizing depth with
  | null => exact .null
  | bool b => exact .bool b
  | num h => exact .num h
  | str s => exact .str s
  | arr h ih =>
      cases hdepth with
      | arr hdepth => exact .arr fun v hv => ih v hv (hdepth v hv)
  | obj h ih =>
      cases hdepth with
      | obj hdepth => exact .obj fun m hm => ih m hm (hdepth m hm)

theorem Nests.merged (h : Nests P depth v) : Nests P depth v.merged := by
  induction h with
  | null => exact .null
  | bool b => exact .bool b
  | num h => exact .num h
  | str s => exact .str s
  | arr h ih =>
      rw [Json.merged, mergedItems_eq]
      exact .arr (List.forall_mem_map.2 ih)
  | obj h ih =>
      rw [Json.merged, mergedMembers_eq]
      refine .obj fun m hm => ?_
      obtain ⟨m', hm', heq⟩ := Members.exists_of_mem_merged hm
      obtain ⟨n, hn, rfl⟩ := List.mem_map.1 hm'
      exact heq ▸ ih n hn

theorem Nests.put {name : String} (hvalue : Nests P depth v)
    (h : Nests P (depth + 1) (.obj members)) :
    Nests P (depth + 1) (.obj (members.put name v)) := by
  cases h with
  | obj h =>
      refine .obj fun m hm => ?_
      rcases Members.exists_of_mem_put hm with heq | hm
      · exact heq ▸ hvalue
      · exact h m hm

/-- Every number of a value is read from its text as itself. -/
def NumbersReadBack (v : Json) : Prop := ∃ depth, Nests Number.ReadsBack depth v

/-- **A document is read back from its text**, if its numbers are and no object has a name twice. -/
theorem read_pretty (hnumbers : Nests Number.ReadsBack maxDepth v) (hmerged : v.merged = v) :
    read (v.pretty ++ "\n") = .ok v := by
  rw [read, readRaw_pretty hnumbers]
  exact congrArg Except.ok hmerged

/-! ### In front of what closes a value -/

/-- **A value is read alike in front of whatever closes it**, within as many levels as it has. -/
theorem carries_value (hdepth : Nests (fun _ => True) k v) : Carries (value depth) (value k) v := by
  induction depth using Nat.strongRecOn generalizing k v with
  | ind depth ih =>
      intro cs r h
      obtain ⟨space, tail, hspace, ⟨d, items, rfl, rfl, rfl, hlist⟩ |
        ⟨d, members, rfl, rfl, rfl, hobject⟩ | ⟨c, rfl, -, htaken⟩⟩ := value_cases h
      · cases hdepth with
        | arr hitems =>
            have hread := (encloses_list d).takenTo_whole (encloses_list _)
              (fun v hv => ih d d.lt_succ_self (hitems v hv)) hlist
            exact (hread.taken.cons fun _ => rfl).append_space hspace
      · cases hdepth with
        | obj hmembers =>
            have hread := (encloses_object (value d)).takenTo_whole (encloses_object (value _))
              (fun m hm => (ih d d.lt_succ_self (hmembers m hm)).member) hobject
            exact (hread.taken.cons fun _ => rfl).append_space hspace
      · exact (htaken k).append_space hspace

/-- **A text that is read as a value by itself** is that value's, in front of whatever closes it. -/
theorem exists_readAs {s : String} (h : readRaw s = .ok v) (hdepth : Nests (fun _ => True) k v) :
    ∃ text space, s.toList = text ++ space ∧ (∀ c ∈ space, isSpace c = true) ∧ ReadAs k text v := by
  obtain ⟨space, hspace, hvalue⟩ := readRaw_eq_ok_iff.1 h
  obtain ⟨text, hs, hmore⟩ := carries_value hdepth _ _ hvalue
  exact ⟨text, space, hs, hspace, fun rest hrest => hmore rest (.inl hrest)⟩

/-- The core of a text of a list or an object: what stands between its two brackets, with them. -/
theorem exists_brackets {s : String} (h : readRaw s = .ok v)
    (hv : (∃ items, v = .arr items) ∨ ∃ members, v = .obj members) :
    ∃ space c front d space', s.toList = space ++ (c :: (front ++ [d]) ++ space') ∧
      (∀ c ∈ space, isSpace c = true) ∧ (∀ c ∈ space', isSpace c = true) ∧
      (c = '[' ∧ d = ']' ∨ c = '\x7b' ∧ d = '\x7d') ∧
      readRaw (String.ofList (c :: (front ++ [d]))) = .ok v := by
  obtain ⟨space', hspace', hvalue⟩ := readRaw_eq_ok_iff.1 h
  have hdepth := nests_of_value _ _ _ _ hvalue
  obtain ⟨space, tail, hspace, ⟨k, items, hk, hs, rfl, hlist⟩ | ⟨k, members, hk, hs, rfl, hobject⟩ |
    ⟨_, -, hleaf, -⟩⟩ := value_cases hvalue
  · rw [hk] at hdepth
    cases hdepth with
    | arr hitems =>
        obtain ⟨front, rfl, hmore⟩ := (encloses_list k).takenTo_whole (encloses_list k)
          (fun v hv => carries_value (hitems v hv)) hlist
        refine ⟨space, '[', front, ']', space', by simp [hs], hspace, hspace', .inl ⟨rfl, rfl⟩, ?_⟩
        refine readRaw_eq_ok_iff.2 ⟨[], List.forall_mem_nil _, ?_⟩
        rw [String.toList_ofList, hk]
        exact hmore []
  · rw [hk] at hdepth
    cases hdepth with
    | obj hmembers =>
        obtain ⟨front, rfl, hmore⟩ := (encloses_object (value k)).takenTo_whole
          (encloses_object (value k)) (fun m hm => (carries_value (hmembers m hm)).member) hobject
        refine ⟨space, '\x7b', front, '\x7d', space', by simp [hs], hspace, hspace', .inr ⟨rfl, rfl⟩, ?_⟩
        refine readRaw_eq_ok_iff.2 ⟨[], List.forall_mem_nil _, ?_⟩
        rw [String.toList_ofList, hk]
        exact hmore []
  · -- what has no parts is no list and no object
    rcases hv with ⟨items, rfl⟩ | ⟨members, rfl⟩ <;> cases hleaf

/-! ### Objects as they are written -/

/-- A member as it is written: its name between quotes, blanks before it and behind it, a colon, and the
text of its value. -/
structure MemberText where
  before : String
  literal : String
  between : String
  text : String

def MemberText.written (t : MemberText) : String :=
  t.before ++ "\"" ++ t.literal ++ "\"" ++ t.between ++ ":" ++ t.text

/-- The text of an object with these members. -/
def objectText (ts : List MemberText) : String :=
  "\x7b" ++ String.intercalate "," (ts.map MemberText.written) ++ "\x7d"

/-- A member is written with blanks where blanks may be, its name is the one that its literal gives, and
the text of its value is read as that value. -/
structure MemberText.Reads (t : MemberText) (m : String × Json) : Prop where
  before : ∀ c ∈ t.before.toList, isSpace c = true
  between : ∀ c ∈ t.between.toList, isSpace c = true
  name : stringBody (t.literal ++ "\"").toList = .ok (m.1.toList, [])
  value : readRaw t.text = .ok m.2

section

variable {t : MemberText} {ts : List MemberText}

theorem MemberText.Reads.writes (h : t.Reads m) (hdepth : Nests (fun _ => True) k m.2) :
    Writes (Json.memberBody (Json.value k)) t.written.toList m := by
  intro rest hrest
  obtain ⟨text, space, htext, hspace, hread⟩ := exists_readAs h.value hdepth
  obtain ⟨literal, hliteral, hmore⟩ := takenTo_of_stringBody h.name
  have hsame : t.literal.toList = literal := by
    simpa using hliteral
  refine ⟨space, hspace, ?_⟩
  have hwritten : t.written.toList ++ rest = t.before.toList ++ '"' :: (literal ++
      '"' :: (t.between.toList ++ ':' :: (text ++ (space ++ rest)))) := by
    simp [written, htext, hsame]
  rw [hwritten, skipSpace_blanks h.before rfl]
  exact memberBody_eq_ok_iff.2 ⟨_, m.1.toList, _, _, rfl, hmore _, skipSpace_blanks h.between rfl _,
    hread _ (closes_append hspace hrest), String.ofList_toList.symm⟩

theorem forall₂_writes (hts : List.Forall₂ MemberText.Reads ts members)
    (hdepth : ∀ m ∈ members, Nests (fun _ => True) k m.2) :
    List.Forall₂ (Writes (memberBody (value k))) (ts.map fun t => t.written.toList) members := by
  induction hts with
  | nil => exact .nil
  | cons ht _ ih =>
      exact .cons (ht.writes (hdepth _ List.mem_cons_self))
        (ih fun m hm => hdepth m (List.mem_cons_of_mem _ hm))

/-- **An object is read as the members that it is written with**, if it does not nest too deep. -/
theorem readRaw_objectText (hts : List.Forall₂ MemberText.Reads ts members) (hne : ts ≠ [])
    (hdepth : Nests (fun _ => True) maxDepth (.obj members)) :
    readRaw (objectText ts) = .ok (.obj members) := by
  have hparts : ∀ m ∈ members, Nests (fun _ => True) 126 m.2 := by
    cases hdepth with
    | obj hparts => exact hparts
  refine readRaw_eq_ok_iff.2 ⟨[], List.forall_mem_nil _, ?_⟩
  have htext : (objectText ts).toList =
      '\x7b' :: ([','].intercalate (ts.map fun t => t.written.toList) ++ ['\x7d']) := by
    simp [objectText, String.toList_intercalate, Function.comp_def]
  rw [htext]
  exact (encloses_object (value 126)).whole_written [] (List.forall_mem_nil _) (List.forall_mem_nil _)
    (by simpa using hne) (forall₂_writes hts hparts)

end

end StyleContract.Json
