import Mathlib.Data.List.Induction
import StyleContract.Files.Path
import StyleContract.Proofs.Text.Lines

/-!
# Proofs — Files — Path

Joined paths. The steps of a joined path are those of its two parts, one after the other
(`steps_join`); whether it starts at the top is told by its first part, and whether it can only name
a directory by its last one.

`dropIdle` does not change steps (`steps_dropIdle`), so the directory above a name is what is left before
it (`parent?_of_isName`).

`along` joins names one by one, as a walk does. **Such a path has these names as its steps**
(`steps_along`), so nothing is lost or merged on the way: it takes that names are neither empty nor
dots and hold no slash (`IsName`).
-/

namespace StyleContract

namespace Path

variable {base path : String}

/-! ### Two parts -/

theorem parts_append_slash (base path : String) :
    parts (base ++ "/" ++ path) = parts base ++ parts path := by
  rw [parts, String.toList_append, String.toList_append, List.append_assoc]
  exact Text.splitOn_append_cons '/' base.toList path.toList

theorem steps_append_slash (base path : String) :
    steps (base ++ "/" ++ path) = steps base ++ steps path := by
  rw [steps, parts_append_slash, List.filter_append, List.map_append]
  rfl

/-- Joined paths have a slash between them, the one that the first path ends with if it does. -/
theorem join_eq (hbase : base ≠ "") (hpath : isAbsolute path = false) :
    ∃ front, (base = front ∨ base = front ++ "/" ++ "") ∧ join base path = front ++ "/" ++ path := by
  have hempty : base.isEmpty = false := by simpa using hbase
  rw [join, hpath, hempty, Bool.or_self, if_neg Bool.false_ne_true]
  split
  · next hlast =>
    obtain ⟨cs, hcs⟩ := List.getLast?_eq_some_iff.1 (by simpa using hlast)
    have hfront : base = String.ofList cs ++ "/" ++ "" := String.toList_inj.1 (by simp [hcs])
    exact ⟨String.ofList cs, .inr hfront, by rw [hfront, String.append_empty]⟩
  · exact ⟨base, .inl rfl, rfl⟩

/-- **The steps of a joined path.** -/
theorem steps_join (h : isAbsolute path = false) :
    steps (join base path) = steps base ++ steps path := by
  by_cases hbase : base = ""
  · subst hbase
    rw [join, h]
    rfl
  · obtain ⟨front, rfl | rfl, hjoin⟩ := join_eq hbase h
    · rw [hjoin, steps_append_slash]
    · rw [hjoin, steps_append_slash, steps_append_slash, show steps "" = [] from rfl,
        List.append_nil]

theorem isAbsolute_join (hbase : base ≠ "") (h : isAbsolute path = false) :
    isAbsolute (join base path) = isAbsolute base := by
  obtain ⟨front, rfl | rfl, hjoin⟩ := join_eq hbase h
  · obtain ⟨c, cs, hcs⟩ : ∃ c cs, base.toList = c :: cs :=
      List.exists_cons_of_ne_nil fun hnil => hbase (String.toList_inj.1 hnil)
    rw [hjoin]
    simp [isAbsolute, hcs]
  · rw [hjoin]
    simp [isAbsolute]

theorem join_ne_empty (hbase : base ≠ "") (h : isAbsolute path = false) : join base path ≠ "" := by
  obtain ⟨front, -, hjoin⟩ := join_eq hbase h
  rw [hjoin]
  intro hempty
  simpa using congrArg String.toList hempty

theorem endsInFolder_join (h : isAbsolute path = false) :
    endsInFolder (join base path) = endsInFolder path := by
  by_cases hbase : base = ""
  · subst hbase
    rw [join, h]
    rfl
  · obtain ⟨front, -, hjoin⟩ := join_eq hbase h
    have hlast : (parts path).getLast? = some ((parts path).getLast (Text.splitOn_ne_nil _ _)) :=
      List.getLast?_eq_some_getLast _
    rw [hjoin, endsInFolder, endsInFolder, parts_append_slash, List.getLast?_append, hlast]
    rfl

/-! ### Names -/

/-- What an entry of a directory can be called. -/
structure IsName (name : String) : Prop where
  ne_empty : name ≠ ""
  ne_dot : name ≠ "."
  ne_up : name ≠ ".."
  slash_not_mem : '/' ∉ name.toList
  backslash_not_mem : '\\' ∉ name.toList

variable {name : String} {names : List String}

theorem parts_of_isName (h : IsName name) : parts name = [name.toList] :=
  Text.splitOn_of_not_mem h.slash_not_mem

theorem steps_of_isName (h : IsName name) : steps name = [name] := by
  have hne : name.toList ≠ [] := fun hnil => h.ne_empty (String.toList_inj.1 hnil)
  have hdot : name.toList ≠ ['.'] := fun hdot => h.ne_dot (String.toList_inj.1 hdot)
  simp [steps, parts_of_isName h, hdot, h.ne_empty]

theorem isAbsolute_of_isName (h : IsName name) : isAbsolute name = false := by
  cases hname : name.toList with
  | nil => simp [isAbsolute, hname]
  | cons c cs =>
      have hc : c ≠ '/' := fun hc => h.slash_not_mem (by simp [hname, hc])
      simpa [isAbsolute, hname] using hc

theorem endsInFolder_of_isName (h : IsName name) : endsInFolder name = false := by
  have hdot : name.toList ≠ ['.'] := fun hdot => h.ne_dot (String.toList_inj.1 hdot)
  simp [endsInFolder, parts_of_isName h, hdot, h.ne_empty]

/-! ### The directory above -/

theorem steps_append_slash_idle (base : String) (h : path = "" ∨ path = ".") :
    steps (base ++ "/" ++ path) = steps base := by
  rcases h with rfl | rfl
  · rw [steps_append_slash, show steps "" = [] from rfl, List.append_nil]
  · rw [steps_append_slash, show steps "." = [] from rfl, List.append_nil]

/-- Steps that stay in place may be dropped from the end. -/
theorem steps_dropIdle (cs : List Char) :
    steps (String.ofList (dropIdle cs).reverse) = steps (String.ofList cs.reverse) := by
  fun_induction dropIdle cs with
  | case1 rest ih =>
      have htext : String.ofList ('/' :: rest).reverse = String.ofList rest.reverse ++ "/" ++ "" :=
        String.toList_inj.1 (by simp)
      rw [ih, htext, steps_append_slash_idle _ (.inl rfl)]
  | case2 => rfl
  | case3 rest ih =>
      have htext : String.ofList ('.' :: '/' :: rest).reverse = String.ofList rest.reverse ++ "/" ++ "." :=
        String.toList_inj.1 (by simp)
      have htext' : String.ofList ('/' :: rest).reverse = String.ofList rest.reverse ++ "/" ++ "" :=
        String.toList_inj.1 (by simp)
      rw [ih, htext, htext', steps_append_slash_idle _ (.inl rfl), steps_append_slash_idle _ (.inr rfl)]
  | case4 cs => rfl

theorem dropIdle_of_isName {name : String} (h : IsName name) (rest : List Char) :
    dropIdle (name.toList.reverse ++ rest) = name.toList.reverse ++ rest := by
  have hslash : '/' ∉ name.toList.reverse := by simpa using h.slash_not_mem
  have hdot : name.toList.reverse ≠ ['.'] := fun heq =>
    h.ne_dot (String.toList_inj.1 (List.reverse_eq_cons_iff.1 heq))
  cases hname : name.toList.reverse with
  | nil => exact absurd (String.toList_inj.1 (List.reverse_eq_nil_iff.1 hname)) h.ne_empty
  | cons c cs =>
      rw [hname] at hslash hdot
      unfold dropIdle
      split
      · next heq =>
        cases heq
        exact absurd List.mem_cons_self hslash
      · next heq => exact heq.symm
      · next more heq =>
        obtain ⟨rfl, hmore⟩ := List.cons_eq_cons.1 heq
        cases cs with
        | nil => exact absurd rfl hdot
        | cons d cs =>
            cases hmore
            exact absurd (List.mem_cons_of_mem _ List.mem_cons_self) hslash
      · rfl

/-- The directory above a name: what is left before it, without idle steps at the end. -/
theorem parent?_of_isName {name path : String} {rest : List Char} (hname : IsName name)
    (hpath : path.toList.reverse = name.toList.reverse ++ rest)
    (hrest : rest.head?.all (· == '/') = true) :
    parent? path = some (if (dropIdle rest).isEmpty && isAbsolute path then "/"
      else String.ofList (dropIdle rest).reverse) := by
  have hslash : ∀ c ∈ name.toList.reverse, (c != '/') = true := fun c hc => by
    rw [bne_iff_ne]
    rintro rfl
    exact hname.slash_not_mem (List.mem_reverse.1 hc)
  have hdrop : (name.toList.reverse ++ rest).dropWhile (· != '/') = rest := by
    rw [List.dropWhile_append_of_pos hslash]
    cases rest with
    | nil => rfl
    | cons c rest =>
        have hc : c = '/' := by simpa using hrest
        simp [hc]
  rw [parent?, hpath, dropIdle_of_isName hname]
  split
  · next hnil =>
    have hempty := (List.append_eq_nil_iff.1 hnil).1
    exact absurd (String.toList_inj.1 (List.reverse_eq_nil_iff.1 hempty)) hname.ne_empty
  · rw [hdrop]

/-! ### Names one by one -/

/-- The path along some names. -/
def along (names : List String) : String := names.foldl join ""

theorem along_concat (names : List String) (name : String) :
    along (names ++ [name]) = join (along names) name := by
  rw [along, along, List.foldl_append]
  rfl

/-- **The steps of a path along names** are the names. -/
theorem steps_along (h : ∀ name ∈ names, IsName name) : steps (along names) = names := by
  -- from the end, since a path is joined to its last name last
  induction names using List.reverseRecOn with
  | nil => rfl
  | append_singleton names name ih =>
      rw [List.forall_mem_append, List.forall_mem_singleton] at h
      rw [along_concat, steps_join (isAbsolute_of_isName h.2), ih h.1, steps_of_isName h.2]

theorem isAbsolute_along (h : ∀ name ∈ names, IsName name) : isAbsolute (along names) = false := by
  induction names using List.reverseRecOn with
  | nil => rfl
  | append_singleton names name ih =>
      rw [List.forall_mem_append, List.forall_mem_singleton] at h
      rw [along_concat]
      by_cases hempty : along names = ""
      · rw [hempty, join, isAbsolute_of_isName h.2]
        exact isAbsolute_of_isName h.2
      · rw [isAbsolute_join hempty (isAbsolute_of_isName h.2), ih h.1]

theorem endsInFolder_along (h : ∀ name ∈ names, IsName name) (hne : names ≠ []) :
    endsInFolder (along names) = false := by
  obtain ⟨names, name, rfl⟩ : ∃ front last, names = front ++ [last] :=
    ⟨names.dropLast, names.getLast hne, (List.dropLast_concat_getLast hne).symm⟩
  have hname : IsName name := h name (by simp)
  rw [along_concat, endsInFolder_join (isAbsolute_of_isName hname), endsInFolder_of_isName hname]

theorem endsInFolder_append_slash (base : String) : endsInFolder (base ++ "/" ++ "") = true := by
  rw [endsInFolder, parts_append_slash, show parts "" = [[]] from rfl, List.getLast?_concat]
  rfl

/-- **A path along names has one slash between any two of them.** -/
theorem along_eq_intercalate (h : ∀ name ∈ names, IsName name) :
    along names = "/".intercalate names := by
  induction names using List.reverseRecOn with
  | nil => rfl
  | append_singleton names name ih =>
      rw [List.forall_mem_append, List.forall_mem_singleton] at h
      by_cases hnil : names = []
      · subst hnil
        rw [along_concat, List.nil_append, String.intercalate_singleton, join,
          isAbsolute_of_isName h.2]
        rfl
      · have hends := endsInFolder_along h.1 hnil
        have hne : along names ≠ "" := fun hempty => by
          rw [hempty] at hends
          exact absurd hends (by decide)
        rw [along_concat, String.intercalate_append_of_ne_nil hnil (List.cons_ne_nil _ _),
          String.intercalate_singleton, ← ih h.1]
        obtain ⟨front, heq | heq, hjoin⟩ := join_eq hne (isAbsolute_of_isName h.2)
        · rw [hjoin, heq]
        · rw [heq, endsInFolder_append_slash] at hends
          cases hends

/-- A path along names has the characters of the names and slashes. -/
theorem backslash_not_mem_along (h : ∀ name ∈ names, IsName name) :
    '\\' ∉ (along names).toList := by
  induction names using List.reverseRecOn with
  | nil => simp [along]
  | append_singleton names name ih =>
      rw [List.forall_mem_append, List.forall_mem_singleton] at h
      have hname := h.2.backslash_not_mem
      rw [along_concat, join]
      split
      · exact hname
      · split <;> simp [ih h.1, hname]

end Path

end StyleContract
