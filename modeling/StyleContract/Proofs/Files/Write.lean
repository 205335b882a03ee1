import StyleContract.Proofs.Files.Place
import StyleContract.Store

/-!
# Proofs — Files — Write

What a change of a tree leaves as it is. Putting an entry at a place (`Entry.Puts`) changes what lies
there and below, keeps the directories above, and nothing else is touched (`Puts.fileAt?_eq`).

Both ways of changing a tree do this: a new directory is put where nothing was (`puts_of_makeFolder`),
and a file in place of what was there (`puts_of_replace`). So **making directories changes no file**
(`fileAt?_makeFolders`), and **a text that is written is at the place of its path, with all other files
as they were** (`fileAt?_of_writeText`); if it cannot be written, no file has changed
(`fileAt?_of_writeText_failure`).
-/

namespace StyleContract.Entry

variable {tree tree' e e' new : Entry} {children children' : Children} {name path : String}
  {names others place more steps above done : List String}
  {change : Children → Except OsError Children}

theorem folderAt?_of_at? (h : tree.at? names = some e) : tree.folderAt? names = e.children? := by
  rw [folderAt?, h, Option.bind_some]

theorem at?_of_folderAt? (h : tree.folderAt? names = some children) :
    ∃ e, tree.at? names = some e ∧ e.children? = some children :=
  Option.bind_eq_some_iff.1 h

/-- What lies at some names lies in directories. -/
theorem folderAt?_isSome_of_front (h : (tree.folderAt? names).isSome) (hstart : others <+: names) :
    (tree.folderAt? others).isSome := by
  obtain ⟨more, rfl⟩ := hstart
  cases more with
  | nil => rwa [List.append_nil] at h
  | cons name more =>
      obtain ⟨children, hchildren⟩ := Option.isSome_iff_exists.1 h
      obtain ⟨e, he, -⟩ := at?_of_folderAt? hchildren
      rw [at?_append] at he
      obtain ⟨outer, houter, hin⟩ := Option.bind_eq_some_iff.1 he
      obtain ⟨inner, hinner, -⟩ := Option.bind_eq_some_iff.1 hin
      rw [folderAt?_of_at? houter, hinner, Option.isSome_some]

theorem fileAt?_eq_none_of_folderAt? (h : (tree.folderAt? names).isSome) :
    tree.fileAt? names = none := by
  obtain ⟨children, hchildren⟩ := Option.isSome_iff_exists.1 h
  obtain ⟨e, he, hfolder⟩ := at?_of_folderAt? hchildren
  rw [fileAt?, he, Option.bind_some, content?, children?_eq_some_iff.1 hfolder]

/-! ### One directory -/

theorem onFolder_eq_ok (h : onFolder change e = .ok e') :
    ∃ children children', e.children? = some children ∧ change children = .ok children' ∧
      e'.children? = some children' := by
  fun_induction onFolder change e generalizing e' with
  | case1 children =>
      cases hchange : change children with
      | error err => simp [hchange, Except.map] at h
      | ok children' =>
          rw [hchange] at h
          cases h
          exact ⟨children, children', rfl, hchange, rfl⟩
  | case2 content => cases h
  | case3 e ih =>
      cases hinner : onFolder change e with
      | error err => simp [hinner, Except.map] at h
      | ok inner =>
          rw [hinner] at h
          cases h
          obtain ⟨children, children', he, hchange, hinner'⟩ := ih hinner
          exact ⟨children, children', he, hchange, hinner'⟩
  | case4 => cases h

/-- A change of the directory at some names: what lies neither on the way nor below is as before. -/
theorem changeFolder_eq_ok (h : changeFolder change names tree = .ok tree') :
    ∃ children children', tree.folderAt? names = some children ∧ change children = .ok children' ∧
      tree'.folderAt? names = some children' ∧
      ∀ others, ¬ others <+: names → ¬ names <+: others → tree'.at? others = tree.at? others := by
  induction names generalizing tree tree' with
  | nil =>
      obtain ⟨children, children', htree, hchange, htree'⟩ := onFolder_eq_ok h
      exact ⟨children, children', htree, hchange, htree',
        fun others _ hbelow => absurd List.nil_prefix hbelow⟩
  | cons step names ih =>
      obtain ⟨outer, outer', htree, hchange, htree'⟩ := onFolder_eq_ok h
      cases hchild : child? step outer with
      | none => simp [hchild] at hchange
      | some c =>
          cases hinner : changeFolder change names c with
          | error err => simp [hchild, hinner, Except.map] at hchange
          | ok c' =>
              simp only [hchild, hinner, Except.map, Except.ok.injEq] at hchange
              subst hchange
              obtain ⟨children, children', hc, hinner', hc', hframe⟩ := ih hinner
              have hself : child? step (putChild step c' outer) = some c' :=
                child?_putChild_self _ _ _
              refine ⟨children, children', ?_, hinner', ?_, fun others habove hbelow => ?_⟩
              · rw [folderAt?, at?_cons htree, hchild]
                exact hc
              · rw [folderAt?, at?_cons htree', hself]
                exact hc'
              · cases others with
                | nil => exact absurd List.nil_prefix habove
                | cons other others =>
                    rw [at?_cons htree, at?_cons htree']
                    by_cases hother : other = step
                    · subst hother
                      rw [List.cons_prefix_cons, eq_self, true_and] at habove hbelow
                      rw [hchild, hself, Option.bind_some, Option.bind_some,
                        hframe others habove hbelow]
                    · rw [child?_putChild_of_ne hother]

/-! ### One entry -/

/-- A tree has a new entry at a place. The directories above it stay directories, and what lies
elsewhere is as before. -/
structure Puts (place : List String) (new tree tree' : Entry) : Prop where
  at_place : tree'.at? place = some new
  above : ∀ names, names <+: place → names ≠ place →
    (tree.folderAt? names).isSome ∧ (tree'.folderAt? names).isSome
  apart : ∀ names, ¬ names <+: place → ¬ place <+: names → tree'.at? names = tree.at? names

namespace Puts

/-- **No other file is touched.** -/
theorem fileAt?_eq (h : Puts place new tree tree') (hnames : ¬ place <+: names) :
    tree'.fileAt? names = tree.fileAt? names := by
  by_cases habove : names <+: place
  · have hne : names ≠ place := fun heq => hnames (heq ▸ List.prefix_rfl)
    obtain ⟨hfolder, hfolder'⟩ := h.above names habove hne
    rw [fileAt?_eq_none_of_folderAt? hfolder, fileAt?_eq_none_of_folderAt? hfolder']
  · rw [fileAt?, fileAt?, h.apart names habove hnames]

theorem at?_below (h : Puts place new tree tree') (more : List String) :
    tree'.at? (place ++ more) = new.at? more := by
  rw [at?_append, h.at_place, Option.bind_some]

end Puts

/-- Putting a child into a directory. -/
theorem puts_of_changeFolder (h : changeFolder change names tree = .ok tree')
    (hchange : ∀ children children', change children = .ok children' →
      children' = putChild name new children) : Puts (names ++ [name]) new tree tree' := by
  obtain ⟨children, children', hfolder, hput, hfolder', hframe⟩ := changeFolder_eq_ok h
  cases hchange _ _ hput
  obtain ⟨e, he, hchildren⟩ := at?_of_folderAt? hfolder
  obtain ⟨e', he', hchildren'⟩ := at?_of_folderAt? hfolder'
  refine ⟨?_, fun others habove hne => ?_, fun others habove hbelow => ?_⟩
  · rw [at?_append, he', Option.bind_some, at?_cons hchildren', child?_putChild_self]
    rfl
  · have hstart : others <+: names := (List.prefix_concat_iff.1 habove).resolve_left hne
    exact ⟨folderAt?_isSome_of_front (by rw [hfolder]; rfl) hstart,
      folderAt?_isSome_of_front (by rw [hfolder']; rfl) hstart⟩
  · by_cases hin : names <+: others
    · -- another child of the directory
      obtain ⟨rest, rfl⟩ := hin
      cases rest with
      | nil => exact absurd (by simp) habove
      | cons other rest =>
          have hother : other ≠ name := fun heq => hbelow (by simp [heq])
          rw [at?_append, at?_append, he, he', Option.bind_some, Option.bind_some,
            at?_cons hchildren, at?_cons hchildren', child?_putChild_of_ne hother]
    · have hout : ¬ others <+: names := fun hstart =>
        habove (hstart.trans (List.prefix_append _ _))
      exact hframe others hout hin

theorem straighten_concat (hname : name ≠ "..") (steps done : List String) :
    straighten done (steps ++ [name]) = (straighten done steps).map (· ++ [name]) := by
  fun_induction straighten done steps with
  | case1 done => simp [straighten, hname]
  | case2 steps _ done ih => simpa [straighten] using ih
  | case3 steps => simp [straighten]
  | case4 done step steps hup ih => simpa [straighten, hup] using ih

/-- Putting a child into the directory that steps lead to. -/
theorem puts_of_changeAt (h : changeAt tree steps change = .ok tree')
    (hchange : ∀ children children', change children = .ok children' →
      name ≠ ".." ∧ children' = putChild name new children) :
    ∃ names children, straighten [] (steps ++ [name]) = some (names ++ [name]) ∧
      tree.folderAt? names = some children ∧ (change children).toOption.isSome ∧
      Puts (names ++ [name]) new tree tree' := by
  obtain ⟨last, -, h⟩ := Document.bind_eq_ok_iff.1 h
  split at h
  · next names hnames =>
    obtain ⟨children, children', hfolder, hput, -⟩ := changeFolder_eq_ok h
    have hname := (hchange _ _ hput).1
    exact ⟨names, children, by rw [straighten_concat hname, hnames, Option.map_some], hfolder,
      by rw [hput]; rfl, puts_of_changeFolder h fun cs cs' hcs => (hchange cs cs' hcs).2⟩
  · cases h

/-! ### New directories -/

theorem puts_of_makeFolder (h : makeFolder tree above name = .ok tree') :
    ∃ place, straighten [] (above ++ [name]) = some place ∧ tree.at? place = none ∧
      Puts place empty tree tree' := by
  have hchange (cs cs' : Children)
      (hcs : (if name = ".." ∨ (child? name cs).isSome then .error .exists
        else .ok (putChild name empty cs) : Except OsError Children) = .ok cs') :
      (name ≠ ".." ∧ child? name cs = none) ∧ cs' = putChild name empty cs := by
    split at hcs
    · cases hcs
    · next hfree =>
      cases hcs
      simpa using hfree
  obtain ⟨names, children, hplace, hfolder, hput, hputs⟩ :=
    puts_of_changeAt h fun cs cs' hcs => ⟨(hchange cs cs' hcs).1.1, (hchange cs cs' hcs).2⟩
  obtain ⟨children', hput⟩ := Option.isSome_iff_exists.1 hput
  obtain ⟨e, he, hchildren⟩ := at?_of_folderAt? hfolder
  refine ⟨_, hplace, ?_, hputs⟩
  rw [at?_append, he, Option.bind_some, at?_cons hchildren,
    (hchange _ _ (Document.toOption_eq_some_iff.1 hput)).1.2]
  rfl

theorem fileAt?_of_makeFolder (h : makeFolder tree above name = .ok tree') (names : List String) :
    tree'.fileAt? names = tree.fileAt? names := by
  obtain ⟨place, -, hnone, hputs⟩ := puts_of_makeFolder h
  by_cases hin : place <+: names
  · obtain ⟨more, rfl⟩ := hin
    rw [fileAt?, fileAt?, hputs.at?_below, at?_append, hnone]
    cases more <;> rfl
  · exact hputs.fileAt?_eq hin

theorem fileAt?_ensureFolder (tree : Entry) (above names : List String) (name : String) :
    (ensureFolder tree above name).tree.fileAt? names = tree.fileAt? names := by
  rw [ensureFolder]
  split
  · next h => exact fileAt?_of_makeFolder h names
  · rfl

/-- **Making directories changes no file**, also if it fails. -/
theorem fileAt?_makeFolders (tree : Entry) (steps names : List String) :
    (makeFolders tree steps).tree.fileAt? names = tree.fileAt? names := by
  fun_induction makeFolders tree steps with
  | case1 => rfl
  | case2 name above h ih =>
      rw [Change.andThen]
      split
      · rw [fileAt?_ensureFolder, ih]
      · exact ih
  | case3 name above h => exact fileAt?_ensureFolder _ _ _ _

/-! ### New files -/

/-- Puts a file among the children of a directory, in place of one that is there. -/
def putFile (path name : String) (content : ByteArray) (children : Children) :
    Except OsError Children :=
  if name = ".." then .error busy
  else
    match child? name children with
    | some (.folder _) => .error .isDirectory
    | _ =>
      if Path.endsInFolder path then .error .notDirectory
      else .ok (putChild name (.file content) children)

theorem putFile_eq_ok {content : ByteArray} (h : putFile path name content children = .ok children') :
    name ≠ ".." ∧ (∀ inner, child? name children ≠ some (.folder inner)) ∧
      children' = putChild name (.file content) children := by
  rw [putFile] at h
  split at h
  · cases h
  · next hup =>
    split at h
    · cases h
    · next hfree =>
      split at h <;> cases h
      exact ⟨hup, hfree, rfl⟩

/-- **A file that was put in place** lies at the place of its path, where no directory was. -/
theorem puts_of_replace {content : ByteArray} (h : replace tree path content = .ok tree') :
    ∃ names name children, Path.place? path = some (names ++ [name]) ∧
      tree.folderAt? names = some children ∧
      (∀ inner, child? name children ≠ some (.folder inner)) ∧
      Puts (names ++ [name]) (.file content) tree tree' := by
  rw [replace] at h
  split at h
  · cases h
  · split at h
    · cases h
    · next name above hsteps =>
      have h : changeAt tree above.reverse (putFile path name content) = .ok tree' := h
      obtain ⟨names, children, hplace, hfolder, hput, hputs⟩ :=
        puts_of_changeAt h fun cs cs' hcs => ⟨(putFile_eq_ok hcs).1, (putFile_eq_ok hcs).2.2⟩
      obtain ⟨children', hput⟩ := Option.isSome_iff_exists.1 hput
      rw [← List.reverse_cons, ← hsteps, List.reverse_reverse] at hplace
      exact ⟨names, name, children, hplace, hfolder,
        (putFile_eq_ok (Document.toOption_eq_some_iff.1 hput)).2.1, hputs⟩

/-! ### Texts -/

variable {text : String} {error : Error}

/-- The directories above a file, as far as they can be made. -/
def withFolders (tree : Entry) (path : String) : Change OsError :=
  makeFolders tree (Path.steps (folderOf path)).reverse

theorem fileAt?_withFolders (tree : Entry) (path : String) (names : List String) :
    (tree.withFolders path).tree.fileAt? names = tree.fileAt? names :=
  fileAt?_makeFolders _ _ _

/-- A file can be put in place, or nothing changes. -/
theorem writeText_cases (tree : Entry) (path text : String) :
    (∃ message, tree.writeText path text =
      ⟨(tree.withFolders path).tree, some (.file message)⟩) ∨
    ∃ after, replace (tree.withFolders path).tree path text.toUTF8 = .ok after ∧
      tree.writeText path text = ⟨after, none⟩ := by
  rw [writeText, ← withFolders]
  cases hmade : (tree.withFolders path).failure with
  | some e =>
      simp only [Change.andThen, Change.mapError, hmade, Option.map_some]
      exact .inl ⟨_, rfl⟩
  | none =>
      simp only [Change.andThen, Change.mapError, hmade, Option.map_none]
      cases hput : replace (tree.withFolders path).tree path text.toUTF8 with
      | error e => exact .inl ⟨_, rfl⟩
      | ok after => exact .inr ⟨after, rfl, rfl⟩

/-- **A text that cannot be written** changes no file. -/
theorem fileAt?_of_writeText_failure (h : (tree.writeText path text).failure = some error) :
    (∃ message, error = .file message) ∧
      ∀ names, (tree.writeText path text).tree.fileAt? names = tree.fileAt? names := by
  rcases writeText_cases tree path text with ⟨message, heq⟩ | ⟨after, -, heq⟩
  · rw [heq] at h ⊢
    cases h
    exact ⟨⟨message, rfl⟩, fileAt?_withFolders tree path⟩
  · rw [heq] at h
    cases h

theorem replace_of_writeText (h : (tree.writeText path text).failure = none) :
    replace (tree.withFolders path).tree path text.toUTF8 =
      .ok (tree.writeText path text).tree := by
  rcases writeText_cases tree path text with ⟨message, heq⟩ | ⟨after, hput, heq⟩
  · rw [heq] at h
    cases h
  · rw [heq, hput]

/-- **A text that was written** lies at the place of its path, and no other file has changed. -/
theorem fileAt?_of_writeText (h : (tree.writeText path text).failure = none) :
    ∃ place, Path.place? path = some place ∧
      (tree.writeText path text).tree.fileAt? place = some text.toUTF8 ∧
      ∀ names, ¬ place <+: names →
        (tree.writeText path text).tree.fileAt? names = tree.fileAt? names := by
  obtain ⟨names, name, -, hplace, -, -, hputs⟩ := puts_of_replace (replace_of_writeText h)
  refine ⟨_, hplace, ?_, fun others hothers => ?_⟩
  · rw [fileAt?, hputs.at_place]
    rfl
  · rw [hputs.fileAt?_eq hothers, fileAt?_withFolders]

end StyleContract.Entry
