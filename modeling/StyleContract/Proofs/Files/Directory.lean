import StyleContract.Proofs.Files.Write

/-!
# Proofs — Files — Directory

When steps lead to a directory: each part of the way ends at a place with a directory
(`isFolderAt_iff`), so a change that keeps directories keeps the ways to them (`Keeps.isFolderAt`).

Texts are written at names below a root. A root that is a directory stays as it is
(`makeFolders_of_isFolderAt`). One that is not is made on the way, and nothing is in it but what is
written (`at?_makeFolders`), unless its path leads upwards somewhere: then it may come to name a
directory that was there. Where this is excluded, **what was written is read**
(`readText_of_writeText_join`) and **other names below the root are looked up as before**
(`find_of_writeText_join`).
-/

namespace StyleContract.Entry

variable {tree tree' e last new : Entry} {children : Children} {name other path root text : String}
  {steps more names place done front : List String} {above : List Entry} {error : OsError}
  {change : Children → Except OsError Children}

/-! ### Ways to a directory -/

theorem straighten_append (steps more done : List String) :
    straighten done (steps ++ more) = (straighten done steps).bind fun p => straighten p.reverse more := by
  fun_induction straighten done steps with
  | case1 done => simp
  | case2 steps _ done ih => simpa [straighten] using ih
  | case3 steps => simp [straighten]
  | case4 done step steps hup ih => simpa [straighten, hup] using ih

/-- Steps that never lead upwards are names. -/
theorem straighten_of_forall_ne (h : ∀ step ∈ steps, step ≠ "..") (done : List String) :
    straighten done steps = some (done.reverse ++ steps) := by
  induction steps generalizing done with
  | nil => simp [straighten]
  | cons step steps ih =>
      rw [List.forall_mem_cons] at h
      simp [straighten, h.1, ih h.2]

theorem isFolderAt_eq_true_iff :
    tree.isFolderAt steps = true ↔
      ∃ last children, descend [] tree steps = .ok last ∧ last.children? = some children := by
  rw [isFolderAt]
  cases hdescend : descend [] tree steps with
  | error e => simp [Except.map]
  | ok last =>
      cases hbehind : last.behind with
      | none => simp [Except.map, children?, hbehind]
      | some e => cases e <;> simp [Except.map, children?, hbehind]

/-- Whoever goes on from an entry stands in a directory. -/
theorem children?_of_descend_cons {step : String}
    (h : descend above e (step :: steps) = .ok last) : ∃ children, e.children? = some children := by
  obtain ⟨children, hbehind, -⟩ := descend_cons_eq_ok h
  exact ⟨children, children?_eq_some_iff.2 hbehind⟩

theorem Trail.exists_descend_front (ht : Trail tree done above e)
    (h : Entry.descend above e (steps ++ more) = .ok last) :
    ∃ next, Entry.descend above e steps = .ok next := by
  induction steps generalizing done above e with
  | nil => exact ⟨e, rfl⟩
  | cons step steps ih =>
      obtain ⟨done', above', next, ht', -, hdescend⟩ := ht.descend_cons h
      rw [List.cons_append, hdescend] at h
      rw [hdescend]
      exact ih ht' h

/-- Each part of steps that lead to a directory ends at the place of one. -/
theorem exists_place_of_isFolderAt {front : List String} (h : tree.isFolderAt steps = true)
    (hfront : front <+: steps) :
    ∃ place, straighten [] front = some place ∧ (tree.folderAt? place).isSome := by
  obtain ⟨last, children, hlast, hchildren⟩ := isFolderAt_eq_true_iff.1 h
  obtain ⟨more, rfl⟩ := hfront
  obtain ⟨next, hnext⟩ := Trail.top.exists_descend_front hlast
  obtain ⟨done, above, ht, hplace, hrest⟩ := Trail.top.descend hnext
  -- the entry at the end of this part is the last one, or the way goes on from there
  obtain ⟨children, hfolder⟩ : ∃ children, next.children? = some children := by
    rw [hrest] at hlast
    cases more with
    | nil =>
        rw [descend] at hlast
        cases hlast
        exact ⟨children, hchildren⟩
    | cons step more => exact children?_of_descend_cons hlast
  exact ⟨_, hplace, by rw [folderAt?_of_at? ht.at?_eq, hfolder]; rfl⟩

/-- One step leads on from a directory, up or down, to the directory at its place. -/
theorem isFolderAt_append_singleton {step : String} {place : List String}
    (h : tree.isFolderAt steps = true) (hplace : straighten [] (steps ++ [step]) = some place)
    (hfolder : (tree.folderAt? place).isSome) : tree.isFolderAt (steps ++ [step]) = true := by
  obtain ⟨last, children, hlast, hchildren⟩ := isFolderAt_eq_true_iff.1 h
  obtain ⟨done, above, ht, hdone, hrest⟩ := Trail.top.descend hlast
  rw [straighten_append, hdone, Option.bind_some, List.reverse_reverse] at hplace
  obtain ⟨children', hchildren'⟩ := Option.isSome_iff_exists.1 hfolder
  rw [isFolderAt_eq_true_iff, hrest]
  rw [children?_eq_some_iff] at hchildren
  by_cases hup : step = ".."
  · cases ht with
    | top => simp [straighten, hup] at hplace
    | @down done above up _ name _ ht hname hup' hchild =>
        simp only [straighten, hup, if_true, Option.some.injEq] at hplace
        subst hplace
        rw [folderAt?_of_at? ht.at?_eq] at hchildren'
        exact ⟨up, children', by simp [descend, hchildren, hup], hchildren'⟩
  · simp only [straighten, hup, if_false, Option.some.injEq] at hplace
    subst hplace
    rw [List.reverse_cons, folderAt?, at?_append, ht.at?_eq, Option.bind_some,
      at?_cons (children?_eq_some_iff.2 hchildren)] at hchildren'
    obtain ⟨c, hc, hinner⟩ := Option.bind_eq_some_iff.1 hchildren'
    obtain ⟨_, hchild, ⟨⟩⟩ := Option.bind_eq_some_iff.1 hc
    exact ⟨c, children', by simp [descend, hchildren, hup, hchild], hinner⟩

/-- **When steps lead to a directory**: each part of them ends at the place of one. -/
theorem isFolderAt_iff :
    tree.isFolderAt steps = true ↔ ∀ front, front <+: steps →
      ∃ place, straighten [] front = some place ∧ (tree.folderAt? place).isSome := by
  refine ⟨fun h _ => exists_place_of_isFolderAt h, fun h => ?_⟩
  induction steps using List.reverseRecOn with
  | nil =>
      obtain ⟨place, hplace, hfolder⟩ := h [] List.prefix_rfl
      cases hplace
      obtain ⟨children, hchildren⟩ := Option.isSome_iff_exists.1 hfolder
      exact isFolderAt_eq_true_iff.2 ⟨tree, children, rfl, hchildren⟩
  | append_singleton steps step ih =>
      obtain ⟨place, hplace, hfolder⟩ := h (steps ++ [step]) List.prefix_rfl
      have hfront := ih fun front hfront => h front (hfront.trans (List.prefix_append _ _))
      exact isFolderAt_append_singleton hfront hplace hfolder

/-- All directories of one tree are directories of another one. -/
def Keeps (tree tree' : Entry) : Prop :=
  ∀ names, (tree.folderAt? names).isSome → (tree'.folderAt? names).isSome

theorem Keeps.isFolderAt (hk : Keeps tree tree') (h : tree.isFolderAt steps = true) :
    tree'.isFolderAt steps = true :=
  isFolderAt_iff.2 fun front hfront => by
    obtain ⟨place, hplace, hfolder⟩ := isFolderAt_iff.1 h front hfront
    exact ⟨place, hplace, hk place hfolder⟩

theorem Keeps.refl (tree : Entry) : Keeps tree tree := fun _ h => h

theorem Keeps.trans {tree'' : Entry} (h : Keeps tree tree') (h' : Keeps tree' tree'') :
    Keeps tree tree'' := fun names hfolder => h' names (h names hfolder)

/-- An entry that takes the place of no directory leaves all of them. -/
theorem Puts.keeps (h : Puts place new tree tree') (hfree : tree.folderAt? place = none) :
    Keeps tree tree' := by
  intro names hfolder
  have hbelow : ¬ place <+: names := fun hstart => by
    have hplace := folderAt?_isSome_of_front hfolder hstart
    rw [hfree] at hplace
    cases hplace
  by_cases habove : names <+: place
  · exact (h.above names habove fun heq => hbelow (heq ▸ List.prefix_rfl)).2
  · rwa [folderAt?, h.apart names habove hbelow]

/-! ### Directories that are made -/

theorem folderAt?_of_at?_eq_none (h : tree.at? names = none) : tree.folderAt? names = none := by
  rw [folderAt?, h, Option.bind_none]

theorem keeps_ensureFolder (tree : Entry) (above : List String) (name : String) :
    Keeps tree (ensureFolder tree above name).tree := by
  rw [ensureFolder]
  split
  · next h =>
    obtain ⟨place, -, hnone, hputs⟩ := puts_of_makeFolder h
    exact hputs.keeps (folderAt?_of_at?_eq_none hnone)
  · exact .refl tree

/-- **Making directories keeps those that are there.** -/
theorem keeps_makeFolders (tree : Entry) (steps : List String) :
    Keeps tree (makeFolders tree steps).tree := by
  fun_induction makeFolders tree steps with
  | case1 => exact .refl tree
  | case2 name above h ih =>
      rw [Change.andThen]
      split
      · exact ih.trans (keeps_ensureFolder _ _ _)
      · exact ih
  | case3 name above h => exact keeps_ensureFolder _ _ _

theorem at?_ensureFolder {above : List String} (hup : ∀ step ∈ above ++ [name], step ≠ "..")
    (hnames : ¬ names <+: above ++ [name]) :
    (ensureFolder tree above name).tree.at? names = tree.at? names := by
  rw [ensureFolder]
  split
  · next h =>
    obtain ⟨place, hplace, hnone, hputs⟩ := puts_of_makeFolder h
    rw [straighten_of_forall_ne hup] at hplace
    cases hplace
    by_cases hbelow : above ++ [name] <+: names
    · -- nothing was below the new directory, and it is empty
      obtain ⟨more, rfl⟩ := hbelow
      cases more with
      | nil => exact absurd (by simp) hnames
      | cons step more =>
          have hbefore : tree.at? (above ++ [name] ++ step :: more) = none := by
            rw [at?_append, show tree.at? (above ++ [name]) = none from hnone, Option.bind_none]
          rw [hbefore]
          exact (hputs.at?_below (step :: more)).trans rfl
    · exact hputs.apart names hnames hbelow
  · rfl

/-- New directories are made on the way and hold nothing else. -/
theorem at?_makeFolders (hup : ∀ step ∈ steps, step ≠ "..") (hnames : ¬ names <+: steps.reverse) :
    (makeFolders tree steps).tree.at? names = tree.at? names := by
  fun_induction makeFolders tree steps with
  | case1 => rfl
  | case2 name above h ih =>
      have hup' : ∀ step ∈ above.reverse ++ [name], step ≠ ".." := by simpa [or_comm] using hup
      rw [List.reverse_cons] at hnames
      have habove : ¬ names <+: above.reverse := fun hstart =>
        hnames (hstart.trans (List.prefix_append _ _))
      have hrest := ih (fun step hstep => hup step (List.mem_cons_of_mem _ hstep)) habove
      rw [Change.andThen]
      split
      · rw [at?_ensureFolder hup' hnames, hrest]
      · exact hrest
  | case3 name above h =>
      have hup' : ∀ step ∈ above.reverse ++ [name], step ≠ ".." := by simpa [or_comm] using hup
      rw [List.reverse_cons] at hnames
      exact at?_ensureFolder hup' hnames

theorem onFolder_eq_error (h : e.children? = some children) (hchange : change children = .error error) :
    onFolder change e = .error error := by
  fun_induction onFolder change e with
  | case1 children' =>
      cases h
      rw [hchange]
      rfl
  | case2 content => cases h
  | case3 e ih =>
      rw [ih h]
      rfl
  | case4 => cases h

theorem changeFolder_eq_error (h : tree.folderAt? names = some children)
    (hchange : change children = .error error) : changeFolder change names tree = .error error := by
  induction names generalizing tree with
  | nil => exact onFolder_eq_error h hchange
  | cons step names ih =>
      obtain ⟨outer, houter, h⟩ : ∃ outer, tree.children? = some outer ∧
          ((child? step outer).bind (at? names)).bind children? = some children := by
        obtain ⟨e, he, hchildren⟩ := at?_of_folderAt? h
        obtain ⟨outer, houter, hchild⟩ := Option.bind_eq_some_iff.1 he
        exact ⟨outer, houter, by rw [hchild]; exact hchildren⟩
      cases hchild : child? step outer with
      | none => simp [hchild] at h
      | some c =>
          rw [hchild, Option.bind_some] at h
          refine onFolder_eq_error houter ?_
          rw [hchild]
          exact congrArg (Except.map _) (ih h)

/-- **A directory that is there** need not be made, and nothing changes. -/
theorem makeFolders_of_isFolderAt (h : tree.isFolderAt steps.reverse = true) :
    makeFolders tree steps = ⟨tree, none⟩ := by
  cases steps with
  | nil => rfl
  | cons name above =>
      rw [List.reverse_cons] at h
      have habove : tree.isFolderAt above.reverse = true :=
        isFolderAt_iff.2 fun front hfront =>
          isFolderAt_iff.1 h front (hfront.trans (List.prefix_append _ _))
      obtain ⟨last, -, hlast, -⟩ := isFolderAt_eq_true_iff.1 habove
      obtain ⟨place, hplace, hfolder⟩ := isFolderAt_iff.1 habove _ List.prefix_rfl
      obtain ⟨children, hchildren⟩ := Option.isSome_iff_exists.1 hfolder
      have hexists : name = ".." ∨ (child? name children).isSome = true := by
        by_cases hup : name = ".."
        · exact .inl hup
        · obtain ⟨inner, hinner, hin⟩ := isFolderAt_iff.1 h _ List.prefix_rfl
          rw [straighten_concat hup, hplace] at hinner
          cases hinner
          obtain ⟨e, he, hchildren'⟩ := at?_of_folderAt? hchildren
          obtain ⟨inner, hinner⟩ := Option.isSome_iff_exists.1 hin
          obtain ⟨e', he', -⟩ := at?_of_folderAt? hinner
          rw [at?_append, he, Option.bind_some, at?_cons hchildren'] at he'
          obtain ⟨c, hc, -⟩ := Option.bind_eq_some_iff.1 he'
          exact .inr (by rw [hc]; rfl)
      have hmake : makeFolder tree above.reverse name = .error .exists := by
        rw [makeFolder, changeAt, hlast]
        simp only [bind, Except.bind, hplace]
        exact changeFolder_eq_error hchildren (if_pos hexists)
      rw [makeFolders, hmake]
      show ensureFolder tree above.reverse name = _
      rw [ensureFolder, hmake, h]
      rfl

/-! ### Files below a directory -/

theorem steps_folderOf {rest : List Char} (hname : Path.IsName name)
    (hpath : path.toList.reverse = name.toList.reverse ++ rest)
    (hrest : rest.head?.all (· == '/') = true) :
    Path.steps (folderOf path) = Path.steps (String.ofList rest.reverse) := by
  rw [folderOf, Path.parent?_of_isName hname hpath hrest, ← Path.steps_dropIdle rest]
  cases Path.dropIdle rest with
  | nil => cases Path.isAbsolute path <;> rfl
  | cons c cs =>
      have hne : (String.ofList (c :: cs).reverse).isEmpty = false := by simp
      simp only [List.isEmpty_cons, Bool.false_and, Bool.false_eq_true, if_false, hne]

/-- **The directory of a file at a name** below some path has the steps of this path. -/
theorem steps_folderOf_join (hname : Path.IsName name) :
    Path.steps (folderOf (Path.join root name)) = Path.steps root := by
  have hrelative := Path.isAbsolute_of_isName hname
  by_cases hroot : root = ""
  · have hjoin : Path.join root name = name := by rw [hroot, Path.join, hrelative]; rfl
    rw [hjoin, steps_folderOf hname (List.append_nil _).symm rfl, hroot]
    rfl
  · obtain ⟨front, hfront, hjoin⟩ := Path.join_eq hroot hrelative
    have hpath : (front ++ "/" ++ name).toList.reverse =
        name.toList.reverse ++ '/' :: front.toList.reverse := by simp
    have hrest : String.ofList ('/' :: front.toList.reverse).reverse = front ++ "/" ++ "" :=
      String.toList_inj.1 (by simp)
    rw [hjoin, steps_folderOf hname hpath rfl, hrest, Path.steps_append_slash_idle _ (.inl rfl)]
    rcases hfront with rfl | rfl
    · rfl
    · rw [Path.steps_append_slash_idle _ (.inl rfl)]

theorem place?_join (hname : Path.IsName name) :
    Path.place? (Path.join root name) = (Path.place? root).map (· ++ [name]) := by
  rw [Path.place?, Path.place?, Path.steps_join (Path.isAbsolute_of_isName hname),
    Path.steps_of_isName hname, straighten_concat hname.ne_up]

theorem withFolders_join (hname : Path.IsName name) :
    tree.withFolders (Path.join root name) = makeFolders tree (Path.steps root).reverse := by
  rw [withFolders, steps_folderOf_join hname]

theorem isFolderAt_of_folderAt? (hup : ∀ step ∈ steps, step ≠ "..")
    (h : (tree.folderAt? steps).isSome) : tree.isFolderAt steps = true :=
  isFolderAt_iff.2 fun front hfront =>
    ⟨front, straighten_of_forall_ne (fun step hstep => hup step (hfront.subset hstep)) [],
      folderAt?_isSome_of_front h hfront⟩

/-- Below a directory a name is looked up at its place. -/
theorem find_join_of_isFolderAt (hname : Path.IsName name) (hrelative : Path.isAbsolute root = false)
    (hfolder : tree.isFolderAt (Path.steps root) = true) (hplace : Path.place? root = some place) :
    tree.find (Path.join root name) = found ((tree.at? (place ++ [name])).bind behind) := by
  obtain ⟨last, children, hlast, hchildren⟩ := isFolderAt_eq_true_iff.1 hfolder
  obtain ⟨place', hplace', hat⟩ := at?_of_descend hlast
  cases hplace.symm.trans hplace'
  rw [find_join hname hrelative hlast hchildren, at?_append, hat, Option.bind_some, at?_cons hchildren]
  cases child? name children <;> rfl

theorem descend_append_error (h : descend above e steps = .error error) (more : List String) :
    descend above e (steps ++ more) = .error error := by
  fun_induction descend above e steps with
  | case1 => cases h
  | case2 e steps children hbehind up above ih => simpa [descend, hbehind] using ih h
  | case3 e steps children hbehind => simpa [descend, hbehind] using h
  | case4 above e step steps children hbehind hup c hchild ih =>
      simpa [descend, hbehind, hup, hchild] using ih h
  | case5 above e step steps children hbehind hup hchild =>
      simpa [descend, hbehind, hup, hchild] using h
  | case6 above e step steps entry hfile hbehind =>
      cases entry with
      | folder children => exact absurd rfl (hfile children)
      | file | link => simpa [descend, hbehind] using h
  | case7 above e step steps hbehind => simpa [descend, hbehind] using h

/-- Below what is no directory all names are looked up in vain, and for the same reason. -/
theorem exists_find_join_error (hrelative : Path.isAbsolute root = false)
    (hfolder : tree.isFolderAt (Path.steps root) = false) :
    ∃ error, ∀ name, Path.IsName name → tree.find (Path.join root name) = .error error := by
  cases hlast : descend [] tree (Path.steps root) with
  | error error =>
      refine ⟨error, fun name hname => ?_⟩
      rw [find_join_eq hname hrelative, descend_append_error hlast]
      rfl
  | ok last =>
      have hnone : last.children? = none := by
        cases hchildren : last.children? with
        | none => rfl
        | some children =>
            have htrue := isFolderAt_eq_true_iff.2 ⟨last, children, hlast, hchildren⟩
            rw [hfolder] at htrue
            cases htrue
      obtain ⟨done, above, -, -, hrest⟩ := Trail.top.descend hlast
      have herror : ∃ error, ∀ name, descend above last [name] = .error error := by
        cases hbehind : last.behind with
        | none => exact ⟨.notFound, fun name => by simp [descend, hbehind]⟩
        | some entry =>
            cases entry with
            | folder children => simp [children?, hbehind] at hnone
            | file | link => exact ⟨.notDirectory, fun name => by simp [descend, hbehind]⟩
      obtain ⟨error, herror⟩ := herror
      refine ⟨error, fun name hname => ?_⟩
      rw [find_join_eq hname hrelative, hrest, herror]
      rfl

theorem at?_eq_none_of_not_isFolderAt (hup : ∀ step ∈ steps, step ≠ "..")
    (hfolder : tree.isFolderAt steps = false) (name : String) : tree.at? (steps ++ [name]) = none := by
  cases hat : tree.at? (steps ++ [name]) with
  | none => rfl
  | some e =>
      rw [at?_append] at hat
      obtain ⟨outer, houter, hin⟩ := Option.bind_eq_some_iff.1 hat
      obtain ⟨children, hchildren, -⟩ := Option.bind_eq_some_iff.1 hin
      have htrue := isFolderAt_of_folderAt? hup (by rw [folderAt?_of_at? houter, hchildren]; rfl)
      rw [hfolder] at htrue
      cases htrue

theorem isAbsolute_of_replace {content : ByteArray} (h : replace tree path content = .ok tree') :
    Path.isAbsolute path = false := by
  rw [replace] at h
  split at h
  · cases h
  · next hpath => simpa using (not_or.1 hpath).2

/-! ### Texts below a directory -/

theorem textOf_toUTF8 (text : String) : textOf (.file text.toUTF8) = .ok text := by
  have htext : String.fromUTF8? text.toUTF8 = some text := dif_pos text.isValidUTF8
  rw [textOf, htext]

section

variable (hname : Path.IsName name)
  (hroot : ".." ∈ Path.steps root → tree.isFolderAt (Path.steps root) = true)
  (hread : ∀ error, tree.readText (Path.join root name) = .error error → error = .notFound)
  (h : (tree.writeText (Path.join root name) text).failure = none)

include hroot

theorem ne_up_of_not_isFolderAt (hfolder : tree.isFolderAt (Path.steps root) = false) :
    ∀ step ∈ Path.steps root, step ≠ ".." := by
  rintro step hstep rfl
  rw [hfolder] at hroot
  cases hroot hstep

include hname

theorem at?_withFolders_join (hplace : Path.place? root = some place) (other : String) :
    (tree.withFolders (Path.join root name)).tree.at? (place ++ [other]) =
      tree.at? (place ++ [other]) := by
  rw [withFolders_join hname]
  cases hfolder : tree.isFolderAt (Path.steps root) with
  | true => rw [makeFolders_of_isFolderAt (by rwa [List.reverse_reverse])]
  | false =>
      have hup := ne_up_of_not_isFolderAt hroot hfolder
      rw [Path.place?, straighten_of_forall_ne hup] at hplace
      cases hplace
      refine at?_makeFolders (by simpa using hup) fun hstart => ?_
      have hlength := hstart.length_le
      simp only [List.reverse_reverse, List.length_append, List.length_singleton] at hlength
      omega

include hread h

/-- **A text that is written below a directory** is at its place, where no directory was. -/
theorem puts_of_writeText_join :
    Path.isAbsolute root = false ∧ ∃ place, Path.place? root = some place ∧
      tree.folderAt? (place ++ [name]) = none ∧
      Puts (place ++ [name]) (.file text.toUTF8) (tree.withFolders (Path.join root name)).tree
        (tree.writeText (Path.join root name) text).tree := by
  have hput := replace_of_writeText h
  obtain ⟨place', name', -, hplace, -, -, hputs⟩ := puts_of_replace hput
  rw [place?_join hname] at hplace
  obtain ⟨place, hroot', heq⟩ := Option.map_eq_some_iff.1 hplace
  obtain ⟨rfl, hlast⟩ := List.append_inj' heq rfl
  cases hlast
  have hrelative : Path.isAbsolute root = false := by
    by_cases hempty : root = ""
    · rw [hempty]
      rfl
    · rw [← Path.isAbsolute_join hempty (Path.isAbsolute_of_isName hname)]
      exact isAbsolute_of_replace hput
  refine ⟨hrelative, place, hroot', ?_, hputs⟩
  cases hfolder : tree.isFolderAt (Path.steps root) with
  | true =>
      -- what was looked up in vain, or as the text of a file, is no directory
      cases hat : tree.folderAt? (place ++ [name]) with
      | none => rfl
      | some children =>
          obtain ⟨e, he, hchildren⟩ := at?_of_folderAt? hat
          have hfind := find_join_of_isFolderAt hname hrelative hfolder hroot'
          rw [he, Option.bind_some, children?_eq_some_iff.1 hchildren] at hfind
          have herror : tree.readText (Path.join root name) = .error .isDirectory := by
            rw [readText, hfind]
            rfl
          cases hread _ herror
  | false =>
      have hup := ne_up_of_not_isFolderAt hroot hfolder
      rw [Path.place?, straighten_of_forall_ne hup] at hroot'
      cases hroot'
      exact folderAt?_of_at?_eq_none (at?_eq_none_of_not_isFolderAt hup hfolder name)

/-- Below a directory a text is written so that the directory stays one, or comes to be one. -/
theorem isFolderAt_of_writeText_join :
    (tree.writeText (Path.join root name) text).tree.isFolderAt (Path.steps root) = true := by
  obtain ⟨-, place, hplace, hfree, hputs⟩ := puts_of_writeText_join hname hroot hread h
  have hfree' : (tree.withFolders (Path.join root name)).tree.folderAt? (place ++ [name]) = none := by
    rw [folderAt?, at?_withFolders_join hname hroot hplace, ← folderAt?, hfree]
  cases hfolder : tree.isFolderAt (Path.steps root) with
  | true => exact ((keeps_makeFolders _ _).trans (hputs.keeps hfree')).isFolderAt hfolder
  | false =>
      have hup := ne_up_of_not_isFolderAt hroot hfolder
      rw [Path.place?, straighten_of_forall_ne hup] at hplace
      cases hplace
      refine isFolderAt_of_folderAt? hup (hputs.above _ (List.prefix_append _ _) fun heq => ?_).2
      simpa using congrArg List.length heq

/-- **What was written is read.** -/
theorem readText_of_writeText_join :
    (tree.writeText (Path.join root name) text).tree.readText (Path.join root name) = .ok text := by
  obtain ⟨hrelative, place, hplace, -, hputs⟩ := puts_of_writeText_join hname hroot hread h
  have hfolder := isFolderAt_of_writeText_join hname hroot hread h
  have hfind := find_join_of_isFolderAt hname hrelative hfolder hplace
  rw [hputs.at_place] at hfind
  rw [readText, hfind]
  exact textOf_toUTF8 text

/-- **Other names are looked up as before.** -/
theorem find_of_writeText_join (hother : Path.IsName other) (hne : other ≠ name) :
    (tree.writeText (Path.join root name) text).tree.find (Path.join root other) =
      tree.find (Path.join root other) := by
  obtain ⟨hrelative, place, hplace, -, hputs⟩ := puts_of_writeText_join hname hroot hread h
  have hfolder' := isFolderAt_of_writeText_join hname hroot hread h
  have hapart : (tree.writeText (Path.join root name) text).tree.at? (place ++ [other]) =
      tree.at? (place ++ [other]) := by
    rw [hputs.apart, at?_withFolders_join hname hroot hplace]
    · simpa using hne
    · simpa using hne.symm
  rw [find_join_of_isFolderAt hother hrelative hfolder' hplace, hapart]
  cases hfolder : tree.isFolderAt (Path.steps root) with
  | true => rw [find_join_of_isFolderAt hother hrelative hfolder hplace]
  | false =>
      -- there was no directory, so nothing was found, and nothing else is in the new one
      have hup := ne_up_of_not_isFolderAt hroot hfolder
      rw [Path.place?, straighten_of_forall_ne hup] at hplace
      cases hplace
      obtain ⟨error, herror⟩ := exists_find_join_error hrelative hfolder
      have hnotFound : error = .notFound := hread error (by rw [readText, herror name hname]; rfl)
      rw [herror other hother, hnotFound]
      exact congrArg (fun e : Option Entry => found (e.bind behind))
        (at?_eq_none_of_not_isFolderAt hup hfolder other)

end

end StyleContract.Entry
