import StyleContract.Files.Walk
import StyleContract.Proofs.Document.JsonReading
import StyleContract.Proofs.Files.Path

/-!
# Proofs — Files — Walk

**What a walk finds is there** (`located_of_mem_collectFiles`): looking up the path of a file that a
walk found, below the root of the walk, gives this file, and the path leads down from the root through
no ignored directory.

The walk and the look-up go their own ways. The walk descends by entries and writes a path along the
names that it meets; the look-up takes the path apart and follows its steps by name. `LiesAt` stands
between them: it says at which names a file lies in a directory, in the words of neither. They only
agree in a tree whose names can be told apart (`Named`): no directory has two entries of one name, and
each name is one that a path can hold.

What holds of each file and each directory of a tree holds of what is found in it
(`Everywhere.find`): a step, up or down, or through a link, never leaves the tree.
-/

namespace StyleContract

/-- A path that leads down from where it starts, through no ignored directory. -/
structure Path.Descends (path : String) : Prop where
  isAbsolute_eq : Path.isAbsolute path = false
  up_not_mem : ".." ∉ Path.steps path
  not_ignored : ∀ folder ∈ (Path.steps path).dropLast, folder ∉ ignoredFolders

theorem withSlashes_eq {path : String} (h : '\\' ∉ path.toList) : withSlashes path = path := by
  have hmap : path.toList.map (fun c => if c = '\\' then '/' else c) = path.toList := by
    refine (List.map_congr_left fun c hc => ?_).trans (List.map_id _)
    have hne : c ≠ '\\' := fun heq => h (heq ▸ hc)
    rw [if_neg hne, id]
  rw [withSlashes, hmap, String.ofList_toList]

namespace Entry

/-- Each file and each directory of a tree is of some kind, also behind links. -/
inductive Everywhere (file : ByteArray → Prop) (folder : List (String × Entry) → Prop) :
    Entry → Prop where
  | file {content : ByteArray} (h : file content) : Everywhere file folder (.file content)
  | folder {children : List (String × Entry)} (h : folder children)
      (hchildren : ∀ child ∈ children, Everywhere file folder child.2) :
      Everywhere file folder (.folder children)
  | broken : Everywhere file folder (.link none)
  | link {target : Entry} (h : Everywhere file folder target) :
      Everywhere file folder (.link (some target))

/-- The entries of a directory are told apart by names that are names. -/
structure ToldApart (children : List (String × Entry)) : Prop where
  nodup : (children.map (·.1)).Nodup
  isName : ∀ child ∈ children, Path.IsName child.1

/-- A tree whose entries have names that tell them apart. -/
def Named (tree : Entry) : Prop := tree.Everywhere (fun _ => True) ToldApart

/-- A tree whose texts are of some kind. -/
def Texts (p : String → Prop) (tree : Entry) : Prop :=
  tree.Everywhere (fun content => ∀ s, String.fromUTF8? content = some s → p s) fun _ => True

/-- A file lies in a directory at some names, the last one its own, and no directory on the way is
ignored. -/
inductive LiesAt (content : ByteArray) : List (String × Entry) → List String → Prop where
  | here {children : List (String × Entry)} {name : String}
      (h : (name, .file content) ∈ children) : LiesAt content children [name]
  | within {children inner : List (String × Entry)} {name : String} {names : List String}
      (h : (name, .folder inner) ∈ children) (hname : name ∉ ignoredFolders)
      (hinner : LiesAt content inner names) : LiesAt content children (name :: names)

variable {content : ByteArray} {children : List (String × Entry)} {names : List String}
  {tree e : Entry} {root : String}

theorem LiesAt.mono {others : List (String × Entry)} (h : LiesAt content children names)
    (hsub : ∀ child ∈ children, child ∈ others) : LiesAt content others names := by
  cases h with
  | here h => exact .here (hsub _ h)
  | within h hname hinner => exact .within (hsub _ h) hname hinner

/-! ### The walk -/

/-- **A walk finds files at the names that it writes down.** -/
theorem liesAt_of_mem_filesAmong (path : String) :
    ∀ (children : List (String × Entry)) (f : FoundFile), f ∈ filesAmong path children →
      ∃ content names, LiesAt content children names ∧
        f = ⟨withSlashes (names.foldl Path.join path), .file content⟩
  | [], _, hf => by rw [filesAmong] at hf; cases hf
  | (name, .file content) :: rest, f, hf => by
      rw [filesAmong, List.mem_cons] at hf
      rcases hf with rfl | hf
      · exact ⟨content, [name], .here List.mem_cons_self, rfl⟩
      · obtain ⟨content, names, hlies, rfl⟩ := liesAt_of_mem_filesAmong path rest f hf
        exact ⟨content, names, hlies.mono fun _ => List.mem_cons_of_mem _, rfl⟩
  | (name, .folder inner) :: rest, f, hf => by
      rw [filesAmong, List.mem_append] at hf
      rcases hf with hf | hf
      · split at hf
        · cases hf
        · next hname =>
          obtain ⟨content, names, hlies, rfl⟩ :=
            liesAt_of_mem_filesAmong (Path.join path name) inner f hf
          exact ⟨content, name :: names, .within List.mem_cons_self hname hlies, rfl⟩
      · obtain ⟨content, names, hlies, rfl⟩ := liesAt_of_mem_filesAmong path rest f hf
        exact ⟨content, names, hlies.mono fun _ => List.mem_cons_of_mem _, rfl⟩
  | (_, .link _) :: rest, f, hf => by
      rw [filesAmong] at hf
      obtain ⟨content, names, hlies, rfl⟩ := liesAt_of_mem_filesAmong path rest f hf
      exact ⟨content, names, hlies.mono fun _ => List.mem_cons_of_mem _, rfl⟩

theorem LiesAt.isName (h : LiesAt content children names) (hn : Named (.folder children)) :
    ∀ name ∈ names, Path.IsName name := by
  induction h with
  | here h =>
      cases hn with
      | folder hapart _ => exact List.forall_mem_singleton.2 (hapart.isName _ h)
  | within h _ _ ih =>
      cases hn with
      | folder hapart hchildren =>
          exact List.forall_mem_cons.2 ⟨hapart.isName _ h, ih (hchildren _ h)⟩

theorem LiesAt.ne_nil (h : LiesAt content children names) : names ≠ [] := by
  cases h <;> exact List.cons_ne_nil _ _

/-- The last name is that of the file, and the others are those of directories that were entered. -/
theorem LiesAt.not_ignored (h : LiesAt content children names) :
    ∀ folder ∈ names.dropLast, folder ∉ ignoredFolders := by
  induction h with
  | here h => exact fun _ h => nomatch h
  | within h hname hinner ih =>
      rw [List.dropLast_cons_of_ne_nil hinner.ne_nil]
      exact List.forall_mem_cons.2 ⟨hname, ih⟩

/-! ### The look-up -/

/-- Where names differ, an entry is found under its name. -/
theorem child?_eq_some {name : String} (hnodup : (children.map (·.1)).Nodup)
    (h : (name, e) ∈ children) : child? name children = some e := by
  induction children with
  | nil => cases h
  | cons child children ih =>
      rw [List.map_cons, List.nodup_cons] at hnodup
      rw [child?, List.find?_cons]
      rcases List.mem_cons.1 h with rfl | h
      · simp
      · have hne : child.1 ≠ name := fun heq =>
          hnodup.1 (heq ▸ List.mem_map_of_mem h)
        rw [beq_false_of_ne hne]
        exact ih hnodup.2 h

theorem descend_cons {above : List Entry} {step : String} {steps : List String} {c : Entry}
    (h : e.behind = some (.folder children)) (hstep : step ≠ "..")
    (hchild : child? step children = some c) :
    descend above e (step :: steps) = descend (e :: above) c steps := by
  simp only [descend, h, if_neg hstep, hchild]

/-- A step leads from a directory, up to the nearest one above it or down to one of its children. -/
theorem descend_cons_eq_ok {above : List Entry} {step : String} {steps : List String} {last : Entry}
    (h : descend above e (step :: steps) = .ok last) :
    ∃ children, e.behind = some (.folder children) ∧
      ((step = ".." ∧ ∃ up above', above = up :: above' ∧
          ∀ more, descend above e (step :: more) = descend above' up more) ∨
        (step ≠ ".." ∧ ∃ c, child? step children = some c ∧
          ∀ more, descend above e (step :: more) = descend (e :: above) c more)) := by
  cases hbehind : e.behind with
  | none => simp [descend, hbehind] at h
  | some entry =>
      cases entry with
      | file content => simp [descend, hbehind] at h
      | link target => simp [descend, hbehind] at h
      | folder children =>
          refine ⟨children, rfl, ?_⟩
          by_cases hup : step = ".."
          · cases above with
            | nil => simp [descend, hbehind, hup] at h
            | cons up above =>
                exact .inl ⟨hup, up, above, rfl, fun more => by simp [descend, hbehind, hup]⟩
          · cases hchild : child? step children with
            | none => simp [descend, hbehind, hup, hchild] at h
            | some c => exact .inr ⟨hup, c, rfl, fun more => descend_cons hbehind hup hchild⟩

/-- **Following the names of a file leads to it**, whatever lies above the directory. -/
theorem LiesAt.descend_eq (h : LiesAt content children names) (hn : Named (.folder children))
    (he : e.behind = some (.folder children)) (above : List Entry) :
    descend above e names = .ok (.file content) := by
  -- what lies above changes with each name, but no name leads up, so it is never looked at
  induction h generalizing e above with
  | here h =>
      cases hn with
      | folder hapart _ =>
          rw [descend_cons he (hapart.isName _ h).ne_up (child?_eq_some hapart.nodup h), descend]
  | within h _ _ ih =>
      cases hn with
      | folder hapart hchildren =>
          rw [descend_cons he (hapart.isName _ h).ne_up (child?_eq_some hapart.nodup h)]
          exact ih (hchildren _ h) rfl _

section

variable {file : ByteArray → Prop} {folder : List (String × Entry) → Prop}

theorem Everywhere.behind (h : Everywhere file folder tree) (he : tree.behind = some e) :
    Everywhere file folder e := by
  induction h with
  | file h => cases he; exact .file h
  | folder h hchildren => cases he; exact .folder h hchildren
  | broken => cases he
  | link _ ih => exact ih he

theorem Everywhere.child (h : Everywhere file folder (.folder children)) {name : String}
    (he : child? name children = some e) : Everywhere file folder e := by
  cases h with
  | folder _ hchildren =>
      obtain ⟨child, hfind, rfl⟩ := Option.map_eq_some_iff.1 he
      exact hchildren child (List.mem_of_find?_eq_some hfind)

/-- One step leads to an entry of the same tree, from where the others go on. -/
theorem Everywhere.descend_cons {above : List Entry} {step : String} {steps : List String}
    (htree : Everywhere file folder tree) (habove : ∀ up ∈ above, Everywhere file folder up)
    (h : descend above tree (step :: steps) = .ok e) :
    ∃ above' next, Everywhere file folder next ∧ (∀ up ∈ above', Everywhere file folder up) ∧
      ∀ more, descend above tree (step :: more) = descend above' next more := by
  obtain ⟨children, hbehind, ⟨-, up, above', rfl, hmore⟩ | ⟨-, c, hchild, hmore⟩⟩ :=
    descend_cons_eq_ok h
  · rw [List.forall_mem_cons] at habove
    exact ⟨above', up, habove.1, habove.2, hmore⟩
  · exact ⟨tree :: above, c, (htree.behind hbehind).child hchild,
      List.forall_mem_cons.2 ⟨htree, habove⟩, hmore⟩

/-- **Steps can be followed in two parts**, and lead to entries of the same tree. -/
theorem Everywhere.descend_append {above : List Entry} {steps : List String}
    (htree : Everywhere file folder tree) (habove : ∀ up ∈ above, Everywhere file folder up)
    (h : descend above tree steps = .ok e) :
    Everywhere file folder e ∧
      ∃ above', ∀ more, descend above tree (steps ++ more) = descend above' e more := by
  -- the directories above stay in the tree, whichever way a step leads
  induction steps generalizing above tree with
  | nil =>
      rw [descend] at h
      cases h
      exact ⟨htree, above, fun _ => rfl⟩
  | cons step steps ih =>
      obtain ⟨above', next, hnext, habove', heq⟩ := htree.descend_cons habove h
      obtain ⟨he, above'', hmore⟩ := ih hnext habove' (heq steps ▸ h)
      exact ⟨he, above'', fun more => (heq _).trans (hmore more)⟩

/-- What is found at a path: the steps lead to it, once links are followed. -/
theorem find_eq_ok (h : tree.find root = .ok e) :
    root ≠ "" ∧ Path.isAbsolute root = false ∧
      ∃ last, descend [] tree (Path.steps root) = .ok last ∧ last.behind = some e := by
  rw [find] at h
  by_cases hroot : root.isEmpty = true ∨ Path.isAbsolute root = true
  · rw [if_pos hroot] at h
    cases h
  · rw [if_neg hroot] at h
    rw [not_or, Bool.not_eq_true, Bool.not_eq_true] at hroot
    refine ⟨by simpa using hroot.1, hroot.2, ?_⟩
    obtain ⟨last, hlast, h⟩ := Document.bind_eq_ok_iff.1 h
    refine ⟨last, hlast, ?_⟩
    split at h
    · cases h
    · next children hbehind =>
      cases h
      exact hbehind
    · next entry _ hbehind =>
      split at h <;> cases h
      exact hbehind

/-- **What is found in a tree** is as everything in it. -/
theorem Everywhere.find (htree : Everywhere file folder tree) (h : tree.find root = .ok e) :
    Everywhere file folder e := by
  obtain ⟨-, -, last, hlast, hbehind⟩ := find_eq_ok h
  exact (htree.descend_append (List.forall_mem_nil _) hlast).1.behind hbehind

end

/-- A text that is read in a tree is one of its texts. -/
theorem Texts.of_readText {p : String → Prop} {path s : String} (h : tree.Texts p)
    (hread : tree.readText path = .ok s) : p s := by
  obtain ⟨e, he, htext⟩ := Document.bind_eq_ok_iff.1 hread
  cases Everywhere.find h he with
  | file hcontent =>
      rw [textOf] at htext
      split at htext
      · next heq =>
        cases htext
        exact hcontent _ heq
      · cases htext
  | folder | broken | link => cases htext

/-- **A file at some names below a directory is found** at the path along these names. -/
theorem LiesAt.find_eq (h : LiesAt content children names) (hn : Named tree)
    (hroot : tree.find root = .ok (.folder children)) :
    tree.find (Path.join root (Path.along names)) = .ok (.file content) := by
  have hnames := h.isName (Everywhere.find hn hroot)
  obtain ⟨hempty, habsolute, last, hlast, hbehind⟩ := find_eq_ok hroot
  have hpath : Path.isAbsolute (Path.along names) = false := Path.isAbsolute_along hnames
  have hstart : ¬((Path.join root (Path.along names)).isEmpty = true ∨
      Path.isAbsolute (Path.join root (Path.along names)) = true) := by
    rw [Path.isAbsolute_join hempty hpath, habsolute]
    simpa using Path.join_ne_empty hempty hpath
  have hend : Path.endsInFolder (Path.join root (Path.along names)) = false := by
    rw [Path.endsInFolder_join hpath, Path.endsInFolder_along hnames h.ne_nil]
  -- first the steps of the root, then the names, from wherever the root has led to
  obtain ⟨-, above, hmore⟩ := Everywhere.descend_append hn (List.forall_mem_nil _) hlast
  have hdescend : descend [] tree (Path.steps (Path.join root (Path.along names))) =
      .ok (.file content) := by
    rw [Path.steps_join hpath, Path.steps_along hnames, hmore,
      h.descend_eq (Everywhere.find hn hroot) hbehind above]
  rw [find, if_neg hstart, hdescend]
  simp only [Bind.bind, Except.bind, behind, hend, Bool.false_eq_true, if_false]

end Entry

/-! ### Found files -/

/-- A file lies below a root where its path says. -/
structure FoundFile.Located (tree : Entry) (root : String) (f : FoundFile) : Prop where
  find_eq : tree.find (Path.join root f.path) = .ok f.entry
  entry_eq : ∃ content, f.entry = .file content
  descends : Path.Descends f.path

variable {tree : Entry} {root : String} {most : Nat} {accept : String → Bool}
  {files : List FoundFile} {f : FoundFile}

theorem Entry.LiesAt.located {content : ByteArray} {children : List (String × Entry)}
    {names : List String} (h : LiesAt content children names) (hn : tree.Named)
    (hroot : tree.find root = .ok (.folder children)) :
    FoundFile.Located tree root ⟨withSlashes (Path.along names), .file content⟩ := by
  have hnames := h.isName (Everywhere.find hn hroot)
  rw [withSlashes_eq (Path.backslash_not_mem_along hnames)]
  refine ⟨h.find_eq hn hroot, ⟨content, rfl⟩, Path.isAbsolute_along hnames, ?_, ?_⟩
  · rw [Path.steps_along hnames]
    exact fun hup => (hnames _ hup).ne_up rfl
  · rw [Path.steps_along hnames]
    exact h.not_ignored

/-- **What a walk finds is there.** -/
theorem located_of_mem_collectFiles (hn : tree.Named) (haccept : accept "" = false)
    (h : collectFiles tree root most accept = .ok files) (hf : f ∈ files) :
    f.Located tree root := by
  obtain ⟨e, he, hfiles⟩ := Document.bind_eq_ok_iff.1 h
  cases hfiles
  have hmem := List.mem_mergeSort.1 (List.mem_of_mem_take hf)
  obtain ⟨hbelow, hpath⟩ := List.mem_filter.1 hmem
  cases e with
  | file content =>
      -- a root that is a file has no path of its own, and no scanner asks for such a file
      rw [Entry.filesBelow, List.mem_singleton] at hbelow
      rw [hbelow] at hpath
      exact nomatch hpath.symm.trans haccept
  | folder children =>
      rw [Entry.filesBelow] at hbelow
      obtain ⟨content, names, hlies, rfl⟩ := Entry.liesAt_of_mem_filesAmong "" children f hbelow
      exact hlies.located hn he
  | link target =>
      rw [Entry.filesBelow] at hbelow
      cases hbelow

end StyleContract
