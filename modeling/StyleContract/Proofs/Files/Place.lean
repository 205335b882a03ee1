import StyleContract.Files.Write
import StyleContract.Proofs.Files.Walk

/-!
# Proofs — Files — Place

Where a path ends. A path is followed one step at a time, and a step may lead up again; its *place*
(`Path.place?`) is what is left when each step upwards undoes the one before it, the names on the way
from the top to where the path ends. A `Trail` is such a way with everything that lies on it: whoever
follows steps moves from trail to trail (`Trail.descend`), so **what steps lead to lies at their place**
(`at?_of_descend`).

Two consequences are used elsewhere: steps can be followed in two parts (`Trail.descend_append`), and
what is found at a name below a directory is the child of this name (`find_join`).
-/

namespace StyleContract

/-- The names at which a path ends, when each step upwards undoes the one before it. -/
def Path.place? (path : String) : Option (List String) := Entry.straighten [] (Path.steps path)

namespace Entry

/-- The children of a directory, also behind links. -/
def children? (e : Entry) : Option Children :=
  match e.behind with
  | some (.folder children) => some children
  | _ => none

/-- The content of a file, also behind links. -/
def content? (e : Entry) : Option ByteArray :=
  match e.behind with
  | some (.file content) => some content
  | _ => none

/-- What lies at some names below an entry. -/
def at? : List String → Entry → Option Entry
  | [], e => some e
  | name :: names, e => e.children?.bind fun children => (child? name children).bind (at? names)

/-- The content of the file at some names below an entry. -/
def fileAt? (names : List String) (e : Entry) : Option ByteArray := (e.at? names).bind content?

/-- The children of the directory at some names below an entry. -/
def folderAt? (names : List String) (e : Entry) : Option Children := (e.at? names).bind children?

variable {tree e last c : Entry} {children : Children} {name root : String}
  {names more steps done : List String} {above : List Entry}

theorem children?_eq_some_iff : e.children? = some children ↔ e.behind = some (.folder children) := by
  rw [children?]
  split
  · next h => simp [h]
  · next h =>
    constructor
    · exact fun hnone => nomatch hnone
    · exact fun hfolder => absurd hfolder (h children)

theorem content?_eq_some_iff {content : ByteArray} :
    e.content? = some content ↔ e.behind = some (.file content) := by
  rw [content?]
  split
  · next h => simp [h]
  · next h =>
    constructor
    · exact fun hnone => nomatch hnone
    · exact fun hfile => absurd hfile (h content)

theorem at?_append (names more : List String) (e : Entry) :
    e.at? (names ++ more) = (e.at? names).bind (at? more) := by
  induction names generalizing e with
  | nil => rfl
  | cons name names ih =>
      have hrest : at? (names ++ more) = fun e => (at? names e).bind (at? more) := funext ih
      simp only [List.cons_append, at?, Option.bind_assoc, hrest]

theorem at?_cons (h : e.children? = some children) :
    e.at? (name :: names) = (child? name children).bind (at? names) := by
  rw [at?, h, Option.bind_some]

/-! ### Trails -/

/-- Some names lead down to an entry, through the entries above it. Names and entries are listed
upwards. -/
inductive Trail (tree : Entry) : List String → List Entry → Entry → Prop where
  | top : Trail tree [] [] tree
  | down {done : List String} {above : List Entry} {e c : Entry} {name : String} {children : Children}
      (h : Trail tree done above e) (hname : name ≠ "..") (hchildren : e.children? = some children)
      (hchild : child? name children = some c) : Trail tree (name :: done) (e :: above) c

theorem Trail.at?_eq (h : Trail tree done above e) : tree.at? done.reverse = some e := by
  induction h with
  | top => rfl
  | down _ _ hchildren hchild ih =>
      rw [List.reverse_cons, at?_append, ih, Option.bind_some, at?_cons hchildren, hchild]
      rfl

/-- One step from a trail leads to another one, from where the others go on. -/
theorem Trail.descend_cons {step : String} (ht : Trail tree done above e)
    (h : descend above e (step :: steps) = .ok last) :
    ∃ done' above' next, Trail tree done' above' next ∧
      (∀ more, straighten done (step :: more) = straighten done' more) ∧
      ∀ more, descend above e (step :: more) = descend above' next more := by
  obtain ⟨children, hbehind, ⟨hup, up, above', rfl, hmore⟩ | ⟨hup, c, hchild, hmore⟩⟩ :=
    descend_cons_eq_ok h
  · -- the trail gets shorter by its last name
    cases ht with
    | down ht _ _ _ => exact ⟨_, _, _, ht, fun more => by simp [straighten, hup], hmore⟩
  · exact ⟨_, _, c, .down ht hup (children?_eq_some_iff.2 hbehind) hchild,
      fun more => by simp [straighten, hup], hmore⟩

/-- **Following steps from a trail ends on a trail**, at the names that are left of the steps. -/
theorem Trail.descend (ht : Trail tree done above e) (h : descend above e steps = .ok last) :
    ∃ done' above', Trail tree done' above' last ∧ straighten done steps = some done'.reverse ∧
      ∀ more, Entry.descend above e (steps ++ more) = Entry.descend above' last more := by
  induction steps generalizing done above e with
  | nil =>
      rw [Entry.descend] at h
      cases h
      exact ⟨done, above, ht, rfl, fun _ => rfl⟩
  | cons step steps ih =>
      obtain ⟨done', above', next, ht', hstraight, hdescend⟩ := ht.descend_cons h
      obtain ⟨done'', above'', ht'', hstraight', hdescend'⟩ := ih ht' (hdescend steps ▸ h)
      exact ⟨done'', above'', ht'', (hstraight steps).trans hstraight',
        fun more => (hdescend _).trans (hdescend' more)⟩

/-- **What steps lead to lies at their place.** -/
theorem at?_of_descend (h : descend [] tree steps = .ok last) :
    ∃ place, straighten [] steps = some place ∧ tree.at? place = some last := by
  obtain ⟨done, above, ht, hstraight, -⟩ := Trail.top.descend h
  exact ⟨done.reverse, hstraight, ht.at?_eq⟩

/-! ### Names below a directory -/

theorem descend_name (hchildren : e.children? = some children) (hname : name ≠ "..") :
    descend above e [name] =
      match child? name children with
      | some c => .ok c
      | none => .error .notFound := by
  rw [children?_eq_some_iff] at hchildren
  cases hchild : child? name children <;> simp [descend, hchildren, hname, hchild]

/-- What a look-up gives that ends at some entry, if anything. -/
def found : Option Entry → Except OsError Entry
  | some e => .ok e
  | none => .error .notFound

theorem find_eq {path : String} (hempty : path ≠ "") (habsolute : Path.isAbsolute path = false)
    (hend : Path.endsInFolder path = false) :
    tree.find path = (descend [] tree (Path.steps path)).bind fun e => found e.behind := by
  have hstart : ¬(path.isEmpty = true ∨ Path.isAbsolute path = true) := by simp [hempty, habsolute]
  rw [find, if_neg hstart]
  cases descend [] tree (Path.steps path) with
  | error e => rfl
  | ok e =>
      simp only [Bind.bind, Except.bind, hend, Bool.false_eq_true, if_false]
      split <;> next h => rw [h]; rfl

/-- A name below a root is looked up by following the root's steps first. -/
theorem find_join_eq (hname : Path.IsName name) (habsolute : Path.isAbsolute root = false) :
    tree.find (Path.join root name) =
      (descend [] tree (Path.steps root ++ [name])).bind fun e => found e.behind := by
  have hrelative := Path.isAbsolute_of_isName hname
  rw [find_eq, Path.steps_join hrelative, Path.steps_of_isName hname]
  · by_cases hroot : root = ""
    · rw [hroot, Path.join, hrelative]
      exact hname.ne_empty
    · exact Path.join_ne_empty hroot hrelative
  · by_cases hroot : root = ""
    · rw [hroot, Path.join, hrelative]
      exact hrelative
    · rw [Path.isAbsolute_join hroot hrelative, habsolute]
  · rw [Path.endsInFolder_join hrelative, Path.endsInFolder_of_isName hname]

/-- **What is found at a name below a directory** is the child of this name. -/
theorem find_join (hname : Path.IsName name) (habsolute : Path.isAbsolute root = false)
    (hroot : descend [] tree (Path.steps root) = .ok last) (hchildren : last.children? = some children) :
    tree.find (Path.join root name) = found ((child? name children).bind behind) := by
  obtain ⟨done, above, -, -, hdescend⟩ := Trail.top.descend hroot
  rw [find_join_eq hname habsolute, hdescend, descend_name hchildren hname.ne_up]
  cases child? name children <;> rfl

end Entry

end StyleContract
