import StyleContract.Proofs.Toml.Statements

/-!
# Proofs — Toml — Root

What the statements of a document do to its root table. Each of them looks at one entry and sets it, and
it neither enters a value nor changes one (`Touches`, `Statement.exists_touches`). So, by induction over the
statements of a text (`run`), an entry that is there stays there (`get?_run_ne_none`), a value stays what it
is (`get?_run_of_value`), and one value may be exchanged for another (`run_put_value`). A value that is put in
front stays in front, and **is refused if and only if the document has one of that name**
(`run_cons_value`). A difference inside a table stays inside it (`Alike.run`).
-/

namespace StyleContract.Toml

variable {name other : String} {i j : Item} {v w : Toml} {entries root root' final final' : Entries}
  {header path : List String} {cs rest : List Char} {st : Statement} {sts sts' : List Statement}
  {op : Entries → Option Entries} {set : Option Item → Option Item}

/-! ### Entries -/

namespace Entries

theorem get?_cons (entry : String × Item) :
    get? name (entry :: entries) = if entry.1 = name then some entry.2 else get? name entries := by
  by_cases h : entry.1 = name <;> simp [get?, h]

theorem get?_put_self : get? name (put name i entries) = some i := by
  induction entries with
  | nil => simp [put, get?_cons]
  | cons entry entries ih =>
      by_cases h : entry.1 = name
      · rw [put, if_pos h, get?_cons, if_pos h]
      · rw [put, if_neg h, get?_cons, if_neg h, ih]

theorem get?_put_of_ne (h : other ≠ name) : get? other (put name i entries) = get? other entries := by
  induction entries with
  | nil => simp [put, get?_cons, h.symm]
  | cons entry entries ih =>
      by_cases hentry : entry.1 = name
      · have hother : entry.1 ≠ other := fun heq => h (heq.symm.trans hentry)
        rw [put, if_pos hentry, get?_cons, get?_cons, if_neg hother, if_neg hother]
      · rw [put, if_neg hentry, get?_cons, get?_cons, ih]

/-- Two entries can be set in any order, if one of them is there already. -/
theorem put_comm (h : other ≠ name) (hname : get? name entries ≠ none) :
    put other i (put name j entries) = put name j (put other i entries) := by
  induction entries with
  | nil => exact absurd rfl hname
  | cons entry entries ih =>
      obtain ⟨k, item⟩ := entry
      rw [get?_cons] at hname
      by_cases hk : k = name
      · subst hk
        simp [put, h.symm]
      · rw [if_neg hk] at hname
        by_cases hother : k = other
        · subst hother
          simp [put, hk]
        · simp [put, hk, hother, ih hname]

theorem put_put (name : String) (i j : Item) (entries : Entries) :
    put name j (put name i entries) = put name j entries := by
  induction entries with
  | nil => simp [put]
  | cons entry entries ih => by_cases h : entry.1 = name <;> simp [put, h, ih]

theorem put_cons_of_ne (entry : String × Item) (h : entry.1 ≠ other) :
    put other i (entry :: entries) = entry :: put other i entries := if_neg h

end Entries

/-- An item that is no value, but a table or several. -/
def Item.IsOpen (i : Item) : Prop := ∀ v, i ≠ .value v

theorem isOpen_table (o : Origin) (inner : Entries) : (Item.table o inner).IsOpen := nofun

theorem isOpen_tables (all : List Entries) : (Item.tables all).IsOpen := nofun

/-! ### Statements -/

/-- An operation looks at one entry and sets it. It fails at a value, and leaves a table one. -/
structure Touches (op : Entries → Option Entries) (name : String) (set : Option Item → Option Item) :
    Prop where
  eq_map : ∀ root, op root = (set (Entries.get? name root)).map fun i => Entries.put name i root
  value : ∀ v, set (some (.value v)) = none
  isOpen : ∀ i j, set (some i) = some j → j.IsOpen

/-- What becomes of the table, or of the last one of several tables, through which a path leads. -/
def deepen (origin : Origin) (change : Origin → Entries → Option Entries) (path : List String) :
    Option Item → Option Item
  | none => (changeAt origin change path origin []).map (.table origin)
  | some (.value _) => none
  | some (.table o inner) =>
    if origin = .dotted ∧ o = .header then none
    else (changeAt origin change path o inner).map (.table o)
  | some (.tables all) =>
    match all.reverse with
    | [] => none
    | last :: before => (changeAt origin change path .header last).map fun last =>
      .tables (last :: before).reverse

theorem isOpen_of_deepen {origin : Origin} {change : Origin → Entries → Option Entries}
    {o : Option Item} (h : deepen origin change path o = some j) : j.IsOpen := by
  unfold deepen at h
  split at h
  · obtain ⟨inner, -, rfl⟩ := Option.map_eq_some_iff.1 h
    exact isOpen_table origin inner
  · cases h
  · obtain ⟨-, h⟩ := Option.ite_none_left_eq_some.1 h
    obtain ⟨inner, -, rfl⟩ := Option.map_eq_some_iff.1 h
    exact isOpen_table _ inner
  · split at h
    · cases h
    · obtain ⟨last, -, rfl⟩ := Option.map_eq_some_iff.1 h
      exact isOpen_tables _

theorem touches_changeAt (origin : Origin) (change : Origin → Entries → Option Entries)
    (step : String) (path : List String) (here : Origin) :
    Touches (changeAt origin change (step :: path) here) step (deepen origin change path) where
  eq_map root := by
    rw [changeAt]
    cases Entries.get? step root with
    | none =>
        simp only [deepen]
        cases changeAt origin change path origin [] <;> rfl
    | some i =>
        cases i with
        | value v => rfl
        | table o inner =>
            simp only [deepen]
            split
            · rfl
            · cases changeAt origin change path o inner <;> rfl
        | tables all =>
            simp only [deepen]
            cases all.reverse with
            | nil => rfl
            | cons last before =>
                dsimp only
                cases changeAt origin change path .header last <;> rfl
  value v := rfl
  isOpen i j h := isOpen_of_deepen h

/-- What becomes of the entry of a header. -/
def openItem : Option Item → Option Item
  | none => some (.table .header [])
  | some (.table .above children) => some (.table .header children)
  | some _ => none

/-- What becomes of the entry of a header of one more table. -/
def openListedItem : Option Item → Option Item
  | none => some (.tables [[]])
  | some (.tables all) => some (.tables (all ++ [[]]))
  | some _ => none

/-- Looks at one entry and sets it. -/
def setEntry (set : Option Item → Option Item) (name : String) (_ : Origin) (entries : Entries) :
    Option Entries :=
  (set (Entries.get? name entries)).map fun i => Entries.put name i entries

/-- Changes something at the last step of a path. -/
def atLast (origin : Origin) (change : String → Origin → Entries → Option Entries) (path : List String)
    (entries : Entries) : Option Entries :=
  path.getLast?.bind fun name => changeAt origin (change name) path.dropLast .header entries

theorem openTable_eq (path : List String) :
    openTable path = atLast .above (setEntry openItem) path := by
  funext entries
  refine Option.bind_congr fun name _ => ?_
  refine congrArg (changeAt .above · path.dropLast .header entries) ?_
  funext _ inside
  rw [setEntry]
  rcases Entries.get? name inside with _ | _ | ⟨o, _⟩ | _
  · rfl
  · rfl
  · cases o <;> rfl
  · rfl

theorem openListed_eq (path : List String) :
    openListed path = atLast .above (setEntry openListedItem) path := by
  funext entries
  refine Option.bind_congr fun name _ => ?_
  refine congrArg (changeAt .above · path.dropLast .header entries) ?_
  funext _ inside
  rw [setEntry]
  rcases Entries.get? name inside with _ | _ | _ | _ <;> rfl

theorem define_eq (path : List String) (v : Toml) :
    define path v .header = atLast .dotted (setKey (!path.dropLast.isEmpty) · v) path := rfl

/-- What is done at the last step of a path touches the first one. -/
theorem exists_touches_atLast (origin : Origin) {change : String → Origin → Entries → Option Entries}
    (hone : ∀ name, path = [name] → ∃ set, Touches (change name .header) name set) :
    ∃ name set, Touches (atLast origin change path) name set := by
  cases path with
  | nil => exact ⟨"", fun _ => none, fun _ => rfl, fun _ => rfl, fun _ _ h => nomatch h⟩
  | cons name path =>
      cases path with
      | nil => exact ⟨name, hone name rfl⟩
      | cons next path =>
          have hlast : atLast origin change (name :: next :: path) =
              changeAt origin (change ((next :: path).getLast (List.cons_ne_nil next path)))
                (name :: (next :: path).dropLast) .header := by
            funext entries
            rw [atLast, List.getLast?_eq_some_getLast (List.cons_ne_nil _ _), Option.bind_some,
              List.getLast_cons (List.cons_ne_nil next path)]
            rfl
          exact ⟨name, _, hlast ▸ touches_changeAt ..⟩

theorem touches_openItem (name : String) : Touches (setEntry openItem name .header) name openItem where
  eq_map _ := rfl
  value _ := rfl
  isOpen i j h := by
    rcases i with _ | ⟨_ | _ | _, _⟩ | _ <;> cases h
    exact isOpen_table .header _

theorem touches_openListedItem (name : String) :
    Touches (setEntry openListedItem name .header) name openListedItem where
  eq_map _ := rfl
  value _ := rfl
  isOpen i j h := by
    rcases i with _ | _ | _ <;> cases h
    exact isOpen_tables _

theorem touches_setKey (name : String) (v : Toml) :
    Touches (setKey false name v .header) name fun o => if o.isNone then some (.value v) else none where
  eq_map root := by
    rw [setKey]
    cases Entries.get? name root <;> rfl
  value _ := rfl
  isOpen _ _ h := nomatch h

/-- **A statement touches one entry of the root table.** -/
theorem Statement.exists_touches (st : Statement) (header : List String) :
    ∃ name set, Touches (st.apply header) name set := by
  cases st with
  | table path =>
      rw [apply, openTable_eq]
      exact exists_touches_atLast .above fun name _ => ⟨_, touches_openItem name⟩
  | listed path =>
      rw [apply, openListed_eq]
      exact exists_touches_atLast .above fun name _ => ⟨_, touches_openListedItem name⟩
  | keyed path v =>
      cases header with
      | cons name header => exact ⟨name, _, touches_changeAt _ _ name header .header⟩
      | nil =>
          show ∃ name set, Touches (define path v .header) name set
          rw [define_eq]
          refine exists_touches_atLast .dotted ?_
          rintro name rfl
          exact ⟨_, touches_setKey name v⟩

/-- A key without dots in the root table. -/
theorem apply_keyed_root (name : String) (v : Toml) (root : Entries) :
    (Statement.keyed [name] v).apply [] root =
      if Entries.get? name root = none then some (Entries.put name (.value v) root) else none := by
  show setKey false name v .header root = _
  rw [setKey]
  cases Entries.get? name root <;> rfl

namespace Touches

theorem ne_of_value (h : Touches op name set) (hroot : op root = some root')
    (hvalue : Entries.get? other root = some (.value v)) : other ≠ name := by
  rintro rfl
  rw [h.eq_map, hvalue, h.value] at hroot
  cases hroot

theorem get?_of_ne (h : Touches op name set) (hroot : op root = some root') (hne : other ≠ name) :
    Entries.get? other root' = Entries.get? other root := by
  rw [h.eq_map] at hroot
  obtain ⟨i, -, rfl⟩ := Option.map_eq_some_iff.1 hroot
  exact Entries.get?_put_of_ne hne

theorem get?_of_value (h : Touches op name set) (hroot : op root = some root')
    (hvalue : Entries.get? other root = some (.value v)) :
    Entries.get? other root' = some (.value v) :=
  (h.get?_of_ne hroot (h.ne_of_value hroot hvalue)).trans hvalue

theorem get?_self (h : Touches op name set) (hroot : op root = some root') :
    Entries.get? name root' = set (Entries.get? name root) := by
  rw [h.eq_map] at hroot
  obtain ⟨i, hi, rfl⟩ := Option.map_eq_some_iff.1 hroot
  rw [Entries.get?_put_self, hi]

theorem get?_self_ne_none (h : Touches op name set) (hroot : op root = some root') :
    Entries.get? name root' ≠ none := by
  rw [h.eq_map] at hroot
  obtain ⟨i, -, rfl⟩ := Option.map_eq_some_iff.1 hroot
  rw [Entries.get?_put_self]
  exact Option.some_ne_none i

theorem put_value (h : Touches op name set)
    (hvalue : Entries.get? other root = some (.value v)) (w : Toml) :
    op (Entries.put other (.value w) root) = (op root).map (Entries.put other (.value w)) := by
  rw [h.eq_map, h.eq_map, Option.map_map]
  by_cases hne : other = name
  · subst hne
    rw [Entries.get?_put_self, hvalue, h.value, h.value]
    rfl
  · rw [Entries.get?_put_of_ne (Ne.symm hne)]
    refine Option.map_congr fun i _ => ?_
    exact Entries.put_comm (Ne.symm hne) (hvalue ▸ Option.some_ne_none _)

theorem cons_of_ne (h : Touches op name set) (hne : other ≠ name) (i : Item) (root : Entries) :
    op ((other, i) :: root) = (op root).map ((other, i) :: ·) := by
  rw [h.eq_map, h.eq_map, Option.map_map, Entries.get?_cons, if_neg hne]
  exact Option.map_congr fun j _ => Entries.put_cons_of_ne (other, i) hne

theorem cons_value_self (h : Touches op name set) (v : Toml) (root : Entries) :
    op ((name, .value v) :: root) = none := by
  rw [h.eq_map, Entries.get?_cons, if_pos rfl, h.value]
  rfl

end Touches

/-! ### Runs -/

/-- What statements make of the root table, one after the other. -/
def run (header : List String) : List Statement → Entries → Option Entries
  | [], root => some root
  | st :: sts, root => (st.apply header root).bind (run (st.target header) sts)

/-- The statements of a text. -/
inductive Lists : List Char → List Statement → Prop
  | nil {cs : List Char} (h : skipAll cs = []) : Lists cs []
  | cons {cs rest : List Char} {st : Statement} {sts : List Statement}
      (h : statement (skipAll cs) = some (st, rest)) (t : Lists rest sts) : Lists cs (st :: sts)

theorem Lists.read_eq (h : Lists cs sts) : Place.read ⟨header, root, cs⟩ = run header sts root := by
  induction h generalizing header root with
  | nil h => rw [Place.read_eq, if_pos h, run]
  | cons h _ ih =>
      rw [Place.read_eq, if_neg (ne_nil_of_statement h), h, Option.bind_some, run]
      exact Option.bind_congr fun root _ => ih

theorem exists_statement_of_read (h : Place.read ⟨header, root, cs⟩ = some final)
    (hne : skipAll cs ≠ []) : ∃ st rest root', statement (skipAll cs) = some (st, rest) ∧
      st.apply header root = some root' ∧ Place.read ⟨st.target header, root', rest⟩ = some final := by
  rw [Place.read_eq, if_neg hne] at h
  obtain ⟨⟨st, rest⟩, hst, h⟩ := Option.bind_eq_some_iff.1 h
  obtain ⟨root', happly, h⟩ := Option.bind_eq_some_iff.1 h
  exact ⟨st, rest, root', hst, happly, h⟩

theorem exists_lists (h : Place.read ⟨header, root, cs⟩ = some final) : ∃ sts, Lists cs sts := by
  induction hlength : cs.length using Nat.strong_induction_on generalizing header root cs with
  | _ length ih =>
      by_cases hend : skipAll cs = []
      · exact ⟨[], .nil hend⟩
      · obtain ⟨st, rest, root', hst, -, h⟩ := exists_statement_of_read h hend
        have hshort := length_lt_of_statement hend hst
        have hskip := length_skipAll cs
        obtain ⟨sts, hsts⟩ := ih rest.length (by omega) h rfl
        exact ⟨st :: sts, .cons hst hsts⟩

/-- A text that can be read from some place is run from any. -/
theorem exists_run (h : Place.read ⟨header, root, cs⟩ = some final) :
    ∃ sts, ∀ header root, Place.read ⟨header, root, cs⟩ = run header sts root := by
  obtain ⟨sts, hsts⟩ := exists_lists h
  exact ⟨sts, fun _ _ => hsts.read_eq⟩

/-- An entry that is there stays there. -/
theorem get?_run_ne_none (h : run header sts root = some final)
    (hname : Entries.get? name root ≠ none) : Entries.get? name final ≠ none := by
  induction sts generalizing header root with
  | nil =>
      cases h
      exact hname
  | cons st sts ih =>
      obtain ⟨root', happly, hrun⟩ := Option.bind_eq_some_iff.1 h
      obtain ⟨touched, set, htouches⟩ := st.exists_touches header
      refine ih hrun ?_
      by_cases hne : name = touched
      · subst hne
        exact htouches.get?_self_ne_none happly
      · rwa [htouches.get?_of_ne happly hne]

/-- **A value stays what it is.** -/
theorem get?_run_of_value (h : run header sts root = some final)
    (hvalue : Entries.get? name root = some (.value v)) :
    Entries.get? name final = some (.value v) := by
  induction sts generalizing header root with
  | nil =>
      cases h
      exact hvalue
  | cons st sts ih =>
      obtain ⟨root', happly, hrun⟩ := Option.bind_eq_some_iff.1 h
      obtain ⟨touched, set, htouches⟩ := st.exists_touches header
      exact ih hrun (htouches.get?_of_value happly hvalue)

/-- **One value may be exchanged for another.** -/
theorem run_put_value (hvalue : Entries.get? name root = some (.value v)) (w : Toml) :
    run header sts (Entries.put name (.value w) root) =
      (run header sts root).map (Entries.put name (.value w)) := by
  induction sts generalizing header root with
  | nil => rfl
  | cons st sts ih =>
      obtain ⟨touched, set, htouches⟩ := st.exists_touches header
      rw [run, run, htouches.put_value hvalue, Option.bind_map, Option.map_bind]
      exact Option.bind_congr fun root' happly => ih (htouches.get?_of_value happly hvalue)

/-- **A value that is put in front** is refused if and only if there is an entry of its name in the end. -/
theorem run_cons_value (hname : Entries.get? name root = none) (v : Toml) :
    run header sts ((name, .value v) :: root) =
      ((run header sts root).filter fun final => (Entries.get? name final).isNone).map
        ((name, .value v) :: ·) := by
  induction sts generalizing header root with
  | nil => simp [run, hname, Option.filter]
  | cons st sts ih =>
      obtain ⟨touched, set, htouches⟩ := st.exists_touches header
      rw [run, run]
      by_cases hne : name = touched
      · subst hne
        rw [htouches.cons_value_self, Option.bind_none]
        symm
        rw [Option.map_eq_none_iff, Option.filter_eq_none_iff]
        intro final hfinal
        obtain ⟨root', happly, hrun⟩ := Option.bind_eq_some_iff.1 hfinal
        simpa using get?_run_ne_none hrun (htouches.get?_self_ne_none happly)
      · rw [htouches.cons_of_ne hne, Option.bind_map]
        cases happly : st.apply header root with
        | none => rfl
        | some root' => exact ih ((htouches.get?_of_ne happly hne).trans hname)

/-! ### Differences inside a table -/

/-- Two root tables that differ in their tables only. -/
def Alike (root root' : Entries) : Prop :=
  ∀ name, Entries.get? name root = Entries.get? name root' ∨
    ∃ i j, Entries.get? name root = some i ∧ Entries.get? name root' = some j ∧ i.IsOpen ∧ j.IsOpen

namespace Alike

variable {root₁ root₁' : Entries}

theorem get?_eq_value_iff (h : Alike root root') :
    Entries.get? name root = some (.value v) ↔ Entries.get? name root' = some (.value v) := by
  rcases h name with heq | ⟨i, j, hi, hj, hiopen, hjopen⟩
  · rw [heq]
  · rw [hi, hj]
    exact iff_of_false (fun heq => hiopen v (Option.some.inj heq)) fun heq =>
      hjopen v (Option.some.inj heq)

/-- What a key is set to below a header makes a difference inside a table. -/
theorem of_keyed (hheader : header ≠ []) (h : (Statement.keyed path v).apply header root = some root₁)
    (h' : (Statement.keyed path w).apply header root = some root₁') : Alike root₁ root₁' := by
  obtain ⟨name, header, rfl⟩ := List.exists_cons_of_ne_nil hheader
  have htouches (v : Toml) : Touches ((Statement.keyed path v).apply (name :: header)) name _ :=
    touches_changeAt .above (fun here inside => define path v here inside) name header .header
  intro other
  by_cases hne : other = name
  · subst hne
    have hself := (htouches v).get?_self h
    have hself' := (htouches w).get?_self h'
    obtain ⟨i, hi⟩ := Option.ne_none_iff_exists'.1 ((htouches v).get?_self_ne_none h)
    obtain ⟨j, hj⟩ := Option.ne_none_iff_exists'.1 ((htouches w).get?_self_ne_none h')
    exact .inr ⟨i, j, hi, hj, isOpen_of_deepen (hself.symm.trans hi),
      isOpen_of_deepen (hself'.symm.trans hj)⟩
  · exact .inl (((htouches v).get?_of_ne h hne).trans ((htouches w).get?_of_ne h' hne).symm)

/-- What touches one entry leaves a difference inside a table. -/
theorem touches (h : Alike root root') (htouches : Touches op name set)
    (hroot : op root = some root₁) (hroot' : op root' = some root₁') : Alike root₁ root₁' := by
  intro other
  by_cases hne : other = name
  · subst hne
    have hself := htouches.get?_self hroot
    have hself' := htouches.get?_self hroot'
    rcases h other with heq | ⟨i, j, hi, hj, -, -⟩
    · exact .inl (by rw [hself, hself', heq])
    · obtain ⟨i', hi'⟩ := Option.ne_none_iff_exists'.1 (htouches.get?_self_ne_none hroot)
      obtain ⟨j', hj'⟩ := Option.ne_none_iff_exists'.1 (htouches.get?_self_ne_none hroot')
      rw [hi, hi'] at hself
      rw [hj, hj'] at hself'
      exact .inr ⟨i', j', hi', hj', htouches.isOpen i i' hself.symm, htouches.isOpen j j' hself'.symm⟩
  · rw [htouches.get?_of_ne hroot hne, htouches.get?_of_ne hroot' hne]
    exact h other

/-- **A difference inside a table stays inside it.** -/
theorem run (h : Alike root root') (hrun : run header sts root = some final)
    (hrun' : Toml.run header sts root' = some final') : Alike final final' := by
  induction sts generalizing header root root' with
  | nil =>
      cases hrun
      cases hrun'
      exact h
  | cons st sts ih =>
      obtain ⟨root₁, happly, hrun⟩ := Option.bind_eq_some_iff.1 hrun
      obtain ⟨root₁', happly', hrun'⟩ := Option.bind_eq_some_iff.1 hrun'
      obtain ⟨touched, set, htouches⟩ := st.exists_touches header
      exact ih (h.touches htouches happly happly') hrun hrun'

end Alike

/-! ### Documents -/

theorem get?_table_closedEntries (entries : Entries) :
    get? (.table (closedEntries entries)) name = (Entries.get? name entries).map Item.closed := by
  induction entries with
  | nil => rfl
  | cons entry entries ih =>
      obtain ⟨k, i⟩ := entry
      by_cases hk : k = name
      · simp [get?, closedEntries, Entries.get?, hk]
      · simpa [get?, closedEntries, Entries.get?, hk] using ih

theorem closed_eq_int_iff {n : Int} : i.closed = .int n ↔ i = .value (.int n) := by
  cases i <;> simp [Item.closed]

end StyleContract.Toml
